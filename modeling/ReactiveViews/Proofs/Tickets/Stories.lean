import ReactiveViews.Proofs.Tickets.Biding
/-!
# Stories of a queue

What happens to a queue is told as a story. Somebody queues a task or draws a ticket, a
flush begins, a task has its turn, a flush ends (`Moment.Step`). Each step is between
worlds as they come about, and a moment also says what the flush that is running still
owes, which no world does.

The law of tickets is a law of stories (`Moment.Step.law`). A ticket waits until a flush
begins, then for that flush, and is good from its end on, so the only thing that counts
is what happened after it was drawn. That no ticket waits for two flushes at once is part
of what makes a moment sound (`Moment.Sound`).
-/

namespace ReactiveViews

/-! ## Stories -/

/-- **Moment.** A world, and what the flush that is running, if there is one, still owes: the tasks
that have not had their turn, and the tickets to be made good. -/
structure Moment where
  world : World
  flush : Option (List Task × List TicketId)

/-- **Event.** -/
inductive Event
  /-- Somebody outside queues a task or draws a ticket. -/
  | incident (i : Incident)
  | began
  /-- A task has its turn. -/
  | turn (t : Task) (incidents : List Incident)
  | ended

/-- What happens to who waits, as long as nobody flushes the queue. -/
def Event.incidents : Event → List Incident
  | .incident i => [i]
  | .turn _ incidents => incidents
  | .began | .ended => []

/-- The world in which a flush has taken out what waited. -/
def World.begun (w : World) : World :=
  if w.queue.tasks = [] then { w with queue := w.queue.drain.2 } else w.flushing

/-- The world in which a flush that had to make some tickets good is over. -/
def World.flushed (w : World) (tickets : List TicketId) : World :=
  (({ w with queue := { w.queue with processing := false } } : World).redeemed tickets).requested

namespace Moment

/-- **Step.** What leads from one moment to the next. -/
inductive Step : Moment → Event → Moment → Prop
  | accept {w : World} {t : Task} (h : t ∉ w.queue.tasks) :
    Step ⟨w, none⟩ (.incident (.accepted t))
      ⟨({ w with queue := (w.queue.accept t).1 } : World).follow (w.queue.accept t).2, none⟩
  | draw {w : World} :
    Step ⟨w, none⟩ (.incident (.drawn (w.tickets.add false).1)) ⟨w.drew, none⟩
  | «begin» {w : World} : Step ⟨w, none⟩ .began ⟨w.begun, some (w.queue.tasks, w.queue.waiters)⟩
  | turn {w w₁ : World} {t : Task} {rest : List Task} {tickets : List TicketId} {depth : Nat}
    {outcome : Except Error Unit} {incidents : List Incident}
    (h : Machine.runUnder addsOnly depth (.update t) (w.inTurn t rest) = some (outcome, w₁))
    (hi : w.room.Goes incidents w₁.room) :
    Step ⟨w, some (t :: rest, tickets)⟩ (.turn t incidents)
      ⟨w.turnOver w₁ outcome, some (rest, tickets)⟩
  | «end» {w : World} {tickets : List TicketId} :
    Step ⟨w, some ([], tickets)⟩ .ended ⟨w.flushed tickets, none⟩

/-- **Story.** One step after another. -/
inductive Story : Moment → List Event → Moment → Prop
  | nil (m : Moment) : Story m [] m
  | cons {m m₁ m' : Moment} {e : Event} {told : List Event} (h : m.Step e m₁)
    (hr : Story m₁ told m') : Story m (e :: told) m'

/-- **Seeing.** The worlds of a moment: the one at hand, and wherever a call is made in the course of
the next turn. -/
inductive Sees (m : Moment) : World → Prop
  | here : Sees m m.world
  | calling {t : Task} {rest : List Task} {tickets : List TicketId} {depth : Nat} {c : Call}
    {y : World} (hf : m.flush = some (t :: rest, tickets))
    (hv : Machine.Visits addsOnly depth (.update t) (m.world.inTurn t rest) c y) : Sees m y

/-- **Sound moment.** The queue is asynchronous, a flush is running exactly if it owes something,
and whoever waits has drawn a ticket. -/
structure Sound (m : Moment) : Prop where
  async : m.world.queue.mode = .async
  idle : m.flush = none → m.world.queue.processing = false
  busy {t : Task} {rest : List Task} {tickets : List TicketId} :
    m.flush = some (t :: rest, tickets) → m.world.queue.processing = true
  waiters : ∀ ticket ∈ m.world.queue.waiters, ticket.index < m.world.tickets.size
  owed {tasks : List Task} {tickets : List TicketId} : m.flush = some (tasks, tickets) →
    ∀ ticket ∈ tickets, ticket.index < m.world.tickets.size ∧ ticket ∉ m.world.queue.waiters

end Moment

namespace World

variable {w : World} {ticket : TicketId}

theorem queue_begun (w : World) : w.begun.queue.tasks = [] ∧ w.begun.queue.waiters = [] ∧
    w.begun.queue.mode = w.queue.mode := by
  unfold begun
  split <;> exact ⟨rfl, rfl, rfl⟩

theorem tickets_begun (w : World) : w.begun.tickets = w.tickets := by
  unfold begun
  split <;> rfl

/-- The end of a flush leaves who waits alone, and no flush is running. -/
theorem queue_flushed (w : World) (tickets : List TicketId) :
    (w.flushed tickets).queue.tasks = w.queue.tasks ∧
      (w.flushed tickets).queue.waiters = w.queue.waiters ∧
      (w.flushed tickets).queue.processing = false ∧
      (w.flushed tickets).queue.mode = w.queue.mode := by
  let q : Queue := { w.queue with processing := false }
  have hq : (w.flushed tickets).queue = q.requestIfNeeded.1 := queue_requested _
  have hw : q.requestIfNeeded.1.waiters = q.waiters := (Queue.Step.request (q := q)).waiters
  rw [hq, Queue.tasks_requestIfNeeded, hw]
  exact ⟨rfl, rfl, Queue.fixed_requestIfNeeded q⟩

theorem tickets_flushed (w : World) (tickets : List TicketId) :
    (w.flushed tickets).tickets = tickets.foldl (fun s t => s.set t true) w.tickets := by
  unfold flushed requested
  rw [tickets_follow]
  rfl

/-- **The end of a flush makes its tickets good**, and no others. -/
theorem get_flushed (w : World) (tickets : List TicketId) (ticket : TicketId) :
    (w.flushed tickets).tickets.get ticket =
      if ticket ∈ tickets then true else w.tickets.get ticket := by
  have hget : ∀ (ts : List TicketId) (s : Store .ticket Bool),
      (ts.foldl (fun s t => s.set t true) s).get ticket =
        if ticket ∈ ts then true else s.get ticket := by
    intro ts
    induction ts with
    | nil => exact fun _ => rfl
    | cons t ts ih =>
      intro s
      rw [List.foldl_cons, ih, Store.get_set]
      by_cases hm : ticket ∈ ts <;> by_cases ht : t = ticket <;> simp [hm, ht, Ne.symm]
  rw [tickets_flushed]
  exact hget tickets w.tickets

theorem size_flushed (w : World) (tickets : List TicketId) :
    w.tickets.size ≤ (w.flushed tickets).tickets.size := by
  have hsize : ∀ (ts : List TicketId) (s : Store .ticket Bool),
      s.size ≤ (ts.foldl (fun s t => s.set t true) s).size := by
    intro ts
    induction ts with
    | nil => exact fun _ => Nat.le_refl _
    | cons t ts ih => exact fun s => Nat.le_trans (Store.size_le_modify s t fun _ => true) (ih _)
  rw [tickets_flushed]
  exact hsize tickets w.tickets

end World

namespace Moment

variable {m m₁ m₂ m' : Moment} {e : Event} {told later : List Event} {ticket : TicketId}

namespace Step

/-- A step that neither begins nor ends a flush is a matter of incidents. -/
theorem goes (h : m.Step e m') (hb : e ≠ .began) (he : e ≠ .ended) :
    m.world.room.Goes e.incidents m'.world.room := by
  cases h with
  | @accept w t ht =>
    rw [World.room_follow]
    have hq : ({ w with queue := (w.queue.accept t).1 } : World).room =
        { w.room with tasks := w.room.tasks ++ [t] } := by
      have hm : (w.queue.accept t).1.waiters = w.queue.waiters := by
        unfold Queue.accept Queue.request
        rw [if_neg ht]
        dsimp only
        split
        · rfl
        · split <;> rfl
      unfold World.room
      rw [Queue.tasks_accept, if_neg ht, hm]
    exact .one (hq ▸ .accepted w.room t)
  | draw => exact .one (World.room_drew _)
  | «begin» => exact absurd rfl hb
  | @turn w w₁ t rest tickets depth outcome incidents hrun hi =>
    have hr : (w.turnOver w₁ outcome).room = w₁.room := by cases outcome <;> rfl
    exact hr ▸ hi
  | «end» => exact absurd rfl he

end Step

/-- Whatever a task does in its turn, the queue stays in its mode, and a flush goes on running. -/
theorem bides_of_turn {w w₁ : World} {t : Task} {rest : List Task} {depth : Nat}
    {outcome : Except Error Unit} (hp : w.queue.processing = true) (hm : w.queue.mode = .async)
    (h : Machine.runUnder addsOnly depth (.update t) (w.inTurn t rest) = some (outcome, w₁)) :
    (w.inTurn t rest).Bides w₁ := by
  have hw : (biding w.room).Entry (.update t) (w.inTurn t rest) := ⟨hp, hm, [], .nil _⟩
  exact (Regime.run_agrees (biding_kept w.room) addsOnly (fun _ _ _ ha => ha) depth hw h).2.2

namespace Sound

/-- As long as nobody flushes the queue, moments stay sound. -/
theorem of_goes {incidents : List Incident} (hs : m.Sound)
    (h : m.world.room.Goes incidents m'.world.room)
    (hp : m'.world.queue.processing = m.world.queue.processing)
    (hm : m'.world.queue.mode = m.world.queue.mode) (hn : m'.flush = none → m.flush = none)
    (hf : ∀ tasks tickets, m'.flush = some (tasks, tickets) →
      ∃ t ts, m.flush = some (t :: ts, tickets)) : m'.Sound where
  async := hm.trans hs.async
  idle h := hp.trans (hs.idle (hn h))
  busy h := by
    obtain ⟨t, ts, ht⟩ := hf _ _ h
    exact hp.trans (hs.busy ht)
  waiters ticket ht := by
    obtain hold | hnew := h.waiters ht
    · exact Nat.lt_of_lt_of_le (hs.waiters ticket hold) h.subset.2.2
    · exact hnew.2
  owed hfl ticket ht := by
    obtain ⟨t, ts, hold⟩ := hf _ _ hfl
    obtain ⟨hlt, hw⟩ := hs.owed hold ticket ht
    refine ⟨Nat.lt_of_lt_of_le hlt h.subset.2.2, fun hw' => ?_⟩
    obtain hw' | hnew := h.waiters hw'
    · exact hw hw'
    · exact absurd hlt (Nat.not_lt.mpr hnew.1)

theorem step (hs : m.Sound) (h : m.Step e m') : m'.Sound := by
  have hg := h.goes
  cases h with
  | @accept w t ht =>
    have hq := congrArg Queue.processing
      (World.queue_follow { w with queue := (w.queue.accept t).1 } (w.queue.accept t).2)
    have hm := congrArg Queue.mode
      (World.queue_follow { w with queue := (w.queue.accept t).1 } (w.queue.accept t).2)
    exact hs.of_goes (hg nofun nofun) (hq.trans (Queue.fixed_accept _ t).1)
      (hm.trans (Queue.fixed_accept _ t).2) (fun _ => rfl) nofun
  | @draw w =>
    exact hs.of_goes (hg nofun nofun) w.bides_drew.processing w.bides_drew.mode (fun _ => rfl) nofun
  | @«begin» w =>
    obtain ⟨htasks, hwaiters, hmode⟩ := w.queue_begun
    have hw : ∀ ticket, ticket ∉ w.begun.queue.waiters := fun ticket h =>
      absurd (hwaiters ▸ h) List.not_mem_nil
    refine ⟨hmode.trans hs.async, nofun, fun {t rest tickets} h => ?_, fun ticket h => ?_,
      fun {tasks tickets} h ticket ht => ⟨?_, hw ticket⟩⟩
    · have ht : w.queue.tasks = t :: rest := congrArg Prod.fst (Option.some.inj h)
      show w.begun.queue.processing = true
      rw [World.begun, if_neg (ht ▸ List.cons_ne_nil t rest)]
      rfl
    · exact absurd h (hw ticket)
    · obtain rfl : w.queue.waiters = tickets := congrArg Prod.snd (Option.some.inj h)
      show ticket.index < w.begun.tickets.size
      rw [w.tickets_begun]
      exact hs.waiters ticket ht
  | @turn w w₁ t rest tickets depth outcome incidents hrun hi =>
    have hb := bides_of_turn (hs.busy rfl) hs.async hrun
    have hq := World.queue_turnOver w w₁ outcome
    refine hs.of_goes (hg nofun nofun) ((congrArg Queue.processing hq).trans hb.processing)
      ((congrArg Queue.mode hq).trans hb.mode) nofun fun tasks tickets' h => ⟨t, rest, ?_⟩
    obtain rfl : tickets = tickets' := congrArg Prod.snd (Option.some.inj h)
    rfl
  | @«end» w tickets =>
    obtain ⟨-, hwaiters, hprocessing, hmode⟩ := w.queue_flushed tickets
    refine ⟨hmode.trans hs.async, fun _ => hprocessing, nofun, fun ticket h => ?_, nofun⟩
    exact Nat.lt_of_lt_of_le (hs.waiters ticket (hwaiters ▸ h)) (w.size_flushed tickets)

theorem story (hs : m.Sound) (h : m.Story told m') : m'.Sound := by
  induction h with
  | nil => exact hs
  | cons h _ ih => exact ih (hs.step h)

/-- Wherever a call is made in the course of a turn, nobody has been let go. -/
theorem goes_of_sees (hs : m.Sound) {y : World} (h : m.Sees y) :
    ∃ incidents, m.world.room.Goes incidents y.room := by
  cases h with
  | here => exact ⟨[], .nil _⟩
  | @calling t rest tickets depth c y hf hv =>
    have hw : (biding m.world.room).Entry (.update t) (m.world.inTurn t rest) :=
      ⟨hs.busy hf, hs.async, [], .nil _⟩
    exact (Machine.entry_of_visits (biding_kept m.world.room) hw hv).2.2

end Sound

namespace Story

theorem append (h : m.Story told m₁) (h' : m₁.Story later m') : m.Story (told ++ later) m' := by
  induction h with
  | nil => exact h'
  | cons h _ ih => exact .cons h (ih h')

/-- A story can be cut at every place. -/
theorem split (h : m.Story (told ++ later) m') : ∃ m₁, m.Story told m₁ ∧ m₁.Story later m' := by
  induction told generalizing m with
  | nil => exact ⟨m, .nil m, h⟩
  | cons e told ih =>
    cases h with
    | cons he hr =>
      obtain ⟨m₂, h₁, h₂⟩ := ih hr
      exact ⟨m₂, .cons he h₁, h₂⟩

end Story

/-! ## The law -/

/-- **The first flush of a story**, if one begins and is over. -/
def FirstFlush (told flush : List Event) : Prop :=
  ∃ before after, told = before ++ .began :: (flush ++ .ended :: after) ∧
    .began ∉ before ∧ .ended ∉ flush

/-- A ticket waits for a flush to begin. -/
def Waits (m : Moment) (ticket : TicketId) : Prop :=
  ticket ∈ m.world.queue.waiters ∧ m.world.tickets.get ticket = false

/-- A ticket waits for the flush that is running to end. -/
def Owes (m : Moment) (ticket : TicketId) : Prop :=
  (∃ tasks tickets, m.flush = some (tasks, tickets) ∧ ticket ∈ tickets) ∧
    m.world.tickets.get ticket = false

/-- A ticket waits until a flush begins. -/
theorem Waits.step (hw : m.Waits ticket) (hs : m.Sound) (h : m.Step e m') (he : e ≠ .began) :
    m'.Waits ticket := by
  by_cases hend : e = .ended
  · subst hend
    cases h with
    | @«end» w tickets =>
      refine ⟨(w.queue_flushed tickets).2.1 ▸ hw.1, ?_⟩
      show (w.flushed tickets).tickets.get ticket = false
      rw [w.get_flushed, if_neg fun ht => (hs.owed rfl ticket ht).2 hw.1]
      exact hw.2
  · have hg := h.goes he hend
    exact ⟨hg.subset.2.1 hw.1, (hg.get ticket).trans hw.2⟩

/-- Then it waits for that flush. -/
theorem Waits.began (hw : m.Waits ticket) (h : m.Step .began m') : m'.Owes ticket := by
  cases h with
  | @«begin» w => exact ⟨⟨_, _, rfl, hw.1⟩, w.tickets_begun ▸ hw.2⟩

/-- It does so until the flush ends. -/
theorem Owes.step (ho : m.Owes ticket) (h : m.Step e m') (he : e ≠ .ended) : m'.Owes ticket := by
  obtain ⟨⟨tasks, tickets, hf, ht⟩, hg⟩ := ho
  have hgoes := h.goes
  cases h with
  | accept | draw | «begin» => exact absurd hf nofun
  | @turn w w₁ t rest tickets' depth outcome incidents hrun hi =>
    obtain rfl : tickets' = tickets := congrArg Prod.snd (Option.some.inj hf)
    exact ⟨⟨rest, _, rfl, ht⟩, ((hgoes nofun nofun).get ticket).trans hg⟩
  | «end» => exact absurd rfl he

/-- Then it is good. -/
theorem Owes.ended (ho : m.Owes ticket) (h : m.Step .ended m') :
    m'.world.tickets.get ticket = true := by
  obtain ⟨⟨tasks, tickets, hf, ht⟩, -⟩ := ho
  cases h with
  | @«end» w tickets' =>
    obtain rfl : tickets' = tickets := congrArg Prod.snd (Option.some.inj hf)
    show (w.flushed tickets').tickets.get ticket = true
    rw [w.get_flushed, if_pos ht]

/-- And it stays good. -/
theorem Step.good (h : m.Step e m') (hg : m.world.tickets.get ticket = true) :
    m'.world.tickets.get ticket = true := by
  by_cases hb : e = .began
  · subst hb
    cases h with
    | @«begin» w => exact w.tickets_begun ▸ hg
  · by_cases he : e = .ended
    · subst he
      cases h with
      | @«end» w tickets =>
        show (w.flushed tickets).tickets.get ticket = true
        rw [w.get_flushed]
        split
        · rfl
        · exact hg
    · exact ((h.goes hb he).get ticket).trans hg

namespace Story

theorem waits (h : m.Story told m') (hs : m.Sound) (hw : m.Waits ticket) (hb : .began ∉ told) :
    m'.Waits ticket := by
  induction h with
  | nil => exact hw
  | cons h _ ih =>
    have hne := List.ne_and_not_mem_of_not_mem_cons hb
    exact ih (hs.step h) (hw.step hs h hne.1.symm) hne.2

theorem owes (h : m.Story told m') (ho : m.Owes ticket) (he : .ended ∉ told) :
    m'.Owes ticket := by
  induction h with
  | nil => exact ho
  | cons h _ ih =>
    have hne := List.ne_and_not_mem_of_not_mem_cons he
    exact ih (ho.step h hne.1.symm) hne.2

theorem good (h : m.Story told m') (hg : m.world.tickets.get ticket = true) :
    m'.world.tickets.get ticket = true := by
  induction h with
  | nil => exact hg
  | cons h _ ih => exact ih (h.good hg)

/-- **A ticket that waits is made good by the first flush that begins**, when that ends. -/
theorem good_iff (h : m.Story told m') (hs : m.Sound) (hw : m.Waits ticket) :
    m'.world.tickets.get ticket = true ↔ ∃ flush, FirstFlush told flush := by
  constructor
  · intro hg
    by_cases hb : .began ∈ told
    · obtain ⟨before, rest, rfl, hnb⟩ := List.eq_append_cons_of_mem hb
      obtain ⟨m₁, h₁, h₂⟩ := h.split
      by_cases he : .ended ∈ rest
      · obtain ⟨flush, after, rfl, hne⟩ := List.eq_append_cons_of_mem he
        exact ⟨flush, before, after, rfl, hnb, hne⟩
      · cases h₂ with
        | cons hbegan hrest =>
          have ho := hrest.owes ((h₁.waits hs hw hnb).began hbegan) he
          exact absurd (ho.2.symm.trans hg) Bool.false_ne_true
    · exact absurd ((h.waits hs hw hb).2.symm.trans hg) Bool.false_ne_true
  · rintro ⟨flush, before, after, rfl, hnb, hne⟩
    obtain ⟨m₁, h₁, h₂⟩ := h.split
    cases h₂ with
    | cons hbegan hrest =>
      obtain ⟨m₃, h₃, h₄⟩ := hrest.split
      cases h₄ with
      | cons hended hafter =>
        have ho := h₃.owes ((h₁.waits hs hw hnb).began hbegan) hne
        exact hafter.good (ho.ended hended)

/-- What is queued stays queued until a flush begins. -/
theorem tasks (h : m.Story told m') (hb : .began ∉ told) :
    m.world.queue.tasks ⊆ m'.world.queue.tasks := by
  induction h with
  | nil => exact List.Subset.refl _
  | @cons m m₁ _ e _ h _ ih =>
    have hne := List.ne_and_not_mem_of_not_mem_cons hb
    refine List.Subset.trans ?_ (ih hne.2)
    by_cases he : e = .ended
    · subst he
      cases h with
      | @«end» w tickets => exact (w.queue_flushed tickets).1 ▸ List.Subset.refl _
    · exact (h.goes hne.1.symm he).subset.1

/-- What a flush has taken out has had its turn or is still to have it. -/
theorem turns (h : m.Story told m') (he : .ended ∉ told) {tasks : List Task}
    {tickets : List TicketId} (hf : m.flush = some (tasks, tickets)) :
    ∃ rest, m'.flush = some (rest, tickets) ∧
      ∀ t ∈ tasks, t ∈ rest ∨ ∃ incidents, .turn t incidents ∈ told := by
  induction h generalizing tasks with
  | nil => exact ⟨tasks, hf, fun t ht => .inl ht⟩
  | cons h hr ih =>
    have hne := List.ne_and_not_mem_of_not_mem_cons he
    cases h with
    | accept | draw | «begin» => exact absurd hf nofun
    | @turn w w₁ t rest tickets' depth outcome incidents hrun hi =>
      obtain ⟨rfl, rfl⟩ := Prod.mk.inj (Option.some.inj hf)
      obtain ⟨left, hl, ht⟩ := ih hne.2 rfl
      refine ⟨left, hl, fun u hu => ?_⟩
      obtain rfl | hu := List.mem_cons.mp hu
      · exact .inr ⟨incidents, List.mem_cons_self ..⟩
      · exact (ht u hu).imp_right fun ⟨is, h⟩ => ⟨is, List.mem_cons_of_mem _ h⟩
    | «end» => exact absurd rfl hne.1

/-- **What is queued has its turn in the first flush.** -/
theorem turn_of_queued (h : m.Story told m') {flush : List Event} (hfirst : FirstFlush told flush)
    {t : Task} (ht : t ∈ m.world.queue.tasks) : ∃ incidents, .turn t incidents ∈ flush := by
  obtain ⟨before, after, rfl, hnb, hne⟩ := hfirst
  obtain ⟨m₁, h₁, h₂⟩ := h.split
  cases h₂ with
  | cons hbegan hrest =>
    obtain ⟨m₃, h₃, h₄⟩ := hrest.split
    cases hbegan with
    | @«begin» w =>
      obtain ⟨rest, hrest, hturn⟩ := h₃.turns hne rfl
      cases h₄ with
      | cons hended _ =>
        cases hended with
        | «end» =>
          obtain rfl : [] = rest := congrArg Prod.fst (Option.some.inj hrest)
          exact (hturn t (h₁.tasks hnb ht)).resolve_left List.not_mem_nil

end Story

/-- **The law of tickets.** Whatever happens after a ticket was drawn, the ticket is good if and only
if a flush that began after it was drawn is over. In the first such flush everything has its turn that
was queued when the ticket was drawn. -/
theorem Step.law (hs : m.Sound) (h : m.Step e m₁) (hstory : m₁.Story told m')
    {before after : List Incident} {room : Room}
    (hi : e.incidents = before ++ .drawn ticket :: after) (hr : m.world.room.Goes before room) :
    (∀ y, m'.Sees y → (y.tickets.get ticket = true ↔ ∃ flush, FirstFlush told flush)) ∧
      ∀ flush, FirstFlush told flush → ∀ t ∈ room.tasks, ∃ incidents, .turn t incidents ∈ flush := by
  have hb : e ≠ .began := by
    rintro rfl
    exact absurd hi.symm (List.append_ne_nil_of_right_ne_nil before (List.cons_ne_nil _ _))
  have he : e ≠ .ended := by
    rintro rfl
    exact absurd hi.symm (List.append_ne_nil_of_right_ne_nil before (List.cons_ne_nil _ _))
  have hg : m.world.room.Goes (before ++ .drawn ticket :: after) m₁.world.room := hi ▸ h.goes hb he
  have hs₁ := hs.step h
  have hw : m₁.Waits ticket :=
    ⟨hg.drawn.1, (hg.get ticket).trans (Store.get_of_size_le _ hg.drawn.2.1)⟩
  constructor
  · intro y hy
    obtain ⟨incidents, hgy⟩ := (hs₁.story hstory).goes_of_sees hy
    have hget : y.tickets.get ticket = m'.world.tickets.get ticket := hgy.get ticket
    rw [hget]
    exact hstory.good_iff hs₁ hw
  · intro flush hf t ht
    obtain ⟨r, hbefore, hafter⟩ := hg.split
    obtain rfl := hr.unique hbefore
    exact hstory.turn_of_queued hf (hafter.subset.1 ht)

/-- A ticket that is drawn in a turn is not good as long as that turn lasts. -/
theorem Sound.get_of_sees (hs : m.Sound) {y : World} (hy : m.Sees y)
    (ht : m.world.tickets.size ≤ ticket.index) : y.tickets.get ticket = false := by
  obtain ⟨incidents, hg⟩ := hs.goes_of_sees hy
  exact (hg.get ticket).trans (Store.get_of_size_le _ ht)

end Moment

end ReactiveViews
