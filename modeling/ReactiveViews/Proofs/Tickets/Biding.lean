import ReactiveViews.Proofs.Delivery
/-!
# Who waits for a flush

Tasks and tickets wait for a flush. As long as nobody flushes the queue there are two
ways for that to change: a task is accepted, or a ticket is drawn. So whatever a task
does in its turn comes, as far as it concerns who waits, to a series of such incidents
(`biding_kept`). Whoever waits goes on waiting, in the same order, and nobody's ticket is
made good (`Room.Goes`).

This is what holds of calls while a flush is running in asynchronous mode, and as long
as they do not flush the queue themselves. In synchronous mode a ticket that is drawn
outside a flush is good at once.
-/

namespace ReactiveViews

/-! ## Who waits for a flush -/

/-- **Room.** Who waits for a flush, and which tickets are good. -/
structure Room where
  tasks : List Task
  waiters : List TicketId
  tickets : Store .ticket Bool

/-- **Incident.** What changes who waits, as long as nobody flushes the queue. -/
inductive Incident
  | accepted (t : Task)
  | drawn (ticket : TicketId)

namespace Room

/-- What an incident does to who waits. A ticket that is drawn is new and not good. -/
inductive Sees : Room → Incident → Room → Prop
  | accepted (r : Room) (t : Task) : Sees r (.accepted t) { r with tasks := r.tasks ++ [t] }
  | drawn (r : Room) : Sees r (.drawn (r.tickets.add false).1)
    { r with
      waiters := r.waiters ++ [(r.tickets.add false).1]
      tickets := (r.tickets.add false).2 }

/-- **Goings-on.** One incident after another. -/
inductive Goes : Room → List Incident → Room → Prop
  | nil (r : Room) : Goes r [] r
  | cons {r r₁ r' : Room} {i : Incident} {incidents : List Incident} (h : r.Sees i r₁)
    (hr : Goes r₁ incidents r') : Goes r (i :: incidents) r'

namespace Goes

variable {r r₁ r' : Room} {incidents later : List Incident}

theorem one {i : Incident} (h : r.Sees i r') : r.Goes [i] r' := .cons h (.nil r')

theorem append (h : r.Goes incidents r₁) (h' : r₁.Goes later r') :
    r.Goes (incidents ++ later) r' := by
  induction h with
  | nil => exact h'
  | cons h _ ih => exact .cons h (ih h')

/-- What goes on can be cut at every place. -/
theorem split (h : r.Goes (incidents ++ later) r') :
    ∃ r₁, r.Goes incidents r₁ ∧ r₁.Goes later r' := by
  induction incidents generalizing r with
  | nil => exact ⟨r, .nil r, h⟩
  | cons i incidents ih =>
    cases h with
    | cons hi hr =>
      obtain ⟨r₂, h₁, h₂⟩ := ih hr
      exact ⟨r₂, .cons hi h₁, h₂⟩

/-- There is one way for things to go on. -/
theorem unique (h : r.Goes incidents r₁) (h' : r.Goes incidents r') : r₁ = r' := by
  induction h with
  | nil =>
    cases h'
    rfl
  | cons hi _ ih =>
    cases h' with
    | cons hi' hr' =>
      cases hi <;> cases hi' <;> exact ih hr'

/-- Whoever waits goes on waiting. -/
theorem subset (h : r.Goes incidents r') :
    r.tasks ⊆ r'.tasks ∧ r.waiters ⊆ r'.waiters ∧ r.tickets.size ≤ r'.tickets.size := by
  induction h with
  | nil => exact ⟨List.Subset.refl _, List.Subset.refl _, Nat.le_refl _⟩
  | cons h _ ih =>
    cases h with
    | accepted t => exact ⟨List.Subset.trans (List.subset_append_left _ _) ih.1, ih.2⟩
    | drawn =>
      refine ⟨ih.1, List.Subset.trans (List.subset_append_left _ _) ih.2.1, Nat.le_trans ?_ ih.2.2⟩
      simp [Store.size, Store.add]

/-- **Nobody's ticket is made good**, neither one that was drawn before nor a new one. -/
theorem get (h : r.Goes incidents r') (ticket : TicketId) :
    r'.tickets.get ticket = r.tickets.get ticket := by
  induction h with
  | nil => rfl
  | @cons r _ _ _ _ h _ ih =>
    rw [ih]
    cases h with
    | accepted t => rfl
    | drawn =>
      by_cases ht : ticket = (r.tickets.add false).1
      · rw [ht, Store.get_add_self, Store.get_next]
        rfl
      · exact Store.get_add_of_ne _ _ _ ht

/-- Whoever waits anew has a new ticket. -/
theorem waiters (h : r.Goes incidents r') {ticket : TicketId} (ht : ticket ∈ r'.waiters) :
    ticket ∈ r.waiters ∨ r.tickets.size ≤ ticket.index ∧ ticket.index < r'.tickets.size := by
  induction h with
  | nil => exact .inl ht
  | @cons r _ _ _ _ h hr ih =>
    have hs := hr.subset.2.2
    cases h with
    | accepted t => exact ih ht
    | drawn =>
      have hadd : (r.tickets.add false).2.size = r.tickets.size + 1 := by simp [Store.size, Store.add]
      obtain h | ⟨h, hlt⟩ := ih ht
      · obtain h | h := List.mem_append.mp h
        · exact .inl h
        · obtain rfl := List.mem_singleton.mp h
          refine .inr ⟨Nat.le_refl _, Nat.lt_of_lt_of_le ?_ hs⟩
          exact hadd ▸ Nat.lt_succ_self _
      · have hle : (r.tickets.add false).2.size ≤ ticket.index := h
        exact .inr ⟨by omega, hlt⟩

/-- A ticket that is drawn waits from then on. -/
theorem drawn {before after : List Incident} {ticket : TicketId}
    (h : r.Goes (before ++ .drawn ticket :: after) r') :
    ticket ∈ r'.waiters ∧ r.tickets.size ≤ ticket.index ∧ ticket.index < r'.tickets.size := by
  obtain ⟨r₁, hb, ha⟩ := h.split
  cases ha with
  | cons hd ha =>
    cases hd with
    | drawn =>
      have hs := ha.subset
      refine ⟨hs.2.1 (by simp), hb.subset.2.2, Nat.lt_of_lt_of_le ?_ hs.2.2⟩
      simp [Store.size, Store.add]

end Goes

end Room

namespace World

/-- Who waits. -/
def room (w : World) : Room := ⟨w.queue.tasks, w.queue.waiters, w.tickets⟩

@[simp] theorem tickets_follow (w : World) (next : FollowUp) :
    (w.follow next).tickets = w.tickets := by
  obtain h | ⟨entries, h⟩ | ⟨pool, h⟩ := w.follow_cases next <;> rw [h]

theorem room_follow (w : World) (next : FollowUp) : (w.follow next).room = w.room := by
  unfold room
  rw [queue_follow, tickets_follow]

/-- **Biding.** Nobody flushes the queue, nor says how it is to be flushed. -/
structure Bides (w w' : World) : Prop where
  room : ∃ incidents, w.room.Goes incidents w'.room
  processing : w'.queue.processing = w.queue.processing
  mode : w'.queue.mode = w.queue.mode
  grown : w.behaviors.size ≤ w'.behaviors.size

namespace Bides

variable {w w₁ w' : World}

/-- A step that leaves who waits alone. -/
theorem of_eq (hq : w'.queue = w.queue) (ht : w'.tickets = w.tickets)
    (hb : w.behaviors.size ≤ w'.behaviors.size) : w.Bides w' where
  room := ⟨[], by
    unfold World.room
    rw [hq, ht]
    exact .nil _⟩
  processing := congrArg Queue.processing hq
  mode := congrArg Queue.mode hq
  grown := hb

theorem refl (w : World) : w.Bides w := of_eq rfl rfl (Nat.le_refl _)

theorem trans (h : w.Bides w₁) (h' : w₁.Bides w') : w.Bides w' := by
  obtain ⟨incidents, hi⟩ := h.room
  obtain ⟨later, hl⟩ := h'.room
  exact ⟨⟨_, hi.append hl⟩, h'.processing.trans h.processing, h'.mode.trans h.mode,
    Nat.le_trans h.grown h'.grown⟩

end Bides

end World

/-- Only tickets wait that are drawn for it. -/
theorem Queue.Step.waiters {q q' : Queue} {next : FollowUp} (h : q.Step next q') :
    q'.waiters = q.waiters := by
  have hr : ∀ q : Queue, q.request.1.waiters = q.waiters := by
    intro q
    unfold Queue.request
    split <;> rfl
  cases h with
  | stay => rfl
  | accept t =>
    unfold Queue.accept
    split
    · rfl
    · dsimp only
      split
      · rfl
      · exact hr _
  | request =>
    unfold requestIfNeeded
    split
    · rfl
    · exact hr q

/-- A change that leaves tickets alone leaves them all as they were. -/
theorem World.Change.tickets_eq {Mild : Subject → Prop} (hm : ¬ Mild .tickets) {w w' : World}
    (h : World.Change Mild w w') : w'.tickets = w.tickets := by
  cases h with
  | tickets _ h => exact absurd h hm
  | ask scheduler => exact tickets_follow w (.schedule scheduler)
  | queued h =>
    rw [tickets_follow]
    cases h <;> rfl
  | request => exact tickets_follow _ _
  | created h => rw [h.rest]
  | _ => rfl

/-- **A change in the course of a turn** accepts a task at most. -/
theorem World.Change.bides {Mild : Subject → Prop} (hm : ¬ Mild .tickets) {w w' : World}
    (h : World.Change Mild w w') : w.Bides w' := by
  obtain ⟨next, hs, -⟩ := h.queue
  obtain ⟨accepted, hx⟩ := Queue.Extended.of_step hs
  have hgoes : ∀ (r : Room) (ts : List Task),
      ∃ incidents, r.Goes incidents { r with tasks := r.tasks ++ ts } := by
    intro r ts
    induction ts generalizing r with
    | nil => exact ⟨[], by rw [List.append_nil]; exact .nil r⟩
    | cons t ts ih =>
      obtain ⟨incidents, hi⟩ := ih { r with tasks := r.tasks ++ [t] }
      refine ⟨_, .cons (.accepted r t) (?_ : Room.Goes _ incidents _)⟩
      simpa using hi
  have hroom : w'.room = { w.room with tasks := w.room.tasks ++ accepted } := by
    unfold World.room
    rw [hx.tasks, hs.waiters, h.tickets_eq hm]
  exact ⟨hroom ▸ hgoes w.room accepted, hs.fixed.1, hs.fixed.2, h.size_behaviors⟩

/-! ## Drawing a ticket -/

/-- The world in which a ticket has been drawn and a flush has been requested. -/
def World.drew (w : World) : World :=
  let asked := ({ w.queue with waiters := w.queue.waiters ++ [(w.tickets.add false).1] } :
    Queue).request
  ({ w with queue := asked.1, tickets := (w.tickets.add false).2 } : World).follow asked.2

theorem World.room_drew (w : World) : w.room.Sees (.drawn (w.tickets.add false).1) w.drew.room := by
  have hw : w.drew.room = { w.room with
      waiters := w.queue.waiters ++ [(w.tickets.add false).1]
      tickets := (w.tickets.add false).2 } := by
    unfold drew
    rw [room_follow]
    unfold room Queue.request
    split <;> rfl
  exact hw ▸ .drawn w.room

theorem World.bides_drew (w : World) : w.Bides w.drew where
  room := ⟨_, .one w.room_drew⟩
  processing := by
    unfold drew
    rw [queue_follow]
    exact (Queue.fixed_request _).1
  mode := by
    unfold drew
    rw [queue_follow]
    exact (Queue.fixed_request _).2
  grown := by simp [drew]

/-- **In asynchronous mode a ticket is drawn and waits.** -/
theorem Machine.nextFlush_apply (calls : Calls) {w : World} (hm : w.queue.mode = .async) :
    nextFlush calls w = some (.ok (w.tickets.add false).1, w.drew) := by
  have hn : ¬ (w.queue.mode = .sync ∧ w.queue.processing = false) := fun h =>
    absurd (hm.symm.trans h.1) nofun
  let asked := ({ w.queue with waiters := w.queue.waiters ++ [(w.tickets.add false).1] } :
    Queue).request
  have ha : w.queue.await (w.tickets.add false).1 = some asked := if_neg hn
  simp only [nextFlush, bind_apply, modifyGet_apply, get_apply]
  rw [ha]
  show (followUp asked.2 >>= fun _ => pure (w.tickets.add false).1 : Machine TicketId) calls
    { w with queue := asked.1, tickets := (w.tickets.add false).2 } = _
  rw [bind_apply, followUp_apply _ _ (Queue.request_ne_runNow _)]
  rfl

/-! ## In the course of a turn -/

open World in
/-- **The regime of biding.** While a flush is running in asynchronous mode, who waits is who waited
when its turn began and whoever came since. -/
def biding (start : Room) : Regime where
  allowed := addsOnly
  Mild x := x ≠ .tickets
  Inv w := w.queue.processing = true ∧ w.queue.mode = .async ∧
    ∃ incidents, start.Goes incidents w.room
  Rel := World.Bides
  Entry _ w := w.queue.processing = true ∧ w.queue.mode = .async ∧
    ∃ incidents, start.Goes incidents w.room
  Exit _ w _ w' := w.Bides w'
  refl := Bides.refl
  trans := Bides.trans
  entry _ _ h := h
  exit {_ w w' _} _ _ hi h := by
    obtain ⟨hp, hm, incidents, hs⟩ := hi
    obtain ⟨later, hl⟩ := h.room
    exact ⟨h, h.processing.trans hp, h.mode.trans hm, _, hs.append hl⟩
  change hi hc := by
    obtain ⟨hp, hm, incidents, hs⟩ := hi
    have h := hc.bides fun h => h rfl
    obtain ⟨later, hl⟩ := h.room
    exact ⟨h, h.processing.trans hp, h.mode.trans hm, _, hs.append hl⟩
  enter hs hi := by cases hs <;> exact hi
  leave hs _ h hi' := by
    cases hs <;> exact ⟨⟨h.room, h.processing, h.mode, h.grown⟩, hi'⟩
  grown h := h.grown
  light _ _ := .inr fun _ => nofun
  takes _ _ := .inr nofun
  calledBack _ _ := .inr nofun
  watcher _ _ := .inr fun _ => nofun
  behaviors _ _ _ := nofun
  observers _ _ _ := .inr fun _ => nofun
  aspects _ _ _ := nofun

section Biding

variable {start : Room} {w w' : World}

theorem biding_inv (hi : (biding start).Inv w) (h : w.Bides w') : (biding start).Inv w' :=
  ((biding start).exit (c := .perform (.drop "")) (r := .ok .unit) trivial rfl hi h).2

/-- A step that leaves the queue alone. -/
theorem biding_stay (hq : w'.queue = w.queue) (ht : w'.tickets = w.tickets)
    (hb : w'.behaviors = w.behaviors) (hi : (biding start).Inv w) :
    (biding start).Rel w w' ∧ (biding start).Inv w' :=
  have h : w.Bides w' := .of_eq hq ht (Nat.le_of_eq (congrArg Store.size hb.symm))
  ⟨h, biding_inv hi h⟩

instance (name : String) : (biding start).Slight (.listener name) := ⟨nofun⟩

instance loose_biding : (biding start).Loose where
  tether _ := nofun
  lists _ := nofun
  view _ _ := nofun

instance accessible_biding : (biding start).Accessible where
  entry _ h := h
  exit _ hi h := ⟨h, biding_inv hi h⟩
  access hi hc := by cases hc <;> exact biding_stay rfl rfl rfl hi

instance plain_biding : (biding start).Plain where
  behavior _ := nofun
  aspect _ _ := nofun
  setup hi hc := by cases hc <;> exact biding_stay rfl rfl rfl hi
  cues := nofun
  deliver hi _ := hi
  delivered hi h := ⟨h, biding_inv hi h⟩
  write hi hc := by cases hc <;> exact biding_stay rfl rfl rfl hi

namespace Setting

open Machine

variable {S : Setting (biding start)}

instance prompt_biding : S.Prompt where
  pressed hi hq := by
    obtain ⟨t, ht, -⟩ := hq.queue
    have hm := (Queue.accept_eq_runNow.mp ht.symm).2.1
    exact absurd (hm.symm.trans hi.2.1) (by decide)

instance commanded_biding : S.Commanded where
  subscribe hw _ := Agrees.agreesAt hw
  queue {c w} hc hw ha := by
    have hrun : addsOnly (.perform (.queue c)) w = true := ha
    have hp : w.queue.processing = true := hw.1
    cases c with
    | createTask | enqueue | status | dropPool | poll => exact absurd trivial hc
    | process | settle | processResult | runPool | setMode | configure =>
      exact absurd hrun (by simp [addsOnly, hp])
    | next handle =>
      show S.AgreesAt (nextFlush >>= fun ticket => giveHandle handle (.ticket ticket) >>= fun _ =>
        pure Answer.unit) w
      refine Leads.step (fun calls => nextFlush_apply calls hw.2.1) ?_
      exact AgreesAt.since (G := biding start) w.bides_drew
        (Agrees.agreesAt (biding_inv hw w.bides_drew))

end Setting

/-- **Tasks and tickets come, and nobody is let go**, whatever is done in a turn, as long as the
queue is not flushed. -/
theorem biding_kept (start : Room) : (biding start).Kept := by
  refine Regime.Loose.kept (fun S => inferInstance) (fun S => inferInstance) (fun _ he => he)
    (fun _ hr _ => hr) fun S {c w} hc hw ha => ?_
  have hrun : addsOnly c w = true := ha
  have hp : w.queue.processing = true := hw.1
  cases c with
  | eval | bindView | unbindView | bubble | perform => exact absurd trivial hc
  | settle | drainPool => exact absurd hrun (by simp [addsOnly, hp])
  | deliver s change =>
    have hb : S.AgreesAt (Machine.deliver s change) w := Setting.Agrees.agreesAt hw
    exact hb.mono fun _ _ h => h.1
  | update t =>
    have hb : S.AgreesAt (Machine.update t) w := Setting.Agrees.agreesAt hw
    exact hb.mono fun _ _ h => h.1

end Biding

end ReactiveViews
