import ReactiveViews.Proofs.Tickets.Stories
/-!
# Tickets are made good by the next flush

A flush takes out the tasks and the tickets that wait, lets the tasks have their turns,
and makes the tickets good when they are over. What a task adds meanwhile, tasks and
tickets alike, is left for the flush after it. So a ticket is made good by the first
flush that begins after it was drawn, and by no other, and what was queued when it was
drawn has run by then.

Every run in asynchronous mode is a story (`Dealing.story_of_collect`), and the law of
tickets is known of stories.
-/

namespace ReactiveViews

/-! ## Runs are stories -/

/-- **One flush**, told as a story. -/
def IsFlush (told : List Event) : Prop :=
  ∃ turns : List (Task × List Incident),
    told = .began :: (turns.map fun turn => .turn turn.1 turn.2) ++ [.ended]

namespace Moment

open Machine (runUnder runBatch runBatch_cons_apply bind_eq_some pure_apply process_apply)

variable {w w' : World} {depth : Nat}

/-- **The turns of a batch.** -/
theorem story_of_runBatch {batch : List Task} {tickets : List TicketId}
    {r : Except Error FlushReport} (hs : Sound ⟨w, some (batch, tickets)⟩)
    (h : runBatch batch (runUnder addsOnly depth) w = some (r, w')) :
    ∃ turns : List (Task × List Incident),
      Story ⟨w, some (batch, tickets)⟩ (turns.map fun turn => .turn turn.1 turn.2)
        ⟨w', some ([], tickets)⟩ ∧ ∃ report, r = .ok report := by
  induction batch generalizing w w' r with
  | nil =>
    obtain ⟨rfl, rfl⟩ : .ok .empty = r ∧ w = w' := by simpa [runBatch, pure_apply] using h
    exact ⟨[], .nil _, _, rfl⟩
  | cons t rest ih =>
    rw [runBatch_cons_apply] at h
    cases hu : runUnder addsOnly depth (.update t) (w.inTurn t rest) with
    | none =>
      rw [hu] at h
      cases h
    | some x =>
      obtain ⟨outcome, w₁⟩ := x
      rw [hu] at h
      obtain ⟨incidents, hi⟩ := (bides_of_turn (hs.busy rfl) hs.async hu).room
      have hstep : Step ⟨w, some (t :: rest, tickets)⟩ (.turn t incidents)
          ⟨w.turnOver w₁ outcome, some (rest, tickets)⟩ := .turn hu hi
      have hs₁ := hs.step hstep
      obtain ⟨e, h1, -⟩ | ⟨report, w₂, h1, h2⟩ := bind_eq_some h
      · obtain ⟨turns, -, report, hr⟩ := ih hs₁ h1
        cases hr
      · obtain ⟨turns, ht, -⟩ := ih hs₁ h1
        obtain ⟨rfl, rfl⟩ : .ok _ = r ∧ w₂ = w' := by simpa [pure_apply] using h2
        exact ⟨(t, incidents) :: turns, .cons hstep ht, _, rfl⟩

/-- **A flush.** -/
theorem story_of_process {r : Except Error FlushReport} (hs : Sound ⟨w, none⟩)
    (h : Machine.process (runUnder addsOnly depth) w = some (r, w')) :
    ∃ told, IsFlush told ∧ Story ⟨w, none⟩ told ⟨w', none⟩ ∧ ∃ report, r = .ok report := by
  have hbegan : Step ⟨w, none⟩ .began ⟨w.begun, some (w.queue.tasks, w.queue.waiters)⟩ := .begin
  have hp : w.queue.processing = false := hs.idle rfl
  have hends : ∀ (turns : List (Task × List Incident)) {x : World},
      Story ⟨w.begun, some (w.queue.tasks, w.queue.waiters)⟩
        (turns.map fun turn => .turn turn.1 turn.2) ⟨x, some ([], w.queue.waiters)⟩ →
      ∃ told, IsFlush told ∧ Story ⟨w, none⟩ told ⟨x.flushed w.queue.waiters, none⟩ :=
    fun _ _ h => ⟨_, ⟨_, rfl⟩, (Story.cons hbegan h).append (.cons .end (.nil _))⟩
  rw [process_apply] at h
  split at h
  · next ht =>
    obtain ⟨rfl, rfl⟩ : .ok .empty = r ∧ _ = w' := by simpa using h
    have hw : w.begun = { w with queue := w.queue.drain.2 } := if_pos ht
    have hx : w.begun.flushed w.queue.waiters =
        (({ w with queue := w.queue.drain.2 } : World).redeemed w.queue.waiters).requested := by
      rw [hw, World.flushed, ← hp]
      rfl
    obtain ⟨told, hflush, hstory⟩ := hends [] (x := w.begun) (by rw [ht]; exact .nil _)
    exact ⟨told, hflush, hx ▸ hstory, _, rfl⟩
  · next ht =>
    have hw : w.begun = w.flushing := if_neg ht
    have hs₁ := hw ▸ hs.step hbegan
    cases hb : runBatch w.queue.tasks (runUnder addsOnly depth) w.flushing with
    | none =>
      rw [hb] at h
      exact absurd h nofun
    | some x =>
      obtain ⟨r₁, w₁⟩ := x
      obtain ⟨turns, hturns, report, rfl⟩ := story_of_runBatch hs₁ hb
      rw [hb] at h
      obtain ⟨rfl, rfl⟩ : .ok report = r ∧ _ = w' := by simpa using h
      obtain ⟨told, hflush, hstory⟩ := hends turns (hw ▸ hturns)
      exact ⟨told, hflush, hp ▸ hstory, report, rfl⟩

/-- What settling comes to: one flush after another. -/
def Settles (w : World) (r : Except Error FlushReport) (w' : World) : Prop :=
  ∃ flushes : List (List Event), (∀ told ∈ flushes, IsFlush told) ∧ flushes ≠ [] ∧
    Story ⟨w, none⟩ flushes.flatten ⟨w', none⟩ ∧ ∃ report, r = .ok report

/-- **Settling**, as far as it is known of the call that it ends with. -/
theorem settles_of_settle {r : Except Error FlushReport} (hs : Sound ⟨w, none⟩)
    (hc : ∀ {x x' : World} {r : Except Error FlushReport}, Sound ⟨x, none⟩ →
      runUnder addsOnly depth .settle x = some (r, x') → Settles x r x')
    (h : Machine.settle (runUnder addsOnly depth) w = some (r, w')) : Settles w r w' := by
  unfold Machine.settle at h
  obtain ⟨e, h1, rfl⟩ | ⟨report, w₁, h1, h2⟩ := bind_eq_some h
  · obtain ⟨told, -, -, report, hr⟩ := story_of_process hs h1
    cases hr
  · obtain ⟨told, hflush, hstory, -⟩ := story_of_process hs h1
    rw [Machine.bind_apply, Machine.get_apply] at h2
    dsimp only at h2
    split at h2
    · obtain ⟨rfl, rfl⟩ : .ok report = r ∧ w₁ = w' := by simpa [pure_apply] using h2
      refine ⟨[told], List.forall_mem_singleton.mpr hflush, List.cons_ne_nil _ _, ?_, _, rfl⟩
      rwa [List.flatten_singleton]
    · obtain ⟨e, h3, -⟩ | ⟨total, w₂, h3, h4⟩ := bind_eq_some h2
      · obtain ⟨flushes, -, -, -, report, hr⟩ := hc (hs.story hstory) h3
        cases hr
      · obtain ⟨flushes, hall, -, hrest, -⟩ := hc (hs.story hstory) h3
        obtain ⟨rfl, rfl⟩ : .ok _ = r ∧ w₂ = w' := by simpa [pure_apply] using h4
        refine ⟨told :: flushes, List.forall_mem_cons.mpr ⟨hflush, hall⟩, List.cons_ne_nil _ _, ?_, _,
          rfl⟩
        rw [List.flatten_cons]
        exact hstory.append hrest

theorem settles_of_call {r : Except Error FlushReport} (hs : Sound ⟨w, none⟩)
    (h : runUnder addsOnly depth .settle w = some (r, w')) : Settles w r w' := by
  induction depth generalizing w w' r with
  | zero => exact absurd h nofun
  | succ depth ih => exact settles_of_settle hs ih (Machine.runUnder_succ (c := .settle) h).2

end Moment

/-! ## What is done to the queue from outside -/

/-- **Dealing.** An act, or waiting for the next flush. -/
inductive Dealing
  | act (a : Act)
  | next

namespace Dealing

open Machine (runUnder collect bind_eq_some pure_apply)

/-- What a dealing comes to: waiting gives a ticket. -/
def run : Dealing → Machine (Option TicketId)
  | .act a => do
    let _ ← a.run
    return none
  | .next => return some (← Machine.nextFlush)

/-- **Telling.** The events that a dealing with some result is told as. -/
inductive Tells : Dealing → Option TicketId → List Event → Prop
  /-- A task that waits already is not queued again, and nothing happens. -/
  | again (t : Task) : Tells (.act (.enqueue t)) none []
  | enqueue (t : Task) : Tells (.act (.enqueue t)) none [.incident (.accepted t)]
  | process {told : List Event} (h : IsFlush told) : Tells (.act .process) none told
  | settle {flushes : List (List Event)} (h : ∀ told ∈ flushes, IsFlush told) (hn : flushes ≠ []) :
    Tells (.act .settle) none flushes.flatten
  | next (ticket : TicketId) : Tells .next (some ticket) [.incident (.drawn ticket)]

/-- The events that one dealing after another is told as. -/
inductive TellsAll : List Dealing → List (Option TicketId) → List Event → Prop
  | nil : TellsAll [] [] []
  | cons {d : Dealing} {ds : List Dealing} {r : Option TicketId} {rs : List (Option TicketId)}
    {told later : List Event} (h : d.Tells r told) (hr : TellsAll ds rs later) :
    TellsAll (d :: ds) (r :: rs) (told ++ later)

open Moment

variable {w w' : World} {depth : Nat}

/-- An act as a dealing: what it reports is let go of. -/
theorem act_of_run {calls : Calls} {a : Act} {r : Except Error (Option TicketId)}
    (h : (run (.act a)) calls w = some (r, w')) :
    ∃ x, a.run calls w = some (x, w') ∧ ∀ report, x = .ok report → r = .ok none := by
  obtain ⟨e, h1, -⟩ | ⟨report, w₁, h1, h2⟩ := bind_eq_some h
  · exact ⟨_, h1, nofun⟩
  · obtain ⟨rfl, rfl⟩ : .ok none = r ∧ w₁ = w' := by simpa [pure_apply] using h2
    exact ⟨_, h1, fun _ _ => rfl⟩

/-- **A dealing is a story.** -/
theorem story_of_run {d : Dealing} {r : Except Error (Option TicketId)}
    (hs : Moment.Sound ⟨w, none⟩) (h : d.run (runUnder addsOnly depth) w = some (r, w')) :
    ∃ result told, r = .ok result ∧ d.Tells result told ∧ Story ⟨w, none⟩ told ⟨w', none⟩ := by
  have hm : w.queue.mode = .async := hs.async
  cases d with
  | next =>
    have hrun : (run .next) (runUnder addsOnly depth) w =
        some (.ok (some (w.tickets.add false).1), w.drew) := by
      show (Machine.nextFlush >>= fun ticket => pure (some ticket)) (runUnder addsOnly depth) w = _
      rw [Machine.bind_apply, Machine.nextFlush_apply _ hm]
      rfl
    rw [hrun] at h
    obtain ⟨rfl, rfl⟩ := Prod.mk.inj (Option.some.inj h)
    exact ⟨_, _, rfl, .next _, .cons .draw (.nil _)⟩
  | act a =>
    obtain ⟨x, ha, hx⟩ := act_of_run h
    cases a with
    | enqueue t =>
      have hn : (w.queue.accept t).2 ≠ .runNow := fun hn =>
        absurd (hm.symm.trans (Queue.accept_eq_runNow.mp hn).2.1) nofun
      have hrun : (Act.enqueue t).run (runUnder addsOnly depth) w = some (.ok none,
          ({ w with queue := (w.queue.accept t).1 } : World).follow (w.queue.accept t).2) := by
        show (Machine.followUp (w.queue.accept t).2 >>= fun _ => pure none :
          Machine (Option FlushReport)) (runUnder addsOnly depth)
            { w with queue := (w.queue.accept t).1 } = _
        rw [Machine.bind_apply, Machine.followUp_apply _ _ hn]
        rfl
      rw [hrun] at ha
      obtain ⟨rfl, rfl⟩ := Prod.mk.inj (Option.some.inj ha)
      obtain rfl := hx none rfl
      by_cases ht : t ∈ w.queue.tasks
      · have hstay : w.queue.accept t = (w.queue, .nothing) := if_pos ht
        rw [hstay]
        exact ⟨_, _, rfl, .again t, .nil _⟩
      · exact ⟨_, _, rfl, .enqueue t, .cons (.accept ht) (.nil _)⟩
    | process =>
      obtain ⟨e, h1, -⟩ | ⟨report, w₁, h1, h2⟩ := bind_eq_some ha
      · obtain ⟨told, -, -, report, hr⟩ := story_of_process hs h1
        cases hr
      · obtain ⟨told, hflush, hstory, -⟩ := story_of_process hs h1
        obtain ⟨rfl, rfl⟩ : .ok _ = x ∧ w₁ = w' := by simpa [pure_apply] using h2
        exact ⟨_, _, hx _ rfl, .process hflush, hstory⟩
    | settle =>
      obtain ⟨e, h1, -⟩ | ⟨report, w₁, h1, h2⟩ := bind_eq_some ha
      · obtain ⟨flushes, -, -, -, report, hr⟩ := settles_of_settle hs settles_of_call h1
        cases hr
      · obtain ⟨flushes, hall, hn, hstory, -⟩ := settles_of_settle hs settles_of_call h1
        obtain ⟨rfl, rfl⟩ : .ok _ = x ∧ w₁ = w' := by simpa [pure_apply] using h2
        exact ⟨_, _, hx _ rfl, .settle hall hn, hstory⟩

/-- **One dealing after another is a story.** -/
theorem story_of_collect {dealings : List Dealing} {r : Except Error (List (Option TicketId))}
    (hs : Moment.Sound ⟨w, none⟩)
    (h : collect run dealings (runUnder addsOnly depth) w = some (r, w')) :
    ∃ results told, r = .ok results ∧ TellsAll dealings results told ∧
      Story ⟨w, none⟩ told ⟨w', none⟩ := by
  induction dealings generalizing w w' r with
  | nil =>
    obtain ⟨rfl, rfl⟩ : .ok [] = r ∧ w = w' := by simpa [collect, pure_apply] using h
    exact ⟨[], [], rfl, .nil, .nil _⟩
  | cons d ds ih =>
    rw [collect] at h
    obtain ⟨e, h1, -⟩ | ⟨result, w₁, h1, h2⟩ := bind_eq_some h
    · obtain ⟨result, told, hr, -⟩ := story_of_run hs h1
      cases hr
    · obtain ⟨result', told, hr, htells, hstory⟩ := story_of_run hs h1
      obtain rfl : result = result' := Except.ok.inj hr
      obtain ⟨e, h3, -⟩ | ⟨results, w₂, h3, h4⟩ := bind_eq_some h2
      · obtain ⟨results, later, hr, -⟩ := ih (hs.story hstory) h3
        cases hr
      · obtain ⟨results', later, hr, hall, hrest⟩ := ih (hs.story hstory) h3
        obtain rfl : results = results' := Except.ok.inj hr
        obtain ⟨rfl, rfl⟩ : .ok _ = r ∧ w₂ = w' := by simpa [pure_apply] using h4
        exact ⟨_, _, rfl, .cons htells hall, hstory.append hrest⟩

end Dealing

open Machine Moment in
/-- **Tickets are made good by the next flush.** Whatever is done with an asynchronous queue from
outside, and whatever tasks queue and wait for in their turns, is told as a story in which the events
are those asked for. At whatever moment of a story, and wherever a call is made in the course of the
turn that comes next, a ticket that was drawn before, by somebody outside or in a turn, is good if and
only if a flush that began after it was drawn is over. In the first such flush everything has had its
turn that was queued when the ticket was drawn. A ticket that has just been drawn in the turn that is
running is not good. -/
theorem tickets_are_made_good_by_the_next_flush {dealings : List Dealing} {depth : Nat}
    {w w' : World} {r : Except Error (List (Option TicketId))} (hm : w.queue.mode = .async)
    (hp : w.queue.processing = false)
    (hw : ∀ ticket ∈ w.queue.waiters, ticket.index < w.tickets.size)
    (h : collect Dealing.run dealings (runUnder addsOnly depth) w = some (r, w')) :
    (∃ results told, r = .ok results ∧ Dealing.TellsAll dealings results told ∧
      Story ⟨w, none⟩ told ⟨w', none⟩) ∧
      (∀ before m e m₁ after m', Story ⟨w, none⟩ before m → m.Step e m₁ → Story m₁ after m' →
        ∀ incidents ticket later room, e.incidents = incidents ++ .drawn ticket :: later →
          m.world.room.Goes incidents room →
          (∀ y, m'.Sees y →
            (y.tickets.get ticket = true ↔ ∃ flush, FirstFlush after flush)) ∧
          ∀ flush, FirstFlush after flush → ∀ t ∈ room.tasks, ∃ is, .turn t is ∈ flush) ∧
      ∀ told m, Story ⟨w, none⟩ told m → ∀ y ticket, m.Sees y →
        m.world.tickets.size ≤ ticket.index → y.tickets.get ticket = false := by
  have hs : Sound ⟨w, none⟩ := ⟨hm, fun _ => hp, nofun, hw, nofun⟩
  refine ⟨Dealing.story_of_collect hs h, ?_, fun _ _ hstory _ _ hy ht =>
    (hs.story hstory).get_of_sees hy ht⟩
  intro before m e m₁ after m' hbefore hstep hafter incidents ticket later room hi hr
  exact hstep.law (hs.story hbefore) hafter hi hr

/-- A task that waits for the next flush and queues another in its turn. -/
def waitingSession : List Command :=
  [.queue (.createTask "t" (.seq [.perform (.queue (.next "n")),
      .perform (.queue (.enqueue "u"))])),
    .queue (.createTask "u" (.literal .null))]

/-- What is then done with the queue. -/
def waitingDealings : List Dealing :=
  [.act (.enqueue (.scripted ⟨0⟩)), .next, .act .process, .next]

open Machine Moment in
theorem waiting_tickets_are_made_good : ∃ w w' told, Session.Reached (fun _ _ => true) w ∧
    Dealing.TellsAll waitingDealings [none, some ⟨0⟩, none, some ⟨2⟩] told ∧
    Story ⟨w, none⟩ told ⟨w', none⟩ ∧
    w'.tickets.get ⟨0⟩ = true ∧ w'.tickets.get ⟨1⟩ = false ∧ w'.tickets.get ⟨2⟩ = false := by
  have hplay : (Session.play (fun _ _ => true) waitingSession World.empty).any (fun w =>
      decide (w.queue.mode = .async) && !w.queue.processing && w.queue.waiters.isEmpty &&
        (collect Dealing.run waitingDealings (runUnder addsOnly 12) w).any fun x =>
          decide (x.1.toOption = some [none, some ⟨0⟩, none, some ⟨2⟩]) && x.2.tickets.get ⟨0⟩ &&
            !x.2.tickets.get ⟨1⟩ && !x.2.tickets.get ⟨2⟩) = true := by
    decide +kernel
  obtain ⟨w, hw, hq⟩ := Option.any_eq_true _ _ |>.mp hplay
  simp only [Bool.and_eq_true, decide_eq_true_eq, Bool.not_eq_true', List.isEmpty_iff] at hq
  obtain ⟨⟨⟨hm, hp⟩, hwaiters⟩, hrun⟩ := hq
  obtain ⟨⟨r, w'⟩, hr, hx⟩ := Option.any_eq_true _ _ |>.mp hrun
  simp only [Bool.and_eq_true, decide_eq_true_eq, Bool.not_eq_true'] at hx
  obtain ⟨⟨⟨hresults, h0⟩, h1⟩, h2⟩ := hx
  obtain ⟨⟨results, told, rfl, htells, hstory⟩, -⟩ := tickets_are_made_good_by_the_next_flush hm hp
    (fun ticket ht => absurd (hwaiters ▸ ht) List.not_mem_nil) hr
  obtain rfl : results = _ := Option.some.inj hresults
  exact ⟨w, w', told, Session.reached_of_play .start hw, htells, hstory, h0, h1, h2⟩

end ReactiveViews
