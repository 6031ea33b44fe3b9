import ReactiveViews.Proofs.Frames.Core
/-!
# Flushes and what they owe

Beginning a flush empties the queue. What was queued is from then on owed by the
flush, and an invariant that counts on it being queued has to count on that. What
is owed is a list of tasks that gets shorter with every turn; when nothing is owed
the invariant holds again, and the world stands to the world before the flush as
after any other computation (`Flushing.process_agreesAt`).
-/

namespace ReactiveViews

/-- The world in which a task runs that has `rest` behind it. -/
def World.inTurn (w : World) (t : Task) (rest : List Task) : World :=
  { w with held := .running t :: rest.map .task ++ w.held }

/-- The world in which a flush begins that has something to run. -/
def World.flushing (w : World) : World :=
  { w with queue := { w.queue.drain.2 with processing := true } }

namespace World

/-- The world in which tickets have been made good. -/
def redeemed (w : World) (tickets : List TicketId) : World :=
  { w with tickets := tickets.foldl (fun s t => s.set t true) w.tickets }

end World

namespace Machine

/-- What a flush does when its tasks have run. -/
def finishFlush (tickets : List TicketId) (report : FlushReport) : Machine FlushReport := do
  redeem tickets
  let (queue, next) := (← get).queue.requestIfNeeded
  setQueue queue
  followUp next
  return report

theorem finishFlush_apply (tickets : List TicketId) (report : FlushReport) (calls : Calls)
    (w : World) :
    finishFlush tickets report calls w = some (.ok report, (w.redeemed tickets).requested) := by
  let x := w.redeemed tickets
  have hx : finishFlush tickets report calls w =
      (followUp x.queue.requestIfNeeded.2 >>= fun _ => pure report) calls
        { x with queue := x.queue.requestIfNeeded.1 } := rfl
  rw [hx, bind_apply, followUp_apply _ _ (Queue.requestIfNeeded_ne_runNow _)]
  rfl

/-- What a flush comes to is what its batch comes to. -/
theorem process_apply (calls : Calls) (w : World) :
    process calls w =
      if w.queue.tasks = [] then
        some (.ok .empty, ({ w with queue := w.queue.drain.2 }.redeemed w.queue.waiters).requested)
      else
        match runBatch w.queue.tasks calls w.flushing with
        | some (.ok report, w₁) =>
          some (.ok report, (({ w₁ with queue := { w₁.queue with processing := w.queue.processing } } :
            World).redeemed w.queue.waiters).requested)
        | some (.error e, w₁) => some (.error e, w₁)
        | none => none := by
  have hp : process calls w = (if w.queue.tasks.isEmpty then finishFlush w.queue.waiters .empty
      else do
        setProcessing true
        let report ← runBatch w.queue.tasks
        setProcessing w.queue.processing
        finishFlush w.queue.waiters report : Machine FlushReport) calls
      { w with queue := w.queue.drain.2 } := rfl
  rw [hp]
  by_cases ht : w.queue.tasks = []
  · rw [if_pos ht, if_pos (List.isEmpty_iff.mpr ht), finishFlush_apply]
  · rw [if_neg ht, if_neg fun h => ht (List.isEmpty_iff.mp h)]
    show (runBatch w.queue.tasks >>= fun report => do
      setProcessing w.queue.processing
      finishFlush w.queue.waiters report : Machine FlushReport) calls w.flushing = _
    rw [bind_apply]
    cases runBatch w.queue.tasks calls w.flushing with
    | none => rfl
    | some x =>
      obtain ⟨_ | report, w₁⟩ := x
      · rfl
      · exact finishFlush_apply w.queue.waiters report calls _

end Machine

/-- **Flushing.** What holds of a world where a flush that began at another still owes some
tasks. -/
structure Flushing (G : Regime) where
  Owed : World → List Task → World → Prop
  log {start w : World} {ts : List Task} {entries : List LogEntry}
    (hu : ∀ name, w.Unheard name { w with log := entries }) :
    Owed start ts w → Owed start ts { w with log := entries }
  /-- The turn of the first task has come. -/
  turn {start w : World} {t : Task} {rest : List Task} :
    Owed start (t :: rest) w → G.Entry (.update t) (w.inTurn t rest)
  /-- The first task has run. -/
  ran {start w w' : World} {t : Task} {rest : List Task} {r : Except Error Unit} :
    Owed start (t :: rest) w → G.allowed (.update t) (w.inTurn t rest) →
      G.Exit (.update t) (w.inTurn t rest) r w' → Owed start rest { w' with held := w.held }

namespace Flushing

open Machine

variable {G : Regime} {α : Type}

/-- **The tasks of a flush run one after another**, and nothing is owed when they have run. -/
theorem runBatch_leads (F : Flushing G) (S : Setting G) {start : World} (ts : List Task)
    {w : World} (h : F.Owed start ts w) :
    S.Leads (runBatch ts) w fun r w' => (∃ report, r = .ok report) ∧ F.Owed start [] w' := by
  induction ts generalizing w with
  | nil => exact .of_eq (fun _ => rfl) ⟨⟨_, rfl⟩, h⟩
  | cons t rest ih =>
    have hcall : S.Leads (call (.update t)) (w.inTurn t rest)
        fun _ w₁ => F.Owed start rest { w₁ with held := w.held } := by
      intro r w₁ hc
      obtain ⟨ha, hc', he⟩ := S.call (c := .update t) (F.turn h) hc
      exact ⟨hc', F.ran h ha he⟩
    have hturn : S.Leads (holding (.running t :: rest.map .task) (call (.update t))) w
        fun _ w₁ => F.Owed start rest w₁ := by
      refine (Setting.Leads.within hcall).mono ?_
      rintro _ _ ⟨w₁, rfl, ho⟩
      exact ho
    have hrest : ∀ (first : FlushReport) w₁, F.Owed start rest w₁ →
        S.Leads (runBatch rest >>= fun report => pure (first.absorb report)) w₁
          fun r w' => (∃ report, r = .ok report) ∧ F.Owed start [] w' := by
      intro first w₁ ho
      refine (ih ho).bind (fun e _ h => by simpa using h.1) fun report w₂ h₂ => ?_
      exact .of_eq (fun _ => rfl) ⟨⟨_, rfl⟩, h₂.2⟩
    rw [runBatch]
    refine hturn.attempt.bind (by simp) ?_
    rintro outcome w₁ ⟨outcome', -, ho⟩
    cases outcome with
    | ok u => exact hrest _ w₁ ho
    | error e =>
      have hlog : S.Leads (logError "queued update failed" e) w₁
          fun r w₂ => r = .ok () ∧ F.Owed start rest w₂ :=
        .of_eq (fun _ => rfl) ⟨rfl, F.log (fun _ => World.unheard_log rfl w₁) ho⟩
      exact hlog.bind (by simp) fun _ w₂ ho₂ => hrest _ w₂ ho₂.2

/-- What a flush leaves when its tasks have run: there was none to run, or nothing is owed any
more. -/
inductive Ran (F : Flushing G) (w : World) : World → Prop
  | none (h : w.queue.tasks = []) : Ran F w { w with queue := w.queue.drain.2 }
  | all {w₁ : World} (h : w.queue.tasks ≠ []) (ho : F.Owed w [] w₁) :
    Ran F w { w₁ with queue := { w₁.queue with processing := w.queue.processing } }

/-- **One flush.** The tasks that waited run, the tickets that waited are made good, and another
flush is requested if something waits again. -/
theorem process_leads (F : Flushing G) (S : Setting G) {w : World}
    (ho : w.queue.tasks ≠ [] → F.Owed w w.queue.tasks w.flushing) :
    S.Leads process w fun r w' => (∃ report, r = .ok report) ∧
      ∃ x, F.Ran w x ∧ w' = (x.redeemed w.queue.waiters).requested := by
  intro r w' hc
  rw [process_apply] at hc ⊢
  by_cases ht : w.queue.tasks = []
  · rw [if_pos ht] at hc ⊢
    obtain ⟨rfl, rfl⟩ : .ok .empty = r ∧ _ = w' := by simpa using hc
    exact ⟨rfl, ⟨_, rfl⟩, _, .none ht, rfl⟩
  · rw [if_neg ht] at hc ⊢
    cases hb : runBatch w.queue.tasks S.calls w.flushing with
    | none =>
      rw [hb] at hc
      exact absurd hc (by simp)
    | some x =>
      obtain ⟨r₁, w₁⟩ := x
      obtain ⟨hb', ⟨report, rfl⟩, hw⟩ := F.runBatch_leads S _ (ho ht) r₁ w₁ hb
      rw [hb] at hc
      rw [hb']
      obtain ⟨rfl, rfl⟩ : .ok report = r ∧ _ = w' := by simpa using hc
      exact ⟨rfl, ⟨report, rfl⟩, _, .all ht hw, rfl⟩

/-- **A flush keeps to every setting** from a world from which what waits may be run. -/
theorem process_agreesAt [hm : G.Slight .tickets] (F : Flushing G) (S : Setting G) {w : World}
    (ho : w.queue.tasks ≠ [] → F.Owed w w.queue.tasks w.flushing)
    (hr : ∀ x, F.Ran w x → G.Rel w x ∧ G.Inv x) : S.AgreesAt process w := by
  refine (F.process_leads S ho).mono ?_
  rintro r w' ⟨-, x, hx, rfl⟩
  obtain ⟨hrel, hi⟩ := hr x hx
  obtain ⟨hrel', hi'⟩ := G.change hi (.tickets x _ hm.mild)
  obtain ⟨hrel'', hi''⟩ := G.change hi' (.request _)
  exact ⟨G.trans hrel (G.trans hrel' hrel''), hi''⟩

end Flushing

end ReactiveViews
