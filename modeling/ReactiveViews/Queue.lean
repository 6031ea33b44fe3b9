import ReactiveViews.Error
import ReactiveViews.Script
/-!
# The update queue

Observers do not act when something changes: they queue themselves, once, and
what is queued runs together when the queue is flushed. This module holds what
the queue remembers and what each event does to it, as plain functions; running
the tasks is not its business.

A flush is requested from the scheduler when there is something to flush, and not
again before that request has been met. Those who wait for the next flush get a
ticket, and tickets drawn during a flush belong to the flush after it.
-/

namespace ReactiveViews

/-- **Task.** What can be queued: an observer or a behavior that is to bring something up to
date, the buffered splices of an array, or a scripted task. -/
inductive Task
  | observer (o : ObserverId)
  | behavior (b : BehaviorId)
  | splices (a : ArrayId)
  | scripted (t : TaskId)
deriving DecidableEq, Hashable, Inhabited, Repr

/-- **Queue.** -/
structure Queue where
  /-- The tasks waiting for a flush, in the order they were accepted. -/
  tasks : List Task
  mode : UpdateMode
  scheduler : Scheduler
  /-- A flush has been requested and not begun. -/
  flushRequested : Bool
  /-- A flush is running tasks. -/
  processing : Bool
  /-- The tickets waiting for a flush. -/
  waiters : List TicketId
deriving Inhabited

/-- What has to be done after the queue has changed. -/
inductive FollowUp
  | nothing
  /-- A scheduler is to be asked for a flush: the one there was when the need arose. -/
  | schedule (scheduler : Scheduler)
  /-- The queue is to be emptied at once. -/
  | runNow
deriving DecidableEq, Repr

namespace Queue

/-- An empty queue: asynchronous, flushed by hand. -/
def empty : Queue := ⟨[], .async, .manual, false, false, []⟩

/-- Nothing waits for a flush, neither task nor ticket. -/
def isIdle (q : Queue) : Bool := q.tasks.isEmpty && q.waiters.isEmpty

/-- **Request.** In asynchronous mode a flush is requested unless one is requested already. -/
def request (q : Queue) : Queue × FollowUp :=
  if q.mode = .async ∧ q.flushRequested = false then
    ({ q with flushRequested := true }, .schedule q.scheduler)
  else (q, .nothing)

/-- Requests a flush if there is something to flush. -/
def requestIfNeeded (q : Queue) : Queue × FollowUp :=
  if q.isIdle then (q, .nothing) else q.request

/-- **Enqueueing.** A task that waits already is not queued again. In synchronous mode the queue
is emptied at once, unless a flush is running that is followed by another. -/
def accept (q : Queue) (t : Task) : Queue × FollowUp :=
  if t ∈ q.tasks then (q, .nothing)
  else
    let q := { q with tasks := q.tasks ++ [t] }
    match q.mode with
    | .sync => (q, if q.processing then .nothing else .runNow)
    | .async => q.request

/-- **Beginning a flush.** What waited is taken out, and the request is met. -/
def drain (q : Queue) : (List Task × List TicketId) × Queue :=
  ((q.tasks, q.waiters), { q with tasks := [], waiters := [], flushRequested := false })

/-- **Waiting.** A ticket waits for the next flush. In synchronous mode nothing is ever left to
wait for, unless a flush is running; the ticket is then good at once, and `none` is given. -/
def await (q : Queue) (ticket : TicketId) : Option (Queue × FollowUp) :=
  if q.mode = .sync ∧ q.processing = false then none
  else some ({ q with waiters := q.waiters ++ [ticket] }.request)

/-- **Installing.** Another scheduler is asked for what is still to be flushed. -/
def install (q : Queue) (scheduler : Scheduler) : Queue × FollowUp :=
  { q with scheduler, flushRequested := false }.requestIfNeeded

@[simp] theorem tasks_request (q : Queue) : q.request.1.tasks = q.tasks := by
  unfold request
  split <;> rfl

@[simp] theorem tasks_requestIfNeeded (q : Queue) : q.requestIfNeeded.1.tasks = q.tasks := by
  unfold requestIfNeeded
  split
  · rfl
  · exact tasks_request q

@[simp] theorem tasks_install (q : Queue) (scheduler : Scheduler) :
    (q.install scheduler).1.tasks = q.tasks :=
  tasks_requestIfNeeded _

/-- A ticket that waits leaves the tasks alone. -/
theorem tasks_await {q queue : Queue} {ticket : TicketId} {next : FollowUp}
    (h : q.await ticket = some (queue, next)) : queue.tasks = q.tasks := by
  unfold await at h
  split at h
  · exact absurd h (by simp)
  · have hq : ({ q with waiters := q.waiters ++ [ticket] } : Queue).request.1 = queue :=
      congrArg Prod.fst (Option.some.inj h)
    rw [← hq, tasks_request]

theorem request_ne_runNow (q : Queue) : q.request.2 ≠ .runNow := by
  unfold request
  split
  · exact nofun
  · exact nofun

/-- What waits is not asked for by emptying the queue at once. -/
theorem requestIfNeeded_ne_runNow (q : Queue) : q.requestIfNeeded.2 ≠ .runNow := by
  unfold requestIfNeeded
  split
  · exact nofun
  · exact request_ne_runNow q

theorem await_ne_runNow {q queue : Queue} {ticket : TicketId} {next : FollowUp}
    (h : q.await ticket = some (queue, next)) : next ≠ .runNow := by
  unfold await at h
  split at h
  · exact absurd h nofun
  · have hn : ({ q with waiters := q.waiters ++ [ticket] } : Queue).request.2 = next :=
      congrArg Prod.snd (Option.some.inj h)
    exact hn ▸ request_ne_runNow _

/-- The queue is emptied at once when a task is new to it in synchronous mode, unless a flush is
running. -/
theorem accept_eq_runNow {q : Queue} {t : Task} :
    (q.accept t).2 = .runNow ↔ t ∉ q.tasks ∧ q.mode = .sync ∧ q.processing = false := by
  unfold accept
  split
  · next ht => exact ⟨nofun, fun h => absurd ht h.1⟩
  · next ht =>
    dsimp only
    split
    · next hm => simp [ht, hm]
    · next hm =>
      refine ⟨fun h => absurd h (request_ne_runNow _), fun h => absurd (hm.symm.trans h.2.1) nofun⟩

/-! Only whoever says so begins or ends a flush, or switches modes. -/

theorem fixed_request (q : Queue) :
    q.request.1.processing = q.processing ∧ q.request.1.mode = q.mode := by
  unfold request
  split <;> exact ⟨rfl, rfl⟩

theorem fixed_requestIfNeeded (q : Queue) :
    q.requestIfNeeded.1.processing = q.processing ∧ q.requestIfNeeded.1.mode = q.mode := by
  unfold requestIfNeeded
  split
  · exact ⟨rfl, rfl⟩
  · exact fixed_request q

theorem fixed_accept (q : Queue) (t : Task) :
    (q.accept t).1.processing = q.processing ∧ (q.accept t).1.mode = q.mode := by
  unfold accept
  split
  · exact ⟨rfl, rfl⟩
  · dsimp only
    split
    · exact ⟨rfl, rfl⟩
    · exact fixed_request { q with tasks := q.tasks ++ [t] }

theorem fixed_await {q queue : Queue} {ticket : TicketId} {next : FollowUp}
    (h : q.await ticket = some (queue, next)) :
    queue.processing = q.processing ∧ queue.mode = q.mode := by
  unfold await at h
  split at h
  · exact absurd h nofun
  · obtain ⟨rfl, rfl⟩ := Prod.ext_iff.mp (Option.some.inj h)
    exact fixed_request { q with waiters := q.waiters ++ [ticket] }

/-- A task that waits already is not accepted again; any other is the last to wait. -/
theorem tasks_accept (q : Queue) (t : Task) :
    (q.accept t).1.tasks = if t ∈ q.tasks then q.tasks else q.tasks ++ [t] := by
  unfold accept
  split
  · rfl
  · dsimp only
    split
    · rfl
    · exact tasks_request _

/-- What waits after a task is accepted is that task and what waited before. -/
@[simp] theorem mem_accept {q : Queue} {t u : Task} :
    u ∈ (q.accept t).1.tasks ↔ u ∈ q.tasks ∨ u = t := by
  unfold accept
  split
  · next h =>
    constructor
    · exact .inl
    · rintro (hu | rfl)
      · exact hu
      · exact h
  · dsimp only
    split
    · simp
    · simp

end Queue

/-- **Report.** How many tasks ran in some flushes, and how those that failed did. -/
structure FlushReport where
  processed : Nat
  errors : List Error
deriving Inhabited

namespace FlushReport

/-- Nothing ran. -/
def empty : FlushReport := ⟨0, []⟩

/-- The report of one flush followed by others. -/
def absorb (a b : FlushReport) : FlushReport :=
  ⟨a.processed + b.processed, a.errors ++ b.errors⟩

/-- The number of tasks that ran, if none failed. -/
def toExcept (r : FlushReport) : Except Error Nat :=
  if r.errors.isEmpty then .ok r.processed else .error (.flush r.errors)

end FlushReport

end ReactiveViews
