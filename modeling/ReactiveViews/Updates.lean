import ReactiveViews.Tracking
/-!
# Flushing

What the queue decides is carried out here: asking the scheduler, running the
tasks of a flush, and flushing until nothing is left.

A flush runs what waited when it began. What its tasks queue is left for the next
flush, and a task that fails does not stop the others. The tickets that waited
become good when the tasks have run.
-/

namespace ReactiveViews.Machine

/-- Changes the queue. -/
def setQueue (queue : Queue) : Machine Unit :=
  modify fun w => { w with queue }

/-- Asks a scheduler for a flush. -/
def askScheduler : Scheduler → Machine Unit
  | .manual => pure ()
  | .log => logEntry .scheduled
  | .pool => do
    let w ← get
    match w.pool with
    | some spawned => set { w with pool := some (spawned + 1) }
    | none => logEntry (.error "failed to spawn update flush" "Executor is shutdown")

/-- Does what a change of the queue asks for. -/
def followUp : FollowUp → Machine Unit
  | .nothing => pure ()
  | .schedule scheduler => askScheduler scheduler
  | .runNow => do
    let _ ← call .settle

/-- **Enqueueing.** -/
def enqueue (t : Task) : Machine Unit := do
  let (queue, next) := (← get).queue.accept t
  setQueue queue
  followUp next

/-- Sets whether a flush is running tasks. -/
def setProcessing (processing : Bool) : Machine Unit :=
  modify fun w => { w with queue := { w.queue with processing } }

/-- Runs the tasks of a flush. -/
def runBatch : List Task → Machine FlushReport
  | [] => return .empty
  | t :: rest => do
    let outcome ← attempt (holding (.running t :: rest.map .task) (call (.update t)))
    match outcome with
    | .ok _ => return FlushReport.absorb ⟨1, []⟩ (← runBatch rest)
    | .error e =>
      logError "queued update failed" e
      return FlushReport.absorb ⟨1, [e]⟩ (← runBatch rest)

/-- Makes tickets good. -/
def redeem (tickets : List TicketId) : Machine Unit :=
  modify fun w => { w with tickets := tickets.foldl (fun s t => s.set t true) w.tickets }

/-- **One flush.** -/
def process : Machine FlushReport := do
  let w ← get
  let ((batch, waiters), queue) := w.queue.drain
  setQueue queue
  let report ←
    if batch.isEmpty then pure .empty
    else do
      setProcessing true
      let report ← runBatch batch
      setProcessing w.queue.processing
      pure report
  redeem waiters
  let (queue, next) := (← get).queue.requestIfNeeded
  setQueue queue
  followUp next
  return report

/-- **Settling.** Flushes until no task waits. -/
def settle : Machine FlushReport := do
  let report ← process
  if (← get).queue.tasks.isEmpty then return report
  return report.absorb (← call .settle)

/-- A ticket that becomes good with the next flush. -/
def nextFlush : Machine TicketId := do
  let ticket ← modifyGet fun w =>
    let (t, tickets) := w.tickets.add false
    (t, { w with tickets })
  match (← get).queue.await ticket with
  | none => redeem [ticket]
  | some (queue, next) =>
    setQueue queue
    followUp next
  return ticket

/-- Switches modes. Switching to synchronous mode runs what is pending. -/
def setMode (mode : UpdateMode) : Machine Unit := do
  modify fun w => { w with queue := { w.queue with mode } }
  if mode = .sync then
    let _ ← call .settle

/-- **Configuring.** Installs a scheduler and a mode. What is pending is requested from the new
scheduler as the mode before asks for. -/
def configure (mode : UpdateMode) (scheduler : Scheduler) : Machine Unit := do
  if scheduler = .pool then modify fun w => { w with pool := some 0 }
  let (queue, next) := (← get).queue.install scheduler
  setQueue queue
  setMode mode
  followUp next

/-- Runs one flush spawned on the task pool, and then the others. -/
def drainPool : Machine Unit := do
  let w ← get
  match w.pool with
  | some (spawned + 1) =>
    set { w with pool := some spawned }
    let _ ← process
    call .drainPool
  | _ => pure ()

/-! ## Arrays -/

/-- Replaces the state of the observer of an array. -/
def setArrayObserver (a : ArrayId) (observer : ArrayObserver) : Machine Unit :=
  modifyArray a fun s => { s with observer := some observer }

/-- Hands a splice to the observer of an array, if it has one. -/
def recordSplice (a : ArrayId) (s : Splice) : Machine Unit := do
  match (← get).arrays.get a |>.observer with
  | none => pure ()
  | some observer =>
    if observer.isImmediate then notify observer.notifier (.splices [s])
    else
      setArrayObserver a
        { observer with pending := Splice.append observer.pending s, needsQueue := false }
      if observer.needsQueue then enqueue (.splices a)

/-- Replaces the items of an array. -/
def setItems (a : ArrayId) (items : List Value) : Machine Unit :=
  modifyArray a fun s => { s with items }

/-- **Splicing.** Takes items out at an index and puts others in, both clamped to the array, and
gives what was taken out. Changing nothing is not recorded. -/
def spliceArray (a : ArrayId) (index deleteCount : Nat) (added : List Value) :
    Machine (List Value) := do
  let items ← read (·.itemsOf a)
  let s := Splice.cut items index deleteCount added
  setItems a (s.apply items)
  if !s.isEmpty then recordSplice a s
  return s.removed

/-- Replaces all items; this is always recorded. -/
def replaceItems (a : ArrayId) (added : List Value) : Machine Unit := do
  let removed ← read (·.itemsOf a)
  setItems a added
  recordSplice a (.reset removed added)

/-- Reorders the items. Reordering an empty array is not recorded. -/
def reorderItems (a : ArrayId) (f : List Value → List Value) : Machine Unit := do
  let removed ← read (·.itemsOf a)
  let added := f removed
  setItems a added
  if !removed.isEmpty then recordSplice a (.reset removed added)

/-- Adds an item at the end. -/
def pushItem (a : ArrayId) (v : Value) : Machine Unit := do
  let items ← read (·.itemsOf a)
  let _ ← spliceArray a items.length 0 [v]

/-- Takes the item at an index out, if there is one. -/
def removeItem (a : ArrayId) (index : Nat) : Machine (Option Value) := do
  let items ← read (·.itemsOf a)
  if index < items.length then return (← spliceArray a index 1 []).getLast?
  return none

/-- Takes the last item out, if there is one. -/
def popItem (a : ArrayId) : Machine (Option Value) := do
  let items ← read (·.itemsOf a)
  if items.isEmpty then return none
  removeItem a (items.length - 1)

/-- Replaces the item at an index, if there is one, and gives the one before. -/
def putItem (a : ArrayId) (index : Nat) (v : Value) : Machine (Option Value) := do
  let items ← read (·.itemsOf a)
  if index < items.length then return (← spliceArray a index 1 [v]).getLast?
  return none

/-- **Publishing.** Tells subscribers of the splices recorded so far, and then that the length
may have changed. Without splices nobody is told anything. -/
def flushSplices (a : ArrayId) : Machine Unit := do
  match (← get).arrays.get a |>.observer with
  | none => pure ()
  | some observer =>
    if observer.isImmediate then logEntry .flushed
    else
      setArrayObserver a { observer with pending := [], needsQueue := true }
      if !observer.pending.isEmpty then
        holding [.changing (.array a) "length"] <|
          notify observer.notifier (.splices observer.pending)
        notify observer.notifier (.property "length")

end ReactiveViews.Machine
