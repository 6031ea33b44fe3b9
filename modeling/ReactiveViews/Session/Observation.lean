import ReactiveViews.Session.Handles
import ReactiveViews.Session.Values
/-!
# Commands on notifiers, observers, contexts and the queue
-/

namespace ReactiveViews.Machine

/-- Commands on notifiers. -/
def performNotifier : NotifierCommand → Machine Answer
  | .create handle => do
    giveHandle handle (.notifier (← newNotifier))
    return .unit
  | .createSubscriber handle body => do
    let s ← modifyGet fun w =>
      let (s, subscribers) := w.subscribers.add ⟨⟨handle, body⟩, []⟩
      (s, { w with subscribers })
    giveHandle handle (.subscriber s)
    return .unit
  | .subscribe subscriber target name => do
    let s ← subscriberNamed subscriber
    subscribe (← targetNotifier target) (.scripted s) name
    return .unit
  | .unsubscribe subscriber target name => do
    let s ← subscriberNamed subscriber
    unsubscribe (← targetNotifier target) (.scripted s) name
    return .unit
  | .count target name => do
    let n ← targetNotifier target
    return .count ((← get).notifiers.get n |>.subscribers name).length
  | .notify target name kind => do
    let n ← targetNotifier target
    let change := match kind with
      | .property => .property name
      | .signal => .signal name
      | .splices => .splices []
    notify n change
    return .optionalText change.key?
  | .sendSignal name => do
    sendSignal name
    return .unit
  | .same a b => do
    let x ← targetNotifier a
    let y ← targetNotifier b
    return .bool (x == y)
  | .sourcePeek handle name => do
    let source ← lookUp handle "source" fun
      | .object o => some (.object o)
      | .array a => some (.array a)
      | .context c => some (.context c)
      | _ => none
    answerValue (← read (·.peekObservable source name))

/-- Commands on observers. -/
def performObserver : ObserverCommand → Machine Answer
  | .create handle evaluator isVolatile body => do
    giveHandle handle (.observer (← newObserver evaluator isVolatile (.scripted handle body)))
    return .unit
  | .observe handle source context => do
    let o ← observerNamed handle
    let source ← resolve source
    answerValue (← observe o source (← contextOrRoot context))
  | .info handle => do
    let o ← observerNamed handle
    let s ← read fun w => w.observers.get o
    return .observerInfo ⟨s.records.map (·.name), s.needsRefresh, s.isAsync⟩
  | .setMode handle mode => do
    let o ← observerNamed handle
    setObserverMode o (mode = .async)
    return .unit
  | .dispose handle => do
    disposeObserver (← observerNamed handle)
    return .unit

/-- The truth of an answer about a position. -/
def holdsAt (c : ContextId) (query : PositionQuery) : Machine Bool := do
  return (← queryPosition c query).truthy

/-- Commands on contexts. -/
def performContext : ContextCommand → Machine Answer
  | .create handle => do
    giveHandle handle (.context (← rootContext))
    return .unit
  | .child handle context source => do
    let c ← contextOrRoot context
    giveHandle handle (.context (← childContext c (← resolve source)))
    return .unit
  | .item handle context index length => do
    let c ← contextOrRoot context
    giveHandle handle (.context (← itemContext c index length))
    return .unit
  | .move handle index length => do
    updatePosition (← contextNamed handle) index length
    return .unit
  | .info handle => do
    let c ← contextNamed handle
    let index ← contextIndex c
    let length ← contextLength c
    let first ← holdsAt c .first
    let last ← holdsAt c .last
    let middle ← holdsAt c .middle
    let even ← holdsAt c .even
    let odd ← holdsAt c .odd
    let w ← get
    let s := w.contexts.get c
    return .contextInfo
      { index, length, first, last, middle, even, odd
        parent := w.shown s.parent
        parentContext := w.showContext s.parentContext
        hasEvent := w.currentEvent.isSome }

/-- Commands on the queue. -/
def performQueue : QueueCommand → Machine Answer
  | .createTask handle body => do
    let t ← modifyGet fun w =>
      let (t, tasks) := w.tasks.add ⟨handle, body⟩
      (t, { w with tasks })
    giveHandle handle (.task t)
    return .unit
  | .enqueue task => do
    enqueue (.scripted (← taskNamed task))
    return .unit
  | .process => return .flushed (← process)
  | .settle => return .flushed (← call .settle)
  | .processResult => do
    let report ← process
    return .count (← ofExcept report.toExcept)
  | .status => do
    let q ← read (·.queue)
    return .queueInfo ⟨q.tasks.length, q.flushRequested, q.mode⟩
  | .setMode mode => do
    setMode mode
    return .unit
  | .configure mode scheduler => do
    configure mode scheduler
    return .unit
  | .runPool => do
    call .drainPool
    return .unit
  | .dropPool => do
    modify fun w => { w with pool := none }
    return .unit
  | .next handle => do
    giveHandle handle (.ticket (← nextFlush))
    return .unit
  | .poll handle => do
    let t ← ticketNamed handle
    return .bool (← read fun w => w.tickets.get t)

end ReactiveViews.Machine
