import ReactiveViews.View.Content
import ReactiveViews.View.Repeat
/-!
# Behaviors of all kinds

Binding and unbinding a view means binding and unbinding its behaviors in order.
This module says what that is for each kind of behavior, how an event travels,
and what an observer or a queued behavior does when its turn comes.
-/

namespace ReactiveViews

namespace World

/-- The state of an event behavior. -/
def handlerState? (w : World) (b : BehaviorId) : Option HandlerState :=
  match w.behavior b with
  | .handler s => some s
  | _ => none

/-- Whether a behavior's view is still there. -/
def isOwned (w : World) (b : BehaviorId) : Bool := (w.behaviors.get b).isOwned

end World

namespace Machine

/-! ## Events -/

/-- Changes the state of an event. -/
def modifyEvent (e : EventId) (f : EventState → EventState) : Machine Unit :=
  modify fun w => { w with events := w.events.modify e f }

/-- Cancels the default action of an event. -/
def preventDefault (e : EventId) : Machine Unit :=
  modifyEvent e fun s => { s with defaultPrevented := true }

/-- Stops an event at the node it is at. -/
def stopPropagation (e : EventId) : Machine Unit :=
  modifyEvent e fun s => { s with propagationStopped := true }

/-- Changes the state of an event behavior. -/
def modifyHandler (b : BehaviorId) (f : HandlerState → HandlerState) : Machine Unit :=
  modifyBehavior b fun
    | .handler s => .handler (f s)
    | other => other

/-- Whether a binding asks to be called only once per bind. -/
def isOnce (binding : Binding) : Bool :=
  match binding.mode with
  | .oneTime => true
  | _ => false

/-- **Event binding.** The binding is evaluated with the event at hand. Any result but `true`
cancels the default action. -/
def handleEvent (b : BehaviorId) (e : EventId) : Machine Unit := do
  match (← get).handlerState? b with
  | none => pure ()
  | some s =>
    match s.bound with
    | none => pure ()
    | some bound =>
      if isOnce s.binding then modifyHandler b fun s => { s with listener := none }
      let outcome ← attempt <| handling e <| untracked <|
        eval s.binding.evaluator ⟨bound.source, bound.context, .null⟩
      match outcome with
      | .ok (.bool true) => pure ()
      | .ok _ => preventDefault e
      | .error err => logError "event handler failed" err

/-- Disconnects an event behavior. -/
def unbindHandler (b : BehaviorId) : Machine Unit := do
  match (← get).handlerState? b with
  | none => pure ()
  | some s =>
    if s.bound.isNone then return
    modifyHandler b fun s => { s with bound := none, listener := none }
    match s.listener with
    | some slot => mutate (.unlisten s.target slot)
    | none => pure ()

/-- Connects an event behavior. -/
def bindHandler (b : BehaviorId) (source : Value) (context : ContextId) : Machine Unit := do
  unbindHandler b
  modifyHandler b fun s => { s with bound := some ⟨source, context⟩ }
  match (← get).handlerState? b with
  | none => pure ()
  | some s =>
    let slot ← listen s.target ⟨s.type, .event b, isOnce s.binding⟩
    modifyHandler b fun s => { s with listener := some slot }

/-- One action of a scripted listener. What a command answers is logged, also when it fails. -/
def runAction (e : EventId) : Action → Machine Unit
  | .prevent => preventDefault e
  | .stop => stopPropagation e
  | .perform c => do
    match ← attempt (call (.perform c)) with
    | .ok answer => logEntry (.did answer)
    | .error err => logEntry (.didFail err)

/-- Calls a handler. The handler of a behavior whose view is gone does nothing. -/
def callHandler (e : EventId) : Handler → Machine Unit
  | .scripted name actions => do
    let w ← get
    let s := w.events.get e
    logEntry (.handled name s.type (w.shown s.detail) s.defaultPrevented)
    each (runAction e) actions
  | .assign b => do
    if (← get).isOwned b then holding [.subscriber (.behavior b)] (assignBack b)
  | .event b => do
    if (← get).isOwned b then holding [.subscriber (.behavior b)] (handleEvent b e)

/-- **Bubbling.** Calls the handlers registered at a node when its turn comes, and goes on to the
node around it if the event bubbles and was not stopped. -/
def bubble (n : NodeId) (e : EventId) : Machine Unit := do
  let type ← read fun w => (w.events.get e).type
  let handlers ← onDocument (·.takeHandlers n type)
  holding [.event e, .node n] (each (callHandler e) handlers)
  let w ← get
  let s := w.events.get e
  if s.bubbles && !s.propagationStopped then
    match w.document.parent? n with
    | some parent => call (.bubble parent e)
    | none => pure ()

/-- **Dispatch.** The first node that an event is dispatched at stays its target. Tells whether
the default action is still to be done. -/
def dispatch (n : NodeId) (e : EventId) : Machine Bool := do
  modifyEvent e fun s => { s with target := s.target.or (some n) }
  call (.bubble n e)
  return !(← read fun w => (w.events.get e).defaultPrevented)

/-! ## Views -/

/-- Disconnects a behavior. -/
def unbindBehavior (b : BehaviorId) : Machine Unit := do
  match (← get).behavior b with
  | .binding _ => unbindBinding b
  | .handler _ => unbindHandler b
  | .repeated _ => unbindRepeat b
  | .probe s => logEntry (.probeUnbound s.name)

/-- Shows a probe where it is bound, and fails if that was asked for. -/
def bindProbe (s : ProbeState) (source : Value) (context : ContextId) : Machine Unit := do
  let index ← contextIndex context
  let length ← contextLength context
  logEntry (.probeBound s.name ((← get).shown source) index length)
  match s.failBind with
  | some reason => throw (.binding reason)
  | none => pure ()

/-- Connects a behavior. -/
def bindBehavior (b : BehaviorId) (source : Value) (context : ContextId) : Machine Unit := do
  match (← get).behavior b with
  | .binding _ => bindBinding b source context
  | .handler _ => bindHandler b source context
  | .repeated _ => bindRepeat b source context
  | .probe s => bindProbe s source context

/-- **Binding a view.** Binding to the source it is bound to does nothing; binding to another
one unbinds first. -/
def bindView (v : ViewId) (source : Value) (context : ContextId) : Machine Unit := do
  let s ← read fun w => w.views.get v
  let isSame := match s.source with
    | some current => current.same source
    | none => false
  if isSame then return
  holding [.binding v] do
    if s.source.isSome then each unbindBehavior s.behaviors
    modifyView v fun s => { s with source := some source, context := some context }
    each (fun b => bindBehavior b source context) s.behaviors

/-- **Unbinding a view.** -/
def unbindView (v : ViewId) : Machine Unit := do
  let s ← read fun w => w.views.get v
  if s.source.isNone then return
  modifyView v fun s => { s with source := none, context := none }
  holding [.binding v] (each unbindBehavior s.behaviors)

/-- **Rendering.** Creates a view, binds it, and puts it at the end of a node. -/
def render (t : TemplateId) (source : Value) (context : ContextId) (parent : NodeId) :
    Machine ViewId := do
  let v ← createView t
  call (.bindView v source context)
  appendView v parent
  return v

/-! ## Observers, subscribers and tasks -/

/-- Runs what a behavior does on a change, unless its view is gone. -/
def reactOwned (b : BehaviorId) (m : Machine Unit) : Machine Unit := do
  if (← get).isOwned b then holding [.subscriber (.behavior b)] m

/-- **Reacting.** An observer without dependencies was disposed of and does nothing. -/
def react (o : ObserverId) : Machine Unit := do
  let s ← read fun w => w.observers.get o
  if s.records.isEmpty then return
  modifyObserver o fun s => { s with needsQueue := s.isAsync }
  match s.reaction with
  | .scripted name body =>
    logEntry (.reacted name)
    runBody body
  | .refresh b => reactOwned b (refreshBinding b)
  | .itemsChanged b => reactOwned b (itemsChanged b)
  | .templateChanged b => reactOwned b (templateChanged b)

/-- A dependency of an observer changed. It is queued once, or reacts at once. -/
def dependencyChanged (o : ObserverId) : Machine Unit := do
  let s ← read fun w => w.observers.get o
  if s.needsQueue then
    modifyObserver o fun s => { s with needsQueue := false }
    enqueue (.observer o)
  else if !s.isAsync then
    match ← attempt (react o) with
    | .ok _ => pure ()
    | .error e => logError "synchronous binding update failed" e

/-- A behavior that subscribed for itself is told of a change. -/
def behaviorChanged (b : BehaviorId) (change : Change) : Machine Unit := do
  match (← get).behavior b, change with
  | .binding s, _ => signalArrived b s
  | .repeated _, .splices history =>
    match ← attempt (updateViews b history) with
    | .ok _ => pure ()
    | .error e => logError "repeat failed to apply splices" e
  | _, _ => pure ()

/-- Replaces the state of a scripted subscriber. -/
def setSubscriber (s : SubscriberId) (state : ScriptedSubscriber) : Machine Unit :=
  modify fun w => { w with subscribers := w.subscribers.set s state }

/-- A scripted subscriber is told of a change. -/
def subscriberTold (s : SubscriberId) (change : Change) : Machine Unit := do
  let w ← get
  let scripted := w.subscribers.get s
  setSubscriber s { scripted with told := change :: scripted.told }
  logEntry (.notified scripted.name (w.showChange change))
  match ← attempt (runBody scripted.body) with
  | .ok _ => pure ()
  | .error e => logEntry (.subscriberFailed scripted.name e)

/-- **Delivery.** -/
def deliver (s : Subscriber) (change : Change) : Machine Unit :=
  match s with
  | .observer o => dependencyChanged o
  | .behavior b => behaviorChanged b change
  | .scripted s => subscriberTold s change

/-- **Updates.** What a queued task does. -/
def update (t : Task) : Machine Unit :=
  match t with
  | .observer o => react o
  | .behavior b => updateAfterSignal b
  | .splices a => flushSplices a
  | .scripted t => do
    let scripted ← read fun w => w.tasks.get t
    logEntry (.ran scripted.name)
    runBody scripted.body

end Machine

end ReactiveViews
