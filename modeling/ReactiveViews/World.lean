import ReactiveViews.Accessor
import ReactiveViews.Answer
import ReactiveViews.Markup.Compile
/-!
# The world

Everything that can change is in one value, the `World`: a store for each kind of
thing with an identity, the queue, the registry of types, and the settings that
were made. Objects, arrays and contexts are *observable*: each has at most one
notifier, made when somebody first asks for it.

Behaviors are what a view attaches to its nodes. Each kind remembers what it is
bound to, and what it has to undo when it is unbound.
-/

namespace ReactiveViews

/-- **Object.** A bag of fields of a named type. -/
structure ObjectState where
  typeName : String
  fields : Keyed Value
  notifier : Option NotifierId
deriving Inhabited

/-- **Array observer.** Records the splices of one array. The buffered kind publishes them from
the queue; the immediate kind at once. -/
structure ArrayObserver where
  notifier : NotifierId
  isImmediate : Bool
  pending : List Splice
  /-- The next splice has to queue the array. -/
  needsQueue : Bool

/-- **Array.** -/
structure ArrayState where
  items : List Value
  observer : Option ArrayObserver
deriving Inhabited

/-- What a tracked read is recorded against. -/
inductive Observable
  | object (o : ObjectId)
  | array (a : ArrayId)
  | context (c : ContextId)
deriving DecidableEq, Inhabited

/-- Whether a value is this very thing. Contexts are no values. -/
def Observable.is : Observable → Value → Bool
  | object a, .object b => a == b
  | array a, .array b => a == b
  | _, _ => false

/-- **Record.** One tracked read of an evaluation, and where it is subscribed. -/
structure Record where
  source : Observable
  name : String
  notifier : NotifierId
deriving Inhabited

/-- What an observer does when a dependency has changed. -/
inductive Reaction
  | scripted (name : String) (body : Expr)
  /-- A binding behavior applies its value again. -/
  | refresh (b : BehaviorId)
  | itemsChanged (b : BehaviorId)
  | templateChanged (b : BehaviorId)

/-- **Observer.** Evaluates an expression, records what it reads, and reacts when that
changes. -/
structure ObserverState where
  evaluator : Expr
  isVolatile : Bool
  reaction : Reaction
  records : List Record
  /-- The next evaluation discovers the dependencies anew. -/
  needsRefresh : Bool
  /-- The next change has to queue the observer. -/
  needsQueue : Bool
  isAsync : Bool
  /-- A failure to subscribe, reported when the evaluation is over. -/
  deferredError : Option Error

instance : Inhabited ObserverState :=
  ⟨⟨default, false, .scripted "" default, [], true, true, true, none⟩⟩

/-- **Context.** The surroundings of a view: the source of the view around it, the context of
that view, and a position in a list. -/
structure ContextState where
  parent : Value
  parentContext : Option ContextId
  index : Nat
  length : Nat
  notifier : Option NotifierId
deriving Inhabited

/-- **Event.** -/
structure EventState where
  type : String
  detail : Value
  bubbles : Bool
  defaultPrevented : Bool
  propagationStopped : Bool
  target : Option NodeId
deriving Inhabited

/-- **Template.** A prototype fragment and its directives. -/
structure TemplateState where
  fragment : NodeId
  directives : List (Path × Directive)
deriving Inhabited

/-- **View.** A copy of a template's fragment and the behaviors attached to it. Its nodes are
those from `first` to `last`; while it is detached they stand in its own fragment. -/
structure ViewState where
  fragment : NodeId
  first : NodeId
  last : NodeId
  behaviors : List BehaviorId
  template : TemplateId
  source : Option Value
  context : Option ContextId
deriving Inhabited

/-- What a behavior is bound to. -/
structure Bound where
  source : Value
  context : ContextId
deriving Inhabited

/-- **Composed view.** The view that a content binding shows in front of its placeholder. -/
structure Composed where
  view : ViewId
  template : TemplateId
  /-- The view's nodes are in place. -/
  isComposed : Bool
  /-- The view was unbound with the behavior and stays in place. -/
  needsBindOnly : Bool
deriving Inhabited

/-- **Binding behavior.** Keeps one aspect of a node at the value of a binding. -/
structure BindingState where
  target : NodeId
  aspect : Aspect
  binding : Binding
  observer : Option ObserverId
  bound : Option Bound
  composed : Option Composed
  listener : Option Nat
  signal : Option NotifierId
  /-- The next signal has to queue the behavior. -/
  signalNeedsQueue : Bool

/-- **Event behavior.** Calls a binding when an event arrives at a node. -/
structure HandlerState where
  target : NodeId
  type : String
  binding : Binding
  bound : Option Bound
  listener : Option Nat

/-- What a repeat is bound to, and the context its items' contexts are made from. -/
structure RepeatBound where
  source : Value
  context : ContextId
  childContext : ContextId
deriving Inhabited

/-- **Repeat behavior.** Keeps one view per item of an array in front of a node. -/
structure RepeatState where
  location : NodeId
  options : RepeatOptions
  itemsObserver : ObserverId
  templateObserver : ObserverId
  bound : Option RepeatBound
  items : Option ArrayId
  /-- Where the behavior is subscribed for splices. -/
  itemsNotifier : Option NotifierId
  template : Option TemplateId
  views : List ViewId

/-- **Probe.** Logs what is done to it. -/
structure ProbeState where
  name : String
  failBind : Option String
deriving Inhabited

/-- **Behavior.** -/
inductive Behavior
  | binding (s : BindingState)
  | handler (s : HandlerState)
  | repeated (s : RepeatState)
  | probe (s : ProbeState)

instance : Inhabited Behavior := ⟨.probe default⟩

/-- A behavior, and whether its view is still there to own it. -/
structure BehaviorCell where
  behavior : Behavior
  isOwned : Bool
deriving Inhabited

/-- A scripted task: its name in the log, and what it evaluates. -/
structure Scripted where
  name : String
  body : Expr
deriving Inhabited

/-- **Scripted subscriber.** It keeps what it was told, the latest first. -/
structure ScriptedSubscriber extends Scripted where
  told : List Change
deriving Inhabited

/-- What a handle names. -/
inductive Handle
  | object (o : ObjectId)
  | array (a : ArrayId)
  | template (t : TemplateId)
  | notifier (n : NotifierId)
  | subscriber (s : SubscriberId)
  | observer (o : ObserverId)
  | context (c : ContextId)
  | task (t : TaskId)
  | node (n : NodeId)
  | event (e : EventId)
  | view (v : ViewId)
  /-- A listener by its number at its node. -/
  | listener (slot : Nat)
  | ticket (t : TicketId)
deriving DecidableEq, Inhabited

/-- What something running holds on to, so that it stays while nobody else refers to it. -/
inductive Held
  | subscriber (s : Subscriber)
  /-- A task that waits in a batch for its turn. -/
  | task (t : Task)
  /-- The task of a batch whose turn it is. -/
  | running (t : Task)
  /-- Something that has changed, of which subscribers are told once others have had their say. -/
  | changing (source : Observable) (name : String)
  | view (v : ViewId)
  /-- A view that is being bound or unbound. -/
  | binding (v : ViewId)
  | event (e : EventId)
  | node (n : NodeId)
deriving DecidableEq, Inhabited

/-- **World.** -/
structure World where
  registry : Registry
  objects : Store .object ObjectState
  arrays : Store .array ArrayState
  notifiers : Store .notifier Notifier
  observers : Store .observer ObserverState
  contexts : Store .context ContextState
  document : Document
  events : Store .event EventState
  templates : Store .template TemplateState
  views : Store .view ViewState
  behaviors : Store .behavior BehaviorCell
  subscribers : Store .subscriber ScriptedSubscriber
  tasks : Store .task Scripted
  /-- Whether each ticket is good. -/
  tickets : Store .ticket Bool
  queue : Queue
  /-- The flushes spawned on the task pool and not run; `none` if there is no pool. -/
  pool : Option Nat
  signals : Keyed NotifierId
  arrayObservation : ArrayObservation
  hostMode : HostMode
  /-- The observer that tracked reads are recorded for. -/
  watcher : Option ObserverId
  /-- The event being handled. -/
  currentEvent : Option EventId
  handles : Keyed Handle
  held : List Held
  /-- Latest entry first. -/
  log : List LogEntry
deriving Inhabited

namespace World

/-- A world in which nothing has happened. -/
def empty : World where
  registry := ⟨[], []⟩
  objects := .empty
  arrays := .empty
  notifiers := .empty
  observers := .empty
  contexts := .empty
  document := Store.empty
  events := .empty
  templates := .empty
  views := .empty
  behaviors := .empty
  subscribers := .empty
  tasks := .empty
  tickets := .empty
  queue := .empty
  pool := none
  signals := []
  arrayObservation := .off
  hostMode := .memory
  watcher := none
  currentEvent := none
  handles := []
  held := []
  log := []

/-- The type of an object. -/
def typeOf (w : World) (o : ObjectId) : String := (w.objects.get o).typeName

/-- An untracked read of a property; null if it was never set. -/
def peek (w : World) (o : ObjectId) (name : String) : Value :=
  ((w.objects.get o).fields.find? name).getD .null

/-- The items of an array. -/
def itemsOf (w : World) (a : ArrayId) : List Value := (w.arrays.get a).items

/-- An untracked read of a property of something observable: a property of an object, the
length of an array, the position of a context. -/
def peekObservable (w : World) (s : Observable) (name : String) : Value :=
  match s with
  | .object o => w.peek o name
  | .array a => if name = "length" then .ofNat (w.itemsOf a).length else .null
  | .context c =>
    if name = "index" then .ofNat (w.contexts.get c).index
    else if name = "length" then .ofNat (w.contexts.get c).length
    else .null

/-- The text of a value to a depth of nested arrays. -/
def displayTo (w : World) : Nat → Value → String
  | _, .null => ""
  | _, .bool b => if b then "true" else "false"
  | _, .number n => showNumber n
  | _, .text s => s
  | _, .object _ => "[object Object]"
  | _, .template _ => ""
  | 0, .array _ => ""
  | depth + 1, .array a => ",".intercalate ((w.itemsOf a).map (displayTo w depth))

/-- **Display.** The text that content shows for a value. Arrays nest no deeper than there are
arrays. -/
def display (w : World) (v : Value) : String := w.displayTo w.arrays.size v

/-- The handle that was first given to a thing and still names it. -/
def handleOf? (w : World) (h : Handle) : Option String :=
  (List.find? (fun entry => entry.2 = h) w.handles).map Prod.fst

/-- A value shown to a depth of nested arrays. -/
def showTo (w : World) : Nat → Value → Shown
  | _, .null => .null
  | _, .bool b => .bool b
  | _, .number n => .number (showNumber n)
  | _, .text s => .text s
  | _, .object o =>
    match w.handleOf? (.object o) with
    | some name => .handle name
    | none => .object (w.typeOf o)
  | _, .template t =>
    match w.handleOf? (.template t) with
    | some name => .handle name
    | none => .template (w.document.html (w.templates.get t).fragment)
  | depth, .array a =>
    match w.handleOf? (.array a) with
    | some name => .handle name
    | none =>
      match depth with
      | 0 => .array []
      | depth + 1 => .array ((w.itemsOf a).map (showTo w depth))

/-- **Showing.** A value as answers and the log show it. -/
def shown (w : World) (v : Value) : Shown := w.showTo w.arrays.size v

/-- A node as answers show it. -/
def showNode (w : World) : Option NodeId → ShownNode
  | none => .none
  | some n =>
    match w.handleOf? (.node n) with
    | some name => .handle name
    | none => .html (w.document.html n)

/-- A context as answers show it. -/
def showContext (w : World) : Option ContextId → ShownContext
  | none => .none
  | some c =>
    match w.handleOf? (.context c) with
    | some name => .handle name
    | none => .anonymous

/-- A change as the log shows it. -/
def showChange (w : World) : Change → ShownChange
  | .property name => .property name
  | .signal name => .signal name
  | .splices history => .splices <| history.map fun s =>
    ⟨s.index, s.removed.map w.shown, s.added.map w.shown⟩

/-- A behavior's state. -/
def behavior (w : World) (b : BehaviorId) : Behavior := (w.behaviors.get b).behavior

end World

end ReactiveViews
