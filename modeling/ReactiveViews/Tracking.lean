import ReactiveViews.Machine
/-!
# Tracking

An observer evaluates its expression as the *watcher*: every tracked read made on
the way is recorded and subscribed to. When a recorded dependency changes, the
observer is told.

A volatile observer discovers its dependencies anew each time. A stable one
records them once and keeps them, unless a read goes through the value of the
read before it, as in a chain of properties; then the chain is walked again next
time.
-/

namespace ReactiveViews.Machine

/-! ## Notifiers -/

/-- A new notifier. -/
def newNotifier : Machine NotifierId :=
  modifyGet fun w =>
    let (n, notifiers) := w.notifiers.add ⟨[]⟩
    (n, { w with notifiers })

/-- Changes the subscriptions of a notifier. -/
def modifyNotifier (n : NotifierId) (f : Notifier → Notifier) : Machine Unit :=
  modify fun w => { w with notifiers := w.notifiers.modify n f }

/-- Adds a subscription. -/
def subscribe (n : NotifierId) (s : Subscriber) (topic : Option String) : Machine Unit :=
  modifyNotifier n (·.subscribe s topic)

/-- Cancels a subscription. -/
def unsubscribe (n : NotifierId) (s : Subscriber) (topic : Option String) : Machine Unit :=
  modifyNotifier n (·.unsubscribe s topic)

/-- Tells the recipients of a change one after another. -/
def deliverAll (change : Change) : List Subscriber → Machine Unit
  | [] => pure ()
  | s :: rest => do
    holding ((s :: rest).map .subscriber) (call (.deliver s change))
    deliverAll change rest

/-- **Notification.** Who is told is settled before the first is told, so that a recipient may
subscribe and unsubscribe freely. -/
def notify (n : NotifierId) (change : Change) : Machine Unit := do
  deliverAll change (← read fun w => (w.notifiers.get n).recipients change)

/-- Changes the state of an object. -/
def modifyObject (o : ObjectId) (f : ObjectState → ObjectState) : Machine Unit :=
  modify fun w => { w with objects := w.objects.modify o f }

/-- Changes the state of a context. -/
def modifyContext (c : ContextId) (f : ContextState → ContextState) : Machine Unit :=
  modify fun w => { w with contexts := w.contexts.modify c f }

/-- Changes the state of an array. -/
def modifyArray (a : ArrayId) (f : ArrayState → ArrayState) : Machine Unit :=
  modify fun w => { w with arrays := w.arrays.modify a f }

/-- Changes the state of an observer. -/
def modifyObserver (o : ObserverId) (f : ObserverState → ObserverState) : Machine Unit :=
  modify fun w => { w with observers := w.observers.modify o f }

/-- The notifier of an object, made on first use. -/
def objectNotifier (o : ObjectId) : Machine NotifierId := do
  match ← read fun w => (w.objects.get o).notifier with
  | some n => return n
  | none =>
    let n ← newNotifier
    modifyObject o fun s => { s with notifier := some n }
    return n

/-- The notifier of a context, made on first use. -/
def contextNotifier (c : ContextId) : Machine NotifierId := do
  match ← read fun w => (w.contexts.get c).notifier with
  | some n => return n
  | none =>
    let n ← newNotifier
    modifyContext c fun s => { s with notifier := some n }
    return n

/-- The notifier of an array. On first use an observer of the kind set up is attached; if none
is set up the array cannot be observed. -/
def arrayNotifier (a : ArrayId) : Machine NotifierId := do
  let w ← get
  match (w.arrays.get a).observer with
  | some observer => return observer.notifier
  | none =>
    if w.arrayObservation = .off then throw .arrayObservationDisabled
    let n ← newNotifier
    let isImmediate := w.arrayObservation = .immediate
    modifyArray a fun s => { s with observer := some ⟨n, isImmediate, [], true⟩ }
    return n

/-- The notifier of something observable. -/
def observableNotifier : Observable → Machine NotifierId
  | .object o => objectNotifier o
  | .array a => arrayNotifier a
  | .context c => contextNotifier c

/-- The notifier of a signal, made on first use. -/
def signalNotifier (name : String) : Machine NotifierId := do
  match (← get).signals.find? name with
  | some n => return n
  | none =>
    let n ← newNotifier
    modify fun w => { w with signals := w.signals.put name n }
    return n

/-- Sends a signal to whoever subscribed to it. -/
def sendSignal (name : String) : Machine Unit := do
  match (← get).signals.find? name with
  | some n => notify n (.signal name)
  | none => pure ()

/-! ## Recording reads -/

/-- Whether a read of `source` goes through the value of the read recorded last. -/
def continuesChain (w : World) (records : List Record) (source : Observable) : Bool :=
  match records.getLast? with
  | some last => source.is (w.peekObservable last.source last.name)
  | none => false

/-- **Recording.** Subscribes an observer to a read and records it. If what is read cannot be
observed, the first such failure is kept until the evaluation is over. -/
def watch (o : ObserverId) (source : Observable) (name : String) : Machine Unit := do
  match ← attempt (observableNotifier source) with
  | .error e =>
    modifyObserver o fun s => { s with deferredError := s.deferredError.or (some e) }
  | .ok n =>
    subscribe n (.observer o) (some name)
    let w ← get
    modifyObserver o fun s =>
      { s with
        needsRefresh := s.needsRefresh || continuesChain w s.records source
        records := s.records ++ [⟨source, name, n⟩] }

/-- Records a read for the watcher, if there is one. -/
def track (source : Observable) (name : String) : Machine Unit := do
  match (← get).watcher with
  | some o => watch o source name
  | none => pure ()

/-- The watcher discovers its dependencies anew next time. -/
def trackVolatile : Machine Unit := do
  match (← get).watcher with
  | some o => modifyObserver o fun s => { s with needsRefresh := true }
  | none => pure ()

/-! ## Observers -/

/-- A new observer that has not observed anything. -/
def newObserver (evaluator : Expr) (isVolatile : Bool) (reaction : Reaction) :
    Machine ObserverId :=
  modifyGet fun w =>
    let (o, observers) := w.observers.add
      ⟨evaluator, isVolatile, reaction, [], true, true, true, none⟩
    (o, { w with observers })

/-- Forgets all records of an observer and cancels their subscriptions. -/
def disconnect (o : ObserverId) : Machine Unit := do
  let records ← read fun w => (w.observers.get o).records
  modifyObserver o fun s => { s with records := [] }
  each (fun r => unsubscribe r.notifier (.observer o) (some r.name)) records

/-- **Observing.** Evaluates an observer's expression, recording dependencies if they need to
be discovered. A failure to subscribe outweighs what the evaluation came to. -/
def observe (o : ObserverId) (source : Value) (context : ContextId) : Machine Value := do
  let s ← read fun w => w.observers.get o
  if s.needsRefresh && !s.records.isEmpty then disconnect o
  modifyObserver o fun s => { s with needsRefresh := s.isVolatile }
  let result ← attempt <| holding [.subscriber (.observer o)] <|
    watching (if s.needsRefresh then some o else none) (eval s.evaluator ⟨source, context, .null⟩)
  match ← read fun w => (w.observers.get o).deferredError with
  | some e =>
    modifyObserver o fun s => { s with deferredError := none }
    throw e
  | none => ofExcept result

/-- Sets whether changes queue an observer or reach it at once. -/
def setObserverMode (o : ObserverId) (isAsync : Bool) : Machine Unit :=
  modifyObserver o fun s => { s with isAsync, needsQueue := isAsync }

/-- **Disposing.** Cancels all subscriptions. An observer that is queued will do nothing. -/
def disposeObserver (o : ObserverId) : Machine Unit := do
  disconnect o
  modifyObserver o fun s => { s with needsRefresh := true, needsQueue := s.isAsync }

/-! ## Properties -/

/-- The accessors of a type. Meeting a cyclic chain of parents is worth a warning. -/
def accessorsOf (type : String) : Machine (Keyed Accessor) := do
  let (found, registry, isCyclic) := (← get).registry.accessors type
  modify fun w => { w with registry }
  if isCyclic then logEntry (.warning "cyclic type parent chain")
  return found

/-- The accessor of a property, if the property is observable. -/
def accessorOf? (type name : String) : Machine (Option Accessor) := do
  return (← accessorsOf type).find? name

/-- **Reading.** A read of an observable property is recorded for the watcher. -/
def getProperty (o : ObjectId) (name : String) : Machine Value := do
  match (← get).watcher with
  | some watcher =>
    if (← accessorOf? (← read (·.typeOf o)) name).isSome then watch watcher (.object o) name
  | none => pure ()
  read (·.peek o name)

/-- Stores the value of a field. -/
def storeField (o : ObjectId) (name : String) (value : Value) : Machine Unit :=
  modifyObject o fun s => { s with fields := s.fields.put name value }

/-- Runs the callback of an accessor after a change. -/
def runCallback (o : ObjectId) (name : String) (old new : Value) (body : Expr) :
    Machine Unit := do
  let w ← get
  logEntry (.changed (w.shown (.object o)) name (w.shown old) (w.shown new))
  match ← attempt (evalAlone body (.object o) new) with
  | .ok _ => pure ()
  | .error e => logEntry (.callbackFailed e)

/-- **Writing.** Writing the value that an observable property has does nothing. Otherwise the
value is stored, the accessor's callback runs, and subscribers are told, in that order. A
property that is not observable is only stored. -/
def setProperty (o : ObjectId) (name : String) (value : Value) : Machine Unit := do
  match ← accessorOf? (← read (·.typeOf o)) name with
  | none => storeField o name value
  | some accessor =>
    let old ← read (·.peek o name)
    if old.same value then return
    storeField o name value
    match accessor.callback with
    | some body => holding [.changing (.object o) name] (runCallback o name old value body)
    | none => pure ()
    match ← read fun w => (w.objects.get o).notifier with
    | some n => notify n (.property name)
    | none => pure ()

/-! ## Contexts -/

/-- Position in the list, tracked. -/
def contextIndex (c : ContextId) : Machine Nat := do
  track (.context c) "index"
  read fun w => (w.contexts.get c).index

/-- Length of the list, tracked. -/
def contextLength (c : ContextId) : Machine Nat := do
  track (.context c) "length"
  read fun w => (w.contexts.get c).length

/-- Answers a question about a position. Only what the answer depends on is tracked. -/
def queryPosition (c : ContextId) : PositionQuery → Machine Value
  | .index => return .ofNat (← contextIndex c)
  | .length => return .ofNat (← contextLength c)
  | .first => return .bool ((← contextIndex c) == 0)
  | .last => do
    let index ← contextIndex c
    return .bool (index + 1 == (← contextLength c))
  | .middle => do
    let index ← contextIndex c
    if index = 0 then return .bool false
    return .bool (index + 1 < (← contextLength c))
  | .even => return .bool ((← contextIndex c) % 2 == 0)
  | .odd => return .bool ((← contextIndex c) % 2 == 1)

/-- The context some hops outwards. -/
def enclosing? (w : World) : Nat → ContextId → Option ContextId
  | 0, c => some c
  | hops + 1, c => (w.contexts.get c).parentContext.bind (enclosing? w hops)

/-- A context for what is inside a view that is bound to `source` in context `c`. -/
def childContext (c : ContextId) (source : Value) : Machine ContextId :=
  newContext ⟨source, some c, 0, 0, none⟩

/-- A context for an item of a list, with the same surroundings as `c`. -/
def itemContext (c : ContextId) (index length : Nat) : Machine ContextId := do
  let s ← read fun w => w.contexts.get c
  newContext ⟨s.parent, s.parentContext, index, length, none⟩

/-- **Moving.** Both parts of the position are stored before subscribers are told of those that
have changed. -/
def updatePosition (c : ContextId) (index length : Nat) : Machine Unit := do
  let old ← read fun w => w.contexts.get c
  modifyContext c fun s => { s with index, length }
  match old.notifier with
  | none => pure ()
  | some n =>
    if old.index ≠ index then
      holding (if old.length ≠ length then [.changing (.context c) "length"] else []) <|
        notify n (.property "index")
    if old.length ≠ length then notify n (.property "length")

end ReactiveViews.Machine
