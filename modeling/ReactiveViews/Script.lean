import ReactiveViews.Aspect
import ReactiveViews.Value
/-!
# Scripts

What happens to views is said in a small language. An *expression* computes a
value from a source and a context; a *binding* is an expression with a policy of
when to evaluate it again; a *directive* is what a template attaches to a node;
and a *command* is one thing a user of the library does. Expressions may perform
commands, so the four are defined together.

Things are named in scripts by *handles*. A handle is looked up when it is used,
not when it is written.
-/

namespace ReactiveViews

/-- **Literal.** A value as a script writes it. Objects and arrays are made anew each time the
literal is evaluated. -/
inductive Literal
  | null
  | bool (b : Bool)
  | number (n : Float)
  | text (s : String)
  /-- The object, array or template of a handle. -/
  | handle (name : String)
  | object (typeName : Option String) (fields : List (String × Literal))
  | array (items : List Literal)
deriving Inhabited

/-- What an expression may ask of a context about a position. -/
inductive PositionQuery
  | index
  | length
  | first
  | last
  | middle
  | even
  | odd
deriving DecidableEq, Repr

/-- What an expression may ask about the event being handled. -/
inductive EventQuery
  | type
  | detail
  | bubbles
  | prevented
  | target
deriving DecidableEq, Repr

/-- When queued work runs: with the next flush, or as soon as it is queued. -/
inductive UpdateMode
  | async
  | sync
deriving DecidableEq, Inhabited, Repr

/-- Who is asked to flush the queue: nobody, the log, or the task pool. -/
inductive Scheduler
  | manual
  | log
  | pool
deriving DecidableEq, Inhabited, Repr

/-- What observes arrays: nothing, a buffer flushed through the queue, or an observer that
publishes each splice at once. -/
inductive ArrayObservation
  | off
  | buffered
  | immediate
deriving DecidableEq, Inhabited, Repr

/-- Whether changes to views are logged before they are made. -/
inductive HostMode
  | memory
  | recording
deriving DecidableEq, Inhabited, Repr

/-- The four kinds of node. -/
inductive NodeKind
  | element (tag : String)
  | text
  | comment
  | fragment
deriving DecidableEq, Inhabited, Repr

/-- How elements of an array are compared when it is sorted. -/
inductive SortOrder
  | byNumber
  | byText
deriving DecidableEq, Repr

/-- What is sent to a notifier by hand. -/
inductive NoticeKind
  | property
  | signal
  | splices
deriving DecidableEq, Repr

/-- Where a subscription goes. -/
inductive Target
  /-- The notifier of the object, array, context or notifier of a handle. -/
  | handle (name : String)
  | signal (name : String)
deriving Inhabited

/-- An event to dispatch. -/
inductive EventSource
  /-- A new event; with a detail it bubbles. -/
  | fresh (type : String) (detail : Option Literal)
  | handle (name : String)
deriving Inhabited

/-- **Repeat options.** -/
structure RepeatOptions where
  /-- Keep index and length of every item's context current as items move. -/
  positioning : Bool := false
  /-- Bind removed views to added items instead of creating new ones. -/
  recycle : Bool := true
deriving DecidableEq, Inhabited, Repr

/-- What is done to objects. -/
inductive ObjectCommand
  | create (handle : String) (typeName : Option String) (fields : List (String × Literal))
  | get (handle name : String)
  | peek (handle name : String)
  | set (handle name : String) (value : Literal)
  | isObservable (handle name : String)
  | typeName (handle : String)

/-- What is done to contexts. -/
inductive ContextCommand
  | create (handle : String)
  | child (handle : String) (context : Option String) (source : Literal)
  | item (handle : String) (context : Option String) (index length : Nat)
  | move (handle : String) (index length : Nat)
  | info (handle : String)

/-- What is done to nodes. -/
inductive NodeCommand
  | setHost (mode : HostMode)
  | create (handle : String) (kind : NodeKind) (data : String)
  | pick (handle node : String) (path : List Nat)
  | append (parent child : String)
  | insertBefore (parent child : String) (reference : Option String)
  | detach (node : String)
  | removeChild (parent child : String)
  | clone (handle node : String)
  | html (node : String)
  | text (node : String)
  | setText (node text : String)
  | setData (node text : String)
  | info (node : String)
  | getAttribute (node name : String)
  | setAttribute (node name value : String)
  | removeAttribute (node name : String)
  | getProperty (node name : String)
  | setProperty (node name : String) (value : Literal)
  | path (id : String) (root : Option String)
  | pathOf (node root : String)

/-- What is done to views. -/
inductive ViewCommand
  | create (handle template : String)
  | render (handle template : String) (source : Literal) (host : String)
      (context : Option String)
  | bind (handle : String) (source : Literal) (context : Option String)
  | unbind (handle : String)
  | append (handle node : String)
  | insertBefore (handle node : String)
  | remove (handle : String)
  | dispose (handle : String)
  | info (handle : String)

mutual

/-- **Expression.** -/
inductive Expr
  | literal (l : Literal)
  | constant (v : Value)
  /-- The source that the binding is evaluated for. -/
  | source
  /-- The extra value: an assigned value, a value read from a node, a new value. -/
  | extra
  | get (object : Expr) (name : String)
  | peek (object : Expr) (name : String)
  | cat (parts : List Expr)
  | seq (parts : List Expr)
  | cond (test onTrue onFalse : Expr)
  | not (e : Expr)
  | eq (a b : Expr)
  | add (a b : Expr)
  | less (a b : Expr)
  | fail (reason : String)
  /-- Tracked length of an array. -/
  | length (e : Expr)
  /-- Untracked length of an array. -/
  | rawLength (e : Expr)
  | item (array index : Expr)
  | join (array : Expr)
  | position (hops : Nat) (query : PositionQuery)
  /-- The parent source of the context some hops outwards. -/
  | parent (hops : Nat)
  | event (query : EventQuery)
  | prevent
  | stop
  | set (object : Expr) (name : String) (value : Expr)
  | push (array value : Expr)
  | log (tag : String) (e : Expr)
  | volatile
  | untracked (e : Expr)
  | tracking
  | track (on : Expr) (name : String)
  | observe (observer : String) (on : Expr)
  | perform (command : Command)

/-- **Binding.** An expression and when it is evaluated again. -/
structure Binding where
  evaluator : Expr
  /-- Dependencies are discovered anew on each evaluation. -/
  isVolatile : Bool
  /-- Changes are applied at once and not through the queue. -/
  isSynchronous : Bool
  mode : BindingMode

/-- When a binding is evaluated. -/
inductive BindingMode
  /-- Once per bind. -/
  | oneTime
  /-- Whenever a dependency changes. -/
  | onChange
  /-- Whenever a dependency changes, and the node's value is assigned back on an event. -/
  | twoWay (assign : Assign) (changeEvent : String) (convert : Option Expr)
  /-- Whenever a signal is sent. -/
  | signal (name : String)

/-- How a two-way binding assigns a value of its node. -/
inductive Assign
  /-- To a property of the source, which has to be an object. -/
  | property (name : String)
  /-- By evaluating an expression with the value as extra value. -/
  | expr (e : Expr)

/-- **Directive.** What a template attaches to a node. -/
inductive Directive
  | bind (binding : Binding) (aspect : Aspect)
  | repeated (items template : Binding) (options : RepeatOptions)
  /-- Logs what is done to it, and fails on request. -/
  | probe (name : String) (failCreate failBind : Option String)

/-- A repeat as a script writes it. -/
structure RepeatForm where
  items : Binding
  template : RepeatTemplate
  options : RepeatOptions

/-- The template of a repeat: a fixed one, or what a binding gives. -/
inductive RepeatTemplate
  | handle (name : String)
  | binding (b : Binding)

/-- What stands between two pieces of markup. -/
inductive Interpolation
  | markup (text : String)
  | binding (b : Binding)
  | repeated (form : RepeatForm)
  | probe (name : String) (failCreate failBind : Option String)

/-- What a scripted listener does when it is called. -/
inductive Action
  | prevent
  | stop
  | perform (command : Command)

/-- **Command.** One thing a user of the library does, grouped by what it is done to. -/
inductive Command
  | value (c : ValueCommand)
  | type (c : TypeCommand)
  | object (c : ObjectCommand)
  | notifier (c : NotifierCommand)
  | array (c : ArrayCommand)
  | observer (c : ObserverCommand)
  | context (c : ContextCommand)
  | queue (c : QueueCommand)
  | node (c : NodeCommand)
  | event (c : EventCommand)
  | template (c : TemplateCommand)
  | view (c : ViewCommand)
  /-- Forgets a handle. -/
  | drop (handle : String)

inductive ValueCommand
  | describe (v : Literal)
  | same (a b : Literal)
  | eval (e : Expr) (source : Literal) (context : Option String)
  | aspect (attributeName : String)
  | isVoid (tag : String)
  | debugHandle (handle : String)
  | debugBinding (b : Binding)
  | debugValue (v : Literal)

inductive TypeCommand
  | defineType (name : String) (parent : Option String)
  /-- With a body, each property gets a callback that evaluates it on every change. -/
  | defineProperties (type : String) (names : List String) (body : Option Expr)
  | accessors (type : String)
  | accessor (type name : String)

inductive NotifierCommand
  | create (handle : String)
  | createSubscriber (handle : String) (body : Expr)
  | subscribe (subscriber : String) (target : Target) (name : Option String)
  | unsubscribe (subscriber : String) (target : Target) (name : Option String)
  | count (target : Target) (name : Option String)
  | notify (target : Target) (name : String) (kind : NoticeKind)
  | sendSignal (name : String)
  | same (a b : Target)
  | sourcePeek (handle name : String)

inductive ArrayCommand
  | observation (mode : ArrayObservation)
  | create (handle : String) (items : List Literal)
  | items (handle : String)
  | get (handle : String) (index : Nat)
  | push (handle : String) (value : Literal)
  | pop (handle : String)
  | shift (handle : String)
  | remove (handle : String) (index : Nat)
  | put (handle : String) (index : Nat) (value : Literal)
  | unshift (handle : String) (value : Literal)
  | insert (handle : String) (index : Nat) (value : Literal)
  | splice (handle : String) (index deleteCount : Nat) (items : List Literal)
  | clear (handle : String)
  | replace (handle : String) (items : List Literal)
  | reverse (handle : String)
  | sort (handle : String) (key : Expr) (order : SortOrder) (descending : Bool)
  | flush (handle : String)

inductive ObserverCommand
  | create (handle : String) (evaluator : Expr) (isVolatile : Bool) (body : Expr)
  | observe (handle : String) (source : Literal) (context : Option String)
  | info (handle : String)
  | setMode (handle : String) (mode : UpdateMode)
  | dispose (handle : String)

inductive QueueCommand
  | createTask (handle : String) (body : Expr)
  | enqueue (task : String)
  | process
  | settle
  | processResult
  | status
  | setMode (mode : UpdateMode)
  | configure (mode : UpdateMode) (scheduler : Scheduler)
  | runPool
  | dropPool
  | next (handle : String)
  | poll (handle : String)

inductive EventCommand
  | listen (handle node type : String) (once : Bool) (actions : List Action)
  | unlisten (handle node : String)
  | listeners (node type : String)
  | create (handle : String) (event : EventSource)
  | info (handle : String)
  | dispatch (node : String) (event : EventSource)

inductive TemplateCommand
  /-- Compiles markup; with a source the template is also rendered into a new element. -/
  | compile (handle : String) (strings : List String) (interpolations : List Interpolation)
      (source : Option Literal)
  /-- Assembles a template from a fragment and directives at paths in it. -/
  | assemble (handle fragment : String) (parts : List (String × Option String × Interpolation))
  | evaluate (b : Binding) (source : Literal) (context : Option String)

end

instance : Inhabited Expr := ⟨.literal .null⟩

instance : Inhabited Command := ⟨.drop ""⟩

instance : Inhabited Action := ⟨.prevent⟩

instance : Inhabited Interpolation := ⟨.markup ""⟩

namespace Binding

/-- A binding that follows its dependencies and discovers them anew each time. -/
def ofExpr (e : Expr) : Binding := ⟨e, true, false, .onChange⟩

instance : Inhabited Binding := ⟨ofExpr default⟩

/-- The binding always reads the same properties. -/
def stable (b : Binding) : Binding := { b with isVolatile := false }

/-- Changes are applied at once. -/
def synchronous (b : Binding) : Binding := { b with isSynchronous := true }

/-- Changes are applied through the queue. -/
def queued (b : Binding) : Binding := { b with isSynchronous := false }

/-- The event on which a two-way binding assigns; other bindings have none. -/
def changeEvent (b : Binding) (type : String) : Binding :=
  match b.mode with
  | .twoWay assign _ convert => { b with mode := .twoWay assign type convert }
  | _ => b

/-- What a two-way binding makes of a value before assigning it. -/
def converting (b : Binding) (e : Expr) : Binding :=
  match b.mode with
  | .twoWay assign type _ => { b with mode := .twoWay assign type (some e) }
  | _ => b

/-- A binding evaluated once per bind. -/
def oneTime (e : Expr) : Binding := { ofExpr e with mode := .oneTime }

/-- A binding evaluated again when a signal is sent. -/
def signal (name : String) (e : Expr) : Binding := { ofExpr e with mode := .signal name }

/-- A two-way binding. It follows its dependencies at once, so that node and source agree when
the handler of a change returns. -/
def twoWay (e assign : Expr) : Binding :=
  { ofExpr e with mode := .twoWay (.expr assign) "change" none, isSynchronous := true }

/-- A binding that reads one property of the source. -/
def prop (name : String) : Binding := (ofExpr (.get .source name)).stable

/-- A two-way binding on one property of the source. -/
def twoWayProp (name : String) : Binding :=
  { ofExpr (.get .source name) with
    mode := .twoWay (.property name) "change" none, isSynchronous := true }.stable

/-- A binding that always gives the same value. -/
def always (v : Value) : Binding := (ofExpr (.constant v)).stable

end Binding

instance : Inhabited RepeatForm := ⟨⟨default, .handle "", {}⟩⟩

end ReactiveViews
