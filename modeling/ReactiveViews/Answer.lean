import ReactiveViews.Notifier
import ReactiveViews.Queue
import ReactiveViews.Template.Path
/-!
# Answers and the log

What a command answers and what is logged on the way, in a form that can be read
without the world they came from: values, nodes and contexts are *shown*, by the
first handle that names them or by what they look like.
-/

namespace ReactiveViews

/-- **Shown value.** A number is shown by its text, and an object, array or template by a
handle if it has one. -/
inductive Shown
  | null
  | bool (b : Bool)
  | number (display : String)
  | text (s : String)
  | handle (name : String)
  | object (typeName : String)
  | array (items : List Shown)
  | template (html : String)
deriving Inhabited

/-- A node shown by a handle or by its markup. -/
inductive ShownNode
  | none
  | handle (name : String)
  | html (html : String)
deriving Inhabited

/-- A context shown by a handle, or as one without. -/
inductive ShownContext
  | none
  | handle (name : String)
  | anonymous
deriving Inhabited

/-- A splice with its items shown. -/
structure ShownSplice where
  index : Nat
  removed : List Shown
  added : List Shown

/-- A change as a subscriber is told of it. -/
inductive ShownChange
  | property (name : String)
  | signal (name : String)
  | splices (history : List ShownSplice)

/-- What a value is, in every way it can be read. -/
structure ValueInfo where
  kind : String
  isNull : Bool
  truthy : Bool
  display : String
  text : Option String
  number : Option String
  bool : Option Bool
  isObject : Bool
  isArray : Bool
  isTemplate : Bool

structure AspectInfo where
  kind : String
  name : Option String
  display : String

structure ItemsInfo where
  items : List Shown
  length : Nat
  isEmpty : Bool

structure ObserverInfo where
  dependencies : List String
  needsRefresh : Bool
  isAsync : Bool

structure ContextInfo where
  index : Nat
  length : Nat
  first : Bool
  last : Bool
  middle : Bool
  even : Bool
  odd : Bool
  parent : Shown
  parentContext : ShownContext
  hasEvent : Bool

structure QueueInfo where
  pending : Nat
  requested : Bool
  mode : UpdateMode

structure NodeInfo where
  kind : NodeKind
  data : String
  count : Nat
  children : List ShownNode
  first : ShownNode
  last : ShownNode
  parent : ShownNode
  index : Option Nat
  next : ShownNode
  previous : ShownNode
  attributes : List String

structure PathInfo where
  display : String
  indices : Path
  found : ShownNode

structure EventInfo where
  type : String
  detail : Shown
  bubbles : Bool
  prevented : Bool
  target : ShownNode

structure TemplateInfo where
  html : String
  targets : List String
  /-- The markup of the element that the template was rendered into, if it was. -/
  rendered : Option String

structure BindingInfo where
  isVolatile : Bool
  isSynchronous : Bool
  value : Shown

structure ViewInfo where
  isBound : Bool
  source : Option Shown
  context : ShownContext
  template : Shown
  text : String
  nodes : List String
  first : ShownNode
  last : ShownNode

/-- **Answer.** -/
inductive Answer
  | unit
  | bool (b : Bool)
  | count (n : Nat)
  | text (s : String)
  | optionalText (s : Option String)
  | value (v : Shown)
  /-- A value that may be missing, which is not the same as null. -/
  | optionalValue (v : Option Shown)
  | values (vs : List Shown)
  | valueInfo (info : ValueInfo)
  | aspectInfo (info : AspectInfo)
  /-- Accessors: the name of each and whether it has a callback. -/
  | accessors (found : List (String × Bool))
  | accessor (found : Option (String × Bool))
  | items (info : ItemsInfo)
  | observerInfo (info : ObserverInfo)
  | contextInfo (info : ContextInfo)
  | queueInfo (info : QueueInfo)
  | flushed (report : FlushReport)
  | nodeInfo (info : NodeInfo)
  /-- Whether an attribute is there, and its value. -/
  | attr (value : Option String)
  | path (info : PathInfo)
  | eventInfo (info : EventInfo)
  | template (info : TemplateInfo)
  | binding (info : BindingInfo)
  | viewInfo (info : ViewInfo)
deriving Inhabited

/-- **Mutation.** A change that a view asks the host to make to the document. -/
inductive Mutation
  | insert (parent child : NodeId) (reference : Option NodeId)
  | remove (node : NodeId)
  | text (node : NodeId) (data : String)
  | attr (node : NodeId) (name : String) (value : Option String)
  | flag (node : NodeId) (name : String) (present : Bool)
  | prop (node : NodeId) (name : String) (value : Value)
  | listen (node : NodeId) (type : String) (once : Bool)
  | unlisten (node : NodeId) (slot : Nat)
  | clone (fragment : NodeId)

/-- A mutation as the recording host shows it, just before it is made. -/
inductive ShownMutation
  | insert (parent child : String) (reference : Option String)
  | remove (node : String)
  | text (old new : String)
  | attr (tag : Option String) (name : String) (value : Option String)
  | flag (tag : Option String) (name : String) (present : Bool)
  | prop (tag : Option String) (name : String) (value : Shown)
  | listen (tag : Option String) (type : String) (once : Bool)
  | unlisten (tag : Option String)
  | clone (fragment : String)

/-- **Log entry.** -/
inductive LogEntry
  | notified (subscriber : String) (change : ShownChange)
  | subscriberFailed (subscriber : String) (e : Error)
  | changed (object : Shown) (property : String) (old new : Shown)
  | callbackFailed (e : Error)
  | reacted (observer : String)
  | ran (task : String)
  | scheduled
  | flushed
  | logged (tag : String) (value : Shown)
  | did (answer : Answer)
  | didFail (e : Error)
  | handled (listener type : String) (detail : Shown) (prevented : Bool)
  | probeCreated (name html : String)
  | probeBound (name : String) (source : Shown) (index length : Nat)
  | probeUnbound (name : String)
  | mutation (m : Mutation) (shown : ShownMutation)
  | error (message : String) (cause : String)
  | warning (message : String)

end ReactiveViews
