import ReactiveViews.Text.Quoted
import ReactiveViews.View.Basic
/-!
# Diagnostic forms

Every kind of thing has a one-line form for diagnostics: a record with the fields
that matter, a list, or for nodes their markup.
-/

namespace ReactiveViews

/-- A record with named fields, each field already in its diagnostic form. -/
def debugRecord (name : String) (fields : List (String × String)) : String :=
  name ++ " \x7b " ++ ", ".intercalate (fields.map fun f => f.1 ++ ": " ++ f.2) ++ " \x7d"

/-- A list of diagnostic forms. -/
def debugList (items : List String) : String :=
  "[" ++ ", ".intercalate items ++ "]"

/-- The diagnostic form of a truth value. -/
def debugBool (b : Bool) : String := if b then "true" else "false"

namespace Binding

/-- The policy of a binding in words. -/
def modeName (b : Binding) : String :=
  match b.mode with
  | .oneTime => "one-time"
  | .onChange => "on-change"
  | .twoWay _ event _ => "two-way(" ++ event ++ ")"
  | .signal name => "signal(" ++ name ++ ")"

/-- The diagnostic form of a binding. -/
def debug (b : Binding) : String :=
  debugRecord "Binding" [("mode", Text.quoted b.modeName), ("volatile", debugBool b.isVolatile),
    ("synchronous", debugBool b.isSynchronous)]

end Binding

namespace World

/-- The diagnostic form of a value. -/
def debugValue (w : World) : Value → String
  | .null => "Null"
  | .bool b => "Bool(" ++ debugBool b ++ ")"
  | .number n => "Number(" ++ debugNumber n ++ ")"
  | .text s => "Text(" ++ Text.quoted s ++ ")"
  | .object o => "Object(" ++ w.typeOf o ++ ")"
  | .array a => "Array(len = " ++ Nat.repr (w.itemsOf a).length ++ ")"
  | .template _ => "Template"

/-- The diagnostic form of an object: its type and the names of its fields, sorted. -/
def debugObject (w : World) (o : ObjectId) : String :=
  let s := w.objects.get o
  let names := s.fields.names.mergeSort fun a b => !(b < a)
  debugRecord "Object" [("type", Text.quoted s.typeName),
    ("fields", debugList (names.map Text.quoted))]

/-- The diagnostic form of a context. -/
def debugContext (w : World) (c : ContextId) : String :=
  let s := w.contexts.get c
  debugRecord "ExecutionContext" [("parent", w.debugValue s.parent),
    ("index", Nat.repr s.index), ("length", Nat.repr s.length),
    ("has_parent_context", debugBool s.parentContext.isSome)]

/-- The diagnostic form of an observer. -/
def debugObserver (w : World) (o : ObserverId) : String :=
  let s := w.observers.get o
  debugRecord "BindingObserver"
    [("dependencies", debugList (s.records.map fun r => Text.quoted r.name)),
      ("is_volatile", debugBool s.isVolatile), ("is_async", debugBool s.isAsync)]

/-- The diagnostic form of an event. -/
def debugEvent (w : World) (e : EventId) : String :=
  let s := w.events.get e
  debugRecord "Event" [("type", Text.quoted s.type),
    ("default_prevented", debugBool s.defaultPrevented)]

/-- The diagnostic form of a template. -/
def debugTemplate (w : World) (t : TemplateId) : String :=
  let s := w.templates.get t
  debugRecord "ViewTemplate" [("html", Text.quoted (w.document.html s.fragment)),
    ("targets", debugList (s.directives.map fun d => Text.quoted d.1.display))]

/-- The diagnostic form of a view. -/
def debugView (w : World) (v : ViewId) : String :=
  debugRecord "View"
    [("html", Text.quoted (String.join ((w.viewNodes v).map w.document.html))),
      ("bound", debugBool (w.views.get v).source.isSome)]

/-- The diagnostic form of what a handle names; some kinds have none. -/
def debugHandle (w : World) : Handle → String
  | .object o => w.debugObject o
  | .array a => debugList ((w.itemsOf a).map w.debugValue)
  | .template t => w.debugTemplate t
  | .observer o => w.debugObserver o
  | .context c => w.debugContext c
  | .node n => w.document.html n
  | .event e => w.debugEvent e
  | .view v => w.debugView v
  | .notifier _ | .subscriber _ | .task _ | .listener _ | .ticket _ => ""

end World

end ReactiveViews
