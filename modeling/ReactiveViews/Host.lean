import ReactiveViews.Machine
/-!
# The host

Views never change the document themselves. Each change they want is a `Mutation`
handed to the host, which shows it in the log if it is recording, and then makes
it. So a log of mutations is a complete account of what views did.
-/

namespace ReactiveViews

namespace Document

/-- Makes a mutation. Registering a listener and copying a fragment give something back and are
made elsewhere. -/
def mutate (d : Document) : Mutation → Document
  | .insert parent child reference => d.insertBefore parent child reference
  | .remove node => d.detach node
  | .text node data => d.setData node data
  | .attr node name value => d.setAttribute node name value
  | .flag node name present => d.setAttribute node name (if present then some "" else none)
  | .prop node name value => d.setProperty node name value
  | .unlisten node slot => d.removeListener node slot
  | .listen _ _ _ => d
  | .clone _ => d

end Document

namespace World

/-- A mutation as it looks before it is made. -/
def showMutation (w : World) : Mutation → ShownMutation
  | .insert parent child reference =>
    .insert (w.document.html parent) (w.document.html child) (reference.map w.document.html)
  | .remove node => .remove (w.document.html node)
  | .text node data => .text (w.document.content node).data data
  | .attr node name value => .attr (w.document.tag? node) name value
  | .flag node name present => .flag (w.document.tag? node) name present
  | .prop node name value => .prop (w.document.tag? node) name (w.shown value)
  | .listen node type once => .listen (w.document.tag? node) type once
  | .unlisten node _ => .unlisten (w.document.tag? node)
  | .clone fragment => .clone (w.document.html fragment)

end World

namespace Machine

/-- Changes the document. -/
def modifyDocument (f : Document → Document) : Machine Unit :=
  modify fun w => { w with document := f w.document }

/-- A computation on the document. -/
def onDocument {α : Type} (f : Document → α × Document) : Machine α :=
  modifyGet fun w =>
    let (a, document) := f w.document
    (a, { w with document })

/-- Shows a mutation in the log if the host is recording. -/
def recordMutation (m : Mutation) : Machine Unit := do
  let w ← get
  if w.hostMode = .recording then logEntry (.mutation m (w.showMutation m))

/-- **The host.** -/
def mutate (m : Mutation) : Machine Unit := do
  recordMutation m
  modifyDocument (·.mutate m)

/-- Registers a listener through the host and gives its number. -/
def listen (node : NodeId) (l : Listener) : Machine Nat := do
  recordMutation (.listen node l.type l.once)
  onDocument (·.addListener node l)

/-- Copies a fragment through the host. -/
def cloneFragment (fragment : NodeId) : Machine NodeId := do
  recordMutation (.clone fragment)
  onDocument (·.clone fragment)

end Machine

end ReactiveViews
