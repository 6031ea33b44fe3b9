import ReactiveViews.Session.Handles
import ReactiveViews.Session.Values
/-!
# Commands on nodes and events
-/

namespace ReactiveViews

namespace World

/-- A node and what is around it. -/
def describeNode (w : World) (n : NodeId) : NodeInfo :=
  let d := w.document
  let children := d.children n
  { kind := d.kind n
    data := (d.content n).data
    count := children.length
    children := children.map fun c => w.showNode (some c)
    first := w.showNode children.head?
    last := w.showNode children.getLast?
    parent := w.showNode (d.parent? n)
    index := d.indexInParent? n
    next := w.showNode (d.nextSibling? n)
    previous := w.showNode (d.previousSibling? n)
    attributes := (d.content n).attributes.names }

end World

namespace Machine

/-- The content of a new node. Tags are in lower case. -/
def contentOf (kind : NodeKind) (data : String) : Content :=
  match kind with
  | .element tag => .element (tag.map Char.toLower)
  | .text => .text data
  | .comment => .comment data
  | .fragment => .fragment

/-- Commands on nodes. -/
def performNode : NodeCommand → Machine Answer
  | .setHost mode => do
    modify fun w => { w with hostMode := mode }
    return .unit
  | .create handle kind data => do
    giveHandle handle (.node (← onDocument (·.create (contentOf kind data))))
    return .unit
  | .pick handle node path => do
    let n ← nodeNamed node
    match Path.resolve (← get).document path n with
    | some found =>
      giveHandle handle (.node found)
      return .optionalText (some ((← get).document.html found))
    | none => return .optionalText none
  | .append parent child => do
    let p ← nodeNamed parent
    let c ← nodeNamed child
    modifyDocument (·.append p c)
    return .unit
  | .insertBefore parent child reference => do
    let p ← nodeNamed parent
    let c ← nodeNamed child
    let r ← optionalNode reference
    modifyDocument (·.insertBefore p c r)
    return .unit
  | .detach node => do
    let n ← nodeNamed node
    modifyDocument (·.detach n)
    return .unit
  | .removeChild parent child => do
    let p ← nodeNamed parent
    let c ← nodeNamed child
    modifyDocument (·.removeChild p c)
    return .unit
  | .clone handle node => do
    let n ← nodeNamed node
    giveHandle handle (.node (← onDocument (·.clone n)))
    return .unit
  | .html node => do
    let n ← nodeNamed node
    return .text (← read (·.document.html n))
  | .text node => do
    let n ← nodeNamed node
    return .text (← read (·.document.textContent n))
  | .setText node text => do
    let n ← nodeNamed node
    modifyDocument (·.setText n text)
    return .unit
  | .setData node text => do
    let n ← nodeNamed node
    modifyDocument (·.setData n text)
    return .unit
  | .info node => do
    let n ← nodeNamed node
    return .nodeInfo (← read (·.describeNode n))
  | .getAttribute node name => do
    let n ← nodeNamed node
    return .attr (← read (·.document.attribute? n name))
  | .setAttribute node name value => do
    let n ← nodeNamed node
    modifyDocument (·.setAttribute n name (some value))
    return .unit
  | .removeAttribute node name => do
    let n ← nodeNamed node
    modifyDocument (·.setAttribute n name none)
    return .unit
  | .getProperty node name => do
    let n ← nodeNamed node
    answerValue (← read (·.document.property n name))
  | .setProperty node name value => do
    let n ← nodeNamed node
    let v ← resolve value
    modifyDocument (·.setProperty n name v)
    return .unit
  | .path id root => do
    let path ← ofExcept (Path.parse id)
    let root ← optionalNode root
    let w ← get
    return .path ⟨path.display, path, w.showNode (root.bind (Path.resolve w.document path))⟩
  | .pathOf node root => do
    let n ← nodeNamed node
    let r ← nodeNamed root
    let w ← get
    return .optionalText ((Path.of? w.document n r).map Path.display)

/-- The event that a command means; an event with a detail bubbles. -/
def eventOf : EventSource → Machine EventId
  | .handle name => eventNamed name
  | .fresh type detail => do
    let value ← match detail with
      | some l => resolve l
      | none => pure .null
    modifyGet fun w =>
      let (e, events) := w.events.add ⟨type, value, detail.isSome, false, false, none⟩
      (e, { w with events })

/-- Commands on events. -/
def performEvent : EventCommand → Machine Answer
  | .listen handle node type once actions => do
    let n ← nodeNamed node
    let slot ← onDocument (·.addListener n ⟨type, .scripted handle actions, once⟩)
    giveHandle handle (.listener slot)
    return .unit
  | .unlisten handle node => do
    let slot ← listenerNamed handle
    let n ← nodeNamed node
    modifyDocument (·.removeListener n slot)
    return .unit
  | .listeners node type => do
    let n ← nodeNamed node
    return .count (← read fun w => (w.document.listenersFor n type).length)
  | .create handle event => do
    giveHandle handle (.event (← eventOf event))
    return .unit
  | .info handle => do
    let e ← eventNamed handle
    let w ← get
    let s := w.events.get e
    return .eventInfo ⟨s.type, w.shown s.detail, s.bubbles, s.defaultPrevented,
      w.showNode s.target⟩
  | .dispatch node event => do
    let n ← nodeNamed node
    return .bool (← dispatch n (← eventOf event))

end Machine

end ReactiveViews
