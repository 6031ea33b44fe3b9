import ReactiveViews.Dom.Slots
import ReactiveViews.Dom.Tree
/-!
# Documents

A document holds all nodes, in trees or loose. Each node knows its parent and its
children, and the operations keep the two in step: inserting a node takes it out
of the place where it was, and inserting a fragment moves the fragment's children
and leaves it empty, so that a fragment is never anyone's child.

The position of the reference node is looked up after the inserted node has been
taken out. A reference that is then not among the children stands for the end.

`tree` shows the subtree under a node as a value, and `plant` makes nodes of such
a value, which together copy subtrees.
-/

namespace ReactiveViews

/-- What a registered listener calls. -/
inductive Handler
  /-- A scripted listener: its name in the log and what it does. -/
  | scripted (name : String) (actions : List Action)
  /-- The assignment of a two-way binding. -/
  | assign (b : BehaviorId)
  /-- An event binding. -/
  | event (b : BehaviorId)

/-- **Listener.** A handler for one type of event; with `once` it is removed before its first
call. -/
structure Listener where
  type : String
  handler : Handler
  once : Bool

/-- **Node.** -/
structure Node where
  content : Content
  parent : Option NodeId
  children : List NodeId
  listeners : Slots Listener
deriving Inhabited

/-- A node on its own. -/
def Node.ofContent (c : Content) : Node := ⟨c, none, [], .empty⟩

/-- **Document.** -/
abbrev Document := Store .node Node

namespace Document

/-- The parent of a node. -/
def parent? (d : Document) (n : NodeId) : Option NodeId := (d.get n).parent

/-- The children of a node in order. -/
def children (d : Document) (n : NodeId) : List NodeId := (d.get n).children

/-- What a node is. -/
def content (d : Document) (n : NodeId) : Content := (d.get n).content

/-- The kind of a node. -/
def kind (d : Document) (n : NodeId) : NodeKind := (d.content n).kind

/-- The tag of an element. -/
def tag? (d : Document) (n : NodeId) : Option String :=
  match d.kind n with
  | .element tag => some tag
  | _ => none

/-- The child at a position. -/
def child? (d : Document) (n : NodeId) (index : Nat) : Option NodeId := (d.children n)[index]?

/-- The position of a node among its parent's children. -/
def indexInParent? (d : Document) (n : NodeId) : Option Nat :=
  (d.parent? n).bind fun p => (d.children p).idxOf? n

/-- The sibling after a node. -/
def nextSibling? (d : Document) (n : NodeId) : Option NodeId :=
  (d.parent? n).bind fun p => (d.indexInParent? n).bind fun i => d.child? p (i + 1)

/-- The sibling before a node. -/
def previousSibling? (d : Document) (n : NodeId) : Option NodeId :=
  (d.parent? n).bind fun p => (d.indexInParent? n).bind fun i =>
    if i = 0 then none else d.child? p (i - 1)

/-- Changes what a node is. -/
def modifyContent (d : Document) (n : NodeId) (f : Content → Content) : Document :=
  d.modify n fun node => { node with content := f node.content }

/-- Changes the children of a node. -/
def setChildren (d : Document) (n : NodeId) (children : List NodeId) : Document :=
  d.modify n fun node => { node with children }

/-- Changes the parent of a node. -/
def setParent (d : Document) (n : NodeId) (parent : Option NodeId) : Document :=
  d.modify n fun node => { node with parent }

/-- Changes the parent of several nodes. -/
def setParents (d : Document) (ns : List NodeId) (parent : Option NodeId) : Document :=
  ns.foldl (fun d n => d.setParent n parent) d

/-- Takes `child` out of the children of `parent`, if it is one of them. -/
def removeChild (d : Document) (parent child : NodeId) : Document :=
  if child ∈ d.children parent then
    (d.setChildren parent ((d.children parent).erase child)).setParent child none
  else d

/-- Takes a node out of its parent's children. -/
def detach (d : Document) (n : NodeId) : Document :=
  match d.parent? n with
  | some p => d.removeChild p n
  | none => d

/-- Puts `moving` in front of `reference`, or at the end if it is not there. -/
def insertAt (children moving : List NodeId) (reference : Option NodeId) : List NodeId :=
  match reference.bind children.idxOf? with
  | some i => children.take i ++ moving ++ children.drop i
  | none => children ++ moving

/-- Takes out what is moved by inserting `child`: the children of a fragment, or the node. -/
def uproot (d : Document) (child : NodeId) : List NodeId × Document :=
  if d.kind child = .fragment then (d.children child, d.setChildren child [])
  else ([child], d.detach child)

/-- **Insertion.** Moves `child`, or the children of a fragment, into `parent` before
`reference`. Inserting a node into itself does nothing. -/
def insertBefore (d : Document) (parent child : NodeId) (reference : Option NodeId) :
    Document :=
  if child = parent then d
  else
    let (moving, d) := d.uproot child
    let d := d.setParents moving (some parent)
    d.setChildren parent (insertAt (d.children parent) moving reference)

/-- Moves `child`, or the children of a fragment, to the end of `parent`. -/
def append (d : Document) (parent child : NodeId) : Document :=
  d.insertBefore parent child none

/-- A new node on its own. -/
def create (d : Document) (c : Content) : NodeId × Document :=
  d.add (Node.ofContent c)

/-- The subtree under a node, to a depth. -/
def treeTo (d : Document) : Nat → NodeId → Tree
  | 0, n => .node (d.content n) []
  | depth + 1, n => .node (d.content n) ((d.children n).map (treeTo d depth))

/-- **Subtree.** No chain of children is longer than the number of nodes. -/
def tree (d : Document) (n : NodeId) : Tree := d.treeTo d.size n

/-- The markup of a node and what is under it. -/
def html (d : Document) (n : NodeId) : String := (d.tree n).html

/-- The text of a node and what is under it. -/
def textContent (d : Document) (n : NodeId) : String := (d.tree n).textContent

mutual

/-- **Planting.** Makes nodes of a tree; the root is on its own. -/
def plant (d : Document) : Tree → NodeId × Document
  | .node c ts =>
    let (n, d) := d.create c
    let (ns, d) := plantAll d n ts
    (n, d.setChildren n ns)

/-- Makes nodes of trees, all with one parent. -/
def plantAll (d : Document) (parent : NodeId) : List Tree → List NodeId × Document
  | [] => ([], d)
  | t :: ts =>
    let (n, d) := plant d t
    let (ns, d) := plantAll (d.setParent n (some parent)) parent ts
    (n :: ns, d)

end

/-- **Copy.** A new subtree like the one under a node; listeners are not copied. -/
def clone (d : Document) (n : NodeId) : NodeId × Document :=
  d.plant (d.tree n)

/-- Replaces the character data of a node. -/
def setData (d : Document) (n : NodeId) (data : String) : Document :=
  d.modifyContent n fun c => { c with data }

/-- Sets the text of a node: its character data, or one text node in place of all children. -/
def setText (d : Document) (n : NodeId) (text : String) : Document :=
  match d.kind n with
  | .text | .comment => d.setData n text
  | .element _ | .fragment =>
    let d := (d.children n).foldl (fun d child => d.removeChild n child) d
    if text.isEmpty then d
    else
      let (t, d) := d.create (.text text)
      d.append n t

/-- The value of an attribute. -/
def attribute? (d : Document) (n : NodeId) (name : String) : Option String :=
  (d.content n).attributes.find? name

/-- Sets an attribute, or takes it out when there is no value. -/
def setAttribute (d : Document) (n : NodeId) (name : String) (value : Option String) :
    Document :=
  d.modifyContent n fun c =>
    { c with attributes := match value with
        | some v => c.attributes.put name v
        | none => c.attributes.erase name }

/-- The value of a property; null if it was never set. -/
def property (d : Document) (n : NodeId) (name : String) : Value :=
  ((d.content n).properties.find? name).getD .null

/-- Sets a property. -/
def setProperty (d : Document) (n : NodeId) (name : String) (value : Value) : Document :=
  d.modifyContent n fun c => { c with properties := c.properties.put name value }

/-- Registers a listener and gives its number. -/
def addListener (d : Document) (n : NodeId) (l : Listener) : Nat × Document :=
  let (slot, listeners) := (d.get n).listeners.insert l
  (slot, d.modify n fun node => { node with listeners })

/-- Removes the listener under a number. -/
def removeListener (d : Document) (n : NodeId) (slot : Nat) : Document :=
  d.modify n fun node => { node with listeners := node.listeners.remove slot }

/-- The listeners for a type of event with their numbers. -/
def listenersFor (d : Document) (n : NodeId) (type : String) : List (Nat × Listener) :=
  (d.get n).listeners.toList.filter fun entry => entry.2.type == type

/-- **Calling up.** The handlers for a type of event in the order of their numbers; those that
are to be called once are removed. -/
def takeHandlers (d : Document) (n : NodeId) (type : String) : List Handler × Document :=
  let found := d.listenersFor n type
  (found.map fun entry => entry.2.handler,
    found.foldl (fun d entry => if entry.2.once then d.removeListener n entry.1 else d) d)

end Document

end ReactiveViews
