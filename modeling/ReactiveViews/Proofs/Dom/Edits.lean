import Mathlib.Logic.Relation
import ReactiveViews.Dom.Document
/-!
# What is done to a document

The document changes by a few operations only. Views put nodes somewhere and take them
out, and listeners come and go (`Document.Move`); commands also make nodes and change
what nodes show of themselves (`Document.Edit`). Trees that are planted have no fragment
inside.
-/

namespace ReactiveViews

mutual

/-- **Solid.** No fragment is inside a tree. -/
def Tree.Solid : Tree → Prop
  | .node _ ts => SolidAll ts

/-- None of these trees is a fragment, or has one inside. -/
def Tree.SolidAll : List Tree → Prop
  | [] => True
  | t :: ts => t.content.kind ≠ .fragment ∧ t.Solid ∧ SolidAll ts

end

theorem Tree.solidAll_iff {ts : List Tree} :
    SolidAll ts ↔ ∀ t ∈ ts, t.content.kind ≠ .fragment ∧ t.Solid := by
  induction ts with
  | nil => simp [SolidAll]
  | cons t ts ih => rw [SolidAll, ih, List.forall_mem_cons, and_assoc]

namespace Document

/-- **Move.** A change of the document that leaves alone what nodes show of themselves. -/
inductive Move : Document → Document → Prop
  | insert (d : Document) (parent child : NodeId) (reference : Option NodeId) :
    Move d (d.insertBefore parent child reference)
  | remove (d : Document) (n : NodeId) : Move d (d.detach n)
  | addListener (d : Document) (n : NodeId) (l : Listener) : Move d (d.addListener n l).2
  | removeListener (d : Document) (n : NodeId) (slot : Nat) : Move d (d.removeListener n slot)
  | takeHandlers (d : Document) (n : NodeId) (type : String) : Move d (d.takeHandlers n type).2

/-- **Edit.** A change of the document that a command asks for. -/
inductive Edit : Document → Document → Prop
  | create (d : Document) (c : Content) : Edit d (d.create c).2
  | plant (d : Document) {t : Tree} (h : t.Solid) : Edit d (d.plant t).2
  | clone (d : Document) (n : NodeId) : Edit d (d.clone n).2
  | move {d d' : Document} (h : Move d d') : Edit d d'
  | removeChild (d : Document) (parent child : NodeId) : Edit d (d.removeChild parent child)
  | setText (d : Document) (n : NodeId) (text : String) : Edit d (d.setText n text)
  | setData (d : Document) (n : NodeId) (data : String) : Edit d (d.setData n data)
  | setAttribute (d : Document) (n : NodeId) (name : String) (value : Option String) :
    Edit d (d.setAttribute n name value)
  | setProperty (d : Document) (n : NodeId) (name : String) (value : Value) :
    Edit d (d.setProperty n name value)

/-- **Edited.** One edit after another has been made. -/
def Edited : Document → Document → Prop := Relation.ReflTransGen Edit

end Document

end ReactiveViews
