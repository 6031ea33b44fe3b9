import ReactiveViews.Keyed
import ReactiveViews.Script
import ReactiveViews.Text.Entity
/-!
# Trees as values

A `Tree` is what a subtree of a document looks like, without the identity of its
nodes. It is what markup is compiled to and what a copy of a fragment is made
from, and its written form is the markup shown for a node.

Written form: text is escaped, attributes stand in order with quoted and escaped
values, an empty value is left out, and void elements have neither children nor a
closing tag. A fragment is written as its children.
-/

namespace ReactiveViews

/-- **Content.** What a node is, apart from its place among others and its listeners. -/
structure Content where
  kind : NodeKind
  data : String
  attributes : Keyed String
  properties : Keyed Value
deriving Inhabited

/-- The content of an element without attributes. -/
def Content.element (tag : String) : Content := ⟨.element tag, "", [], []⟩

def Content.text (data : String) : Content := ⟨.text, data, [], []⟩

def Content.comment (data : String) : Content := ⟨.comment, data, [], []⟩

def Content.fragment : Content := ⟨.fragment, "", [], []⟩

/-- **Tree.** -/
inductive Tree
  | node (content : Content) (children : List Tree)
deriving Inhabited

/-- Tags of elements that never have children or a closing tag. -/
def voidTags : List String :=
  ["area", "base", "br", "col", "embed", "hr", "img", "input", "link", "meta", "param",
    "source", "track", "wbr"]

/-- Whether elements of a tag are void; the case of its letters does not matter. -/
def isVoidTag (tag : String) : Bool :=
  voidTags.contains (tag.map Char.toLower)

namespace Tree

/-- The content of the root. -/
def content : Tree → Content
  | node c _ => c

/-- The children of the root. -/
def children : Tree → List Tree
  | node _ ts => ts

/-- One attribute as it stands in a tag. -/
def writeAttribute (entry : String × String) : List Char :=
  if entry.2.isEmpty then ' ' :: entry.1.toList
  else ' ' :: (entry.1.toList ++ '=' :: '"' ::
    (Text.escape .attributeValue entry.2.toList ++ ['"']))

/-- The opening tag of an element. -/
def writeOpening (tag : String) (attributes : Keyed String) : List Char :=
  '<' :: (tag.toList ++ attributes.flatMap writeAttribute ++ ['>'])

/-- The closing tag of an element. -/
def writeClosing (tag : String) : List Char :=
  '<' :: '/' :: (tag.toList ++ ['>'])

mutual

/-- **Written form.** -/
def write : Tree → List Char
  | node c ts =>
    match c.kind with
    | .text => Text.escape .content c.data.toList
    | .comment => "<!--".toList ++ c.data.toList ++ "-->".toList
    | .fragment => writeAll ts
    | .element tag =>
      if isVoidTag tag then writeOpening tag c.attributes
      else writeOpening tag c.attributes ++ writeAll ts ++ writeClosing tag

/-- The written forms of trees one after another. -/
def writeAll : List Tree → List Char
  | [] => []
  | t :: ts => write t ++ writeAll ts

end

mutual

/-- The text in a tree, comments left out. -/
def texts : Tree → List Char
  | node c ts =>
    match c.kind with
    | .text => c.data.toList
    | .comment => []
    | .fragment => textsAll ts
    | .element _ => textsAll ts

/-- The text in trees one after another. -/
def textsAll : List Tree → List Char
  | [] => []
  | t :: ts => texts t ++ textsAll ts

end

/-- The markup of a tree. -/
def html (t : Tree) : String := String.ofList t.write

/-- The text content of a tree. -/
def textContent (t : Tree) : String := String.ofList t.texts

end Tree

end ReactiveViews
