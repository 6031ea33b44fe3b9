import ReactiveViews.Dom.Document
import ReactiveViews.Error
import ReactiveViews.Text.Numeral
/-!
# Paths

A path leads from a root to a node below it: at each step it says which child to
go to. It is written as `r` with the child positions behind points, so `r.0.2` is
the third child of the first child of the root.
-/

namespace ReactiveViews

/-- **Path.** Child positions from the root down. -/
abbrev Path := List Nat

namespace Path

/-- The written form of a path. -/
def display (p : Path) : String :=
  p.foldl (fun acc index => acc ++ "." ++ Nat.repr index) "r"

/-- The parts of a text between points. -/
def parts : List Char → List (List Char)
  | [] => [[]]
  | c :: rest =>
    if c == '.' then [] :: parts rest
    else match parts rest with
      | first :: others => (c :: first) :: others
      | [] => [[c]]

/-- Reads the written form of a path. Positions fit a machine word. -/
def parse (id : String) : Except Error Path :=
  match parts id.toList with
  | ['r'] :: positions =>
    match positions.mapM Text.readIndex with
    | some p => .ok p
    | none => .error (.unresolvedTarget id)
  | _ => .error (.unresolvedTarget id)

/-- Follows a path from a root. -/
def resolve (d : Document) : Path → NodeId → Option NodeId
  | [], root => some root
  | index :: rest, root => (d.child? root index).bind (resolve d rest)

/-- The way up from a node to `root`, put in front of the positions below the node; at most
`steps` steps. -/
def climb (d : Document) (root : NodeId) : Nat → NodeId → Path → Option Path
  | 0, n, below => if n = root then some below else none
  | steps + 1, n, below =>
    if n = root then some below
    else (d.indexInParent? n).bind fun index =>
      (d.parent? n).bind fun p => climb d root steps p (index :: below)

/-- The path from `root` to a node inside it. -/
def of? (d : Document) (n root : NodeId) : Option Path :=
  climb d root d.size n []

end Path

end ReactiveViews
