import ReactiveViews.Keyed
import ReactiveViews.Script
/-!
# Types and their accessors

A property of an object is observable if the object's type, or a type it
descends from, defines an accessor of that name. Types name at most one parent,
and a type may be named before it is defined or never.

`Registry.lineage` walks from a type to its parent and on, and stops before a
type that is not defined or that it has met before. `flatten` lays the accessors
of a lineage over one another from the farthest type to the nearest, so that the
nearest definition of a name wins and keeps the place of the farthest one. The
result is remembered until the next definition.
-/

namespace ReactiveViews

/-- **Accessor.** Makes a property observable; a callback runs on every change of it. -/
structure Accessor where
  name : String
  callback : Option Expr

/-- What is known of a type: its parent and the accessors it defines itself. -/
structure TypeEntry where
  parent : Option String
  own : Keyed Accessor
deriving Inhabited

/-- **Registry.** The types defined so far, and the accessors already laid out for some. -/
structure Registry where
  types : Keyed TypeEntry
  flattened : Keyed (Keyed Accessor)
deriving Inhabited

namespace Registry

/-- The walk from a type upwards, without the types already `seen`; at most `steps` types.
The second part tells whether the walk ended because it came back to a type it had met. -/
def walk (types : Keyed TypeEntry) : Nat → List String → Option String →
    List TypeEntry × Bool
  | 0, _, _ => ([], false)
  | _, _, none => ([], false)
  | steps + 1, seen, some name =>
    match types.find? name with
    | none => ([], false)
    | some entry =>
      if name ∈ seen then ([], true)
      else
        let (rest, cyclic) := walk types steps (name :: seen) entry.parent
        (entry :: rest, cyclic)

/-- **Lineage.** The types from `name` upwards, nearest first, and whether the chain of parents
is cyclic. No type is met twice, so the walk is no longer than the list of types. -/
def lineage (r : Registry) (name : String) : List TypeEntry × Bool :=
  walk r.types (r.types.length + 1) [] (some name)

/-- Lays the accessors of a type over those gathered so far. -/
def overlay (base : Keyed Accessor) (entry : TypeEntry) : Keyed Accessor :=
  entry.own.foldl (fun acc (name, accessor) => acc.put name accessor) base

/-- **Flattening.** The accessors of a lineage, the farthest type first. -/
def flatten (r : Registry) (name : String) : Keyed Accessor :=
  (r.lineage name).1.reverse.foldl overlay []

/-- Declares a type with the given parent. A known type keeps its own accessors. -/
def defineType (r : Registry) (name : String) (parent : Option String) : Registry :=
  let entry := (r.types.find? name).getD default
  ⟨r.types.put name { entry with parent }, []⟩

/-- Makes a property of a type observable; the type is declared on demand. -/
def defineProperty (r : Registry) (type : String) (accessor : Accessor) : Registry :=
  let entry := (r.types.find? type).getD default
  ⟨r.types.put type { entry with own := entry.own.put accessor.name accessor }, []⟩

/-- **Look-up.** All accessors of a type, the registry that remembers them, and whether a cyclic
chain of parents was met in laying them out just now. -/
def accessors (r : Registry) (type : String) : Keyed Accessor × Registry × Bool :=
  match r.flattened.find? type with
  | some known => (known, r, false)
  | none =>
    let found := r.flatten type
    (found, { r with flattened := r.flattened.put type found }, (r.lineage type).2)

end Registry

end ReactiveViews
