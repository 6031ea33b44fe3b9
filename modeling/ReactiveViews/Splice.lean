import ReactiveViews.Value
/-!
# Splices

A splice is one contiguous change of a list: at an index some items were taken
out and others put in. A list of splices is a history, each entry read against
the result of the one before. `replay` carries a history out on a list, and
`append` adds an entry to a history, lengthening the last entry instead when the
new one only adds items right behind it.
-/

namespace ReactiveViews

/-- **Splice.** At `index`, `removed` was taken out and `added` put in. -/
structure Splice where
  index : Nat
  removed : List Value
  added : List Value
deriving Inhabited

namespace Splice

/-- The list with the splice carried out: as many items as were removed are taken out at the
index and the added ones put there. -/
def apply (s : Splice) (items : List Value) : List Value :=
  items.take s.index ++ s.added ++ items.drop (s.index + s.removed.length)

/-- Carries out splices in order. -/
def replay (splices : List Splice) (items : List Value) : List Value :=
  splices.foldl (fun acc s => s.apply acc) items

/-- A splice that replaces everything. -/
def reset (removed added : List Value) : Splice := ⟨0, removed, added⟩

/-- Nothing was taken out and nothing put in. -/
def isEmpty (s : Splice) : Bool := s.removed.isEmpty && s.added.isEmpty

/-- The new splice only adds, right behind what the earlier one added. -/
def continues (next last : Splice) : Bool :=
  next.removed.isEmpty && next.index == last.index + last.added.length

/-- **History.** Adds a splice at the end, as part of the last one if it continues it. -/
def append : List Splice → Splice → List Splice
  | [], next => [next]
  | [last], next =>
    if next.continues last then [{ last with added := last.added ++ next.added }]
    else [last, next]
  | first :: rest, next => first :: append rest next

/-- **Cutting.** The splice that taking `deleteCount` items out at `index` and putting `added`
in amounts to, with index and count clamped to the list. -/
def cut (items : List Value) (index deleteCount : Nat) (added : List Value) : Splice :=
  let start := min index items.length
  ⟨start, (items.drop start).take deleteCount, added⟩

end Splice

end ReactiveViews
