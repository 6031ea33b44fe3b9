/-!
# Stores of identified things

Objects, nodes, views and the like have an identity: two of them may look alike
and still be different, and many places may refer to one. A `Ref` is such an
identity, tagged with the kind of thing it refers to, and a `Store` holds what
each identity of one kind currently is.

A store is a total map. What has not been entered is the default of its type, so
reading needs no proof that a reference is in range, and the two laws of reading
after writing, `get_set` and `get_modify`, have no side conditions.
-/

namespace ReactiveViews

/-- The kinds of things that have an identity. -/
inductive Kind
  | object
  | array
  | template
  | notifier
  | observer
  | context
  | node
  | event
  | behavior
  | view
  | subscriber
  | task
  | ticket
deriving DecidableEq, Hashable, Repr

/-- **Reference.** The identity of a thing of one kind. -/
structure Ref (kind : Kind) where
  index : Nat
deriving DecidableEq, Hashable, Repr

instance {kind : Kind} : Inhabited (Ref kind) := ⟨⟨0⟩⟩

abbrev ObjectId := Ref .object
abbrev ArrayId := Ref .array
abbrev TemplateId := Ref .template
abbrev NotifierId := Ref .notifier
abbrev ObserverId := Ref .observer
abbrev ContextId := Ref .context
abbrev NodeId := Ref .node
abbrev EventId := Ref .event
abbrev BehaviorId := Ref .behavior
abbrev ViewId := Ref .view
abbrev SubscriberId := Ref .subscriber
abbrev TaskId := Ref .task
abbrev TicketId := Ref .ticket

/-- **Store.** What each reference of one kind refers to. -/
structure Store (kind : Kind) (α : Type) where
  cells : Array α

namespace Store

variable {kind : Kind} {α : Type} [Inhabited α]

/-- A store in which nothing has been entered. -/
def empty : Store kind α := ⟨#[]⟩

instance : Inhabited (Store kind α) := ⟨empty⟩

/-- How many things have been entered. -/
def size (s : Store kind α) : Nat := s.cells.size

/-- What `r` refers to. -/
def get (s : Store kind α) (r : Ref kind) : α := s.cells.getD r.index default

/-- Makes `r` refer to `a`. A reference beyond the end extends the store with defaults. -/
def set (s : Store kind α) (r : Ref kind) (a : α) : Store kind α :=
  if h : r.index < s.cells.size then ⟨s.cells.set r.index a h⟩
  else ⟨(s.cells ++ Array.replicate (r.index - s.cells.size) default).push a⟩

/-- Changes what `r` refers to. -/
def modify (s : Store kind α) (r : Ref kind) (f : α → α) : Store kind α :=
  s.set r (f (s.get r))

/-- Enters a new thing and gives its reference. -/
def add (s : Store kind α) (a : α) : Ref kind × Store kind α :=
  (⟨s.cells.size⟩, ⟨s.cells.push a⟩)

/-- Every reference entered so far, in order of entry. -/
def refs (s : Store kind α) : List (Ref kind) :=
  (List.range s.cells.size).map Ref.mk

/-- The reference just written has what was written; every other has what it had. -/
theorem get_set (s : Store kind α) (r r' : Ref kind) (a : α) :
    (s.set r a).get r' = if r = r' then a else s.get r' := by
  obtain ⟨i⟩ := r
  obtain ⟨j⟩ := r'
  by_cases h : i < s.cells.size
  · by_cases hij : i = j
    · subst hij
      simp [set, get, h]
    · simp [set, get, h, hij, Array.getD, Array.getElem_set, Ref.mk.injEq]
  · by_cases hij : i = j
    · subst hij
      have hs : s.cells.size + (i - s.cells.size) = i := by omega
      simp only [set, get, h, dite_false, Array.getD_eq_getD_getElem?, Array.getElem?_push,
        Array.size_append, Array.size_replicate, hs, if_true, Option.getD_some]
    · simp only [set, get, h, dite_false, Array.getD_eq_getD_getElem?, Array.getElem?_push,
        Array.size_append, Array.size_replicate, Ref.mk.injEq, hij, if_false]
      have hs : s.cells.size + (i - s.cells.size) = i := by omega
      rw [hs, if_neg (fun h => hij h.symm), Array.getElem?_append]
      split
      · rfl
      · next hj =>
        rw [Array.getElem?_replicate, Array.getElem?_eq_none (by omega)]
        split <;> rfl

theorem get_modify (s : Store kind α) (r r' : Ref kind) (f : α → α) :
    (s.modify r f).get r' = if r = r' then f (s.get r) else s.get r' := by
  rw [modify, get_set]

/-- What was just entered is found under its reference. -/
theorem get_add_self (s : Store kind α) (a : α) : (s.add a).2.get (s.add a).1 = a := by
  simp [add, get]

/-- What is entered next has been the default up to now. -/
theorem get_next (s : Store kind α) (a : α) : s.get (s.add a).1 = default := by
  simp [add, get]

/-- Entering a new thing changes no other. -/
theorem get_add_of_ne (s : Store kind α) (a : α) (r : Ref kind) (h : r ≠ (s.add a).1) :
    (s.add a).2.get r = s.get r := by
  obtain ⟨i⟩ := r
  have hi : i ≠ s.cells.size := by simpa [add] using h
  simp [add, get, Array.getD_eq_getD_getElem?, Array.getElem?_push, hi]

/-- Changing everything in a way that leaves the default alone changes what each reference
refers to. -/
theorem get_mapIdx (s : Store kind α) (f : Nat → α → α) (hf : ∀ i, f i default = default)
    (r : Ref kind) : (⟨s.cells.mapIdx f⟩ : Store kind α).get r = f r.index (s.get r) := by
  simp only [get, Array.getD_eq_getD_getElem?, Array.getElem?_mapIdx]
  cases s.cells[r.index]? with
  | none => simp [hf]
  | some a => rfl

theorem get_map (s : Store kind α) (f : α → α) (hf : f default = default) (r : Ref kind) :
    (⟨s.cells.map f⟩ : Store kind α).get r = f (s.get r) := by
  simp only [get, Array.getD_eq_getD_getElem?, Array.getElem?_map]
  cases s.cells[r.index]? with
  | none => simp [hf]
  | some a => rfl

end Store

end ReactiveViews
