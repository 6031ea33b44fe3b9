/-!
# Slots

Listeners are registered under numbers. A number whose listener is gone is given
out again, the one vacated last first, so the table stays small; a new number is
the least unused one. Slots are visited in the order of their numbers.
-/

namespace ReactiveViews

/-- **Slots.** Entries under small numbers, and the vacant numbers, latest first. -/
structure Slots (α : Type) where
  entries : List (Option α)
  vacant : List Nat

namespace Slots

variable {α : Type}

/-- No slot in use. -/
def empty : Slots α := ⟨[], []⟩

instance : Inhabited (Slots α) := ⟨empty⟩

/-- What stands in a slot. -/
def find? (s : Slots α) (slot : Nat) : Option α :=
  (s.entries[slot]?).join

/-- Puts an entry into the slot vacated last, or into a new one. -/
def insert (s : Slots α) (a : α) : Nat × Slots α :=
  match s.vacant with
  | slot :: rest => (slot, ⟨s.entries.set slot (some a), rest⟩)
  | [] => (s.entries.length, ⟨s.entries ++ [some a], []⟩)

/-- Vacates a slot; a vacant or unknown one is left alone. -/
def remove (s : Slots α) (slot : Nat) : Slots α :=
  match s.find? slot with
  | some _ => ⟨s.entries.set slot none, slot :: s.vacant⟩
  | none => s

/-- The entries with their numbers, from a number on. -/
def numbered : Nat → List (Option α) → List (Nat × α)
  | _, [] => []
  | slot, some a :: rest => (slot, a) :: numbered (slot + 1) rest
  | slot, none :: rest => numbered (slot + 1) rest

/-- The entries with their numbers, in the order of the numbers. -/
def toList (s : Slots α) : List (Nat × α) :=
  numbered 0 s.entries

end Slots

end ReactiveViews
