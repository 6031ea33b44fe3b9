/-!
# Entries in order

Attributes, accessors, handles and types are looked up by name and listed in the
order in which the names were first entered. `Keyed` is that: a list of named
entries. `put` replaces the entry of a known name where it stands and appends an
unknown one; `erase` closes the gap.
-/

namespace ReactiveViews

/-- Named entries in order of first entry. -/
abbrev Keyed (α : Type) := List (String × α)

namespace Keyed

variable {α : Type}

/-- The entry of a name. -/
def find? : Keyed α → String → Option α
  | [], _ => none
  | (key, value) :: rest, name => if key = name then some value else find? rest name

/-- Enters `value` under `name`: in place if the name is known, at the end otherwise. -/
def put : Keyed α → String → α → Keyed α
  | [], name, value => [(name, value)]
  | (key, old) :: rest, name, value =>
    if key = name then (key, value) :: rest else (key, old) :: put rest name value

/-- Takes the entries of a name out. -/
def erase (entries : Keyed α) (name : String) : Keyed α :=
  entries.filter fun entry => entry.1 ≠ name

/-- The names in order. -/
def names (entries : Keyed α) : List String :=
  entries.map Prod.fst

/-- Whether the name has an entry. -/
def has (entries : Keyed α) (name : String) : Bool :=
  (find? entries name).isSome

/-- The name just entered has the value entered; every other name has what it had. -/
theorem find?_put (entries : Keyed α) (name other : String) (value : α) :
    find? (put entries name value) other =
      if name = other then some value else find? entries other := by
  induction entries with
  | nil => simp [put, find?]
  | cons entry rest ih =>
    obtain ⟨key, old⟩ := entry
    by_cases hk : key = name
    · subst hk
      by_cases ho : key = other <;> simp [put, find?, ho]
    · by_cases ho : key = other
      · subst ho
        simp [put, find?, hk, Ne.symm hk]
      · simp [put, find?, hk, ho, ih]

/-- A name that is taken out has no entry; every other name has what it had. -/
theorem find?_erase (entries : Keyed α) (name other : String) :
    find? (erase entries name) other = if name = other then none else find? entries other := by
  induction entries with
  | nil => simp [erase, find?]
  | cons entry rest ih =>
    obtain ⟨key, value⟩ := entry
    by_cases hk : key = name
    · subst hk
      rw [erase, List.filter_cons_of_neg (by simp), ← erase, ih]
      by_cases ho : key = other <;> simp [find?, ho]
    · rw [erase, List.filter_cons_of_pos (by simp [hk]), ← erase]
      by_cases ho : key = other
      · subst ho
        simp [find?, Ne.symm hk]
      · simp [find?, ho, ih]

/-- Entering a known name moves nothing, entering an unknown one appends it. -/
theorem names_put (entries : Keyed α) (name : String) (value : α) :
    names (put entries name value) =
      if name ∈ names entries then names entries else names entries ++ [name] := by
  induction entries with
  | nil => simp [put, names]
  | cons entry rest ih =>
    obtain ⟨key, old⟩ := entry
    by_cases hk : key = name
    · simp [put, names, hk]
    · by_cases hm : name ∈ names rest <;>
        simp_all [put, names, Ne.symm hk]

end Keyed

end ReactiveViews
