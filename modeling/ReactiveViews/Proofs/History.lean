import ReactiveViews.Splice
/-!
# Histories of a list

A splice says what it takes out of a list, so it fits some lists and not others. A
history *carries* one list to another if each of its splices fits what the splices
before it have made of the list, and the last leaves the other.

A history that is being kept grows with the list: a splice of the list is entered at
the end, or becomes part of the last entry if it continues that. Either way the history
carries the same list to the new one (`Splice.Grows.carries`).
-/

namespace ReactiveViews.Splice

/-- **Fitting.** A splice takes out of a list what stands there at its index. -/
structure Fits (s : Splice) (items : List Value) : Prop where
  index : s.index ≤ items.length
  removed : s.removed = (items.drop s.index).take s.removed.length

theorem cut_fits (items : List Value) (index deleteCount : Nat) (added : List Value) :
    (cut items index deleteCount added).Fits items := by
  refine ⟨Nat.min_le_right _ _, ?_⟩
  simp only [cut, List.length_take]
  rw [List.take_eq_take_iff]
  omega

theorem reset_fits (items added : List Value) : (reset items added).Fits items :=
  ⟨Nat.zero_le _, (List.take_length).symm⟩

@[simp] theorem apply_reset (items added : List Value) : (reset items added).apply items = added := by
  simp [apply, reset]

/-- A splice that changes nothing. -/
theorem apply_of_isEmpty {s : Splice} {items : List Value} (h : s.isEmpty = true) :
    s.apply items = items := by
  simp only [isEmpty, Bool.and_eq_true, List.isEmpty_iff] at h
  simp [apply, h.1, h.2]

/-- What has been put in stands in front of the rest. -/
theorem length_take_index {s : Splice} {items : List Value} (h : s.Fits items) :
    (items.take s.index).length = s.index := by
  rw [List.length_take]
  exact Nat.min_eq_left h.index

/-- Carrying out a splice that continues another is carrying out one splice instead. -/
theorem apply_merged {last next : Splice} {items : List Value} (hf : last.Fits items)
    (hc : next.continues last = true) :
    ({ last with added := last.added ++ next.added } : Splice).apply items =
      next.apply (last.apply items) := by
  simp only [continues, Bool.and_eq_true, List.isEmpty_iff, beq_iff_eq] at hc
  have hl : (items.take last.index ++ last.added).length = next.index := by
    rw [List.length_append, length_take_index hf, hc.2]
  unfold apply
  rw [hc.1, List.length_nil, Nat.add_zero, List.take_left' hl, List.drop_left' hl]
  simp only [List.append_assoc]

/-- **Carrying.** The history carries one list to another. -/
def Carries (start : List Value) : List Splice → List Value → Prop
  | [], items => start = items
  | s :: rest, items => s.Fits start ∧ Carries (s.apply start) rest items

namespace Carries

theorem append {start items : List Value} {before after : List Splice} :
    Carries start (before ++ after) items ↔
      ∃ between, Carries start before between ∧ Carries between after items := by
  induction before generalizing start with
  | nil => exact ⟨fun h => ⟨start, rfl, h⟩, fun ⟨_, h, h'⟩ => (show start = _ from h) ▸ h'⟩
  | cons s before ih =>
    constructor
    · rintro ⟨hs, h⟩
      obtain ⟨between, hb, ha⟩ := ih.mp h
      exact ⟨between, ⟨hs, hb⟩, ha⟩
    · rintro ⟨between, ⟨hs, hb⟩, ha⟩
      exact ⟨hs, ih.mpr ⟨between, hb, ha⟩⟩

/-- **A history that carries one list to another replays it.** -/
theorem replay {start items : List Value} {history : List Splice}
    (h : Carries start history items) : Splice.replay history start = items := by
  induction history generalizing start with
  | nil => exact h
  | cons s rest ih => exact ih h.2

/-- Each splice of the history takes out what stands at its index when its turn comes. -/
theorem fits {start items : List Value} {before after : List Splice} {s : Splice}
    (h : Carries start (before ++ s :: after) items) :
    s.Fits (Splice.replay before start) := by
  obtain ⟨between, hb, hs, -⟩ := append.mp h
  exact hb.replay ▸ hs

end Carries

/-- **Entering.** A splice is entered into a history at the end, or as part of the last entry. -/
inductive Entered (s : Splice) : List Splice → List Splice → Prop
  | last (history : List Splice) : Entered s history (history ++ [s])
  | merged {history : List Splice} {last : Splice} (h : s.continues last = true) :
    Entered s (history ++ [last]) (history ++ [{ last with added := last.added ++ s.added }])

theorem Entered.prepend {s : Splice} {history history' : List Splice}
    (h : Entered s history history') (before : List Splice) :
    Entered s (before ++ history) (before ++ history') := by
  cases h with
  | last =>
    rw [← List.append_assoc]
    exact .last _
  | merged h =>
    rw [← List.append_assoc, ← List.append_assoc]
    exact .merged h

/-- Appending to a history is entering a splice into it. -/
theorem entered_append (history : List Splice) (s : Splice) :
    Entered s history (append history s) := by
  match history with
  | [] => exact .last []
  | [last] =>
    unfold append
    split
    · next h => exact @Entered.merged s [] last h
    · exact .last [last]
  | first :: next :: rest => exact (entered_append (next :: rest) s).prepend [first]

/-- **Growing.** While a list goes from `items` to `items'`, the splices that do so are entered
into a history of it, one after another. -/
inductive Grows (history : List Splice) (items : List Value) : List Splice → List Value → Prop
  | refl : Grows history items history items
  | enter {history' history'' : List Splice} {items' : List Value} {s : Splice}
    (h : Grows history items history' items') (hs : s.Fits items')
    (he : Entered s history' history'') : Grows history items history'' (s.apply items')

namespace Grows

variable {history history' history'' : List Splice} {items items' items'' : List Value}

theorem trans (h : Grows history items history' items')
    (h' : Grows history' items' history'' items'') : Grows history items history'' items'' := by
  induction h' with
  | refl => exact h
  | enter _ hs he ih => exact .enter ih hs he

/-- What stands before a history is not touched. -/
theorem prepend (h : Grows history items history' items') (before : List Splice) :
    Grows (before ++ history) items (before ++ history') items' := by
  induction h with
  | refl => exact .refl
  | enter _ hs he ih => exact .enter ih hs (he.prepend before)

/-- Entries stay. -/
theorem length (h : Grows history items history' items') : history.length ≤ history'.length := by
  induction h with
  | refl => exact Nat.le_refl _
  | enter _ _ he ih =>
    refine Nat.le_trans ih ?_
    cases he with
    | last => simp
    | merged => simp

/-- **A history that grows with its list carries the same list to the new one.** -/
theorem carries {start : List Value} (h : Grows history items history' items')
    (hc : Carries start history items) : Carries start history' items' := by
  induction h with
  | refl => exact hc
  | @enter history' history'' items' s _ hs he ih =>
    cases he with
    | last => exact Carries.append.mpr ⟨items', ih, hs, rfl⟩
    | @merged history last h =>
      obtain ⟨between, hb, hl, he⟩ := Carries.append.mp ih
      obtain rfl : last.apply between = items' := he
      refine Carries.append.mpr ⟨between, hb, ⟨hl.index, hl.removed⟩, ?_⟩
      exact apply_merged hl h

end Grows

end ReactiveViews.Splice
