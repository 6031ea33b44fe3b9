/-!
# Blank characters

White space in markup is the Unicode property of that name, not only the four
characters a keyboard has: a no-break space or an ideographic space separates
attributes just as a space does. `isBlank` is that property, `skipBlank` drops a
leading run of such characters and `trim` drops both runs.
-/

namespace ReactiveViews.Text

/-- **White space.** The twenty-five characters with the Unicode property `White_Space`. -/
def isBlank (c : Char) : Bool :=
  let n := c.toNat
  (9 ≤ n && n ≤ 13) || n == 0x20 || n == 0x85 || n == 0xA0 || n == 0x1680 ||
    (0x2000 ≤ n && n ≤ 0x200A) || n == 0x2028 || n == 0x2029 || n == 0x202F ||
    n == 0x205F || n == 0x3000

/-- The text without its leading blanks. -/
def skipBlank (cs : List Char) : List Char :=
  cs.dropWhile isBlank

/-- The text without its leading and trailing blanks. -/
def trim (cs : List Char) : List Char :=
  (skipBlank (skipBlank cs).reverse).reverse

theorem skipBlank_length_le (cs : List Char) : (skipBlank cs).length ≤ cs.length :=
  List.Sublist.length_le (List.dropWhile_sublist _)

/-- What follows the leading blanks does not begin with a blank. -/
theorem isBlank_of_skipBlank_eq_cons {cs : List Char} {c : Char} {rest : List Char}
    (h : skipBlank cs = c :: rest) : isBlank c = false := by
  induction cs with
  | nil => simp [skipBlank] at h
  | cons d ds ih =>
    by_cases hd : isBlank d
    · simp [skipBlank, hd] at h
      exact ih h
    · simp [skipBlank, hd] at h
      simpa [← h.1] using hd

/-- Dropping leading blanks twice drops no more than dropping them once. -/
theorem skipBlank_skipBlank (cs : List Char) : skipBlank (skipBlank cs) = skipBlank cs := by
  cases h : skipBlank cs with
  | nil => rfl
  | cons c rest => simp [skipBlank, isBlank_of_skipBlank_eq_cons h]

end ReactiveViews.Text
