import ReactiveViews.Text.Numeral
/-!
# Character references

Written markup must not be mistaken for structure, so `escape` writes the
characters that open tags and references, and in attribute values the quotation
mark, as named references. `decode` reads references back: the named ones that
matter, and numbered ones in base ten or sixteen. Text that looks like a
reference and is none stands for itself.

Decoding looks at each character once: what a reference stands for is never read
again as part of another reference.
-/

namespace ReactiveViews.Text

/-- Where escaped text stands: among the nodes, or inside a quoted attribute value. -/
inductive Place
  | content
  | attributeValue
deriving DecidableEq, Repr

/-- The written form of one character. -/
def escapeAt (place : Place) (c : Char) : List Char :=
  if c == '&' then "&amp;".toList
  else if c == '<' then "&lt;".toList
  else if c == '>' then "&gt;".toList
  else if c == '"' && place == .attributeValue then "&quot;".toList
  else [c]

/-- **Escaping.** The written form of a text at a place. -/
def escape (place : Place) (text : List Char) : List Char :=
  text.flatMap (escapeAt place)

/-- The character of a numbered reference: a code point that is a character. -/
def ofCodePoint? (n : Nat) : Option Char :=
  if h : n.isValidChar then some (Char.ofNatAux n h) else none

/-- The character that a reference names, given what stands between `&` and `;`. -/
def referenced? (name : List Char) : Option Char :=
  if name == "amp".toList then some '&'
  else if name == "lt".toList then some '<'
  else if name == "gt".toList then some '>'
  else if name == "quot".toList then some '"'
  else if name == "apos".toList then some '\''
  else if name == "nbsp".toList then some '\u00a0'
  else match name with
    | '#' :: 'x' :: code => (readNatural 16 0x100000000 code).bind ofCodePoint?
    | '#' :: 'X' :: code => (readNatural 16 0x100000000 code).bind ofCodePoint?
    | '#' :: code => (readNatural 10 0x100000000 code).bind ofCodePoint?
    | _ => none

/-- Splits at the first occurrence of `c`, which belongs to neither part. -/
def splitAt? (c : Char) : List Char → Option (List Char × List Char)
  | [] => none
  | d :: rest =>
    if d == c then some ([], rest)
    else (splitAt? c rest).map fun (before, after) => (d :: before, after)

/-- The part before is the longest without `c`, and the part after follows the first `c`. -/
theorem splitAt?_eq_some_iff {c : Char} {text before after : List Char} :
    splitAt? c text = some (before, after) ↔ text = before ++ c :: after ∧ c ∉ before := by
  induction text generalizing before with
  | nil => simp [splitAt?]
  | cons d rest ih =>
    by_cases hd : d = c
    · subst hd
      cases before with
      | nil => simp [splitAt?]
      | cons b bs => simp [splitAt?]; grind
    · cases before with
      | nil => simp [splitAt?, hd]
      | cons b bs => simp [splitAt?, hd, ih]; grind

theorem splitAt?_eq_some {c : Char} {text before after : List Char}
    (h : splitAt? c text = some (before, after)) : text = before ++ c :: after :=
  (splitAt?_eq_some_iff.1 h).1

/-- What a text that follows an `&` begins with: the character referred to and the rest after
the `;`, or nothing if it is no reference. -/
def reference? (text : List Char) : Option (Char × List Char) :=
  (splitAt? ';' text).bind fun (name, rest) => (referenced? name).map fun c => (c, rest)

/-- A reference is a name up to the first `;`. -/
theorem reference?_eq_some_iff {text after : List Char} {c : Char} :
    reference? text = some (c, after) ↔
      ∃ name, text = name ++ ';' :: after ∧ ';' ∉ name ∧ referenced? name = some c := by
  constructor
  · intro h
    obtain ⟨⟨name, rest⟩, hs, hc⟩ := Option.bind_eq_some_iff.1 h
    obtain ⟨d, hd, he⟩ := Option.map_eq_some_iff.1 hc
    obtain ⟨rfl, rfl⟩ := Prod.mk.inj he
    obtain ⟨ht, hn⟩ := splitAt?_eq_some_iff.1 hs
    exact ⟨name, ht, hn, hd⟩
  · rintro ⟨name, ht, hn, hc⟩
    rw [reference?, splitAt?_eq_some_iff.2 ⟨ht, hn⟩]
    simp [hc]

theorem reference?_length_lt {text : List Char} {c : Char} {rest : List Char}
    (h : reference? text = some (c, rest)) : rest.length < text.length := by
  obtain ⟨name, rfl, -, -⟩ := reference?_eq_some_iff.1 h
  simp
  omega

/-- **Decoding.** The text with every character reference replaced by its character. -/
def decode : List Char → List Char
  | [] => []
  | c :: rest =>
    if c = '&' then
      match _h : reference? rest with
      | some (d, after) => d :: decode after
      | none => '&' :: decode rest
    else c :: decode rest
termination_by text => text.length
decreasing_by
  · have := reference?_length_lt _h
    simp
    omega
  · simp
  · simp

end ReactiveViews.Text
