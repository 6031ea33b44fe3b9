import ReactiveViews.Text.Blank
import ReactiveViews.Text.Entity
/-!
# Reading position

A cursor stands somewhere in the source of a template: it knows how many bytes
lie behind it, for messages, and which characters lie ahead. Every reader below
takes characters from the front and leaves a cursor behind them. `Cursor.Within`
says that a cursor came from another by moving forward, and `Cursor.Past` that it
moved by at least one character; each reader comes with the one that holds.
-/

namespace ReactiveViews.Markup

/-- How many bytes characters take up. -/
def byteCount : List Char → Nat
  | [] => 0
  | c :: cs => c.utf8Size + byteCount cs

@[simp] theorem byteCount_nil : byteCount [] = 0 := rfl

@[simp] theorem byteCount_cons (c : Char) (cs : List Char) :
    byteCount (c :: cs) = c.utf8Size + byteCount cs := rfl

@[simp] theorem byteCount_append (a b : List Char) :
    byteCount (a ++ b) = byteCount a + byteCount b := by
  induction a with
  | nil => simp
  | cons c a ih => simp [ih]; omega

/-- Every character takes up a byte at least. -/
theorem length_le_byteCount (cs : List Char) : cs.length ≤ byteCount cs := by
  induction cs with
  | nil => simp
  | cons c cs ih =>
    have := c.utf8Size_pos
    simp only [List.length_cons, byteCount_cons]
    omega

/-- **Cursor.** The bytes behind it and the characters ahead of it. -/
structure Cursor where
  pos : Nat
  rest : List Char
deriving Inhabited

namespace Cursor

/-- The beginning of a source. -/
def start (source : List Char) : Cursor := ⟨0, source⟩

/-- Moves over `taken`, behind which `rest` is left. -/
def past (c : Cursor) (taken rest : List Char) : Cursor :=
  ⟨c.pos + byteCount taken, rest⟩

/-- `c'` lies ahead of `c` or is `c`: some characters of `c` are behind it. -/
def Within (c' c : Cursor) : Prop :=
  ∃ taken, c.rest = taken ++ c'.rest ∧ c'.pos = c.pos + byteCount taken

/-- `c'` lies ahead of `c` by at least one character. -/
def Past (c' c : Cursor) : Prop :=
  ∃ taken, taken ≠ [] ∧ c.rest = taken ++ c'.rest ∧ c'.pos = c.pos + byteCount taken

theorem Within.refl (c : Cursor) : Within c c := ⟨[], by simp⟩

theorem Within.trans {a b c : Cursor} (h : Within a b) (h' : Within b c) : Within a c := by
  obtain ⟨t, ht, hp⟩ := h
  obtain ⟨t', ht', hp'⟩ := h'
  exact ⟨t' ++ t, by simp [ht', ht], by simp [hp, hp']; omega⟩

/-- Reading moves bytes from ahead to behind and loses none. -/
theorem Within.pos_add_byteCount {a b : Cursor} (h : Within a b) :
    a.pos + byteCount a.rest = b.pos + byteCount b.rest := by
  obtain ⟨t, ht, hp⟩ := h
  simp [ht, hp, Nat.add_assoc]

theorem Past.within {a b : Cursor} (h : Past a b) : Within a b := by
  obtain ⟨t, -, ht, hp⟩ := h
  exact ⟨t, ht, hp⟩

theorem Past.trans_within {a b c : Cursor} (h : Past a b) (h' : Within b c) : Past a c := by
  obtain ⟨t, hn, ht, hp⟩ := h
  obtain ⟨t', ht', hp'⟩ := h'
  exact ⟨t' ++ t, by simp [hn], by simp [ht', ht], by simp [hp, hp']; omega⟩

theorem Within.trans_past {a b c : Cursor} (h : Within a b) (h' : Past b c) : Past a c := by
  obtain ⟨t, ht, hp⟩ := h
  obtain ⟨t', hn, ht', hp'⟩ := h'
  exact ⟨t' ++ t, by simp [hn], by simp [ht', ht], by simp [hp, hp']; omega⟩

theorem Past.length_lt {a b : Cursor} (h : Past a b) : a.rest.length < b.rest.length := by
  obtain ⟨t, hn, ht, -⟩ := h
  have : 0 < t.length := List.length_pos_iff.2 hn
  rw [ht, List.length_append]
  omega

theorem past_within {c : Cursor} {taken rest : List Char} (h : c.rest = taken ++ rest) :
    Within (c.past taken rest) c :=
  ⟨taken, h, rfl⟩

theorem past_past {c : Cursor} {taken rest : List Char} (h : c.rest = taken ++ rest)
    (hn : taken ≠ []) : Past (c.past taken rest) c :=
  ⟨taken, hn, h, rfl⟩

/-- Takes characters while they satisfy `p`. -/
def readWhile (c : Cursor) (p : Char → Bool) : List Char × Cursor :=
  (c.rest.takeWhile p, c.past (c.rest.takeWhile p) (c.rest.dropWhile p))

theorem readWhile_within (c : Cursor) (p : Char → Bool) : Within (c.readWhile p).2 c :=
  past_within List.takeWhile_append_dropWhile.symm

/-- Moves over blanks. -/
def skipBlanks (c : Cursor) : Cursor := (c.readWhile Text.isBlank).2

theorem skipBlanks_within (c : Cursor) : Within c.skipBlanks c :=
  readWhile_within c _

/-- Moves over one character. -/
def next (c : Cursor) : Cursor :=
  match c.rest with
  | [] => c
  | d :: rest => c.past [d] rest

theorem next_within (c : Cursor) : Within c.next c := by
  unfold next
  split
  · exact Within.refl c
  · next h => exact past_within (by simp [h])

theorem next_past {c : Cursor} (h : c.rest ≠ []) : Past c.next c := by
  unfold next
  split
  · next h' => exact absurd h' h
  · next h' => exact past_past (by simp [h']) (by simp)

/-- The end of what a fixed text at the front leaves, if that text is there. -/
def afterText? (text : List Char) (cs : List Char) : Option (List Char) :=
  if text.isPrefixOf cs then some (cs.drop text.length) else none

theorem afterText?_eq_some {text cs rest : List Char} (h : afterText? text cs = some rest) :
    cs = text ++ rest := by
  unfold afterText? at h
  split at h
  · next hp =>
    obtain ⟨t, rfl⟩ := List.isPrefixOf_iff_prefix.1 hp
    simp at h
    simp [h]
  · simp at h

/-- Splits at the first occurrence of a text, which belongs to neither part. -/
def splitAtText? (text : List Char) : List Char → Option (List Char × List Char)
  | [] => if text.isEmpty then some ([], []) else none
  | c :: cs =>
    match afterText? text (c :: cs) with
    | some rest => some ([], rest)
    | none => (splitAtText? text cs).map fun (before, after) => (c :: before, after)

theorem splitAtText?_eq_some {text cs before after : List Char}
    (h : splitAtText? text cs = some (before, after)) : cs = before ++ text ++ after := by
  induction cs generalizing before with
  | nil =>
    simp only [splitAtText?] at h
    split at h
    · next he => simp_all
    · simp at h
  | cons c cs ih =>
    simp only [splitAtText?] at h
    split at h
    · next rest hr =>
      simp only [Option.some.injEq, Prod.mk.injEq] at h
      obtain ⟨rfl, rfl⟩ := h
      simpa using afterText?_eq_some hr
    · obtain ⟨⟨b, a⟩, hs, he⟩ := Option.map_eq_some_iff.1 h
      simp only [Prod.mk.injEq] at he
      obtain ⟨rfl, rfl⟩ := he
      simp [ih hs]

end Cursor

end ReactiveViews.Markup
