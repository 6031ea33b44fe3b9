import Mathlib
import ReactiveViews.Markup.Compile
import ReactiveViews.Proofs.Markup.Escaped
/-!
# Compiling what was written

The markup of a fragment, compiled without interpolations, gives the fragment back
(`compile_html`). Writing runs adjacent texts together and leaves empty ones out, so
what comes back is the fragment with its texts joined (`Tree.joined`); nothing else is
lost, and no text, attribute or comment is ever taken for structure.

Reading is followed tree by tree. A run of texts is read only when something else
comes, so the text that is still to be read is part of the statement: reading the
written form of a text followed by that of some trees, wherever an end is in sight,
adds the joined trees to the innermost open element (`reads_all`).
-/

namespace ReactiveViews

/-- What of a content is written: the tag and the attributes of an element, and the data of a
text or comment. -/
def Content.written (c : Content) : Content :=
  match c.kind with
  | .element tag => { Content.element tag with attributes := c.attributes }
  | .text => .text c.data
  | .comment => .comment c.data
  | .fragment => .fragment

namespace Tree

/-- Puts a text in front of trees: in front of the text that they begin with, if they begin with
one. An empty text is left out. -/
def withText (data : String) (ts : List Tree) : List Tree :=
  if data = "" then ts
  else match ts with
    | .node ⟨.text, more, _, _⟩ _ :: rest => .node (.text (data ++ more)) [] :: rest
    | _ => .node (.text data) [] :: ts

mutual

/-- **Joined.** The tree with adjacent texts in it merged and empty ones dropped. -/
def joined : Tree → Tree
  | node c ts => node c.written (joinedAll ts)

/-- Trees with adjacent texts among them and in them merged and empty ones dropped. -/
def joinedAll : List Tree → List Tree
  | [] => []
  | t :: ts =>
    match t.content.kind with
    | .text => withText t.content.data (joinedAll ts)
    | _ => joined t :: joinedAll ts

end

/-- A small letter, and then small letters, digits and hyphens. -/
def IsTagName (tag : String) : Prop :=
  ∃ first rest, tag.toList = first :: rest ∧ first.isLower = true ∧
    ∀ c ∈ rest, c.isLower = true ∨ c.isDigit = true ∨ c = '-'

/-- Not empty, and without blanks, the characters that end a name, and the one that opens a
marker. -/
def IsAttributeName (name : String) : Prop :=
  name ≠ "" ∧ ∀ c ∈ name.toList, Text.isBlank c = false ∧ c ≠ '=' ∧ c ≠ '>' ∧ c ≠ '/' ∧
    c ≠ Markup.markerOpen

instance : DecidablePred IsAttributeName := fun name =>
  @instDecidableAnd _ _ inferInstance (List.decidableBAll _ name.toList)

/-- Attributes have one value each. -/
def IsAttributes (attributes : Keyed String) : Prop :=
  attributes.names.Nodup ∧
    ∀ entry ∈ attributes, IsAttributeName entry.1 ∧ Markup.markerOpen ∉ entry.2.toList

mutual

/-- **Writable.** What may stand in a fragment: elements, texts and comments. Texts, comments and
void elements have no children, a comment does not hold its own end, and texts and attribute values
do not hold the character that opens a marker. -/
def Writable : Tree → Prop
  | node c ts =>
    match c.kind with
    | .text => Markup.markerOpen ∉ c.data.toList ∧ ts = []
    | .comment => ¬ "-->".toList <:+: c.data.toList ∧ ts = []
    | .element tag =>
      IsTagName tag ∧ IsAttributes c.attributes ∧ (isVoidTag tag = true → ts = []) ∧ WritableAll ts
    | .fragment => False

/-- Trees of which each may stand in a fragment. -/
def WritableAll : List Tree → Prop
  | [] => True
  | t :: ts => Writable t ∧ WritableAll ts

end

/-- Two texts in front of trees are one. -/
theorem withText_withText (a b : String) (ts : List Tree) :
    withText a (withText b ts) = withText (a ++ b) ts := by
  by_cases ha : a = ""
  · subst ha
    simp [withText]
  by_cases hb : b = ""
  · subst hb
    simp [withText, ha]
  have hab : a ++ b ≠ "" := fun h => ha (String.append_eq_empty_iff.mp h).1
  rcases ts with - | ⟨⟨⟨kind, more, attributes, properties⟩, us⟩, rest⟩
  · simp [withText, ha, hb, hab, Content.text]
  · cases kind <;> simp [withText, ha, hb, hab, Content.text, String.append_assoc]

end Tree

namespace Markup

open Relation Text

/-- Reading goes from one state to another. -/
abbrev Reads : State → State → Prop := ReflTransGen fun s s' => step s = .ok (.more s')

/-- Reading comes to what it comes to from any state on the way. -/
theorem run_of_reads {s s' : State} (h : Reads s s') : run s = run s' := by
  induction h using ReflTransGen.head_induction_on with
  | refl => rfl
  | @head s t h _ ih =>
    rw [run]
    split
    · next e he => cases h.symm.trans he
    · next r hr => cases h.symm.trans hr
    · next t' ht =>
      obtain rfl : t = t' := by simpa using h.symm.trans ht
      exact ih

/-! ## Names and texts -/

theorem isBlank_of_lt {c : Char} (h : 0x20 < c.toNat) (h' : c.toNat < 0x80) : isBlank c = false := by
  simp [isBlank]
  omega

/-- A character of a tag name belongs to the name wherever it is read, is written small, and does
not end the tag. -/
theorem isTagChar_of_small {c : Char} (h : c.isLower = true ∨ c.isDigit = true ∨ c = '-') :
    isTagChar c = true ∧ c.toLower = c ∧ isBlank c = false ∧ c ≠ '>' := by
  rcases or_assoc.mpr h with h | rfl
  · have hn : ('a'.toNat ≤ c.toNat ∧ c.toNat ≤ 'z'.toNat) ∨
        ('0'.toNat ≤ c.toNat ∧ c.toNat ≤ '9'.toNat) := by
      simpa only [Char.isLower, Char.isDigit, Char.toNat, ge_iff_le, UInt32.le_iff_toNat_le,
        Bool.and_eq_true, decide_eq_true_eq] using h
    have ha : 'a'.toNat = 97 := rfl
    have hz : 'z'.toNat = 122 := rfl
    have h0 : '0'.toNat = 48 := rfl
    have h9 : '9'.toNat = 57 := rfl
    refine ⟨?_, dif_neg ?_, isBlank_of_lt ?_ ?_, ?_⟩
    · rcases h with h | h <;> simp [isTagChar, Char.isAlphanum, Char.isAlpha, h]
    · simp only [ge_iff_le, UInt32.le_iff_toNat_le]
      change ¬ (65 ≤ c.toNat ∧ c.toNat ≤ 90)
      omega
    · omega
    · omega
    · rintro rfl
      revert h
      decide
  · decide

theorem toNat_lt_of_isTagChar {c : Char} (h : isTagChar c = true) : c.toNat < 128 := by
  simp only [isTagChar, Char.isAlphanum, Char.isAlpha, Char.isUpper, Char.isLower, Char.isDigit,
    Bool.or_eq_true, Bool.and_eq_true, decide_eq_true_eq, beq_iff_eq] at h
  rcases h with (((⟨-, hle⟩ | ⟨-, hle⟩) | ⟨-, hle⟩) | rfl)
  · exact Nat.lt_of_le_of_lt hle (by decide)
  · exact Nat.lt_of_le_of_lt hle (by decide)
  · exact Nat.lt_of_le_of_lt hle (by decide)
  · decide

/-- The characters of a tag are written small. -/
theorem small_toLower {c : Char} (h : isTagChar c = true) :
    (c.toLower.isLower = true ∨ c.toLower.isDigit = true ∨ c.toLower = '-') ∧
      (c.isAlpha = true → c.toLower.isLower = true) := by
  have hsmall : ∀ n < 128, isTagChar (Char.ofNat n) = true →
      ((Char.ofNat n).toLower.isLower = true ∨ (Char.ofNat n).toLower.isDigit = true ∨
        (Char.ofNat n).toLower = '-') ∧
          ((Char.ofNat n).isAlpha = true → (Char.ofNat n).toLower.isLower = true) := by
    decide +kernel
  have hc := hsmall c.toNat (toNat_lt_of_isTagChar h)
  rw [Char.ofNat_toNat] at hc
  exact hc h

theorem small_of_mem {tag : String} (h : Tree.IsTagName tag) {c : Char} (hc : c ∈ tag.toList) :
    c.isLower = true ∨ c.isDigit = true ∨ c = '-' := by
  obtain ⟨first, rest, he, hf, hr⟩ := h
  rw [he, List.mem_cons] at hc
  rcases hc with rfl | hc
  · exact .inl hf
  · exact hr c hc

/-- A tag name is written in small letters already. -/
theorem map_toLower {tag : String} (h : Tree.IsTagName tag) :
    tag.toList.map Char.toLower = tag.toList :=
  (List.map_congr_left fun _ hc => (isTagChar_of_small (small_of_mem h hc)).2.1).trans
    (List.map_id' _)

theorem skipBlank_cons {c : Char} (h : isBlank c = false) (rest : List Char) :
    skipBlank (c :: rest) = c :: rest := by
  simp [skipBlank, h]

/-- There are no blanks around a tag name. -/
theorem trim_eq_self {tag : String} (h : Tree.IsTagName tag) : trim tag.toList = tag.toList := by
  have hs : ∀ cs : List Char, (∀ c ∈ cs, isBlank c = false) → skipBlank cs = cs := by
    intro cs hcs
    rcases cs with - | ⟨c, cs⟩
    · rfl
    · exact skipBlank_cons (hcs c List.mem_cons_self) cs
  have hb : ∀ c ∈ tag.toList, isBlank c = false := fun c hc =>
    (isTagChar_of_small (small_of_mem h hc)).2.2.1
  rw [trim, hs _ hb, hs _ fun c hc => hb c (List.mem_reverse.mp hc), List.reverse_reverse]

/-- Taking characters off the front stops at the first that is not wanted. -/
theorem takeWhile_append_cons {p : Char → Bool} {a b : List Char} {c : Char}
    (ha : ∀ d ∈ a, p d = true) (hc : p c = false) :
    (a ++ c :: b).takeWhile p = a ∧ (a ++ c :: b).dropWhile p = c :: b := by
  rw [List.takeWhile_append_of_pos ha, List.dropWhile_append_of_pos ha]
  simp [hc]

/-- A text without opening brackets is read whole, up to where a tag begins. -/
theorem textRun_append {a rest : List Char} (ha : '<' ∉ a) (hr : rest = [] ∨ startsTag rest = true) :
    textRun (a ++ rest) = a ∧ afterTextRun (a ++ rest) = rest := by
  induction a with
  | nil =>
    rcases rest with - | ⟨c, rest⟩
    · exact ⟨rfl, rfl⟩
    · have hs : startsTag (c :: rest) = true := hr.resolve_left (List.cons_ne_nil c rest)
      simp [textRun, afterTextRun, hs]
  | cons c a ih =>
    rw [List.mem_cons, not_or] at ha
    obtain ⟨hc, ha⟩ := ha
    have hs : startsTag (c :: (a ++ rest)) = false := by
      unfold startsTag
      split
      · next h => exact absurd (List.cons.inj h).1.symm hc
      · rfl
    simp [textRun, afterTextRun, hs, ih ha]

/-- A source without markers is one text. -/
theorem segments_of_not_mem {source : List Char} (h : markerOpen ∉ source) :
    segments source = .ok (textSegment source) := by
  rw [segments]
  split
  · rfl
  · next hs => cases hs.symm.trans (splitAt?_eq_none h)

theorem markerOpen_not_mem_escape {place : Place} {text : List Char} (h : markerOpen ∉ text) :
    markerOpen ∉ escape place text :=
  fun hm => h (mem_escape hm (by decide)).1

/-- A comment ends where it was ended. -/
theorem splitAtText?_append {data : List Char} (h : ¬ "-->".toList <:+: data) (rest : List Char) :
    Cursor.splitAtText? "-->".toList (data ++ ("-->".toList ++ rest)) = some (data, rest) := by
  induction data with
  | nil => simp [Cursor.splitAtText?, Cursor.afterText?, List.isPrefixOf]
  | cons c data ih =>
    have hi : ¬ "-->".toList <:+: data := fun hi => h (hi.trans (List.suffix_cons c data).isInfix)
    have hn : Cursor.afterText? "-->".toList (c :: (data ++ ("-->".toList ++ rest))) = none := by
      unfold Cursor.afterText?
      rw [if_neg]
      intro hp
      -- An end that begins earlier and is not inside the data would need its `>` where the end
      -- has a hyphen.
      rcases data with - | ⟨d, - | ⟨e, data⟩⟩
      · simp [List.isPrefixOf] at hp
      · simp [List.isPrefixOf] at hp
      · refine h (List.IsPrefix.isInfix ?_)
        simpa [List.isPrefixOf] using hp
    rw [List.cons_append, Cursor.splitAtText?, hn, ih hi]
    rfl

/-! ## Attributes -/

theorem rest_skipBlanks (c : Cursor) : c.skipBlanks.rest = skipBlank c.rest :=
  rfl

theorem skipBlanks_cons {c : Char} (h : isBlank c = false) (pos : Nat) (rest : List Char) :
    Cursor.skipBlanks ⟨pos, c :: rest⟩ = ⟨pos, c :: rest⟩ := by
  simp [Cursor.skipBlanks, Cursor.readWhile, Cursor.past, h]

/-- What the inside of a tag is written as behind the name, up to `rest`. -/
def inTag (attributes : Keyed String) (rest : List Char) : List Char :=
  attributes.flatMap Tree.writeAttribute ++ '>' :: rest

theorem inTag_cons (entry : String × String) (attributes : Keyed String) (rest : List Char) :
    inTag (entry :: attributes) rest = Tree.writeAttribute entry ++ inTag attributes rest := by
  simp [inTag]

/-- Every attribute is separated from the one before it. -/
theorem inTag_eq_cons (attributes : Keyed String) (rest : List Char) :
    ∃ c more, inTag attributes rest = c :: more ∧ (c = ' ' ∨ c = '>') := by
  rcases attributes with - | ⟨entry, attributes⟩
  · exact ⟨'>', rest, rfl, .inr rfl⟩
  · rw [inTag_cons, Tree.writeAttribute]
    split
    · exact ⟨' ', _, rfl, .inl rfl⟩
    · exact ⟨' ', _, rfl, .inl rfl⟩

/-- The first character of an attribute name is a character of it. -/
theorem eq_cons_of_isAttributeName {name : String} (h : Tree.IsAttributeName name) :
    ∃ first more, name.toList = first :: more ∧ isBlank first = false ∧ first ≠ '=' ∧
      first ≠ '>' ∧ first ≠ '/' := by
  cases hn : name.toList with
  | nil => exact absurd (String.toList_eq_nil_iff.mp hn) h.1
  | cons first more =>
    obtain ⟨hb, he, hg, hs, -⟩ := h.2 first (by rw [hn]; exact List.mem_cons_self)
    exact ⟨first, more, rfl, hb, he, hg, hs⟩

/-- Behind the blanks no equals sign follows, so no value is taken that belongs elsewhere. -/
theorem skipBlank_inTag_ne {attributes : Keyed String} (h : Tree.IsAttributes attributes)
    (rest more : List Char) : skipBlank (inTag attributes rest) ≠ '=' :: more := by
  rcases attributes with - | ⟨⟨name, value⟩, attributes⟩
  · rw [inTag, List.flatMap_nil, List.nil_append, skipBlank_cons (by decide)]
    simp
  · obtain ⟨first, more', hn, hb, he, -⟩ :=
      eq_cons_of_isAttributeName (h.2 _ List.mem_cons_self).1
    have hs : ∀ tail, skipBlank (' ' :: (name.toList ++ tail)) = first :: (more' ++ tail) := by
      intro tail
      rw [hn, skipBlank, List.dropWhile_cons_of_pos (by decide)]
      exact skipBlank_cons hb _
    rw [inTag_cons, Tree.writeAttribute]
    split
    · rw [List.cons_append, hs]
      simp [he]
    · rw [List.cons_append, List.append_assoc, hs]
      simp [he]

/-- A value in quotation marks is read up to the second of them. -/
theorem readOptionalValue_quoted {value : List Char} (hv : '"' ∉ value) (rest : List Char)
    (pos : Nat) :
    ∃ c', readOptionalValue (Cursor.skipBlanks ⟨pos, '=' :: '"' :: (value ++ '"' :: rest)⟩) =
        .ok (value, c') ∧ c'.rest = rest := by
  have hs : splitAt? '"' (value ++ '"' :: rest) = some (value, rest) :=
    splitAt?_eq_some_iff.mpr ⟨rfl, hv⟩
  let inside : Cursor := ⟨pos + byteCount ['='] + byteCount ['"'], value ++ '"' :: rest⟩
  have hr : readValue ⟨pos + byteCount ['='], '"' :: inside.rest⟩ =
      .ok (value, inside.past (value ++ ['"']) rest) := by
    change readQuoted '"' inside = _
    rw [readQuoted, hs]
  refine ⟨inside.past (value ++ ['"']) rest, ?_, rfl⟩
  rw [skipBlanks_cons (by decide), ← hr]
  exact congrArg readValue (skipBlanks_cons (c := '"') (by decide) _ _)

/-- A written attribute reads as its name and its escaped value, and leaves the rest of the tag,
perhaps without the blank in front of it. -/
theorem readAttribute_written {name : String} (value : String) {attributes : Keyed String}
    (hn : Tree.IsAttributeName name) (h : Tree.IsAttributes attributes) {c : Cursor}
    (rest : List Char)
    (hc : ' ' :: c.rest = Tree.writeAttribute (name, value) ++ inTag attributes rest) :
    ∃ start c', readAttribute c =
        .ok (some ⟨start, name.toList, escape .attributeValue value.toList⟩, c') ∧
      skipBlank c'.rest = skipBlank (inTag attributes rest) := by
  have hchars : ∀ d ∈ name.toList, isNameChar d = true := by
    intro d hd
    obtain ⟨hb, he, hg, hs, -⟩ := hn.2 d hd
    simp [isNameChar, hb, he, hg, hs]
  have hname : name.toList.isEmpty = false := by
    obtain ⟨first, more, he, -⟩ := eq_cons_of_isAttributeName hn
    rw [he]
    rfl
  by_cases hv : value = ""
  · subst hv
    obtain ⟨d, more, hd, hd'⟩ := inTag_eq_cons attributes rest
    have hr : c.rest = name.toList ++ d :: more := by
      simpa [Tree.writeAttribute, hd] using hc
    have hdn : isNameChar d = false := by
      rcases hd' with rfl | rfl <;> decide
    obtain ⟨ht, hdr⟩ := takeWhile_append_cons hchars hdn (b := more)
    refine ⟨c.pos, (c.past name.toList (d :: more)).skipBlanks, ?_, ?_⟩
    · unfold readAttribute Cursor.readWhile
      rw [hr, ht, hdr]
      simp only [hname, Bool.false_eq_true, if_false]
      have ho : readOptionalValue (c.past name.toList (d :: more)).skipBlanks =
          .ok ([], (c.past name.toList (d :: more)).skipBlanks) := by
        unfold readOptionalValue
        split
        · next he => exact absurd he (hd ▸ skipBlank_inTag_ne h rest _)
        · rfl
      rw [ho]
      rfl
    · rw [rest_skipBlanks, skipBlank_skipBlank, hd]
      rfl
  · have hve : value.isEmpty = false := by simpa using hv
    have hr : c.rest = name.toList ++ '=' :: '"' ::
        (escape .attributeValue value.toList ++ '"' :: inTag attributes rest) := by
      simpa [Tree.writeAttribute, hve] using hc
    obtain ⟨ht, hdr⟩ := takeWhile_append_cons hchars (c := '=') (by decide)
      (b := '"' :: (escape .attributeValue value.toList ++ '"' :: inTag attributes rest))
    obtain ⟨c', ho, hc'⟩ := readOptionalValue_quoted (quote_not_mem_escape value.toList)
      (inTag attributes rest) (c.pos + byteCount name.toList)
    refine ⟨c.pos, c', ?_, by rw [hc']⟩
    unfold readAttribute Cursor.readWhile
    rw [hr, ht, hdr]
    simp only [hname, Bool.false_eq_true, if_false]
    rw [Cursor.past, ho]

/-! ## Tags -/

/-- Reading a tag ends at its end. -/
theorem readAttributes_end (tag : String) (path : Path) (attributes : Keyed String)
    (supply : Supply) {c : Cursor} {rest : List Char} (h : skipBlank c.rest = '>' :: rest) :
    ∃ pos, readAttributes tag path c attributes supply =
      .ok ((attributes, supply, false), ⟨pos, rest⟩) := by
  have hr : c.skipBlanks.rest = '>' :: rest := h
  refine ⟨c.skipBlanks.pos + byteCount ['>'], ?_⟩
  rw [readAttributes]
  split
  · next he => cases he.symm.trans hr
  · next he => exact absurd (he.symm.trans hr) (by simp)
  · rw [Cursor.next, hr]
    rfl
  · next hn _ he => 
    exact absurd (he.symm.trans hr) (by grind)

/-- Reading a tag takes an attribute in, if one comes next. -/
theorem readAttributes_attribute {tag : String} {path : Path} {c c' : Cursor}
    {attributes attributes' : Keyed String} {supply supply' : Supply} {first : Char}
    {more : List Char} {raw : RawAttribute} (h : skipBlank c.rest = first :: more)
    (hg : first ≠ '>') (hs : first ≠ '/') (hr : readAttribute c.skipBlanks = .ok (some raw, c'))
    (ha : supply.attach path c'.pos raw attributes = .ok (attributes', supply')) :
    readAttributes tag path c attributes supply = readAttributes tag path c' attributes' supply' := by
  have hf : c.skipBlanks.rest = first :: more := h
  rw [readAttributes]
  split
  · next he => cases he.symm.trans hf
  · next he => exact absurd (List.cons.inj (he.symm.trans hf)).1.symm hs
  · next he => exact absurd (List.cons.inj (he.symm.trans hf)).1.symm hg
  · split
    · next he => cases he.symm.trans hr
    · next he => exact absurd (he.symm.trans hr) (by simp)
    · next raw' c'' he =>
      obtain ⟨rfl, rfl⟩ : raw' = raw ∧ c'' = c' := by simpa using he.symm.trans hr
      rw [ha]

/-- A new name is entered at the end. -/
theorem put_of_not_mem {attributes : Keyed String} {name : String} (h : name ∉ attributes.names)
    (value : String) : attributes.put name value = attributes ++ [(name, value)] := by
  induction attributes with
  | nil => rfl
  | cons entry attributes ih =>
    obtain ⟨key, old⟩ := entry
    have hk : key ≠ name := fun hk => h (by simp [Keyed.names, hk])
    have hm : name ∉ Keyed.names attributes := fun hm => h (List.mem_cons_of_mem key hm)
    rw [Keyed.put, if_neg hk, ih hm, List.cons_append]

/-- A written attribute holds no markers and becomes an attribute. -/
theorem attach_written {name value : String} (hn : Tree.IsAttributeName name)
    (hv : markerOpen ∉ value.toList) {attributes : Keyed String} (hk : name ∉ attributes.names)
    (path : Path) (start pos : Nat) (supply : Supply) :
    supply.attach path pos ⟨start, name.toList, escape .attributeValue value.toList⟩ attributes =
      .ok (attributes ++ [(name, value)], supply) := by
  have hm : name.toList.contains markerOpen = false := by
    rw [List.contains_eq_mem, decide_eq_false_iff_not]
    exact fun h => (hn.2 _ h).2.2.2.2 rfl
  unfold Supply.attach
  simp only [hm, Bool.false_eq_true, if_false, segments_of_not_mem (markerOpen_not_mem_escape hv),
    String.ofList_toList, decode_escape, put_of_not_mem hk]
  have hs : ∀ cs, textSegment cs = [] ∨ textSegment cs = [.text cs] := fun cs => ite_eq_or_eq _ _ _
  rcases hs (escape .attributeValue value.toList) with h | h <;> rw [h] <;> rfl

/-- **Attributes are read as they were written.** -/
theorem readAttributes_written (tag : String) (path : Path) (supply : Supply) {rest : List Char} :
    ∀ {attributes : Keyed String} (before : Keyed String) {c : Cursor}, Tree.IsAttributes attributes →
      (∀ name ∈ attributes.names, name ∉ before.names) →
      skipBlank c.rest = skipBlank (inTag attributes rest) →
      ∃ pos, readAttributes tag path c before supply =
        .ok ((before ++ attributes, supply, false), ⟨pos, rest⟩)
  | [], before, c, _, _, hc => by
    obtain ⟨pos, h⟩ := readAttributes_end tag path before supply
      (hc.trans (skipBlank_cons (by decide) rest))
    exact ⟨pos, by rw [h, List.append_nil]⟩
  | (name, value) :: attributes, before, c, h, hb, hc => by
    obtain ⟨hname, hvalue⟩ := h.2 _ List.mem_cons_self
    have hnodup := List.nodup_cons.mp h.1
    have ht : Tree.IsAttributes attributes :=
      ⟨hnodup.2, fun entry he => h.2 entry (List.mem_cons_of_mem _ he)⟩
    obtain ⟨first, more, hfirst, hblank, -, hgt, hslash⟩ := eq_cons_of_isAttributeName hname
    have hw : ∃ tail, Tree.writeAttribute (name, value) ++ inTag attributes rest =
        ' ' :: first :: tail := by
      unfold Tree.writeAttribute
      split <;> exact ⟨_, by simp [hfirst]; rfl⟩
    obtain ⟨tail, hw⟩ := hw
    have hs : skipBlank c.rest = first :: tail := by
      rw [hc, inTag_cons, hw, skipBlank, List.dropWhile_cons_of_pos (by decide)]
      exact skipBlank_cons hblank tail
    obtain ⟨start, c', hr, hc'⟩ := readAttribute_written (c := c.skipBlanks) value
      hname ht rest (by rw [rest_skipBlanks, hs, hw])
    have hd : ∀ other ∈ Keyed.names attributes, other ∉ Keyed.names (before ++ [(name, value)]) := by
      intro other ho hm
      rw [Keyed.names, List.map_append, List.mem_append] at hm
      rcases hm with hm | hm
      · exact hb other (List.mem_cons_of_mem _ ho) hm
      · obtain rfl : other = name := by simpa using hm
        exact hnodup.1 ho
    rw [readAttributes_attribute hs hgt hslash hr
      (attach_written hname hvalue (hb name List.mem_cons_self) path start c'.pos supply)]
    obtain ⟨pos, hp⟩ := readAttributes_written tag path supply _ ht hd hc'
    exact ⟨pos, by rw [hp, List.append_assoc, List.singleton_append]⟩

/-! ## Steps -/

/-- A state in which reading has come to `rest`. -/
def State.at (s : State) (pos : Nat) (rest : List Char) : State :=
  { s with cursor := ⟨pos, rest⟩ }

/-- A state in which trees are added to the innermost open element. -/
def State.adding (s : State) (ts : List Tree) : State :=
  { s with top := { s.top with done := ts.reverse ++ s.top.done } }

@[simp] theorem State.adding_nil (s : State) : s.adding [] = s := rfl

theorem State.adding_append (s : State) (ts us : List Tree) :
    s.adding (ts ++ us) = (s.adding ts).adding us := by
  simp [State.adding]

/-- A text is read up to where a tag begins or the source ends. -/
theorem step_text {s : State} {data : String} {rest : List Char}
    (hs : s.cursor.rest = escape .content data.toList ++ rest) (hd : data ≠ "")
    (hm : markerOpen ∉ data.toList) (hr : rest = [] ∨ startsTag rest = true) :
    ∃ pos, step s = .ok (.more ((s.adding [.node (.text data) []]).at pos rest)) := by
  cases he : escape .content data.toList with
  | nil => exact absurd (String.toList_eq_nil_iff.mp (escape_eq_nil.mp he)) hd
  | cons first more =>
    have hlt : '<' ∉ first :: more := he ▸ lt_not_mem_escape .content data.toList
    have hf : first ≠ '<' := fun h => hlt (h ▸ List.mem_cons_self)
    have hrun := textRun_append (fun h => hlt (List.mem_cons_of_mem first h)) hr
    have hstart : startsTag (first :: (more ++ rest)) = false := by
      unfold startsTag
      split
      · next h => exact absurd (List.cons.inj h).1 hf
      · rfl
    have hsegs : segments (first :: more) = .ok [.text (first :: more)] := by
      rw [segments_of_not_mem (he ▸ markerOpen_not_mem_escape hm)]
      rfl
    have hno : ∀ text, Cursor.afterText? ('<' :: text) (first :: (more ++ rest)) = none := by
      intro text
      simp [Cursor.afterText?, List.isPrefixOf, Ne.symm hf]
    have hdata : String.ofList (decode (first :: more)) = data := by
      rw [← he, decode_escape, String.ofList_toList]
    refine ⟨s.cursor.pos + byteCount (first :: more), ?_⟩
    rw [step, hs, he, List.cons_append]
    simp only [show "<!--".toList = '<' :: "!--".toList from rfl,
      show "</".toList = '<' :: "/".toList from rfl, hno, hstart, Bool.false_eq_true, if_false]
    rw [readText, hrun.1, hrun.2]
    simp only [hsegs, addText, hdata, Except.map]
    rfl

/-- A comment is read up to its end. -/
theorem step_comment {s : State} {data : String} {rest : List Char}
    (hs : s.cursor.rest = "<!--".toList ++ data.toList ++ "-->".toList ++ rest)
    (hd : ¬ "-->".toList <:+: data.toList) :
    ∃ pos, step s = .ok (.more ((s.adding [.node (.comment data) []]).at pos rest)) := by
  have hr : s.cursor.rest = '<' :: ("!--".toList ++ (data.toList ++ ("-->".toList ++ rest))) := by
    rw [hs]
    simp
  have ha : Cursor.afterText? "<!--".toList s.cursor.rest =
      some (data.toList ++ ("-->".toList ++ rest)) := by
    rw [hr]
    rfl
  refine ⟨s.cursor.pos + byteCount ("<!--".toList ++ data.toList ++ "-->".toList), ?_⟩
  rw [step, hr]
  rw [hr] at ha
  simp only [ha]
  rw [readComment, splitAtText?_append hd]
  simp only [String.ofList_toList]
  rfl

/-- A closing tag closes the innermost open element. -/
theorem step_closing {s : State} {tag : String} (rest : List Char) {parent : Level}
    {outer : List Level} (hs : s.cursor.rest = Tree.writeClosing tag ++ rest)
    (ht : Tree.IsTagName tag) (hk : s.top.content.kind = .element tag)
    (ho : s.outer = parent :: outer) :
    ∃ pos, step s =
      .ok (.more ⟨⟨pos, rest⟩, s.supply, parent.add s.top.close, outer⟩) := by
  have hr : s.cursor.rest = '<' :: '/' :: (tag.toList ++ '>' :: rest) := by
    rw [hs]
    simp [Tree.writeClosing]
  have hsplit : splitAt? '>' (tag.toList ++ '>' :: rest) = some (tag.toList, rest) :=
    splitAt?_eq_some_iff.mpr ⟨rfl, fun h => (isTagChar_of_small (small_of_mem ht h)).2.2.2 rfl⟩
  refine ⟨s.cursor.pos + byteCount ("</".toList ++ tag.toList ++ ['>']), ?_⟩
  have hno : Cursor.afterText? "<!--".toList ('<' :: '/' :: (tag.toList ++ '>' :: rest)) = none :=
    rfl
  have hyes : Cursor.afterText? "</".toList ('<' :: '/' :: (tag.toList ++ '>' :: rest)) =
      some (tag.toList ++ '>' :: rest) :=
    rfl
  rw [step, hr]
  simp only [hno, hyes]
  rw [readClosing, hsplit]
  simp only [trim_eq_self ht, map_toLower ht, String.ofList_toList, ho, hk, if_true]
  rfl

/-- The content of an element as it is written. -/
def openedContent (tag : String) (attributes : Keyed String) : Content :=
  { Content.element tag with attributes }

/-- An opening tag is read with its attributes. An element that may have children is opened, and
a void one is complete. -/
theorem step_opening {s : State} {tag : String} {attributes : Keyed String} {rest : List Char}
    (hs : s.cursor.rest = Tree.writeOpening tag attributes ++ rest) (ht : Tree.IsTagName tag)
    (ha : Tree.IsAttributes attributes) :
    ∃ pos, step s = .ok (.more (
      if isVoidTag tag then (s.adding [.node (openedContent tag attributes) []]).at pos rest
      else ⟨⟨pos, rest⟩, s.supply, ⟨openedContent tag attributes, s.top.nextPath, []⟩,
        s.top :: s.outer⟩)) := by
  have hr : s.cursor.rest = '<' :: (tag.toList ++ inTag attributes rest) := by
    rw [hs]
    simp [Tree.writeOpening, inTag]
  obtain ⟨first, more, hf, hlow, -⟩ := id ht
  have hname : first.isAlpha = true := by simp [Char.isAlpha, hlow]
  have hne : first ≠ '!' ∧ first ≠ '/' := by
    constructor <;> rintro rfl <;> revert hname <;> decide
  have hno : ∀ d text, first ≠ d → Cursor.afterText? ('<' :: d :: text)
      ('<' :: (tag.toList ++ inTag attributes rest)) = none := by
    intro d text hd
    simp [Cursor.afterText?, List.isPrefixOf, hf, Ne.symm hd]
  have hstart : startsTag ('<' :: (tag.toList ++ inTag attributes rest)) = true := by
    rw [hf]
    simp [startsTag, hname]
  obtain ⟨d, after, hd, hd'⟩ := inTag_eq_cons attributes rest
  have hdn : isTagChar d = false := by rcases hd' with rfl | rfl <;> decide
  obtain ⟨htake, hdrop⟩ := takeWhile_append_cons
    (fun c hc => (isTagChar_of_small (small_of_mem ht hc)).1) hdn (b := after)
  rw [← hd] at htake hdrop
  obtain ⟨pos, hattrs⟩ := readAttributes_written tag s.top.nextPath s.supply []
    (c := s.cursor.next.past tag.toList (inTag attributes rest)) ha (by simp [Keyed.names]) rfl
  refine ⟨pos, ?_⟩
  rw [step, hr]
  simp only [show "<!--".toList = '<' :: '!' :: "--".toList from rfl,
    show "</".toList = '<' :: '/' :: [] from rfl, hno _ _ hne.1, hno _ _ hne.2, hstart, if_true]
  have hnext : s.cursor.next.rest = tag.toList ++ inTag attributes rest := by
    rw [Cursor.next, hr]
    rfl
  rw [readOpening, Cursor.readWhile, hnext, htake, hdrop]
  simp only [map_toLower ht, String.ofList_toList, hattrs, Bool.false_or]
  split <;> rfl

/-! ## Trees -/

/-- Trees that do not begin with a text stand behind a text as they are. -/
theorem withText_cons {t : Tree} (h : t.content.kind ≠ .text) (data : String) (ts : List Tree) :
    Tree.withText data (t :: ts) = Tree.withText data [] ++ t :: ts := by
  obtain ⟨⟨kind, more, attributes, properties⟩, us⟩ := t
  unfold Tree.withText
  split
  · rfl
  · split
    · next he =>
      cases he
      exact absurd rfl h
    · rfl

/-- The text that is still to be read is read where a tag begins or the source ends. -/
theorem reads_text {s : State} {data : String} (rest : List Char)
    (hs : s.cursor.rest = escape .content data.toList ++ rest) (hm : markerOpen ∉ data.toList)
    (hr : rest = [] ∨ startsTag rest = true) :
    ∃ pos, Reads s ((s.adding (Tree.withText data [])).at pos rest) := by
  by_cases hd : data = ""
  · subst hd
    refine ⟨s.cursor.pos, ?_⟩
    have he : s = (s.adding (Tree.withText "" [])).at s.cursor.pos rest := by
      rw [show rest = s.cursor.rest by rw [hs]; rfl]
      rfl
    rw [← he]
  · obtain ⟨pos, h⟩ := step_text hs hd hm hr
    refine ⟨pos, .single ?_⟩
    simpa [Tree.withText, hd] using h

theorem kind_joined (t : Tree) : t.joined.content.kind = t.content.kind := by
  obtain ⟨⟨kind, data, attributes, properties⟩, ts⟩ := t
  cases kind <;> rw [Tree.joined] <;> rfl

theorem startsTag_writeElement {t : Tree} {tag : String} (hk : t.content.kind = .element tag)
    (ht : Tree.IsTagName tag) (rest : List Char) : startsTag (t.write ++ rest) = true := by
  obtain ⟨⟨kind, data, attributes, properties⟩, ts⟩ := t
  obtain rfl : kind = .element tag := hk
  obtain ⟨first, more, hf, hlow, -⟩ := ht
  have hw : ∃ tail, (Tree.node ⟨.element tag, data, attributes, properties⟩ ts).write =
      '<' :: first :: tail := by
    simp only [Tree.write, Tree.writeOpening, hf]
    split <;> exact ⟨_, rfl⟩
  obtain ⟨tail, hw⟩ := hw
  rw [hw]
  simp [startsTag, Char.isAlpha, hlow]

/-- A tag begins in front of whatever is not a text. -/
theorem startsTag_write {t : Tree} (h : t.Writable) (hk : t.content.kind ≠ .text)
    (rest : List Char) : startsTag (t.write ++ rest) = true := by
  obtain ⟨⟨kind, data, attributes, properties⟩, ts⟩ := t
  cases kind with
  | text => exact absurd rfl hk
  | comment => rfl
  | fragment => exact h.elim
  | element tag => exact startsTag_writeElement rfl h.1 rest

mutual

/-- **Reading a tree.** What is not a text is added as it was written. -/
theorem reads_tree : ∀ {t : Tree} {s : State} {rest : List Char}, t.Writable →
    t.content.kind ≠ .text → s.cursor.rest = t.write ++ rest →
    ∃ pos, Reads s ((s.adding [t.joined]).at pos rest)
  | .node ⟨kind, data, attributes, properties⟩ ts, s, rest, h, ht, hs => by
    cases kind with
    | text => exact absurd rfl ht
    | fragment => exact h.elim
    | comment =>
      obtain ⟨hd, rfl⟩ := h
      obtain ⟨pos, hstep⟩ := step_comment hs hd
      exact ⟨pos, .single hstep⟩
    | element tag =>
      obtain ⟨htag, hattrs, hvoid, hall⟩ := h
      by_cases hv : isVoidTag tag = true
      · obtain rfl := hvoid hv
        simp only [Tree.write, hv, if_true] at hs
        obtain ⟨pos, hstep⟩ := step_opening hs htag hattrs
        rw [if_pos hv] at hstep
        exact ⟨pos, .single hstep⟩
      · simp only [Tree.write, hv, Bool.false_eq_true, if_false, List.append_assoc] at hs
        obtain ⟨pos, hopen⟩ := step_opening hs htag hattrs
        rw [if_neg hv] at hopen
        let opened : State := ⟨⟨pos, Tree.writeAll ts ++ (Tree.writeClosing tag ++ rest)⟩, s.supply,
          ⟨openedContent tag attributes, s.top.nextPath, []⟩, s.top :: s.outer⟩
        obtain ⟨pos', hread⟩ := reads_all "" (s := opened) hall (by simp)
          (.inr ⟨_, rfl⟩) rfl
        obtain ⟨pos'', hclose⟩ := step_closing rest
          (s := (opened.adding (Tree.withText "" (Tree.joinedAll ts))).at pos' _) rfl htag rfl
          (show _ = s.top :: s.outer from rfl)
        refine ⟨pos'', .head hopen (hread.tail (hclose.trans ?_))⟩
        simp [opened, State.adding, State.at, Level.add, Level.close, Tree.withText, Tree.joined,
          openedContent, Content.written]

/-- **Reading trees.** Behind a text that is still to be read, trees are added joined with it,
wherever an end is in sight. -/
theorem reads_all : ∀ {ts : List Tree} {s : State} (data : String) {rest : List Char},
    Tree.WritableAll ts → markerOpen ∉ data.toList →
    (rest = [] ∨ ∃ more, rest = '<' :: '/' :: more) →
    s.cursor.rest = escape .content data.toList ++ Tree.writeAll ts ++ rest →
    ∃ pos, Reads s ((s.adding (Tree.withText data (Tree.joinedAll ts))).at pos rest)
  | [], s, data, rest, _, hm, hr, hs => by
    refine reads_text rest (by simpa [Tree.writeAll] using hs) hm (hr.imp_right ?_)
    rintro ⟨more, rfl⟩
    rfl
  | t :: ts, s, data, rest, h, hm, hr, hs => by
    obtain ⟨ht, hts⟩ := h
    by_cases hk : t.content.kind = .text
    · obtain ⟨⟨kind, more, attributes, properties⟩, us⟩ := t
      cases hk
      have hj : Tree.joinedAll (.node ⟨.text, more, attributes, properties⟩ us :: ts) =
          Tree.withText more (Tree.joinedAll ts) := by
        rw [Tree.joinedAll]
        rfl
      rw [hj, Tree.withText_withText]
      refine reads_all _ hts ?_ hr ?_
      · rw [String.toList_append, List.mem_append, not_or]
        exact ⟨hm, ht.1⟩
      · rw [hs, String.toList_append, escape_append, Tree.writeAll, Tree.write]
        simp
    · have hj : Tree.joinedAll (t :: ts) = t.joined :: Tree.joinedAll ts := by
        rw [Tree.joinedAll]
        split
        · next h => exact absurd h hk
        · rfl
      have hjk : t.joined.content.kind ≠ .text := by rwa [kind_joined]
      obtain ⟨pos, hpre⟩ := reads_text (s := s)
        (t.write ++ (Tree.writeAll ts ++ rest)) (by simpa [Tree.writeAll] using hs) hm
        (.inr (startsTag_write ht hk _))
      obtain ⟨pos', htree⟩ := reads_tree (s := State.at (State.adding s _) pos _) ht hk rfl
      obtain ⟨pos'', hrest⟩ := reads_all ""
        (s := State.at (State.adding (State.at (State.adding s _) _ _) _) pos' _) hts (by simp) hr rfl
      refine ⟨pos'', ?_⟩
      have hw : Tree.withText data (t.joined :: Tree.joinedAll ts) =
          Tree.withText data [] ++ ([t.joined] ++ Tree.withText "" (Tree.joinedAll ts)) :=
        withText_cons hjk data _
      rw [hj, hw, State.adding_append, State.adding_append]
      exact (hpre.trans htree).trans hrest

end

/-- **Compiling reads back what was written.** -/
theorem compile_html {t : Tree} (hk : t.content.kind = .fragment)
    (h : Tree.WritableAll t.children) :
    compile [t.html] [] = .ok ⟨Tree.joinedAll t.children, []⟩ := by
  obtain ⟨⟨kind, data, attributes, properties⟩, ts⟩ := t
  cases hk
  obtain ⟨pos, hreads⟩ := reads_all ""
    (s := initial (Tree.writeAll ts) []) h (by simp) (.inl rfl)
    (by simp [initial, Cursor.start, escape, Tree.children])
  have hw : (Tree.node ⟨.fragment, data, attributes, properties⟩ ts).write = Tree.writeAll ts := by
    rw [Tree.write]
  have hj : join 0 [String.ofList (Tree.writeAll ts)] [] = (Tree.writeAll ts, []) := by
    simp [join]
  rw [Tree.html, hw, compile, if_neg (by simp), hj]
  simp only
  rw [run_of_reads hreads, run]
  simp [step, State.at, State.adding, finish, initial, Tree.withText, Tree.children]

end Markup

end ReactiveViews
