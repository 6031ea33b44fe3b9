import Mathlib
import ReactiveViews.Proofs.Markup.Written
/-!
# Numbered sources

The source of a template is made of plain characters and of whole markers, which are numbered in the
order in which they stand (`Numbered`). Cutting a source before a character that no marker holds, or
behind a piece that no marker begins in, cuts no marker (`Numbered.split`). Every reader cuts in one of
these places, so what it takes is numbered and what it leaves is numbered from there on. What becomes of
an interpolation is therefore settled piece by piece: the markers of a piece are known by the numbers at
its two ends.

Splitting a piece into segments finds just its markers (`Numbered.segments`).
-/

namespace ReactiveViews

namespace Markup

open Text

/-- Whether a marker may hold a character behind its first one. -/
def isInMarker (c : Char) : Bool := c.isDigit || c == markerClose

/-- **Plain.** Text without any part of a marker that tells it from other text. -/
def Plain (cs : List Char) : Prop := ∀ c ∈ cs, c ≠ markerOpen ∧ c ≠ markerClose

instance (cs : List Char) : Decidable (Plain cs) :=
  List.decidableBAll (fun c => c ≠ markerOpen ∧ c ≠ markerClose) cs

/-- **Numbered.** Plain characters and whole markers, which count from the one number to the other. -/
inductive Numbered : Nat → Nat → List Char → Prop
  | nil (j : Nat) : Numbered j j []
  | char {j k : Nat} {c : Char} {cs : List Char} (hc : c ≠ markerOpen ∧ c ≠ markerClose)
    (h : Numbered j k cs) : Numbered j k (c :: cs)
  | marker {j k : Nat} {cs : List Char} (h : Numbered (j + 1) k cs) :
    Numbered j k (marker j ++ cs)

section Marker

variable {index : Nat} {c : Char}

theorem isDigit_of_mem_repr (h : c ∈ (Nat.repr index).toList) : c.isDigit = true := by
  rw [Nat.toList_repr] at h
  exact Nat.isDigit_of_mem_toDigits (by decide) (Nat.le_refl _) h

theorem markerClose_not_mem_repr : markerClose ∉ (Nat.repr index).toList :=
  fun h => absurd (isDigit_of_mem_repr h) (by decide)

theorem digitValue?_of_isDigit (h : c.isDigit = true) :
    digitValue? c = some (c.toNat - '0'.toNat) ∧ c.toNat - '0'.toNat < 10 := by
  have hrange : '0' ≤ c ∧ c ≤ '9' := by simpa [Char.isDigit, Char.le_def] using h
  refine ⟨by rw [digitValue?, if_pos hrange], ?_⟩
  have hle : c.toNat ≤ 57 := hrange.2
  exact Nat.lt_of_le_of_lt (Nat.sub_le_sub_right hle _) (by decide)

/-- Reading decimal digits is what the value of a list of digits is. -/
theorem readDigits_eq_ofDigitChars {digits : List Char} (h : ∀ d ∈ digits, d.isDigit = true)
    (acc : Nat) : readDigits 10 acc digits = some (Nat.ofDigitChars 10 digits acc) := by
  induction digits generalizing acc with
  | nil => rfl
  | cons d digits ih =>
    obtain ⟨hvalue, hlt⟩ := digitValue?_of_isDigit (h d List.mem_cons_self)
    rw [readDigits, hvalue]
    dsimp only
    rw [if_pos hlt, ih (fun d hd => h d (List.mem_cons_of_mem _ hd)), Nat.mul_comm]
    rfl

/-- A number that is read at all is read as it was written. -/
theorem eq_of_readIndex {n : Nat} (h : readIndex (Nat.repr index).toList = some n) : n = index := by
  have hdigit : ∀ d ∈ (Nat.repr index).toList, d.isDigit = true := fun d => isDigit_of_mem_repr
  have hread : (readDigits 10 0 (Nat.repr index).toList).filter (· < 0x10000000000000000) = some n := by
    unfold readIndex readNatural at h
    dsimp only at h
    split at h
    · -- No digit is a plus sign.
      next hplus => exact absurd (hdigit '+' (hplus ▸ List.mem_cons_self)) (by decide)
    · split at h
      · exact absurd h (by simp)
      · exact h
  rw [readDigits_eq_ofDigitChars hdigit, Nat.toList_repr,
    Nat.ofDigitChars_toDigits (by decide) (Nat.le_refl _)] at hread
  exact (Option.some.inj (Option.filter_eq_some_iff.mp hread).1).symm

/-- What stands in a marker behind its beginning. -/
theorem isInMarker_of_append {a b : List Char} (h : marker index = a ++ b) (ha : a ≠ []) (hc : c ∈ b) :
    isInMarker c = true := by
  obtain ⟨d, a, rfl⟩ := List.exists_cons_of_ne_nil ha
  have htail := (List.cons.inj h).2
  have hmem : c ∈ (Nat.repr index).toList ++ [markerClose] := htail ▸ List.mem_append_right _ hc
  rw [isInMarker, Bool.or_eq_true]
  rcases List.mem_append.mp hmem with hm | hm
  · exact .inl (isDigit_of_mem_repr hm)
  · exact .inr (beq_iff_eq.mpr (List.mem_singleton.mp hm))

end Marker

namespace Plain

variable {a : List Char}

theorem nil : Plain [] := nofun

theorem not_mem (h : Plain a) : markerOpen ∉ a := fun hm => (h _ hm).1 rfl

end Plain

namespace Numbered

variable {j k m : Nat} {a b cs : List Char}

theorem le (h : Numbered j k cs) : j ≤ k := by
  induction h with
  | nil => exact Nat.le_refl _
  | char _ _ ih => exact ih
  | marker _ ih => exact Nat.le_of_succ_le ih

theorem append (ha : Numbered j m a) (hb : Numbered m k b) : Numbered j k (a ++ b) := by
  induction ha with
  | nil => exact hb
  | char hc _ ih => exact .char hc (ih hb)
  | marker _ ih =>
    rw [List.append_assoc]
    exact .marker (ih hb)

theorem of_plain (h : Plain cs) (j : Nat) : Numbered j j cs := by
  induction cs with
  | nil => exact .nil j
  | cons c cs ih =>
    exact .char (h c List.mem_cons_self) (ih fun d hd => h d (List.mem_cons_of_mem _ hd))

/-- A piece in which no marker begins is plain. -/
theorem plain (h : Numbered j k cs) (hm : markerOpen ∉ cs) : j = k ∧ Plain cs := by
  induction h with
  | nil => exact ⟨rfl, .nil⟩
  | char hc _ ih =>
    obtain ⟨he, hp⟩ := ih (List.not_mem_of_not_mem_cons hm)
    refine ⟨he, fun d hd => ?_⟩
    rcases List.mem_cons.mp hd with rfl | hd
    · exact hc
    · exact hp d hd
  | marker => exact absurd (List.mem_append_left _ List.mem_cons_self) hm

/-- **A cut between markers** leaves both pieces numbered. -/
theorem split (h : Numbered j k (a ++ b))
    (hcut : markerOpen ∉ a ∨ ∀ c, b.head? = some c → isInMarker c = false) :
    ∃ m, Numbered j m a ∧ Numbered m k b := by
  generalize hw : a ++ b = whole at h
  induction h generalizing a with
  | nil j =>
    obtain ⟨rfl, rfl⟩ := List.append_eq_nil_iff.mp hw
    exact ⟨j, .nil j, .nil j⟩
  | @char j k c cs hc h ih =>
    rcases a with - | ⟨d, a⟩
    · obtain rfl : b = c :: cs := hw
      exact ⟨j, .nil j, .char hc h⟩
    · obtain ⟨rfl, htail⟩ := List.cons.inj hw
      obtain ⟨m, ha, hb⟩ := ih (hcut.imp_left List.not_mem_of_not_mem_cons) htail
      exact ⟨m, .char hc ha, hb⟩
  | @marker j k cs h ih =>
    rcases List.append_eq_append_iff.mp hw with ⟨x, hx, rfl⟩ | ⟨x, rfl, hx⟩
    · -- The cut is in the marker or at one of its ends.
      rcases a with - | ⟨d, a⟩
      · obtain rfl : Markup.marker j = x := hx
        exact ⟨j, .nil j, .marker h⟩
      · rcases x with - | ⟨c, x⟩
        · rw [List.append_nil] at hx
          exact ⟨j + 1, hx ▸ List.append_nil (Markup.marker j) ▸ .marker (.nil _), h⟩
        · have hin : isInMarker c = true := isInMarker_of_append hx (by simp) List.mem_cons_self
          rcases hcut with hcut | hcut
          · exact absurd ((List.cons.inj hx).1 ▸ List.mem_cons_self) hcut
          · exact absurd (hin.symm.trans (hcut c rfl)) (by simp)
    · obtain ⟨m, hx', hb⟩ := ih (hcut.imp_left fun ha hm => ha (List.mem_append_right _ hm)) hx.symm
      exact ⟨m, .marker hx', hb⟩

/-- What is cut off behind a plain piece is numbered as the whole was. -/
theorem split_plain (h : Numbered j k (a ++ b)) (ha : markerOpen ∉ a) :
    Plain a ∧ Numbered j k b := by
  obtain ⟨m, ha', hb⟩ := h.split (.inl ha)
  obtain ⟨rfl, hp⟩ := ha'.plain ha
  exact ⟨hp, hb⟩

/-- A piece that ends where a fixed text stands, which no marker holds. -/
theorem split_before {c : Char} {t : List Char} (h : Numbered j k (a ++ c :: t ++ b))
    (hc : isInMarker c = false) (hm : markerOpen ∉ c :: t) :
    ∃ m, Numbered j m a ∧ Numbered m k b := by
  rw [List.append_assoc] at h
  obtain ⟨m, ha, hb⟩ := h.split (.inr (by rintro _ ⟨⟩; exact hc))
  exact ⟨m, ha, (hb.split_plain hm).2⟩

/-- The first marker of a piece has the first number. -/
theorem first (h : Numbered j k cs) (hm : markerOpen ∈ cs) :
    ∃ before rest, Plain before ∧ cs = before ++ (Markup.marker j ++ rest) ∧
      Numbered (j + 1) k rest := by
  induction h with
  | nil => exact absurd hm List.not_mem_nil
  | @char j k c cs hc _ ih =>
    obtain ⟨before, rest, hp, he, hr⟩ := ih (List.mem_of_ne_of_mem hc.1.symm hm)
    refine ⟨c :: before, rest, fun d hd => ?_, congrArg (c :: ·) he, hr⟩
    rcases List.mem_cons.mp hd with rfl | hd
    · exact hc
    · exact hp d hd
  | @marker j k cs h => exact ⟨[], cs, .nil, rfl, h⟩

/-- A piece is plain if no number is between its ends. -/
theorem plain_of_eq (h : Numbered j j cs) : Plain cs := by
  refine (h.plain fun hm => ?_).2
  obtain ⟨_, _, _, _, hrest⟩ := h.first hm
  exact absurd hrest.le (Nat.not_succ_le_self j)

/-- Every marker of a piece is there whole. -/
theorem infix_marker (h : Numbered j k cs) {i : Nat} (hj : j ≤ i) (hk : i < k) :
    Markup.marker i <:+: cs := by
  induction h with
  | nil => exact absurd hk (Nat.not_lt.mpr hj)
  | char _ _ ih => exact (ih hj hk).trans (List.suffix_cons _ _).isInfix
  | @marker j k cs _ ih =>
    rcases Nat.eq_or_lt_of_le hj with rfl | hlt
    · exact (List.prefix_append _ _).isInfix
    · exact (ih hlt hk).trans (List.suffix_append _ _).isInfix

end Numbered

/-! ## Segments -/

/-- **Numbered segments.** Plain texts and markers that count from the one number to the other. -/
inductive Segmented : Nat → Nat → List Segment → Prop
  | nil (j : Nat) : Segmented j j []
  | text {j k : Nat} {cs : List Char} {found : List Segment} (hp : Plain cs)
    (h : Segmented j k found) : Segmented j k (.text cs :: found)
  | marker {j k : Nat} {found : List Segment} (h : Segmented (j + 1) k found) :
    Segmented j k (.marker j :: found)

theorem Segmented.le {j k : Nat} {found : List Segment} (h : Segmented j k found) : j ≤ k := by
  induction h with
  | nil => exact Nat.le_refl _
  | text _ _ ih => exact ih
  | marker _ ih => exact Nat.le_of_succ_le ih

/-- There is a marker if and only if a number is between the ends. -/
theorem Segmented.any_isMarker {j k : Nat} {found : List Segment} (h : Segmented j k found) :
    found.any Segment.isMarker = true ↔ j < k := by
  induction h with
  | nil => simp
  | text _ _ ih => simpa [Segment.isMarker] using ih
  | marker h _ => simpa [Segment.isMarker] using h.le

/-- One marker alone. -/
theorem Segmented.of_singleton {j k index : Nat} (h : Segmented j k [.marker index]) :
    index = j ∧ k = j + 1 := by
  cases h with
  | marker h =>
    cases h
    exact ⟨rfl, rfl⟩

/-- A text in front of segments. -/
theorem Segmented.textSegment {j k : Nat} {cs : List Char} {found : List Segment} (hp : Plain cs)
    (h : Segmented j k found) : Segmented j k (textSegment cs ++ found) := by
  unfold Markup.textSegment
  split
  · exact h
  · exact .text hp h

/-- **The segments of a numbered piece** are its texts and its markers. -/
theorem Numbered.segments {j k : Nat} {cs : List Char} {found : List Segment} (h : Numbered j k cs)
    (hs : segments cs = .ok found) : Segmented j k found := by
  induction hn : cs.length using Nat.strong_induction_on generalizing j cs found with
  | _ n ih =>
    by_cases hm : markerOpen ∈ cs
    · obtain ⟨before, rest, hp, rfl, hr⟩ := h.first hm
      have hopen : splitAt? markerOpen (before ++ (Markup.marker j ++ rest)) =
          some (before, (Nat.repr j).toList ++ markerClose :: rest) :=
        splitAt?_eq_some_iff.mpr ⟨by simp [Markup.marker], hp.not_mem⟩
      have hclose : splitAt? markerClose ((Nat.repr j).toList ++ markerClose :: rest) =
          some ((Nat.repr j).toList, rest) :=
        splitAt?_eq_some_iff.mpr ⟨rfl, markerClose_not_mem_repr⟩
      rw [Markup.segments] at hs
      split at hs
      · next hnone => exact absurd (hopen.symm.trans hnone) (by simp)
      · next before' after hsome =>
        obtain ⟨rfl, rfl⟩ := Prod.mk.inj (Option.some.inj (hopen.symm.trans hsome))
        split at hs
        · next hnone => exact absurd (hclose.symm.trans hnone) (by simp)
        · next number rest' hsome' =>
          obtain ⟨rfl, rfl⟩ := Prod.mk.inj (Option.some.inj (hclose.symm.trans hsome'))
          split at hs
          · exact absurd hs (by simp)
          · next index hindex =>
            obtain rfl := eq_of_readIndex hindex
            cases hothers : Markup.segments rest with
            | error e => simp [hothers, Except.map] at hs
            | ok others =>
              rw [hothers] at hs
              obtain rfl := Except.ok.inj hs
              have hlt : rest.length < n := by
                rw [← hn]
                simp [Markup.marker]
                omega
              exact .textSegment hp (.marker (ih _ hlt hr hothers rfl))
    · obtain ⟨rfl, hp⟩ := h.plain hm
      rw [segments_of_not_mem hm] at hs
      obtain rfl := Except.ok.inj hs
      exact List.append_nil (Markup.textSegment cs) ▸ .textSegment hp (.nil j)

/-! ## Readers -/

section Readers

variable {j n : Nat} {c c' : Cursor}

theorem isBlank_of_isInMarker {d : Char} (h : isInMarker d = true) : isBlank d = false := by
  rcases (Bool.or_eq_true _ _).mp h with h | h
  · exact (isTagChar_of_small (.inr (.inl h))).2.2.1
  · rw [beq_iff_eq.mp h]
    decide

/-- An attribute name may hold whatever a marker holds. -/
theorem isNameChar_of_isInMarker {d : Char} (h : isInMarker d = true) : isNameChar d = true := by
  have hne : ∀ e : Char, isInMarker e = false → (d != e) = true := fun e he =>
    bne_iff_ne.mpr fun hde => absurd (h.symm.trans (hde ▸ he)) (by simp)
  simp only [isNameChar, isBlank_of_isInMarker h, hne '=' (by decide), hne '>' (by decide),
    hne '/' (by decide), Bool.not_false, Bool.and_self]

/-- So may an attribute value without quotes. -/
theorem isBareValueChar_of_isInMarker {d : Char} (h : isInMarker d = true) :
    isBareValueChar d = true := by
  have hname := isNameChar_of_isInMarker h
  simp only [isNameChar, Bool.and_eq_true] at hname
  rw [isBareValueChar, Bool.and_eq_true]
  exact ⟨hname.1.1.1, hname.1.2⟩

/-- Reading while a condition holds that holds of whatever a marker holds cuts no marker. -/
theorem Numbered.readWhile {p : Char → Bool} (h : Numbered j n c.rest)
    (hp : ∀ d, isInMarker d = true → p d = true) :
    ∃ m, Numbered j m (c.readWhile p).1 ∧ Numbered m n (c.readWhile p).2.rest := by
  rw [← List.takeWhile_append_dropWhile (p := p) (l := c.rest)] at h
  refine h.split (.inr fun d hd => ?_)
  have hnot := List.head?_dropWhile_not p c.rest
  rw [hd] at hnot
  cases hin : isInMarker d with
  | false => rfl
  | true => exact absurd (hnot.symm.trans (hp d hin)) (by simp)

/-- So does reading while a condition holds that does not hold of the beginning of a marker. -/
theorem Numbered.readWhile_plain {p : Char → Bool} (h : Numbered j n c.rest)
    (hp : p markerOpen = false) :
    Plain (c.readWhile p).1 ∧ Numbered j n (c.readWhile p).2.rest := by
  rw [← List.takeWhile_append_dropWhile (p := p) (l := c.rest)] at h
  exact h.split_plain fun hm => absurd ((List.mem_takeWhile_imp hm).symm.trans hp) (by simp)

theorem Numbered.skipBlanks (h : Numbered j n c.rest) : Numbered j n c.skipBlanks.rest :=
  (h.readWhile_plain (by decide)).2

/-- A character that begins no marker is moved over. -/
theorem Numbered.next {d : Char} {rest : List Char} (h : Numbered j n c.rest)
    (hc : c.rest = d :: rest) (hd : d ≠ markerOpen) : Numbered j n c.next.rest := by
  have hnext : c.next.rest = rest := by
    rw [Cursor.next, hc]
    rfl
  rw [hc] at h
  rw [hnext]
  exact (split_plain (a := [d]) h fun hm => hd (List.mem_singleton.mp hm).symm).2

theorem Numbered.splitAt? {q : Char} {cs before after : List Char} (h : Numbered j n cs)
    (hq : isInMarker q = false ∧ q ≠ markerOpen) (hs : splitAt? q cs = some (before, after)) :
    ∃ m, Numbered j m before ∧ Numbered m n after := by
  rw [splitAt?_eq_some hs] at h
  exact split_before (t := []) (by simpa using h) hq.1 (by simpa using hq.2.symm)

theorem Numbered.readQuoted {q : Char} {value : List Char} (h : Numbered j n c.rest)
    (hq : isInMarker q = false ∧ q ≠ markerOpen) (hr : readQuoted q c = .ok (value, c')) :
    ∃ m, Numbered j m value ∧ Numbered m n c'.rest := by
  unfold Markup.readQuoted at hr
  split at hr
  · next before rest hs =>
    obtain ⟨rfl, rfl⟩ := Prod.mk.inj (Except.ok.inj hr)
    exact h.splitAt? hq hs
  · exact absurd hr (by simp)

theorem Numbered.readValue {value : List Char} (h : Numbered j n c.rest)
    (hr : readValue c = .ok (value, c')) : ∃ m, Numbered j m value ∧ Numbered m n c'.rest := by
  unfold Markup.readValue at hr
  split at hr
  · next hc => exact (h.next hc (by decide)).readQuoted (by decide) hr
  · next hc => exact (h.next hc (by decide)).readQuoted (by decide) hr
  · have hw := h.readWhile fun _ => isBareValueChar_of_isInMarker
    rw [Except.ok.inj hr] at hw
    exact hw

theorem Numbered.readOptionalValue {value : List Char} (h : Numbered j n c.rest)
    (hr : readOptionalValue c = .ok (value, c')) :
    ∃ m, Numbered j m value ∧ Numbered m n c'.rest := by
  unfold Markup.readOptionalValue at hr
  split at hr
  · next hc => exact (h.next hc (by decide)).skipBlanks.readValue hr
  · obtain ⟨rfl, rfl⟩ := Prod.mk.inj (Except.ok.inj hr)
    exact ⟨j, .nil j, h⟩

/-- Where no attribute begins no marker begins. -/
theorem Numbered.readAttribute_none (h : Numbered j n c.rest)
    (hr : readAttribute c = .ok (none, c')) : Numbered j n c'.rest := by
  unfold readAttribute Cursor.readWhile at hr
  dsimp only at hr
  split at hr
  · next hempty =>
    obtain rfl := (Prod.mk.inj (Except.ok.inj hr)).2
    cases hc : c.rest with
    | nil =>
      rw [Cursor.next, hc]
      exact h
    | cons d rest =>
      refine h.next hc ?_
      rintro rfl
      rw [hc, List.takeWhile_cons_of_pos (by decide)] at hempty
      exact absurd hempty (by simp)
  · split at hr
    · exact absurd hr (by simp)
    · exact absurd (Prod.mk.inj (Except.ok.inj hr)).1 (by simp)

/-- **An attribute takes whole markers**, first in its name and then in its value. -/
theorem Numbered.readAttribute {raw : RawAttribute} (h : Numbered j n c.rest)
    (hr : readAttribute c = .ok (some raw, c')) :
    ∃ m k, Numbered j m raw.name ∧ Numbered m k raw.value ∧ Numbered k n c'.rest := by
  obtain ⟨m, hname, hbehind⟩ := h.readWhile fun _ => isNameChar_of_isInMarker
  unfold Markup.readAttribute at hr
  dsimp only at hr
  split at hr
  · exact absurd (Prod.mk.inj (Except.ok.inj hr)).1 (by simp)
  · split at hr
    · exact absurd hr (by simp)
    · next value c₂ hv =>
      obtain ⟨hraw, rfl⟩ := Prod.mk.inj (Except.ok.inj hr)
      obtain rfl := Option.some.inj hraw
      obtain ⟨k, hvalue, hrest⟩ := hbehind.skipBlanks.readOptionalValue hv
      exact ⟨m, k, hname, hvalue, hrest⟩

end Readers

/-! ## The joined source -/

/-- What an insertion adds to the interpolations. -/
def Insertion.dynamic? : Insertion → Option Dynamic
  | markup _ => none
  | dynamic d => some d

/-- **The joined source is numbered**, if what it is joined of is plain. -/
theorem numbered_join {strings : List String} {insertions : List Insertion} (count : Nat)
    (hs : ∀ s ∈ strings, Plain s.toList) (hi : ∀ text, .markup text ∈ insertions → Plain text.toList) :
    Numbered count (count + (join count strings insertions).2.length)
      (join count strings insertions).1 := by
  induction strings generalizing count insertions with
  | nil => exact .nil count
  | cons literal strings ih =>
    have hliteral := Numbered.of_plain (hs literal List.mem_cons_self) count
    have hrest : ∀ s ∈ strings, Plain s.toList := fun s h => hs s (List.mem_cons_of_mem _ h)
    rcases insertions with - | ⟨⟨text⟩ | ⟨d⟩, insertions⟩
    · exact hliteral.append (ih count hrest hi)
    · have htext := Numbered.of_plain (hi text List.mem_cons_self) count
      exact (hliteral.append htext).append
        (ih count hrest fun text h => hi text (List.mem_cons_of_mem _ h))
    · have hmarker : Numbered count (count + 1) (marker count) :=
        List.append_nil (marker count) ▸ .marker (.nil _)
      have htail := @ih insertions (count + 1) hrest fun text h => hi text (List.mem_cons_of_mem _ h)
      rw [Nat.add_assoc, Nat.add_comm 1] at htail
      exact (hliteral.append hmarker).append htail

/-- The interpolations are numbered in the order in which they are inserted. -/
theorem join_dynamics {strings : List String} {insertions : List Insertion} (count : Nat)
    (h : insertions.length ≤ strings.length) :
    (join count strings insertions).2 = insertions.filterMap Insertion.dynamic? := by
  induction strings generalizing count insertions with
  | nil =>
    obtain rfl := List.length_eq_zero_iff.mp (Nat.le_zero.mp h)
    rfl
  | cons literal strings ih =>
    rcases insertions with - | ⟨⟨text⟩ | ⟨d⟩, insertions⟩
    · exact ih count (Nat.zero_le _)
    · exact ih count (Nat.le_of_succ_le_succ h)
    · exact congrArg (d :: ·) (ih (count + 1) (Nat.le_of_succ_le_succ h))

end Markup

end ReactiveViews
