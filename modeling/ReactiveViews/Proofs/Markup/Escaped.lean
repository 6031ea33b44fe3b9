import ReactiveViews.Text.Entity
/-!
# Escaped text

What is written escaped reads back as it was, and it holds none of the characters
that would end it: no `<` anywhere, and no quotation mark inside an attribute value.
No reference is written that stands for a private use character, so a text without
markers is written without markers.

The name of a reference reaches to the next `;`, however far off that is, so the end of
a text may be read together with what stands behind it: `&am` and `p;` decode to
themselves, and `&amp;` does not. A text is closed if each `&` in it has a `;` behind it
(`Closed`). Then the next `;` is the same whatever follows (`reference?_append`), so a
closed text is decoded on its own (`decode_append`). Put together, decoding undoes
escaping, and no character is read twice (`decoding_undoes_escaping`).
-/

namespace ReactiveViews.Text

theorem splitAt?_eq_none {c : Char} {text : List Char} (h : c ∉ text) :
    splitAt? c text = none := by
  cases hs : splitAt? c text with
  | none => rfl
  | some x =>
    obtain ⟨before, after⟩ := x
    rw [splitAt?_eq_some hs] at h
    exact absurd (List.mem_append_right before List.mem_cons_self) h

/-- What is behind the first occurrence of a character has no part in finding it. -/
theorem splitAt?_append {c : Char} {text : List Char} (h : c ∈ text) (b : List Char) :
    splitAt? c (text ++ b) = (splitAt? c text).map fun x => (x.1, x.2 ++ b) := by
  induction text with
  | nil => exact absurd h List.not_mem_nil
  | cons d rest ih =>
    by_cases hd : d = c
    · simp [splitAt?, hd]
    · have hr : c ∈ rest := (List.mem_cons.mp h).resolve_left (Ne.symm hd)
      simp [splitAt?, hd, ih hr, Function.comp_def]

theorem decode_cons {c : Char} (h : c ≠ '&') (rest : List Char) :
    decode (c :: rest) = c :: decode rest := by
  rw [decode, if_neg h]

/-- An `&` is decoded with the reference that it begins, or stands for itself. -/
theorem decode_ampersand (rest : List Char) :
    decode ('&' :: rest) =
      (reference? rest).elim ('&' :: decode rest) fun x => x.1 :: decode x.2 := by
  rw [decode, if_pos rfl]
  split
  · next h => rw [h, Option.elim_some]
  · next h => rw [h, Option.elim_none]

/-- A reference is decoded to the character it names. -/
theorem decode_reference {name : List Char} {c : Char} (hn : ';' ∉ name)
    (hc : referenced? name = some c) (rest : List Char) :
    decode ('&' :: (name ++ ';' :: rest)) = c :: decode rest := by
  have hr : reference? (name ++ ';' :: rest) = some (c, rest) :=
    reference?_eq_some_iff.mpr ⟨name, rfl, hn, hc⟩
  rw [decode_ampersand, hr, Option.elim_some]

/-- An `&` that no name follows stands for itself. -/
theorem decode_stray {rest : List Char}
    (h : ∀ name after, rest = name ++ ';' :: after → ';' ∉ name → referenced? name = none) :
    decode ('&' :: rest) = '&' :: decode rest := by
  cases hr : reference? rest with
  | none => rw [decode_ampersand, hr, Option.elim_none]
  | some x =>
    obtain ⟨name, ht, hn, hc⟩ := reference?_eq_some_iff.mp hr
    rw [h name x.2 ht hn] at hc
    cases hc

/-- The written form of a character is the character, or a reference to it. -/
theorem escapeAt_cases (place : Place) (c : Char) :
    (escapeAt place c = [c] ∧ c ≠ '&' ∧ c ≠ '<' ∧ ¬ (c = '"' ∧ place = .attributeValue)) ∨
      ∃ name, escapeAt place c = '&' :: (name ++ [';']) ∧ referenced? name = some c ∧
        ∀ d ∈ name, d.isLower := by
  unfold escapeAt
  split
  · next h => exact .inr ⟨"amp".toList, rfl, by rw [beq_iff_eq.mp h]; rfl, List.all_eq_true.mp rfl⟩
  · next ha =>
    split
    · next h => exact .inr ⟨"lt".toList, rfl, by rw [beq_iff_eq.mp h]; rfl, List.all_eq_true.mp rfl⟩
    · next hl =>
      split
      · next h => exact .inr ⟨"gt".toList, rfl, by rw [beq_iff_eq.mp h]; rfl, List.all_eq_true.mp rfl⟩
      · split
        · next h =>
          simp only [Bool.and_eq_true, beq_iff_eq] at h
          exact .inr ⟨"quot".toList, rfl, by rw [h.1]; rfl, List.all_eq_true.mp rfl⟩
        · next hq => exact .inl ⟨rfl, by simpa using ha, by simpa using hl, by simpa using hq⟩

theorem escape_cons (place : Place) (c : Char) (text : List Char) :
    escape place (c :: text) = escapeAt place c ++ escape place text :=
  rfl

theorem escape_append (place : Place) (a b : List Char) :
    escape place (a ++ b) = escape place a ++ escape place b :=
  List.flatMap_append

/-- **Decoding reads back what was escaped**, whatever stands behind it. -/
theorem decode_escape_append (place : Place) (text rest : List Char) :
    decode (escape place text ++ rest) = text ++ decode rest := by
  induction text with
  | nil => rfl
  | cons c text ih =>
    rw [escape_cons, List.append_assoc, List.cons_append]
    obtain ⟨h, ha, -⟩ | ⟨name, h, hc, hl⟩ := escapeAt_cases place c
    · rw [h, List.singleton_append, decode_cons ha, ih]
    · have hn : ';' ∉ name := fun hm => absurd (hl _ hm) (by decide)
      rw [h, List.cons_append, List.append_assoc, List.singleton_append,
        decode_reference hn hc, ih]

theorem decode_escape (place : Place) (text : List Char) :
    decode (escape place text) = text := by
  have h := decode_escape_append place text []
  rwa [decode, List.append_nil, List.append_nil] at h

/-- A character in escaped text is in the text, unless it is part of a reference. -/
theorem mem_escape {place : Place} {d : Char} {text : List Char} (h : d ∈ escape place text)
    (hd : d ≠ '&' ∧ d ≠ ';' ∧ d.isLower = false) :
    d ∈ text ∧ d ≠ '<' ∧ ¬ (d = '"' ∧ place = .attributeValue) := by
  obtain ⟨c, hc, hm⟩ := List.mem_flatMap.mp h
  obtain ⟨he, -, hl, hq⟩ | ⟨name, he, -, hlow⟩ := escapeAt_cases place c
  · rw [he, List.mem_singleton] at hm
    rw [hm]
    exact ⟨hc, hl, hq⟩
  · rw [he, List.mem_cons, List.mem_append, List.mem_singleton] at hm
    rcases hm with hm | hm | hm
    · exact absurd hm hd.1
    · exact absurd (hlow d hm) (by simp [hd.2.2])
    · exact absurd hm hd.2.1

/-- No tag begins in escaped text. -/
theorem lt_not_mem_escape (place : Place) (text : List Char) : '<' ∉ escape place text :=
  fun h => (mem_escape h (by decide)).2.1 rfl

/-- No escaped attribute value ends before its end. -/
theorem quote_not_mem_escape (text : List Char) : '"' ∉ escape .attributeValue text :=
  fun h => (mem_escape h (by decide)).2.2 ⟨rfl, rfl⟩

/-- Escaped text is empty if and only if the text is. -/
theorem escape_eq_nil {place : Place} {text : List Char} : escape place text = [] ↔ text = [] := by
  constructor
  · intro h
    rw [← decode_escape place text, h, decode]
  · rintro rfl
    rfl

/-- **Mentioning.** A character is in a text, or a reference to it is. -/
def Mentions (text : List Char) (c : Char) : Prop :=
  c ∈ text ∨ ∃ name, '&' :: (name ++ [';']) <:+: text ∧ referenced? name = some c

theorem Mentions.mono {a b : List Char} {c : Char} (h : Mentions a c) (hab : a <:+: b) :
    Mentions b c :=
  h.imp (fun hm => hab.subset hm) fun ⟨name, hi, hc⟩ => ⟨name, hi.trans hab, hc⟩

/-- What is in a decoded text was mentioned in it. -/
theorem mentions_of_mem_decode {text : List Char} {c : Char} (h : c ∈ decode text) :
    Mentions text c := by
  fun_induction decode text with
  | case1 => exact .inl h
  | case2 rest d after hr ih =>
    obtain ⟨name, rfl, -, hd⟩ := reference?_eq_some_iff.mp hr
    rcases List.mem_cons.mp h with rfl | h
    · exact .inr ⟨name, ⟨[], after, by simp⟩, hd⟩
    · exact (ih h).mono ⟨'&' :: (name ++ [';']), [], by simp⟩
  | case3 rest _ ih =>
    rcases List.mem_cons.mp h with rfl | h
    · exact .inl (List.mem_cons_self ..)
    · exact (ih h).mono (List.suffix_cons _ _).isInfix
  | case4 d rest _ ih =>
    rcases List.mem_cons.mp h with rfl | h
    · exact .inl (List.mem_cons_self ..)
    · exact (ih h).mono (List.suffix_cons _ _).isInfix

theorem decode_ne_nil {text : List Char} (h : text ≠ []) : decode text ≠ [] := by
  fun_cases decode text with
  | case1 => exact absurd rfl h
  | _ => exact List.cons_ne_nil _ _

/-! ## Decoding in parts -/

/-- **Closed text.** Each `&` in it has a `;` behind it. -/
def Closed : List Char → Prop
  | [] => True
  | c :: rest => (c = '&' → ';' ∈ rest) ∧ Closed rest

instance decidableClosed : (text : List Char) → Decidable (Closed text)
  | [] => inferInstanceAs (Decidable True)
  | c :: rest =>
    have := decidableClosed rest
    inferInstanceAs (Decidable ((c = '&' → ';' ∈ rest) ∧ Closed rest))

theorem Closed.of_append {a b : List Char} (h : Closed (a ++ b)) : Closed b := by
  induction a with
  | nil => exact h
  | cons c a ih => exact ih h.2

/-- Up to the first `;` it is settled which reference a text begins with, if any. -/
theorem reference?_append {text : List Char} (h : ';' ∈ text) (b : List Char) :
    reference? (text ++ b) = (reference? text).map fun x => (x.1, x.2 ++ b) := by
  rw [reference?, reference?, splitAt?_append h]
  cases splitAt? ';' text with
  | none => rfl
  | some x => simp [Function.comp_def]

/-- **A closed text is decoded on its own**, whatever stands behind it. -/
theorem decode_append {a : List Char} (h : Closed a) (b : List Char) :
    decode (a ++ b) = decode a ++ decode b := by
  fun_induction decode a with
  | case1 => rfl
  | case2 rest c after hr ih =>
    -- the text goes on behind the reference, and that part of it is closed as well
    obtain ⟨name, hrest, -, -⟩ := reference?_eq_some_iff.mp hr
    have hclosed : Closed (name ++ ';' :: after) := hrest ▸ h.2
    rw [List.cons_append, decode_ampersand, reference?_append (h.1 rfl), hr, Option.map_some,
      Option.elim_some, ih hclosed.of_append.2, List.cons_append]
  | case3 rest hr ih =>
    rw [List.cons_append, decode_ampersand, reference?_append (h.1 rfl), hr, Option.map_none,
      Option.elim_none, ih h.2, List.cons_append]
  | case4 c rest hc ih => rw [List.cons_append, decode_cons hc, ih h.2, List.cons_append]

/-- Text without `&` is passed over, whatever stands behind it. -/
theorem decode_append_of_not_mem {a : List Char} (h : '&' ∉ a) (b : List Char) :
    decode (a ++ b) = a ++ decode b := by
  induction a with
  | nil => rfl
  | cons c a ih =>
    have hc : c ≠ '&' := fun hc => h (hc ▸ List.mem_cons_self)
    have ha : '&' ∉ a := fun ha => h (List.mem_cons_of_mem _ ha)
    rw [List.cons_append, decode_cons hc, ih ha, List.cons_append]

/-- **Decoding undoes escaping, and each character is read once.** Escaped text decodes to the text at
either place, and so it does in front of anything else. A closed text is decoded on its own, and text
without `&` is left as it is. What a reference stands for is not read again, be it an `&`, and an `&`
that no name follows stands for itself: neither has a part in how the text behind it is decoded. -/
theorem decoding_undoes_escaping (place : Place) (text : List Char) :
    decode (escape place text) = text ∧
      (∀ b, decode (escape place text ++ b) = text ++ decode b) ∧
      (∀ a b, Closed a → decode (a ++ b) = decode a ++ decode b) ∧
      (∀ a b, '&' ∉ a → decode (a ++ b) = a ++ decode b) ∧
      (∀ name c b, ';' ∉ name → referenced? name = some c →
        decode ('&' :: (name ++ ';' :: b)) = c :: decode b) ∧
      (∀ b, decode ("&amp;".toList ++ b) = "&".toList ++ decode b) ∧
      ∀ b, (∀ name after, b = name ++ ';' :: after → ';' ∉ name → referenced? name = none) →
        decode ('&' :: b) = '&' :: decode b := by
  have hampersand (b : List Char) : decode ("&amp;".toList ++ b) = "&".toList ++ decode b :=
    @decode_reference "amp".toList '&' (by decide) rfl b
  exact ⟨decode_escape place text, decode_escape_append place text, fun _ b h => decode_append h b,
    fun _ b h => decode_append_of_not_mem h b, fun _ _ b hn hc => decode_reference hn hc b, hampersand,
    fun _ h => decode_stray h⟩

/-- The `&` between two words stays although a `;` is behind it, and the `&` that is written as a
reference does not begin one with the letters behind it. -/
theorem fish_and_chips :
    '&' ∉ "Fish ".toList ∧ Closed "& chips; ".toList ∧
      (∀ name after, " chips; ".toList = name ++ ';' :: after → ';' ∉ name → referenced? name = none) ∧
      ';' ∉ "#x26".toList ∧ referenced? "#x26".toList = some '&' ∧
      decode "Fish & chips; &#x26;lt;".toList = "Fish & chips; &lt;".toList := by
  have hplain : '&' ∉ "Fish ".toList := by decide
  have hclosed : Closed "& chips; ".toList := by decide
  have hstray (name after : List Char) (ht : " chips; ".toList = name ++ ';' :: after)
      (hn : ';' ∉ name) : referenced? name = none := by
    have hsplit : splitAt? ';' " chips; ".toList = some (name, after) :=
      splitAt?_eq_some_iff.mpr ⟨ht, hn⟩
    obtain ⟨rfl, -⟩ := Prod.mk.inj (Option.some.inj hsplit)
    decide
  have hname : ';' ∉ "#x26".toList := by decide
  have hreferenced : referenced? "#x26".toList = some '&' := by decide
  refine ⟨hplain, hclosed, hstray, hname, hreferenced, ?_⟩
  obtain ⟨-, -, closed, plain, reference, -, stray⟩ := decoding_undoes_escaping .content []
  have hchips : decode "& chips; ".toList = "& chips; ".toList := by
    calc decode ('&' :: " chips; ".toList)
        = '&' :: decode (" chips; ".toList ++ []) := stray _ hstray
      _ = '&' :: (" chips; ".toList ++ decode []) := by rw [plain _ [] (by decide)]
      _ = "& chips; ".toList := by rw [decode]; rfl
  have hlt : decode "lt;".toList = "lt;".toList := by
    calc decode ("lt;".toList ++ []) = "lt;".toList ++ decode [] := plain _ _ (by decide)
      _ = "lt;".toList := by rw [decode]; rfl
  calc decode ("Fish ".toList ++ ("& chips; ".toList ++ '&' :: ("#x26".toList ++ ';' :: "lt;".toList)))
      = "Fish ".toList ++ decode ("& chips; ".toList ++ '&' :: ("#x26".toList ++ ';' :: "lt;".toList)) :=
        plain _ _ hplain
    _ = "Fish ".toList ++ ("& chips; ".toList ++ '&' :: decode "lt;".toList) := by
        rw [closed _ _ hclosed, hchips, reference _ _ _ hname hreferenced]
    _ = "Fish & chips; &lt;".toList := by rw [hlt]; rfl

end ReactiveViews.Text
