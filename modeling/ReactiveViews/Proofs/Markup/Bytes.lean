import Mathlib.Data.List.Basic
import ReactiveViews.Markup.Compile
/-!
# Slicing at byte positions

A cursor has the characters ahead of it at hand. A reader that only knows how many bytes lie behind it cuts the
source at that position whenever it looks ahead, finds out at which byte what it looks for begins, and adds up
numbers of bytes. It can go wrong where a cursor cannot: a source cannot be cut inside a character, nor behind its
end (`cutAt?`).

This module reads what is inside a tag in this way. Wherever a cursor can get to in a source, each reader by bytes
finds what the reader with the cursor finds, and every cut is made where a character begins
(`readAttributeAt_eq`, `segmentsAt_eq`). Where a position is moved on by a fixed number of bytes, the characters passed
over take one byte each, among them one that is passed over whatever it is: it is no blank and
cannot be in a name, so it is one of three (`utf8Size_of_stray`).
-/

namespace ReactiveViews.Markup

/-! ## Cutting -/

/-- **Cuts a text** at a byte position. Inside a character and behind the end it cannot be cut. -/
def cutAt? : List Char → Nat → Option (List Char × List Char)
  | cs, 0 => some ([], cs)
  | [], _ + 1 => none
  | c :: cs, n + 1 =>
    if c.utf8Size ≤ n + 1 then
      (cutAt? cs (n + 1 - c.utf8Size)).map fun (before, after) => (c :: before, after)
    else none

/-- What is behind a byte position. -/
def restAt? (source : List Char) (pos : Nat) : Option (List Char) := (cutAt? source pos).map Prod.snd

/-- What is before a byte position. -/
def textAt? (source : List Char) (pos : Nat) : Option (List Char) := (cutAt? source pos).map Prod.fst

/-- How many bytes are before the first character of some kind. -/
def offset? (p : Char → Bool) : List Char → Option Nat
  | [] => none
  | c :: cs => if p c then some 0 else (offset? p cs).map (c.utf8Size + ·)

/-- How many bytes are before the first occurrence of a text. -/
def textOffset? (text : List Char) : List Char → Option Nat
  | [] => if text.isEmpty then some 0 else none
  | c :: cs =>
    if text.isPrefixOf (c :: cs) then some 0 else (textOffset? text cs).map (c.utf8Size + ·)

/-- How many bytes are before the next place where a tag begins. -/
def tagOffset? : List Char → Option Nat
  | [] => none
  | c :: cs => if startsTag (c :: cs) then some 0 else (tagOffset? cs).map (c.utf8Size + ·)

section Cutting

variable {source cs before after : List Char} {c c' : Cursor} {n : Nat}

theorem cutAt?_append (before after : List Char) :
    cutAt? (before ++ after) (byteCount before) = some (before, after) := by
  induction before with
  | nil => simp [cutAt?]
  | cons c before ih =>
    have hc := c.utf8Size_pos
    obtain ⟨n, hn⟩ : ∃ n, byteCount (c :: before) = n + 1 :=
      Nat.exists_eq_succ_of_ne_zero (by rw [byteCount_cons]; omega)
    have hrest : n + 1 - c.utf8Size = byteCount before := by
      rw [byteCount_cons] at hn
      omega
    rw [hn, List.cons_append, cutAt?, if_pos (by rw [byteCount_cons] at hn; omega), hrest, ih]
    rfl

/-- **A text is cut** into two parts, of which the first has as many bytes as were asked for. -/
theorem cutAt?_eq_some : cutAt? cs n = some (before, after) ↔ cs = before ++ after ∧ n = byteCount before := by
  refine ⟨fun h => ?_, fun ⟨hcs, hn⟩ => hcs ▸ hn ▸ cutAt?_append before after⟩
  fun_induction cutAt? cs n generalizing before with
  | case1 cs =>
    obtain ⟨rfl, rfl⟩ := Prod.mk.inj (Option.some.inj h)
    exact ⟨rfl, rfl⟩
  | case2 => exact absurd h nofun
  | case3 c cs n hle ih =>
    obtain ⟨⟨b, a⟩, hcut, he⟩ := Option.map_eq_some_iff.mp h
    obtain ⟨rfl, rfl⟩ := Prod.mk.inj he
    obtain ⟨rfl, hn⟩ := ih hcut
    exact ⟨rfl, by rw [byteCount_cons]; omega⟩
  | case4 => exact absurd h nofun

theorem textAt?_append (before after : List Char) : textAt? (before ++ after) (byteCount before) = some before := by
  rw [textAt?, cutAt?_append]
  rfl

theorem restAt?_append (before after : List Char) : restAt? (before ++ after) (byteCount before) = some after := by
  rw [restAt?, cutAt?_append]
  rfl

/-- **Where a cursor can be**, there is what it has ahead of it. -/
theorem restAt?_eq_some : restAt? source n = some cs ↔ Cursor.Within ⟨n, cs⟩ (.start source) := by
  rw [restAt?, Option.map_eq_some_iff]
  constructor
  · rintro ⟨⟨before, after⟩, h, rfl⟩
    obtain ⟨hs, hn⟩ := cutAt?_eq_some.mp h
    exact ⟨before, hs, by simp [Cursor.start, hn]⟩
  · rintro ⟨before, hs, hn⟩
    exact ⟨(before, cs), cutAt?_eq_some.mpr ⟨hs, by simpa [Cursor.start] using hn⟩, rfl⟩

theorem restAt?_pos (h : c.Within (.start source)) : restAt? source c.pos = some c.rest :=
  restAt?_eq_some.mpr h

/-- The bytes of characters are those of the text they make up. -/
theorem byteCount_toList (s : String) : byteCount s.toList = s.utf8ByteSize := by
  have hlist : ∀ cs : List Char, byteCount cs = (String.ofList cs).utf8ByteSize := by
    intro cs
    induction cs with
    | nil => rfl
    | cons c cs ih =>
      rw [byteCount_cons, ih, ← List.singleton_append, String.ofList_append, String.utf8ByteSize_append]
      simp
  rw [hlist, String.ofList_toList]

/-- **A text can be cut where a character of it begins**, and at its end. -/
theorem isSome_restAt? {s : String} : (restAt? s.toList n).isSome ↔ String.Pos.Raw.IsValid s ⟨n⟩ := by
  rw [String.Pos.Raw.isValid_iff_exists_append, Option.isSome_iff_exists]
  constructor
  · rintro ⟨cs, h⟩
    obtain ⟨before, hs, hn⟩ := restAt?_eq_some.mp h
    refine ⟨String.ofList before, String.ofList cs, ?_, ?_⟩
    · rw [← String.ofList_append, ← hs, Cursor.start, String.ofList_toList]
    · rw [String.rawEndPos, ← byteCount_toList, String.toList_ofList]
      simpa [Cursor.start] using hn
  · rintro ⟨before, after, rfl, hn⟩
    refine ⟨after.toList, ?_⟩
    have hn' : n = byteCount before.toList := by
      rw [byteCount_toList]
      exact congrArg String.Pos.Raw.byteIdx hn
    rw [String.toList_append, hn', restAt?_append]

/-! ## Finding -/

theorem offset?_getD (p : Char → Bool) (cs : List Char) :
    (offset? (fun c => !p c) cs).getD (byteCount cs) = byteCount (cs.takeWhile p) := by
  induction cs with
  | nil => rfl
  | cons c cs ih =>
    rw [offset?]
    cases hp : p c with
    | false => simp [hp]
    | true =>
      rw [List.takeWhile_cons_of_pos hp, byteCount_cons, byteCount_cons, ← ih]
      cases offset? (fun c => !p c) cs <;> rfl

theorem offset?_eq (quote : Char) (cs : List Char) :
    offset? (· == quote) cs = (Text.splitAt? quote cs).map fun parts => byteCount parts.1 := by
  induction cs with
  | nil => rfl
  | cons c cs ih =>
    rw [offset?, Text.splitAt?]
    split
    · rfl
    · rw [ih, Option.map_map, Option.map_map]
      rfl

theorem textOffset?_eq (text cs : List Char) :
    textOffset? text cs = (Cursor.splitAtText? text cs).map fun parts => byteCount parts.1 := by
  induction cs with
  | nil =>
    rw [textOffset?, Cursor.splitAtText?]
    split <;> rfl
  | cons c cs ih =>
    rw [textOffset?, Cursor.splitAtText?, Cursor.afterText?]
    split
    · rfl
    · rw [ih, Option.map_map, Option.map_map]
      rfl

theorem tagOffset?_getD (cs : List Char) : (tagOffset? cs).getD (byteCount cs) = byteCount (textRun cs) := by
  induction cs with
  | nil => rfl
  | cons c cs ih =>
    rw [tagOffset?, textRun]
    split
    · rfl
    · rw [byteCount_cons, byteCount_cons, ← ih]
      cases tagOffset? cs <;> rfl

/-- What is before the first occurrence of a character and what is behind it, if there is one. -/
def cutAround? (quote : Char) (cs : List Char) : Option (Option (List Char × List Char)) :=
  match offset? (· == quote) cs with
  | none => some none
  | some length => do
    let before ← textAt? cs length
    let after ← restAt? cs (length + quote.utf8Size)
    return some (before, after)

/-- A text is cut in front of a character that is found in it. -/
theorem cut_of_splitAt? {quote : Char} (h : Text.splitAt? quote cs = some (before, after)) :
    offset? (· == quote) cs = some (byteCount before) ∧ textAt? cs (byteCount before) = some before := by
  refine ⟨by rw [offset?_eq, h]; rfl, ?_⟩
  rw [Text.splitAt?_eq_some h, textAt?_append]

/-- **A text is cut around a character** that is found in it. -/
theorem cutAround?_eq (quote : Char) (cs : List Char) : cutAround? quote cs = some (Text.splitAt? quote cs) := by
  unfold cutAround?
  cases hs : Text.splitAt? quote cs with
  | none =>
    rw [offset?_eq, hs]
    rfl
  | some parts =>
    obtain ⟨before, after⟩ := parts
    obtain ⟨hoffset, hbefore⟩ := cut_of_splitAt? hs
    have hafter : restAt? cs (byteCount before + quote.utf8Size) = some after := by
      have hbytes : byteCount before + quote.utf8Size = byteCount (before ++ [quote]) := by simp
      rw [Text.splitAt?_eq_some hs, ← List.singleton_append, ← List.append_assoc, hbytes, restAt?_append]
    rw [hoffset]
    simp only [hbefore, hafter]
    rfl

theorem length_lt_of_cutAround? {quote : Char} (h : cutAround? quote cs = some (some (before, after))) :
    after.length < cs.length := by
  rw [cutAround?_eq] at h
  rw [Text.splitAt?_eq_some (Option.some.inj h), List.length_append, List.length_cons]
  omega

end Cutting

/-! ## Markers -/

/-- **Segments**, by bytes. -/
def segmentsAt? (source : List Char) : Option (Except Error (List Segment)) :=
  match _h : cutAround? markerOpen source with
  | none => none
  | some none => some (.ok (textSegment source))
  | some (some (before, after)) =>
    match _h' : cutAround? markerClose after with
    | none => none
    | some none => some (.error (.markup 0 "corrupt interpolation marker"))
    | some (some (number, rest)) =>
      match Text.readIndex number with
      | none => some (.error (.markup 0 "corrupt interpolation marker"))
      | some index =>
        (segmentsAt? rest).map fun found =>
          found.map fun others => textSegment before ++ .marker index :: others
termination_by source.length
decreasing_by exact Nat.lt_trans (length_lt_of_cutAround? _h') (length_lt_of_cutAround? _h)

/-- Text is cut around markers as it is split there. -/
theorem segmentsAt?_of_splitAt? (source : List Char) : segmentsAt? source =
    match Text.splitAt? markerOpen source with
    | none => some (.ok (textSegment source))
    | some (before, after) =>
      match Text.splitAt? markerClose after with
      | none => some (.error (.markup 0 "corrupt interpolation marker"))
      | some (number, rest) =>
        match Text.readIndex number with
        | none => some (.error (.markup 0 "corrupt interpolation marker"))
        | some index =>
          (segmentsAt? rest).map fun found =>
            found.map fun others => textSegment before ++ .marker index :: others := by
  have hcut {quote : Char} {cs : List Char} {parts : Option (List Char × List Char)}
      (h : cutAround? quote cs = some parts) : Text.splitAt? quote cs = parts :=
    Option.some.inj ((cutAround?_eq quote cs).symm.trans h)
  rw [segmentsAt?]
  split
  · next h => exact absurd ((cutAround?_eq markerOpen source).symm.trans h) nofun
  · next h => rw [hcut h]
  · next before after h =>
    rw [hcut h]
    dsimp only
    split
    · next h' => exact absurd ((cutAround?_eq markerClose after).symm.trans h') nofun
    · next h' => rw [hcut h']
    · next number rest h' => rw [hcut h']

/-- **A text is split at markers** by cutting it where characters begin. -/
theorem segmentsAt?_eq (source : List Char) : segmentsAt? source = some (segments source) := by
  fun_induction segments source with
  | case1 source h => rw [segmentsAt?_of_splitAt?, h]
  | case2 source before after h h' => simp only [segmentsAt?_of_splitAt? source, h, h']
  | case3 source before after h number rest h' hn => simp only [segmentsAt?_of_splitAt? source, h, h', hn]
  | case4 source before after h number rest h' index hn ih =>
    simp only [segmentsAt?_of_splitAt? source, h, h', hn, ih, Option.map_some]

/-! ## Inside a tag -/

section Readers

variable {α : Type} {source : List Char} {c : Cursor}

/-- What is read, and at which byte reading stands then. -/
def positions (r : Except Error (α × Cursor)) : Except Error (α × Nat) := r.map fun (a, c) => (a, c.pos)

/-- Takes characters while they satisfy `p`. -/
def readWhileAt? (source : List Char) (pos : Nat) (p : Char → Bool) : Option (List Char × Nat) := do
  let rest ← restAt? source pos
  let length := (offset? (fun c => !p c) rest).getD (byteCount rest)
  let text ← textAt? rest length
  return (text, pos + length)

/-- Moves over blanks: to where as many bytes are left as behind them. -/
def skipBlanksAt? (source : List Char) (pos : Nat) : Option Nat := do
  let rest ← restAt? source pos
  return byteCount source - byteCount (Text.skipBlank rest)

/-- Reads what is behind an opening quote up to the closing one, which takes one byte. -/
def readQuotedAt? (quote : Char) (source : List Char) (pos : Nat) : Option (Except Error (List Char × Nat)) := do
  let body ← restAt? source pos
  match offset? (· == quote) body with
  | none => return .error (.markup pos "unterminated attribute value")
  | some length =>
    let value ← textAt? body length
    return .ok (value, pos + (length + 1))

/-- Reads an attribute value in double quotes, single quotes or none. -/
def readValueAt? (source : List Char) (pos : Nat) : Option (Except Error (List Char × Nat)) := do
  let rest ← restAt? source pos
  match rest with
  | '"' :: _ => readQuotedAt? '"' source (pos + 1)
  | '\'' :: _ => readQuotedAt? '\'' source (pos + 1)
  | _ =>
    let read ← readWhileAt? source pos isBareValueChar
    return .ok read

/-- Reads an attribute value if an equals sign comes first. -/
def readOptionalValueAt? (source : List Char) (pos : Nat) : Option (Except Error (List Char × Nat)) := do
  let rest ← restAt? source pos
  match rest with
  | '=' :: _ =>
    let pos ← skipBlanksAt? source (pos + 1)
    readValueAt? source pos
  | _ => return .ok ([], pos)

/-- **One attribute**, by bytes. A character that begins no name is skipped as one byte. -/
def readAttributeAt? (source : List Char) (pos : Nat) :
    Option (Except Error (Option RawAttribute × Nat)) := do
  let (name, behind) ← readWhileAt? source pos isNameChar
  if name.isEmpty then return .ok (none, pos + 1)
  else
    let behind ← skipBlanksAt? source behind
    let read ← readOptionalValueAt? source behind
    return read.map fun (value, behind) => (some ⟨pos, name, value⟩, behind)

theorem readWhileAt?_eq (h : c.Within (.start source)) (p : Char → Bool) :
    readWhileAt? source c.pos p = some ((c.readWhile p).1, (c.readWhile p).2.pos) := by
  have htext : textAt? c.rest (byteCount (c.rest.takeWhile p)) = some (c.rest.takeWhile p) := by
    have hcut := textAt?_append (c.rest.takeWhile p) (c.rest.dropWhile p)
    rwa [List.takeWhile_append_dropWhile] at hcut
  rw [readWhileAt?, restAt?_pos h]
  simp only [Option.bind_eq_bind, Option.bind_some, offset?_getD, htext]
  rfl

theorem skipBlanksAt?_eq (h : c.Within (.start source)) : skipBlanksAt? source c.pos = some c.skipBlanks.pos := by
  have hbytes := (c.skipBlanks_within.trans h).pos_add_byteCount
  have hrest : c.skipBlanks.rest = Text.skipBlank c.rest := rfl
  rw [skipBlanksAt?, restAt?_pos h]
  simp only [Option.bind_eq_bind, Option.bind_some, ← hrest]
  refine congrArg some ?_
  simp only [Cursor.start] at hbytes
  omega

/-- Moving over a character of one byte. -/
theorem pos_next {d : Char} {rest : List Char} (hr : c.rest = d :: rest) (hd : d.utf8Size = 1) :
    c.next.pos = c.pos + 1 := by
  rw [Cursor.next, hr]
  simp [Cursor.past, hd]

theorem readQuotedAt?_eq (h : c.Within (.start source)) {quote : Char} (hq : quote.utf8Size = 1) :
    readQuotedAt? quote source c.pos = some (positions (readQuoted quote c)) := by
  rw [readQuotedAt?, restAt?_pos h, readQuoted]
  simp only [Option.bind_eq_bind, Option.bind_some]
  cases hs : Text.splitAt? quote c.rest with
  | none =>
    rw [offset?_eq, hs]
    rfl
  | some parts =>
    obtain ⟨value, rest⟩ := parts
    obtain ⟨hoffset, hvalue⟩ := cut_of_splitAt? hs
    rw [hoffset]
    simp only [hvalue, Option.bind_some]
    simp [positions, Except.map, Cursor.past, hq]

theorem readValueAt?_eq (h : c.Within (.start source)) :
    readValueAt? source c.pos = some (positions (readValue c)) := by
  have hquoted {quote : Char} {rest : List Char} (hr : c.rest = quote :: rest) (hq : quote.utf8Size = 1) :
      readQuotedAt? quote source (c.pos + 1) = some (positions (readQuoted quote c.next)) := by
    rw [← pos_next hr hq]
    exact readQuotedAt?_eq (c.next_within.trans h) hq
  rw [readValueAt?, restAt?_pos h]
  simp only [Option.bind_eq_bind, Option.bind_some]
  split
  · next hr => simp only [readValue, hr, hquoted hr rfl]
  · next hr => simp only [readValue, hr, hquoted hr rfl]
  · next hdouble hsingle =>
    have hbare : readValue c = .ok (c.readWhile isBareValueChar) := by
      unfold readValue
      split
      · next hr => exact (hdouble _ hr).elim
      · next hr => exact (hsingle _ hr).elim
      · rfl
    rw [readWhileAt?_eq h, hbare]
    rfl

theorem readOptionalValueAt?_eq (h : c.Within (.start source)) :
    readOptionalValueAt? source c.pos = some (positions (readOptionalValue c)) := by
  rw [readOptionalValueAt?, restAt?_pos h]
  simp only [Option.bind_eq_bind, Option.bind_some]
  split
  · next rest hr =>
    have hnext := c.next_within.trans h
    rw [← pos_next hr rfl, skipBlanksAt?_eq hnext, Option.bind_some,
      readValueAt?_eq (c.next.skipBlanks_within.trans hnext)]
    simp only [readOptionalValue, hr]
  · next hequals =>
    have hempty : readOptionalValue c = .ok ([], c) := by
      unfold readOptionalValue
      split
      · next hr => exact (hequals _ hr).elim
      · rfl
    rw [hempty]
    rfl

/-- **What begins no name** and is no blank is an equals sign, a slash or a closing bracket, and takes one
byte. -/
theorem utf8Size_of_stray {d : Char} (hb : Text.isBlank d = false) (hn : isNameChar d = false) :
    d.utf8Size = 1 := by
  have hstray : d = '=' ∨ d = '>' ∨ d = '/' := by
    simpa [isNameChar, hb, or_iff_not_imp_left] using hn
  obtain rfl | rfl | rfl := hstray <;> rfl

/-- **An attribute is read** by bytes as it is with a cursor, where no blank comes first. -/
theorem readAttributeAt?_eq (h : c.Within (.start source)) (hne : c.rest ≠ [])
    (hb : ∀ d rest, c.rest = d :: rest → Text.isBlank d = false) :
    readAttributeAt? source c.pos = some (positions (readAttribute c)) := by
  have hname := (c.readWhile_within isNameChar).trans h
  rw [readAttributeAt?, readWhileAt?_eq h, readAttribute]
  simp only [Option.bind_eq_bind, Option.bind_some]
  split
  · next hempty =>
    -- Nothing has been taken, so the first character is passed over.
    obtain ⟨d, rest, hr⟩ := List.exists_cons_of_ne_nil hne
    have hd : isNameChar d = false := by
      have htaken : c.rest.takeWhile isNameChar = [] := List.isEmpty_iff.mp hempty
      rw [hr, List.takeWhile_cons] at htaken
      exact Bool.eq_false_iff.mpr fun hd => absurd htaken (by simp [hd])
    rw [← pos_next hr (utf8Size_of_stray (hb d rest hr) hd)]
    rfl
  · rw [skipBlanksAt?_eq hname, Option.bind_some,
      readOptionalValueAt?_eq ((Cursor.skipBlanks_within _).trans hname), Option.bind_some]
    cases readOptionalValue (c.readWhile isNameChar).2.skipBlanks with
    | error e => rfl
    | ok read => rfl

end Readers

/-! ## Rounds inside a tag -/

/-- Whether a tag ends here, and then whether it closes itself. -/
def tagEnd? : List Char → Option Bool
  | '/' :: '>' :: _ => some true
  | '>' :: _ => some false
  | _ => none

theorem tagEnd?_true {cs : List Char} (h : tagEnd? cs = some true) : ∃ rest, cs = '/' :: '>' :: rest := by
  unfold tagEnd? at h
  split at h
  · exact ⟨_, rfl⟩
  · exact absurd h (by decide)
  · exact absurd h nofun

theorem tagEnd?_false {cs : List Char} (h : tagEnd? cs = some false) : ∃ rest, cs = '>' :: rest := by
  unfold tagEnd? at h
  split at h
  · exact absurd h (by decide)
  · exact ⟨_, rfl⟩
  · exact absurd h nofun

section Rounds

variable {c : Cursor} (tag : String) (path : Path) (attributes : Keyed String) (s : Supply)

theorem readAttributes_nil (hr : c.skipBlanks.rest = []) : readAttributes tag path c attributes s =
    .error (.markup c.skipBlanks.pos ("unterminated <" ++ tag ++ ">")) := by
  rw [readAttributes]
  split
  · rfl
  all_goals next h => cases hr.symm.trans h

/-- A tag that ends here. -/
theorem readAttributes_ends {closesItself : Bool} (h : tagEnd? c.skipBlanks.rest = some closesItself) :
    readAttributes tag path c attributes s = .ok ((attributes, s, closesItself),
      if closesItself then c.skipBlanks.next.next else c.skipBlanks.next) := by
  rw [readAttributes]
  split
  · next hr =>
    rw [hr] at h
    cases h
  · next hr =>
    obtain rfl : true = closesItself := Option.some.inj (by rw [hr] at h; exact h)
    rfl
  · next hr =>
    obtain rfl : false = closesItself := Option.some.inj (by rw [hr] at h; exact h)
    rfl
  · next d rest hslash hgt hr => 
    rw [hr] at h
    unfold tagEnd? at h
    split at h
    · next h' => exact (hslash _ (List.cons.inj h').1 (List.cons.inj h').2).elim
    · next h' => exact (hgt (List.cons.inj h').1).elim
    · cases h

theorem readAttributes_more (hne : c.skipBlanks.rest ≠ []) (h : tagEnd? c.skipBlanks.rest = none) :
    readAttributes tag path c attributes s =
      match readAttribute c.skipBlanks with
      | .error e => .error e
      | .ok (none, c') => readAttributes tag path c' attributes s
      | .ok (some raw, c') =>
        match s.attach path c'.pos raw attributes with
        | .error e => .error e
        | .ok (attributes, s) => readAttributes tag path c' attributes s := by
  rw [readAttributes]
  split
  · next hr => exact absurd hr hne
  · next hr =>
    rw [hr] at h
    cases h
  · next hr =>
    rw [hr] at h
    cases h
  · split
    · next ha => simp only [ha]
    · next ha => simp only [ha]
    · next raw c' ha =>
      cases hs : s.attach path c'.pos raw attributes <;> simp only [ha, hs]

end Rounds

end ReactiveViews.Markup
