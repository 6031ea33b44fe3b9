import Mathlib.Logic.Relation
import ReactiveViews.Proofs.Markup.Bytes
/-!
# Reading makes progress

A reader that only knows its position in bytes (`Reader`) reads a source in rounds: a round among nodes reads a comment,
a closing tag, the name of an opening tag or a run of text; a round inside a tag reads an attribute, or the end of
the tag. Every round cuts the source at the position where it stands (`Reader.round?`).

A position where reading can stand is one where a character begins, so it can be cut there. A round reads what the
reading with a cursor reads, and it moves on, or it is the last (`Reader.advances`). As no position is behind the end
of the source, there are at most as many rounds that go on as the source has bytes, and reading by bytes comes to
what reading comes to (`reading_makes_progress`). Whatever an error points to is in the source as well.
-/

namespace ReactiveViews

/-- The error points to a place in a source, or to its end. -/
def Error.PointsInto (e : Error) (source : List Char) : Prop :=
  ∃ offset reason, e = .markup offset reason ∧ offset ≤ Markup.byteCount source

namespace Markup

/-! ## Rounds -/

/-- **Reader.** Where reading stands in bytes, the levels and interpolations, and inside a tag its name and the
attributes so far. -/
structure Reader where
  pos : Nat
  supply : Supply
  top : Level
  outer : List Level
  tag? : Option (String × Keyed String)

namespace Reader

/-- What a round comes to: reading is over, or goes on. -/
inductive Round
  | ends (result : Except Error Compiled)
  | goesOn (r : Reader)

/-- Where reading begins. -/
def start (dynamics : List Dynamic) : Reader :=
  ⟨0, ⟨dynamics.map some, []⟩, ⟨.fragment, [], []⟩, [], none⟩

/-- The state of a reader that has characters ahead of it. -/
def state (r : Reader) (rest : List Char) : State := ⟨⟨r.pos, rest⟩, r.supply, r.top, r.outer⟩

/-- A tag ends, and reading stands behind it: its element is complete, or is open now. -/
def endTag (r : Reader) (tag : String) (attributes : Keyed String) (closesItself : Bool) (pos : Nat) : Reader :=
  let content : Content := { Content.element tag with attributes }
  if closesItself || isVoidTag tag then
    { r with pos, top := r.top.add (.node content []), tag? := none }
  else
    { r with pos, top := ⟨content, r.top.nextPath, []⟩, outer := r.top :: r.outer, tag? := none }

/-- **Inside a tag.** Its end, in one byte or two, or an attribute. -/
def roundInTag? (source : List Char) (r : Reader) (tag : String) (attributes : Keyed String) : Option Round := do
  let pos ← skipBlanksAt? source r.pos
  let rest ← restAt? source pos
  if rest.isEmpty then
    return .ends (.error (.markup pos ("unterminated <" ++ tag ++ ">")))
  else
    match tagEnd? rest with
    | some true => return .goesOn (r.endTag tag attributes true (pos + 2))
    | some false => return .goesOn (r.endTag tag attributes false (pos + 1))
    | none =>
      let read ← readAttributeAt? source pos
      match read with
      | .error e => return .ends (.error e)
      | .ok (none, behind) => return .goesOn { r with pos := behind, tag? := some (tag, attributes) }
      | .ok (some raw, behind) =>
        -- What may hold markers is cut at them.
        let _ ← segmentsAt? (if raw.name.contains markerOpen then raw.name else raw.value)
        match r.supply.attach r.top.nextPath behind raw attributes with
        | .error e => return .ends (.error e)
        | .ok (attributes, supply) =>
          return .goesOn { r with pos := behind, supply, tag? := some (tag, attributes) }

/-- A comment, of which `body` is behind the four bytes of its opening. -/
def roundInComment? (r : Reader) (body : List Char) : Option Round :=
  match textOffset? "-->".toList body with
  | none => return .ends (.error (.markup r.pos "unterminated comment"))
  | some length => do
    let data ← textAt? body length
    return .goesOn { r with
      pos := r.pos + (4 + length + 3)
      top := r.top.add (.node (.comment (String.ofList data)) []) }

/-- A closing tag, of which `body` is behind the two bytes of its opening. -/
def roundInClosing? (r : Reader) (body : List Char) : Option Round :=
  match offset? (· == '>') body with
  | none => return .ends (.error (.markup r.pos "unterminated closing tag"))
  | some length => do
    let name ← textAt? body length
    let tag := String.ofList ((Text.trim name).map Char.toLower)
    match r.outer with
    | parent :: outer =>
      if r.top.content.kind = .element tag then
        return .goesOn { r with pos := r.pos + (2 + length + 1), top := parent.add r.top.close, outer }
      else return .ends (.error (.markup r.pos ("unexpected </" ++ tag ++ ">")))
    | [] => return .ends (.error (.markup r.pos ("unexpected </" ++ tag ++ ">")))

/-- A run of text: the first character, and all up to the next place where a tag begins. -/
def roundInText? (r : Reader) (first : Char) (rest : List Char) : Option Round := do
  let length := ((tagOffset? rest).map (first.utf8Size + ·)).getD (byteCount (first :: rest))
  let text ← textAt? (first :: rest) length
  let split ← segmentsAt? text
  match split with
  | .error e => return .ends (.error e)
  | .ok found =>
    match addText r.pos found r.top r.supply with
    | .error e => return .ends (.error e)
    | .ok (top, supply) => return .goesOn { r with pos := r.pos + length, supply, top }

/-- The end of the source, where every element has to be closed. -/
def roundAtEnd (r : Reader) : Round :=
  match r.outer, r.top.content.kind with
  | _ :: _, .element tag => .ends (.error (.markup r.pos ("unclosed <" ++ tag ++ ">")))
  | _, _ => .ends (.ok ⟨r.top.done.reverse, r.supply.targets⟩)

/-- **Among nodes.** The end of the source, a comment, a closing tag, the name of an opening tag, or text. -/
def roundAmongNodes? (source : List Char) (r : Reader) : Option Round := do
  let rest ← restAt? source r.pos
  match rest with
  | [] => return r.roundAtEnd
  | first :: rest =>
    match Cursor.afterText? "<!--".toList (first :: rest) with
    | some body => r.roundInComment? body
    | none =>
      match Cursor.afterText? "</".toList (first :: rest) with
      | some body => r.roundInClosing? body
      | none =>
        if startsTag (first :: rest) then
          let (name, pos) ← readWhileAt? source (r.pos + 1) isTagChar
          return .goesOn { r with pos, tag? := some (String.ofList (name.map Char.toLower), []) }
        else r.roundInText? first rest

/-- **Round.** Nothing comes of it where the source cannot be cut. -/
def round? (source : List Char) (r : Reader) : Option Round :=
  match r.tag? with
  | none => r.roundAmongNodes? source
  | some (tag, attributes) => r.roundInTag? source tag attributes

/-- What reading comes to from here, with a cursor. -/
def comesTo (r : Reader) (rest : List Char) : Except Error Compiled :=
  match r.tag? with
  | none => run (r.state rest)
  | some (tag, attributes) =>
    match readAttributes tag r.top.nextPath ⟨r.pos, rest⟩ attributes r.supply with
    | .error e => .error e
    | .ok ((attributes, supply, closesItself), c) =>
      run (({ r with supply }.endTag tag attributes closesItself c.pos).state c.rest)

/-- **Advancing.** Reading is over with what it comes to, or it has moved on and still comes to the same. -/
inductive Advances (source : List Char) (r : Reader) (rest : List Char) : Round → Prop
  | ends {result : Except Error Compiled} (hresult : result = r.comesTo rest)
    (herror : ∀ e, result = .error e → e.PointsInto source) : Advances source r rest (.ends result)
  | goesOn {r' : Reader} (rest' : List Char) (hpos : r.pos < r'.pos)
    (hrest : Cursor.Within ⟨r'.pos, rest'⟩ (.start source)) (hcomes : r'.comesTo rest' = r.comesTo rest) :
    Advances source r rest (.goesOn r')

end Reader

/-! ## Where errors point -/

section Errors

variable {source cs : List Char} {c c' : Cursor} {e : Error} {s : Supply} {start pos : Nat} {path : Path}

theorem Cursor.Within.pos_le (h : c.Within (.start source)) : c.pos ≤ byteCount source := by
  have hbytes := h.pos_add_byteCount
  simp only [Cursor.start] at hbytes
  omega

theorem pointsInto_markup {offset : Nat} (h : offset ≤ byteCount source) (reason : String) :
    (Error.markup offset reason).PointsInto source :=
  ⟨offset, reason, rfl, h⟩

theorem eq_error_of_map {α β : Type} {f : α → β} {r : Except Error α} (h : r.map f = .error e) : r = .error e := by
  cases r with
  | error e' => exact congrArg Except.error (Except.error.inj h)
  | ok a => exact absurd h nofun

theorem pointsInto_of_segments (h : segments cs = .error e) : e.PointsInto source := by
  fun_induction segments cs with
  | case1 => cases h
  | case2 | case3 => exact Except.error.inj h ▸ pointsInto_markup (Nat.zero_le _) _
  | case4 cs before after _ number rest _ index _ ih => exact ih (eq_error_of_map h)

theorem Supply.pointsInto_of_take {index : Nat} (hpos : pos ≤ byteCount source)
    (h : s.take pos index = .error e) : e.PointsInto source := by
  unfold take at h
  split at h
  · exact absurd h nofun
  · exact Except.error.inj h ▸ pointsInto_markup hpos _

theorem Supply.pointsInto_of_attachBare {found : List Segment} (hstart : start ≤ byteCount source)
    (hpos : pos ≤ byteCount source) (h : attachBare path start pos found s = .error e) :
    e.PointsInto source := by
  induction found generalizing s with
  | nil => exact absurd h nofun
  | cons segment found ih =>
    cases segment with
    | text => exact Except.error.inj h ▸ pointsInto_markup hstart _
    | marker index =>
      rw [attachBare] at h
      split at h
      · next ht => exact pointsInto_of_take hpos (Except.error.inj h ▸ ht)
      · exact Except.error.inj h ▸ pointsInto_markup hstart _
      · exact ih h

theorem Supply.pointsInto_of_mix {found : List Segment} (hstart : start ≤ byteCount source)
    (hpos : pos ≤ byteCount source) (h : mix start pos found s = .error e) : e.PointsInto source := by
  induction found generalizing s with
  | nil => exact absurd h nofun
  | cons segment found ih =>
    cases segment with
    | text =>
      rw [mix] at h
      exact ih (eq_error_of_map h)
    | marker index =>
      rw [mix] at h
      split at h
      · next ht => exact pointsInto_of_take hpos (Except.error.inj h ▸ ht)
      · exact Except.error.inj h ▸ pointsInto_markup hstart _
      · exact ih (eq_error_of_map h)

theorem Supply.pointsInto_of_attach {raw : RawAttribute} {attributes : Keyed String}
    (hstart : raw.start ≤ byteCount source) (hpos : pos ≤ byteCount source)
    (h : s.attach path pos raw attributes = .error e) : e.PointsInto source := by
  unfold attach at h
  split at h
  · split at h
    · next hs => exact pointsInto_of_segments (Except.error.inj h ▸ hs)
    · exact pointsInto_of_attachBare hstart hpos (eq_error_of_map h)
  · split at h
    · next hs => exact pointsInto_of_segments (Except.error.inj h ▸ hs)
    · dsimp only at h
      split at h
      · split at h
        · next ht => exact pointsInto_of_take hpos (Except.error.inj h ▸ ht)
        · exact absurd h nofun
        · exact absurd h nofun
      · split at h
        · split at h
          · exact Except.error.inj h ▸ pointsInto_markup hstart _
          · exact pointsInto_of_mix hstart hpos (eq_error_of_map h)
        · exact absurd h nofun

theorem pointsInto_of_addText {found : List Segment} {level : Level} (hpos : pos ≤ byteCount source)
    (h : addText pos found level s = .error e) : e.PointsInto source := by
  induction found generalizing level s with
  | nil => exact absurd h nofun
  | cons segment found ih =>
    cases segment with
    | text => exact ih h
    | marker index =>
      rw [addText] at h
      split at h
      · next ht => exact Supply.pointsInto_of_take hpos (Except.error.inj h ▸ ht)
      · exact ih h

theorem pointsInto_of_readQuoted {quote : Char} (hc : c.Within (.start source))
    (h : readQuoted quote c = .error e) : e.PointsInto source := by
  unfold readQuoted at h
  split at h
  · exact absurd h nofun
  · exact Except.error.inj h ▸ pointsInto_markup hc.pos_le _

theorem pointsInto_of_readValue (hc : c.Within (.start source)) (h : readValue c = .error e) :
    e.PointsInto source := by
  unfold readValue at h
  split at h
  · exact pointsInto_of_readQuoted (c.next_within.trans hc) h
  · exact pointsInto_of_readQuoted (c.next_within.trans hc) h
  · exact absurd h nofun

theorem pointsInto_of_readAttribute (hc : c.Within (.start source)) (h : readAttribute c = .error e) :
    e.PointsInto source := by
  have hname := (Cursor.skipBlanks_within _).trans ((c.readWhile_within isNameChar).trans hc)
  unfold readAttribute at h
  dsimp only at h
  split at h
  · exact absurd h nofun
  · split at h
    · next e' hv =>
      obtain rfl := Except.error.inj h
      unfold readOptionalValue at hv
      split at hv
      · exact pointsInto_of_readValue
          ((Cursor.skipBlanks_within _).trans ((Cursor.next_within _).trans hname)) hv
      · exact absurd hv nofun
    · exact absurd h nofun

/-- An attribute begins where reading stands. -/
theorem start_of_readAttribute {raw : RawAttribute} (h : readAttribute c = .ok (some raw, c')) :
    raw.start = c.pos := by
  unfold readAttribute at h
  dsimp only at h
  split at h
  · exact absurd h nofun
  · split at h
    · exact absurd h nofun
    · obtain ⟨hraw, -⟩ := Prod.mk.inj (Except.ok.inj h)
      exact Option.some.inj hraw ▸ rfl

end Errors

/-! ## Each round advances -/

theorem byteCount_pos {cs : List Char} (h : cs ≠ []) : 0 < byteCount cs :=
  Nat.lt_of_lt_of_le (List.length_pos_iff.mpr h) (length_le_byteCount cs)

theorem Cursor.Past.pos_lt {c c' : Cursor} (h : c'.Past c) : c.pos < c'.pos := by
  obtain ⟨taken, hne, -, hpos⟩ := h
  have := byteCount_pos hne
  omega

/-- Reading comes to what its next step comes to. -/
theorem run_eq (s : State) : run s =
    match step s with
    | .error e => .error e
    | .ok (.done result) => .ok result
    | .ok (.more s') => run s' := by
  rw [run]
  split
  · next h => simp only [h]
  · next h => simp only [h]
  · next h => simp only [h]

namespace Reader

section Advance

variable {source rest body : List Char} {r r' : Reader} {s' : State} {e : Error} {tag : String}
  {attributes : Keyed String} {result : Compiled}

@[simp] theorem pos_endTag (r : Reader) (tag : String) (attributes : Keyed String) (closesItself : Bool)
    (pos : Nat) : (r.endTag tag attributes closesItself pos).pos = pos := by
  unfold endTag
  dsimp only
  split <;> rfl

@[simp] theorem tag?_endTag (r : Reader) (tag : String) (attributes : Keyed String) (closesItself : Bool)
    (pos : Nat) : (r.endTag tag attributes closesItself pos).tag? = none := by
  unfold endTag
  dsimp only
  split <;> rfl

theorem comesTo_of_none (h : r.tag? = none) (rest : List Char) : r.comesTo rest = run (r.state rest) := by
  rw [comesTo, h]

theorem Advances.failed (hcomes : r.comesTo rest = .error e) (he : e.PointsInto source) :
    r.Advances source rest (.ends (.error e)) := by
  refine .ends hcomes.symm ?_
  rintro _ ⟨⟩
  exact he

/-- At the end of a tag reading goes on among nodes. -/
theorem Advances.endTag {closesItself : Bool} {c : Cursor} (hc : c.Past ⟨r.pos, rest⟩)
    (h : Cursor.Within ⟨r.pos, rest⟩ (.start source))
    (hcomes : r.comesTo rest = run ((r.endTag tag attributes closesItself c.pos).state c.rest)) :
    r.Advances source rest (.goesOn (r.endTag tag attributes closesItself c.pos)) := by
  refine .goesOn c.rest ?_ ?_ ?_
  · rw [pos_endTag]
    exact hc.pos_lt
  · rw [pos_endTag]
    exact hc.within.trans h
  · rw [comesTo_of_none (tag?_endTag _ _ _ _ _), hcomes]

/-- **Inside a tag**, reading advances. -/
theorem advances_inTag (h : Cursor.Within ⟨r.pos, rest⟩ (.start source)) (ht : r.tag? = some (tag, attributes)) :
    ∃ next, r.roundInTag? source tag attributes = some next ∧ r.Advances source rest next := by
  let c : Cursor := ⟨r.pos, rest⟩
  have hskip : c.skipBlanks.Within (.start source) := c.skipBlanks_within.trans h
  have hpos : skipBlanksAt? source r.pos = some c.skipBlanks.pos := skipBlanksAt?_eq h
  have hrest : restAt? source c.skipBlanks.pos = some c.skipBlanks.rest := restAt?_pos hskip
  have hcomes : r.comesTo rest =
      match readAttributes tag r.top.nextPath c attributes r.supply with
      | .error e => .error e
      | .ok ((attributes, supply, closesItself), c) =>
        run (({ r with supply }.endTag tag attributes closesItself c.pos).state c.rest) := by
    rw [comesTo, ht]
  unfold roundInTag?
  simp only [hpos, hrest, Option.bind_eq_bind, Option.bind_some]
  by_cases hempty : c.skipBlanks.rest = []
  · refine ⟨_, if_pos (List.isEmpty_iff.mpr hempty), .failed (hcomes.trans ?_) ?_⟩
    · rw [readAttributes_nil _ _ _ _ hempty]
    · exact pointsInto_markup hskip.pos_le _
  rw [if_neg (by simpa using hempty)]
  cases hend : tagEnd? c.skipBlanks.rest with
  | some closesItself =>
    rw [readAttributes_ends _ _ _ _ hend] at hcomes
    dsimp only at hcomes
    cases closesItself with
    | true =>
      obtain ⟨more, hr⟩ := tagEnd?_true hend
      have hslash : c.skipBlanks.next.rest = '>' :: more := by rw [Cursor.next, hr]; rfl
      have hbehind := (Cursor.next_past (hslash ▸ List.cons_ne_nil _ _)).trans_within
        (c.skipBlanks.next_within.trans c.skipBlanks_within)
      have hend : c.skipBlanks.next.next.pos = c.skipBlanks.pos + 2 := by
        rw [pos_next hslash rfl, pos_next hr rfl]
      exact ⟨_, rfl, hend ▸ .endTag hbehind h hcomes⟩
    | false =>
      obtain ⟨more, hr⟩ := tagEnd?_false hend
      have hbehind := (Cursor.next_past hempty).trans_within c.skipBlanks_within
      exact ⟨_, rfl, pos_next hr rfl ▸ .endTag hbehind h hcomes⟩
  | none =>
    have hread := readAttributeAt?_eq hskip hempty fun d rest hd => Text.isBlank_of_skipBlank_eq_cons hd
    rw [readAttributes_more _ _ _ _ hempty hend] at hcomes
    simp only [hread, Option.bind_some]
    cases ha : readAttribute c.skipBlanks with
    | error e =>
      rw [ha] at hcomes
      exact ⟨_, rfl, .failed hcomes (pointsInto_of_readAttribute hskip ha)⟩
    | ok read =>
      obtain ⟨a, c'⟩ := read
      have hpast : c'.Past c.skipBlanks := readAttribute_past hempty ha
      have hlt : r.pos < c'.pos := (hpast.trans_within c.skipBlanks_within).pos_lt
      have hwithin : c'.Within (.start source) := hpast.within.trans hskip
      rw [ha] at hcomes
      cases a with
      | none => exact ⟨_, rfl, .goesOn _ hlt hwithin hcomes.symm⟩
      | some raw =>
        dsimp only [positions, Except.map] at hcomes ⊢
        rw [segmentsAt?_eq, Option.bind_some]
        cases hattach : r.supply.attach r.top.nextPath c'.pos raw attributes with
        | error e =>
          rw [hattach] at hcomes
          refine ⟨_, rfl, .failed hcomes (Supply.pointsInto_of_attach ?_ hwithin.pos_le hattach)⟩
          exact start_of_readAttribute ha ▸ hskip.pos_le
        | ok attached =>
          rw [hattach] at hcomes
          exact ⟨_, rfl, .goesOn _ hlt hwithin hcomes.symm⟩

/-! ### Among nodes -/

/-- A step with the cursor that goes on is one by bytes. -/
theorem Advances.of_step (h : Cursor.Within ⟨r.pos, rest⟩ (.start source)) (ht : r.tag? = none)
    (hs : step (r.state rest) = .ok (.more s')) (ht' : r'.tag? = none)
    (hs' : r'.state s'.cursor.rest = s') : r.Advances source rest (.goesOn r') := by
  have hpast : s'.cursor.Past ⟨r.pos, rest⟩ := step_past hs
  have hpos : r'.pos = s'.cursor.pos := congrArg (fun s => s.cursor.pos) hs'
  refine .goesOn s'.cursor.rest ?_ ?_ ?_
  · rw [hpos]
    exact hpast.pos_lt
  · rw [hpos]
    exact hpast.within.trans h
  · rw [comesTo_of_none ht', comesTo_of_none ht, hs', run_eq (r.state rest), hs]

/-- A step with the cursor that fails is the last. -/
theorem comesTo_of_error (ht : r.tag? = none) (hs : step (r.state rest) = .error e) :
    r.comesTo rest = .error e := by
  rw [comesTo_of_none ht, run_eq, hs]

theorem advances_inComment (h : Cursor.Within ⟨r.pos, rest⟩ (.start source)) (ht : r.tag? = none)
    (hs : step (r.state rest) = readComment (r.state rest) body) :
    ∃ next, r.roundInComment? body = some next ∧ r.Advances source rest next := by
  unfold roundInComment?
  rw [textOffset?_eq]
  unfold readComment at hs
  cases hsplit : Cursor.splitAtText? "-->".toList body with
  | none =>
    rw [hsplit] at hs
    exact ⟨_, rfl, .failed (comesTo_of_error ht hs) (pointsInto_markup h.pos_le _)⟩
  | some parts =>
    obtain ⟨data, behind⟩ := parts
    rw [hsplit] at hs
    have hdata : textAt? body (byteCount data) = some data := by
      rw [Cursor.splitAtText?_eq_some hsplit, List.append_assoc, textAt?_append]
    simp only [Option.map_some, hdata]
    refine ⟨_, rfl, .of_step h ht hs ht ?_⟩
    have hbytes : byteCount ("<!--".toList ++ data ++ "-->".toList) = 4 + byteCount data + 3 := by
      rw [byteCount_append, byteCount_append]
      rfl
    simp only [state, Cursor.past, hbytes]

theorem advances_inClosing (h : Cursor.Within ⟨r.pos, rest⟩ (.start source)) (ht : r.tag? = none)
    (hs : step (r.state rest) = readClosing (r.state rest) body) :
    ∃ next, r.roundInClosing? body = some next ∧ r.Advances source rest next := by
  unfold readClosing at hs
  cases hsplit : Text.splitAt? '>' body with
  | none =>
    rw [hsplit] at hs
    rw [roundInClosing?, offset?_eq, hsplit]
    exact ⟨_, rfl, .failed (comesTo_of_error ht hs) (pointsInto_markup h.pos_le _)⟩
  | some parts =>
    obtain ⟨name, behind⟩ := parts
    obtain ⟨hoffset, hname⟩ := cut_of_splitAt? hsplit
    obtain ⟨pos, supply, top, outer, tag?⟩ := r
    rw [hsplit] at hs
    cases outer with
    | nil =>
      simp only [roundInClosing?, hoffset, hname, Option.bind_eq_bind, Option.bind_some]
      exact ⟨_, rfl, .failed (comesTo_of_error ht hs) (pointsInto_markup h.pos_le _)⟩
    | cons parent outer =>
      simp only [roundInClosing?, hoffset, hname, Option.bind_eq_bind, Option.bind_some]
      split
      · next hk =>
        refine ⟨_, rfl, .of_step h ht (hs.trans (if_pos hk)) ht ?_⟩
        have hbytes : byteCount ("</".toList ++ name ++ ['>']) = 2 + byteCount name + 1 := by
          rw [byteCount_append, byteCount_append]
          rfl
        simp only [state, Cursor.past, hbytes]
      · next hk =>
        exact ⟨_, rfl, .failed (comesTo_of_error ht (hs.trans (if_neg hk))) (pointsInto_markup h.pos_le _)⟩

theorem advances_inText {first : Char} (h : Cursor.Within ⟨r.pos, first :: rest⟩ (.start source))
    (ht : r.tag? = none) (hs : step (r.state (first :: rest)) = readText (r.state (first :: rest)) first rest) :
    ∃ next, r.roundInText? first rest = some next ∧ r.Advances source (first :: rest) next := by
  have hlength : ((tagOffset? rest).map (first.utf8Size + ·)).getD (byteCount (first :: rest)) =
      byteCount (first :: textRun rest) := by
    rw [byteCount_cons, byteCount_cons, ← tagOffset?_getD]
    cases tagOffset? rest <;> rfl
  have htext : textAt? (first :: rest) (byteCount (first :: textRun rest)) = some (first :: textRun rest) := by
    have hcut := textAt?_append (first :: textRun rest) (afterTextRun rest)
    rwa [List.cons_append, textRun_append_afterTextRun] at hcut
  unfold readText at hs
  dsimp only at hs
  unfold roundInText?
  simp only [hlength, htext, segmentsAt?_eq, Option.bind_eq_bind, Option.bind_some]
  cases hsegments : segments (first :: textRun rest) with
  | error e =>
    rw [hsegments] at hs
    exact ⟨_, rfl, .failed (comesTo_of_error ht hs) (pointsInto_of_segments hsegments)⟩
  | ok found =>
    rw [hsegments] at hs
    replace hs : step (r.state (first :: rest)) = (addText r.pos found r.top r.supply).map _ := hs
    cases hadd : addText r.pos found r.top r.supply with
    | error e =>
      rw [hadd] at hs
      simp only [hadd]
      exact ⟨_, rfl, .failed (comesTo_of_error ht hs) (pointsInto_of_addText h.pos_le hadd)⟩
    | ok added =>
      rw [hadd] at hs
      simp only [hadd]
      exact ⟨_, rfl, .of_step h ht hs ht rfl⟩

theorem advances_atEnd (h : Cursor.Within ⟨r.pos, []⟩ (.start source)) (ht : r.tag? = none) :
    r.Advances source [] r.roundAtEnd := by
  have hclosed (hs : step (r.state []) = .ok (.done ⟨r.top.done.reverse, r.supply.targets⟩)) :
      r.Advances source [] (.ends (.ok ⟨r.top.done.reverse, r.supply.targets⟩)) := by
    refine .ends ?_ nofun
    rw [comesTo_of_none ht, run_eq, hs]
  obtain ⟨pos, supply, ⟨⟨kind, data, attributes, properties⟩, path, done⟩, outer, tag?⟩ := r
  cases outer with
  | nil => exact hclosed rfl
  | cons parent outer =>
    cases kind with
    | element tag => exact .failed (comesTo_of_error ht rfl) (pointsInto_markup h.pos_le _)
    | text | comment | fragment => exact hclosed rfl

theorem utf8Size_of_startsTag {first : Char} (h : startsTag (first :: rest) = true) : first.utf8Size = 1 := by
  unfold startsTag at h
  split at h
  · next hfirst => exact (List.cons.inj hfirst).1 ▸ rfl
  · exact absurd h nofun

/-- What reading an opening tag comes to: its name, its attributes, and its end. -/
theorem readOpening_eq (r : Reader) (rest name : List Char) (c : Cursor)
    (hname : (r.state rest).cursor.next.readWhile isTagChar = (name, c)) :
    readOpening (r.state rest) =
      match readAttributes (String.ofList (name.map Char.toLower)) r.top.nextPath c [] r.supply with
      | .error e => .error e
      | .ok ((attributes, supply, closesItself), c) =>
        .ok (.more (({ r with supply }.endTag (String.ofList (name.map Char.toLower)) attributes closesItself
          c.pos).state c.rest)) := by
  unfold readOpening
  rw [hname]
  dsimp only [state]
  cases readAttributes (String.ofList (name.map Char.toLower)) r.top.nextPath c [] r.supply with
  | error e => rfl
  | ok read =>
    dsimp only
    unfold endTag
    dsimp only
    split
    · rfl
    · rfl

/-- **The name of an opening tag** has been read, and reading goes on inside the tag. -/
theorem advances_opening {first : Char} (h : Cursor.Within ⟨r.pos, first :: rest⟩ (.start source))
    (ht : r.tag? = none) (hfirst : first.utf8Size = 1)
    (hs : step (r.state (first :: rest)) = readOpening (r.state (first :: rest))) :
    ∃ name pos, readWhileAt? source (r.pos + 1) isTagChar = some (name, pos) ∧
      r.Advances source (first :: rest)
        (.goesOn { r with pos, tag? := some (String.ofList (name.map Char.toLower), []) }) := by
  let c : Cursor := ⟨r.pos, first :: rest⟩
  have hnext : c.next.Past c := Cursor.next_past (List.cons_ne_nil _ _)
  have hname := c.next.readWhile_within isTagChar
  have hread := readWhileAt?_eq (hnext.within.trans h) isTagChar
  rw [pos_next (c := c) rfl hfirst] at hread
  refine ⟨_, _, hread, .goesOn (c.next.readWhile isTagChar).2.rest ?_ ?_ ?_⟩
  · exact (hname.trans_past hnext).pos_lt
  · exact (hname.trans_past hnext).within.trans h
  · rw [comesTo_of_none ht, run_eq, hs, readOpening_eq r (first :: rest) (c.next.readWhile isTagChar).1
      (c.next.readWhile isTagChar).2 rfl]
    dsimp only [comesTo]
    cases readAttributes (String.ofList ((c.next.readWhile isTagChar).1.map Char.toLower)) r.top.nextPath
      (c.next.readWhile isTagChar).2 [] r.supply with
    | error e => rfl
    | ok read => rfl

/-- **Among nodes**, reading advances. -/
theorem advances_amongNodes (h : Cursor.Within ⟨r.pos, rest⟩ (.start source)) (ht : r.tag? = none) :
    ∃ next, r.roundAmongNodes? source = some next ∧ r.Advances source rest next := by
  have hrest : restAt? source r.pos = some rest := restAt?_eq_some.mpr h
  unfold roundAmongNodes?
  simp only [hrest, Option.bind_eq_bind, Option.bind_some]
  cases rest with
  | nil =>
    exact ⟨_, rfl, advances_atEnd h ht⟩
  | cons first rest =>
    dsimp only
    -- What is done with the characters ahead is decided as it is with the cursor.
    have hs : step (r.state (first :: rest)) =
        match Cursor.afterText? "<!--".toList (first :: rest) with
        | some body => readComment (r.state (first :: rest)) body
        | none =>
          match Cursor.afterText? "</".toList (first :: rest) with
          | some body => readClosing (r.state (first :: rest)) body
          | none =>
            if startsTag (first :: rest) then readOpening (r.state (first :: rest))
            else readText (r.state (first :: rest)) first rest := rfl
    cases hcomment : Cursor.afterText? "<!--".toList (first :: rest) with
    | some body =>
      rw [hcomment] at hs
      exact advances_inComment h ht hs
    | none =>
      rw [hcomment] at hs
      cases hclosing : Cursor.afterText? "</".toList (first :: rest) with
      | some body =>
        rw [hclosing] at hs
        exact advances_inClosing h ht hs
      | none =>
        rw [hclosing] at hs
        dsimp only at hs ⊢
        split
        · next htag =>
          rw [if_pos htag] at hs
          have hfirst : first.utf8Size = 1 := utf8Size_of_startsTag htag
          obtain ⟨name, pos, hread, hadvances⟩ := advances_opening h ht hfirst hs
          exact ⟨_, by rw [hread]; rfl, hadvances⟩
        · next htag =>
          rw [if_neg htag] at hs
          exact advances_inText h ht hs

/-- **Every round advances.** -/
theorem advances (h : Cursor.Within ⟨r.pos, rest⟩ (.start source)) :
    ∃ next, r.round? source = some next ∧ r.Advances source rest next := by
  unfold round?
  split
  · next ht => exact advances_amongNodes h ht
  · next tag attributes ht => exact advances_inTag h ht

end Advance

/-! ## Reading as a whole -/

/-- Reading goes from one reader to another by a round. -/
abbrev GoesOn (source : List Char) (r r' : Reader) : Prop := r.round? source = some (.goesOn r')

/-- What reading comes to in so many rounds. -/
def readFor? (source : List Char) : Nat → Reader → Option (Except Error Compiled)
  | 0, _ => none
  | n + 1, r =>
    match r.round? source with
    | none => none
    | some (.ends result) => some result
    | some (.goesOn r') => readFor? source n r'

section Whole

variable {source rest : List Char} {r : Reader} {dynamics : List Dynamic}

/-- **Reading ends** before it has gone on for more rounds than there are bytes ahead, with what the reading with a
cursor comes to. -/
theorem readFor?_eq {n : Nat} (h : Cursor.Within ⟨r.pos, rest⟩ (.start source))
    (hn : byteCount source < r.pos + n) :
    r.readFor? source n = some (r.comesTo rest) ∧ ∀ e, r.comesTo rest = .error e → e.PointsInto source := by
  induction n generalizing r rest with
  | zero => exact absurd h.pos_le (Nat.not_le.mpr hn)
  | succ n ih =>
    obtain ⟨next, hround, hadvances⟩ := advances h
    rw [readFor?, hround]
    cases hadvances with
    | ends hresult herror => exact ⟨congrArg some hresult, hresult ▸ herror⟩
    | goesOn rest' hpos hrest hcomes =>
      obtain ⟨hread, herror⟩ := ih hrest (by omega)
      exact ⟨hcomes ▸ hread, hcomes ▸ herror⟩

/-- Wherever reading gets to, there is a character, or the end of the source. -/
theorem within_of_goesOn (h : Relation.ReflTransGen (GoesOn source) (start dynamics) r) :
    ∃ rest, Cursor.Within ⟨r.pos, rest⟩ (.start source) := by
  induction h with
  | refl => exact ⟨source, .refl _⟩
  | tail _ hround ih =>
    obtain ⟨rest, h⟩ := ih
    obtain ⟨next, hnext, hadvances⟩ := advances h
    obtain rfl := Option.some.inj (hround.symm.trans hnext)
    cases hadvances with
    | goesOn rest' _ hrest _ => exact ⟨_, hrest⟩

end Whole

end Reader

/-- **Reading makes progress inside the source.** Whatever the source and the interpolations are: wherever reading
by bytes gets to, it stands in the source where a character begins, or at its end; a round cuts nothing anywhere else,
and it is the last, or moves on. So reading is over after one round more than there are bytes at the most, with
what reading comes to; splitting text at markers cuts it where characters begin; and every error points into the
source. -/
theorem reading_makes_progress (source : List Char) (dynamics : List Dynamic) :
    (∀ r, Relation.ReflTransGen (Reader.GoesOn source) (Reader.start dynamics) r →
      r.pos ≤ byteCount source ∧ String.Pos.Raw.IsValid (String.ofList source) ⟨r.pos⟩ ∧
        ((∃ result, r.round? source = some (.ends result)) ∨
          ∃ r', r.round? source = some (.goesOn r') ∧ r.pos < r'.pos)) ∧
      (Reader.start dynamics).readFor? source (byteCount source + 1) = some (run (initial source dynamics)) ∧
      (∀ text, segmentsAt? text = some (segments text)) ∧
      (∀ e, run (initial source dynamics) = .error e → e.PointsInto source) ∧
      ∀ strings insertions e, compile strings insertions = .error e →
        e.PointsInto (join 0 strings insertions).1 := by
  have hread (source : List Char) (dynamics : List Dynamic) :
      (Reader.start dynamics).readFor? source (byteCount source + 1) = some (run (initial source dynamics)) ∧
        ∀ e, run (initial source dynamics) = .error e → e.PointsInto source :=
    @Reader.readFor?_eq source source (.start dynamics) _ (.refl _) (Nat.lt_add_left 0 (Nat.lt_succ_self _))
  refine ⟨fun r hr => ?_, (hread source dynamics).1, segmentsAt?_eq, (hread source dynamics).2,
    fun strings insertions e he => ?_⟩
  · obtain ⟨rest, h⟩ := Reader.within_of_goesOn hr
    refine ⟨h.pos_le, ?_, ?_⟩
    · rw [← isSome_restAt?, String.toList_ofList, restAt?_eq_some.mpr h]
      rfl
    · obtain ⟨next, hround, hadvances⟩ := Reader.advances h
      cases hadvances with
      | ends => exact .inl ⟨_, hround⟩
      | goesOn _ hpos => exact .inr ⟨_, hround, hpos⟩
  · unfold compile at he
    split at he
    · exact Except.error.inj he ▸ pointsInto_markup (Nat.zero_le _) _
    · exact (hread _ _).2 e he

/-- Where a round goes on. -/
def Reader.next? (source : List Char) (r : Reader) : Option Reader :=
  (r.round? source).bind fun
    | .goesOn r' => some r'
    | .ends _ => none

theorem Reader.goesOn_of_next? {source : List Char} {r r' : Reader} (h : r.next? source = some r') :
    GoesOn source r r' := by
  obtain ⟨round, hround, h⟩ := Option.bind_eq_some_iff.mp h
  cases round with
  | goesOn => exact Option.some.inj h ▸ hround
  | ends => exact absurd h nofun

/-- In a source with characters of two bytes, reading stands behind the name of the second attribute after three rounds.
The next passes over the stray slash, and does not cut the character behind it apart. -/
theorem slash_between_accents : ∃ r r', Relation.ReflTransGen (Reader.GoesOn "<p é=ü ö/ä>ß</p>".toList) (.start []) r ∧
    r.round? "<p é=ü ö/ä>ß</p>".toList = some (.goesOn r') ∧ r.pos = 11 ∧ r'.pos = 12 ∧
      String.Pos.Raw.IsValid "<p é=ü ö/ä>ß</p>" ⟨11⟩ ∧ String.Pos.Raw.IsValid "<p é=ü ö/ä>ß</p>" ⟨12⟩ := by
  have hrounds : ((Reader.start []).next? "<p é=ü ö/ä>ß</p>".toList).any (fun r₁ =>
      (r₁.next? "<p é=ü ö/ä>ß</p>".toList).any fun r₂ => (r₂.next? "<p é=ü ö/ä>ß</p>".toList).any fun r =>
        r.pos == 11 && (r.next? "<p é=ü ö/ä>ß</p>".toList).any fun r' => r'.pos == 12) = true := by
    decide +kernel
  obtain ⟨r₁, h₁, hrounds⟩ := (Option.any_eq_true _ _).mp hrounds
  obtain ⟨r₂, h₂, hrounds⟩ := (Option.any_eq_true _ _).mp hrounds
  obtain ⟨r, h, hrounds⟩ := (Option.any_eq_true _ _).mp hrounds
  obtain ⟨hpos, hrounds⟩ := (Bool.and_eq_true _ _).mp hrounds
  obtain ⟨r', h', hpos'⟩ := (Option.any_eq_true _ _).mp hrounds
  have hr : Relation.ReflTransGen (Reader.GoesOn "<p é=ü ö/ä>ß</p>".toList) (.start []) r :=
    ((Relation.ReflTransGen.single (Reader.goesOn_of_next? h₁)).tail (Reader.goesOn_of_next? h₂)).tail
      (Reader.goesOn_of_next? h)
  obtain ⟨-, hvalid, -⟩ := (reading_makes_progress "<p é=ü ö/ä>ß</p>".toList []).1 r hr
  obtain ⟨-, hvalid', -⟩ := (reading_makes_progress "<p é=ü ö/ä>ß</p>".toList []).1 r'
    (hr.tail (Reader.goesOn_of_next? h'))
  rw [String.ofList_toList, beq_iff_eq.mp hpos] at hvalid
  rw [String.ofList_toList, beq_iff_eq.mp hpos'] at hvalid'
  exact ⟨r, r', hr, Reader.goesOn_of_next? h', beq_iff_eq.mp hpos, beq_iff_eq.mp hpos', hvalid, hvalid'⟩

end Markup

end ReactiveViews
