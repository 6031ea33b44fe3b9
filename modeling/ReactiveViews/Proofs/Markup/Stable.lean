import Mathlib
import ReactiveViews.Proofs.Prototypes
/-!
# Compiling what was compiled

Reading is lenient, and writing is not: whatever was read is written in one way. So compiling the
markup of a template again gives the same template, if reading takes everything that can be written
(`recompiled_is_the_same`).

What reading makes of a source without markers is described by `Tree.IsRead`. Tags are in small
letters, attributes have proper names, a comment does not hold its own end, and no text is empty or
next to another. Every move of reading keeps this (`State.IsRead.move`).

One kind of tree can be written that does not read back. A `<!` that begins no comment is read as an
element without a name, and what is written for such an element is text to the reader.
-/

namespace ReactiveViews

open Markup Text

namespace Tree

/-- Two trees may stand next to each other: they are not both texts. -/
def Apart (t u : Tree) : Prop := ¬ (t.content.kind = .text ∧ u.content.kind = .text)

/-- **Read.** What reading makes of a source without markers. -/
inductive IsRead : Tree → Prop
  | text {data : String} (hd : data ≠ "") (hm : markerOpen ∉ data.toList) :
    IsRead (.node (.text data) [])
  | comment {data : String} (hd : ¬ "-->".toList <:+: data.toList) : IsRead (.node (.comment data) [])
  | element {tag : String} {attributes : Keyed String} {ts : List Tree}
    (ht : tag = "" ∨ IsTagName tag) (ha : IsAttributes attributes)
    (hv : isVoidTag tag = true → ts = []) (hts : ∀ t ∈ ts, IsRead t) (hc : ts.IsChain Apart) :
    IsRead (.node (openedContent tag attributes) ts)

/-- **Named.** No element in a tree is without a name. -/
def Named (t : Tree) : Prop := t.Everywhere fun c => c.kind ≠ .element ""

theorem writableAll_of_forall {ts : List Tree} (h : ∀ t ∈ ts, t.Writable) : WritableAll ts := by
  induction ts with
  | nil => trivial
  | cons t ts ih =>
    obtain ⟨ht, hts⟩ := List.forall_mem_cons.mp h
    exact ⟨ht, ih hts⟩

/-- What was read and has a name everywhere may be written. -/
theorem IsRead.writable {t : Tree} (h : t.IsRead) (hn : t.Named) : t.Writable := by
  induction h with
  | text hd hm => exact ⟨hm, rfl⟩
  | comment hd => exact ⟨hd, rfl⟩
  | @element tag attributes ts ht ha hv hts hc ih =>
    have hname : IsTagName tag := ht.resolve_left fun he => hn.root (by rw [he]; rfl)
    exact ⟨hname, ha, hv, writableAll_of_forall fun t hm => ih t hm (hn.child hm)⟩

/-- Trees of which each is joined and that are apart are joined. -/
theorem joinedAll_eq_self {ts : List Tree} (h : ∀ t ∈ ts, t.IsRead) (hc : ts.IsChain Apart)
    (hj : ∀ t ∈ ts, t.joined = t) : joinedAll ts = ts := by
  induction ts with
  | nil => rfl
  | cons t ts ih =>
    obtain ⟨ht, hts⟩ := List.forall_mem_cons.mp h
    obtain ⟨hjt, hjts⟩ := List.forall_mem_cons.mp hj
    have hrest := ih hts hc.tail hjts
    cases ht with
    | @text data hd hm =>
      have hjoin : joinedAll (.node (.text data) [] :: ts) = withText data (joinedAll ts) := rfl
      rw [hjoin, hrest]
      cases ts with
      | nil => simp [withText, hd]
      | cons u us =>
        have hu : u.content.kind ≠ .text := fun hk => (List.isChain_cons_cons.mp hc).1 ⟨rfl, hk⟩
        rw [withText_cons hu]
        simp [withText, hd]
    | comment hd => exact congrArg₂ List.cons hjt hrest
    | element _ _ _ _ _ => exact congrArg₂ List.cons hjt hrest

/-- Reading leaves nothing to be joined. -/
theorem IsRead.joined {t : Tree} (h : t.IsRead) : t.joined = t := by
  induction h with
  | text => rfl
  | comment => rfl
  | element ht ha hv hts hc ih =>
    rw [Tree.joined, joinedAll_eq_self hts hc ih]
    rfl

end Tree

namespace Markup

/-! ## Attributes -/

theorem isAttributes_put {attributes : Keyed String} {name value : String}
    (h : Tree.IsAttributes attributes) (hn : Tree.IsAttributeName name)
    (hv : markerOpen ∉ value.toList) : Tree.IsAttributes (attributes.put name value) := by
  refine ⟨?_, ?_⟩
  · rw [Keyed.names_put]
    split
    · exact h.1
    · next hm =>
      exact List.nodup_append'.mpr ⟨h.1, List.nodup_singleton _, by simpa using hm⟩
  · obtain ⟨-, h⟩ := h
    induction attributes with
    | nil => exact List.forall_mem_singleton.mpr ⟨hn, hv⟩
    | cons entry rest ih =>
      obtain ⟨hentry, hrest⟩ := List.forall_mem_cons.mp h
      rw [Keyed.put]
      split
      · exact List.forall_mem_cons.mpr ⟨⟨hentry.1, hv⟩, hrest⟩
      · exact List.forall_mem_cons.mpr ⟨hentry, ih hrest⟩

theorem infix_of_readQuoted {quote : Char} {c c' : Cursor} {value : List Char}
    (h : readQuoted quote c = .ok (value, c')) : value <:+: c.rest := by
  unfold readQuoted at h
  split at h
  · next v rest hs =>
    obtain ⟨rfl, -⟩ := Prod.mk.inj (Except.ok.inj h)
    rw [splitAt?_eq_some hs]
    exact (List.prefix_append _ _).isInfix
  · exact absurd h (by simp)

/-- What lies ahead of a cursor that has moved was ahead before. -/
theorem Cursor.Within.suffix {c c' : Cursor} (h : c'.Within c) : c'.rest <:+ c.rest := by
  obtain ⟨taken, ht, -⟩ := h
  exact ⟨taken, ht.symm⟩

theorem infix_of_readValue {c c' : Cursor} {value : List Char}
    (h : readValue c = .ok (value, c')) : value <:+: c.rest := by
  unfold readValue at h
  split at h
  · exact (infix_of_readQuoted h).trans c.next_within.suffix.isInfix
  · exact (infix_of_readQuoted h).trans c.next_within.suffix.isInfix
  · obtain ⟨rfl, -⟩ := Prod.mk.inj (Except.ok.inj h)
    exact (List.takeWhile_prefix _).isInfix

theorem infix_of_readOptionalValue {c c' : Cursor} {value : List Char}
    (h : readOptionalValue c = .ok (value, c')) : value <:+: c.rest := by
  unfold readOptionalValue at h
  split at h
  · exact (infix_of_readValue h).trans
      (c.next.skipBlanks_within.trans c.next_within).suffix.isInfix
  · obtain ⟨rfl, -⟩ := Prod.mk.inj (Except.ok.inj h)
    exact List.nil_infix

/-- An attribute that is read has a name, and its name and its value stand in the source. -/
theorem raw_of_readAttribute {c c' : Cursor} {raw : RawAttribute}
    (h : readAttribute c = .ok (some raw, c')) :
    raw.name ≠ [] ∧ (∀ d ∈ raw.name, isNameChar d = true) ∧ raw.name <:+: c.rest ∧
      raw.value <:+: c.rest := by
  unfold readAttribute Cursor.readWhile at h
  dsimp only at h
  split at h
  · exact absurd h (by simp)
  · next hne =>
    split at h
    · exact absurd h (by simp)
    · next value c'' hv =>
      obtain ⟨hraw, -⟩ := Prod.mk.inj (Except.ok.inj h)
      obtain rfl := Option.some.inj hraw
      refine ⟨by simpa using hne, fun d hd => List.mem_takeWhile_imp hd,
        (List.takeWhile_prefix _).isInfix, (infix_of_readOptionalValue hv).trans ?_⟩
      exact (Cursor.skipBlanks_within _).suffix.isInfix.trans (List.dropWhile_suffix _).isInfix

section Unmentioned

variable {source : List Char} (hm : ¬ Mentions source markerOpen)

include hm

theorem not_mem_part {part : List Char} (h : part <:+: source) : markerOpen ∉ part :=
  fun hp => hm (.inl (h.subset hp))

theorem not_mem_decode_part {part : List Char} (h : part <:+: source) :
    markerOpen ∉ decode part :=
  fun hp => hm ((mentions_of_mem_decode hp).mono h)

/-- A part of a source without markers is one text. -/
theorem segments_part {part : List Char} (h : part <:+: source) :
    segments part = .ok (textSegment part) :=
  segments_of_not_mem (not_mem_part hm h)

/-- **Without markers an attribute becomes an attribute.** -/
theorem isAttributes_attach {s s' : Supply} {path : Path} {pos : Nat} {raw : RawAttribute}
    {attributes attributes' : Keyed String} (hne : raw.name ≠ [])
    (hchars : ∀ d ∈ raw.name, isNameChar d = true) (hname : raw.name <:+: source)
    (hvalue : raw.value <:+: source) (hu : Tree.IsAttributes attributes)
    (ha : s.attach path pos raw attributes = .ok (attributes', s')) :
    Tree.IsAttributes attributes' ∧ s' = s := by
  have hunmarked := not_mem_part hm hname
  have hsegments := segments_part hm hvalue
  have hno : (textSegment raw.value).any Segment.isMarker = false := by
    unfold textSegment
    split <;> rfl
  cases Supply.attaches_of_attach ha with
  | bare hmark => exact absurd hmark hunmarked
  | one _ hs =>
    rw [Except.ok.inj (hsegments.symm.trans hs)] at hno
    exact absurd hno (by simp [Segment.isMarker])
  | mixed _ hs hv =>
    rw [← Except.ok.inj (hsegments.symm.trans hs)] at hv
    exact absurd (hv.symm.trans hno) (by simp)
  | plain =>
    refine ⟨isAttributes_put hu ⟨?_, fun d hd => ?_⟩ ?_, rfl⟩
    · rw [Ne, String.ofList_eq_empty_iff]
      exact hne
    · rw [String.toList_ofList] at hd
      have hd' := hchars d hd
      simp only [isNameChar, Bool.and_eq_true, Bool.not_eq_true', bne_iff_ne] at hd'
      exact ⟨hd'.1.1.1, hd'.1.1.2, hd'.1.2, hd'.2, fun he => hunmarked (he ▸ hd)⟩
    · rw [String.toList_ofList]
      exact not_mem_decode_part hm hvalue

/-- What is read of a tag are attributes, and nothing is taken from the supply. -/
theorem isAttributes_readAttributes {tag : String} {path : Path} {c c' : Cursor}
    {attributes attributes' : Keyed String} {s s' : Supply} {closesItself : Bool}
    (hc : c.rest <:+ source) (hu : Tree.IsAttributes attributes)
    (hr : readAttributes tag path c attributes s = .ok ((attributes', s', closesItself), c')) :
    Tree.IsAttributes attributes' ∧ s' = s := by
  fun_induction readAttributes tag path c attributes s with
  | case1 => exact absurd hr (by simp)
  | case2 | case3 =>
    simp only [Except.ok.injEq, Prod.mk.injEq] at hr
    obtain ⟨⟨rfl, rfl, -⟩, -⟩ := hr
    exact ⟨hu, rfl⟩
  | case4 => exact absurd hr (by simp)
  | case5 c attributes s d rest _ _ hrest c₂ ha ih =>
    have hne : c.skipBlanks.rest ≠ [] := by simp [hrest]
    have hwithin := (readAttribute_past hne ha).within.trans c.skipBlanks_within
    exact ih (hwithin.suffix.trans hc) hu hr
  | case6 => exact absurd hr (by simp)
  | case7 c attributes s d rest _ _ hrest raw c₂ ha attributes₁ s₁ hs ih =>
    have hne : c.skipBlanks.rest ≠ [] := by simp [hrest]
    have hwithin := (readAttribute_past hne ha).within.trans c.skipBlanks_within
    have hskip : c.skipBlanks.rest <:+: source := (c.skipBlanks_within.suffix.trans hc).isInfix
    obtain ⟨hraw, hchars, hname, hvalue⟩ := raw_of_readAttribute ha
    obtain ⟨hu₁, rfl⟩ := isAttributes_attach hm hraw hchars (hname.trans hskip) (hvalue.trans hskip)
      hu hs
    exact ih (hwithin.suffix.trans hc) hu₁ hr

end Unmentioned

/-! ## Moves -/

/-- **The name in a tag.** None is read behind an exclamation mark, and a proper one otherwise. -/
theorem State.OpensTag.tag {s : State} {name : List Char} {behind cursor : Cursor}
    {attributes : Keyed String} {supply : Supply} {closesItself : Bool}
    (h : s.OpensTag name behind attributes supply closesItself cursor) :
    String.ofList (name.map Char.toLower) = "" ∨
      Tree.IsTagName (String.ofList (name.map Char.toLower)) := by
  have hstart := h.isTag
  unfold startsTag at hstart
  split at hstart
  · next c rest hrest =>
    have hread : s.cursor.next.rest.takeWhile isTagChar = name := congrArg Prod.fst h.read
    have hnext : s.cursor.next.rest = c :: rest := by rw [Cursor.next, hrest]; rfl
    rw [hnext] at hread
    by_cases hc : isTagChar c = true
    · rw [List.takeWhile_cons_of_pos hc] at hread
      have halpha : c.isAlpha = true := by
        simp only [Bool.or_eq_true, beq_iff_eq] at hstart
        obtain (halpha | rfl) | rfl := hstart
        · exact halpha
        · exact absurd hc (by decide)
        · exact absurd hc (by decide)
      refine .inr ⟨c.toLower, (rest.takeWhile isTagChar).map Char.toLower, ?_,
        (small_toLower hc).2 halpha, fun d hd => ?_⟩
      · rw [← hread, String.toList_ofList, List.map_cons]
      · obtain ⟨e, he, rfl⟩ := List.mem_map.mp hd
        exact (small_toLower (List.mem_takeWhile_imp he)).1
    · rw [List.takeWhile_cons_of_neg hc] at hread
      exact .inl (by rw [← hread]; rfl)
  · exact absurd hstart (by simp)

/-- **A level that was read.** -/
structure Level.IsRead (l : Level) : Prop where
  content : l.content = .fragment ∨ ∃ tag attributes, l.content = openedContent tag attributes ∧
    (tag = "" ∨ Tree.IsTagName tag) ∧ Tree.IsAttributes attributes ∧ isVoidTag tag = false
  done : ∀ t ∈ l.done, t.IsRead
  apart : l.done.IsChain Tree.Apart

/-- **A state that was read.** The rest of the source is ahead, and a text at the end of the innermost
level is not followed by another. -/
structure State.IsRead (source : List Char) (s : State) : Prop where
  ahead : s.cursor.rest <:+ source
  placed : s.supply.targets = []
  top : s.top.IsRead
  outer : ∀ l ∈ s.outer, l.IsRead
  last : ∀ t ∈ s.top.done.head?, t.content.kind = .text →
    s.cursor.rest = [] ∨ startsTag s.cursor.rest = true

theorem Level.IsRead.add {l : Level} {t : Tree} (h : l.IsRead) (ht : t.IsRead)
    (hl : ∀ u ∈ l.done.head?, Tree.Apart t u) : (l.add t).IsRead where
  content := h.content
  done := List.forall_mem_cons.mpr ⟨ht, h.done⟩
  apart := List.isChain_cons.mpr ⟨hl, h.apart⟩

theorem Level.IsRead.close {l : Level} {tag : String} (h : l.IsRead)
    (hk : l.content.kind = .element tag) : l.close.IsRead := by
  obtain hc | ⟨tag, attributes, hc, ht, ha, hv⟩ := h.content
  · rw [hc] at hk
    cases hk
  · rw [Level.close, hc]
    refine .element ht ha (fun hvoid => absurd (hvoid.symm.trans hv) (by simp))
      (fun t hm => h.done t (List.mem_reverse.mp hm)) (List.isChain_reverse.mpr ?_)
    exact h.apart.imp fun t u hap hk => hap hk.symm

/-- Where a tag begins there is no run of text. -/
theorem startsTag_afterTextRun (cs : List Char) :
    afterTextRun cs = [] ∨ startsTag (afterTextRun cs) = true := by
  induction cs with
  | nil => exact .inl rfl
  | cons c cs ih =>
    rw [afterTextRun]
    split
    · next h => exact .inr h
    · exact ih

section Moves

variable {source : List Char} {s s' : State}

/-- A tag that is read keeps what is ahead, and its content was read. -/
theorem State.IsRead.opensTag {name : List Char} {behind cursor : Cursor}
    {attributes : Keyed String} {supply : Supply} {closesItself : Bool}
    (hm : ¬ Mentions source markerOpen) (h : s.IsRead source)
    (ht : s.OpensTag name behind attributes supply closesItself cursor) :
    cursor.rest <:+ source ∧ supply = s.supply ∧ Tree.IsAttributes attributes := by
  have hbehind : behind.Within s.cursor := by
    have hwithin := s.cursor.next.readWhile_within isTagChar
    rw [ht.read] at hwithin
    exact hwithin.trans s.cursor.next_within
  have hnone : Tree.IsAttributes [] := ⟨List.nodup_nil, by simp⟩
  obtain ⟨hu, hs⟩ := isAttributes_readAttributes hm (hbehind.suffix.trans h.ahead) hnone
    ht.attributes
  exact ⟨((readAttributes_within ht.attributes).trans hbehind).suffix.trans h.ahead, hs, hu⟩

/-- **Every move reads on.** -/
theorem State.IsRead.move (hm : ¬ Mentions source markerOpen) (h : s.IsRead source)
    (hmove : s.Moves s') : s'.IsRead source := by
  cases hmove with
  | @comment cursor data hrest hd =>
    have hdata : ¬ "-->".toList <:+: (String.ofList data).toList := by
      rwa [@String.toList_ofList data]
    refine ⟨?_, h.placed, h.top.add (.comment hdata) fun u _ hk => (by cases hk.1), h.outer,
      fun t ht hk => ?_⟩
    · refine List.IsSuffix.trans ?_ h.ahead
      rw [hrest]
      exact List.suffix_append _ _
    · obtain rfl := Option.some.inj ht
      cases hk
  | @closing cursor name parent outer hrest ho hk =>
    obtain ⟨hparent, houter⟩ := List.forall_mem_cons.mp (ho ▸ h.outer)
    have hnot : s.top.close.content.kind ≠ .text := by
      rw [Level.close, Tree.content, hk]
      simp
    refine ⟨?_, h.placed, hparent.add (h.top.close hk) fun u _ hk' => hnot hk'.1, houter,
      fun t ht hk' => ?_⟩
    · refine List.IsSuffix.trans ?_ h.ahead
      rw [hrest]
      exact (List.suffix_cons _ _).trans (List.suffix_append _ _)
    · obtain rfl := Option.some.inj ht
      exact absurd hk' hnot
  | @element name behind cursor attributes supply closesItself ht =>
    obtain ⟨hahead, rfl, hu⟩ := h.opensTag hm ht
    refine ⟨hahead, h.placed, h.top.add (.element ht.tag hu (fun _ => rfl) (by simp) .nil) fun u _ hk =>
      (by cases hk.1), h.outer, fun t ht' hk => ?_⟩
    obtain rfl := Option.some.inj ht'
    cases hk
  | @opened name behind cursor attributes supply closesItself ht hv =>
    obtain ⟨hahead, rfl, hu⟩ := h.opensTag hm ht
    exact ⟨hahead, h.placed, ⟨.inr ⟨_, _, rfl, ht.tag, hu, hv⟩, (by simp), .nil⟩,
      List.forall_mem_cons.mpr ⟨h.top, h.outer⟩, (by simp)⟩
  | @text first rest found cursor supply top hrest hc hs ha hn =>
    have hsplit : s.cursor.rest = (first :: textRun rest) ++ afterTextRun rest := by
      rw [hrest, List.cons_append, textRun_append_afterTextRun]
    have hinside : first :: textRun rest <:+: source := by
      refine List.IsInfix.trans ?_ h.ahead.isInfix
      rw [hsplit]
      exact (List.prefix_append _ _).isInfix
    have hfound := Except.ok.inj ((segments_part hm hinside).symm.trans hs)
    rw [← hfound] at ha
    obtain ⟨rfl, rfl⟩ := Prod.mk.inj (Except.ok.inj ha)
    have hread : Tree.IsRead (.node (.text (String.ofList (decode (first :: textRun rest)))) []) := by
      refine .text ?_ ?_
      · rw [Ne, String.ofList_eq_empty_iff]
        exact decode_ne_nil (List.cons_ne_nil _ _)
      · rw [String.toList_ofList]
        exact not_mem_decode_part hm hinside
    have hbehind : cursor.rest <:+ s.cursor.rest := by
      rw [hsplit, hc]
      exact List.suffix_append _ _
    refine ⟨hbehind.trans h.ahead, h.placed, h.top.add hread fun u hu hk => ?_, h.outer,
      fun _ _ _ => hc ▸ startsTag_afterTextRun rest⟩
    -- Another text in front would have gone on up to here.
    obtain hnil | hstart := h.last u hu hk.2
    · exact absurd (hrest.symm.trans hnil) (List.cons_ne_nil _ _)
    · exact absurd (hstart.symm.trans hn) (by simp)

theorem isRead_of_reads (hm : ¬ Mentions source markerOpen) (h : Reads (initial source []) s) :
    s.IsRead source := by
  induction h with
  | refl => exact ⟨List.suffix_refl _, rfl, ⟨.inl rfl, nofun, .nil⟩, nofun, nofun⟩
  | tail _ hstep ih => exact ih.move hm (moves_of_step hstep)

/-- **What a source without markers is compiled to** was read. -/
theorem isRead_of_run {c : Compiled} (hm : ¬ Mentions source markerOpen)
    (h : run (initial source []) = .ok c) :
    c.targets = [] ∧ (∀ t ∈ c.trees, t.IsRead) ∧ c.trees.IsChain Tree.Apart := by
  obtain ⟨s, hreads, -, hfinish⟩ := reads_of_run h
  have hs := isRead_of_reads hm hreads
  unfold finish at hfinish
  split at hfinish
  · exact absurd hfinish (by simp)
  · obtain rfl := Step.done.inj (Except.ok.inj hfinish)
    refine ⟨hs.placed, fun t ht => hs.top.done t (List.mem_reverse.mp ht),
      List.isChain_reverse.mpr ?_⟩
    exact hs.top.apart.imp fun t u hap hk => hap hk.symm

end Moves

/-! ## What is written for an element without a name -/

/-- What has been read on the way to a result is in it. -/
theorem content?_of_run {s : State} {c : Compiled} (hs : s.Nested) (h : run s = .ok c) {p : Path}
    {x : Content} (hp : p.content? s.tree = some x) :
    p.content? (.node .fragment c.trees) = some x := by
  obtain ⟨last, hreads, -, hfinish⟩ := reads_of_run h
  obtain ⟨hn, hext⟩ := nested_of_reads hreads hs
  rw [(result_of_finish hn hfinish).2]
  exact hext p x hp

/-- A text in front of which no marker opens is a segment, or the beginning of one. -/
theorem segments_append {a b : List Char} (ha : a ≠ []) (hm : markerOpen ∉ a) {found : List Segment}
    (h : segments (a ++ b) = .ok found) :
    ∃ more others, found = .text (a ++ more) :: others := by
  rw [segments] at h
  split at h
  · obtain rfl := Except.ok.inj h
    exact ⟨b, [], by simp [textSegment, ha]⟩
  · next before after hs =>
    have hbefore : ∃ more, before = a ++ more := by
      obtain ⟨more, rfl, -⟩ | ⟨cs, rfl, hcs⟩ := List.append_eq_append_iff.mp (splitAt?_eq_some hs)
      · exact ⟨more, rfl⟩
      · cases cs with
        | nil => exact ⟨[], by simp⟩
        | cons d cs =>
          obtain ⟨rfl, -⟩ := List.cons.inj hcs
          exact absurd (List.mem_append_right before (List.mem_cons_self ..)) hm
    obtain ⟨more, rfl⟩ := hbefore
    split at h
    · exact absurd h (by simp)
    · split at h
      · exact absurd h (by simp)
      · next rest _ _ index _ =>
        cases hr : segments rest with
        | error e =>
          rw [hr] at h
          cases h
        | ok others =>
          rw [hr] at h
          obtain rfl := Except.ok.inj h
          exact ⟨more, .marker index :: others, by simp [textSegment, ha]⟩

/-- No tag begins where an element without a name is written. -/
theorem write_nameless {t : Tree} (hk : t.content.kind = .element "") (rest : List Char) :
    ∃ x, t.write ++ rest = '<' :: x ∧ startsTag ('<' :: x) = false := by
  obtain ⟨⟨kind, data, attributes, properties⟩, ts⟩ := t
  obtain rfl : kind = .element "" := hk
  have hvoid : isVoidTag "" = false := by decide +kernel
  obtain ⟨c, more, hc, hc'⟩ :=
    inTag_eq_cons attributes (Tree.writeAll ts ++ (Tree.writeClosing "" ++ rest))
  refine ⟨c :: more, ?_, ?_⟩
  · rw [← hc]
    simp [Tree.write, hvoid, Tree.writeOpening, inTag]
  · rcases hc' with rfl | rfl <;> rfl

/-- What was read and is not a text begins with a tag, if it has a name. -/
theorem startsTag_of_isRead {t : Tree} (h : t.IsRead) (hk : t.content.kind ≠ .text)
    (hn : t.content.kind ≠ .element "") (rest : List Char) : startsTag (t.write ++ rest) = true := by
  cases h with
  | text => exact absurd rfl hk
  | comment => rfl
  | element ht =>
    exact startsTag_writeElement rfl (ht.resolve_left fun he => hn (congrArg NodeKind.element he)) rest

/-- A run of text goes on over an opening bracket that begins no tag. -/
theorem textRun_append_lt {a x : List Char} (ha : '<' ∉ a) (hx : startsTag ('<' :: x) = false) :
    textRun (a ++ '<' :: x) = a ++ '<' :: textRun x := by
  induction a with
  | nil => simp [textRun, hx]
  | cons c a ih =>
    rw [List.mem_cons, not_or] at ha
    have hs : startsTag (c :: (a ++ '<' :: x)) = false := by
      unfold startsTag
      split
      · next h => exact absurd (List.cons.inj h).1.symm ha.1
      · rfl
    rw [List.cons_append, textRun, if_neg (by simp [hs]), ih ha.2, List.cons_append]

/-- **A bracket that begins no tag** becomes part of a text, together with the text in front of it. -/
theorem text_of_lt {s : State} {c : Compiled} {data : String} {x : List Char} (hs : s.Nested)
    (h : run s = .ok c) (hrest : s.cursor.rest = escape .content data.toList ++ '<' :: x)
    (hx : startsTag ('<' :: x) = false) (hm : markerOpen ∉ data.toList) :
    ∃ more, Path.content? (s.top.path ++ [s.top.done.length]) (.node .fragment c.trees) =
      some (.text (String.ofList (data.toList ++ '<' :: more))) := by
  have hstart : startsTag s.cursor.rest = false := by
    rw [hrest]
    cases he : escape .content data.toList with
    | nil => exact hx
    | cons first more =>
      have hfirst : first ≠ '<' := fun hf =>
        lt_not_mem_escape .content data.toList (by rw [he, hf]; exact List.mem_cons_self ..)
      unfold startsTag
      split
      · next hc => exact absurd (List.cons.inj hc).1 hfirst
      · rfl
  cases hstep : step s with
  | error e =>
    rw [run, hstep] at h
    exact absurd h (by simp)
  | ok r =>
    cases r with
    | done result =>
      rw [(finish_of_step hstep).1] at hrest
      exact absurd hrest.symm (by simp)
    | more s' =>
      have hmove := moves_of_step hstep
      have hrun : run s' = .ok c := (run_of_reads (.single hstep)).symm.trans h
      have hn := (hmove.nested hs).1
      cases hmove with
      | comment hr | closing hr =>
        rw [hr] at hstart
        cases hstart
      | element ht | opened ht => exact absurd (ht.isTag.symm.trans hstart) (by simp)
      | @text first rest found cursor supply top hr hc hsegs ha =>
        have htext : first :: textRun rest =
            (escape .content data.toList ++ ['<']) ++ textRun x := by
          have hall : first :: textRun rest = textRun (first :: rest) := by
            rw [textRun, if_neg (by simp [← hr, hstart])]
          rw [hall, ← hr, hrest, textRun_append_lt (lt_not_mem_escape _ _) hx, List.append_assoc,
            List.singleton_append]
        have hunmarked : markerOpen ∉ escape .content data.toList ++ ['<'] := by
          rw [List.mem_append, not_or]
          exact ⟨markerOpen_not_mem_escape hm, by decide⟩
        rw [htext] at hsegs
        obtain ⟨more, others, rfl⟩ := segments_append (by simp) hunmarked hsegs
        have hdecode : decode (escape .content data.toList ++ ['<'] ++ more) =
            data.toList ++ '<' :: decode more := by
          rw [List.append_assoc, decode_escape_append, List.singleton_append,
            decode_cons (by decide)]
        rw [addText, hdecode] at ha
        obtain ⟨hpath, -, later, hdone⟩ := addText_adds ha
        refine ⟨decode more, content?_of_run hn hrun ?_⟩
        rw [show s.top.path = top.path from hpath.symm]
        refine content?_tree_of_getElem? hn (t := .node (.text _) []) ?_
        rw [← hdone, Level.add, List.reverse_append, List.reverse_cons, List.append_assoc,
          List.getElem?_append_right (by simp)]
        simp

/-- **Misread.** Somewhere in the tree that is written for a place, reading comes to something else. -/
def State.Misreads (s : State) (c : Compiled) (place : Nat) (t : Tree) : Prop :=
  ∃ (q : Path) (x : Content),
    Path.content? (s.top.path ++ place :: q) (.node .fragment c.trees) = some x ∧
      q.content? t ≠ some x

/-- Where a text is written in front of an element without a name, a longer one is read. -/
theorem misreads_text {s : State} {c : Compiled} {data : String} {t u : Tree} {rest : List Char}
    (hs : s.Nested) (hrun : run s = .ok c)
    (hrest : s.cursor.rest = escape .content data.toList ++ (u.write ++ rest))
    (hm : markerOpen ∉ data.toList) (hu : u.content.kind = .element "")
    (ht : t.content.kind = .text → t.content.data = data) :
    s.Misreads c s.top.done.length t := by
  obtain ⟨x, hx, hstart⟩ := write_nameless hu rest
  obtain ⟨more, hread⟩ := text_of_lt hs hrun (hx ▸ hrest) hstart hm
  refine ⟨[], _, hread, fun he => ?_⟩
  have hcontent : t.content = .text (String.ofList (data.toList ++ '<' :: more)) :=
    Option.some.inj he
  have hdata := ht (by rw [hcontent]; rfl)
  rw [hcontent] at hdata
  have hlength := congrArg (fun text : String => text.toList.length) hdata
  simp [Content.text] at hlength

section Misread

variable {c : Compiled}

/-- Behind trees that are read as they were written something is misread. -/
theorem misreads_all {ts : List Tree} (h : ∀ t ∈ ts, t.IsRead) (hc : ts.IsChain Tree.Apart)
    (hone : ∀ t ∈ ts, ¬ t.Named → ∀ {s : State} {rest : List Char}, s.Nested →
      s.cursor.rest = t.write ++ rest → run s = .ok c → s.Misreads c s.top.done.length t)
    (hn : ∃ t ∈ ts, ¬ t.Named) {s : State} {rest : List Char} (hs : s.Nested)
    (hrest : s.cursor.rest = Tree.writeAll ts ++ rest) (hrun : run s = .ok c) :
    ∃ i t, ts[i]? = some t ∧ s.Misreads c (s.top.done.length + i) t := by
  induction ts generalizing s with
  | nil => exact absurd hn (by simp)
  | cons t ts ih =>
    obtain ⟨ht, hts⟩ := List.forall_mem_cons.mp h
    obtain ⟨honet, honets⟩ := List.forall_mem_cons.mp hone
    rw [Tree.writeAll, List.append_assoc] at hrest
    by_cases hnt : t.Named
    · have hrestn : ∃ u ∈ ts, ¬ u.Named := by
        obtain ⟨u, hu, hnu⟩ := hn
        exact ⟨u, (List.mem_cons.mp hu).resolve_left fun he => hnu (he ▸ hnt), hnu⟩
      -- Once the first tree has been read the others are misread behind it.
      have hbehind : ∀ {t' : Tree} {pos : Nat},
          Reads s ((s.adding [t']).at pos (Tree.writeAll ts ++ rest)) →
            ∃ i u, (t :: ts)[i]? = some u ∧ s.Misreads c (s.top.done.length + i) u := by
        intro t' pos hreads
        obtain ⟨i, u, hi, q, x, hx, hne⟩ := ih hts hc.tail honets hrestn (nested_of_reads hreads hs).1
          rfl ((run_of_reads hreads).symm.trans hrun)
        have hplace : s.top.done.length + (i + 1) =
            ((s.adding [t']).at pos (Tree.writeAll ts ++ rest)).top.done.length + i := by
          simp [State.adding, State.at]
          omega
        exact ⟨i + 1, u, hi, q, x, hplace ▸ hx, hne⟩
      by_cases hk : t.content.kind = .text
      · cases ht with
        | comment | element => cases hk
        | @text data hd hm =>
          have hwrite : (Tree.node (.text data) []).write = escape .content data.toList := rfl
          rw [hwrite] at hrest
          cases ts with
          | nil => exact absurd hrestn (by simp)
          | cons u us =>
            rw [Tree.writeAll, List.append_assoc] at hrest hbehind
            by_cases hu : u.content.kind = .element ""
            · exact ⟨0, _, rfl, misreads_text hs hrun hrest hm hu fun _ => rfl⟩
            · have hapart : u.content.kind ≠ .text := fun hku =>
                (List.isChain_cons_cons.mp hc).1 ⟨rfl, hku⟩
              obtain ⟨pos, hstep⟩ := step_text hrest hd hm
                (.inr (startsTag_of_isRead (hts u (List.mem_cons_self ..)) hapart hu _))
              exact hbehind (.single hstep)
      · obtain ⟨pos, hreads⟩ := reads_tree (ht.writable hnt) hk hrest
        exact hbehind hreads
    · exact ⟨0, t, rfl, honet hnt hs hrest hrun⟩

/-- **What has an element without a name is misread.** -/
theorem misreads_of_isRead {t : Tree} (ht : t.IsRead) (hn : ¬ t.Named) {s : State}
    {rest : List Char} (hs : s.Nested) (hrest : s.cursor.rest = t.write ++ rest)
    (hrun : run s = .ok c) : s.Misreads c s.top.done.length t := by
  induction ht generalizing s rest with
  | text | comment => exact absurd (Tree.everywhere_node nofun (by simp)) hn
  | @element tag attributes ts ht ha hv hts hc ih =>
    by_cases he : tag = ""
    · have hempty : s.cursor.rest = escape .content "".toList ++ (_ ++ rest) := hrest
      exact misreads_text hs hrun hempty (by decide) (congrArg NodeKind.element he) nofun
    · have hname := ht.resolve_left he
      have hinside : ∃ t ∈ ts, ¬ t.Named := by
        by_contra hall
        push Not at hall
        exact hn (Tree.everywhere_node (fun hk => he (NodeKind.element.inj hk)) hall)
      have hopen : isVoidTag tag = false := by
        by_contra hvoid
        obtain ⟨t, hmem, -⟩ := hinside
        rw [hv (by simpa using hvoid)] at hmem
        exact List.not_mem_nil hmem
      have hwrite : (Tree.node (openedContent tag attributes) ts).write ++ rest =
          Tree.writeOpening tag attributes ++
            (Tree.writeAll ts ++ (Tree.writeClosing tag ++ rest)) := by
        simp [Tree.write, openedContent, Content.element, hopen]
      obtain ⟨pos, hstep⟩ := step_opening (hrest.trans hwrite) hname ha
      rw [if_neg (by simp [hopen])] at hstep
      have hread : Reads s _ := .single hstep
      obtain ⟨i, u, hi, q, x, hx, hne⟩ := misreads_all hts hc
        (fun t hmem hnt _ _ hs hrest hrun => ih t hmem hnt hs hrest hrun) hinside
        (nested_of_reads hread hs).1 rfl ((run_of_reads hread).symm.trans hrun)
      refine ⟨i :: q, x, ?_, fun hq => hne ?_⟩
      · rw [List.length_nil, Nat.zero_add, Level.nextPath, List.append_assoc] at hx
        exact hx
      · rw [Path.content?, Path.subtree?, Tree.children, hi] at hq
        exact hq

end Misread

/-- **What was compiled without markers compiles to the same again** if and only if none of its elements
is without a name. -/
theorem compile_again {m : String} {c : Compiled} (hm : ¬ Mentions m.toList markerOpen)
    (h : compile [m] [] = .ok c) :
    compile [(Tree.node .fragment c.trees).html] [] = .ok c ↔ (Tree.node .fragment c.trees).Named := by
  have hrun : run (initial m.toList []) = .ok c := by
    have hjoin : join 0 [m] [] = (m.toList, []) := by simp [join]
    have hcompile := Machine.run_of_compile h
    rwa [hjoin] at hcompile
  obtain ⟨htargets, hread, hapart⟩ := isRead_of_run hm hrun
  constructor
  · intro hagain
    by_contra hn
    have hsome : ∃ t ∈ c.trees, ¬ t.Named := by
      by_contra hall
      push Not at hall
      exact hn (Tree.everywhere_node (by simp [Content.fragment]) hall)
    have hjoin : join 0 [(Tree.node .fragment c.trees).html] [] = (Tree.writeAll c.trees, []) := by
      simp [join, Tree.html, Tree.write, Content.fragment]
    have hcompile := Machine.run_of_compile hagain
    rw [hjoin] at hcompile
    obtain ⟨i, t, hi, q, x, hx, hne⟩ := misreads_all hread hapart
      (fun t hmem hnt _ _ hs hrest hrun => misreads_of_isRead (hread t hmem) hnt hs hrest hrun) hsome
      (show (initial (Tree.writeAll c.trees) []).Nested from ⟨rfl, rfl⟩)
      (List.append_nil _).symm hcompile
    have hat : Path.content? (i :: q) (.node .fragment c.trees) = some x := by
      simpa [initial] using hx
    rw [Path.content?, Path.subtree?, Tree.children, hi] at hat
    exact hne hat
  · intro hn
    have hall : Tree.WritableAll c.trees :=
      Tree.writableAll_of_forall fun t ht => (hread t ht).writable (hn.child ht)
    rw [compile_html (t := .node .fragment c.trees) rfl hall, Tree.children,
      Tree.joinedAll_eq_self hread hapart fun t ht => (hread t ht).joined, ← htargets]

/-- Without directives nothing has to be anchored. -/
theorem anchored_of_targets {c : Compiled} (h : c.targets = []) : c.anchored = c := by
  rw [Compiled.anchored, if_neg]
  simp [Compiled.needsAnchor, h]

end Markup

/-- **Compiling the markup of a template again gives the same template** if and only if none of its
elements is without a name. It is said of templates of markup in which no character that opens a marker
is mentioned. -/
theorem recompiled_template_is_the_same {m : String} {calls : Calls} {w w' : World} {t : TemplateId}
    (hm : ¬ Mentions m.toList markerOpen)
    (h : Machine.compileTemplate [m] [] calls w = some (.ok t, w')) (calls' : Calls) (v : World) :
    (∃ t' v', Machine.compileTemplate [w'.document.html (w'.templates.get t).fragment] [] calls' v =
        some (.ok t', v') ∧
      v'.document.tree (v'.templates.get t').fragment =
        w'.document.tree (w'.templates.get t).fragment ∧
      (v'.templates.get t').directives = []) ↔
    (w'.document.tree (w'.templates.get t).fragment).Named := by
  obtain ⟨c, hc, -, -, hholds, -⟩ := Machine.compileTemplate_holds h
  have htargets := (isRead_of_run hm (by simpa [join] using Machine.run_of_compile hc)).1
  rw [anchored_of_targets htargets] at hholds
  rw [Document.html, Document.tree_of_shows hholds.shows, ← compile_again hm hc]
  constructor
  · rintro ⟨t', v', h', htree, hdirectives⟩
    obtain ⟨c', hc', -, -, hholds', -⟩ := Machine.compileTemplate_holds h'
    have htargets' : c'.targets = [] := by
      rw [hholds'.directives, Compiled.targets_anchored] at hdirectives
      exact List.map_eq_nil_iff.mp hdirectives
    rw [anchored_of_targets htargets'] at hholds'
    rw [Document.tree_of_shows hholds'.shows] at htree
    obtain ⟨-, htrees⟩ := Tree.node.inj htree
    obtain rfl : c' = c := by
      cases c
      cases c'
      exact congrArg₂ Compiled.mk htrees (htargets'.trans htargets.symm)
    exact hc'
  · intro hagain
    obtain ⟨v', h'⟩ := Machine.compileTemplate_of_compile hagain calls' v
    obtain ⟨c', hc', -, -, hholds', -⟩ := Machine.compileTemplate_holds h'
    obtain rfl : c = c' := Except.ok.inj (hagain.symm.trans hc')
    rw [anchored_of_targets htargets] at hholds'
    exact ⟨_, v', h', Document.tree_of_shows hholds'.shows, hholds'.directives.trans htargets⟩

/-- A paragraph with an attribute, a text and a void element. -/
def titledParagraph : Tree :=
  .node .fragment [.node { Content.element "p" with attributes := [("title", "a")] }
    [.node (.text "b") [], .node (.element "br") []]]

theorem titled_paragraph_is_the_same :
    ¬ Mentions titledParagraph.html.toList markerOpen ∧
      ∃ t w', Machine.compileTemplate [titledParagraph.html] [] (fun _ _ => none) World.empty =
          some (.ok t, w') ∧
        ∃ t' v', Machine.compileTemplate [w'.document.html (w'.templates.get t).fragment] []
            (fun _ _ => none) w' = some (.ok t', v') ∧
          v'.document.tree (v'.templates.get t').fragment = titledParagraph := by
  have hm : ¬ Mentions titledParagraph.html.toList markerOpen := by
    have hnone : markerOpen ∉ titledParagraph.html.toList ∧ '&' ∉ titledParagraph.html.toList := by
      decide +kernel
    rintro (hmem | ⟨name, hinside, -⟩)
    · exact hnone.1 hmem
    · exact hnone.2 (hinside.subset (List.mem_cons_self ..))
  have hw : Tree.WritableAll titledParagraph.children := by
    have hp : isVoidTag "p" = false := by decide +kernel
    exact ⟨⟨⟨'p', [], rfl, rfl, (by simp)⟩, ⟨by decide, by decide⟩,
      fun h => absurd (h.symm.trans hp) (by simp), ⟨by decide, rfl⟩,
      ⟨⟨'b', ['r'], rfl, rfl, List.forall_mem_singleton.mpr (by decide)⟩, ⟨by decide, nofun⟩,
        fun _ => rfl, trivial⟩, trivial⟩, trivial⟩
  have hn : titledParagraph.Named := by
    refine Tree.everywhere_node (by decide) (List.forall_mem_singleton.mpr ?_)
    refine Tree.everywhere_node (by decide) (List.forall_mem_cons.mpr ⟨?_, ?_⟩)
    · exact Tree.everywhere_node (by decide) (by simp)
    · exact List.forall_mem_singleton.mpr (Tree.everywhere_node (by decide) (by simp))
  obtain ⟨t, w', h, htree, -⟩ := Machine.compileTemplate_html (t := titledParagraph) rfl hw
    (fun _ _ => none) World.empty
  have hjoined : Tree.node .fragment (Tree.joinedAll titledParagraph.children) = titledParagraph :=
    rfl
  rw [hjoined] at htree
  obtain ⟨t', v', h', hsame, -⟩ := (recompiled_template_is_the_same hm h (fun _ _ => none) w').mpr
    (htree ▸ hn)
  exact ⟨hm, t, w', h, t', v', h', hsame.trans htree⟩

end ReactiveViews
