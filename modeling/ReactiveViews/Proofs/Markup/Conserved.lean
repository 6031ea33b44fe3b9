import ReactiveViews.Proofs.Markup.Spending
import ReactiveViews.Proofs.Prototypes
/-!
# Interpolations are conserved

When a source has been read every interpolation was used by one directive, unless its marker stands where
reading looks for none: in a comment, or in the value of an attribute that is a directive (`Ignored`). In a
comment the marker stays behind, and nowhere else does any part of one (`Tree.Unmarked`).

The two are kept together with the account of what is spent by every move (`State.Accounts.move`), and so
they hold of what reading comes to (`conserves_of_run`) and of the template that is made of it
(`interpolations_are_conserved`).
-/

namespace ReactiveViews

namespace Markup

open Text Relation

/-! ## What is left of markers -/

/-- **Ignored.** The marker of an interpolation stands where reading looks for none: it has become part
of a comment, or it stands in the value of an attribute whose name holds a marker. -/
inductive Ignored (source : List Char) (dynamics : List Dynamic) (t : Tree) (i : Nat) : Prop
  | inComment {path : Path} {data : String} (h : path.content? t = some (.comment data))
    (hi : marker i <:+: data.toList) : Ignored source dynamics t i
  | inValue {s : State} {name : List Char} {behind cursor : Cursor} {attributes : Keyed String}
    {supply : Supply} {closesItself : Bool} {raw : RawAttribute}
    (hs : Reads (initial source dynamics) s)
    (h : s.OpensTag name behind attributes supply closesItself cursor)
    (ha : behind.HasAttribute raw) (hm : markerOpen ∈ raw.name) (hi : marker i <:+: raw.value) :
    Ignored source dynamics t i

/-- What is ignored stays so as more is read. -/
theorem Ignored.mono {source : List Char} {dynamics : List Dynamic} {t t' : Tree} {i : Nat}
    (h : Ignored source dynamics t i) (ht : t.Extends t') : Ignored source dynamics t' i := by
  cases h with
  | inComment h hi => exact .inComment (ht _ _ h) hi
  | inValue hs h ha hm hi => exact .inValue hs h ha hm hi

end Markup

open Markup

/-- **Unmarked.** A node holds no part of a marker, unless it is a comment; then it holds whole markers of
ignored interpolations. -/
structure Content.Unmarked (ignored : List Nat) (c : Content) : Prop where
  tag (tag : String) : c.kind = .element tag → Plain tag.toList
  text : c.kind = .text → ReadPlain c.data
  comment : c.kind = .comment →
    ∃ j k, Numbered j k c.data.toList ∧ ∀ i ∈ List.Ico j k, i ∈ ignored
  attributes : UnmarkedAttributes c.attributes
  properties : c.properties = []

/-- Every node of a tree is unmarked. -/
def Tree.Unmarked (ignored : List Nat) (t : Tree) : Prop :=
  ∀ (p : Path) (c : Content), p.content? t = some c → c.Unmarked ignored

/-- A level and all in it are unmarked. -/
structure Markup.Level.Unmarked (ignored : List Nat) (l : Level) : Prop where
  content : l.content.Unmarked ignored
  done : ∀ t ∈ l.done, t.Unmarked ignored

section Unmarked

variable {ignored ignored' : List Nat} {c : Content} {t : Tree} {l : Level}

theorem Content.Unmarked.mono (h : c.Unmarked ignored) (hi : ∀ i ∈ ignored, i ∈ ignored') :
    c.Unmarked ignored' where
  tag := h.tag
  text := h.text
  comment hk := by
    obtain ⟨j, k, hn, hall⟩ := h.comment hk
    exact ⟨j, k, hn, fun i hm => hi i (hall i hm)⟩
  attributes := h.attributes
  properties := h.properties

theorem Tree.Unmarked.mono (h : t.Unmarked ignored) (hi : ∀ i ∈ ignored, i ∈ ignored') :
    t.Unmarked ignored' :=
  fun p c hc => (h p c hc).mono hi

/-- A tree is unmarked if its root and all trees below are. -/
theorem Tree.Unmarked.node {ts : List Tree} (hc : c.Unmarked ignored)
    (hts : ∀ t ∈ ts, t.Unmarked ignored) : (Tree.node c ts).Unmarked ignored :=
  Tree.everywhere_node hc hts

theorem Tree.Unmarked.child {ts : List Tree} (h : (Tree.node c ts).Unmarked ignored) (ht : t ∈ ts) :
    t.Unmarked ignored :=
  Tree.Everywhere.child h ht

theorem Markup.Level.Unmarked.mono (h : l.Unmarked ignored) (hi : ∀ i ∈ ignored, i ∈ ignored') :
    l.Unmarked ignored' :=
  ⟨h.content.mono hi, fun t ht => (h.done t ht).mono hi⟩

theorem Markup.Level.Unmarked.add (h : l.Unmarked ignored) (ht : t.Unmarked ignored) :
    (l.add t).Unmarked ignored :=
  ⟨h.content, List.forall_mem_cons.mpr ⟨ht, h.done⟩⟩

theorem Markup.Level.Unmarked.close (h : l.Unmarked ignored) : l.close.Unmarked ignored :=
  .node h.content fun t ht => h.done t (List.mem_reverse.mp ht)

/-- What is read within unmarked levels is unmarked. -/
theorem unmarked_enclose {outer : List Level} (h : ∀ l ∈ outer, l.Unmarked ignored)
    (ht : t.Unmarked ignored) : (enclose outer t).Unmarked ignored := by
  induction outer generalizing t with
  | nil => exact ht
  | cons l outer ih =>
    obtain ⟨hl, houter⟩ := List.forall_mem_cons.mp h
    exact ih houter (hl.add ht).close

theorem unmarked_fragment : Content.fragment.Unmarked ignored :=
  ⟨nofun, nofun, nofun, nofun, rfl⟩

theorem unmarked_text {data : String} (h : ReadPlain data) :
    (Content.text data).Unmarked ignored :=
  ⟨nofun, fun _ => h, nofun, nofun, rfl⟩

theorem unmarked_comment {data : List Char} {j k : Nat} (h : Numbered j k data)
    (hi : ∀ i ∈ List.Ico j k, i ∈ ignored) : (Content.comment (String.ofList data)).Unmarked ignored :=
  ⟨nofun, nofun, fun _ => ⟨j, k, String.toList_ofList.symm ▸ h, hi⟩, nofun, rfl⟩

theorem unmarked_element {name : List Char} {attributes : Keyed String} (hn : Plain name)
    (ha : UnmarkedAttributes attributes) :
    (openedContent (String.ofList name) attributes).Unmarked ignored :=
  ⟨fun _ h => by
    obtain rfl := NodeKind.element.inj h
    rwa [String.toList_ofList], nofun, nofun, ha, rfl⟩

theorem unmarked_anchor : (Tree.node (.comment "") []).Unmarked ignored :=
  have hempty : (Content.comment (String.ofList [])).Unmarked ignored :=
    unmarked_comment (.nil 0) (by simp)
  .node hempty (by simp)

theorem unmarked_placeholder (d : Directive) : (placeholder d).Unmarked ignored := by
  cases d with
  | bind b aspect => exact .node (unmarked_text ⟨[], .nil, by rw [Text.decode]⟩) (by simp)
  | _ => exact unmarked_anchor

end Unmarked

namespace Markup

open Text Relation

variable {source : List Char} {dynamics : List Dynamic} {s s' : State} {j k : Nat}
  {groups : List (List Nat)} {ignored : List Nat}

/-! ## Moves -/

/-- A run of text spends the interpolations in it. -/
theorem Supply.Spent.addText {pos : Nat} {found : List Segment} {top top' : Level} {s s' : Supply}
    (h : s.Spent dynamics j groups ignored) (hf : Segmented j k found) (ht : top.Unmarked ignored)
    (ha : addText pos found top s = .ok (top', s')) :
    ∃ groups', s'.Spent dynamics k groups' ignored ∧ top'.Unmarked ignored := by
  induction hf generalizing top s groups with
  | nil =>
    obtain ⟨rfl, rfl⟩ := Prod.mk.inj (Except.ok.inj ha)
    exact ⟨groups, h, ht⟩
  | @text _ _ cs _ hp _ ih =>
    have hone : (Tree.node (.text (String.ofList (decode cs))) []).Unmarked ignored :=
      .node (unmarked_text ⟨cs, hp, rfl⟩) (by simp)
    exact ih h (ht.add hone) ha
  | marker _ ih =>
    rw [addText_marker] at ha
    split at ha
    · exact absurd ha (by simp)
    · next d s₁ hd => exact ih (h.place hd _ .content) (ht.add (unmarked_placeholder _)) ha

/-- **The account of a state.** The first interpolations are spent, the others are ahead, and what has
been read is unmarked. -/
structure State.Accounts (source : List Char) (dynamics : List Dynamic) (s : State) (j : Nat)
    (groups : List (List Nat)) (ignored : List Nat) : Prop where
  ahead : Numbered j dynamics.length s.cursor.rest
  spent : s.supply.Spent dynamics j groups ignored
  explained : ∀ i ∈ ignored, Ignored source dynamics s.tree i
  top : s.top.Unmarked ignored
  outer : ∀ l ∈ s.outer, l.Unmarked ignored

/-- The characters of a tag are no part of a marker. -/
theorem plain_tag {name : List Char} (h : ∀ c ∈ name, isTagChar c = true) :
    Plain (name.map Char.toLower) := by
  have hsmall : ∀ n < 128, (Char.ofNat n).toLower ≠ markerOpen ∧ (Char.ofNat n).toLower ≠ markerClose := by
    decide +kernel
  intro d hd
  obtain ⟨c, hc, rfl⟩ := List.mem_map.mp hd
  exact Char.ofNat_toNat c ▸ hsmall c.toNat (toNat_lt_of_isTagChar (h c hc))

theorem mem_skipBlank {c : Char} {cs : List Char} (hc : isBlank c = false) (h : c ∈ cs) :
    c ∈ skipBlank cs := by
  rw [← List.takeWhile_append_dropWhile (p := isBlank) (l := cs), List.mem_append] at h
  exact h.resolve_left fun hm => absurd ((List.mem_takeWhile_imp hm).symm.trans hc) (by simp)

theorem mem_trim {c : Char} {cs : List Char} (hc : isBlank c = false) (h : c ∈ cs) : c ∈ trim cs :=
  List.mem_reverse.mpr (mem_skipBlank hc (List.mem_reverse.mpr (mem_skipBlank hc h)))

/-- What a run of text leaves begins with a tag. -/
theorem head?_afterTextRun {c : Char} {cs : List Char} (h : (afterTextRun cs).head? = some c) :
    c = '<' := by
  induction cs with
  | nil => exact absurd h (by simp [afterTextRun])
  | cons d cs ih =>
    rw [afterTextRun] at h
    split at h
    · next hstart =>
      obtain rfl : d = c := Option.some.inj h
      unfold startsTag at hstart
      split at hstart
      · next hcons => exact (List.cons.inj hcons).1
      · exact absurd hstart (by simp)
    · exact ih h

/-- **A tag keeps the account.** -/
theorem State.Accounts.opensTag {name : List Char} {behind cursor : Cursor}
    {attributes : Keyed String} {supply : Supply} {closesItself : Bool}
    (h : s.Accounts source dynamics j groups ignored) (hr : Reads (initial source dynamics) s)
    (ht : s.OpensTag name behind attributes supply closesItself cursor) (t : Tree) :
    ∃ k groups' new, Numbered k dynamics.length cursor.rest ∧
      supply.Spent dynamics k groups' (ignored ++ new) ∧
      (openedContent (String.ofList (name.map Char.toLower)) attributes).Unmarked (ignored ++ new) ∧
      ∀ i ∈ new, Ignored source dynamics t i := by
  have hopen : ∃ rest, s.cursor.rest = '<' :: rest := by
    have hstart := ht.isTag
    unfold startsTag at hstart
    split at hstart
    · next hrest => exact ⟨_, hrest⟩
    · exact absurd hstart (by simp)
  obtain ⟨rest, hopen⟩ := hopen
  obtain ⟨-, hbehind⟩ := (h.ahead.next hopen (by decide)).readWhile_plain (p := isTagChar) (by decide)
  have hread : s.cursor.next.rest.takeWhile isTagChar = name := congrArg Prod.fst ht.read
  have hname : Plain (name.map Char.toLower) := plain_tag fun c hc => by
    rw [← hread] at hc
    exact List.mem_takeWhile_imp hc
  rw [ht.read] at hbehind
  obtain ⟨k, groups', new, hk, hspent, hattributes, hnew⟩ :=
    h.spent.readAttributes hbehind (by simp [UnmarkedAttributes]) ht.attributes
  refine ⟨k, groups', new, hk, hspent, unmarked_element hname hattributes, fun i hi => ?_⟩
  obtain ⟨raw, hraw, hbare, hvalue⟩ := hnew i hi
  exact .inValue hr ht hraw hbare hvalue

/-- **A move keeps the account.** -/
theorem State.Accounts.move (h : s.Accounts source dynamics j groups ignored) (hm : s.Moves s')
    (hn : s.Nested) (hr : Reads (initial source dynamics) s) :
    ∃ j' groups' ignored', s'.Accounts source dynamics j' groups' ignored' := by
  obtain ⟨hn', hext⟩ := hm.nested hn
  have hold : ∀ i ∈ ignored, Ignored source dynamics s'.tree i :=
    fun i hi => (h.explained i hi).mono hext
  have hahead := h.ahead
  cases hm with
  | @comment cursor data hrest =>
    rw [hrest, List.append_assoc, List.append_assoc] at hahead
    have hbehind := (hahead.split_plain (by decide)).2
    rw [← List.append_assoc] at hbehind
    obtain ⟨m, hdata, hcursor⟩ := hbehind.split_before (t := ['-', '>']) (by decide) (by decide)
    have hnode : Tree.Unmarked (ignored ++ List.Ico j m) (.node (.comment (String.ofList data)) []) :=
      .node (unmarked_comment hdata fun i => List.mem_append_right _) (by simp)
    refine ⟨m, groups, ignored ++ List.Ico j m, hcursor, h.spent.ignore hdata.le, fun i hi => ?_,
      (h.top.mono fun i => List.mem_append_left _).add hnode,
      fun l hl => (h.outer l hl).mono fun i => List.mem_append_left _⟩
    rcases List.mem_append.mp hi with hi | hi
    · exact hold i hi
    · obtain ⟨hji, him⟩ := List.Ico.mem.mp hi
      refine .inComment (content?_tree_of_getElem? hn' (k := s.top.done.length)
        (t := .node (.comment (String.ofList data)) []) (by simp [Level.add])) ?_
      rw [String.toList_ofList]
      exact hdata.infix_marker hji him
  | @closing cursor name parent outer hrest ho hk =>
    obtain ⟨hparent, houter⟩ := List.forall_mem_cons.mp (ho ▸ h.outer)
    have htag := h.top.content.tag _ hk
    rw [String.toList_ofList] at htag
    have hname : markerOpen ∉ name := fun hm =>
      htag.not_mem (List.mem_map.mpr ⟨markerOpen, mem_trim (by decide) hm, by decide⟩)
    have hwhole : markerOpen ∉ "</".toList ++ name ++ ['>'] := by
      simp only [List.mem_append, not_or]
      exact ⟨⟨by decide, hname⟩, by decide⟩
    rw [hrest, List.append_cons] at hahead
    exact ⟨j, groups, ignored, (hahead.split_plain hwhole).2, h.spent, hold, hparent.add h.top.close,
      houter⟩
  | @element name behind cursor attributes supply closesItself ht =>
    obtain ⟨k, groups', new, hk, hspent, hcontent, hnew⟩ := h.opensTag hr ht _
    refine ⟨k, groups', ignored ++ new, hk, hspent, fun i hi => ?_,
      (h.top.mono fun i => List.mem_append_left _).add (.node hcontent (by simp)),
      fun l hl => (h.outer l hl).mono fun i => List.mem_append_left _⟩
    exact (List.mem_append.mp hi).elim (hold i) (hnew i)
  | @opened name behind cursor attributes supply closesItself ht =>
    obtain ⟨k, groups', new, hk, hspent, hcontent, hnew⟩ := h.opensTag hr ht _
    refine ⟨k, groups', ignored ++ new, hk, hspent, fun i hi => ?_, ⟨hcontent, by simp⟩,
      List.forall_mem_cons.mpr ⟨h.top.mono fun i => List.mem_append_left _,
        fun l hl => (h.outer l hl).mono fun i => List.mem_append_left _⟩⟩
    exact (List.mem_append.mp hi).elim (hold i) (hnew i)
  | @text first rest found cursor supply top hrest hc hs ha =>
    rw [hrest, ← textRun_append_afterTextRun rest, ← List.cons_append, ← hc] at hahead
    have hcut : ∀ c, cursor.rest.head? = some c → isInMarker c = false := fun c hhead => by
      obtain rfl := head?_afterTextRun (hc ▸ hhead)
      decide
    obtain ⟨m, htext, hcursor⟩ := hahead.split (.inr hcut)
    obtain ⟨groups', hspent, htop⟩ := h.spent.addText (htext.segments hs) h.top ha
    exact ⟨m, groups', ignored, hcursor, hspent, hold, htop, h.outer⟩

/-- **Reading keeps the account**, from the beginning of a numbered source. -/
theorem accounts_of_reads (hs : Numbered 0 dynamics.length source)
    (h : Reads (initial source dynamics) s) :
    ∃ j groups ignored, s.Accounts source dynamics j groups ignored := by
  induction h with
  | refl =>
    refine ⟨0, [], [], hs, ⟨fun i _ => ?_, .nil, .nil, .refl _⟩, by simp, ⟨unmarked_fragment, by simp [initial]⟩,
      by simp [initial]⟩
    simp [initial]
  | tail hr hstep ih =>
    obtain ⟨j, groups, ignored, hacc⟩ := ih
    exact hacc.move (moves_of_step hstep) (nested_of_reads hr ⟨rfl, rfl⟩).1 hr

/-- **Conservation.** What has become of interpolations when a source has been read. -/
structure Compiled.Conserves (source : List Char) (dynamics : List Dynamic) (c : Compiled)
    (groups : List (List Nat)) (ignored : List Nat) : Prop where
  made : List.Forall₂ (Makes dynamics) groups (c.targets.map Prod.snd)
  inOrder : groups.flatten.Pairwise (· < ·)
  each : (groups.flatten ++ ignored).Perm (List.range dynamics.length)
  explained : ∀ i ∈ ignored, Ignored source dynamics (.node .fragment c.trees) i
  unmarked : (Tree.node .fragment c.trees).Unmarked ignored

/-- Reading a numbered source conserves its interpolations. -/
theorem conserves_of_run {c : Compiled} (hs : Numbered 0 dynamics.length source)
    (h : run (initial source dynamics) = .ok c) :
    ∃ groups ignored, c.Conserves source dynamics groups ignored := by
  obtain ⟨last, hreads, hrest, hfinish⟩ := reads_of_run h
  obtain ⟨htargets, htree⟩ := result_of_finish (nested_of_reads hreads ⟨rfl, rfl⟩).1 hfinish
  obtain ⟨j, groups, ignored, hacc⟩ := accounts_of_reads hs hreads
  obtain rfl : j = dynamics.length := (hacc.ahead.plain (by rw [hrest]; simp)).1
  exact ⟨groups, ignored, htargets ▸ hacc.spent.made, hacc.spent.inOrder, hacc.spent.each,
    htree ▸ hacc.explained, htree ▸ unmarked_enclose hacc.outer hacc.top.close⟩

/-- **Anchoring conserves interpolations** too: it adds an empty comment and moves the others. -/
theorem Compiled.Conserves.anchored {c : Compiled} (h : c.Conserves source dynamics groups ignored) :
    c.anchored.Conserves source dynamics groups ignored where
  made := by
    rw [Compiled.targets_anchored, List.map_map]
    exact h.made
  inOrder := h.inOrder
  each := h.each
  explained i hi := by
    cases h.explained i hi with
    | @inComment path data hpath hi =>
      have hne : path ≠ [] := by
        rintro rfl
        have hroot : Content.fragment = Content.comment data := Option.some.inj hpath
        exact absurd (congrArg Content.kind hroot) (by simp [Content.comment, Content.fragment])
      have hmoved := (congrArg (Option.map Tree.content) (Compiled.subtree?_moved c hne)).trans hpath
      exact .inComment hmoved hi
    | inValue hs ht ha hm hi => exact .inValue hs ht ha hm hi
  unmarked := by
    unfold Compiled.anchored
    split
    · exact .node unmarked_fragment
        (List.forall_mem_cons.mpr ⟨unmarked_anchor, fun t ht => h.unmarked.child ht⟩)
    · exact h.unmarked

end Markup

/-- What a template was made of: the trees in its fragment, and its directives. -/
def World.prototype (w : World) (t : TemplateId) : Compiled :=
  ⟨(w.document.tree (w.templates.get t).fragment).children, (w.templates.get t).directives⟩

theorem World.HoldsPrototype.prototype {w : World} {t : TemplateId} {c : Compiled} {lo hi : Nat}
    (h : w.HoldsPrototype t c lo hi) : w.prototype t = c := by
  rw [World.prototype, h.directives, Document.tree_of_shows h.shows]
  rfl

/-- **Interpolations are conserved.** Compiling plain strings around insertions comes to an end. If it
makes a template, then each interpolation was used by one of its directives, in order, unless it stands in
a comment or in the value of an attribute that is a directive; and nothing else is left of markers. -/
theorem interpolations_are_conserved {strings : List String} {insertions : List Insertion}
    (hs : ∀ s ∈ strings, Plain s.toList)
    (hi : ∀ text, .markup text ∈ insertions → Plain text.toList) (calls : Calls) (w : World) :
    ∃ r w', Machine.compileTemplate strings insertions calls w = some (r, w') ∧
      ∀ t, r = .ok t → ∃ groups ignored, (w'.prototype t).Conserves (join 0 strings insertions).1
        (insertions.filterMap Insertion.dynamic?) groups ignored := by
  cases hc : compile strings insertions with
  | error e =>
    refine ⟨.error e, w, ?_, fun t ht => absurd ht (by simp)⟩
    unfold Machine.compileTemplate
    rw [hc]
    rfl
  | ok c =>
    obtain ⟨w', hw'⟩ := Machine.compileTemplate_of_compile hc calls w
    refine ⟨_, w', hw', fun t ht => ?_⟩
    obtain rfl := Except.ok.inj ht
    obtain ⟨c', hc', -, -, hholds, -⟩ := Machine.compileTemplate_holds hw'
    obtain rfl : c = c' := Except.ok.inj (hc.symm.trans hc')
    have hlength : insertions.length ≤ strings.length := by
      unfold compile at hc
      split at hc
      · exact absurd hc (by simp)
      · next h => omega
    rw [hholds.prototype, ← join_dynamics 0 hlength]
    have hnumbered := numbered_join 0 hs hi
    rw [Nat.zero_add] at hnumbered
    obtain ⟨groups, ignored, hconserves⟩ := conserves_of_run hnumbered (Machine.run_of_compile hc)
    exact ⟨groups, ignored, hconserves.anchored⟩

/-- A paragraph with a title that shows a property behind some text, and a remark with the property. -/
def remark : List String × List Insertion :=
  let shown : Markup.Dynamic := .binding ⟨.get .source "name", false, false, .onChange⟩
  (["<p title=\"", " ", "\"></p><!-- ", " -->"], [.markup "of", .dynamic shown, .dynamic shown])

/-- It has one directive, though it has two interpolations: nothing is made of the one in the remark. -/
theorem interpolations_of_remark :
    (∀ s ∈ remark.1, Plain s.toList) ∧
      (∀ text, .markup text ∈ remark.2 → Plain text.toList) ∧
      ∃ w' groups ignored, Machine.compileTemplate remark.1 remark.2 (fun _ _ => none) World.empty =
          some (.ok ⟨0⟩, w') ∧ groups.length = 1 ∧
        (w'.prototype ⟨0⟩).Conserves (join 0 remark.1 remark.2).1
          (remark.2.filterMap Insertion.dynamic?) groups ignored := by
  have hs : ∀ s ∈ remark.1, Plain s.toList := by decide +kernel
  have hi : ∀ text, .markup text ∈ remark.2 → Plain text.toList := by
    intro text h
    obtain rfl : text = "of" := by simpa [remark] using h
    decide +kernel
  have hone : ((compile remark.1 remark.2).toOption.map fun c => c.targets.length) = some 1 := by
    decide +kernel
  cases hc : compile remark.1 remark.2 with
  | error e =>
    rw [hc] at hone
    exact absurd hone (by simp [Except.toOption])
  | ok c =>
    rw [hc] at hone
    obtain ⟨w', hw'⟩ := Machine.compileTemplate_of_compile hc (fun _ _ => none) World.empty
    obtain ⟨r, x, hr, hall⟩ := interpolations_are_conserved hs hi (fun _ _ => none) World.empty
    obtain ⟨rfl, rfl⟩ := Prod.mk.inj (Option.some.inj (hw'.symm.trans hr))
    obtain ⟨groups, ignored, hconserves⟩ := hall _ rfl
    refine ⟨hs, hi, w', groups, ignored, hw', ?_, hconserves⟩
    obtain ⟨c', hc', -, -, hholds, -⟩ := Machine.compileTemplate_holds hw'
    obtain rfl : c = c' := Except.ok.inj (hc.symm.trans hc')
    rw [hconserves.made.length_eq, List.length_map, hholds.prototype, Compiled.targets_anchored,
      List.length_map]
    exact Option.some.inj hone

end ReactiveViews
