import ReactiveViews.Proofs.Markup.Written
import ReactiveViews.Proofs.Paths
/-!
# What a step of reading can do

A step that goes on reads a comment, a closing tag, an opening tag or a run of text. `State.Moves`
says once what each of these takes from the source and what it does to the levels and to the supply.
What holds of every compiled template is shown of these moves one by one, and then of the reading as
a whole (`reads_of_run`).

The level that is read is always within those around it, at the end of each (`State.Nested`). So
what has been read is one tree at any time, of which the open elements are the right edge
(`State.tree`), and a move adds to it at that edge and changes nothing else (`Tree.Extends`).
-/

namespace ReactiveViews

open Relation

namespace Tree

/-- **Extension.** Every node of the one tree is in the other, at the same place. -/
def Extends (t t' : Tree) : Prop :=
  ∀ (p : Path) (c : Content), p.content? t = some c → p.content? t' = some c

theorem Extends.refl (t : Tree) : t.Extends t := fun _ _ h => h

theorem Extends.trans {a b c : Tree} (h : a.Extends b) (h' : b.Extends c) : a.Extends c :=
  fun p x hx => h' p x (h p x hx)

/-- A node is extended child by child. -/
theorem Extends.node {c : Content} {ts us : List Tree}
    (h : ∀ (i : Nat) (t : Tree), ts[i]? = some t → ∃ u, us[i]? = some u ∧ t.Extends u) :
    (node c ts).Extends (node c us) := by
  rintro (- | ⟨i, p⟩) x hx
  · exact hx
  · obtain ⟨v, hv, rfl⟩ := Option.map_eq_some_iff.mp hx
    obtain ⟨t, ht, hv⟩ := Option.bind_eq_some_iff.mp hv
    obtain ⟨u, hu, he⟩ := h i t ht
    obtain ⟨v', hv', hc⟩ := Option.map_eq_some_iff.mp (he p v.content (by rw [Path.content?, hv]; rfl))
    refine Option.map_eq_some_iff.mpr ⟨v', ?_, hc⟩
    rw [Path.subtree?, Option.bind_eq_some_iff]
    exact ⟨u, hu, hv'⟩

/-- Something holds of every node of a tree. -/
def Everywhere (P : Content → Prop) (t : Tree) : Prop :=
  ∀ (p : Path) (c : Content), p.content? t = some c → P c

section Everywhere

variable {P : Content → Prop} {c : Content} {t : Tree} {ts : List Tree}

theorem Everywhere.root (h : (node c ts).Everywhere P) : P c := h [] c rfl

theorem Everywhere.child (h : (node c ts).Everywhere P) (ht : t ∈ ts) : t.Everywhere P := by
  obtain ⟨i, hi⟩ := List.getElem?_of_mem ht
  intro p x hx
  refine h (i :: p) x ?_
  rw [Path.content?, Path.subtree?, Tree.children, hi]
  exact hx

/-- What holds of the root and everywhere below holds everywhere. -/
theorem everywhere_node (hc : P c) (hts : ∀ t ∈ ts, t.Everywhere P) : (node c ts).Everywhere P := by
  rintro (- | ⟨i, p⟩) x hx
  · exact Option.some.inj hx ▸ hc
  · obtain ⟨u, hu, rfl⟩ := Option.map_eq_some_iff.mp hx
    obtain ⟨t, ht, hu⟩ := Option.bind_eq_some_iff.mp hu
    refine hts t (List.mem_of_getElem? ht) p _ ?_
    rw [Path.content?, hu]
    rfl

end Everywhere

end Tree

namespace Markup

/-! ## Attributes -/

/-- The directive that an interpolation is on its own, where a binding gets an aspect. -/
def Dynamic.on (aspect : Aspect) : Dynamic → Directive
  | binding b => .bind b aspect
  | directive d => d

/-- **Attaching.** What an attribute becomes. -/
inductive Supply.Attaches (s : Supply) (path : Path) (pos : Nat) (raw : RawAttribute)
    (attributes : Keyed String) : Keyed String → Supply → Prop
  /-- Directives, if a marker begins in its name. -/
  | bare {names : List Segment} {s' : Supply} (hm : markerOpen ∈ raw.name)
    (hs : segments raw.name = .ok names) (hb : attachBare path raw.start pos names s = .ok s') :
    Attaches s path pos raw attributes attributes s'
  /-- The directive that its value is. -/
  | one {index : Nat} {d : Dynamic} {s' : Supply} (hm : markerOpen ∉ raw.name)
    (hs : segments raw.value = .ok [.marker index]) (ht : s.take pos index = .ok (d, s')) :
    Attaches s path pos raw attributes attributes
      (s'.place path (d.on (Aspect.ofAttributeName (String.ofList raw.name))))
  /-- A binding that puts the parts of its value together. -/
  | mixed {values : List Segment} {parts : List Expr} {isVolatile : Bool} {s' : Supply}
    (hm : markerOpen ∉ raw.name) (hs : segments raw.value = .ok values)
    (hv : values.any Segment.isMarker = true)
    (hx : s.mix raw.start pos values = .ok (parts, isVolatile, s')) :
    Attaches s path pos raw attributes attributes
      (s'.place path (.bind { Binding.ofExpr (.cat parts) with isVolatile }
        (Aspect.ofAttributeName (String.ofList raw.name))))
  /-- An attribute. -/
  | plain {values : List Segment} (hm : markerOpen ∉ raw.name)
    (hs : segments raw.value = .ok values) (hv : values.any Segment.isMarker = false) :
    Attaches s path pos raw attributes
      (attributes.put (String.ofList raw.name) (String.ofList (Text.decode raw.value))) s

theorem Supply.attaches_of_attach {s s' : Supply} {path : Path} {pos : Nat} {raw : RawAttribute}
    {attributes attributes' : Keyed String}
    (h : s.attach path pos raw attributes = .ok (attributes', s')) :
    s.Attaches path pos raw attributes attributes' s' := by
  unfold attach at h
  split at h
  · next hm =>
    split at h
    · exact absurd h (by simp)
    · next names hs =>
      cases hb : s.attachBare path raw.start pos names with
      | error e => simp [hb, Except.map] at h
      | ok s₁ =>
        simp only [hb, Except.map, Except.ok.injEq, Prod.mk.injEq] at h
        obtain ⟨rfl, rfl⟩ := h
        exact .bare (List.contains_iff_mem.mp hm) hs hb
  · next hm =>
    replace hm : markerOpen ∉ raw.name := fun hmem => hm (List.contains_iff_mem.mpr hmem)
    split at h
    · exact absurd h (by simp)
    · next values hs =>
      dsimp only at h
      split at h
      · split at h
        · exact absurd h (by simp)
        · next b s₁ ht =>
          obtain ⟨rfl, rfl⟩ := Prod.mk.inj (Except.ok.inj h)
          exact .one hm hs ht
        · next d s₁ ht =>
          obtain ⟨rfl, rfl⟩ := Prod.mk.inj (Except.ok.inj h)
          exact .one hm hs ht
      · split at h
        · next hv =>
          split at h
          · exact absurd h (by simp)
          · cases hx : s.mix raw.start pos values with
            | error e => simp [hx, Except.map] at h
            | ok r =>
              obtain ⟨parts, isVolatile, s₁⟩ := r
              simp only [hx, Except.map, Except.ok.injEq, Prod.mk.injEq] at h
              obtain ⟨rfl, rfl⟩ := h
              exact .mixed hm hs hv hx
        · next hv =>
          obtain ⟨rfl, rfl⟩ := Prod.mk.inj (Except.ok.inj h)
          exact .plain hm hs (Bool.eq_false_iff.mpr hv)

/-! ## Moves -/

/-- A text is not found before the place where it is found first. -/
theorem Cursor.not_infix_of_splitAtText? {text cs before after : List Char} (ht : text ≠ [])
    (h : splitAtText? text cs = some (before, after)) : ¬ text <:+: before := by
  induction cs generalizing before with
  | nil =>
    rw [splitAtText?, if_neg (by simpa using ht)] at h
    exact absurd h (by simp)
  | cons c cs ih =>
    rw [splitAtText?] at h
    split at h
    · obtain ⟨rfl, -⟩ := Prod.mk.inj (Option.some.inj h)
      rwa [List.infix_nil]
    · next hnone =>
      obtain ⟨⟨b, a⟩, hs, he⟩ := Option.map_eq_some_iff.mp h
      obtain ⟨rfl, rfl⟩ := Prod.mk.inj he
      rw [List.infix_cons_iff, not_or]
      refine ⟨fun hp => ?_, ih hs⟩
      -- A text in front of the part before would have been found there.
      have hfront : text <+: c :: cs := by
        rw [splitAtText?_eq_some hs, List.append_assoc]
        exact hp.trans (List.prefix_append (c :: b) _)
      rw [afterText?, if_pos (List.isPrefixOf_iff_prefix.mpr hfront)] at hnone
      exact absurd hnone (by simp)

/-- **Tag.** An opening tag stands here, and what has been read of it, up to its end. -/
structure State.OpensTag (s : State) (name : List Char) (behind : Cursor)
    (attributes : Keyed String) (supply : Supply) (closesItself : Bool) (cursor : Cursor) :
    Prop where
  isTag : startsTag s.cursor.rest = true
  notComment : Cursor.afterText? "<!--".toList s.cursor.rest = none
  notClosing : Cursor.afterText? "</".toList s.cursor.rest = none
  read : s.cursor.next.readWhile isTagChar = (name, behind)
  attributes : readAttributes (String.ofList (name.map Char.toLower)) s.top.nextPath behind []
    s.supply = .ok ((attributes, supply, closesItself), cursor)

/-- **Move.** What a step of reading does that goes on. -/
inductive State.Moves (s : State) : State → Prop
  | comment {cursor : Cursor} {data : List Char}
    (h : s.cursor.rest = "<!--".toList ++ data ++ "-->".toList ++ cursor.rest)
    (hd : ¬ "-->".toList <:+: data) :
    Moves s
      { s with cursor, top := s.top.add (.node (.comment (String.ofList data)) []) }
  | closing {cursor : Cursor} {name : List Char} {parent : Level} {outer : List Level}
    (h : s.cursor.rest = "</".toList ++ name ++ '>' :: cursor.rest)
    (ho : s.outer = parent :: outer)
    (hk : s.top.content.kind =
      .element (String.ofList ((Text.trim name).map Char.toLower))) :
    Moves s { s with cursor, top := parent.add s.top.close, outer }
  | element {name : List Char} {behind cursor : Cursor} {attributes : Keyed String}
    {supply : Supply} {closesItself : Bool}
    (h : s.OpensTag name behind attributes supply closesItself cursor) :
    Moves s
      { s with
        cursor, supply
        top := s.top.add
          (.node (openedContent (String.ofList (name.map Char.toLower)) attributes) []) }
  | opened {name : List Char} {behind cursor : Cursor} {attributes : Keyed String}
    {supply : Supply} {closesItself : Bool}
    (h : s.OpensTag name behind attributes supply closesItself cursor)
    (hv : isVoidTag (String.ofList (name.map Char.toLower)) = false) :
    Moves s
      { cursor, supply
        top := ⟨openedContent (String.ofList (name.map Char.toLower)) attributes,
          s.top.nextPath, []⟩
        outer := s.top :: s.outer }
  | text {first : Char} {rest : List Char} {found : List Segment} {cursor : Cursor}
    {supply : Supply} {top : Level} (h : s.cursor.rest = first :: rest)
    (hc : cursor.rest = afterTextRun rest)
    (hs : segments (first :: textRun rest) = .ok found)
    (ht : addText s.cursor.pos found s.top s.supply = .ok (top, supply))
    (hn : startsTag s.cursor.rest = false) :
    Moves s { s with cursor, supply, top }

/-- **A step that goes on is a move.** -/
theorem moves_of_step {s s' : State} (h : step s = .ok (.more s')) : s.Moves s' := by
  unfold step at h
  split at h
  · unfold finish at h
    split at h <;> exact absurd h (by simp)
  · next first rest hr =>
    split at h
    · next body hb =>
      unfold readComment at h
      split at h
      · exact absurd h (by simp)
      · next data after hs =>
        obtain rfl := Step.more.inj (Except.ok.inj h)
        refine .comment ?_ (Cursor.not_infix_of_splitAtText? (by decide) hs)
        rw [hr, Cursor.afterText?_eq_some hb, Cursor.splitAtText?_eq_some hs]
        simp [Cursor.past]
    · next hcomment =>
      split at h
      · next body hb =>
        unfold readClosing at h
        split at h
        · exact absurd h (by simp)
        · next name after hs =>
          dsimp only at h
          split at h
          · next parent outer ho =>
            split at h
            · next hk =>
              obtain rfl := Step.more.inj (Except.ok.inj h)
              refine .closing ?_ ho hk
              rw [hr, Cursor.afterText?_eq_some hb, Text.splitAt?_eq_some hs]
              simp [Cursor.past]
            · exact absurd h (by simp)
          · exact absurd h (by simp)
      · next hclosing =>
        split at h
        · next hstart =>
          unfold readOpening at h
          dsimp only [Cursor.readWhile] at h
          split at h
          · exact absurd h (by simp)
          · next attributes supply closesItself cursor ha =>
            have htag : s.OpensTag (s.cursor.next.rest.takeWhile isTagChar)
                (s.cursor.next.past (s.cursor.next.rest.takeWhile isTagChar)
                  (s.cursor.next.rest.dropWhile isTagChar))
                attributes supply closesItself cursor :=
              ⟨hr ▸ hstart, hr ▸ hcomment, hr ▸ hclosing, rfl, ha⟩
            split at h
            · obtain rfl := Step.more.inj (Except.ok.inj h)
              exact .element htag
            · next hopen =>
              obtain rfl := Step.more.inj (Except.ok.inj h)
              rw [Bool.or_eq_true, not_or] at hopen
              exact .opened htag (Bool.eq_false_iff.mpr hopen.2)
        · next hstart =>
          unfold readText at h
          dsimp only at h
          split at h
          · exact absurd h (by simp)
          · next found hs =>
            cases ht : addText s.cursor.pos found s.top s.supply with
            | error e => simp [ht, Except.map] at h
            | ok r =>
              simp only [ht, Except.map, Except.ok.injEq, Step.more.injEq] at h
              obtain rfl := h
              exact .text hr rfl hs ht (hr ▸ Bool.eq_false_iff.mpr hstart)

/-! ## The tree so far -/

/-- A tree within open elements, at the end of each. -/
def enclose : List Level → Tree → Tree
  | [], t => t
  | l :: outer, t => enclose outer (l.add t).close

/-- **What has been read**, with the open elements as they are so far. -/
def State.tree (s : State) : Tree := enclose s.outer s.top.close

/-- A level stands at the end of the one around it, which stands at the end of the next. The
outermost is a fragment, and the others are elements. -/
def NestedIn : Level → List Level → Prop
  | top, [] => top.path = [] ∧ top.content = .fragment
  | top, l :: outer =>
    (top.path = l.nextPath ∧ ∃ tag, top.content.kind = .element tag) ∧ NestedIn l outer

/-- **Nested.** Levels stand where they say. -/
def State.Nested (s : State) : Prop := NestedIn s.top s.outer

/-- Where a level stands depends on where it is and on what it is only. -/
theorem NestedIn.congr {top top' : Level} {outer : List Level} (h : NestedIn top outer)
    (hp : top'.path = top.path) (hc : top'.content = top.content) : NestedIn top' outer := by
  cases outer with
  | nil => exact ⟨hp.trans h.1, hc.trans h.2⟩
  | cons l outer => exact ⟨⟨hp.trans h.1.1, hc ▸ h.1.2⟩, h.2⟩

/-- A path that goes through the innermost level leads where the rest of it leads there. -/
theorem subtree?_enclose {top : Level} {outer : List Level} (h : NestedIn top outer) (q : Path)
    (t : Tree) : (top.path ++ q).subtree? (enclose outer t) = q.subtree? t := by
  induction outer generalizing top q t with
  | nil => rw [h.1, enclose, List.nil_append]
  | cons l outer ih =>
    rw [enclose, h.1.1, Level.nextPath, List.append_assoc, ih h.2, List.singleton_append,
      Path.subtree?]
    have hlast : (l.add t).close.children[l.done.length]? = some t := by
      simp [Level.add, Level.close, Tree.children]
    rw [hlast, Option.bind_some]

/-- What is extended within open elements extends the whole. -/
theorem extends_enclose {t u : Tree} (outer : List Level) (h : t.Extends u) :
    (enclose outer t).Extends (enclose outer u) := by
  induction outer generalizing t u with
  | nil => exact h
  | cons l outer ih =>
    refine ih (Tree.Extends.node fun i v hv => ?_)
    simp only [Level.add, List.reverse_cons] at hv ⊢
    rcases Nat.lt_or_ge i l.done.reverse.length with hi | hi
    · rw [List.getElem?_append_left hi] at hv ⊢
      exact ⟨v, hv, .refl v⟩
    · rw [List.getElem?_append_right hi] at hv ⊢
      rcases hk : i - l.done.reverse.length with - | k
      · rw [hk] at hv
        exact ⟨u, rfl, Option.some.inj hv ▸ h⟩
      · rw [hk] at hv
        exact absurd hv nofun

/-- Children that are added at the end of a level extend it. -/
theorem extends_close {top top' : Level} (hc : top'.content = top.content)
    (hd : top.done <:+ top'.done) : top.close.Extends top'.close := by
  obtain ⟨more, hd⟩ := hd
  rw [Level.close, Level.close, hc, ← hd, List.reverse_append]
  refine Tree.Extends.node fun i v hv => ⟨v, ?_, .refl v⟩
  rw [List.getElem?_append_left (List.getElem?_eq_some_iff.mp hv).1]
  exact hv

theorem addText_marker (pos index : Nat) (found : List Segment) (top : Level) (s : Supply) :
    addText pos (.marker index :: found) top s =
      match s.take pos index with
      | .error e => .error e
      | .ok (d, s) =>
        addText pos found (top.add (placeholder (d.on .content)))
          (s.place top.nextPath (d.on .content)) := by
  rw [addText]
  cases s.take pos index with
  | error e => rfl
  | ok r =>
    obtain ⟨d, s⟩ := r
    cases d <;> rfl

/-- Adding text to a level adds children at its end. -/
theorem addText_adds {pos : Nat} {found : List Segment} {top top' : Level} {s s' : Supply}
    (h : addText pos found top s = .ok (top', s')) :
    top'.path = top.path ∧ top'.content = top.content ∧ top.done <:+ top'.done := by
  induction found generalizing top s with
  | nil =>
    obtain ⟨rfl, -⟩ := Prod.mk.inj (Except.ok.inj h)
    exact ⟨rfl, rfl, List.suffix_refl _⟩
  | cons segment found ih =>
    cases segment with
    | text cs =>
      obtain ⟨hp, hc, hd⟩ := ih h
      exact ⟨hp, hc, (List.suffix_cons _ _).trans hd⟩
    | marker index =>
      rw [addText_marker] at h
      split at h
      · exact absurd h nofun
      · obtain ⟨hp, hc, hd⟩ := ih h
        exact ⟨hp, hc, (List.suffix_cons _ _).trans hd⟩

/-- **A move keeps levels nested**, and what has been read where it is. -/
theorem State.Moves.nested {s s' : State} (h : s.Moves s') (hs : s.Nested) :
    s'.Nested ∧ s.tree.Extends s'.tree := by
  cases h with
  | comment | element =>
    exact ⟨hs.congr rfl rfl,
      extends_enclose s.outer (extends_close rfl (List.suffix_cons _ _))⟩
  | closing h ho hk =>
    rw [State.Nested, ho] at hs
    refine ⟨hs.2.congr rfl rfl, ?_⟩
    rw [State.tree, ho]
    exact .refl _
  | opened h =>
    refine ⟨⟨⟨rfl, _, rfl⟩, hs⟩, ?_⟩
    exact extends_enclose s.outer (extends_close rfl (List.suffix_cons _ _))
  | text h hc hsegs ht =>
    obtain ⟨hp, hcon, hd⟩ := addText_adds ht
    exact ⟨hs.congr hp hcon, extends_enclose s.outer (extends_close hcon hd)⟩

/-! ## Reading as a whole -/

/-- A step that does not go on stands at the end of the source. -/
theorem finish_of_step {s : State} {c : Compiled} (h : step s = .ok (.done c)) :
    s.cursor.rest = [] ∧ finish s = .ok (.done c) := by
  unfold step at h
  split at h
  · next hr => exact ⟨hr, h⟩
  · refine absurd h ?_
    split
    · unfold readComment
      split
      · simp
      · simp
    · split
      · unfold readClosing
        split
        · simp
        · dsimp only
          split
          · split
            · simp
            · simp
          · simp
      · split
        · unfold readOpening
          dsimp only
          split
          · simp
          · split
            · simp
            · simp
        · unfold readText
          dsimp only
          split
          · simp
          · next first rest _ _ _ _ _ found _ =>
            cases addText s.cursor.pos found s.top s.supply with
            | error e => simp [Except.map]
            | ok r => simp [Except.map]

/-- **Reading that comes to a result** goes on by steps to the end of the source. -/
theorem reads_of_run {s : State} {c : Compiled} (h : run s = .ok c) :
    ∃ s', Reads s s' ∧ s'.cursor.rest = [] ∧ finish s' = .ok (.done c) := by
  induction s using run.induct with
  | case1 s e he =>
    rw [run, he] at h
    exact absurd h (by simp)
  | case2 s r hr =>
    obtain ⟨hrest, hfinish⟩ := finish_of_step hr
    rw [run, hr] at h
    obtain rfl := Except.ok.inj h
    exact ⟨s, .refl, hrest, hfinish⟩
  | case3 s s' hs' ih =>
    rw [run, hs'] at h
    obtain ⟨s'', hr, he⟩ := ih h
    exact ⟨s'', .head hs' hr, he⟩

end Markup

end ReactiveViews
