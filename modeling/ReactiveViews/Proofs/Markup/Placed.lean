import ReactiveViews.Proofs.Markup.Reading
/-!
# Directives are placed on what is read with them

A directive is placed in the step that reads its interpolation, on a node that this very step adds:
on the element in whose tag the interpolation stands, or on a placeholder of its own in a run of text,
which becomes the child that the interpolation's place among the segments of the run calls for
(`State.Places`). That node stays where it is, so the path that is kept leads to it in what reading
comes to (`places_of_run`).
-/

namespace ReactiveViews.Markup

open Relation

/-! ## What is placed -/

namespace Supply

/-- Directives have been placed, all on the node at one path. -/
def PlacesAt (path : Path) (s s' : Supply) : Prop :=
  ∃ ds : List Directive, s'.targets = s.targets ++ ds.map (Prod.mk path)

variable {path : Path} {s s' s'' : Supply}

theorem PlacesAt.of_eq (h : s'.targets = s.targets) : PlacesAt path s s' := ⟨[], by simp [h]⟩

theorem PlacesAt.trans (h : PlacesAt path s s') (h' : PlacesAt path s' s'') :
    PlacesAt path s s'' := by
  obtain ⟨ds, h⟩ := h
  obtain ⟨ds', h'⟩ := h'
  exact ⟨ds ++ ds', by rw [h', h, List.map_append, List.append_assoc]⟩

theorem placesAt_place (s : Supply) (path : Path) (d : Directive) :
    PlacesAt path s (s.place path d) :=
  ⟨[d], rfl⟩

/-- Taking an interpolation places nothing. -/
theorem targets_take {pos index : Nat} {d : Dynamic} (h : s.take pos index = .ok (d, s')) :
    s'.targets = s.targets := by
  unfold take at h
  split at h
  · obtain ⟨-, rfl⟩ := Prod.mk.inj (Except.ok.inj h)
    rfl
  · exact absurd h nofun

theorem placesAt_attachBare {start pos : Nat} {found : List Segment}
    (h : attachBare path start pos found s = .ok s') : PlacesAt path s s' := by
  induction found generalizing s with
  | nil => exact .of_eq (by rw [Except.ok.inj h])
  | cons segment found ih =>
    cases segment with
    | text cs => exact absurd h nofun
    | marker index =>
      rw [attachBare] at h
      split at h
      · exact absurd h nofun
      · exact absurd h nofun
      · next d s₁ ht =>
        have hone : PlacesAt path s (s₁.place path d) :=
          (PlacesAt.of_eq (targets_take ht)).trans (placesAt_place s₁ path d)
        exact hone.trans (ih h)

/-- A value that mixes text and markers is put together before anything is placed. -/
theorem targets_mix {start pos : Nat} {found : List Segment} {parts : List Expr} {isVolatile : Bool}
    (h : s.mix start pos found = .ok (parts, isVolatile, s')) : s'.targets = s.targets := by
  induction found generalizing s parts isVolatile with
  | nil =>
    obtain ⟨-, -, rfl⟩ : [] = parts ∧ false = isVolatile ∧ s = s' := by simpa [mix] using h
    rfl
  | cons segment found ih =>
    cases segment with
    | text cs =>
      rw [mix] at h
      cases hm : s.mix start pos found with
      | error e => simp [hm, Except.map] at h
      | ok r =>
        obtain ⟨parts', isVolatile', s₁⟩ := r
        simp only [hm, Except.map, Except.ok.injEq, Prod.mk.injEq] at h
        obtain ⟨-, -, rfl⟩ := h
        exact ih hm
    | marker index =>
      rw [mix] at h
      split at h
      · exact absurd h nofun
      · exact absurd h nofun
      · next b s₁ ht =>
        cases hm : s₁.mix start pos found with
        | error e => simp [hm, Except.map] at h
        | ok r =>
          obtain ⟨parts', isVolatile', s₂⟩ := r
          simp only [hm, Except.map, Except.ok.injEq, Prod.mk.injEq] at h
          obtain ⟨-, -, rfl⟩ := h
          exact (ih hm).trans (targets_take ht)

/-- **An attribute places directives on its element.** -/
theorem placesAt_attach {pos : Nat} {raw : RawAttribute} {attributes attributes' : Keyed String}
    (h : s.attach path pos raw attributes = .ok (attributes', s')) : PlacesAt path s s' := by
  cases attaches_of_attach h with
  | bare _ _ hb => exact placesAt_attachBare hb
  | @one _ _ s₁ _ _ ht => exact (PlacesAt.of_eq (targets_take ht)).trans (placesAt_place s₁ path _)
  | @mixed _ _ _ s₁ _ _ _ hx =>
    exact (PlacesAt.of_eq (targets_mix hx)).trans (placesAt_place s₁ path _)
  | plain => exact .of_eq rfl

/-- So does a tag with all its attributes. -/
theorem placesAt_readAttributes {tag : String} {c c' : Cursor}
    {attributes attributes' : Keyed String} {closesItself : Bool}
    (h : readAttributes tag path c attributes s = .ok ((attributes', s', closesItself), c')) :
    PlacesAt path s s' := by
  fun_induction readAttributes tag path c attributes s with
  | case1 => exact absurd h (by simp)
  | case2 | case3 =>
    simp only [Except.ok.injEq, Prod.mk.injEq] at h
    exact .of_eq (by rw [h.1.2.1])
  | case4 => exact absurd h (by simp)
  | case5 c attributes s d rest _ _ hr c₂ ha ih => exact ih h
  | case6 => exact absurd h (by simp)
  | case7 c attributes s d rest _ _ hr raw c₂ ha attributes₁ s₁ hs ih =>
    exact (placesAt_attach hs).trans (ih h)

end Supply

/-- **Text places directives on its placeholders.** The segments become children one by one. -/
theorem addText_places {pos : Nat} {found : List Segment} {top top' : Level} {s s' : Supply}
    (h : addText pos found top s = .ok (top', s')) : ∃ new, s'.targets = s.targets ++ new ∧
      ∀ target ∈ new, ∃ j index, found[j]? = some (.marker index) ∧
        target.1 = top.path ++ [top.done.length + j] ∧
        top'.done.reverse[top.done.length + j]? = some (placeholder target.2) := by
  induction found generalizing top s with
  | nil =>
    obtain ⟨-, rfl⟩ := Prod.mk.inj (Except.ok.inj h)
    exact ⟨[], by simp, nofun⟩
  | cons segment found ih =>
    have hlater : ∀ {t : Tree} {s₁ : Supply}, addText pos found (top.add t) s₁ = .ok (top', s') →
        ∃ new, s'.targets = s₁.targets ++ new ∧
          ∀ target ∈ new, ∃ j index, (segment :: found)[j]? = some (.marker index) ∧
            target.1 = top.path ++ [top.done.length + j] ∧
            top'.done.reverse[top.done.length + j]? = some (placeholder target.2) := by
      intro t s₁ h₁
      obtain ⟨new, hnew, hall⟩ := ih h₁
      refine ⟨new, hnew, fun target htarget => ?_⟩
      obtain ⟨j, index, hj, hp, hc⟩ := hall target htarget
      have hlen : (top.add t).done.length + j = top.done.length + (j + 1) := by
        simp [Level.add, Nat.add_comm, Nat.add_left_comm]
      rw [hlen] at hp hc
      exact ⟨j + 1, index, hj, hp, hc⟩
    cases segment with
    | text cs => exact hlater h
    | marker index =>
      rw [addText_marker] at h
      split at h
      · exact absurd h nofun
      · next d s₁ ht =>
        obtain ⟨new, hnew, hall⟩ := hlater h
        refine ⟨(top.nextPath, d.on .content) :: new, ?_, fun target htarget => ?_⟩
        · rw [hnew, Supply.place, Supply.targets_take ht, List.append_assoc, List.singleton_append]
        · rcases List.mem_cons.mp htarget with rfl | htarget
          · refine ⟨0, index, rfl, rfl, ?_⟩
            obtain ⟨-, -, more, hmore⟩ := addText_adds h
            rw [← hmore, List.reverse_append, Level.add, List.reverse_cons,
              List.getElem?_append_left (by simp)]
            simp
          · exact hall target htarget

/-- **Placing.** In a step from `s` to `s'` a directive is placed at a path, on a node that the step
adds. -/
inductive State.Places (s s' : State) : Path → Directive → Content → Prop
  /-- On the element in whose tag it stands. -/
  | inTag {d : Directive} {content : Content} {tag : String} (hs : startsTag s.cursor.rest = true)
    (hk : content.kind = .element tag) : Places s s' s.top.nextPath d content
  /-- On the placeholder that a segment of a run of text becomes. -/
  | inText {d : Directive} {first : Char} {rest : List Char} {found : List Segment} {j index : Nat}
    (hr : s.cursor.rest = first :: rest) (hs : segments (first :: textRun rest) = .ok found)
    (hj : found[j]? = some (.marker index)) :
    Places s s' (s.top.path ++ [s.top.done.length + j]) d (placeholder d).content

/-- A node that a level is yet to get has not been read. -/
theorem content?_tree_of_le {s : State} (hs : s.Nested) {k : Nat} (hk : s.top.done.length ≤ k) :
    Path.content? (s.top.path ++ [k]) s.tree = none := by
  rw [Path.content?, State.tree, subtree?_enclose hs, Path.subtree?, Level.close, Tree.children,
    List.getElem?_eq_none (by rwa [List.length_reverse])]
  rfl

/-- The node at the end of a level is found there. -/
theorem content?_tree_of_getElem? {s : State} (hs : s.Nested) {k : Nat} {t : Tree}
    (ht : s.top.done.reverse[k]? = some t) :
    Path.content? (s.top.path ++ [k]) s.tree = some t.content := by
  rw [Path.content?, State.tree, subtree?_enclose hs, Path.subtree?, Level.close, Tree.children, ht]
  rfl

/-- **What a move places is placed on what it adds.** -/
theorem places_of_moves {s s' : State} (h : s.Moves s') (hs : s.Nested) :
    ∃ new, s'.supply.targets = s.supply.targets ++ new ∧ ∀ target ∈ new, ∃ content,
      s.Places s' target.1 target.2 content ∧ target.1.content? s.tree = none ∧
        target.1.content? s'.tree = some content := by
  have hn := (h.nested hs).1
  cases h with
  | comment | closing => exact ⟨[], by simp, nofun⟩
  | @element name _ _ attributes _ _ h =>
    obtain ⟨ds, hds⟩ := Supply.placesAt_readAttributes h.attributes
    let element : Tree := .node (openedContent (String.ofList (name.map Char.toLower)) attributes) []
    have hlast : (s.top.add element).done.reverse[s.top.done.length]? = some element := by
      simp [Level.add]
    refine ⟨_, hds, fun target htarget => ?_⟩
    obtain ⟨d, -, rfl⟩ := List.mem_map.mp htarget
    exact ⟨element.content, .inTag h.isTag rfl, content?_tree_of_le hs (Nat.le_refl _),
      content?_tree_of_getElem? hn hlast⟩
  | @opened name _ _ attributes _ _ h =>
    obtain ⟨ds, hds⟩ := Supply.placesAt_readAttributes h.attributes
    refine ⟨_, hds, fun target htarget => ?_⟩
    obtain ⟨d, -, rfl⟩ := List.mem_map.mp htarget
    let content := openedContent (String.ofList (name.map Char.toLower)) attributes
    have hwhole := subtree?_enclose hn [] (Level.close ⟨content, s.top.nextPath, []⟩)
    rw [List.append_nil] at hwhole
    exact ⟨content, .inTag h.isTag rfl, content?_tree_of_le hs (Nat.le_refl _),
      congrArg (Option.map Tree.content) hwhole⟩
  | text h hc hsegs ht =>
    obtain ⟨new, hnew, hall⟩ := addText_places ht
    refine ⟨new, hnew, fun target htarget => ?_⟩
    obtain ⟨j, index, hj, hp, hchild⟩ := hall target htarget
    refine ⟨(placeholder target.2).content, hp ▸ .inText h hsegs hj,
      hp ▸ content?_tree_of_le hs (Nat.le_add_right _ _), ?_⟩
    rw [hp, ← (addText_adds ht).1]
    exact content?_tree_of_getElem? hn hchild

/-! ## Reading as a whole -/

/-- A state that reading comes to is nested, and what has been read is still there. -/
theorem nested_of_reads {s s' : State} (h : Reads s s') (hs : s.Nested) :
    s'.Nested ∧ s.tree.Extends s'.tree := by
  induction h with
  | refl => exact ⟨hs, .refl _⟩
  | tail _ hstep ih =>
    obtain ⟨hn, he⟩ := (moves_of_step hstep).nested ih.1
    exact ⟨hn, ih.2.trans he⟩

/-- At the end of a source that has been read nothing is open. -/
theorem result_of_finish {s : State} {c : Compiled} (hs : s.Nested) (h : finish s = .ok (.done c)) :
    c.targets = s.supply.targets ∧ .node .fragment c.trees = s.tree := by
  unfold finish at h
  split at h
  · exact absurd h nofun
  · next hopen =>
    obtain rfl := Step.done.inj (Except.ok.inj h)
    refine ⟨rfl, ?_⟩
    cases ho : s.outer with
    | nil =>
      rw [State.Nested, ho] at hs
      rw [State.tree, ho, enclose, Level.close, hs.2]
    | cons l outer =>
      rw [State.Nested, ho] at hs
      obtain ⟨tag, ht⟩ := hs.1.2
      exact absurd ht (hopen l outer tag ho)

/-- **Placed between.** In the step of reading from `s` to `s'` the directive numbered `i` is placed at a
path, on a node that this step adds and that in the end is what `content` says. -/
structure PlacedBetween (source : List Char) (dynamics : List Dynamic) (c : Compiled) (i : Nat)
    (path : Path) (d : Directive) (content : Content) (s s' : State) : Prop where
  reads : Reads (initial source dynamics) s
  step : step s = .ok (.more s')
  earlier : s.supply.targets.length ≤ i
  target : s'.supply.targets[i]? = some (path, d)
  places : s.Places s' path d content
  before : path.content? s.tree = none
  after : path.content? s'.tree = some content
  final : path.content? (.node .fragment c.trees) = some content

/-- **Every directive is placed on what is read with it.** For each there is a step of reading in which
it was placed, on a node that the step added, and that is the node its path leads to in the end. -/
theorem places_of_run {source : List Char} {dynamics : List Dynamic} {c : Compiled}
    (h : run (initial source dynamics) = .ok c) {i : Nat} {path : Path} {d : Directive}
    (hi : c.targets[i]? = some (path, d)) :
    ∃ content s s', PlacedBetween source dynamics c i path d content s s' := by
  obtain ⟨last, hreads, -, hfinish⟩ := reads_of_run h
  have hn : (initial source dynamics).Nested := ⟨rfl, rfl⟩
  obtain ⟨htargets, htree⟩ := result_of_finish (nested_of_reads hreads hn).1 hfinish
  rw [htargets] at hi
  have hplaced : ∃ content s s', Reads (initial source dynamics) s ∧ step s = .ok (.more s') ∧
      s.supply.targets.length ≤ i ∧ s'.supply.targets[i]? = some (path, d) ∧
      s.Places s' path d content ∧ path.content? s.tree = none ∧
      path.content? s'.tree = some content ∧ path.content? last.tree = some content := by
    clear hfinish htargets htree
    induction hreads with
    | refl => exact absurd hi nofun
    | @tail s s' hreads hstep ih =>
      have hs := (nested_of_reads hreads hn).1
      have hmoves := moves_of_step hstep
      obtain ⟨new, hnew, hall⟩ := places_of_moves hmoves hs
      rcases Nat.lt_or_ge i s.supply.targets.length with hlt | hge
      · rw [hnew, List.getElem?_append_left hlt] at hi
        obtain ⟨content, x, x', hx, hx', he, ht, hplaced, hnone, hsome, hend⟩ := ih hi
        exact ⟨content, x, x', hx, hx', he, ht, hplaced, hnone, hsome,
          (hmoves.nested hs).2 path content hend⟩
      · have hnewi := hi
        rw [hnew, List.getElem?_append_right hge] at hnewi
        obtain ⟨content, hplaces, hnone, hsome⟩ := hall _ (List.mem_of_getElem? hnewi)
        exact ⟨content, s, s', hreads, hstep, hge, hi, hplaces, hnone, hsome, hsome⟩
  obtain ⟨content, s, s', h1, h2, h3, h4, h5, h6, h7, h8⟩ := hplaced
  exact ⟨content, s, s', h1, h2, h3, h4, h5, h6, h7, htree ▸ h8⟩

end ReactiveViews.Markup
