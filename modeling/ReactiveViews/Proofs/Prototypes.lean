import ReactiveViews.Proofs.Markup.Placed
import ReactiveViews.Proofs.Planted
/-!
# Prototypes

Compiling makes the nodes of a prototype, with a comment in front if what is inserted before the first
node would stand outside a view (`Markup.Compiled.anchored`), and the paths of the directives are
shifted with the nodes. So they lead to the same nodes as before (`subtree?_moved`), and the new template
shows what was compiled (`World.HoldsPrototype`).
-/

namespace ReactiveViews

namespace Markup.Compiled

/-- The first node is a text or a comment. -/
def startsWithPlaceholder (c : Compiled) : Bool :=
  match c.trees with
  | t :: _ => t.content.kind = .text || t.content.kind = .comment
  | [] => false

/-- The first node is a text or a comment, and a directive applies to it. -/
def needsAnchor (c : Compiled) : Bool :=
  c.startsWithPlaceholder && c.targets.any (·.1 == [0])

/-- A path in a fragment that has got another first child. -/
def shift : Path → Path
  | index :: rest => (index + 1) :: rest
  | [] => []

/-- **Anchored.** With a comment in front if there has to be one. -/
def anchored (c : Compiled) : Compiled :=
  if c.needsAnchor then
    ⟨.node (.comment "") [] :: c.trees, c.targets.map fun target => (shift target.1, target.2)⟩
  else c

/-- Where a path leads to the same when what was compiled is anchored. -/
def moved (c : Compiled) (path : Path) : Path := if c.needsAnchor then shift path else path

theorem targets_anchored (c : Compiled) :
    c.anchored.targets = c.targets.map fun target => (c.moved target.1, target.2) := by
  unfold anchored moved
  split
  · rfl
  · exact (List.map_id _).symm

/-- Moving the paths of all directives, in whatever way it is written down. -/
theorem map_shift {f : Path × Directive → Path × Directive}
    (hcons : ∀ index rest d, f (index :: rest, d) = ((index + 1) :: rest, d))
    (hnil : ∀ d, f ([], d) = ([], d)) (targets : List (Path × Directive)) :
    targets.map f = targets.map fun target => (shift target.1, target.2) := by
  refine List.map_congr_left fun target _ => ?_
  obtain ⟨path, d⟩ := target
  cases path with
  | nil => exact hnil d
  | cons index rest => exact hcons index rest d

/-- Every directive is at a path that leads somewhere, and not to the fragment itself. -/
def IsPlaced (c : Compiled) : Prop :=
  ∀ target ∈ c.targets, target.1 ≠ [] ∧ ∃ u, target.1.subtree? (.node .fragment c.trees) = some u

/-- Where nothing was made no directive is placed. -/
theorem IsPlaced.exists_cons {c : Compiled} (hc : c.IsPlaced) {target : Path × Directive}
    (hm : target ∈ c.targets) : ∃ t ts, c.trees = t :: ts := by
  obtain ⟨hne, u, hu⟩ := hc target hm
  obtain ⟨index, rest, hp⟩ := List.exists_cons_of_ne_nil hne
  rw [hp, Path.subtree?, Option.bind_eq_some_iff] at hu
  obtain ⟨t, ht, -⟩ := hu
  exact List.exists_cons_of_ne_nil (List.ne_nil_of_mem (List.mem_of_getElem? ht))

/-- **Anchoring moves paths with their nodes.** -/
theorem subtree?_moved (c : Compiled) {path : Path} (h : path ≠ []) :
    (c.moved path).subtree? (.node .fragment c.anchored.trees) =
      path.subtree? (.node .fragment c.trees) := by
  obtain ⟨index, rest, rfl⟩ := List.exists_cons_of_ne_nil h
  unfold moved anchored
  split <;> rfl

theorem IsPlaced.anchored {c : Compiled} (h : c.IsPlaced) : c.anchored.IsPlaced := by
  intro target hm
  rw [targets_anchored] at hm
  obtain ⟨⟨path, d⟩, hplaced, rfl⟩ := List.mem_map.mp hm
  obtain ⟨hne, u, hu⟩ := h _ hplaced
  refine ⟨?_, u, (subtree?_moved c hne).trans hu⟩
  obtain ⟨index, rest, rfl⟩ := List.exists_cons_of_ne_nil hne
  unfold moved
  split
  · exact List.cons_ne_nil _ _
  · exact List.cons_ne_nil _ _

end Markup.Compiled

namespace Markup

/-- A directive is not placed on the fragment. -/
theorem State.Places.ne_nil {s s' : State} {path : Path} {d : Directive} {content : Content}
    (h : s.Places s' path d content) : path ≠ [] := by
  cases h with
  | inTag => exact List.append_ne_nil_of_right_ne_nil _ (List.cons_ne_nil _ _)
  | inText => exact List.append_ne_nil_of_right_ne_nil _ (List.cons_ne_nil _ _)

/-- **What reading comes to has its directives placed.** -/
theorem isPlaced_of_run {source : List Char} {dynamics : List Dynamic} {c : Compiled}
    (h : run (initial source dynamics) = .ok c) : c.IsPlaced := by
  intro target hm
  obtain ⟨i, hi⟩ := List.getElem?_of_mem hm
  obtain ⟨content, s, s', hplaced⟩ := places_of_run h hi
  obtain ⟨u, hu, -⟩ := Option.map_eq_some_iff.mp hplaced.final
  exact ⟨hplaced.places.ne_nil, u, hu⟩

end Markup

namespace Document

/-- A new node that is no fragment is inserted into another one. -/
theorem insertBefore_create (d : Document) {c : Content} (hc : c.kind ≠ .fragment) {parent : NodeId}
    (hp : (d.create c).1 ≠ parent) (reference : Option NodeId) :
    (d.create c).2.insertBefore parent (d.create c).1 reference =
      (((d.create c).2.setParent (d.create c).1 (some parent)).setChildren parent
        (insertAt ((d.create c).2.children parent) [(d.create c).1] reference)) := by
  have hn : (d.create c).2.get (d.create c).1 = Node.ofContent c := Store.get_add_self _ _
  have hu : (d.create c).2.uproot (d.create c).1 = ([(d.create c).1], (d.create c).2) := by
    rw [uproot, if_neg, detach, parent?, hn]
    · rfl
    · rw [kind, content, hn]
      exact hc
  rw [insertBefore, if_neg hp, hu]
  show ((d.create c).2.setParent (d.create c).1 (some parent)).setChildren parent
    (insertAt (((d.create c).2.setParent (d.create c).1 (some parent)).children parent) _ _) = _
  rw [children_setParent]

/-- **Prepending.** A new node in front of the children of another. -/
def prepend (d : Document) (parent : NodeId) (c : Content) : Document :=
  ((d.create c).2.setParent (d.create c).1 (some parent)).setChildren parent
    ((d.create c).1 :: d.children parent)

section Prepend

variable {d : Document} {parent n : NodeId} {lo : Nat} {c : Content}

theorem get_create (hn : n.index < d.size) (c : Content) : (d.create c).2.get n = d.get n :=
  (Store.Grown.add d _).get n hn

/-- Before the first is in front of all. -/
theorem insertAt_head (ns moving : List NodeId) :
    insertAt ns moving ns.head? = moving ++ ns := by
  cases ns with
  | nil => exact (List.append_nil _).symm
  | cons n ns =>
    have h : (n :: ns).idxOf? n = some 0 :=
      List.idxOf?_eq_some_iff.mpr ⟨Nat.zero_lt_succ _, rfl, nofun⟩
    rw [insertAt, List.head?_cons, Option.bind_some, h]
    rfl

/-- A new node goes in front of the children if it is inserted before the first. -/
theorem insertBefore_head (hp : parent.index < d.size) (hc : c.kind ≠ .fragment) :
    (d.create c).2.insertBefore parent (d.create c).1 (d.children parent).head? =
      d.prepend parent c := by
  have hne : (d.create c).1 ≠ parent := fun he => absurd hp (he ▸ Nat.lt_irrefl _)
  rw [insertBefore_create d hc hne, children, get_create hp, ← children, insertAt_head,
    List.singleton_append, prepend]

theorem size_prepend (h : parent.index < d.size) (c : Content) :
    (d.prepend parent c).size = d.size + 1 := by
  have hc : (d.create c).2.size = d.size + 1 := Store.size_add d _
  have hp : ((d.create c).2.setParent (d.create c).1 (some parent)).size = d.size + 1 :=
    (Store.size_modify _ (d.lt_of_create c) _).trans hc
  rw [prepend, setChildren, Store.size_modify _ (by omega), hp]

theorem grown_prepend {d₀ : Document} (h : d₀.Grown d) (hp : d₀.size ≤ parent.index)
    (c : Content) : d₀.Grown (d.prepend parent c) :=
  grown_setChildren (grown_setParent (h.trans (.add d _)) h.size _) hp _

theorem children_prepend (hn : n.index < d.size) :
    (d.prepend parent c).children n =
      if parent = n then (d.create c).1 :: d.children n else d.children n := by
  rw [prepend, children_setChildren, children_setParent]
  split
  · next h => rw [h]
  · exact congrArg Node.children (get_create hn c)

theorem children_prepend_new (hp : parent.index < d.size) :
    (d.prepend parent c).children (d.create c).1 = [] := by
  have hne : parent ≠ (d.create c).1 := fun h => absurd hp (by rw [h]; exact Nat.lt_irrefl _)
  rw [prepend, children_setChildren, if_neg hne, children_setParent, children, create,
    Store.get_add_self]
  rfl

theorem content_prepend (hn : n.index < d.size) :
    (d.prepend parent c).content n = d.content n := by
  rw [prepend, content_setChildren, content_setParent]
  exact congrArg Node.content (get_create hn c)

theorem content_prepend_new : (d.prepend parent c).content (d.create c).1 = c := by
  rw [prepend, content_setChildren, content_setParent, content, create, Store.get_add_self]
  rfl

theorem parent_prepend (hn : n.index < d.size) :
    (d.prepend parent c).parent? n = d.parent? n := by
  have hne : (d.create c).1 ≠ n := fun h => absurd hn (by rw [← h]; exact Nat.lt_irrefl _)
  rw [prepend, parent_setChildren, parent_setParent, if_neg hne]
  exact congrArg Node.parent (get_create hn c)

theorem parent_prepend_new : (d.prepend parent c).parent? (d.create c).1 = some parent := by
  rw [prepend, parent_setChildren, parent_setParent, if_pos rfl]

/-- What is rooted stays so with one more node in front of some. -/
theorem Rooted.prepend (h : d.Rooted lo d.size) (hp : parent.index < d.size) (c : Content) : (d.prepend parent c).Rooted lo (d.size + 1) where
  child {n m} hn hh hm := by
    rcases Nat.lt_succ_iff_lt_or_eq.mp hh with hlt | heq
    · rw [children_prepend hlt] at hm
      split at hm
      · next he =>
        rcases List.mem_cons.mp hm with rfl | hm
        · exact ⟨hlt, Nat.lt_succ_self _, he ▸ parent_prepend_new⟩
        · obtain ⟨h1, h2, h3⟩ := h.child hn hlt hm
          exact ⟨h1, Nat.lt_succ_of_lt h2, (parent_prepend h2).trans h3⟩
      · obtain ⟨h1, h2, h3⟩ := h.child hn hlt hm
        exact ⟨h1, Nat.lt_succ_of_lt h2, (parent_prepend h2).trans h3⟩
    · obtain rfl : n = (d.create c).1 := Ref.eq_of_index heq
      rw [children_prepend_new hp] at hm
      exact absurd hm List.not_mem_nil
  nodup {n} hn hh := by
    rcases Nat.lt_succ_iff_lt_or_eq.mp hh with hlt | heq
    · rw [children_prepend hlt]
      split
      · refine List.nodup_cons.mpr ⟨fun hm => ?_, h.nodup hn hlt⟩
        exact absurd (h.child hn hlt hm).2.1 (Nat.lt_irrefl _)
      · exact h.nodup hn hlt
    · obtain rfl : n = (d.create c).1 := Ref.eq_of_index heq
      rw [children_prepend_new hp]
      exact List.nodup_nil

/-- A node that shows a tree then shows it with one more child in front. -/
theorem shows_prepend {content : Content} {ts : List Tree}
    (h : d.Shows lo parent (.node content ts)) (c : Content) :
    (d.prepend parent c).Shows lo parent (.node content (.node c [] :: ts)) := by
  obtain ⟨hl, hp, hc, hts⟩ := h
  have hsize := size_prepend hp c
  have hnew : (d.create c).1.index = d.size := rfl
  refine ⟨hl, by omega, (content_prepend hp).trans hc, ?_⟩
  rw [children_prepend hp, if_pos rfl]
  refine ⟨⟨by omega, by omega, content_prepend_new, ?_⟩, ?_⟩
  · rw [children_prepend_new hp]
    exact trivial
  · refine hts.congr (Nat.le_refl _) (by omega) fun m hm hlt => ⟨content_prepend hlt, ?_⟩
    rw [children_prepend hlt, if_neg]
    rintro rfl
    exact absurd hm (Nat.not_succ_le_self _)

end Prepend

end Document

namespace World

/-- **Prototype.** A template is what markup was compiled to: its fragment shows the trees, on nodes
numbered from `lo` to `hi`, and its directives are those that were placed. -/
structure HoldsPrototype (w : World) (t : TemplateId) (c : Markup.Compiled) (lo hi : Nat) : Prop where
  directives : (w.templates.get t).directives = c.targets
  lo_le : lo ≤ (w.templates.get t).fragment.index
  lt_hi : (w.templates.get t).fragment.index < hi
  made : hi ≤ w.document.size
  rooted : w.document.Rooted lo hi
  shows : w.document.Shows lo (w.templates.get t).fragment (.node .fragment c.trees)

/-- A prototype stays as the document grows. -/
theorem HoldsPrototype.grown {w w' : World} {t : TemplateId} {c : Markup.Compiled} {lo hi : Nat}
    (h : w.HoldsPrototype t c lo hi) (hd : w.document.Grown w'.document)
    (ht : w'.templates = w.templates) : w'.HoldsPrototype t c lo hi where
  directives := by rw [ht, h.directives]
  lo_le := by rw [ht]; exact h.lo_le
  lt_hi := by rw [ht]; exact h.lt_hi
  made := Nat.le_trans h.made hd.size
  rooted := h.rooted.grown h.made hd
  shows := by
    rw [ht]
    exact h.shows.congr (Nat.le_refl _) hd.size fun _ _ hm => Document.same_of_grown hd hm

/-- **Untouched.** What compiling a template added to a world, the nodes numbered from `lo` on, is there
as it was. -/
structure Untouched (lo : Nat) (t : TemplateId) (w w' : World) : Prop where
  template : w'.templates.get t = w.templates.get t
  made : w.document.size ≤ w'.document.size
  same (n : NodeId) : lo ≤ n.index → n.index < w.document.size →
    w'.document.content n = w.document.content n ∧
      w'.document.children n = w.document.children n ∧ w'.document.parent? n = w.document.parent? n

theorem Untouched.refl (lo : Nat) (t : TemplateId) (w : World) : Untouched lo t w w :=
  ⟨rfl, Nat.le_refl _, fun _ _ _ => ⟨rfl, rfl, rfl⟩⟩

/-- An untouched template still shows what was compiled. -/
theorem HoldsPrototype.untouched {w w' : World} {t : TemplateId} {c : Markup.Compiled} {lo : Nat}
    (h : w.HoldsPrototype t c lo w.document.size) (hu : Untouched lo t w w') :
    w'.HoldsPrototype t c lo w.document.size where
  directives := by rw [hu.template, h.directives]
  lo_le := by rw [hu.template]; exact h.lo_le
  lt_hi := by rw [hu.template]; exact h.lt_hi
  made := hu.made
  rooted := h.rooted.congr (fun n hn hh => (hu.same n hn hh).2.1)
    fun n hn hh => (hu.same n (Nat.le_of_lt hn) hh).2.2
  shows := by
    rw [hu.template]
    exact h.shows.congr (Nat.le_refl _) hu.made fun n hn hh =>
      ⟨(hu.same n hn hh).1, (hu.same n hn hh).2.1⟩

end World

/-! ## Compiling -/

namespace Machine

variable {w w' : World} {t : TemplateId} {calls : Calls}

/-- What is compiled is what reading the joined source comes to. -/
theorem run_of_compile {strings : List String} {insertions : List Markup.Insertion}
    {c : Markup.Compiled} (h : Markup.compile strings insertions = .ok c) :
    Markup.run (Markup.initial (Markup.join 0 strings insertions).1
      (Markup.join 0 strings insertions).2) = .ok c := by
  unfold Markup.compile at h
  split at h
  · exact absurd h nofun
  · exact h

/-- **Assembling anchors.** What the template of a fragment is that shows what was compiled. -/
theorem assembleTemplate_apply {lo : Nat} {fragment : NodeId} {c : Markup.Compiled} {w : World}
    (h : w.document.Shows lo fragment (.node .fragment c.trees)) (calls : Calls) :
    assembleTemplate fragment c.targets calls w =
      some (.ok ⟨w.templates.size⟩, { w with
        document := if c.needsAnchor then w.document.prepend fragment (.comment "") else w.document
        templates := (w.templates.add ⟨fragment, c.anchored.targets⟩).2 }) := by
  obtain ⟨-, hlt, -, hall⟩ := h
  unfold assembleTemplate
  rw [bind_apply, get_apply]
  dsimp only
  rw [Document.child?, Markup.Compiled.map_shift (fun _ _ _ => ?_) fun _ => ?_]
  rotate_left
  · rfl
  · rfl
  rcases hn : w.document.children fragment with - | ⟨first, others⟩ <;>
    rcases ht : c.trees with - | ⟨⟨content, ts⟩, us⟩ <;> rw [hn, ht] at hall
  · have ha : c.needsAnchor = false := by
      rw [Markup.Compiled.needsAnchor, Markup.Compiled.startsWithPlaceholder, ht]
      rfl
    rw [Markup.Compiled.anchored, ha]
    rfl
  · exact hall.elim
  · exact hall.elim
  · obtain ⟨⟨-, -, hfirst, -⟩, -⟩ := hall
    have ha : c.needsAnchor = ((decide (w.document.kind first = .text) ||
        decide (w.document.kind first = .comment)) && c.targets.any (·.1 == [0])) := by
      rw [Markup.Compiled.needsAnchor, Markup.Compiled.startsWithPlaceholder, ht, Document.kind,
        hfirst]
      rfl
    dsimp only [List.getElem?_cons_zero]
    rw [Markup.Compiled.anchored]
    by_cases hneeds : c.needsAnchor = true
    · have hdocument := Document.insertBefore_head (c := .comment "") hlt (by simp [Content.comment])
      rw [hn] at hdocument
      rw [if_pos (ha.symm.trans hneeds), if_pos hneeds, if_pos hneeds, ← hdocument]
      rfl
    · rw [if_neg (ha ▸ hneeds), if_neg hneeds, if_neg hneeds]
      rfl

/-- A template of a fragment that has just been planted shows what was compiled. -/
theorem assembleTemplate_planted (c : Markup.Compiled) (calls : Calls) (w : World) :
    ∃ w', assembleTemplate (w.document.plant (.node .fragment c.trees)).1 c.targets calls
        { w with document := (w.document.plant (.node .fragment c.trees)).2 } =
          some (.ok ⟨w.templates.size⟩, w') ∧
      w.document.Grown w'.document ∧
      w'.HoldsPrototype ⟨w.templates.size⟩ c.anchored w.document.size w'.document.size ∧
      w' = { w with document := w'.document, templates := w'.templates } := by
  obtain ⟨hgrown, hfragment, -⟩ := Document.plant_grown w.document (.node .fragment c.trees)
  have hrooted := Document.rooted_plant w.document (.node .fragment c.trees)
  have hshows := Document.shows_plant w.document (.node .fragment c.trees)
  refine ⟨_, assembleTemplate_apply hshows calls, ?_, ?_, rfl⟩
  · dsimp only
    split
    · exact Document.grown_prepend hgrown hfragment.1 _
    · exact hgrown
  · let state : TemplateState :=
      ⟨(w.document.plant (.node .fragment c.trees)).1, c.anchored.targets⟩
    have hget : (w.templates.add state).2.get ⟨w.templates.size⟩ = state :=
      Store.get_add_self _ _
    by_cases ha : c.needsAnchor = true
    · have hsize := Document.size_prepend hfragment.2 (.comment "")
      rw [if_pos ha, hsize]
      refine ⟨by rw [hget], by rw [hget]; exact hfragment.1, ?_, Nat.le_of_eq hsize.symm,
        hrooted.prepend hfragment.2 _, ?_⟩ <;> rw [hget]
      · exact Nat.lt_succ_of_lt hfragment.2
      · rw [Markup.Compiled.anchored, if_pos ha]
        exact Document.shows_prepend hshows _
    · rw [if_neg ha]
      refine ⟨by rw [hget], by rw [hget]; exact hfragment.1, ?_, Nat.le_refl _, hrooted, ?_⟩ <;>
        rw [hget]
      · exact hfragment.2
      · rw [Markup.Compiled.anchored, if_neg ha]
        exact hshows

/-- What compiles is made a template. -/
theorem compileTemplate_of_compile {strings : List String} {insertions : List Markup.Insertion}
    {c : Markup.Compiled} (h : Markup.compile strings insertions = .ok c) (calls : Calls) (w : World) :
    ∃ w', compileTemplate strings insertions calls w = some (.ok ⟨w.templates.size⟩, w') := by
  obtain ⟨w', hw', -⟩ := assembleTemplate_planted c calls w
  refine ⟨w', ?_⟩
  unfold compileTemplate
  rw [h]
  exact hw'

/-- **Compiling makes a prototype** of what was compiled. -/
theorem compileTemplate_holds {strings : List String} {insertions : List Markup.Insertion}
    (h : compileTemplate strings insertions calls w = some (.ok t, w')) :
    ∃ c, Markup.compile strings insertions = .ok c ∧ t = ⟨w.templates.size⟩ ∧
      w.document.Grown w'.document ∧
      w'.HoldsPrototype t c.anchored w.document.size w'.document.size ∧
      w' = { w with document := w'.document, templates := w'.templates } := by
  unfold compileTemplate at h
  cases hc : Markup.compile strings insertions with
  | error e =>
    rw [hc] at h
    exact absurd h nofun
  | ok c =>
    obtain ⟨x, hx, hgrown, hholds, hrest⟩ := assembleTemplate_planted c calls w
    rw [hc] at h
    obtain ⟨ht, rfl⟩ : (.ok ⟨w.templates.size⟩ : Except Error TemplateId) = .ok t ∧ x = w' := by
      simpa using hx.symm.trans h
    obtain rfl := Except.ok.inj ht
    exact ⟨c, rfl, rfl, hgrown, hholds, hrest⟩

end Machine

end ReactiveViews
