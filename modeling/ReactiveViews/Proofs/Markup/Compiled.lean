import ReactiveViews.Proofs.Frames.Creation
import ReactiveViews.Proofs.Markup.Written
/-!
# What a compiled template looks like

Nodes made of a tree show that tree (`Document.tree_plant`). So the fragment of a template that is
compiled from the markup of a fragment looks like that fragment, with its texts joined
(`compileTemplate_html`).
-/

namespace ReactiveViews

namespace Document

mutual

/-- A node shows a tree: it is what the root is, its children show the tree's children, and all are
made later than the node they are under. -/
def Shows (d : Document) : Nat → NodeId → Tree → Prop
  | k, n, .node c ts =>
    k ≤ n.index ∧ n.index < d.size ∧ d.content n = c ∧ ShowsAll d (n.index + 1) (d.children n) ts

/-- Nodes show trees one by one. -/
def ShowsAll (d : Document) : Nat → List NodeId → List Tree → Prop
  | _, [], [] => True
  | k, n :: ns, t :: ts => Shows d k n t ∧ ShowsAll d k ns ts
  | _, _, _ => False

end

mutual

/-- What nodes show depends on themselves only. -/
theorem Shows.congr {d d' : Document} {k k' : Nat} (hk : k' ≤ k) (hs : d.size ≤ d'.size)
    (hd : ∀ m : NodeId, k ≤ m.index → m.index < d.size →
      d'.content m = d.content m ∧ d'.children m = d.children m) :
    ∀ {n : NodeId} {t : Tree}, d.Shows k n t → d'.Shows k' n t
  | n, .node c ts, h => by
    obtain ⟨hl, hn, hc, ht⟩ := h
    obtain ⟨hc', hch⟩ := hd n hl hn
    refine ⟨Nat.le_trans hk hl, Nat.lt_of_lt_of_le hn hs, hc'.trans hc, ?_⟩
    rw [hch]
    exact ShowsAll.congr (Nat.le_refl _) hs
      (fun m hm => hd m (Nat.le_trans hl (Nat.le_of_succ_le hm))) ht

theorem ShowsAll.congr {d d' : Document} {k k' : Nat} (hk : k' ≤ k) (hs : d.size ≤ d'.size)
    (hd : ∀ m : NodeId, k ≤ m.index → m.index < d.size →
      d'.content m = d.content m ∧ d'.children m = d.children m) :
    ∀ {ns : List NodeId} {ts : List Tree}, d.ShowsAll k ns ts → d'.ShowsAll k' ns ts
  | [], [], _ => trivial
  | _ :: _, _ :: _, h => ⟨h.1.congr hk hs hd, ShowsAll.congr hk hs hd h.2⟩

end

mutual

/-- The tree that a node shows is read off it. No chain of children that were made one after another
is longer than the number of nodes made from there on. -/
theorem treeTo_of_shows {d : Document} : ∀ {depth k : Nat} {n : NodeId} {t : Tree},
    d.Shows k n t → d.size ≤ depth + n.index + 1 → d.treeTo depth n = t
  | 0, k, n, .node c ts, h, hd => by
    obtain ⟨-, hn, hc, ht⟩ := h
    rcases hch : d.children n with - | ⟨m, ms⟩ <;> rcases ts with - | ⟨t, ts⟩ <;>
      rw [hch] at ht
    · rw [treeTo, hc]
    · exact ht.elim
    · exact ht.elim
    · obtain ⟨⟨c', us⟩, ht⟩ : ∃ t' : Tree, d.Shows (n.index + 1) m t' := ⟨_, ht.1⟩
      have := ht.1
      have := ht.2.1
      omega
  | depth + 1, k, n, .node c ts, h, hd => by
    obtain ⟨-, hn, hc, ht⟩ := h
    rw [treeTo, hc, map_treeTo_of_shows ht (by omega)]

theorem map_treeTo_of_shows {d : Document} : ∀ {depth k : Nat} {ns : List NodeId} {ts : List Tree},
    d.ShowsAll k ns ts → d.size ≤ depth + k + 1 → ns.map (d.treeTo depth) = ts
  | _, _, [], [], _, _ => rfl
  | depth, k, n :: ns, .node c us :: ts, h, hd => by
    have hk : k ≤ n.index := h.1.1
    rw [List.map_cons, treeTo_of_shows h.1 (by omega), map_treeTo_of_shows h.2 hd]

end

@[simp] theorem content_setParent (d : Document) (n : NodeId) (parent : Option NodeId)
    (m : NodeId) : (d.setParent n parent).content m = d.content m := by
  rw [content, content, setParent, Store.get_modify]
  split
  · next h => rw [h]
  · rfl

@[simp] theorem children_setParent (d : Document) (n : NodeId) (parent : Option NodeId)
    (m : NodeId) : (d.setParent n parent).children m = d.children m := by
  rw [children, children, setParent, Store.get_modify]
  split
  · next h => rw [h]
  · rfl

@[simp] theorem content_setChildren (d : Document) (n : NodeId) (ns : List NodeId) (m : NodeId) :
    (d.setChildren n ns).content m = d.content m := by
  rw [content, content, setChildren, Store.get_modify]
  split
  · next h => rw [h]
  · rfl

theorem children_setChildren (d : Document) (n : NodeId) (ns : List NodeId) (m : NodeId) :
    (d.setChildren n ns).children m = if n = m then ns else d.children m := by
  rw [children, children, setChildren, Store.get_modify]
  split <;> rfl

/-- Growing leaves what a node is and what it has under it as they were. -/
theorem same_of_grown {d d' : Document} (h : d.Grown d') {m : NodeId} (hm : m.index < d.size) :
    d'.content m = d.content m ∧ d'.children m = d.children m := by
  rw [content, children, h.get m hm]
  exact ⟨rfl, rfl⟩

mutual

/-- What is planted is shown. -/
theorem shows_plant (d : Document) : ∀ t : Tree, (d.plant t).2.Shows d.size (d.plant t).1 t
  | .node c ts => by
    have hall := plantAll_shows (d.create c).2 (d.create c).1 ts
    have hg := (plantAll_grown (d.create c).2 (d.create c).1 ts).1
    have hn := d.lt_of_create c
    have hindex : (d.create c).1.index = d.size := rfl
    have hsize : (d.create c).2.size = d.size + 1 := Store.size_add d _
    rw [plant_node]
    refine ⟨Nat.le_of_eq hindex.symm, ?_, ?_, ?_⟩
    · exact Nat.lt_of_lt_of_le (Nat.lt_of_lt_of_le hn hg.size) (size_le_setChildren _ _ _)
    · rw [content_setChildren, (same_of_grown hg hn).1, content, create, Store.get_add_self]
      rfl
    · rw [children_setChildren, if_pos rfl]
      refine hall.congr (Nat.le_of_eq hsize.symm) (size_le_setChildren _ _ _) fun m hm _ => ?_
      -- What is planted under the node comes later than the node itself.
      have hne : (d.create c).1 ≠ m := by
        rintro rfl
        omega
      rw [content_setChildren, children_setChildren, if_neg hne]
      exact ⟨rfl, rfl⟩

theorem plantAll_shows (d : Document) (parent : NodeId) : ∀ ts : List Tree,
    (d.plantAll parent ts).2.ShowsAll d.size (d.plantAll parent ts).1 ts
  | [] => by
    rw [plantAll]
    exact trivial
  | t :: ts => by
    have hone := shows_plant d t
    have hall := plantAll_shows ((d.plant t).2.setParent (d.plant t).1 (some parent)) parent ts
    obtain ⟨hg, hi, -⟩ := plant_grown d t
    have hgs := (plantAll_grown ((d.plant t).2.setParent (d.plant t).1 (some parent)) parent ts).1
    have hp := size_le_setParent (d.plant t).2 (d.plant t).1 (some parent)
    rw [plantAll_cons]
    refine ⟨hone.congr (Nat.le_refl _) (Nat.le_trans hp hgs.size) fun m _ hm => ?_,
      hall.congr (Nat.le_trans hg.size hp) (Nat.le_refl _) fun m _ _ => ⟨rfl, rfl⟩⟩
    obtain ⟨hc, hch⟩ := same_of_grown hgs (Nat.lt_of_lt_of_le hm hp)
    rw [hc, hch, content_setParent, children_setParent]
    exact ⟨rfl, rfl⟩

end

/-- **Nodes made of a tree show it.** -/
theorem tree_plant (d : Document) (t : Tree) : (d.plant t).2.tree (d.plant t).1 = t :=
  treeTo_of_shows (shows_plant d t) (by omega)

end Document

namespace Machine

/-- A template without directives is its fragment. -/
theorem assembleTemplate_nil (fragment : NodeId) (calls : Calls) (w : World) :
    assembleTemplate fragment [] calls w = some (.ok (w.templates.add ⟨fragment, []⟩).1,
      { w with templates := (w.templates.add ⟨fragment, []⟩).2 }) := by
  unfold assembleTemplate
  rw [bind_apply, get_apply]
  dsimp only
  rw [List.any_nil, Bool.and_false]
  rfl

/-- **Compiling inverts writing.** The markup of a fragment compiles, and the fragment of the
template looks like it, with its texts joined. -/
theorem compileTemplate_html {t : Tree} (hk : t.content.kind = .fragment)
    (h : Tree.WritableAll t.children) (calls : Calls) (w : World) :
    ∃ template w', compileTemplate [t.html] [] calls w = some (.ok template, w') ∧
      w'.document.tree (w'.templates.get template).fragment =
        .node .fragment (Tree.joinedAll t.children) ∧
      (w'.templates.get template).directives = [] := by
  let planted := w.document.plant (.node .fragment (Tree.joinedAll t.children))
  let x : World := { w with document := planted.2 }
  have hc : compileTemplate [t.html] [] calls w =
      assembleTemplate planted.1 [] calls x := by
    unfold compileTemplate
    rw [Markup.compile_html hk h]
    rfl
  refine ⟨_, _, hc.trans (assembleTemplate_nil _ _ _), ?_, ?_⟩
  · rw [Store.get_add_self]
    exact Document.tree_plant _ _
  · rw [Store.get_add_self]

/-- A paragraph whose texts and attribute value are full of what tags are made of. -/
def trickyParagraph : Tree :=
  .node .fragment [.node
    { Content.element "p" with attributes := [("title", "\"/><b>"), ("hidden", "")] }
    [.node (.text "1 < 2") [], .node (.text "") [], .node (.text " &amp; </p>") [],
      .node (.element "br") [], .node (.comment "<i> --") []]]

/-- None of it is taken for a tag: the three texts come back as one, and all else as it was. -/
theorem compileTemplate_trickyParagraph :
    trickyParagraph.content.kind = .fragment ∧ Tree.WritableAll trickyParagraph.children ∧
    ∃ template w', compileTemplate [trickyParagraph.html] [] (fun _ _ => none) World.empty =
        some (.ok template, w') ∧
      w'.document.tree (w'.templates.get template).fragment =
        .node .fragment [.node
          { Content.element "p" with attributes := [("title", "\"/><b>"), ("hidden", "")] }
          [.node (.text "1 < 2 &amp; </p>") [], .node (.element "br") [],
            .node (.comment "<i> --") []]] := by
  have hw : Tree.WritableAll trickyParagraph.children := by
    have hp : isVoidTag "p" = false := by decide +kernel
    have hbr : Tree.Writable (.node (.element "br") []) :=
      ⟨⟨'b', ['r'], rfl, rfl, List.forall_mem_singleton.mpr (by decide)⟩, ⟨by decide, nofun⟩,
        fun _ => rfl, trivial⟩
    have hattributes : Tree.IsAttributes [("title", "\"/><b>"), ("hidden", "")] :=
      ⟨by decide, by decide⟩
    exact ⟨⟨⟨'p', [], rfl, rfl, nofun⟩, hattributes, fun h => absurd (h.symm.trans hp) nofun,
      ⟨by decide, rfl⟩, ⟨by decide, rfl⟩, ⟨by decide, rfl⟩, hbr, ⟨by decide, rfl⟩, trivial⟩, trivial⟩
  obtain ⟨template, w', hc, ht, -⟩ :=
    compileTemplate_html (t := trickyParagraph) rfl hw (fun _ _ => none) World.empty
  refine ⟨rfl, hw, template, w', hc, ht.trans ?_⟩
  rfl

end Machine

end ReactiveViews
