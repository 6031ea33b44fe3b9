import ReactiveViews.Proofs.Markup.Compiled
import ReactiveViews.Proofs.Paths
/-!
# What is planted is a tree

The nodes that are made of a tree are numbered without a gap. Among them every child is made later
than the node it is under, knows that node, and is there once (`Document.rooted_plant`). So they are
a tree (`Rooted.isTree`), and a path leads in it to the node that shows what the same path leads to in
the tree they were made of (`Document.resolve_of_shows`).
-/

namespace ReactiveViews

namespace Store

variable {kind : Kind} {α : Type} [Inhabited α]

/-- Changing what has been made makes nothing. -/
theorem size_modify (s : Store kind α) {r : Ref kind} (h : r.index < s.size) (f : α → α) :
    (s.modify r f).size = s.size := by
  have hr : r.index < s.cells.size := h
  unfold modify set
  rw [dif_pos hr]
  simp [size]

end Store

/-- Two references with one number are one reference. -/
theorem Ref.eq_of_index {kind : Kind} {r r' : Ref kind} (h : r.index = r'.index) : r = r' := by
  cases r
  cases r'
  exact congrArg Ref.mk h

namespace Document

/-- **Rooted.** Among the nodes numbered from `lo` to `hi` children come later than what they are
under, know it, and are there once. -/
structure Rooted (lo hi : Nat) (d : Document) : Prop where
  child {n m : NodeId} : lo ≤ n.index → n.index < hi → m ∈ d.children n →
    n.index < m.index ∧ m.index < hi ∧ d.parent? m = some n
  nodup {n : NodeId} : lo ≤ n.index → n.index < hi → (d.children n).Nodup

section Rooted

variable {d d' : Document} {lo hi : Nat} {root n : NodeId}

/-- Whatever is inside one of these nodes is one of them, and not made before. -/
theorem Rooted.inside (h : d.Rooted lo hi) (hl : lo ≤ root.index) (hh : root.index < hi)
    (hn : d.Inside root n) : root.index ≤ n.index ∧ n.index < hi := by
  induction hn with
  | root => exact ⟨Nat.le_refl _, hh⟩
  | child _ hm ih =>
    obtain ⟨hlt, hlt', -⟩ := h.child (Nat.le_trans hl ih.1) ih.2 hm
    exact ⟨Nat.le_trans ih.1 (Nat.le_of_lt hlt), hlt'⟩

/-- **Each of these nodes is the root of a tree.** -/
theorem Rooted.isTree (h : d.Rooted lo hi) (hl : lo ≤ root.index) (hh : root.index < hi) :
    d.IsTree root where
  parent hn hm :=
    have hi := h.inside hl hh hn
    (h.child (Nat.le_trans hl hi.1) hi.2 hm).2.2
  nodup hn :=
    have hi := h.inside hl hh hn
    h.nodup (Nat.le_trans hl hi.1) hi.2
  root hn hm := by
    have hi := h.inside hl hh hn
    exact absurd (h.child (Nat.le_trans hl hi.1) hi.2 hm).1 (Nat.not_lt.mpr hi.1)

/-- It depends on these nodes only. -/
theorem Rooted.congr (h : d.Rooted lo hi)
    (hc : ∀ n : NodeId, lo ≤ n.index → n.index < hi → d'.children n = d.children n)
    (hp : ∀ n : NodeId, lo < n.index → n.index < hi → d'.parent? n = d.parent? n) :
    d'.Rooted lo hi where
  child {n m} hl hh hm := by
    rw [hc n hl hh] at hm
    obtain ⟨hlt, hlt', hpm⟩ := h.child hl hh hm
    exact ⟨hlt, hlt', (hp m (Nat.lt_of_le_of_lt hl hlt) hlt').trans hpm⟩
  nodup {n} hl hh := by
    rw [hc n hl hh]
    exact h.nodup hl hh

/-- What is rooted stays so as the document grows. -/
theorem Rooted.grown (h : d.Rooted lo hi) (hs : hi ≤ d.size) (hg : d.Grown d') :
    d'.Rooted lo hi :=
  h.congr (fun _ _ hh => (same_of_grown hg (Nat.lt_of_lt_of_le hh hs)).2)
    fun n _ hh => congrArg Node.parent (hg.get n (Nat.lt_of_lt_of_le hh hs))

/-- Nodes made one after another are rooted if the earlier and the later ones are. -/
theorem Rooted.join {mid : Nat} (h : d.Rooted lo mid) (h' : d.Rooted mid hi) (hm : mid ≤ hi) :
    d.Rooted lo hi where
  child {n m} hl hh hc := by
    by_cases hn : n.index < mid
    · obtain ⟨h1, h2, h3⟩ := h.child hl hn hc
      exact ⟨h1, Nat.lt_of_lt_of_le h2 hm, h3⟩
    · exact h'.child (Nat.not_lt.mp hn) hh hc
  nodup {n} hl hh := by
    by_cases hn : n.index < mid
    · exact h.nodup hl hn
    · exact h'.nodup (Nat.not_lt.mp hn) hh

/-- A node is rooted together with those made right after it if its children are among them. -/
theorem Rooted.cons (h : d.Rooted (n.index + 1) hi) (hnodup : (d.children n).Nodup)
    (hc : ∀ m ∈ d.children n, n.index < m.index ∧ m.index < hi ∧ d.parent? m = some n) :
    d.Rooted n.index hi where
  child {n' m} hl hh hm := by
    by_cases he : n' = n
    · exact he ▸ hc m (he ▸ hm)
    · exact h.child (Nat.lt_of_le_of_ne hl fun hi => he (Ref.eq_of_index hi.symm)) hh hm
  nodup {n'} hl hh := by
    by_cases he : n' = n
    · exact he ▸ hnodup
    · exact h.nodup (Nat.lt_of_le_of_ne hl fun hi => he (Ref.eq_of_index hi.symm)) hh

end Rooted

/-- The root comes first. -/
theorem index_plant (d : Document) (t : Tree) : (d.plant t).1.index = d.size := by
  cases t with
  | node c ts =>
    rw [plant_node]
    rfl

theorem parent_setParent (d : Document) (n : NodeId) (parent : Option NodeId) (m : NodeId) :
    (d.setParent n parent).parent? m = if n = m then parent else d.parent? m := by
  rw [parent?, parent?, setParent, Store.get_modify]
  split <;> rfl

@[simp] theorem parent_setChildren (d : Document) (n : NodeId) (ns : List NodeId) (m : NodeId) :
    (d.setChildren n ns).parent? m = d.parent? m := by
  rw [parent?, parent?, setChildren, Store.get_modify]
  split
  · next h => rw [h]
  · rfl

mutual

/-- **What is planted is rooted.** -/
theorem rooted_plant (d : Document) (t : Tree) :
    (d.plant t).2.Rooted d.size (d.plant t).2.size := by
  cases t with
  | node c ts =>
    let n := (d.create c).1
    obtain ⟨hg, hi, -⟩ := plantAll_grown (d.create c).2 n ts
    obtain ⟨hr, hn, hp⟩ := rooted_plantAll (d.create c).2 n ts
    have hsize : (d.create c).2.size = n.index + 1 := Store.size_add d _
    have hlt : n.index < (plantAll (d.create c).2 n ts).2.size :=
      Nat.lt_of_lt_of_le (d.lt_of_create c) hg.size
    rw [plant_node]
    rw [hsize] at hr hi
    have hkeep : ((plantAll (d.create c).2 n ts).2.setChildren n
        (plantAll (d.create c).2 n ts).1).size = (plantAll (d.create c).2 n ts).2.size :=
      Store.size_modify _ hlt _
    rw [hkeep]
    refine Rooted.cons (n := n) (hr.congr (fun m hm _ => ?_) fun m _ _ => parent_setChildren _ _ _ _)
      ?_ fun m hm => ?_
    · rw [children_setChildren, if_neg]
      rintro rfl
      exact absurd hm (Nat.not_succ_le_self _)
    · rw [children_setChildren, if_pos rfl]
      exact hn
    · rw [children_setChildren, if_pos rfl] at hm
      rw [parent_setChildren]
      exact ⟨(hi m hm).1, (hi m hm).2, hp m hm⟩

theorem rooted_plantAll (d : Document) (parent : NodeId) (ts : List Tree) :
    (d.plantAll parent ts).2.Rooted d.size (d.plantAll parent ts).2.size ∧
      (d.plantAll parent ts).1.Nodup ∧
        ∀ n ∈ (d.plantAll parent ts).1, (d.plantAll parent ts).2.parent? n = some parent := by
  cases ts with
  | nil =>
    rw [plantAll]
    exact ⟨⟨fun hl hh => absurd hl (Nat.not_le.mpr hh), fun hl hh => absurd hl (Nat.not_le.mpr hh)⟩,
      List.nodup_nil, fun n hn => absurd hn List.not_mem_nil⟩
  | cons t ts =>
    let n := (d.plant t).1
    let x := (d.plant t).2.setParent n (some parent)
    obtain ⟨-, ⟨-, hlt⟩, -⟩ := plant_grown d t
    obtain ⟨hg, hi, -⟩ := plantAll_grown x parent ts
    obtain ⟨hr, hn, hp⟩ := rooted_plantAll x parent ts
    have hsize : x.size = (d.plant t).2.size := Store.size_modify _ hlt _
    have hnx : n.index < x.size := Nat.lt_of_lt_of_eq hlt hsize.symm
    -- The first tree keeps its shape when its root is told of the parent.
    have hfirst : x.Rooted d.size x.size := by
      rw [hsize]
      refine (rooted_plant d t).congr (fun m _ _ => children_setParent _ _ _ _) fun m hm _ => ?_
      rw [parent_setParent, if_neg]
      rintro rfl
      exact absurd (index_plant d t) (Nat.ne_of_gt hm)
    have hpn : (plantAll x parent ts).2.parent? n = some parent := by
      rw [parent?, hg.get n hnx]
      exact (parent_setParent _ _ _ _).trans (if_pos rfl)
    rw [plantAll_cons]
    refine ⟨(hfirst.grown (Nat.le_refl _) hg).join hr hg.size,
      List.nodup_cons.mpr ⟨fun hm => ?_, hn⟩, fun m hm => ?_⟩
    · exact absurd (hi n hm).1 (Nat.not_le.mpr hnx)
    · rcases List.mem_cons.mp hm with rfl | hm
      · exact hpn
      · exact hp m hm

end

end Document

namespace Document

/-- What a node is stands at the root of its tree. -/
theorem content_tree (d : Document) (n : NodeId) : (d.tree n).content = d.content n := by
  unfold tree
  cases d.size <;> rfl

/-- The tree that a node shows is its tree. -/
theorem tree_of_shows {d : Document} {k : Nat} {n : NodeId} {t : Tree} (h : d.Shows k n t) :
    d.tree n = t :=
  treeTo_of_shows h (by omega)

/-- Nodes that show trees one by one do so at each position. -/
theorem shows_of_showsAll {d : Document} : ∀ {k : Nat} {ns : List NodeId} {ts : List Tree},
    d.ShowsAll k ns ts → ∀ {i : Nat} {t : Tree}, ts[i]? = some t →
      ∃ n, ns[i]? = some n ∧ d.Shows k n t
  | _, [], [], _, _, _, hi => absurd hi nofun
  | _, n :: _, _ :: _, h, 0, _, hi => ⟨n, rfl, Option.some.inj hi ▸ h.1⟩
  | _, _ :: _, _ :: _, h, _ + 1, _, hi => shows_of_showsAll h.2 hi

/-- **A path leads to the node that shows** what it leads to in the tree that is shown. -/
theorem resolve_of_shows {d : Document} {k : Nat} {root : NodeId} {t u : Tree} {p : Path}
    (h : d.Shows k root t) (hp : p.subtree? t = some u) :
    ∃ n, p.resolve d root = some n ∧ d.Shows k n u := by
  induction p generalizing root t k with
  | nil =>
    cases hp
    exact ⟨root, rfl, h⟩
  | cons i p ih =>
    obtain ⟨c, ts⟩ := t
    obtain ⟨hk, -, -, hts⟩ := h
    obtain ⟨v, hv, hp⟩ := Option.bind_eq_some_iff.mp hp
    obtain ⟨m, hm, hshow⟩ := shows_of_showsAll hts hv
    obtain ⟨n, hn, hnu⟩ := ih hshow hp
    refine ⟨n, ?_, hnu.congr (Nat.le_succ_of_le hk) (Nat.le_refl _) fun _ _ _ => ⟨rfl, rfl⟩⟩
    rw [Path.resolve, Option.bind_eq_some_iff]
    exact ⟨m, hm, hn⟩

end Document

end ReactiveViews
