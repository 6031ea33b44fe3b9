import ReactiveViews.Proofs.Prototypes
/-!
# Parents and children

Parents and children are written down twice, and in a *linked* document they agree: a node is among
the children of exactly the node that it knows as its parent, and once. Inserting keeps a document
linked because it can be said in one sentence what it does to the whole of it: the nodes that move
are taken out of every list of children, and all together put before the reference
(`Document.Moved`). Moving nodes one after another to the same place is one such move
(`Moved.cons`), and so is taking them out one after another (`Loosened.cons`).
-/

namespace ReactiveViews

namespace Document

/-- **Linked.** Parents and children agree, nobody is a child twice, and no fragment is a child. -/
structure Linked (d : Document) : Prop where
  mem_children {n p : NodeId} : n ∈ d.children p ↔ d.parent? n = some p
  nodup (p : NodeId) : (d.children p).Nodup
  kind {n p : NodeId} : d.parent? n = some p → d.kind n ≠ .fragment

/-- The nodes of a list that are not among some others. -/
def without (ns others : List NodeId) : List NodeId := ns.filter (!others.contains ·)

/-! ## Lists of children -/

section Lists

variable {ns ms moving others : List NodeId} {n r : NodeId} {reference : Option NodeId}

@[simp] theorem mem_without : n ∈ without ns others ↔ n ∈ ns ∧ n ∉ others := by simp [without]

@[simp] theorem without_append (ns ms others : List NodeId) :
    without (ns ++ ms) others = without ns others ++ without ms others :=
  List.filter_append _ _

theorem without_cons_of_notMem (h : n ∉ others) (ns : List NodeId) :
    without (n :: ns) others = n :: without ns others :=
  List.filter_cons_of_pos (by simpa using h)

/-- Taking out what is not there does nothing. -/
theorem without_eq_self (h : ∀ n ∈ ns, n ∉ others) : without ns others = ns :=
  List.filter_eq_self.mpr fun n hn => by simpa using h n hn

theorem without_singleton (h : n ∉ others) : without [n] others = [n] :=
  without_eq_self fun _ hm => List.mem_singleton.mp hm ▸ h

theorem without_eq_nil (h : ns ⊆ others) : without ns others = [] :=
  List.filter_eq_nil_iff.mpr fun n hn => by simpa using h hn

theorem without_without (ns ms others : List NodeId) :
    without (without ns ms) others = without ns (ms ++ others) := by
  simp [without, List.filter_filter, Bool.and_comm]

theorem nodup_without (h : ns.Nodup) : (without ns others).Nodup := h.filter _

@[simp] theorem insertAt_none (ns moving : List NodeId) : insertAt ns moving none = ns ++ moving :=
  rfl

/-- A reference that is not there stands for the end. -/
theorem insertAt_of_notMem (h : r ∉ ns) (moving : List NodeId) :
    insertAt ns moving (some r) = ns ++ moving := by
  have hr : ns.idxOf? r = none := List.idxOf?_eq_none_iff.mpr h
  rw [insertAt, Option.bind_some, hr]

/-- What is inserted stands right before the reference. -/
theorem insertAt_before (h : r ∉ ns) (moving ms : List NodeId) :
    insertAt (ns ++ r :: ms) moving (some r) = ns ++ moving ++ r :: ms := by
  have hr : (ns ++ r :: ms).idxOf? r = some ns.length := by
    refine List.idxOf?_eq_some_iff.mpr ⟨by simp, by simp, fun j hj he => h ?_⟩
    rw [List.getElem_append_left hj] at he
    exact he ▸ List.getElem_mem hj
  rw [insertAt, Option.bind_some, hr]
  simp

/-- Where the reference is: nowhere, or after some nodes and before others. -/
theorem insertAt_cases (ns moving : List NodeId) (reference : Option NodeId) :
    ((∀ r, reference = some r → r ∉ ns) ∧ insertAt ns moving reference = ns ++ moving) ∨
      ∃ pre r post, reference = some r ∧ ns = pre ++ r :: post ∧ r ∉ pre ∧
        insertAt ns moving reference = pre ++ moving ++ r :: post := by
  cases reference with
  | none => exact .inl ⟨nofun, rfl⟩
  | some r =>
    by_cases h : r ∈ ns
    · obtain ⟨pre, post, rfl, hpre⟩ := List.eq_append_cons_of_mem h
      exact .inr ⟨pre, r, post, rfl, rfl, hpre, insertAt_before hpre moving post⟩
    · refine .inl ⟨?_, insertAt_of_notMem h moving⟩
      rintro _ ⟨⟩
      exact h

theorem insertAt_perm (ns moving : List NodeId) (reference : Option NodeId) :
    (insertAt ns moving reference).Perm (ns ++ moving) := by
  obtain ⟨-, h⟩ | ⟨pre, r, post, -, rfl, -, h⟩ := insertAt_cases ns moving reference
  · rw [h]
  · rw [h, List.append_assoc, List.append_assoc]
    exact (List.perm_append_comm).append_left pre

@[simp] theorem mem_insertAt :
    n ∈ insertAt ns moving reference ↔ n ∈ ns ∨ n ∈ moving := by
  rw [(insertAt_perm ns moving reference).mem_iff, List.mem_append]

/-- Taking out others than the reference can as well be done first. -/
theorem without_insertAt (h : ∀ r, reference = some r → r ∉ others) :
    without (insertAt ns moving reference) others =
      insertAt (without ns others) (without moving others) reference := by
  obtain ⟨hr, hi⟩ | ⟨pre, r, post, rfl, rfl, hpre, hi⟩ := insertAt_cases ns moving reference
  · rw [hi, without_append]
    cases reference with
    | none => rfl
    | some r => exact (insertAt_of_notMem (fun hm => hr r rfl (mem_without.mp hm).1) _).symm
  · have hr := h r rfl
    rw [hi, without_append, without_append, without_append, without_cons_of_notMem hr,
      insertAt_before fun hm => hpre (mem_without.mp hm).1]

/-- What is inserted before the same reference later stands behind what was inserted first. -/
theorem insertAt_insertAt (h : ∀ r, reference = some r → r ∉ ms) :
    insertAt (insertAt ns ms reference) moving reference = insertAt ns (ms ++ moving) reference := by
  obtain ⟨hr, hi⟩ | ⟨pre, r, post, rfl, rfl, hpre, hi⟩ := insertAt_cases ns ms reference
  · cases reference with
    | none => simp
    | some r =>
      rw [hi, insertAt_of_notMem (by simp [hr r rfl, h r rfl]), insertAt_of_notMem (hr r rfl),
        List.append_assoc]
  · rw [hi, insertAt_before (by simp [hpre, h r rfl]), insertAt_before hpre,
      List.append_assoc pre]

end Lists

/-! ## Moving and taking out -/

/-- **Loosened.** Nodes have been taken out of where they were and have no parent. -/
structure Loosened (d d' : Document) (ns : List NodeId) : Prop where
  content (n : NodeId) : d'.content n = d.content n
  parent (n : NodeId) : d'.parent? n = if n ∈ ns then none else d.parent? n
  children (p : NodeId) : d'.children p = without (d.children p) ns

/-- **Moved.** Nodes have been taken out of where they were, and stand together before a reference, or
at the end. -/
structure Moved (d d' : Document) (moving : List NodeId) (target : NodeId)
    (reference : Option NodeId) : Prop where
  content (n : NodeId) : d'.content n = d.content n
  parent (n : NodeId) : d'.parent? n = if n ∈ moving then some target else d.parent? n
  children (p : NodeId) : d'.children p =
    if p = target then insertAt (without (d.children p) moving) moving reference
    else without (d.children p) moving

section Changes

variable {d d' d'' : Document} {ns moving : List NodeId} {n child parent : NodeId}
  {reference : Option NodeId}

theorem Loosened.linked (h : d.Linked) (hd : d.Loosened d' ns) : d'.Linked where
  mem_children {n p} := by
    rw [hd.children, hd.parent, mem_without, h.mem_children]
    split
    · next hn => simp [hn]
    · next hn => simp [hn]
  nodup p := by
    rw [hd.children]
    exact nodup_without (h.nodup p)
  kind {n p} hp := by
    rw [hd.parent] at hp
    split at hp
    · exact absurd hp (by simp)
    · rw [Document.kind, hd.content]
      exact h.kind hp

/-- **Moving keeps a document linked.** -/
theorem Moved.linked (h : d.Linked) (hd : d.Moved d' moving parent reference) (hn : moving.Nodup)
    (hk : ∀ n ∈ moving, d.kind n ≠ .fragment) : d'.Linked where
  mem_children {n p} := by
    rw [hd.children, hd.parent]
    by_cases hm : n ∈ moving
    · rw [if_pos hm]
      split
      · next hp => simp [hm, hp]
      · next hp => simp [hm, Ne.symm hp]
    · rw [if_neg hm, ← h.mem_children]
      split <;> simp [hm]
  nodup p := by
    rw [hd.children]
    have hp : (without (d.children p) moving).Nodup := nodup_without (h.nodup p)
    split
    · refine (insertAt_perm _ _ _).nodup_iff.mpr (List.nodup_append'.mpr ⟨hp, hn, ?_⟩)
      exact fun n hm => (mem_without.mp hm).2
    · exact hp
  kind {n p} hp := by
    rw [Document.kind, hd.content]
    rw [hd.parent] at hp
    split at hp
    · next hm => exact hk n hm
    · exact h.kind hp

theorem Loosened.nil (d : Document) : d.Loosened d [] where
  content _ := rfl
  parent n := by simp
  children p := (without_eq_self (by simp)).symm

/-- Nodes are taken out one after another. -/
theorem Loosened.cons (h : d.Loosened d' [n]) (h' : d'.Loosened d'' ns) :
    d.Loosened d'' (n :: ns) where
  content m := (h'.content m).trans (h.content m)
  parent m := by
    rw [h'.parent, h.parent]
    by_cases hm : m = n <;> by_cases hs : m ∈ ns <;> simp [hm, hs]
  children p := by rw [h'.children, h.children, without_without, List.singleton_append]

/-- **Nodes are moved one after another** to the same place. -/
theorem Moved.cons (h : d.Moved d' [n] parent reference) (h' : d'.Moved d'' ns parent reference)
    (hn : n ∉ ns) (hr : ∀ r, reference = some r → r ∉ n :: ns) :
    d.Moved d'' (n :: ns) parent reference where
  content m := (h'.content m).trans (h.content m)
  parent m := by
    rw [h'.parent, h.parent]
    by_cases hm : m = n <;> by_cases hs : m ∈ ns <;> simp [hm, hs]
  children p := by
    have hrest : ∀ r, reference = some r → r ∉ ns := fun r he hm =>
      hr r he (List.mem_cons_of_mem _ hm)
    have hfirst : ∀ r, reference = some r → r ∉ [n] := fun r he hm =>
      hr r he (List.mem_singleton.mp hm ▸ List.mem_cons_self ..)
    rw [h'.children, h.children]
    by_cases hp : p = parent
    · rw [if_pos hp, if_pos hp, if_pos hp, without_insertAt hrest, without_without,
        List.singleton_append, without_singleton hn,
        insertAt_insertAt hfirst, List.singleton_append]
    · rw [if_neg hp, if_neg hp, if_neg hp, without_without, List.singleton_append]

/-- Nothing is moved if taking the nodes out of where they stand and putting them before the reference
again leads to the same. -/
theorem Moved.same (h : d.Linked) (hm : moving ⊆ d.children parent)
    (hc : insertAt (without (d.children parent) moving) moving reference = d.children parent) :
    d.Moved d moving parent reference where
  content _ := rfl
  parent n := by
    split
    · next hn => exact h.mem_children.mp (hm hn)
    · rfl
  children p := by
    split
    · next hp => rw [hp, hc]
    · next hp =>
      refine (without_eq_self fun n hn hmoving => hp ?_).symm
      exact Option.some.inj ((h.mem_children.mp hn).symm.trans (h.mem_children.mp (hm hmoving)))

/-- Nodes right before a node are moved before it by doing nothing. -/
theorem Moved.inPlace {before after : List NodeId} {r : NodeId} (h : d.Linked)
    (hc : d.children parent = before ++ moving ++ r :: after) :
    d.Moved d moving parent (some r) := by
  refine .same h (by simp [hc]) ?_
  have hnodup := h.nodup parent
  simp only [hc, List.append_assoc, List.nodup_append', List.disjoint_append_right] at hnodup
  obtain ⟨-, ⟨-, -, hmoving⟩, hbefore, hr⟩ := hnodup
  rw [hc, without_append, without_append, without_eq_nil (List.Subset.refl _), List.append_nil,
    without_eq_self fun n hn hm => hbefore hn hm, without_eq_self fun n hn hm => hmoving hm hn,
    insertAt_before fun hm => hr hm (List.mem_cons_self ..)]

/-- All children of a node are moved to its end by doing nothing. -/
theorem Moved.all (h : d.Linked) (p : NodeId) : d.Moved d (d.children p) p none :=
  .same h (List.Subset.refl _) (by simp [without_eq_nil])

/-- A node that has children has been made. -/
theorem lt_of_child {p : NodeId} (h : n ∈ d.children p) : p.index < d.size := by
  refine d.index_lt_of_get_ne fun hd => ?_
  rw [children, hd] at h
  exact absurd h List.not_mem_nil

/-- **Kept.** The document is linked, and the nodes that had been made are where they were. -/
structure Kept (d d' : Document) : Prop where
  linked : d'.Linked
  size : d.size ≤ d'.size
  children {n : NodeId} : n.index < d.size → d'.children n = d.children n
  parent {n : NodeId} : n.index < d.size → d'.parent? n = d.parent? n
  kind {n : NodeId} : n.index < d.size → d'.kind n = d.kind n

end Changes

/-! ## What the operations do -/

section Operations

variable {d : Document} {child parent : NodeId}

theorem children_setParents (d : Document) (ns : List NodeId) (parent : Option NodeId)
    (p : NodeId) : (d.setParents ns parent).children p = d.children p := by
  induction ns generalizing d with
  | nil => rfl
  | cons n ns ih =>
    show ((d.setParent n parent).setParents ns parent).children p = _
    rw [ih, children_setParent]

theorem content_setParents (d : Document) (ns : List NodeId) (parent : Option NodeId)
    (n : NodeId) : (d.setParents ns parent).content n = d.content n := by
  induction ns generalizing d with
  | nil => rfl
  | cons m ns ih =>
    show ((d.setParent m parent).setParents ns parent).content n = _
    rw [ih, content_setParent]

theorem parent_setParents (d : Document) (ns : List NodeId) (parent : Option NodeId)
    (n : NodeId) :
    (d.setParents ns parent).parent? n = if n ∈ ns then parent else d.parent? n := by
  induction ns generalizing d with
  | nil => simp [setParents]
  | cons m ns ih =>
    show ((d.setParent m parent).setParents ns parent).parent? n = _
    rw [ih, parent_setParent]
    rcases eq_or_ne m n with rfl | hm
    · simp
    · simp [hm, hm.symm]

/-- **Taking a node out** loosens it. -/
theorem loosened_detach (h : d.Linked) (n : NodeId) : d.Loosened (d.detach n) [n] := by
  unfold detach
  cases hp : d.parent? n with
  | none =>
    refine ⟨fun _ => rfl, fun m => ?_, fun p => (without_eq_self fun m hm hn => ?_).symm⟩
    · by_cases hm : m ∈ [n]
      · rw [if_pos hm, List.mem_singleton.mp hm, hp]
      · rw [if_neg hm]
    · rw [List.mem_singleton.mp hn] at hm
      exact absurd (hp.symm.trans (h.mem_children.mp hm)) (by simp)
  | some p =>
    have hm : n ∈ d.children p := h.mem_children.mpr hp
    dsimp only
    rw [removeChild, if_pos hm]
    refine ⟨fun m => by simp, fun m => ?_, fun q => ?_⟩
    · rw [parent_setParent, parent_setChildren]
      by_cases he : n = m <;> simp [he, eq_comm]
    · rw [children_setParent, children_setChildren]
      split
      · next he =>
        subst he
        rw [(h.nodup p).erase_eq_filter, without]
        exact List.filter_congr fun m _ => by simp [bne, beq_eq_decide]
      · next he =>
        refine (without_eq_self fun m hm' hn => he ?_).symm
        rw [List.mem_singleton.mp hn] at hm'
        exact Option.some.inj (hp.symm.trans (h.mem_children.mp hm'))

/-- The nodes that inserting a node moves: the children of a fragment, or the node. -/
def carried (d : Document) (child : NodeId) : List NodeId :=
  if d.kind child = .fragment then d.children child else [child]

theorem uproot_fst (d : Document) (child : NodeId) : (d.uproot child).1 = d.carried child := by
  unfold uproot carried
  split <;> rfl

/-- What is moved has been taken out of all children before it is put anywhere. -/
theorem uproot_spec (h : d.Linked) (child : NodeId) :
    (∀ n, (d.uproot child).2.content n = d.content n) ∧
      (∀ n, n ∉ d.carried child → (d.uproot child).2.parent? n = d.parent? n) ∧
        ∀ p, (d.uproot child).2.children p = without (d.children p) (d.carried child) := by
  unfold uproot carried
  split
  · next hk =>
    refine ⟨fun n => by simp, fun n _ => by simp, fun p => ?_⟩
    rw [children_setChildren]
    split
    · next he => rw [he, without_eq_nil (List.Subset.refl _)]
    · next he =>
      refine (without_eq_self fun n hn hm => he ?_).symm
      exact Option.some.inj ((h.mem_children.mp hm).symm.trans (h.mem_children.mp hn))
  · have hd := loosened_detach h child
    refine ⟨hd.content, fun n hn => (hd.parent n).trans (if_neg hn), hd.children⟩

/-- **Inserting moves** what is carried to the place before the reference. -/
theorem moved_insertBefore (h : d.Linked) (hne : child ≠ parent) (reference : Option NodeId) :
    d.Moved (d.insertBefore parent child reference) (d.carried child) parent reference := by
  obtain ⟨hcontent, hparent, hchildren⟩ := uproot_spec h child
  rw [insertBefore, if_neg hne]
  dsimp only
  rw [uproot_fst]
  refine ⟨fun n => ?_, fun n => ?_, fun p => ?_⟩
  · rw [content_setChildren, content_setParents, hcontent]
  · rw [parent_setChildren, parent_setParents]
    split
    · rfl
    · next hn => exact hparent n hn
  · rw [children_setChildren, children_setParents, children_setParents, hchildren, hchildren]
    by_cases hp : parent = p
    · rw [if_pos hp, if_pos hp.symm, hp]
    · rw [if_neg hp, if_neg (Ne.symm hp)]

/-- A node that has a parent is carried alone. -/
theorem carried_of_parent (h : d.Linked) {p : NodeId} (hp : d.parent? child = some p) :
    d.carried child = [child] :=
  if_neg (h.kind hp)

theorem carried_of_fragment (hk : d.kind child = .fragment) :
    d.carried child = d.children child :=
  if_pos hk

end Operations

/-! ## Planting -/

section Planting

variable {d d' : Document} {n p parent : NodeId}

/-- **New nodes that are linked among themselves** leave a document linked. -/
theorem Linked.extend (h : d.Linked) (hg : d.Grown d') (hr : d'.Rooted d.size d'.size)
    (hp : ∀ {n p : NodeId}, d.size ≤ n.index → d'.parent? n = some p →
      n ∈ d'.children p ∧ d'.kind n ≠ .fragment) : d'.Linked where
  mem_children {n p} := by
    constructor
    · intro hm
      by_cases hlt : p.index < d.size
      · rw [(same_of_grown hg hlt).2] at hm
        have hparent := h.mem_children.mp hm
        rw [parent?, hg.get n (lt_of_parent hparent)]
        exact hparent
      · exact (hr.child (Nat.not_lt.mp hlt) (lt_of_child hm) hm).2.2
    · intro hparent
      by_cases hlt : n.index < d.size
      · rw [parent?, hg.get n hlt] at hparent
        have hm := h.mem_children.mpr hparent
        rw [(same_of_grown hg (lt_of_child hm)).2]
        exact hm
      · exact (hp (Nat.not_lt.mp hlt) hparent).1
  nodup p := by
    by_cases hlt : p.index < d.size
    · rw [(same_of_grown hg hlt).2]
      exact h.nodup p
    · by_cases hlt' : p.index < d'.size
      · exact hr.nodup (Nat.not_lt.mp hlt) hlt'
      · rw [children, Store.get_of_size_le d' (Nat.not_lt.mp hlt')]
        exact List.nodup_nil
  kind {n p} hparent := by
    by_cases hlt : n.index < d.size
    · rw [parent?, hg.get n hlt] at hparent
      rw [Document.kind, content, hg.get n hlt]
      exact h.kind hparent
    · exact (hp (Nat.not_lt.mp hlt) hparent).2

/-- Nodes that had been made are where they were if a document has only grown. -/
theorem Kept.of_grown (h : d'.Linked) (hg : d.Grown d') : d.Kept d' where
  linked := h
  size := hg.size
  children hn := (same_of_grown hg hn).2
  parent hn := congrArg Node.parent (hg.get _ hn)
  kind hn := congrArg (fun node => node.content.kind) (hg.get _ hn)

end Planting

end Document

namespace Document

section Solid

variable {d : Document}

theorem content_treeTo (d : Document) (depth : Nat) (n : NodeId) :
    (d.treeTo depth n).content = d.content n := by
  cases depth <;> rfl

/-- Nothing in a linked document has a fragment inside. -/
theorem solid_tree (h : d.Linked) (n : NodeId) : (d.tree n).Solid := by
  unfold tree
  generalize d.size = depth
  induction depth generalizing n with
  | zero => exact trivial
  | succ depth ih =>
    refine Tree.solidAll_iff.mpr fun t ht => ?_
    obtain ⟨m, hm, rfl⟩ := List.mem_map.mp ht
    refine ⟨?_, ih m⟩
    rw [content_treeTo]
    exact h.kind (h.mem_children.mp hm)

mutual

/-- **Everything that is planted stands where its parent has it**, but for the root, which stands
alone. -/
theorem placed_plant (d : Document) {t : Tree} (ht : t.Solid) :
    (d.plant t).2.parent? (d.plant t).1 = none ∧ ∀ {n : NodeId}, d.size ≤ n.index →
      n.index < (d.plant t).2.size → n ≠ (d.plant t).1 → (d.plant t).2.kind n ≠ .fragment ∧
        ∃ p, (d.plant t).2.parent? n = some p ∧ n ∈ (d.plant t).2.children p := by
  cases t with
  | node c ts =>
    let root := (d.create c).1
    let x := (plantAll (d.create c).2 root ts).2
    obtain ⟨hg, -, -⟩ := plantAll_grown (d.create c).2 root ts
    obtain ⟨-, -, hparents⟩ := rooted_plantAll (d.create c).2 root ts
    have hroot := d.lt_of_create c
    have hnew : x.get root = Node.ofContent c :=
      (hg.get root hroot).trans (Store.get_add_self _ _)
    have hsize : (x.setChildren root (plantAll (d.create c).2 root ts).1).size = x.size :=
      Store.size_modify _ (Nat.lt_of_lt_of_le hroot hg.size) _
    rw [plant_node]
    refine ⟨?_, fun {n} hl hh hne => ?_⟩
    · rw [parent_setChildren, parent?, hnew]
      rfl
    · have hl' : (d.create c).2.size ≤ n.index := by
        rw [show (d.create c).2.size = d.size + 1 from Store.size_add d _]
        exact Nat.lt_of_le_of_ne hl fun he => hne (Ref.eq_of_index he.symm)
      obtain ⟨hk, hm⟩ := placed_plantAll (d.create c).2 root ht hl' (hsize ▸ hh)
      refine ⟨by rw [kind, content_setChildren]; exact hk, ?_⟩
      simp only [parent_setChildren, children_setChildren]
      obtain hm | ⟨p, hp, hm⟩ := hm
      · exact ⟨root, hparents n hm, by rw [if_pos rfl]; exact hm⟩
      · refine ⟨p, hp, ?_⟩
        rw [if_neg]
        · exact hm
        · -- The root has no children before it is given them.
          rintro rfl
          rw [children, hnew] at hm
          exact absurd hm List.not_mem_nil

theorem placed_plantAll (d : Document) (parent : NodeId) {ts : List Tree} (ht : Tree.SolidAll ts)
    {n : NodeId} (hl : d.size ≤ n.index) (hh : n.index < (d.plantAll parent ts).2.size) :
    (d.plantAll parent ts).2.kind n ≠ .fragment ∧ (n ∈ (d.plantAll parent ts).1 ∨
      ∃ p, (d.plantAll parent ts).2.parent? n = some p ∧
        n ∈ (d.plantAll parent ts).2.children p) := by
  cases ts with
  | nil => exact absurd hl (Nat.not_le.mpr hh)
  | cons t ts =>
    obtain ⟨hkind, hsolid, hrest⟩ := ht
    let root := (d.plant t).1
    let x := (d.plant t).2.setParent root (some parent)
    obtain ⟨-, ⟨-, hroot⟩, -⟩ := plant_grown d t
    obtain ⟨hg, -, -⟩ := plantAll_grown x parent ts
    have hsize : x.size = (d.plant t).2.size := Store.size_modify _ hroot _
    rw [plantAll_cons] at hh ⊢
    by_cases hlt : n.index < x.size
    · have hkeep := hg.get n hlt
      have hcontent : (plantAll x parent ts).2.content n = (d.plant t).2.content n :=
        (congrArg Node.content hkeep).trans (content_setParent _ _ _ _)
      by_cases he : n = root
      · refine ⟨?_, .inl (he ▸ List.mem_cons_self ..)⟩
        rw [kind, hcontent, he, ← content_tree, tree_plant]
        exact hkind
      · obtain ⟨hk, p, hp, hm⟩ := (placed_plant d hsolid).2 hl (hsize ▸ hlt) he
        refine ⟨by rw [kind, hcontent]; exact hk, .inr ⟨p, ?_, ?_⟩⟩
        · rw [parent?, hkeep]
          exact (parent_setParent _ _ _ _).trans ((if_neg (Ne.symm he)).trans hp)
        · have hm' : n ∈ x.children p := by
            rw [children_setParent]
            exact hm
          rw [(same_of_grown hg (lt_of_child hm')).2]
          exact hm'
    · obtain ⟨hk, hm | hm⟩ := placed_plantAll x parent hrest (Nat.not_lt.mp hlt) hh
      · exact ⟨hk, .inl (List.mem_cons_of_mem _ hm)⟩
      · exact ⟨hk, .inr hm⟩

end

/-- A document stays linked when a tree is planted. -/
theorem linked_plant (h : d.Linked) {t : Tree} (ht : t.Solid) : (d.plant t).2.Linked := by
  obtain ⟨hg, -, -⟩ := plant_grown d t
  obtain ⟨hroot, hplaced⟩ := placed_plant d ht
  refine h.extend hg (rooted_plant d t) fun {n p} hl hp => ?_
  have hne : n ≠ (d.plant t).1 := by
    rintro rfl
    exact absurd (hroot.symm.trans hp) (by simp)
  obtain ⟨hk, q, hq, hm⟩ := hplaced hl (lt_of_parent hp) hne
  obtain rfl : q = p := Option.some.inj (hq.symm.trans hp)
  exact ⟨hm, hk⟩

/-- A document stays linked when a node is made. -/
theorem linked_create (h : d.Linked) (c : Content) : (d.create c).2.Linked := by
  have hplanted : (d.plant (.node c [])).2 = (d.create c).2.setChildren (d.create c).1 [] := by
    rw [plant_node, plantAll]
  have hlinked : (d.plant (.node c [])).2.Linked := linked_plant h trivial
  rw [hplanted] at hlinked
  refine @Loosened.linked _ _ [] hlinked ⟨fun n => ?_, fun n => ?_, fun p => ?_⟩
  · rw [content_setChildren]
  · rw [parent_setChildren, if_neg List.not_mem_nil]
  · rw [children_setChildren, without_eq_self (by simp)]
    split
    · next he =>
      rw [← he, children, create, Store.get_add_self]
      rfl
    · rfl

/-- A document stays linked when a new node is put in front of others. -/
theorem linked_prepend (h : d.Linked) {parent : NodeId} (hp : parent.index < d.size) {c : Content}
    (hc : c.kind ≠ .fragment) : (d.prepend parent c).Linked := by
  rw [← insertBefore_head hp hc]
  have hne : (d.create c).1 ≠ parent := fun he => absurd hp (he ▸ Nat.lt_irrefl _)
  have hkind : (d.create c).2.kind (d.create c).1 = c.kind := by
    rw [kind, content, create, Store.get_add_self]
    rfl
  have hmoved := moved_insertBefore (linked_create h c) hne (d.children parent).head?
  rw [carried, if_neg (by rw [hkind]; exact hc)] at hmoved
  refine hmoved.linked (linked_create h c) (List.nodup_singleton _) fun n hn => ?_
  rw [List.mem_singleton.mp hn, hkind]
  exact hc

end Solid

end Document

end ReactiveViews
