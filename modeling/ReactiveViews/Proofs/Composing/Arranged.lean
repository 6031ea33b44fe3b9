import ReactiveViews.Proofs.Linkage
import ReactiveViews.Proofs.Ranges.Creation
/-!
# Views around a place

Several views belong to one node, and at most one of them stands right before it; the others are
in their fragments (`World.Arranged`). Such an arrangement is kept when the view in front is taken
out, when one is put there while the place is free, and when a new view comes along in its
fragment. The view in front then has its nodes right before the node, and the others have all of
theirs in their fragments.
-/

namespace ReactiveViews

namespace Document

variable {d d' : Document} {n m p : NodeId}

/-- The previous sibling of a child is the child before it. -/
theorem previousSibling_of_children {before after : List NodeId} (hd : d.Linked)
    (h : d.children p = before ++ n :: m :: after) : d.previousSibling? m = some n := by
  have hp : d.parent? m = some p := hd.mem_children.mp (by simp [h])
  have hi : d.indexInParent? m = some (before.length + 1) :=
    indexInParent_of_child hp (hd.nodup p) (by simp [child?, h])
  rw [previousSibling?, hp, Option.bind_some, hi, Option.bind_some, if_neg (Nat.succ_ne_zero _),
    Nat.add_sub_cancel, child?, h]
  simp

theorem Related.previousSibling (h : d.Related d') (n : NodeId) :
    d'.previousSibling? n = d.previousSibling? n := by
  have hc : d'.children = d.children := funext h.children
  simp only [previousSibling?, indexInParent?, child?, h.parent, hc]

/-- Siblings of nodes that have been made stay as long as these are where they were. -/
theorem Kept.previousSibling (h : d.Kept d') (hd : d.Linked) (hn : n.index < d.size) :
    d'.previousSibling? n = d.previousSibling? n := by
  rw [previousSibling?, previousSibling?, indexInParent?, indexInParent?, h.parent hn]
  cases hp : d.parent? n with
  | none => rfl
  | some p =>
    have hc := h.children (lt_of_child (hd.mem_children.mpr hp))
    simp only [Option.bind_some, child?, hc]

end Document

namespace World

/-- **At hand.** A view is in one piece, and may be put before a node: it is not around the node,
nor is the place before the node in the view's fragment. -/
structure AtHand (w : World) (r : NodeId) (v : ViewId) : Prop where
  whole : w.Whole v (w.viewNodes v)
  node : r ∉ w.viewNodes v
  parent {p : NodeId} : w.document.parent? r = some p →
    p ∉ w.viewNodes v ∧ p ≠ (w.views.get v).fragment

/-- Whether the last node of a view is the one before a node. -/
def standsBefore (w : World) (v : ViewId) (r : NodeId) : Bool :=
  w.document.previousSibling? r == some (w.views.get v).last

/-- **Arranged.** Views are at hand for a node, with at most one of them right before it and the
others in their fragments. -/
structure Arranged (w : World) (r : NodeId) (vs : List ViewId) (front : Option ViewId) : Prop where
  linked : w.document.Linked
  parent : ∃ p, w.document.parent? r = some p
  made {v : ViewId} : v ∈ vs → v.index < w.views.size
  atHand {v : ViewId} : v ∈ vs → w.AtHand r v
  apart {u v : ViewId} : u ∈ vs → v ∈ vs →
    (w.views.get u).fragment = (w.views.get v).fragment → u = v
  aside {v : ViewId} : v ∈ vs → front ≠ some v → w.isDetached v = true
  front {v : ViewId} : front = some v → v ∈ vs ∧ w.standsBefore v r = true

section Arranged

variable {w w' : World} {r p n : NodeId} {v u : ViewId} {vs : List ViewId} {front : Option ViewId}
  {nodes : List NodeId}

/-- What a detached view is made of has its fragment as parent. -/
theorem AtHand.parent_of_detached (h : w.AtHand r v) (hd : w.document.Linked)
    (hv : w.isDetached v = true) (hn : n ∈ w.viewNodes v) :
    w.document.parent? n = some (w.views.get v).fragment := by
  rw [h.whole.parent hd hn]
  exact beq_iff_eq.mp hv

/-- A view before a node has the parent of that node, and its nodes are right before it. -/
theorem AtHand.of_standsBefore (h : w.AtHand r v) (hd : w.document.Linked)
    (hv : w.standsBefore v r = true) : ∃ p before after, w.document.parent? r = some p ∧
      w.document.children p = before ++ w.viewNodes v ++ r :: after := by
  obtain ⟨p, hs⟩ := h.whole.stretch
  obtain ⟨hp, before, after, hc⟩ := hs.followed hd (beq_iff_eq.mp hv)
  exact ⟨p, before, after, hp, hc⟩

/-- **The view in front** has its nodes right before the node. -/
theorem Arranged.front_nodes (h : w.Arranged r vs (some v)) :
    ∃ p before after, w.document.parent? r = some p ∧
      w.document.children p = before ++ w.viewNodes v ++ r :: after :=
  have hf := h.front rfl
  (h.atHand hf.1).of_standsBefore h.linked hf.2

/-- **The other views** have their nodes in their fragments, and nothing else is there. -/
theorem Arranged.aside_nodes (h : w.Arranged r vs front) (hv : v ∈ vs) (hf : front ≠ some v) :
    w.document.children (w.views.get v).fragment = w.viewNodes v :=
  ((h.atHand hv).whole.isDetached_iff h.linked).mp (h.aside hv hf)

/-! ## What leaves nodes where they are -/

/-- Only who is whose child and which nodes views have matters. -/
theorem AtHand.related (h : w.AtHand r v) (hd : w.document.Linked)
    (hr : w.document.Related w'.document)
    (hv : (w'.views.get v).lasting = (w.views.get v).lasting) : w'.AtHand r v := by
  have hfirst := congrArg ViewState.first hv
  have hlast := congrArg ViewState.last hv
  have hfragment := congrArg ViewState.fragment hv
  have hwhole : w'.Whole v (w.viewNodes v) := by
    obtain ⟨p, hs⟩ := h.whole.stretch
    refine ⟨⟨p, ?_, hs.head.trans (congrArg some hfirst.symm),
      hs.last.trans (congrArg some hlast.symm)⟩, ?_, ?_⟩
    · rw [hr.children]
      exact hs.isInfix
    · rw [hr.kind]
      exact (congrArg w.document.kind hfragment).trans h.whole.kind
    · rw [hr.children]
      exact (congrArg w.document.children hfragment) ▸ h.whole.children
  have hnodes := hwhole.viewNodes_eq (hd.related hr)
  refine ⟨hnodes ▸ hwhole, hnodes ▸ h.node, fun hp => ?_⟩
  rw [hr.parent] at hp
  obtain ⟨hout, hne⟩ := h.parent hp
  exact ⟨hnodes ▸ hout, fun he => hne (he.trans hfragment)⟩

theorem Arranged.related (h : w.Arranged r vs front) (hr : w.document.Related w'.document)
    (hsize : w.views.size ≤ w'.views.size)
    (hv : ∀ v ∈ vs, (w'.views.get v).lasting = (w.views.get v).lasting) :
    w'.Arranged r vs front where
  linked := h.linked.related hr
  parent := by
    rw [hr.parent]
    exact h.parent
  made hm := Nat.lt_of_lt_of_le (h.made hm) hsize
  atHand hm := (h.atHand hm).related h.linked hr (hv _ hm)
  apart {u x} hu hx he := by
    refine h.apart hu hx ?_
    have hfu := congrArg ViewState.fragment (hv u hu)
    have hfx := congrArg ViewState.fragment (hv x hx)
    exact hfu.symm.trans (he.trans hfx)
  aside {x} hx hf := by
    have hd := h.aside hx hf
    have hfirst := congrArg ViewState.first (hv x hx)
    have hfragment := congrArg ViewState.fragment (hv x hx)
    unfold isDetached at hd ⊢
    dsimp only at hd ⊢
    rw [hr.parent]
    exact (congrArg₂ (fun n m => w.document.parent? n == some m) hfirst hfragment).trans hd
  front {x} hx := by
    obtain ⟨hm, hb⟩ := h.front hx
    refine ⟨hm, ?_⟩
    have hlast := congrArg ViewState.last (hv x hm)
    unfold standsBefore at hb ⊢
    rw [hr.previousSibling]
    exact (congrArg (fun n => w.document.previousSibling? r == some n) hlast).trans hb

/-! ## Moving views -/

/-- A detached view stays as it is while nodes of others move to a place outside its fragment. -/
theorem AtHand.stays {moving : List NodeId} {target : NodeId} {reference : Option NodeId}
    (h : w.AtHand r u) (hd : w.document.Linked) (hu : w.isDetached u = true) (hw : w.Redrawn w')
    (hd' : w'.document.Linked) (hm : w.document.Moved w'.document moving target reference)
    (hout : ∀ n ∈ w.viewNodes u, n ∉ moving) (ht : target ≠ (w.views.get u).fragment)
    (hr : r ∉ moving) : w'.AtHand r u ∧ w'.isDetached u = true := by
  have hin := (h.whole.isDetached_iff hd).mp hu
  have hchildren : w'.document.children (w.views.get u).fragment = w.viewNodes u := by
    rw [hm.children, if_neg ht.symm, hin, Document.without_eq_self hout]
  have hwhole : w'.Whole u (w.viewNodes u) := by
    refine ⟨⟨(w.views.get u).fragment, ?_, ?_, ?_⟩, ?_, ?_⟩
    · rw [hchildren]
    · rw [hw.views]
      exact h.whole.head
    · obtain ⟨p, hs⟩ := h.whole.stretch
      rw [hw.views]
      exact hs.last
    · rw [hw.views, Document.kind, hm.content]
      exact h.whole.kind
    · rw [hw.views]
      exact .inl hchildren
  have hnodes := hwhole.viewNodes_eq hd'
  refine ⟨⟨hnodes ▸ hwhole, hnodes ▸ h.node, fun hp => ?_⟩, ?_⟩
  · rw [hm.parent, if_neg hr] at hp
    rw [hnodes, hw.views]
    exact h.parent hp
  · refine (hwhole.isDetached_iff hd').mpr ?_
    rw [hw.views]
    exact hchildren

/-- A view that moves together with its nodes is still at hand. -/
theorem AtHand.along {target : NodeId} {reference : Option NodeId} (h : w.AtHand r v)
    (hw : w.Redrawn w') (hd' : w'.document.Linked)
    (hm : w.document.Moved w'.document (w.viewNodes v) target reference)
    (hc : w'.document.children (w.views.get v).fragment = w.viewNodes v ∨
      w'.document.children (w.views.get v).fragment = []) :
    w'.AtHand r v ∧ w'.viewNodes v = w.viewNodes v := by
  have hwhole : w'.Whole v (w.viewNodes v) := by
    obtain ⟨p, hs⟩ := h.whole.stretch
    refine ⟨⟨target, ?_⟩, ?_, ?_⟩
    · rw [hw.views]
      exact hs.along hm List.infix_rfl
    · rw [hw.views, Document.kind, hm.content]
      exact h.whole.kind
    · rw [hw.views]
      exact hc
  have hnodes := hwhole.viewNodes_eq hd'
  refine ⟨⟨hnodes ▸ hwhole, hnodes ▸ h.node, fun hp => ?_⟩, hnodes⟩
  rw [hm.parent, if_neg h.node] at hp
  rw [hnodes, hw.views]
  exact h.parent hp

/-- Detached views have no node in common. -/
theorem Arranged.disjoint (h : w.Arranged r vs front) (hu : u ∈ vs) (hv : v ∈ vs) (hne : u ≠ v)
    (hdu : w.isDetached u = true) (hdv : w.isDetached v = true) : ∀ n ∈ w.viewNodes u,
      n ∉ w.viewNodes v := by
  intro n hn hm
  have hpu := (h.atHand hu).parent_of_detached h.linked hdu hn
  have hpv := (h.atHand hv).parent_of_detached h.linked hdv hm
  exact hne (h.apart hu hv (Option.some.inj (hpu.symm.trans hpv)))

/-- **A view is put in front** where none is. -/
theorem Arranged.insert (h : w.Arranged r vs none) (hv : v ∈ vs) (calls : Calls) :
    ∃ w', Machine.insertViewBefore v r calls w = some (.ok (), w') ∧ w.Redrawn w' ∧
      (∀ n, w'.document.content n = w.document.content n) ∧ w'.Arranged r vs (some v) := by
  obtain ⟨p, hp⟩ := h.parent
  have hat := h.atHand hv
  obtain ⟨hout, hne⟩ := hat.parent hp
  have hdetached := h.aside hv (by simp)
  have hin := (hat.whole.isDetached_iff h.linked).mp hdetached
  obtain ⟨w', hw', hredrawn, hmoved⟩ := Machine.insertView_moves hat.whole h.linked ⟨hout, hne⟩
    (fun m hm => Option.some.inj hm ▸ ⟨hat.node, hp⟩) calls
  have hd' := hmoved.linked h.linked (hat.whole.nodup h.linked) fun n hn =>
    hat.whole.kind_node h.linked hn
  refine ⟨w', (Machine.insertViewBefore_apply hp calls).trans hw', hredrawn, hmoved.content, hd',
    ⟨p, ?_⟩, ?_, ?_, ?_, ?_, ?_⟩
  · rw [hmoved.parent, if_neg hat.node, hp]
  · intro u hu
    rw [hredrawn.views]
    exact h.made hu
  · intro u hu
    by_cases he : u = v
    · subst he
      refine (hat.along hredrawn hd' hmoved (.inr ?_)).1
      rw [hmoved.children, if_neg hne.symm, hin, Document.without_eq_nil (List.Subset.refl _)]
    · have hdu := h.aside hu (by simp)
      exact ((h.atHand hu).stays h.linked hdu hredrawn hd' hmoved
        (h.disjoint hu hv he hdu hdetached) ((h.atHand hu).parent hp).2 hat.node).1
  · rw [hredrawn.views]
    exact fun hu hx => h.apart hu hx
  · intro u hu hf
    have he : u ≠ v := fun he => hf (he ▸ rfl)
    have hdu := h.aside hu (by simp)
    exact ((h.atHand hu).stays h.linked hdu hredrawn hd' hmoved
      (h.disjoint hu hv he hdu hdetached) ((h.atHand hu).parent hp).2 hat.node).2
  · rintro _ ⟨⟩
    refine ⟨hv, beq_iff_eq.mpr ?_⟩
    -- The nodes stand right before the node, so the last of them is the one before it.
    have hmem : r ∈ Document.without (w.document.children p) (w.viewNodes v) :=
      Document.mem_without.mpr ⟨h.linked.mem_children.mpr hp, hat.node⟩
    obtain ⟨before, after, hsplit, hbefore⟩ := List.eq_append_cons_of_mem hmem
    obtain ⟨q, hs⟩ := hat.whole.stretch
    obtain ⟨others, hlast⟩ := List.getLast?_eq_some_iff.mp hs.last
    have hc : w'.document.children p =
        (before ++ others) ++ (w.views.get v).last :: r :: after := by
      rw [hmoved.children, if_pos rfl, hsplit, Document.insertAt_before hbefore, hlast]
      simp
    rw [hredrawn.views]
    exact Document.previousSibling_of_children hd' hc

/-- **The view in front is taken out.** -/
theorem Arranged.remove (h : w.Arranged r vs (some v)) (calls : Calls) :
    ∃ w', Machine.removeView v calls w = some (.ok (), w') ∧ w.Redrawn w' ∧
      (∀ n, w'.document.content n = w.document.content n) ∧ w'.Arranged r vs none := by
  obtain ⟨hv, hbefore⟩ := h.front rfl
  have hat := h.atHand hv
  obtain ⟨p, before, after, hp, hc⟩ := hat.of_standsBefore h.linked hbefore
  obtain ⟨hout, hne⟩ := hat.parent hp
  obtain ⟨w', hw', hredrawn, hmoved⟩ := Machine.removeView_moves hat.whole h.linked calls
  have hd' := hmoved.linked h.linked (hat.whole.nodup h.linked) fun n hn =>
    hat.whole.kind_node h.linked hn
  have hparent : ∀ n ∈ w.viewNodes v, w.document.parent? n = some p := fun n hn =>
    h.linked.mem_children.mp (by simp [hc, hn])
  -- The fragment is empty before, for its nodes are in front.
  have hempty : w.document.children (w.views.get v).fragment = [] := by
    refine hat.whole.children.resolve_left fun hall => hne ?_
    have hmem := hat.whole.first_mem
    exact Option.some.inj ((hparent _ hmem).symm.trans (h.linked.mem_children.mp (hall ▸ hmem)))
  have hchildren : w'.document.children (w.views.get v).fragment = w.viewNodes v := by
    rw [hmoved.children, if_pos rfl, hempty]
    rfl
  obtain ⟨hat', hnodes⟩ := hat.along hredrawn hd' hmoved (.inl hchildren)
  have hstays : ∀ u ∈ vs, u ≠ v → w'.AtHand r u ∧ w'.isDetached u = true := by
    intro u hu he
    have hdu := h.aside hu fun hf => he (Option.some.inj hf).symm
    refine (h.atHand hu).stays h.linked hdu hredrawn hd' hmoved (fun n hn hm => ?_)
      (fun hf => he (h.apart hu hv hf.symm)) hat.node
    have hpu := (h.atHand hu).parent_of_detached h.linked hdu hn
    exact ((h.atHand hu).parent hp).2 (Option.some.inj ((hparent n hm).symm.trans hpu))
  refine ⟨w', hw', hredrawn, hmoved.content, hd', ⟨p, ?_⟩, ?_, fun {u} hu => ?_, ?_, fun {u} hu _ => ?_,
    by simp⟩
  · rw [hmoved.parent, if_neg hat.node, hp]
  · intro u hu
    rw [hredrawn.views]
    exact h.made hu
  · by_cases he : u = v
    · exact he ▸ hat'
    · exact (hstays u hu he).1
  · rw [hredrawn.views]
    exact fun hu hx => h.apart hu hx
  · by_cases he : u = v
    · subst he
      refine (hat'.whole.isDetached_iff hd').mpr ?_
      rw [hredrawn.views, hnodes]
      exact hchildren
    · exact (hstays u hu he).2

/-- **A new view comes along** in its fragment. -/
theorem Arranged.arrive (h : w.Arranged r vs front) (ha : w.Arrived w' v) :
    w'.Arranged r (v :: vs) front := by
  obtain ⟨p, hp⟩ := h.parent
  have hstill := ha.still
  have hr : r.index < w.document.size := Document.lt_of_parent hp
  have hpsize : p.index < w.document.size := Document.lt_of_child (h.linked.mem_children.mpr hp)
  have hp' : w'.document.parent? r = some p := (ha.document.parent hr).trans hp
  have hnodes := ha.whole.viewNodes_eq ha.document.linked
  have hnew : ∀ {n : NodeId}, n.index < w.document.size → n ∉ w'.viewNodes v := fun hn hm =>
    absurd hn (Nat.not_lt.mpr (ha.nodes (hnodes ▸ hm)))
  have hself : w'.AtHand r v := by
    refine ⟨hnodes.symm ▸ ha.whole, hnew hr, fun hq => ?_⟩
    obtain rfl := Option.some.inj (hp'.symm.trans hq)
    exact ⟨hnew hpsize, fun he => absurd (he ▸ hpsize) (Nat.not_lt.mpr ha.fragment)⟩
  have hold : ∀ {u}, u ∈ vs → w'.AtHand r u ∧ w'.viewNodes u = w.viewNodes u := by
    intro u hu
    have hwhole := (h.atHand hu).whole.still hstill (h.made hu)
    have hsame := hwhole.viewNodes_eq ha.document.linked
    refine ⟨⟨hsame.symm ▸ hwhole, hsame.symm ▸ (h.atHand hu).node, fun hq => ?_⟩, hsame⟩
    obtain rfl := Option.some.inj (hp'.symm.trans hq)
    rw [hsame, hstill.fragment (h.made hu)]
    exact (h.atHand hu).parent hp
  have hfragment : ∀ {u}, u ∈ vs → (w'.views.get u).fragment ≠ (w'.views.get v).fragment := by
    intro u hu he
    have hlt := (h.atHand hu).whole.lt_fragment
    rw [← hstill.fragment (h.made hu), he] at hlt
    exact absurd hlt (Nat.not_lt.mpr ha.fragment)
  refine ⟨ha.document.linked, ⟨p, hp'⟩, fun {u} hu => ?_, fun {u} hu => ?_, fun {u x} hu hx he => ?_,
    fun {u} hu hf => ?_, fun {u} hu => ?_⟩
  · obtain rfl | hu := List.mem_cons.mp hu
    · rw [ha.views, ha.new, Store.size_add]
      exact Nat.lt_succ_self _
    · exact Nat.lt_of_lt_of_le (h.made hu) hstill.size_views
  · obtain rfl | hu := List.mem_cons.mp hu
    · exact hself
    · exact (hold hu).1
  · obtain hu | hu := List.mem_cons.mp hu <;> obtain hx | hx := List.mem_cons.mp hx
    · rw [hu, hx]
    · exact absurd (hu ▸ he).symm (hfragment hx)
    · exact absurd (hx ▸ he) (hfragment hu)
    · rw [hstill.fragment (h.made hu), hstill.fragment (h.made hx)] at he
      exact h.apart hu hx he
  · obtain rfl | hu := List.mem_cons.mp hu
    · exact (ha.whole.isDetached_iff ha.document.linked).mpr rfl
    · have hin := ((h.atHand hu).whole.isDetached_iff h.linked).mp (h.aside hu hf)
      refine ((hold hu).1.whole.isDetached_iff ha.document.linked).mpr ?_
      rw [hstill.fragment (h.made hu), (hold hu).2,
        ha.document.children (h.atHand hu).whole.lt_fragment, hin]
  · obtain ⟨hu, hb⟩ := h.front hu
    refine ⟨List.mem_cons_of_mem _ hu, ?_⟩
    rw [standsBefore, ha.document.previousSibling h.linked hr, hstill.last (h.made hu)]
    exact hb

end Arranged

end World

end ReactiveViews
