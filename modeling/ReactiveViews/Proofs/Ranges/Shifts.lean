import ReactiveViews.Proofs.Ranges.Layout
/-!
# Views stay laid out

Three things happen to views that follow a layout. One of them moves, with all that lies in it
(`Shift.follows`); one is disposed of, with all that lies in it (`Follows.dispose`); or something else
happens that leaves nodes where they are (`Follows.still`). After each of them the views follow the
layout that one expects.
-/

namespace ReactiveViews

namespace World

/-! ## When a view moves -/

/-- **Shift.** A view has been put before a reference, which is not one of its nodes, or at the end of a
node. That may be its own fragment, but not another view's, unless the reference is inside that view. -/
structure Shift (w w' : World) (l : Layout) (z : ViewId) (target : NodeId)
    (reference : Option NodeId) : Prop where
  redrawn : w.Redrawn w'
  moved : w.document.Moved w'.document (w.viewNodes z) target reference
  before {r : NodeId} : reference = some r →
    r ∉ w.viewNodes z ∧ w.document.parent? r = some target
  into {v : ViewId} : l.Present v → target = (w.views.get v).fragment →
    (v = z ∧ reference = none) ∨
      ∃ r ∈ w.viewNodes v, r ≠ (w.views.get v).first ∧ reference = some r

namespace Shift

variable {w w' : World} {l : Layout} {u v z : ViewId} {n m r target : NodeId}
  {reference : Option NodeId}

theorem linked (hs : w.Shift w' l z target reference) (h : w.Follows l) (hz : l.Present z) :
    w'.document.Linked :=
  hs.moved.linked h.linked ((h.whole hz).nodup h.linked)
    fun _ hn => (h.whole hz).kind_node h.linked hn

/-- A view that is part of what has moved is in one piece. -/
theorem whole_inside (hs : w.Shift w' l z target reference) (h : w.Follows l) (hz : l.Present z)
    (hv : l.Present v) (hf : (w.views.get v).first ∈ w.viewNodes z) :
    w'.Whole v (w.viewNodes v) := by
  have hinside := h.infix_of_first hv hz hf
  obtain ⟨p, hstretch⟩ := (h.whole hv).stretch
  refine ⟨⟨target, ?_⟩, ?_, ?_⟩ <;> rw [hs.redrawn.views]
  · exact hstretch.along hs.moved hinside
  · rw [Document.kind, hs.moved.content]
    exact (h.whole hv).kind
  · have hnil : Document.without (w.document.children (w.views.get v).fragment) (w.viewNodes z) =
        [] :=
      Document.without_eq_nil fun n hn => hinside.subset (h.mem_of_fragment hv hn)
    rw [hs.moved.children, hnil]
    split
    · next ht =>
      obtain ⟨rfl, rfl⟩ | ⟨r, hr, -, he⟩ := hs.into hv ht.symm
      · exact .inl rfl
      · exact absurd (hinside.subset hr) (hs.before he).1
    · exact .inr rfl

/-- A view that is not part of what has moved is in one piece. It has lost the nodes that have moved, or
gained them where they were put before one of its nodes but the first. -/
theorem whole_outside (hs : w.Shift w' l z target reference) (h : w.Follows l) (hz : l.Present z)
    (hv : l.Present v) (hf : (w.views.get v).first ∉ w.viewNodes z) :
    ∃ nodes, w'.Whole v nodes ∧
      (Document.without (w.viewNodes v) (w.viewNodes z)).Sublist nodes ∧
      ∀ n, n ∈ nodes ↔ n ∈ w.viewNodes v ∧ n ∉ w.viewNodes z ∨
        n ∈ w.viewNodes z ∧ ∃ r ∈ w.viewNodes v, r ≠ (w.views.get v).first ∧ reference = some r := by
  have hl : (w.views.get v).last ∉ w.viewNodes z := fun hl => hf ((h.last_mem_iff hv hz).mp hl)
  obtain ⟨p, hstretch⟩ := (h.whole hv).stretch
  obtain ⟨nodes, hnodes, hsub, hmem⟩ :=
    hstretch.moved h.linked hs.moved (fun r he => hs.before he) hf hl
  refine ⟨nodes, ⟨⟨p, ?_⟩, ?_, ?_⟩, hsub, hmem⟩ <;> rw [hs.redrawn.views]
  · exact hnodes
  · rw [Document.kind, hs.moved.content]
    exact (h.whole hv).kind
  · obtain hc | hc := (h.whole hv).children
    · -- The view is detached, and its fragment has lost and gained what the view has.
      left
      obtain rfl : p = (w.views.get v).fragment := by
        refine Option.some.inj ((hstretch.parent h.linked hstretch.first_mem).symm.trans ?_)
        exact h.linked.mem_children.mp (hc ▸ h.first_mem hv)
      refine (Document.eq_of_infix ((hs.linked h hz).nodup _) hnodes.isInfix fun n hn => ?_).symm
      rw [hs.moved.children, hc] at hn
      rw [hmem]
      split at hn
      · next ht =>
        obtain ⟨rfl, -⟩ | hopen := hs.into hv ht.symm
        · exact absurd (h.first_mem hv) hf
        · rw [Document.mem_insertAt, Document.mem_without] at hn
          exact hn.imp_right fun hn => ⟨hn, hopen⟩
      · exact .inl (Document.mem_without.mp hn)
    · right
      have ht : (w.views.get v).fragment ≠ target := by
        intro ht
        obtain ⟨rfl, -⟩ | ⟨r, hr, -, he⟩ := hs.into hv ht.symm
        · exact hf (h.first_mem hv)
        · have hparent := (hs.before he).2
          rw [← ht, ← h.linked.mem_children, hc] at hparent
          exact absurd hparent List.not_mem_nil
      rw [hs.moved.children, if_neg ht, hc]
      rfl

theorem viewNodes_inside (hs : w.Shift w' l z target reference) (h : w.Follows l)
    (hz : l.Present z) (hv : l.Present v) (hf : (w.views.get v).first ∈ w.viewNodes z) :
    w'.viewNodes v = w.viewNodes v :=
  (hs.whole_inside h hz hv hf).viewNodes_eq (hs.linked h hz)

/-- **What a view holds after another has moved.** -/
theorem mem_viewNodes (hs : w.Shift w' l z target reference) (h : w.Follows l) (hz : l.Present z)
    (hv : l.Present v) (hf : (w.views.get v).first ∉ w.viewNodes z) :
    n ∈ w'.viewNodes v ↔ n ∈ w.viewNodes v ∧ n ∉ w.viewNodes z ∨
      n ∈ w.viewNodes z ∧ ∃ r ∈ w.viewNodes v, r ≠ (w.views.get v).first ∧ reference = some r := by
  obtain ⟨nodes, hwhole, -, hmem⟩ := hs.whole_outside h hz hv hf
  rw [hwhole.viewNodes_eq (hs.linked h hz)]
  exact hmem n

/-- Two nodes that have moved, or have not, and that were in a view or not, still are. -/
theorem mem_viewNodes_congr (hs : w.Shift w' l z target reference) (h : w.Follows l)
    (hz : l.Present z) (hv : l.Present v) (hmoved : m ∈ w.viewNodes z ↔ n ∈ w.viewNodes z)
    (hmem : m ∈ w.viewNodes v ↔ n ∈ w.viewNodes v) :
    m ∈ w'.viewNodes v ↔ n ∈ w'.viewNodes v := by
  by_cases hf : (w.views.get v).first ∈ w.viewNodes z
  · rw [hs.viewNodes_inside h hz hv hf]
    exact hmem
  · rw [hs.mem_viewNodes h hz hv hf, hs.mem_viewNodes h hz hv hf, hmoved, hmem]

/-- A view that another one's move leaves in its place is seated where it was. -/
theorem seated (hs : w.Shift w' l z target reference) (h : w.Follows l) (hz : l.Present z)
    (hu : l.Present u) (hne : z ≠ u) (hseated : w.Stationed l u r) : w'.Stationed l u r where
  parent := by
    rw [hs.redrawn.views, hs.moved.parent, hs.moved.parent, hseated.parent]
    simp only [hseated.among hz hne]
  outside hr := by
    by_cases hf : (w.views.get u).first ∈ w.viewNodes z
    · rw [hs.viewNodes_inside h hz hu hf] at hr
      exact hseated.outside hr
    · obtain ⟨hr, -⟩ | ⟨hr, -⟩ := (hs.mem_viewNodes h hz hu hf).mp hr
      · exact hseated.outside hr
      · exact hf ((hseated.among hz hne).mpr hr)
  notFirst := by
    rw [hs.redrawn.views]
    exact hseated.notFirst
  among hv hvu := by
    rw [hs.redrawn.views]
    exact hs.mem_viewNodes_congr h hz hv (hseated.among hz hne) (hseated.among hv hvu)

theorem whole (hs : w.Shift w' l z target reference) (h : w.Follows l) (hz : l.Present z)
    (hv : l.Present v) : w'.Whole v (w'.viewNodes v) := by
  by_cases hf : (w.views.get v).first ∈ w.viewNodes z
  · rw [hs.viewNodes_inside h hz hv hf]
    exact hs.whole_inside h hz hv hf
  · obtain ⟨nodes, hwhole, -⟩ := hs.whole_outside h hz hv hf
    rw [hwhole.viewNodes_eq (hs.linked h hz)]
    exact hwhole

/-- The nodes that a view was made of are still there, in order. -/
theorem sublist (hs : w.Shift w' l z target reference) (h : w.Follows l) (hz : l.Present z)
    (hv : l.Present v) : (l.own v).Sublist (w'.viewNodes v) := by
  by_cases hf : (w.views.get v).first ∈ w.viewNodes z
  · rw [hs.viewNodes_inside h hz hv hf]
    exact h.sublist hv
  · obtain ⟨nodes, hwhole, hsub, -⟩ := hs.whole_outside h hz hv hf
    rw [hwhole.viewNodes_eq (hs.linked h hz)]
    refine .trans ?_ hsub
    have hown : Document.without (l.own v) (w.viewNodes z) = l.own v :=
      Document.without_eq_self fun n hn hm => hf (h.together hz hn (h.first_own hv) hm)
    rw [← hown]
    exact (h.sublist hv).filter _

/-- **A view that moves leaves the others lying in each other** as they did. -/
theorem follows (hs : w.Shift w' l z target reference) (h : w.Follows l) (hz : l.Present z)
    {seat : Option NodeId} (hseat : ∀ r, seat = some r → w'.Stationed l z r) :
    w'.Follows (l.put z seat) where
  linked := hs.linked h hz
  made hv := by
    rw [hs.redrawn.views]
    exact h.made hv
  whole hv := hs.whole h hz hv
  sublist hv := hs.sublist h hz hv
  head hv := by
    rw [hs.redrawn.views]
    exact h.head hv
  last hv := by
    rw [hs.redrawn.views]
    exact h.last hv
  owned {v n} hv hn := by
    by_cases hf : (w.views.get v).first ∈ w.viewNodes z
    · rw [hs.viewNodes_inside h hz hv hf] at hn
      exact h.owned hv hn
    · obtain ⟨hn, -⟩ | ⟨hn, -⟩ := (hs.mem_viewNodes h hz hv hf).mp hn
      · exact h.owned hv hn
      · exact h.owned hz hn
  apart := h.apart
  together hv hm hn := by
    refine (hs.mem_viewNodes_congr h hz hv ⟨?_, ?_⟩ ⟨?_, ?_⟩).mp
    · exact h.together hz hm hn
    · exact h.together hz hn hm
    · exact h.together hv hm hn
    · exact h.together hv hn hm
  fragment hu hv := by
    rw [hs.redrawn.views]
    exact h.fragment hu hv
  home {n p} hp := by
    rw [hs.moved.parent, if_neg, h.home hp]
    exact h.notMem_of_home hz hp
  inner := h.inner
  behaviors hv hb := by
    rw [hs.redrawn.views] at hb
    rw [hs.redrawn.behaviors]
    exact h.behaviors hv hb
  place hv hb hp := by
    rw [hs.redrawn.views] at hb
    rw [place?, behavior, hs.redrawn.behaviors] at hp
    exact h.place hv hb hp
  seat {u r} hu hr := by
    have hseated : w'.Stationed l u r := by
      by_cases he : u = z
      · subst he
        exact hseat r (by simpa [Layout.put] using hr)
      · have hr' : l.seat u = some r := by simpa [Layout.put, he] using hr
        exact hs.seated h hz hu (Ne.symm he) (h.seat hu hr')
    exact ⟨hseated.parent, hseated.outside, hseated.notFirst, hseated.among⟩

/-- **A view that has been put before a node** other than the first of a view, or before another one that
is seated at that node, is seated there itself. -/
theorem seated_self (hs : w.Shift w' l z target (some m)) (h : w.Follows l) (hz : l.Present z)
    (hr : r ∉ w.viewNodes z) (hfirst : ∀ v, l.Present v → (w.views.get v).first ≠ r)
    (hb : w.Beside l z r m) : w'.Stationed l z r := by
  have hf := h.first_mem hz
  have hself : w'.viewNodes z = w.viewNodes z := hs.viewNodes_inside h hz hz hf
  obtain ⟨-, hparent⟩ := hs.before rfl
  refine ⟨?_, hself ▸ hr, ?_, fun {v} hv hne => ?_⟩ <;> rw [hs.redrawn.views]
  · rw [hs.moved.parent, if_pos hf, hs.moved.parent, if_neg hr, ← hparent]
    exact hb.parent h
  · exact fun hv => hfirst _ hv
  · by_cases hin : (w.views.get v).first ∈ w.viewNodes z
    · -- A view that moves along is part of the one that moves, and not the other way round.
      have hinside := h.infix_of_first hv hz hin
      rw [hs.viewNodes_inside h hz hv hin]
      refine iff_of_false (fun hzv => hne ?_) fun hrv => hr (hinside.subset hrv)
      have heq := hinside.eq_of_length_le (h.infix_of_first hz hv hzv).length_le
      have hhead := (h.whole hv).head
      rw [heq, (h.whole hz).head] at hhead
      exact h.apart (Option.some.inj hhead ▸ h.first_own hv) (h.first_own hz)
    · rw [hs.mem_viewNodes h hz hv hin, hs.mem_viewNodes h hz hv hin]
      simp only [hf, hr, not_true_eq_false, and_false, true_and, false_or, not_false_eq_true,
        and_true, false_and, or_false]
      rw [← hb.among h hv hfirst]
      constructor
      · rintro ⟨_, hm, hne, ⟨⟩⟩
        exact ⟨hm, hne⟩
      · exact fun ⟨hm, hne⟩ => ⟨m, hm, hne, rfl⟩

end Shift

/-! ## When a view is disposed of -/

section Dispose

variable {w w' : World} {l : Layout} {u v z : ViewId} {n r : NodeId}

/-- A view that is not part of one that has been taken out for good is in one piece, without the nodes
that were taken out. -/
theorem Follows.whole_loosened (h : w.Follows l) (hz : l.Present z) (hw : w.Redrawn w')
    (hd : w.document.Loosened w'.document (w.viewNodes z)) (hv : l.Present v)
    (hf : (w.views.get v).first ∉ w.viewNodes z) :
    w'.Whole v (Document.without (w.viewNodes v) (w.viewNodes z)) := by
  have hl : (w.views.get v).last ∉ w.viewNodes z := fun hl => hf ((h.last_mem_iff hv hz).mp hl)
  obtain ⟨p, hstretch⟩ := (h.whole hv).stretch
  refine ⟨⟨p, ?_⟩, ?_, ?_⟩ <;> rw [hw.views]
  · exact hstretch.loosened hd hf hl
  · rw [Document.kind, hd.content]
    exact (h.whole hv).kind
  · rw [hd.children]
    exact (h.whole hv).children.imp (fun hc => by rw [hc]) fun hc => by rw [hc]; rfl

/-- **Disposing of a view leaves the others lying in each other** as they did, except for those that lie
in it. -/
theorem Follows.dispose (h : w.Follows l) (hz : l.Present z) (hw : w.Redrawn w')
    (hd : w.document.Loosened w'.document (w.viewNodes z)) :
    w'.Follows (l.drop (w.viewNodes z)) := by
  have hlinked := hd.linked h.linked
  -- A view that is left was there, and its first node is not among those that were taken out.
  have hleft : ∀ {v}, (l.drop (w.viewNodes z)).Present v →
      l.Present v ∧ (w.views.get v).first ∉ w.viewNodes z := by
    intro v hv
    have hown := Layout.own_drop hv
    have hv' : l.Present v := fun hnil => hv (hown.trans hnil)
    refine ⟨hv', ?_⟩
    have hmem := h.first_own hv'
    exact (Layout.mem_drop.mp (hown ▸ hmem)).2 _ hmem
  have hwhole : ∀ {v}, (l.drop (w.viewNodes z)).Present v →
      w'.Whole v (Document.without (w.viewNodes v) (w.viewNodes z)) := fun hv =>
    h.whole_loosened hz hw hd (hleft hv).1 (hleft hv).2
  have hnodes : ∀ {v}, (l.drop (w.viewNodes z)).Present v →
      w'.viewNodes v = Document.without (w.viewNodes v) (w.viewNodes z) := fun hv =>
    (hwhole hv).viewNodes_eq hlinked
  refine ⟨hlinked, ?_, ?_, ?_, ?_, ?_, ?_, ?_, ?_, ?_, ?_, ?_, ?_, ?_, ?_⟩
  · exact fun hv => hw.views ▸ h.made (hleft hv).1
  · exact fun hv => hnodes hv ▸ hwhole hv
  · intro v hv
    rw [hnodes hv, Layout.own_drop hv]
    have hown : Document.without (l.own v) (w.viewNodes z) = l.own v :=
      Document.without_eq_self fun n hn hm =>
        (hleft hv).2 (h.together hz hn (h.first_own (hleft hv).1) hm)
    rw [← hown]
    exact (h.sublist (hleft hv).1).filter _
  · intro v hv
    rw [hw.views, Layout.own_drop hv]
    exact h.head (hleft hv).1
  · intro v hv
    rw [hw.views, Layout.own_drop hv]
    exact h.last (hleft hv).1
  · intro v n hv hn
    rw [hnodes hv, Document.mem_without] at hn
    obtain ⟨u, hu⟩ := h.owned (hleft hv).1 hn.1
    exact ⟨u, Layout.mem_drop.mpr ⟨hu, fun m hm hg => hn.2 (h.together hz hm hu hg)⟩⟩
  · exact fun hu hv => h.apart (Layout.mem_drop.mp hu).1 (Layout.mem_drop.mp hv).1
  · intro u v m n hv hm hn hmem
    rw [hnodes hv, Document.mem_without] at hmem ⊢
    obtain ⟨hm, -⟩ := Layout.mem_drop.mp hm
    obtain ⟨hn, hall⟩ := Layout.mem_drop.mp hn
    exact ⟨h.together (hleft hv).1 hm hn hmem.1, hall n hn⟩
  · intro u v hu hv
    rw [hw.views]
    exact h.fragment (hleft hu).1 (hleft hv).1
  · intro n p hp
    rw [hd.parent, if_neg (h.notMem_of_home hz hp), h.home hp]
  · exact fun hn => h.inner (Layout.mem_drop.mp hn).1
  · intro v b hv hb
    rw [hw.views] at hb
    rw [hw.behaviors]
    exact h.behaviors (hleft hv).1 hb
  · intro v b r hv hb hp
    rw [hw.views] at hb
    rw [place?, behavior, hw.behaviors] at hp
    rw [Layout.Shelters, Layout.own_drop hv]
    exact h.place (hleft hv).1 hb hp
  · intro u r hu hr
    have hseated := h.seat (hleft hu).1 hr
    have hne : z ≠ u := by
      rintro rfl
      exact (hleft hu).2 (h.first_mem hz)
    have hr' : r ∉ w.viewNodes z := fun hm => (hleft hu).2 ((hseated.among hz hne).mpr hm)
    refine ⟨?_, ?_, ?_, ?_⟩
    · rw [hw.views, hd.parent, hd.parent, if_neg (hleft hu).2, if_neg hr', hseated.parent]
    · rw [hnodes hu, Document.mem_without]
      exact fun hm => hseated.outside hm.1
    · intro v hv
      rw [hw.views]
      exact hseated.notFirst (hleft hv).1
    · intro v hv hvu
      rw [hnodes hv, hw.views, Document.mem_without, Document.mem_without,
        hseated.among (hleft hv).1 hvu]
      simp [(hleft hu).2, hr']

end Dispose

/-! ## When nodes stay where they are -/

/-- **Still.** Something has happened that leaves the nodes that had been made where they are. -/
structure Still (w w' : World) : Prop where
  document : w.document.Kept w'.document
  size_views : w.views.size ≤ w'.views.size
  size_behaviors : w.behaviors.size ≤ w'.behaviors.size
  first {v : ViewId} : v.index < w.views.size → (w'.views.get v).first = (w.views.get v).first
  last {v : ViewId} : v.index < w.views.size → (w'.views.get v).last = (w.views.get v).last
  fragment {v : ViewId} : v.index < w.views.size →
    (w'.views.get v).fragment = (w.views.get v).fragment
  behaviors {v : ViewId} : v.index < w.views.size →
    (w'.views.get v).behaviors = (w.views.get v).behaviors
  place {b : BehaviorId} : b.index < w.behaviors.size → w'.place? b = w.place? b

section Still

variable {w w' : World} {l : Layout} {v : ViewId} {nodes : List NodeId}

theorem Whole.lt_fragment (h : w.Whole v nodes) :
    (w.views.get v).fragment.index < w.document.size := by
  refine w.document.index_lt_of_get_ne fun hd => ?_
  have hk := h.kind
  rw [Document.kind, Document.content, hd] at hk
  exact absurd hk (by decide)

theorem Whole.still (h : w.Whole v nodes) (hs : w.Still w') (hv : v.index < w.views.size) :
    w'.Whole v nodes := by
  obtain ⟨p, hstretch⟩ := h.stretch
  refine ⟨⟨p, ?_⟩, ?_, ?_⟩
  · rw [hs.first hv, hs.last hv]
    exact hstretch.kept hs.document
  · rw [hs.fragment hv, hs.document.kind h.lt_fragment]
    exact h.kind
  · rw [hs.fragment hv, hs.document.children h.lt_fragment]
    exact h.children

/-- **Views that nothing moves stay as they are.** -/
theorem Follows.still (h : w.Follows l) (hs : w.Still w') : w'.Follows l := by
  have hwhole : ∀ {v}, l.Present v → w'.Whole v (w.viewNodes v) := fun hv =>
    (h.whole hv).still hs (h.made hv)
  have hnodes : ∀ {v}, l.Present v → w'.viewNodes v = w.viewNodes v := fun hv =>
    (hwhole hv).viewNodes_eq hs.document.linked
  refine ⟨hs.document.linked, ?_, ?_, ?_, ?_, ?_, ?_, h.apart, ?_, ?_, ?_, h.inner, ?_, ?_, ?_⟩
  · exact fun hv => Nat.lt_of_lt_of_le (h.made hv) hs.size_views
  · exact fun hv => hnodes hv ▸ hwhole hv
  · exact fun hv => hnodes hv ▸ h.sublist hv
  · exact fun hv => hs.first (h.made hv) ▸ h.head hv
  · exact fun hv => hs.last (h.made hv) ▸ h.last hv
  · exact fun hv hn => h.owned hv (hnodes hv ▸ hn)
  · intro u v m n hv hm hn
    rw [hnodes hv]
    exact h.together hv hm hn
  · intro u v hu hv
    rw [hs.fragment (h.made hu), hs.fragment (h.made hv)]
    exact h.fragment hu hv
  · intro n p hp
    have hparent := h.home hp
    rw [hs.document.parent (Document.lt_of_parent hparent), hparent]
  · intro v b hv hb
    rw [hs.behaviors (h.made hv)] at hb
    exact Nat.lt_of_lt_of_le (h.behaviors hv hb) hs.size_behaviors
  · intro v b r hv hb hp
    rw [hs.behaviors (h.made hv)] at hb
    rw [hs.place (h.behaviors hv hb)] at hp
    exact h.place hv hb hp
  · intro u r hu hr
    have hseated := h.seat hu hr
    obtain ⟨p, hp⟩ := (h.whole hu).exists_parent h.linked (h.first_mem hu)
    have hpr := hseated.parent.symm.trans hp
    refine ⟨?_, hnodes hu ▸ hseated.outside, ?_, ?_⟩
    · rw [hs.first (h.made hu), hs.document.parent (Document.lt_of_parent hp),
        hs.document.parent (Document.lt_of_parent hpr), hseated.parent]
    · intro v hv
      rw [hs.first (h.made hv)]
      exact hseated.notFirst hv
    · intro v hv hvu
      rw [hnodes hv, hs.first (h.made hu)]
      exact hseated.among hv hvu

end Still

end World

end ReactiveViews
