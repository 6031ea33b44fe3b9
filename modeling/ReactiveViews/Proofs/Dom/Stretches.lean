import ReactiveViews.Proofs.Dom.Linked
import ReactiveViews.View.Basic
/-!
# Stretches of siblings

A view owns the siblings from a first node to a last one, and finds them by walking from one to the
other. In a linked document this walk comes to an end at the last node and finds exactly the *stretch*
between the two (`Stretch.run_eq`).

When other nodes move, a stretch keeps its ends, loses those that leave, and gains those that are put
before one of its nodes other than the first (`Stretch.moved`). A stretch that is among the moving nodes
goes along as it is (`Stretch.along`).
-/

namespace ReactiveViews

namespace Document

/-! ## Parts of lists -/

section Lists

variable {ns ms l moving others : List NodeId} {n r : NodeId} {reference : Option NodeId}

/-- Nodes next to each other stay so if nothing is put between them. -/
theorem infix_insertAt (h : ns <:+: l)
    (hr : ∀ r, reference = some r → r ∈ ns → ns.head? = some r) :
    ns <:+: insertAt l moving reference := by
  obtain ⟨-, hi⟩ | ⟨pre, r, post, rfl, rfl, hnot, hi⟩ := insertAt_cases l moving reference
  · rw [hi]
    exact h.trans (List.prefix_append l moving).isInfix
  · rw [hi]
    obtain ⟨before, after, h⟩ := h
    have hpre : pre <:+: pre ++ moving ++ r :: post :=
      ⟨[], moving ++ r :: post, by simp⟩
    have hpost : r :: post <:+: pre ++ moving ++ r :: post := ⟨pre ++ moving, [], by simp⟩
    rw [List.append_assoc, List.append_eq_append_iff] at h
    obtain ⟨a, rfl, h⟩ | ⟨c, rfl, h⟩ := h
    · rw [List.append_eq_append_iff] at h
      obtain ⟨b, rfl, h⟩ | ⟨c, rfl, h⟩ := h
      · exact .trans ⟨before, b, by simp⟩ hpre
      · cases c with
        | nil => exact .trans ⟨before, [], by simp⟩ hpre
        | cons m c =>
          obtain ⟨rfl, rfl⟩ := List.cons.inj h
          -- The reference is among the nodes, so it is the first of them.
          cases a with
          | nil => exact .trans ⟨[], after, by simp⟩ hpost
          | cons n a =>
            obtain rfl : n = r := Option.some.inj (hr r rfl (by simp))
            exact absurd (by simp) hnot
    · exact .trans ⟨c, after, by simp [h]⟩ hpost

/-- What is put before one of several nodes that stand next to each other stands among them. -/
theorem insertAt_infix_insertAt (hl : l.Nodup) (h : ns <:+: l) (hr : r ∈ ns) :
    insertAt ns moving (some r) <:+: insertAt l moving (some r) := by
  obtain ⟨before, after, rfl⟩ := h
  obtain ⟨pre, post, rfl, hpre⟩ := List.eq_append_cons_of_mem hr
  have hbefore : r ∉ before ++ pre := by
    simp only [List.append_assoc, List.nodup_append', List.disjoint_append_right] at hl
    rw [List.mem_append, not_or]
    exact ⟨fun hm => hl.2.2.2.1 hm (List.mem_cons_self ..), hpre⟩
  have heq : before ++ (pre ++ r :: post) ++ after = (before ++ pre) ++ r :: (post ++ after) := by
    simp
  rw [heq, insertAt_before hpre, insertAt_before hbefore]
  exact ⟨before, after, by simp⟩

theorem sublist_insertAt (ns moving : List NodeId) (reference : Option NodeId) :
    ns.Sublist (insertAt ns moving reference) := by
  obtain ⟨-, h⟩ | ⟨pre, r, post, -, rfl, -, h⟩ := insertAt_cases ns moving reference
  · rw [h]
    exact List.sublist_append_left ns moving
  · rw [h]
    exact (List.sublist_append_left pre moving).append_right _

theorem moving_infix_insertAt (ns moving : List NodeId) (reference : Option NodeId) :
    moving <:+: insertAt ns moving reference := by
  obtain ⟨-, h⟩ | ⟨pre, r, post, -, rfl, -, h⟩ := insertAt_cases ns moving reference
  · rw [h]
    exact (List.suffix_append ns moving).isInfix
  · rw [h]
    exact ⟨pre, r :: post, rfl⟩

theorem head?_insertAt (h : r ∈ ns) (hne : ns.head? ≠ some r) :
    (insertAt ns moving (some r)).head? = ns.head? := by
  obtain ⟨pre, post, rfl, hpre⟩ := List.eq_append_cons_of_mem h
  rw [insertAt_before hpre]
  cases pre with
  | nil => exact absurd rfl hne
  | cons n pre => rfl

theorem getLast?_insertAt (h : r ∈ ns) :
    (insertAt ns moving (some r)).getLast? = ns.getLast? := by
  obtain ⟨pre, post, rfl, hpre⟩ := List.eq_append_cons_of_mem h
  rw [insertAt_before hpre]
  simp [List.getLast?_append, List.getLast?_cons]

theorem head?_without (h : ns.head? = some n) (hn : n ∉ others) :
    (without ns others).head? = some n := by
  obtain ⟨rest, rfl⟩ := List.head?_eq_some_iff.mp h
  rw [without_cons_of_notMem hn]
  rfl

theorem getLast?_without (h : ns.getLast? = some n) (hn : n ∉ others) :
    (without ns others).getLast? = some n := by
  obtain ⟨rest, rfl⟩ := List.getLast?_eq_some_iff.mp h
  rw [without_append, without_singleton hn]
  simp

/-- One of two beginnings of a list reaches no further than the other if its last node is in that. -/
theorem prefix_of_last {after after' : List NodeId} (hl : (ms ++ after').Nodup)
    (h : ns ++ after = ms ++ after') (hlast : ∀ n, ns.getLast? = some n → n ∈ ms) : ns <+: ms := by
  rw [List.append_eq_append_iff] at h
  obtain ⟨a, rfl, -⟩ | ⟨c, rfl, rfl⟩ := h
  · exact List.prefix_append ns a
  · rcases c.eq_nil_or_concat' with rfl | ⟨c, n, rfl⟩
    · simp
    · have hm : n ∈ ms := hlast n (by simp)
      exact ((List.nodup_append'.mp hl).2.2 hm (by simp)).elim

/-- Nodes that stand next to each other among others are all between two of them if both ends are. -/
theorem infix_of_ends (hl : l.Nodup) (hns : ns <:+: l) (hms : ms <:+: l)
    (hfirst : ∀ n, ns.head? = some n → n ∈ ms) (hlast : ∀ n, ns.getLast? = some n → n ∈ ms) :
    ns <:+: ms := by
  obtain ⟨before, after, rfl⟩ := hns
  obtain ⟨before', after', h⟩ := hms
  rw [← h, List.append_assoc, List.nodup_append'] at hl
  obtain ⟨-, hl, hdisjoint⟩ := hl
  rw [List.append_assoc, List.append_assoc, List.append_eq_append_iff] at h
  obtain ⟨c, rfl, h⟩ | ⟨c, rfl, h⟩ := h
  · rw [← List.append_assoc] at h
    rcases ns.eq_nil_or_concat' with rfl | ⟨ns, n, rfl⟩
    · exact List.nil_infix
    · have hprefix := prefix_of_last hl h.symm fun m hm => hlast m (by simpa using hm)
      exact .trans ⟨c, [], by simp⟩ hprefix.isInfix
  · cases c with
    | nil => exact (prefix_of_last hl h hlast).isInfix
    | cons n c =>
      cases ns with
      | nil => exact List.nil_infix
      | cons m ns =>
        obtain ⟨rfl, -⟩ := List.cons.inj h
        exact absurd (hfirst m rfl) fun hm => hdisjoint (by simp) (List.mem_append_left _ hm)

/-- Nodes next to each other that are all there are. -/
theorem eq_of_infix (hl : l.Nodup) (h : ns <:+: l) (hs : l ⊆ ns) : ns = l :=
  h.sublist.eq_of_length_le (hl.subperm hs).length_le

end Lists

/-- **Stretch.** Children of a node that stand next to each other, from a first to a last. -/
structure Stretch (d : Document) (p first last : NodeId) (nodes : List NodeId) : Prop where
  isInfix : nodes <:+: d.children p
  head : nodes.head? = some first
  last : nodes.getLast? = some last

section Stretches

variable {d d' : Document} {p p' target first last first' last' n m r : NodeId}
  {nodes nodes' moving ns : List NodeId} {reference : Option NodeId}

theorem Stretch.first_mem (h : d.Stretch p first last nodes) : first ∈ nodes :=
  List.mem_of_head? h.head

theorem Stretch.last_mem (h : d.Stretch p first last nodes) : last ∈ nodes :=
  List.mem_of_getLast? h.last

theorem Stretch.nodup (h : d.Stretch p first last nodes) (hd : d.Linked) : nodes.Nodup :=
  h.isInfix.sublist.nodup (hd.nodup p)

theorem Stretch.parent (h : d.Stretch p first last nodes) (hd : d.Linked) (hn : n ∈ nodes) :
    d.parent? n = some p :=
  hd.mem_children.mp (h.isInfix.subset hn)

/-! ## Walking along siblings -/

/-- The next sibling of a child is the next child. -/
theorem nextSibling_of_children {before after : List NodeId} (hd : d.Linked)
    (h : d.children p = before ++ n :: m :: after) : d.nextSibling? n = some m := by
  have hp : d.parent? n = some p := hd.mem_children.mp (by simp [h])
  have hi : d.indexInParent? n = some before.length :=
    indexInParent_of_child hp (hd.nodup p) (by simp [child?, h])
  rw [nextSibling?, hp, Option.bind_some, hi, Option.bind_some, child?, h]
  simp

/-- The child that has a previous sibling stands behind it. -/
theorem children_of_previousSibling (h : d.previousSibling? r = some n) :
    ∃ p before after, d.parent? r = some p ∧ d.children p = before ++ n :: r :: after := by
  obtain ⟨p, hp, h⟩ := Option.bind_eq_some_iff.mp h
  obtain ⟨i, hi, h⟩ := Option.bind_eq_some_iff.mp h
  rw [indexInParent?, hp, Option.bind_some, List.idxOf?_eq_some_iff] at hi
  obtain ⟨hlt, hr, -⟩ := hi
  cases i with
  | zero => exact absurd h (by simp)
  | succ i =>
    rw [if_neg (Nat.succ_ne_zero i), child?, Nat.add_sub_cancel,
      List.getElem?_eq_getElem (Nat.lt_of_succ_lt hlt)] at h
    refine ⟨p, (d.children p).take i, (d.children p).drop (i + 2), hp, ?_⟩
    rw [← Option.some.inj h, ← hr, List.getElem_cons_drop, List.getElem_cons_drop,
      List.take_append_drop]

/-- Walking from a node along its siblings finds those behind it up to the last. -/
theorem runTo_eq (hd : d.Linked) {steps : Nat} {rest : List NodeId}
    (h : n :: rest <:+: d.children p) (hl : (n :: rest).getLast? = some last)
    (hs : rest.length ≤ steps) : d.runTo last steps n = n :: rest := by
  induction rest generalizing n steps with
  | nil =>
    obtain rfl : n = last := Option.some.inj hl
    cases steps with
    | zero => rfl
    | succ steps => rw [runTo, if_pos rfl]
  | cons m rest ih =>
    cases steps with
    | zero => exact absurd hs (Nat.not_succ_le_zero _)
    | succ steps =>
      rw [List.getLast?_cons_cons] at hl
      have hlast : last ∈ m :: rest := List.mem_of_getLast? hl
      have hne : n ≠ last := by
        rintro rfl
        exact (List.nodup_cons.mp ((hd.nodup p).sublist h.sublist)).1 hlast
      obtain ⟨before, after, hc⟩ := h
      have hc' : d.children p = before ++ n :: m :: (rest ++ after) := by simp [← hc]
      have hnext : d.nextSibling? n = some m := nextSibling_of_children hd hc'
      rw [runTo, if_neg hne, hnext]
      dsimp only
      rw [ih ⟨before ++ [n], after, by simpa using hc⟩ hl (Nat.le_of_succ_le_succ hs)]

/-- **The run is the stretch** from the first node to the last. -/
theorem Stretch.run_eq (h : d.Stretch p first last nodes) (hd : d.Linked) :
    d.run first last = nodes := by
  have hparent := h.parent hd h.first_mem
  obtain ⟨rest, rfl⟩ := List.head?_eq_some_iff.mp h.head
  rw [run, hparent]
  refine runTo_eq hd h.isInfix h.last ?_
  exact Nat.le_trans (Nat.le_succ _) h.isInfix.length_le

/-- A node whose previous sibling is the last of a stretch stands right behind the stretch. -/
theorem Stretch.followed (h : d.Stretch p first last nodes) (hd : d.Linked)
    (hr : d.previousSibling? r = some last) :
    d.parent? r = some p ∧ ∃ before after, d.children p = before ++ nodes ++ r :: after := by
  obtain ⟨q, before, after, hq, hc⟩ := children_of_previousSibling hr
  obtain rfl : p = q := by
    refine Option.some.inj ((h.parent hd h.last_mem).symm.trans (hd.mem_children.mp ?_))
    simp [hc]
  obtain ⟨front, rfl⟩ := List.getLast?_eq_some_iff.mp h.last
  obtain ⟨pre, post, hinside⟩ := h.isInfix
  have hpre : d.children p = (pre ++ front) ++ last :: post := by simp [← hinside]
  have hnodup := hd.nodup p
  rw [hpre, List.nodup_middle, List.nodup_cons, List.mem_append, not_or] at hnodup
  obtain ⟨-, -, rfl⟩ :=
    (List.append_cons_inj_of_notMem hnodup.1.1 hnodup.1.2).mp (hpre.symm.trans hc)
  exact ⟨hq, pre, after, hinside.symm⟩

/-! ## When nodes move -/

/-- A stretch is found among all of another's nodes if its ends are. -/
theorem Stretch.among (h : d.Stretch p first last nodes) (h' : d.Stretch p' first' last' nodes')
    (hd : d.Linked) (hf : first ∈ nodes') (hl : last ∈ nodes') : nodes <:+: nodes' := by
  obtain rfl : p = p' :=
    Option.some.inj ((h.parent hd h.first_mem).symm.trans (h'.parent hd hf))
  refine infix_of_ends (hd.nodup p) h.isInfix h'.isInfix ?_ ?_
  · rw [h.head]
    rintro _ ⟨⟩
    exact hf
  · rw [h.last]
    rintro _ ⟨⟩
    exact hl

/-- **A stretch keeps its ends** if they do not move. It loses what moves, and gains it where that is
put before one of its nodes but the first. -/
theorem Stretch.moved (h : d.Stretch p first last nodes) (hd : d.Linked)
    (hm : d.Moved d' moving target reference)
    (hr : ∀ r, reference = some r → r ∉ moving ∧ d.parent? r = some target)
    (hf : first ∉ moving) (hl : last ∉ moving) :
    ∃ nodes', d'.Stretch p first last nodes' ∧ (without nodes moving).Sublist nodes' ∧
      ∀ n, n ∈ nodes' ↔ n ∈ nodes ∧ n ∉ moving ∨
        n ∈ moving ∧ ∃ r ∈ nodes, r ≠ first ∧ reference = some r := by
  have hinside : without nodes moving <:+: without (d.children p) moving := h.isInfix.filter _
  have hhead := head?_without h.head hf
  have hlast := getLast?_without h.last hl
  by_cases hopen : ∃ r ∈ nodes, r ≠ first ∧ reference = some r
  · obtain ⟨r, hmem, hne, rfl⟩ := hopen
    obtain ⟨hnot, hparent⟩ := hr r rfl
    obtain rfl : p = target := Option.some.inj ((h.parent hd hmem).symm.trans hparent)
    have hmem' : r ∈ without nodes moving := mem_without.mpr ⟨hmem, hnot⟩
    refine ⟨insertAt (without nodes moving) moving (some r), ⟨?_, ?_, ?_⟩, ?_, fun n => ?_⟩
    · rw [hm.children, if_pos rfl]
      exact insertAt_infix_insertAt (nodup_without (hd.nodup p)) hinside hmem'
    · rw [head?_insertAt hmem' (by rw [hhead]; simpa using hne.symm), hhead]
    · rw [getLast?_insertAt hmem', hlast]
    · exact sublist_insertAt _ _ _
    · rw [mem_insertAt, mem_without]
      simp [hmem, hne]
  · refine ⟨without nodes moving, ⟨?_, hhead, hlast⟩, List.Sublist.refl _, fun n => ?_⟩
    · rw [hm.children]
      split
      · refine infix_insertAt hinside fun r he hmem => ?_
        rw [hhead]
        by_contra hne
        exact hopen ⟨r, (mem_without.mp hmem).1, fun hrf => hne (by rw [hrf]), he⟩
      · exact hinside
    · rw [mem_without]
      simp [hopen]

/-- A stretch of what moves goes along. -/
theorem Stretch.along (h : d.Stretch p first last nodes) (hm : d.Moved d' moving target reference)
    (hn : nodes <:+: moving) : d'.Stretch target first last nodes where
  isInfix := by
    rw [hm.children, if_pos rfl]
    exact hn.trans (moving_infix_insertAt _ _ _)
  head := h.head
  last := h.last

/-- A stretch keeps its ends when others are taken out. -/
theorem Stretch.loosened (h : d.Stretch p first last nodes) (hd : d.Loosened d' ns)
    (hf : first ∉ ns) (hl : last ∉ ns) : d'.Stretch p first last (without nodes ns) where
  isInfix := by
    rw [hd.children]
    exact h.isInfix.filter _
  head := head?_without h.head hf
  last := getLast?_without h.last hl

/-- A stretch stays if the nodes that had been made are where they were. -/
theorem Stretch.kept (h : d.Stretch p first last nodes) (hk : d.Kept d') :
    d'.Stretch p first last nodes where
  isInfix := by
    rw [hk.children (lt_of_child (h.isInfix.subset h.first_mem))]
    exact h.isInfix
  head := h.head
  last := h.last

end Stretches

end Document

end ReactiveViews
