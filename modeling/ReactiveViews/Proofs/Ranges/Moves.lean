import ReactiveViews.Proofs.Dom.Stretches
/-!
# Views on the move

A view moves in one of three ways: its fragment is inserted while it holds the view's nodes, or the
nodes are inserted one by one, or nothing is done because they are in place. As long as the view is in
one piece (`World.Whole`), all three come to the same: its nodes have moved, together and in order, to
the place before the reference (`insertView_moves`), and nothing else has. Taking a view out moves its
nodes to the end of its fragment (`removeView_moves`), and taking it out for good leaves them without a
parent (`each_remove_loosens`).
-/

namespace ReactiveViews

namespace World

/-- **Redrawn.** The document has changed, what was done to it may be in the log, and everything else is
as it was. -/
def Redrawn (w w' : World) : Prop := w' = { w with document := w'.document, log := w'.log }

section Redrawn

variable {w w' w'' : World}

theorem Redrawn.refl (w : World) : w.Redrawn w := rfl

theorem Redrawn.trans (h : w.Redrawn w') (h' : w'.Redrawn w'') : w.Redrawn w'' := by
  rw [Redrawn, h', h]

theorem Redrawn.views (h : w.Redrawn w') : w'.views = w.views := by rw [h]

theorem Redrawn.behaviors (h : w.Redrawn w') : w'.behaviors = w.behaviors := by rw [h]

end Redrawn

/-- **Whole.** A view is in one piece: its nodes stand next to each other from its first to its last.
Its own fragment holds these nodes and no others, or is empty. -/
structure Whole (w : World) (v : ViewId) (nodes : List NodeId) : Prop where
  stretch : ∃ p, w.document.Stretch p (w.views.get v).first (w.views.get v).last nodes
  kind : w.document.kind (w.views.get v).fragment = .fragment
  children : w.document.children (w.views.get v).fragment = nodes ∨
    w.document.children (w.views.get v).fragment = []

section Whole

variable {w : World} {v : ViewId} {nodes : List NodeId} {n p : NodeId}

/-- The nodes of a view in one piece are those that walking along its siblings finds. -/
theorem Whole.viewNodes_eq (h : w.Whole v nodes) (hd : w.document.Linked) :
    w.viewNodes v = nodes := by
  obtain ⟨p, hs⟩ := h.stretch
  exact hs.run_eq hd

theorem Whole.first_mem (h : w.Whole v nodes) : (w.views.get v).first ∈ nodes := by
  obtain ⟨p, hs⟩ := h.stretch
  exact hs.first_mem

theorem Whole.head (h : w.Whole v nodes) : nodes.head? = some (w.views.get v).first := by
  obtain ⟨p, hs⟩ := h.stretch
  exact hs.head

theorem Whole.nodup (h : w.Whole v nodes) (hd : w.document.Linked) : nodes.Nodup := by
  obtain ⟨p, hs⟩ := h.stretch
  exact hs.nodup hd

/-- All nodes of a view have one parent. -/
theorem Whole.parent (h : w.Whole v nodes) (hd : w.document.Linked) (hn : n ∈ nodes) :
    w.document.parent? n = w.document.parent? (w.views.get v).first := by
  obtain ⟨p, hs⟩ := h.stretch
  rw [hs.parent hd hn, hs.parent hd hs.first_mem]

theorem Whole.exists_parent (h : w.Whole v nodes) (hd : w.document.Linked) (hn : n ∈ nodes) :
    ∃ p, w.document.parent? n = some p := by
  obtain ⟨p, hs⟩ := h.stretch
  exact ⟨p, hs.parent hd hn⟩

theorem Whole.kind_node (h : w.Whole v nodes) (hd : w.document.Linked) (hn : n ∈ nodes) :
    w.document.kind n ≠ .fragment := by
  obtain ⟨p, hp⟩ := h.exists_parent hd hn
  exact hd.kind hp

/-- A view is detached as long as its fragment holds its nodes. -/
theorem Whole.isDetached_iff (h : w.Whole v nodes) (hd : w.document.Linked) :
    w.isDetached v = true ↔ w.document.children (w.views.get v).fragment = nodes := by
  have hiff : w.isDetached v = true ↔
      (w.views.get v).first ∈ w.document.children (w.views.get v).fragment := by
    rw [hd.mem_children]
    exact beq_iff_eq
  rw [hiff]
  constructor
  · intro hm
    obtain hc | hc := h.children
    · exact hc
    · rw [hc] at hm
      exact absurd hm List.not_mem_nil
  · intro hc
    rw [hc]
    exact h.first_mem

end Whole

end World

namespace Machine

open World

variable {w : World} {v : ViewId} {nodes : List NodeId} {target r : NodeId}
  {reference : Option NodeId}

/-- A mutation changes the document, and may be logged. -/
theorem mutate_apply (m : Mutation) (calls : Calls) (w : World) :
    ∃ w', mutate m calls w = some (.ok (), w') ∧ w.Redrawn w' ∧
      w'.document = w.document.mutate m := by
  unfold mutate
  rw [bind_apply, Setting.recordMutation_apply]
  exact ⟨_, rfl, rfl, rfl⟩

/-- **Nodes inserted one by one** before the same reference move there together. -/
theorem each_insert_moves (hd : w.document.Linked) (hn : nodes.Nodup)
    (hp : ∀ n ∈ nodes, ∃ p, w.document.parent? n = some p) (ht : target ∉ nodes)
    (hr : ∀ r, reference = some r → r ∉ nodes) (calls : Calls) :
    ∃ w', each (fun n => mutate (.insert target n reference)) nodes calls w = some (.ok (), w') ∧
      w.Redrawn w' ∧ w.document.Moved w'.document nodes target reference := by
  induction nodes generalizing w with
  | nil =>
    refine ⟨w, rfl, .refl w, fun _ => rfl, fun n => by simp, fun p => ?_⟩
    rw [Document.without_eq_self (by simp)]
    split
    · obtain ⟨-, h⟩ | ⟨pre, r, post, -, h', -, h⟩ :=
        Document.insertAt_cases (w.document.children p) [] reference
      · rw [h, List.append_nil]
      · rw [h, h', List.append_nil]
    · rfl
  | cons n nodes ih =>
    obtain ⟨hn, hnodup⟩ := List.nodup_cons.mp hn
    obtain ⟨p, hparent⟩ := hp n (List.mem_cons_self ..)
    have hne : n ≠ target := fun he => ht (he ▸ List.mem_cons_self ..)
    obtain ⟨x, hx, hredrawn, hdocument⟩ := mutate_apply (.insert target n reference) calls w
    have hmoved := Document.moved_insertBefore hd hne reference
    rw [Document.carried_of_parent hd hparent] at hmoved
    have hmoved' : w.document.Moved x.document [n] target reference := by
      rw [hdocument]
      exact hmoved
    have hd' : x.document.Linked :=
      hmoved'.linked hd (List.nodup_singleton n) fun m hm => List.mem_singleton.mp hm ▸ hd.kind hparent
    have hp' : ∀ m ∈ nodes, ∃ p, x.document.parent? m = some p := by
      intro m hm
      rw [hmoved'.parent]
      split
      · exact ⟨_, rfl⟩
      · exact hp m (List.mem_cons_of_mem _ hm)
    obtain ⟨w', hw', hredrawn', hmoves⟩ := ih hd' hnodup hp'
      (fun hm => ht (List.mem_cons_of_mem _ hm))
      fun r he hm => hr r he (List.mem_cons_of_mem _ hm)
    refine ⟨w', ?_, hredrawn.trans hredrawn', hmoved'.cons hmoves hn hr⟩
    rw [each, bind_apply, hx]
    exact hw'

/-- **Nodes removed one by one** have no parent any more. -/
theorem each_remove_loosens (hd : w.document.Linked) (nodes : List NodeId) (calls : Calls) :
    ∃ w', each (fun n => mutate (.remove n)) nodes calls w = some (.ok (), w') ∧
      w.Redrawn w' ∧ w.document.Loosened w'.document nodes := by
  induction nodes generalizing w with
  | nil => exact ⟨w, rfl, .refl w, .nil _⟩
  | cons n nodes ih =>
    obtain ⟨x, hx, hredrawn, hdocument⟩ := mutate_apply (.remove n) calls w
    have hloosened : w.document.Loosened x.document [n] := by
      rw [hdocument]
      exact Document.loosened_detach hd n
    obtain ⟨w', hw', hredrawn', hrest⟩ := ih (hloosened.linked hd)
    refine ⟨w', ?_, hredrawn.trans hredrawn', hloosened.cons hrest⟩
    rw [each, bind_apply, hx]
    exact hw'

/-- **Inserting a view moves its nodes**, whichever way it goes about it. -/
theorem insertView_moves (h : w.Whole v nodes) (hd : w.document.Linked)
    (ht : target ∉ nodes ∧ target ≠ (w.views.get v).fragment)
    (hr : ∀ r, reference = some r → r ∉ nodes ∧ w.document.parent? r = some target)
    (calls : Calls) :
    ∃ w', insertView v target reference calls w = some (.ok (), w') ∧ w.Redrawn w' ∧
      w.document.Moved w'.document nodes target reference := by
  unfold insertView
  rw [bind_apply, get_apply]
  dsimp only
  by_cases hdetached : w.isDetached v = true
  · rw [if_pos hdetached]
    have hmoved := Document.moved_insertBefore hd ht.2.symm reference
    rw [Document.carried_of_fragment h.kind, (h.isDetached_iff hd).mp hdetached] at hmoved
    obtain ⟨w', hw', hredrawn, hdocument⟩ :=
      mutate_apply (.insert target (w.views.get v).fragment reference) calls w
    refine ⟨w', hw', hredrawn, ?_⟩
    rw [hdocument]
    exact hmoved
  · rw [if_neg hdetached, h.viewNodes_eq hd]
    obtain ⟨p, hs⟩ := h.stretch
    have heach := each_insert_moves hd (h.nodup hd) (fun n hn => h.exists_parent hd hn) ht.1
      (fun r he => (hr r he).1) calls
    cases reference with
    | none => exact heach
    | some r =>
      dsimp only
      by_cases hplace : w.document.previousSibling? r = some (w.views.get v).last
      · -- The last node stands before the reference, so all of them are in place.
        rw [if_pos (by rw [hplace]; exact beq_self_eq_true _)]
        refine ⟨w, rfl, .refl w, ?_⟩
        obtain ⟨hp, before, after, hc⟩ := hs.followed hd hplace
        obtain rfl : p = target := Option.some.inj (hp.symm.trans (hr r rfl).2)
        exact .inPlace hd hc
      · rw [if_neg (by simpa using hplace)]
        exact heach

/-- Inserting a view before a node is inserting it into that node's parent. -/
theorem insertViewBefore_apply (hp : w.document.parent? r = some target) (calls : Calls) :
    insertViewBefore v r calls w = insertView v target (some r) calls w := by
  unfold insertViewBefore
  rw [bind_apply, get_apply]
  dsimp only
  rw [hp]

/-- **Taking a view out moves its nodes** to its own fragment. -/
theorem removeView_moves (h : w.Whole v nodes) (hd : w.document.Linked) (calls : Calls) :
    ∃ w', removeView v calls w = some (.ok (), w') ∧ w.Redrawn w' ∧
      w.document.Moved w'.document nodes (w.views.get v).fragment none := by
  have ht : (w.views.get v).fragment ∉ nodes := fun hm => h.kind_node hd hm h.kind
  unfold removeView
  rw [bind_apply, get_apply]
  dsimp only
  by_cases hdetached : w.isDetached v = true
  · rw [if_pos hdetached]
    exact ⟨w, rfl, .refl w, (h.isDetached_iff hd).mp hdetached ▸ .all hd _⟩
  · rw [if_neg hdetached, h.viewNodes_eq hd]
    exact each_insert_moves hd (h.nodup hd) (fun n hn => h.exists_parent hd hn) ht
      (by simp) calls

end Machine

end ReactiveViews
