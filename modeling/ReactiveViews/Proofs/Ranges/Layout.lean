import ReactiveViews.Proofs.Ranges.Moves
/-!
# How views lie in each other

A view is a run of nodes, and knows its first and its last. What is between them changes as other views
are put there. A `Layout` remembers what the document does not: which nodes a view was made of, below
which node the others were made, and before which node a behavior has put a view. Views that follow
their layout (`World.Follows`) are in one piece, and two of them are apart or one is part of the other
(`World.Follows.infix_of_first`).
-/

namespace ReactiveViews

/-- **Layout.** Where nodes have come from and where views have been put. -/
structure Layout where
  /-- The nodes that a view was made of, at the top; none if the view is not there or was disposed of. -/
  own : ViewId → List NodeId
  /-- The parent that a node further down in a view was made with. -/
  home : NodeId → Option NodeId
  /-- The node that a behavior has put a view before. -/
  seat : ViewId → Option NodeId

namespace Layout

/-- A view is there, and was not disposed of. -/
def Present (l : Layout) (v : ViewId) : Prop := l.own v ≠ []

/-- **Below.** Made below a node. -/
inductive Below (home : NodeId → Option NodeId) (m : NodeId) : NodeId → Prop
  | here : Below home m m
  | under {n p : NodeId} (h : home n = some p) (hp : Below home m p) : Below home m n

/-- **Shelter.** A node was made for a view, and is not its first. What is put before it stands inside
the view. -/
def Shelters (l : Layout) (v : ViewId) (r : NodeId) : Prop :=
  (l.own v).head? ≠ some r ∧ ∃ m ∈ l.own v, Below l.home m r

/-- A view has been put somewhere, by a behavior if that is before the node `r`. -/
def put (l : Layout) (z : ViewId) (r : Option NodeId) : Layout :=
  { l with seat := fun u => if u = z then r else l.seat u }

/-- Views with nodes among those that are gone are gone. -/
def drop (l : Layout) (gone : List NodeId) : Layout :=
  { l with own := fun v => if (l.own v).any gone.contains then [] else l.own v }

theorem mem_drop {l : Layout} {gone : List NodeId} {v : ViewId} {n : NodeId} :
    n ∈ (l.drop gone).own v ↔ n ∈ l.own v ∧ ∀ m ∈ l.own v, m ∉ gone := by
  unfold drop
  dsimp only
  split
  · next h =>
    obtain ⟨m, hm, hg⟩ := List.any_eq_true.mp h
    simp only [List.not_mem_nil, false_iff, not_and]
    exact fun _ hall => hall m hm (List.contains_iff_mem.mp hg)
  · next h =>
    simp only [List.any_eq_true, List.contains_iff_mem, not_exists, not_and] at h
    exact (and_iff_left h).symm

theorem own_drop {l : Layout} {gone : List NodeId} {v : ViewId} (h : (l.drop gone).Present v) :
    (l.drop gone).own v = l.own v := by
  unfold Present drop at h
  unfold drop
  dsimp only at h ⊢
  split
  · next ha => exact absurd (if_pos ha) h
  · rfl

end Layout

namespace World

/-- The node before which a behavior puts views: the placeholder of content, the location of a
repeat. -/
def place? (w : World) (b : BehaviorId) : Option NodeId :=
  match w.behavior b with
  | .binding s =>
    match s.aspect with
    | .content => some s.target
    | _ => none
  | .repeated s => some s.location
  | _ => none

/-- **Stationed.** A view stands at a node: beside it, not around it, and inside the same views. -/
structure Stationed (w : World) (l : Layout) (u : ViewId) (r : NodeId) : Prop where
  parent : w.document.parent? (w.views.get u).first = w.document.parent? r
  outside : r ∉ w.viewNodes u
  notFirst {v : ViewId} : l.Present v → (w.views.get v).first ≠ r
  among {v : ViewId} : l.Present v → v ≠ u →
    ((w.views.get u).first ∈ w.viewNodes v ↔ r ∈ w.viewNodes v)

/-- **Following a layout.** Views are in one piece and lie in each other like brackets: between the ends
of a view are nodes of views only, and of each of these views all or none. What is further down in a
view is where it was made. -/
structure Follows (w : World) (l : Layout) : Prop where
  linked : w.document.Linked
  made {v : ViewId} : l.Present v → v.index < w.views.size
  whole {v : ViewId} : l.Present v → w.Whole v (w.viewNodes v)
  sublist {v : ViewId} : l.Present v → (l.own v).Sublist (w.viewNodes v)
  head {v : ViewId} : l.Present v → (l.own v).head? = some (w.views.get v).first
  last {v : ViewId} : l.Present v → (w.views.get v).last ∈ l.own v
  owned {v : ViewId} {n : NodeId} : l.Present v → n ∈ w.viewNodes v → ∃ u, n ∈ l.own u
  apart {u v : ViewId} {n : NodeId} : n ∈ l.own u → n ∈ l.own v → u = v
  together {u v : ViewId} {m n : NodeId} : l.Present v → m ∈ l.own u → n ∈ l.own u →
    m ∈ w.viewNodes v → n ∈ w.viewNodes v
  fragment {u v : ViewId} : l.Present u → l.Present v →
    (w.views.get u).fragment = (w.views.get v).fragment → u = v
  home {n p : NodeId} : l.home n = some p → w.document.parent? n = some p
  inner {v : ViewId} {n : NodeId} : n ∈ l.own v → l.home n = none
  behaviors {v : ViewId} {b : BehaviorId} : l.Present v → b ∈ (w.views.get v).behaviors →
    b.index < w.behaviors.size
  place {v : ViewId} {b : BehaviorId} {r : NodeId} : l.Present v → b ∈ (w.views.get v).behaviors →
    w.place? b = some r → l.Shelters v r
  seat {u : ViewId} {r : NodeId} : l.Present u → l.seat u = some r → w.Stationed l u r

namespace Follows

variable {w w' : World} {l : Layout} {u v z : ViewId} {n m r target : NodeId}
  {reference : Option NodeId}

theorem present (h : n ∈ l.own v) : l.Present v := List.ne_nil_of_mem h

theorem first_own (h : w.Follows l) (hv : l.Present v) : (w.views.get v).first ∈ l.own v :=
  List.mem_of_head? (h.head hv)

theorem first_mem (h : w.Follows l) (hv : l.Present v) :
    (w.views.get v).first ∈ w.viewNodes v :=
  (h.whole hv).first_mem

/-- Both ends of a view are in another, or neither. -/
theorem last_mem_iff (h : w.Follows l) (hu : l.Present u) (hv : l.Present v) :
    (w.views.get u).last ∈ w.viewNodes v ↔ (w.views.get u).first ∈ w.viewNodes v :=
  ⟨h.together hv (h.last hu) (h.first_own hu), h.together hv (h.first_own hu) (h.last hu)⟩

/-- **A view lies in another with all its nodes** if its first node does. -/
theorem infix_of_first (h : w.Follows l) (hu : l.Present u) (hv : l.Present v)
    (hf : (w.views.get u).first ∈ w.viewNodes v) : w.viewNodes u <:+: w.viewNodes v := by
  obtain ⟨p, hs⟩ := (h.whole hu).stretch
  obtain ⟨p', hs'⟩ := (h.whole hv).stretch
  exact hs.among hs' h.linked hf ((h.last_mem_iff hu hv).mpr hf)

/-- What is further down in a view is not among the nodes of any. -/
theorem notMem_of_home (h : w.Follows l) (hv : l.Present v) {p : NodeId} (hn : l.home n = some p) :
    n ∉ w.viewNodes v := by
  intro hm
  obtain ⟨u, hu⟩ := h.owned hv hm
  exact absurd (hn.symm.trans (h.inner hu)) (by simp)

/-- A node of the fragment of a view is one of its nodes. -/
theorem mem_of_fragment (h : w.Follows l) (hv : l.Present v)
    (hn : n ∈ w.document.children (w.views.get v).fragment) : n ∈ w.viewNodes v := by
  obtain hc | hc := (h.whole hv).children
  · exact hc ▸ hn
  · rw [hc] at hn
    exact absurd hn List.not_mem_nil

end Follows

/-- **Beside.** Where a behavior puts a view that is to be seated at its node: before the node, or before
another view that is seated there. -/
def Beside (w : World) (l : Layout) (z : ViewId) (r m : NodeId) : Prop :=
  m = r ∨ ∃ y ≠ z, l.Present y ∧ l.seat y = some r ∧ m = (w.views.get y).first

section Beside

variable {w : World} {l : Layout} {v z : ViewId} {m r : NodeId}

theorem Beside.parent (hb : w.Beside l z r m) (h : w.Follows l) :
    w.document.parent? m = w.document.parent? r := by
  obtain rfl | ⟨y, -, hy, hseat, rfl⟩ := hb
  · rfl
  · exact (h.seat hy hseat).parent

/-- The view is put inside another exactly if the node is there. -/
theorem Beside.among (hb : w.Beside l z r m) (h : w.Follows l) (hv : l.Present v)
    (hfirst : ∀ v, l.Present v → (w.views.get v).first ≠ r) :
    m ∈ w.viewNodes v ∧ m ≠ (w.views.get v).first ↔ r ∈ w.viewNodes v := by
  obtain rfl | ⟨y, -, hy, hseat, rfl⟩ := hb
  · exact and_iff_left (hfirst v hv).symm
  · have hseated := h.seat hy hseat
    by_cases he : v = y
    · subst he
      exact iff_of_false (fun hm => hm.2 rfl) hseated.outside
    · rw [hseated.among hv he]
      refine and_iff_left fun heq => he ?_
      exact h.apart (heq ▸ h.first_own hv) (h.first_own hy)

end Beside

end World

end ReactiveViews
