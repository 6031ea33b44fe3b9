import ReactiveViews.Proofs.Dom.Operations
import ReactiveViews.Proofs.Linkage
/-!
# Where nodes are put

A node, or all children of a fragment, are put before a child of another node (`Document.Places`). They
stand right before it, together and in their order; whoever else is a child somewhere keeps the order of the
children around it, and no list of children changes but that of the node they come from and that of the node
they go to. This holds of whatever has been made of a document, and for any place that a node comes from, the same
list included.

The place is looked up when the nodes have been taken out already. So a node cannot be put before itself, which
would leave it where it is: it is gone by the time it is looked for, and comes last (`Linked.places_last`).
-/

namespace ReactiveViews

namespace Document

/-- **Made.** What can be made of a document: it is edited, and nodes that nothing leads to are let go of. -/
inductive Made : Document → Prop
  | empty : Made .empty
  | edit {d d' : Document} (hd : Made d) (h : Edit d d') : Made d'
  | orphan {d : Document} (hd : Made d) (live : ThingSet) : Made (World.orphan d live)

/-- The node among whose children are the nodes that inserting a node moves. -/
def source? (d : Document) (child : NodeId) : Option NodeId :=
  if d.kind child = .fragment then some child else d.parent? child

/-- **Placing.** The nodes that are moved stand together right before the reference, have the target for their
parent, and are gone from where they were. Nothing else has changed. -/
structure Places (d d' : Document) (child target reference : NodeId) : Prop where
  arrive : ∃ before after, without (d.children target) (d.carried child) = before ++ reference :: after ∧
    d'.children target = before ++ d.carried child ++ reference :: after
  leave {p : NodeId} : p ≠ target → d'.children p = without (d.children p) (d.carried child)
  elsewhere {p : NodeId} : p ≠ target → d.source? child ≠ some p → d'.children p = d.children p
  moved {n : NodeId} : n ∈ d.carried child → d'.parent? n = some target
  stayed {n : NodeId} : n ∉ d.carried child → d'.parent? n = d.parent? n
  content (n : NodeId) : d'.content n = d.content n

section Placing

variable {d : Document} {n p child target reference : NodeId}

theorem Made.linked (h : d.Made) : d.Linked := by
  induction h with
  | empty => exact forest_empty.toLinked
  | edit _ h ih => exact h.linked ih
  | orphan _ live ih => exact ih.orphan live

theorem Operation.edit (op : Operation) (d : Document) : Edit d (op.run d) := by
  cases op with
  | create c => exact .create d c
  | append parent child => exact .move (.insert d parent child none)
  | insertBefore parent child reference => exact .move (.insert d parent child reference)
  | removeChild parent child => exact .removeChild d parent child
  | detach n => exact .move (.remove d n)
  | setText n text => exact .setText d n text
  | clone n => exact .clone d n

theorem Made.runAll (h : d.Made) (ops : List Operation) : (Operation.runAll d ops).Made := by
  induction ops generalizing d with
  | nil => exact h
  | cons op ops ih => exact ih (h.edit (op.edit d))

/-- **What is moved comes from one list of children** only. -/
theorem Linked.without_carried (h : d.Linked) (hp : d.source? child ≠ some p) :
    without (d.children p) (d.carried child) = d.children p := by
  refine without_eq_self fun n hn hm => hp ?_
  have hparent : d.parent? n = some p := h.mem_children.mp hn
  unfold source?
  unfold carried at hm
  split at hm
  · next hk => rw [if_pos hk, ← h.mem_children.mp hm, hparent]
  · next hk => rw [if_neg hk, ← List.mem_singleton.mp hm, hparent]

/-- A child of another node is no fragment, and inserting it moves it alone. -/
theorem Linked.carried_of_child (h : d.Linked) (hr : reference ∈ d.children target) :
    d.carried reference = [reference] :=
  carried_of_parent h (h.mem_children.mp hr)

/-- A child of the target is not moved with another node. -/
theorem Linked.notMem_carried (h : d.Linked) (hr : reference ∈ d.children target) (ht : child ≠ target)
    (hne : child ≠ reference) : reference ∉ d.carried child := by
  unfold carried
  split
  · exact fun hm => ht <| Option.some.inj <|
      (h.mem_children.mp hm).symm.trans (h.mem_children.mp hr)
  · exact fun hm => hne (List.mem_singleton.mp hm).symm

/-- **Nodes are placed** before a child of the target other than what is inserted. -/
theorem Linked.places (h : d.Linked) (hr : reference ∈ d.children target) (ht : child ≠ target)
    (hne : child ≠ reference) :
    d.Places (d.insertBefore target child (some reference)) child target reference := by
  have hmoved := moved_insertBefore h ht (some reference)
  have hstays : reference ∈ without (d.children target) (d.carried child) :=
    mem_without.mpr ⟨hr, h.notMem_carried hr ht hne⟩
  obtain ⟨before, after, hlist, hbefore⟩ := List.eq_append_cons_of_mem hstays
  have hsource {p : NodeId} (hp : p ≠ target) :
      (d.insertBefore target child (some reference)).children p =
        without (d.children p) (d.carried child) := by
    rw [hmoved.children, if_neg hp]
  refine ⟨⟨before, after, hlist, ?_⟩, hsource, fun hp hs => ?_, fun hm => ?_, fun hm => ?_,
    hmoved.content⟩
  · rw [hmoved.children, if_pos rfl, hlist, insertAt_before hbefore]
  · rw [hsource hp, h.without_carried hs]
  · rw [hmoved.parent, if_pos hm]
  · rw [hmoved.parent, if_neg hm]

/-- **A node that is put before itself comes last**, and no other list of children changes. -/
theorem Linked.places_last (h : d.Linked) (hr : reference ∈ d.children target)
    (ht : reference ≠ target) :
    (d.insertBefore target reference (some reference)).children target =
        without (d.children target) [reference] ++ [reference] ∧
      ∀ p, p ≠ target →
        (d.insertBefore target reference (some reference)).children p = d.children p := by
  have hmoved := moved_insertBefore h ht (some reference)
  have hcarried := h.carried_of_child hr
  have hgone : reference ∉ without (d.children target) [reference] := by simp
  refine ⟨?_, fun p hp => ?_⟩
  · rw [hmoved.children, if_pos rfl, hcarried, insertAt_of_notMem hgone]
  · have hsource : d.source? reference ≠ some p := fun hs => by
      rw [source?, if_neg (h.kind (h.mem_children.mp hr)), h.mem_children.mp hr] at hs
      exact hp (Option.some.inj hs).symm
    rw [hmoved.children, if_neg hp, h.without_carried hsource]

/-- **Inserting places what it moves.** Whatever has been made of a document, and whatever is inserted before a child
of some node: what is moved stands right before this child and everything else is as it was. Only
nothing is put inside itself, and a child that is put before itself comes last. -/
theorem inserting_places_what_it_moves (hd : d.Made) (hr : reference ∈ d.children target) :
    (child = target → d.insertBefore target child (some reference) = d) ∧
      (child ≠ target → child ≠ reference →
        d.Places (d.insertBefore target child (some reference)) child target reference) ∧
      (child ≠ target → child = reference →
        (d.insertBefore target child (some reference)).children target =
            without (d.children target) [reference] ++ [reference] ∧
          ∀ p, p ≠ target →
            (d.insertBefore target child (some reference)).children p = d.children p) := by
  refine ⟨fun he => ?_, hd.linked.places hr, ?_⟩
  · rw [insertBefore, if_pos he]
  · rintro ht rfl
    exact hd.linked.places_last hr ht

/-- A node with three children, and a fragment with two. -/
def shelf : Document := Operation.runAll .empty
  [.create (.element "div"), .create (.element "a"), .create (.element "b"), .create (.element "i"),
    .create .fragment, .create (.text "x"), .create (.comment ""), .append ⟨0⟩ ⟨1⟩, .append ⟨0⟩ ⟨2⟩,
    .append ⟨0⟩ ⟨3⟩, .append ⟨4⟩ ⟨5⟩, .append ⟨4⟩ ⟨6⟩]

/-- The fragment is put before the second child, the third child before the first, and the first before
itself. -/
theorem shelf_is_filled : shelf.Made ∧ ⟨2⟩ ∈ shelf.children ⟨0⟩ ∧
    shelf.Places (shelf.insertBefore ⟨0⟩ ⟨4⟩ (some ⟨2⟩)) ⟨4⟩ ⟨0⟩ ⟨2⟩ ∧
    (shelf.insertBefore ⟨0⟩ ⟨4⟩ (some ⟨2⟩)).children ⟨0⟩ = [⟨1⟩, ⟨5⟩, ⟨6⟩, ⟨2⟩, ⟨3⟩] ∧
    shelf.Places (shelf.insertBefore ⟨0⟩ ⟨3⟩ (some ⟨1⟩)) ⟨3⟩ ⟨0⟩ ⟨1⟩ ∧
    (shelf.insertBefore ⟨0⟩ ⟨3⟩ (some ⟨1⟩)).children ⟨0⟩ = [⟨3⟩, ⟨1⟩, ⟨2⟩] ∧
    (shelf.insertBefore ⟨0⟩ ⟨1⟩ (some ⟨1⟩)).children ⟨0⟩ = [⟨2⟩, ⟨3⟩, ⟨1⟩] := by
  have hmade : shelf.Made := Made.empty.runAll _
  have hlist : shelf.children ⟨0⟩ = [⟨1⟩, ⟨2⟩, ⟨3⟩] := by decide +kernel
  have hfirst : ⟨1⟩ ∈ shelf.children ⟨0⟩ := by simp [hlist]
  have hsecond : ⟨2⟩ ∈ shelf.children ⟨0⟩ := by simp [hlist]
  have hfragment : shelf.Places (shelf.insertBefore ⟨0⟩ ⟨4⟩ (some ⟨2⟩)) ⟨4⟩ ⟨0⟩ ⟨2⟩ :=
    (inserting_places_what_it_moves hmade hsecond).2.1 (by decide) (by decide)
  have hthird : shelf.Places (shelf.insertBefore ⟨0⟩ ⟨3⟩ (some ⟨1⟩)) ⟨3⟩ ⟨0⟩ ⟨1⟩ :=
    (inserting_places_what_it_moves hmade hfirst).2.1 (by decide) (by decide)
  have hself : (shelf.insertBefore ⟨0⟩ ⟨1⟩ (some ⟨1⟩)).children ⟨0⟩ =
      without (shelf.children ⟨0⟩) [⟨1⟩] ++ [⟨1⟩] :=
    ((inserting_places_what_it_moves hmade hfirst).2.2 (by decide) rfl).1
  refine ⟨hmade, hsecond, hfragment, by decide +kernel, hthird, by decide +kernel, ?_⟩
  rw [hself, hlist]
  rfl

end Placing

end Document

end ReactiveViews
