import ReactiveViews.Proofs.Dom.Stretches
/-!
# Sequences of node operations

Nodes are made, put among the children of others, taken out and copied. As long as no node is put
inside itself, whatever has been done leaves a *forest* (`Document.Forest`): parents and children
agree, and no node is below itself. Each operation comes down to one of three changes. Making and
copying only adds nodes that are a tree of their own (`Forest.extend`), taking out shortens lists of
children (`Forest.loosen`), and inserting moves nodes to one place (`Forest.move`). For the last the
way down to a node is cut where it first and where it last goes through that place.

In a forest the position and the siblings of a node are what its parent's list says
(`Linked.answers`), and a fragment that is inserted leaves all its children where it is put
(`Linked.unloads`).
-/

namespace ReactiveViews

namespace Document

/-- **Forest.** Parents and children agree, and no node is below itself. -/
structure Forest (d : Document) : Prop extends d.Linked where
  acyclic {n m : NodeId} : m ∈ d.children n → ¬ d.Inside m n

/-- **Answers.** A node that is in a list of children is where this list has it, and a node that is
in none is nowhere. -/
structure Answers (d : Document) : Prop where
  placed {p n : NodeId} {before after : List NodeId} : d.children p = before ++ n :: after →
    d.parent? n = some p ∧ d.indexInParent? n = some before.length ∧
      d.previousSibling? n = before.getLast? ∧ d.nextSibling? n = after.head?
  loose {n : NodeId} : (∀ p, n ∉ d.children p) →
    d.parent? n = none ∧ d.indexInParent? n = none ∧
      d.previousSibling? n = none ∧ d.nextSibling? n = none

/-- **Unloading.** All children of one node have been put in order before a reference among those of
another, or behind them, and no other list has changed. -/
structure Unloads (d d' : Document) (source target : NodeId) (reference : Option NodeId) : Prop where
  emptied : d'.children source = []
  before {r : NodeId} {ns ms : List NodeId} : reference = some r →
    d.children target = ns ++ r :: ms →
      d'.children target = ns ++ d.children source ++ r :: ms
  behind : (∀ r, reference = some r → r ∉ d.children target) →
    d'.children target = d.children target ++ d.children source
  elsewhere {p : NodeId} : p ≠ source → p ≠ target → d'.children p = d.children p

section Forests

variable {d d' : Document} {ns moving : List NodeId} {k m n p child target : NodeId}
  {reference : Option NodeId}

/-! ## What a way down goes through -/

/-- A way down through fewer children has been one before. -/
theorem Inside.of_subset (hc : ∀ p, d'.children p ⊆ d.children p) (h : d'.Inside k n) :
    d.Inside k n := by
  induction h with
  | root => exact .root
  | child _ hm ih => exact ih.child (hc _ hm)

/-- What is inside a node is among any nodes that it is one of and that have no other children. -/
theorem Inside.mem_of_closed (hk : k ∈ ns) (hc : ∀ p ∈ ns, ∀ m ∈ d.children p, m ∈ ns)
    (h : d.Inside k n) : n ∈ ns := by
  induction h with
  | root => exact hk
  | child _ hm ih => exact hc _ ih _ hm

/-- A child is one from before, or has been moved to its parent. -/
theorem Moved.mem_children (h : d.Moved d' moving target reference) (hm : m ∈ d'.children p) :
    m ∈ d.children p ∨ p = target ∧ m ∈ moving := by
  rw [h.children] at hm
  split at hm
  · next hp => exact (mem_insertAt.mp hm).imp (fun hm => (mem_without.mp hm).1) (⟨hp, ·⟩)
  · exact .inl (mem_without.mp hm).1

/-- A way down from a node is one from before, up to where something has been moved. -/
theorem Moved.inside_first (h : d.Moved d' moving target reference) (hk : d'.Inside k n) :
    d.Inside k n ∨ d.Inside k target := by
  induction hk with
  | root => exact .inl .root
  | child _ hm ih =>
    obtain hi | hi := ih
    · obtain hm | ⟨rfl, -⟩ := h.mem_children hm
      · exact .inl (hi.child hm)
      · exact .inr hi
    · exact .inr hi

/-- A way down to a node is one from before, from the last node on it that has been moved. -/
theorem Moved.inside_last (h : d.Moved d' moving target reference) (hk : d'.Inside k n) :
    d.Inside k n ∨ ∃ m ∈ moving, d.Inside m n := by
  induction hk with
  | root => exact .inl .root
  | @child n m _ hm ih =>
    obtain hm | ⟨-, hm⟩ := h.mem_children hm
    · exact ih.imp (·.child hm) fun ⟨x, hx, hi⟩ => ⟨x, hx, hi.child hm⟩
    · exact .inr ⟨m, hm, .root⟩

/-! ## What keeps a forest -/

/-- **Taking nodes out keeps a forest.** -/
theorem Forest.loosen (h : d.Forest) (hd : d.Loosened d' ns) : d'.Forest where
  toLinked := hd.linked h.toLinked
  acyclic {n m} hm hi := by
    have hc : ∀ p, d'.children p ⊆ d.children p := fun p x hx => by
      rw [hd.children, mem_without] at hx
      exact hx.1
    exact h.acyclic (hc n hm) (hi.of_subset hc)

/-- **Moving nodes keeps a forest** if the place they go to is inside none of them. -/
theorem Forest.move (h : d.Forest) (hd : d.Moved d' moving target reference) (hn : moving.Nodup)
    (hk : ∀ m ∈ moving, d.kind m ≠ .fragment) (hi : ∀ m ∈ moving, ¬ d.Inside m target) :
    d'.Forest where
  toLinked := hd.linked h.toLinked hn hk
  acyclic {n m} hm hmn := by
    obtain hm | ⟨rfl, hm⟩ := hd.mem_children hm
    · obtain hmn' | hmt := hd.inside_first hmn
      · exact h.acyclic hm hmn'
      · obtain hmn' | ⟨x, hx, hxn⟩ := hd.inside_last hmn
        · exact h.acyclic hm hmn'
        · exact hi x hx ((hxn.child hm).trans hmt)
    · exact hi m hm ((hd.inside_first hmn).elim id id)

/-- **Adding a tree of new nodes keeps a forest.** -/
theorem Forest.extend (h : d.Forest) (hg : d.Grown d') (hr : d'.Rooted d.size d'.size)
    (hl : d'.Linked) : d'.Forest where
  toLinked := hl
  acyclic {n m} hm hi := by
    by_cases hn : n.index < d.size
    · rw [(same_of_grown hg hn).2] at hm
      -- The way down from a node that was there leads through nodes that were there.
      have hdown {x : NodeId} (hx : d'.Inside m x) : x.index < d.size ∧ d.Inside m x := by
        induction hx with
        | root => exact ⟨lt_of_parent (h.mem_children.mp hm), .root⟩
        | child _ hx ih =>
          rw [(same_of_grown hg ih.1).2] at hx
          exact ⟨lt_of_parent (h.mem_children.mp hx), ih.2.child hx⟩
      exact h.acyclic hm (hdown hi).2
    · have hn' := Nat.not_lt.mp hn
      obtain ⟨hlt, hlt', -⟩ := hr.child hn' (lt_of_child hm) hm
      have hle := (hr.inside (Nat.le_trans hn' (Nat.le_of_lt hlt)) hlt' hi).1
      exact absurd hlt (Nat.not_lt.mpr hle)

/-! ## What is read off a forest -/

/-- **Questions about the place of a node** are answered from the list it is in. -/
theorem Linked.answers (h : d.Linked) : d.Answers where
  placed {p n before after} hc := by
    have hp : d.parent? n = some p := h.mem_children.mp (by simp [hc])
    have hi : d.indexInParent? n = some before.length :=
      indexInParent_of_child hp (h.nodup p) (by simp [child?, hc])
    refine ⟨hp, hi, ?_, ?_⟩
    · rw [previousSibling?, hp, Option.bind_some, hi, Option.bind_some, child?, hc]
      obtain rfl | ⟨front, m, rfl⟩ := before.eq_nil_or_concat'
      · rfl
      · simp
    · rw [nextSibling?, hp, Option.bind_some, hi, Option.bind_some, child?, hc]
      rw [List.getElem?_append_right (Nat.le_succ _), List.head?_eq_getElem?]
      simp
  loose {n} hn := by
    have hp : d.parent? n = none :=
      Option.eq_none_iff_forall_not_mem.mpr fun p hp => hn p (h.mem_children.mpr hp)
    simp [indexInParent?, nextSibling?, previousSibling?, hp]

/-- **Inserting a fragment** moves all its children in order and leaves it empty. -/
theorem Linked.unloads (h : d.Linked) (hk : d.kind child = .fragment) (hne : child ≠ target)
    (reference : Option NodeId) :
    d.Unloads (d.insertBefore target child reference) child target reference := by
  have hmoved := moved_insertBefore h hne reference
  rw [carried_of_fragment hk] at hmoved
  -- What stands elsewhere is no child of the fragment.
  have hapart {p : NodeId} (hp : p ≠ child) :
      without (d.children p) (d.children child) = d.children p :=
    without_eq_self fun n hn hm => hp <| Option.some.inj <|
      (h.mem_children.mp hn).symm.trans (h.mem_children.mp hm)
  have htarget : (d.insertBefore target child reference).children target =
      insertAt (d.children target) (d.children child) reference := by
    rw [hmoved.children, if_pos rfl, hapart hne.symm]
  refine ⟨?_, fun {r ns ms} hr hc => ?_, fun hr => ?_, fun hs ht => ?_⟩
  · rw [hmoved.children, if_neg hne, without_eq_nil (List.Subset.refl _)]
  · have hnodup := h.nodup target
    rw [hc, List.nodup_middle, List.nodup_cons, List.mem_append, not_or] at hnodup
    rw [htarget, hr, hc, insertAt_before hnodup.1.1]
  · rw [htarget]
    cases reference with
    | none => rfl
    | some r => exact insertAt_of_notMem (hr r rfl) _
  · rw [hmoved.children, if_neg ht, hapart hs]

end Forests

/-! ## Operations -/

/-- **Operation.** What may be done with nodes and their places. -/
inductive Operation
  | create (c : Content)
  | append (parent child : NodeId)
  | insertBefore (parent child : NodeId) (reference : Option NodeId)
  | removeChild (parent child : NodeId)
  | detach (n : NodeId)
  | setText (n : NodeId) (text : String)
  | clone (n : NodeId)

namespace Operation

/-- What an operation leaves of a document. -/
def run (d : Document) : Operation → Document
  | create c => (d.create c).2
  | append parent child => Document.append d parent child
  | insertBefore parent child reference => Document.insertBefore d parent child reference
  | removeChild parent child => Document.removeChild d parent child
  | detach n => Document.detach d n
  | setText n text => Document.setText d n text
  | clone n => (Document.clone d n).2

/-- No node is put inside itself. -/
def Allowed (d : Document) : Operation → Prop
  | append parent child => ¬ d.Inside child parent
  | insertBefore parent child _ => ¬ d.Inside child parent
  | _ => True

/-- What operations leave of a document one after another. -/
def runAll (d : Document) : List Operation → Document
  | [] => d
  | op :: ops => runAll (op.run d) ops

/-- Each operation is allowed on what those before it leave. -/
def AllowedAll (d : Document) : List Operation → Prop
  | [] => True
  | op :: ops => op.Allowed d ∧ AllowedAll (op.run d) ops

end Operation

section Operations

variable {d d' : Document} {parent child m n : NodeId}

theorem forest_empty : Forest .empty := by
  have hnode (n : NodeId) : Store.get (.empty : Document) n = default :=
    Store.get_of_size_le _ (Nat.zero_le _)
  refine ⟨⟨fun {n p} => ?_, fun p => ?_, fun {n p} hp => ?_⟩, fun {n m} hm => ?_⟩
  · rw [children, parent?, hnode, hnode]
    exact ⟨fun hm => absurd hm List.not_mem_nil, fun hp => absurd hp nofun⟩
  · rw [children, hnode]
    exact List.nodup_nil
  · rw [parent?, hnode] at hp
    exact absurd hp nofun
  · rw [children, hnode] at hm
    exact absurd hm List.not_mem_nil

/-- A forest depends on parents, children and kinds only. -/
theorem Forest.congr (h : d.Forest) (hc : ∀ n, d'.children n = d.children n)
    (hp : ∀ n, d'.parent? n = d.parent? n) (hk : ∀ n, d'.kind n = d.kind n) : d'.Forest where
  mem_children {n p} := by rw [hc, hp, h.mem_children]
  nodup p := by
    rw [hc]
    exact h.nodup p
  kind {n p} hn := by
    rw [hp] at hn
    rw [hk]
    exact h.kind hn
  acyclic {n m} hm hi := by
    rw [hc] at hm
    exact h.acyclic hm (hi.of_subset fun p => by rw [hc]; exact List.Subset.refl _)

theorem children_create (d : Document) (c : Content) :
    (d.create c).2.children (d.create c).1 = [] := by
  rw [children, Document.create, Store.get_add_self]
  rfl

theorem Forest.create (h : d.Forest) (c : Content) : (d.create c).2.Forest := by
  have hchildren {n : NodeId} (hl : d.size ≤ n.index) (hh : n.index < (d.create c).2.size) :
      (d.create c).2.children n = [] := by
    rw [show (d.create c).2.size = d.size + 1 from Store.size_add d _] at hh
    obtain rfl : n = (d.create c).1 := Ref.eq_of_index (Nat.le_antisymm (Nat.le_of_lt_succ hh) hl)
    exact children_create d c
  refine h.extend (.add d _) ⟨fun hl hh hm => ?_, fun hl hh => ?_⟩ (linked_create h.toLinked c)
  · rw [hchildren hl hh] at hm
    exact absurd hm List.not_mem_nil
  · rw [hchildren hl hh]
    exact List.nodup_nil

theorem Forest.clone (h : d.Forest) (n : NodeId) : (d.clone n).2.Forest :=
  h.extend (plant_grown d _).1 (rooted_plant d _) (linked_plant h.toLinked (solid_tree h.toLinked n))

theorem inside_of_carried (h : m ∈ d.carried child) : d.Inside child m := by
  unfold carried at h
  split at h
  · exact .child .root h
  · exact List.mem_singleton.mp h ▸ .root

theorem Forest.insertBefore (h : d.Forest) (hi : ¬ d.Inside child parent)
    (reference : Option NodeId) : (d.insertBefore parent child reference).Forest := by
  have hne : child ≠ parent := fun he => hi (he ▸ .root)
  refine h.move (moved_insertBefore h.toLinked hne reference) ?_ (fun m hm => ?_)
    fun m hm ht => hi ((inside_of_carried hm).trans ht)
  · unfold carried
    split
    · exact h.nodup child
    · exact List.nodup_singleton child
  · unfold carried at hm
    split at hm
    · exact h.kind (h.mem_children.mp hm)
    · next hk => exact List.mem_singleton.mp hm ▸ hk

/-- A new node is put behind the children of another, or nowhere. -/
theorem Forest.appendNew (h : d.Forest) (c : Content) (n : NodeId) :
    ((d.create c).2.append n (d.create c).1).Forest := by
  by_cases he : (d.create c).1 = n
  · rw [append, Document.insertBefore, if_pos he]
    exact h.create c
  · refine (h.create c).insertBefore (fun hi => ?_) none
    have hself : n ∈ [(d.create c).1] := hi.mem_of_closed (List.mem_singleton_self _) fun p hp m hm => by
      rw [List.mem_singleton.mp hp, children_create] at hm
      exact absurd hm List.not_mem_nil
    exact he (List.mem_singleton.mp hself).symm

theorem Forest.detach (h : d.Forest) (n : NodeId) : (d.detach n).Forest :=
  h.loosen (loosened_detach h.toLinked n)

theorem Forest.removeChild (h : d.Forest) (parent child : NodeId) :
    (d.removeChild parent child).Forest := by
  by_cases hm : child ∈ d.children parent
  · have hdetach : d.detach child = d.removeChild parent child := by
      rw [Document.detach, h.mem_children.mp hm]
    exact hdetach ▸ h.detach child
  · rw [Document.removeChild, if_neg hm]
    exact h

theorem Forest.setData (h : d.Forest) (n : NodeId) (data : String) : (d.setData n data).Forest := by
  refine h.congr (fun m => ?_) (fun m => ?_) fun m => ?_
  · rw [children, Document.setData, modifyContent, Store.get_modify]
    split
    · next he => rw [children, he]
    · rfl
  · rw [parent?, Document.setData, modifyContent, Store.get_modify]
    split
    · next he => rw [parent?, he]
    · rfl
  · rw [kind, content, Document.setData, modifyContent, Store.get_modify]
    split
    · next he => rw [kind, content, he]
    · rfl

/-- The children that a text takes the place of are removed one after another. -/
theorem Forest.removeAll (h : d.Forest) (n : NodeId) (ns : List NodeId) :
    (ns.foldl (fun d child => d.removeChild n child) d).Forest := by
  induction ns generalizing d with
  | nil => exact h
  | cons m ns ih => exact ih (h.removeChild n m)

theorem Forest.setText (h : d.Forest) (n : NodeId) (text : String) : (d.setText n text).Forest := by
  have hempty := h.removeAll n (d.children n)
  unfold Document.setText
  split
  · exact h.setData n text
  · exact h.setData n text
  all_goals
    dsimp only
    split
    · exact hempty
    · exact hempty.appendNew _ _

/-- **Each operation keeps a forest.** -/
theorem Operation.forest {op : Operation} (h : d.Forest) (ha : op.Allowed d) :
    (op.run d).Forest := by
  cases op with
  | create c => exact h.create c
  | append parent child => exact h.insertBefore ha none
  | insertBefore parent child reference => exact h.insertBefore ha reference
  | removeChild parent child => exact h.removeChild parent child
  | detach n => exact h.detach n
  | setText n text => exact h.setText n text
  | clone n => exact h.clone n

theorem Operation.forest_runAll {ops : List Operation} (h : d.Forest)
    (ha : Operation.AllowedAll d ops) : (Operation.runAll d ops).Forest := by
  induction ops generalizing d with
  | nil => exact h
  | cons op ops ih => exact ih (op.forest h ha.1) ha.2

/-- **Whatever is done with nodes leaves a forest.** Starting from nothing, after any operations none
of which puts a node inside itself, a node is among the children of its parent and nowhere else, once;
no fragment is a child; positions and siblings are those in the lists; and a fragment that is inserted
anywhere else is unloaded there. -/
theorem operations_leave_a_forest {ops : List Operation}
    (ha : Operation.AllowedAll .empty ops) (hd : Operation.runAll .empty ops = d) :
    d.Forest ∧ d.Answers ∧
      (∀ p q n, n ∈ d.children p → n ∈ d.children q → p = q) ∧
      (∀ p n, n ∈ d.children p → d.kind n ≠ .fragment) ∧
      ∀ fragment target reference, d.kind fragment = .fragment → fragment ≠ target →
        d.Unloads (d.insertBefore target fragment reference) fragment target reference := by
  have h : d.Forest := hd ▸ Operation.forest_runAll forest_empty ha
  refine ⟨h, h.answers, fun p q n hp hq => ?_, fun p n hn => h.kind (h.mem_children.mp hn),
    fun _ _ reference hk hne => h.unloads hk hne reference⟩
  exact Option.some.inj ((h.mem_children.mp hp).symm.trans (h.mem_children.mp hq))

/-- A fragment with a text and an element, and a paragraph with a comment. -/
def bundle : List Operation :=
  [.create .fragment, .create (.text "a"), .create (.element "b"), .create (.element "p"),
    .create (.comment ""), .append ⟨0⟩ ⟨1⟩, .append ⟨0⟩ ⟨2⟩, .append ⟨3⟩ ⟨4⟩, .setText ⟨2⟩ "c",
    .clone ⟨2⟩, .removeChild ⟨3⟩ ⟨1⟩]

theorem bundle_is_unloaded :
    Operation.AllowedAll .empty bundle ∧
      ((Operation.runAll .empty bundle).insertBefore ⟨3⟩ ⟨0⟩ (some ⟨4⟩)).children ⟨3⟩ =
        [⟨1⟩, ⟨2⟩, ⟨4⟩] ∧
      ((Operation.runAll .empty bundle).insertBefore ⟨3⟩ ⟨0⟩ (some ⟨4⟩)).children ⟨0⟩ = [] := by
  have hallowed : Operation.AllowedAll .empty bundle := by
    refine ⟨trivial, trivial, trivial, trivial, trivial, fun h => ?_, fun h => ?_, fun h => ?_,
      trivial, trivial, trivial, trivial⟩
    · exact absurd (@Inside.mem_of_closed _ [⟨1⟩] _ _ (by decide) (by decide +kernel) h) (by decide)
    · exact absurd (@Inside.mem_of_closed _ [⟨2⟩] _ _ (by decide) (by decide +kernel) h) (by decide)
    · exact absurd (@Inside.mem_of_closed _ [⟨4⟩] _ _ (by decide) (by decide +kernel) h) (by decide)
  obtain ⟨-, -, -, -, hunloads⟩ := operations_leave_a_forest hallowed rfl
  have hmoved := hunloads ⟨0⟩ ⟨3⟩ (some ⟨4⟩) (by decide +kernel) (by decide)
  have hbefore : (Operation.runAll .empty bundle).children ⟨3⟩ = [] ++ ⟨4⟩ :: [] := by decide +kernel
  have hinner : (Operation.runAll .empty bundle).children ⟨0⟩ = [⟨1⟩, ⟨2⟩] := by decide +kernel
  refine ⟨hallowed, ?_, hmoved.emptied⟩
  rw [hmoved.before rfl hbefore, hinner]
  rfl

end Operations

end Document

end ReactiveViews
