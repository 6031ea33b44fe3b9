import Mathlib.Data.Fintype.Card
import ReactiveViews.Proofs.Creation
/-!
# Paths in trees

A path says where a node stands below a root, and the way up from the node says so as well. In a
tree the two agree: a node inside the root is found by the path that is read off the way up
(`Path.exists_of_inside`), and the path that leads to a node is the one read off
(`Path.of_resolve`). The way up ends, as a path in a tree is no longer than there are nodes
(`Path.length_le_size`).
-/

namespace ReactiveViews

namespace Document

/-- **Inside.** A node is the root, or a child of a node inside it. -/
inductive Inside (d : Document) (root : NodeId) : NodeId → Prop
  | root : Inside d root root
  | child {n m : NodeId} (h : Inside d root n) (hm : m ∈ d.children n) : Inside d root m

theorem Inside.trans {d : Document} {k m n : NodeId} (h : d.Inside k m) (h' : d.Inside m n) :
    d.Inside k n := by
  induction h' with
  | root => exact h
  | child _ hn ih => exact ih.child hn

/-- **Tree.** Children know their parent, which has each of them once, and the root is nobody's
child. -/
structure IsTree (d : Document) (root : NodeId) : Prop where
  parent {n m : NodeId} : d.Inside root n → m ∈ d.children n → d.parent? m = some n
  nodup {n : NodeId} : d.Inside root n → (d.children n).Nodup
  root {n : NodeId} : d.Inside root n → root ∉ d.children n

/-- A node that has a parent has been made. -/
theorem lt_of_parent {d : Document} {n p : NodeId} (h : d.parent? n = some p) :
    n.index < d.size := by
  refine d.index_lt_of_get_ne fun hd => ?_
  rw [parent?, hd] at h
  exact absurd h nofun

/-- A child of a node is at one position of it. -/
theorem indexInParent_of_child {d : Document} {n m : NodeId} {i : Nat} (hp : d.parent? m = some n)
    (hn : (d.children n).Nodup) (hi : d.child? n i = some m) : d.indexInParent? m = some i := by
  obtain ⟨hlt, rfl⟩ := List.getElem?_eq_some_iff.mp hi
  rw [indexInParent?, hp, Option.bind_some, List.idxOf?_eq_some_iff]
  refine ⟨hlt, rfl, fun j hj he => ?_⟩
  exact absurd ((hn.getElem_inj_iff).mp he) (Nat.ne_of_lt hj)

end Document

namespace Path

/-- What a path leads to in a tree. -/
def subtree? : Path → Tree → Option Tree
  | [], t => some t
  | index :: rest, t => (t.children[index]?).bind (subtree? rest)

/-- What the node is that a path leads to in a tree. -/
def content? (p : Path) (t : Tree) : Option Content := (p.subtree? t).map Tree.content

variable {d : Document} {root n : NodeId} {p q : Path}

theorem resolve_append (d : Document) (p q : Path) (root : NodeId) :
    (p ++ q).resolve d root = (p.resolve d root).bind (q.resolve d) := by
  induction p generalizing root with
  | nil => rfl
  | cons i p ih =>
    rw [List.cons_append, resolve, resolve, Option.bind_assoc]
    exact congrArg _ (funext ih)

/-- The last step of a path leads to a child. -/
theorem resolve_concat {i : Nat} : (p ++ [i]).resolve d root = some n ↔
    ∃ m, p.resolve d root = some m ∧ d.child? m i = some n := by
  rw [resolve_append, Option.bind_eq_some_iff]
  refine exists_congr fun m => and_congr_right fun _ => ?_
  rw [resolve, Option.bind_eq_some_iff]
  constructor
  · rintro ⟨n', hn', ⟨⟩⟩
    exact hn'
  · exact fun h => ⟨n, h, rfl⟩

/-- A path leads to a node inside the root. -/
theorem inside_of_resolve (h : p.resolve d root = some n) : d.Inside root n := by
  induction p using List.reverseRecOn generalizing n with
  | nil =>
    cases h
    exact .root
  | append_singleton p i ih =>
    obtain ⟨m, hm, hn⟩ := resolve_concat.mp h
    exact (ih hm).child (List.mem_of_getElem? hn)

/-- A path leads to every node inside the root. -/
theorem exists_of_inside (h : d.Inside root n) : ∃ p : Path, p.resolve d root = some n := by
  induction h with
  | root => exact ⟨[], rfl⟩
  | child _ hm ih =>
    obtain ⟨p, hp⟩ := ih
    obtain ⟨i, hi⟩ := List.getElem?_of_mem hm
    exact ⟨p ++ [i], resolve_concat.mpr ⟨_, hp, hi⟩⟩

section Trees

variable (hd : d.IsTree root)

include hd

/-- **Only one path leads to a node** of a tree. -/
theorem eq_of_resolve (hp : p.resolve d root = some n) (hq : q.resolve d root = some n) :
    p = q := by
  induction p using List.reverseRecOn generalizing n q with
  | nil =>
    cases hp
    rcases q.eq_nil_or_concat' with rfl | ⟨q, j, rfl⟩
    · rfl
    · obtain ⟨m, hm, hn⟩ := resolve_concat.mp hq
      exact absurd (List.mem_of_getElem? hn) (hd.root (inside_of_resolve hm))
  | append_singleton p i ih =>
    obtain ⟨m, hm, hn⟩ := resolve_concat.mp hp
    have hmn : d.parent? n = some m :=
      hd.parent (inside_of_resolve hm) (List.mem_of_getElem? hn)
    rcases q.eq_nil_or_concat' with rfl | ⟨q, j, rfl⟩
    · cases hq
      exact absurd (List.mem_of_getElem? hn) (hd.root (inside_of_resolve hm))
    · obtain ⟨m', hm', hn'⟩ := resolve_concat.mp hq
      obtain rfl : m = m' := Option.some.inj <|
        hmn.symm.trans (hd.parent (inside_of_resolve hm') (List.mem_of_getElem? hn'))
      have hi : d.indexInParent? n = some i :=
        Document.indexInParent_of_child hmn (hd.nodup (inside_of_resolve hm)) hn
      have hj : d.indexInParent? n = some j :=
        Document.indexInParent_of_child hmn (hd.nodup (inside_of_resolve hm)) hn'
      rw [ih hm hm', Option.some.inj (hi.symm.trans hj)]

/-- A path in a tree passes through as many nodes as it has steps, and no two of them are the
same. -/
theorem length_le_size (h : p.resolve d root = some n) : p.length ≤ d.size := by
  have hpass : ∀ k : Fin p.length, ∃ m : NodeId,
      resolve d (p.take (k + 1)) root = some m ∧ m.index < d.size := by
    intro k
    obtain ⟨m, hm⟩ : ∃ m, resolve d (p.take (k + 1)) root = some m := by
      rw [← p.take_append_drop (k + 1), resolve_append, Option.bind_eq_some_iff] at h
      exact ⟨h.choose, h.choose_spec.1⟩
    refine ⟨m, hm, ?_⟩
    rw [List.take_succ_eq_append_getElem k.isLt] at hm
    obtain ⟨m', hm', hm⟩ := resolve_concat.mp hm
    exact Document.lt_of_parent (hd.parent (inside_of_resolve hm') (List.mem_of_getElem? hm))
  choose passed hpassed using hpass
  have hinj : Function.Injective fun k => (⟨(passed k).index, (hpassed k).2⟩ : Fin d.size) := by
    intro k l hkl
    have hpq : passed k = passed l := by
      cases hk : passed k
      cases hl : passed l
      simpa [hk, hl] using hkl
    have htake : p.take (k + 1) = p.take (l + 1) :=
      eq_of_resolve hd (hpassed k).1 (hpq ▸ (hpassed l).1)
    have hlength := congrArg List.length htake
    rw [List.length_take, List.length_take] at hlength
    exact Fin.ext (by omega)
  simpa using Fintype.card_le_of_injective _ hinj

/-- The way up from a node goes back along the path that leads to it. -/
theorem climb_of_resolve {steps : Nat} (h : p.resolve d root = some n) (hs : p.length ≤ steps)
    (below : Path) : climb d root steps n below = some (p ++ below) := by
  induction p using List.reverseRecOn generalizing n steps below with
  | nil =>
    cases h
    cases steps <;> rw [climb, if_pos rfl] <;> rfl
  | append_singleton p i ih =>
    obtain ⟨m, hm, hn⟩ := resolve_concat.mp h
    have hin := inside_of_resolve hm
    have hmem := List.mem_of_getElem? hn
    have hne : n ≠ root := by
      rintro rfl
      exact hd.root hin hmem
    obtain ⟨steps, rfl⟩ : ∃ k, steps = k + 1 :=
      ⟨steps - 1, by rw [List.length_append, List.length_singleton] at hs; omega⟩
    have hp := hd.parent hin hmem
    rw [climb, if_neg hne, Document.indexInParent_of_child hp (hd.nodup hin) hn, hp,
      Option.bind_some, Option.bind_some, ih hm (by simpa using hs), List.append_assoc,
      List.singleton_append]

/-- **The path that leads to a node is the one read off.** -/
theorem of_resolve (h : p.resolve d root = some n) : of? d n root = some p := by
  rw [of?, climb_of_resolve hd h (length_le_size hd h), List.append_nil]

/-- **A node inside the root is found** by the path read off. -/
theorem resolve_of_inside (h : d.Inside root n) :
    ∃ p, of? d n root = some p ∧ p.resolve d root = some n := by
  obtain ⟨p, hp⟩ := exists_of_inside h
  exact ⟨p, of_resolve hd hp, hp⟩

end Trees

end Path

end ReactiveViews
