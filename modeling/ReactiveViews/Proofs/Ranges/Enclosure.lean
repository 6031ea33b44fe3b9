import ReactiveViews.Proofs.Dom.Operations
import ReactiveViews.Proofs.Ranges.Creation
/-!
# Nothing escapes a view

A behavior puts views before its node. Whether they are inside the view of the behavior depends on
where that node stands: before the first node of a view is outside. A template that shelters has no
directive that puts views there, which is what anchoring is for (`Markup.Compiled.Sheltered.anchored`).

Views that are put inside one another stay so through a *course* of all that can happen to views
(`World.Course`), because they keep following the layout that the course comes to
(`World.Course.follows`). Then each of their nodes is held by the view around them
(`World.Follows.PutInside.held`), also after the view has been taken out or disposed of.
-/

namespace ReactiveViews

namespace World

/-- **Holding.** A node is one of a view's nodes or inside one of them. -/
def Holds (w : World) (v : ViewId) (n : NodeId) : Prop :=
  ∃ m ∈ w.viewNodes v, w.document.Inside m n

/-- **Put inside.** A behavior of a view has put another view before its node, or a behavior of a view
put inside has. -/
inductive PutInside (w : World) (l : Layout) (v : ViewId) : ViewId → Prop
  | self : PutInside w l v v
  | place {x u : ViewId} {b : BehaviorId} {r : NodeId} (h : PutInside w l v x) (hx : l.Present x)
    (hb : b ∈ (w.views.get x).behaviors) (hr : w.place? b = some r) (hu : l.Present u)
    (hs : l.seat u = some r) : PutInside w l v u

section Follows

variable {w w' : World} {l : Layout} {u v x z : ViewId} {b : BehaviorId} {m n q r target : NodeId}

/-- What a view shelters is no first node. -/
theorem Follows.first_ne (h : w.Follows l) (hs : l.Shelters v r) (hx : l.Present x) :
    (w.views.get x).first ≠ r := by
  rintro rfl
  have hown := h.first_own hx
  obtain ⟨hne, m, hm, hbelow⟩ := hs
  cases hbelow with
  | here =>
    obtain rfl := h.apart hown hm
    exact hne (h.head hx)
  | under hp => exact absurd (hp.symm.trans (h.inner hown)) (by simp)

/-- What a view shelters has a parent. -/
theorem Follows.exists_parent (h : w.Follows l) (hs : l.Shelters v r) :
    ∃ p, w.document.parent? r = some p := by
  obtain ⟨-, m, hm, hbelow⟩ := hs
  cases hbelow with
  | here =>
    have hv := Follows.present hm
    exact (h.whole hv).exists_parent h.linked ((h.sublist hv).subset hm)
  | under hp => exact ⟨_, h.home hp⟩

/-- **Nodes of views put inside a view are held by it**, even after its own nodes have gone somewhere
else. -/
theorem PutInside.held (hp : w.PutInside l v u) (h : w.Follows l) {d : Document} (hd : d.Linked)
    (hkeep : ∀ n, n ∉ w.viewNodes v → d.parent? n = w.document.parent? n) (hv : l.Present v)
    (hn : n ∈ w.viewNodes u) : ∃ m ∈ w.viewNodes v, d.Inside m n := by
  induction hp generalizing n with
  | self => exact ⟨n, hn, .root⟩
  | @place x u b r _ hx hb hr hu hs ih =>
    by_cases hmem : n ∈ w.viewNodes v
    · exact ⟨n, hmem, .root⟩
    · have hseated := h.seat hu hs
      obtain ⟨-, m, hm, hbelow⟩ := h.place hx hb hr
      obtain ⟨k, hk, hin⟩ := ih ((h.sublist hx).subset hm)
      cases hbelow with
      | here =>
        have hne : x ≠ u := by
          rintro rfl
          exact hseated.outside ((h.sublist hx).subset hm)
        have hfirst := (hseated.among hx hne).mpr ((h.sublist hx).subset hm)
        exact ih ((h.infix_of_first hu hx hfirst).subset hn)
      | @under _ p hp hbelow =>
        refine ⟨k, hk, (hin.trans ?_).child (m := n) (n := p) ?_⟩
        · -- The way down from a node of the view is the one that was made.
          clear hs hr hb hseated hp
          induction hbelow with
          | here => exact .root
          | under hq _ ih =>
            refine ih.child ?_
            rw [hd.mem_children, hkeep _ (h.notMem_of_home hv hq)]
            exact h.home hq
        · rw [hd.mem_children, hkeep n hmem, (h.whole hu).parent h.linked hn, hseated.parent]
          exact h.home hp

/-- **Nothing is above what a view holds** but what it holds and what its nodes are put in. -/
theorem above_of_held {d : Document} (hd : d.Linked) {nodes : List NodeId} {parent : Option NodeId}
    (hparent : ∀ m ∈ nodes, d.parent? m = parent)
    (hroot : ∀ p, parent = some p → d.parent? p = none)
    (hn : (∃ m ∈ nodes, d.Inside m n) ∨ some n = parent) (hq : d.Inside q n) :
    (∃ m ∈ nodes, d.Inside m q) ∨ some q = parent := by
  induction hq with
  | root => exact hn
  | @child p n _ hm ih =>
    refine ih ?_
    have hp := hd.mem_children.mp hm
    obtain ⟨m, hmem, hin⟩ | he := hn
    · cases hin with
      | root => exact .inr (hp.symm.trans (hparent n hmem))
      | @child p' _ hin hm' =>
        obtain rfl : p' = p := Option.some.inj ((hd.mem_children.mp hm').symm.trans hp)
        exact .inl ⟨m, hmem, hin⟩
    · exact absurd ((hroot n he.symm).symm.trans hp) (by simp)

end Follows

/-- A child of a root is not held by a view if neither of the two is one of its nodes. -/
theorem not_holds {w : World} {v : ViewId} {n p : NodeId} (hd : w.document.Linked)
    (hparent : w.document.parent? n = some p) (hroot : w.document.parent? p = none) (hn : n ∉ w.viewNodes v) (hp : p ∉ w.viewNodes v) :
    ¬ w.Holds v n := by
  rintro ⟨m, hm, hin⟩
  cases hin with
  | root => exact hn hm
  | @child q _ hin hc =>
    obtain rfl : q = p := Option.some.inj ((hd.mem_children.mp hc).symm.trans hparent)
    cases hin with
    | root => exact hp hm
    | child _ hc => exact absurd ((hd.mem_children.mp hc).symm.trans hroot) (by simp)

/-! ## Courses -/

/-- **Course.** What happens to views, and the layout they have come to: views are created of templates
that shelter, are put before the nodes of behaviors, taken out, disposed of, or moved by others, and
between that happens whatever leaves nodes where they are. No view is put into itself, and nothing is
put into the fragment of a view but what a behavior puts before its node. -/
inductive Course : World → Layout → Prop
  | start {w : World} (h : w.document.Linked) :
    Course w ⟨fun _ => [], fun _ => none, fun _ => none⟩
  | still {w w' : World} {l : Layout} (h : Course w l) (hs : w.Still w') : Course w' l
  | create {w w' : World} {l : Layout} {t : TemplateId} {v : ViewId} {m : Markup.Compiled}
    {strings : List String} {insertions : List Markup.Insertion} {calls : Calls} {lo hi : Nat}
    (h : Course w l) (hm : Markup.compile strings insertions = .ok m) (hs : m.Sheltered)
    (hp : w.HoldsPrototype t m.anchored lo hi)
    (hr : Machine.createView t calls w = some (.ok v, w')) : Course w' (entered w w' l v)
  | place {w w' : World} {l : Layout} {u v : ViewId} {b : BehaviorId} {r m : NodeId}
    {calls : Calls} (h : Course w l) (hu : l.Present u) (hv : l.Present v)
    (hb : b ∈ (w.views.get v).behaviors) (hp : w.place? b = some r) (hm : w.Beside l u r m)
    (hself : ¬ w.Holds u r)
    (hr : Machine.insertViewBefore u m calls w = some (.ok (), w')) : Course w' (l.put u (some r))
  | insert {w w' : World} {l : Layout} {u : ViewId} {m p : NodeId} {calls : Calls}
    (h : Course w l) (hu : l.Present u) (hp : w.document.parent? m = some p)
    (hf : ∀ v, l.Present v → p ≠ (w.views.get v).fragment) (hself : ¬ w.Holds u m)
    (hr : Machine.insertViewBefore u m calls w = some (.ok (), w')) : Course w' (l.put u none)
  | append {w w' : World} {l : Layout} {u : ViewId} {p : NodeId} {calls : Calls}
    (h : Course w l) (hu : l.Present u)
    (hf : ∀ v, l.Present v → p ≠ (w.views.get v).fragment) (hself : ¬ w.Holds u p)
    (hr : Machine.appendView u p calls w = some (.ok (), w')) : Course w' (l.put u none)
  | withdraw {w w' : World} {l : Layout} {u : ViewId} {calls : Calls} (h : Course w l)
    (hu : l.Present u) (hr : Machine.removeView u calls w = some (.ok (), w')) :
    Course w' (l.put u none)
  | dispose {w w' : World} {l : Layout} {u : ViewId} {calls : Calls} (h : Course w l)
    (hu : l.Present u)
    (hr : Machine.each (fun n => Machine.mutate (.remove n)) (w.viewNodes u) calls w =
      some (.ok (), w')) : Course w' (l.drop (w.viewNodes u))

section Steps

variable {w w' : World} {l : Layout} {u v : ViewId} {b : BehaviorId} {m p r : NodeId}
  {calls : Calls}

/-- A run that comes to one result comes to no other. -/
theorem eq_of_run {α : Type} {x : Option (Except Error α × World)} {a a' : α} {w w' : World}
    (h : x = some (.ok a, w)) (h' : x = some (.ok a', w')) : w = w' := by
  rw [h] at h'
  exact (Prod.mk.inj (Option.some.inj h')).2

/-- Where nothing is put into itself there is no reference or target among the nodes that move. -/
theorem notMem_of_holds (hself : ¬ w.Holds u m) : m ∉ w.viewNodes u := fun hm => hself ⟨m, hm, .root⟩

theorem parent_notMem_of_holds (h : w.Follows l) (hself : ¬ w.Holds u m)
    (hp : w.document.parent? m = some p) : p ∉ w.viewNodes u := fun hm =>
  hself ⟨p, hm, .child .root (h.linked.mem_children.mpr hp)⟩

/-- **A behavior's placing a view** seats it. -/
theorem Follows.placed (h : w.Follows l) (hu : l.Present u) (hs : l.Shelters v r)
    (hm : w.Beside l u r m) (hself : ¬ w.Holds u r)
    (hr : Machine.insertViewBefore u m calls w = some (.ok (), w')) :
    w'.Follows (l.put u (some r)) := by
  obtain ⟨p, hp⟩ := h.exists_parent hs
  have hpm : w.document.parent? m = some p := (hm.parent h).trans hp
  have hout := notMem_of_holds hself
  have hfirst : ∀ x, l.Present x → (w.views.get x).first ≠ r := fun x => h.first_ne hs
  have hmout : m ∉ w.viewNodes u := by
    obtain rfl | ⟨y, hne, hy, hseat, rfl⟩ := hm
    · exact hout
    · exact fun hmem => hout (((h.seat hy hseat).among hu (Ne.symm hne)).mp hmem)
  have hpu : p ≠ (w.views.get u).fragment := by
    rintro rfl
    exact hout (h.mem_of_fragment hu (h.linked.mem_children.mpr hp))
  rw [Machine.insertViewBefore_apply hpm] at hr
  have hmoves := @Machine.insertView_moves w u (w.viewNodes u) p (some m) (h.whole hu) h.linked
    ⟨parent_notMem_of_holds h hself hp, hpu⟩ (by rintro _ ⟨⟩; exact ⟨hmout, hpm⟩) calls
  obtain ⟨w₁, hw₁, hredrawn, hmoved⟩ := hmoves
  obtain rfl := eq_of_run hw₁ hr
  have hshift : w.Shift w₁ l u p (some m) := by
    refine ⟨hredrawn, hmoved, by rintro _ ⟨⟩; exact ⟨hmout, hpm⟩, fun {x} hx hpx => .inr ?_⟩
    have hrx : r ∈ w.viewNodes x :=
      h.mem_of_fragment hx (h.linked.mem_children.mpr (hpx ▸ hp))
    obtain ⟨hmx, hne⟩ := (hm.among h hx hfirst).mpr hrx
    exact ⟨m, hmx, hne, rfl⟩
  refine hshift.follows h hu ?_
  rintro _ ⟨⟩
  exact hshift.seated_self h hu hout hfirst hm

/-- A view that somebody else puts somewhere is not seated. -/
theorem Follows.insert (h : w.Follows l) (hu : l.Present u) {reference : Option NodeId}
    (hm : ∀ m, reference = some m → m ∉ w.viewNodes u ∧ w.document.parent? m = some p)
    (hf : ∀ v, l.Present v → p ≠ (w.views.get v).fragment) (hp : p ∉ w.viewNodes u)
    (hr : Machine.insertView u p reference calls w = some (.ok (), w')) :
    w'.Follows (l.put u none) := by
  obtain ⟨w₁, hw₁, hredrawn, hmoved⟩ :=
    Machine.insertView_moves (h.whole hu) h.linked ⟨hp, hf u hu⟩ hm calls
  obtain rfl := eq_of_run hw₁ hr
  have hshift : w.Shift w₁ l u p reference :=
    ⟨hredrawn, hmoved, fun he => hm _ he, fun hv he => absurd he (hf _ hv)⟩
  exact hshift.follows h hu (by simp)

/-- A view that is taken out is not seated. -/
theorem Follows.withdraw (h : w.Follows l) (hu : l.Present u)
    (hr : Machine.removeView u calls w = some (.ok (), w')) : w'.Follows (l.put u none) := by
  obtain ⟨w₁, hw₁, hredrawn, hmoved⟩ := Machine.removeView_moves (h.whole hu) h.linked calls
  obtain rfl := eq_of_run hw₁ hr
  have hshift : w.Shift w₁ l u (w.views.get u).fragment none :=
    ⟨hredrawn, hmoved, by simp, fun hv he => .inl ⟨(h.fragment hu hv he).symm, rfl⟩⟩
  exact hshift.follows h hu (by simp)

/-- **Views follow their layout all along.** -/
theorem Course.follows (h : Course w l) : w.Follows l := by
  induction h with
  | start h =>
    have hnone : ∀ v, ¬ Layout.Present ⟨fun _ => [], fun _ => none, fun _ => none⟩ v :=
      fun v hv => hv rfl
    exact ⟨h, fun hv => absurd hv (hnone _), fun hv => absurd hv (hnone _),
      fun hv => absurd hv (hnone _), fun hv => absurd hv (hnone _), fun hv => absurd hv (hnone _),
      fun hv => absurd hv (hnone _), by simp, by simp, fun hv => absurd hv (hnone _), by simp,
      by simp, fun hv => absurd hv (hnone _), fun hv => absurd hv (hnone _),
      fun hv => absurd hv (hnone _)⟩
  | still _ hs ih => exact ih.still hs
  | @create w w' l t v m strings insertions calls lo hi _ hm hs hp hr ih =>
    have hplaced := (Markup.isPlaced_of_run (Machine.run_of_compile hm)).anchored
    obtain ⟨r, w₁, hw₁, -, -, -, hok⟩ := Machine.createView_installs hp hplaced calls
    obtain ⟨rfl, rfl⟩ : .ok v = r ∧ w' = w₁ := by simpa using hr.symm.trans hw₁
    exact ih.install (hok v rfl) hp hplaced fun target ht => hs.anchored ht
  | place _ hu hv hb hp hm hself hr ih => exact ih.placed hu (ih.place hv hb hp) hm hself hr
  | insert _ hu hp hf hself hr ih =>
    rw [Machine.insertViewBefore_apply hp] at hr
    refine ih.insert hu ?_ hf (parent_notMem_of_holds ih hself hp) hr
    rintro _ ⟨⟩
    exact ⟨notMem_of_holds hself, hp⟩
  | append _ hu hf hself hr ih =>
    exact ih.insert hu (by simp) hf (notMem_of_holds hself) hr
  | withdraw _ hu hr ih => exact ih.withdraw hu hr
  | @dispose w w' l u calls _ hu hr ih =>
    obtain ⟨w₁, hw₁, hredrawn, hloosened⟩ :=
      Machine.each_remove_loosens ih.linked (w.viewNodes u) calls
    obtain rfl := eq_of_run hw₁ hr
    exact ih.dispose hu hredrawn hloosened

end Steps

end World

open Machine

/-- Nothing but a property. -/
def shownAlone : List String × List Markup.Insertion :=
  (["", ""], [.dynamic (.binding ⟨.get .source "name", false, false, .onChange⟩)])

/-- A computation comes to an answer, not a failure, that satisfies a condition. -/
def comesTo {α : Type} (x : Option (Except Error α × World)) (p : α → World → Bool) : Bool :=
  match x with
  | some (.ok a, w) => p a w
  | _ => false

theorem exists_of_comesTo {α : Type} {x : Option (Except Error α × World)} {p : α → World → Bool}
    (h : comesTo x p = true) : ∃ a w, x = some (.ok a, w) ∧ p a w = true := by
  unfold comesTo at h
  split at h
  · exact ⟨_, _, rfl, h⟩
  · exact absurd h (by simp)

end ReactiveViews
