import ReactiveViews.Proofs.Ranges.Enclosure
/-!
# Runs stay contiguous

Views of templates that put nothing before their nodes are moved about by others only: to the end of a
node, before a node, or back into their fragments. Such a view may come to stand among the nodes of
another one, and then goes along when that is moved. A view takes one of three ways, depending on
whether its fragment holds its nodes and whether they are in place, but all of them keep the runs of all
views in one piece, and each of them leaves the view where the move says (`view_runs_stay_contiguous`).

A template's prototype is any fragment here, and need not be what markup was compiled to
(`Machine.createView_arrives`).
-/

namespace ReactiveViews

namespace Machine

variable {w w' : World} {t : TemplateId} {v : ViewId}

/-- Finding targets changes nothing, and there is one for each directive. -/
theorem resolveTargets_ok {fragment : NodeId} {directives : List (Path × Directive)} {calls : Calls}
    {targets : List (NodeId × Directive)}
    (h : resolveTargets fragment directives calls w = some (.ok targets, w')) :
    w' = w ∧ ∀ target ∈ targets, ∃ entry ∈ directives, entry.2 = target.2 := by
  induction directives generalizing targets w' with
  | nil =>
    obtain ⟨rfl, rfl⟩ : [] = targets ∧ w = w' := by simpa [resolveTargets, pure_apply] using h
    exact ⟨rfl, by simp⟩
  | cons entry directives ih =>
    rw [resolveTargets, bind_apply, get_apply] at h
    dsimp only at h
    cases hn : entry.1.resolve w.document fragment with
    | none =>
      rw [hn] at h
      exact absurd h (by simp [throw_apply])
    | some n =>
      rw [hn] at h
      obtain ⟨_, -, he⟩ | ⟨found, x, hx, hrest⟩ := bind_eq_some h
      · exact absurd he (by simp)
      · obtain ⟨rfl, hfound⟩ := ih hx
        obtain ⟨rfl, rfl⟩ : (n, entry.2) :: found = targets ∧ x = w' := by
          simpa [pure_apply] using hrest
        refine ⟨rfl, fun target hm => ?_⟩
        obtain rfl | hm := List.mem_cons.mp hm
        · exact ⟨entry, List.mem_cons_self .., rfl⟩
        · obtain ⟨other, hother, he⟩ := hfound target hm
          exact ⟨other, List.mem_cons_of_mem _ hother, he⟩

/-- **A view of any fragment arrives** when it is created, and only directives that put views before their
nodes make behaviors that do. -/
theorem createView_arrives {calls : Calls} (hd : w.document.Linked)
    (hk : w.document.kind (w.templates.get t).fragment = .fragment)
    (h : createView t calls w = some (.ok v, w')) :
    w.Arrived w' v ∧ ∀ b ∈ (w'.views.get v).behaviors, ∀ r, w'.place? b = some r →
      ∃ entry ∈ (w.templates.get t).directives, entry.2.Places := by
  have hsolid := Document.solid_tree hd (w.templates.get t).fragment
  rw [Document.kind, ← Document.content_tree] at hk
  unfold createView at h
  rw [bind_apply, read_apply] at h
  dsimp only at h
  rw [bind_apply, Setting.cloneFragment_apply, Document.clone] at h
  dsimp only at h
  generalize w.document.tree (w.templates.get t).fragment = tree at h hsolid hk
  obtain ⟨content, ts⟩ := tree
  replace hk : content.kind = .fragment := hk
  have hkept := Document.kept_filled hd hk hsolid
  have hshows := Document.shows_plant w.document (.node content ts)
  generalize w.document.plant (.node content ts) = planted at h hkept hshows
  obtain ⟨fragment, document⟩ := planted
  dsimp only at h hkept hshows
  generalize hx : ({ w with log := _, document := _ } : World) = x at h
  obtain ⟨_, -, he⟩ | ⟨targets, x₁, hfound, hrest⟩ := bind_eq_some h
  · exact absurd he (by simp)
  obtain ⟨rfl, htargets⟩ := resolveTargets_ok hfound
  clear h
  obtain ⟨r, x₂, hr, hfurnished, -, hputs⟩ := collect_createBehavior_puts targets calls x₁
  replace hr : collect (fun target => createBehavior target.1 target.2) targets calls x₁ =
    some (r, x₂) := hr
  rw [bind_apply, hr] at hrest
  cases r with
  | error e => exact absurd hrest (by simp)
  | ok behaviors =>
    have hdocument : x₂.document = document := hfurnished.document.trans (by rw [← hx])
    have hviews : x₂.views = w.views := hfurnished.views.trans (by rw [← hx])
    have hbehaviors : w.behaviors.Grown x₂.behaviors := by
      have hgrown := hfurnished.behaviors
      rw [← hx] at hgrown
      exact hgrown
    obtain ⟨first, last, hends, hhead, hlast⟩ := viewEnds_apply (hdocument ▸ hshows) calls
    rw [hdocument] at hends hhead hlast
    dsimp only at hrest
    rw [bind_apply, hends] at hrest
    dsimp only at hrest
    rw [modifyGet_apply, hviews] at hrest
    obtain ⟨rfl, rfl⟩ : _ = v ∧ _ = w' := by simpa using hrest
    let state : ViewState :=
      { fragment, first, last, behaviors, template := t, source := none, context := none }
    have hview : (w.views.add state).2.get (w.views.add state).1 = state :=
      Store.get_add_self _ _
    have hput : ∀ b ∈ behaviors, b.index < x₂.behaviors.size ∧
        ∃ target ∈ targets, x₂.PutOn target.1 target.2 b := by
      intro b hb
      obtain ⟨i, hi, rfl⟩ := List.getElem_of_mem hb
      have hall := hputs behaviors rfl
      obtain ⟨hlt, hput⟩ := hall.get (hall.length_eq ▸ hi) hi
      exact ⟨hlt, _, List.get_mem _ _, hput⟩
    obtain ⟨hkept, hfragment, hkind, hnodes⟩ := hkept
    refine ⟨⟨rfl, ?_, hbehaviors, ?_, hkept, ?_, ?_, ?_⟩, ?_⟩ <;> dsimp only
    · rw [hview]
    · rw [hview]
      exact fun hb => (hput _ hb).1
    · rw [hview]
      exact hfragment
    · rw [hview]
      exact hnodes _
    · refine ⟨⟨fragment, ?_⟩, ?_, ?_⟩ <;> dsimp only <;> rw [hview]
      · exact ⟨List.infix_rfl, hhead, hlast⟩
      · exact hkind
      · exact .inl rfl
    · rw [hview]
      intro b hb r hr
      obtain ⟨-, target, hm, hput⟩ := hput b hb
      obtain ⟨-, hplaces⟩ := hput.place hr
      obtain ⟨entry, hentry, he⟩ := htargets target hm
      exact ⟨entry, hentry, he ▸ hplaces⟩

end Machine

/-! ## Moves -/

/-- **Move.** What is done to a view from outside: it is put at the end of a node or before one, or taken
out. -/
inductive Move
  | append (v : ViewId) (parent : NodeId)
  | before (v : ViewId) (reference : NodeId)
  | remove (v : ViewId)

namespace Move

/-- The view that moves. -/
def view : Move → ViewId
  | .append v _ => v
  | .before v _ => v
  | .remove v => v

/-- Moves the view. -/
def perform : Move → Machine Unit
  | .append v parent => Machine.appendView v parent
  | .before v reference => Machine.insertViewBefore v reference
  | .remove v => Machine.removeView v

/-- **Where a move leaves a view**: at the end of the parent's children, right before the reference, or
alone in its fragment. -/
def Leaves (w w' : World) : Move → Prop
  | .append v parent => ∃ before, w'.document.children parent = before ++ w'.viewNodes v
  | .before v reference => ∃ p before after, w.document.parent? reference = some p ∧
      w'.document.children p = before ++ w'.viewNodes v ++ reference :: after
  | .remove v => w'.document.children (w'.views.get v).fragment = w'.viewNodes v

end Move

namespace World

/-- **Admissible moves** of the views that are made of some nodes. No view is put into its own nodes, and
a reference has a parent. What a view's fragment holds is that view alone, so no other one is put there:
a reference does not stand in a fragment that holds a view, and no fragment of a view is appended to. -/
def Admits (w : World) (own : ViewId → List NodeId) : Move → Prop
  | .append v parent => own v ≠ [] ∧ ¬ w.Holds v parent ∧
      ∀ u, own u ≠ [] → parent ≠ (w.views.get u).fragment
  | .before v reference => own v ≠ [] ∧ ¬ w.Holds v reference ∧
      ∃ p, w.document.parent? reference = some p ∧
        ∀ u, own u ≠ [] → w.isDetached u = true → p ≠ (w.views.get u).fragment
  | .remove v => own v ≠ []

/-- The nodes that views were made of, with those of a new view. -/
def joined (w : World) (own : ViewId → List NodeId) (v : ViewId) : ViewId → List NodeId := fun u =>
  if u = v then w.document.children (w.views.get v).fragment else own u

/-- **Roaming.** What happens to views of templates that put nothing before their nodes, with the nodes
that they were made of: they are created and moved, and between that happens whatever leaves nodes where
they are. -/
inductive Roams : World → (ViewId → List NodeId) → Prop
  | start {w : World} (h : w.document.Linked) : Roams w fun _ => []
  | still {w w' : World} {own : ViewId → List NodeId} (h : Roams w own) (hs : w.Still w') :
    Roams w' own
  | create {w w' : World} {own : ViewId → List NodeId} {t : TemplateId} {v : ViewId} {calls : Calls}
    (h : Roams w own) (hk : w.document.kind (w.templates.get t).fragment = .fragment)
    (hp : ∀ entry ∈ (w.templates.get t).directives, ¬ entry.2.Places)
    (hr : Machine.createView t calls w = some (.ok v, w')) : Roams w' (w'.joined own v)
  | move {w w' : World} {own : ViewId → List NodeId} {m : Move} {calls : Calls} (h : Roams w own)
    (hm : w.Admits own m) (hr : m.perform calls w = some (.ok (), w')) : Roams w' own

/-- The layout of views that no behavior has put anywhere. -/
def loose (own : ViewId → List NodeId) : Layout := ⟨own, fun _ => none, fun _ => none⟩

variable {w w' : World} {own : ViewId → List NodeId} {v : ViewId} {p r : NodeId}
  {reference : Option NodeId}

theorem put_loose (own : ViewId → List NodeId) (v : ViewId) : (loose own).put v none = loose own := by
  unfold Layout.put loose
  simp

/-- **A view's move comes to an end** and leaves it with the nodes it had, before the reference or at the
end. -/
theorem Follows.inserted (h : w.Follows (loose own)) (hv : own v ≠ [])
    (hm : ∀ m, reference = some m → m ∉ w.viewNodes v ∧ w.document.parent? m = some p)
    (hf : ∀ u, own u ≠ [] → p ≠ (w.views.get u).fragment) (hp : p ∉ w.viewNodes v) (calls : Calls) :
    ∃ w', Machine.insertView v p reference calls w = some (.ok (), w') ∧
      w.Shift w' (loose own) v p reference := by
  obtain ⟨w', hw', hredrawn, hmoved⟩ :=
    Machine.insertView_moves (h.whole hv) h.linked ⟨hp, hf v hv⟩ hm calls
  exact ⟨w', hw', hredrawn, hmoved, fun he => hm _ he, fun hu he => absurd he (hf _ hu)⟩

/-- A reference that does not stand in a fragment that holds a view stands in no view's fragment. -/
theorem Follows.parent_ne_fragment (h : w.Follows (loose own)) (hr : w.document.parent? r = some p)
    (hout : ∀ u, own u ≠ [] → w.isDetached u = true → p ≠ (w.views.get u).fragment)
    (hv : own v ≠ []) : p ≠ (w.views.get v).fragment := by
  rintro rfl
  have hmem := h.linked.mem_children.mpr hr
  have hdetached : w.isDetached v = true := by
    refine ((h.whole hv).isDetached_iff h.linked).mpr ?_
    obtain hc | hc := (h.whole hv).children
    · exact hc
    · rw [hc] at hmem
      exact absurd hmem List.not_mem_nil
  exact hout v hv hdetached rfl

/-- A view that has moved still has the nodes it had. -/
theorem Shift.viewNodes_self (hs : w.Shift w' (loose own) v p reference)
    (h : w.Follows (loose own)) (hv : own v ≠ []) : w'.viewNodes v = w.viewNodes v :=
  hs.viewNodes_inside h hv hv (h.first_mem hv)

/-- **What an admissible move does**, however the view is put where it is to be. -/
theorem Follows.performed {m : Move} (h : w.Follows (loose own)) (hm : w.Admits own m)
    (calls : Calls) :
    ∃ w', m.perform calls w = some (.ok (), w') ∧ w'.Follows (loose own) ∧
      w'.viewNodes m.view = w.viewNodes m.view ∧ m.Leaves w w' := by
  cases m with
  | append v parent =>
    obtain ⟨hv, hself, hf⟩ := hm
    have hnone : ∀ m, none = some m → m ∉ w.viewNodes v ∧ w.document.parent? m = some parent := nofun
    obtain ⟨w', hw', hshift⟩ := h.inserted hv hnone hf (notMem_of_holds hself) calls
    have hnodes := hshift.viewNodes_self h hv
    refine ⟨w', hw', put_loose own v ▸ hshift.follows h hv (by simp), hnodes,
      Document.without (w.document.children parent) (w.viewNodes v), ?_⟩
    rw [hnodes, hshift.moved.children, if_pos rfl, Document.insertAt_none]
  | before v r =>
    obtain ⟨hv, hself, p, hp, hout⟩ := hm
    have hr := notMem_of_holds hself
    have hsome : ∀ m, some r = some m → m ∉ w.viewNodes v ∧ w.document.parent? m = some p := by
      rintro _ ⟨⟩
      exact ⟨hr, hp⟩
    obtain ⟨w', hw', hshift⟩ := h.inserted hv hsome (fun u hu => h.parent_ne_fragment hp hout hu)
      (parent_notMem_of_holds h hself hp) calls
    have hnodes := hshift.viewNodes_self h hv
    refine ⟨w', (Machine.insertViewBefore_apply hp calls).trans hw',
      put_loose own v ▸ hshift.follows h hv (by simp), hnodes, ?_⟩
    have hmem : r ∈ Document.without (w.document.children p) (w.viewNodes v) :=
      Document.mem_without.mpr ⟨h.linked.mem_children.mpr hp, hr⟩
    obtain ⟨before, after, hsplit, hbefore⟩ := List.eq_append_cons_of_mem hmem
    refine ⟨p, before, after, hp, ?_⟩
    rw [hnodes, hshift.moved.children, if_pos rfl, hsplit, Document.insertAt_before hbefore]
  | remove v =>
    obtain ⟨w', hw', hredrawn, hmoved⟩ := Machine.removeView_moves (h.whole hm) h.linked calls
    have hshift : w.Shift w' (loose own) v (w.views.get v).fragment none :=
      ⟨hredrawn, hmoved, by simp, fun hu he => .inl ⟨(h.fragment hm hu he).symm, rfl⟩⟩
    have hnodes := hshift.viewNodes_self h hm
    have hnil : Document.without (w.document.children (w.views.get v).fragment) (w.viewNodes v) = [] :=
      Document.without_eq_nil fun n hn => h.mem_of_fragment hm hn
    refine ⟨w', hw', put_loose own v ▸ hshift.follows h hm (by simp), hnodes, ?_⟩
    show w'.document.children (w'.views.get v).fragment = w'.viewNodes v
    rw [hredrawn.views, hnodes, hmoved.children, if_pos rfl, hnil]
    rfl

/-- **Views that roam lie in each other like brackets.** -/
theorem Roams.follows (h : w.Roams own) : w.Follows (loose own) := by
  induction h with
  | start h => exact (Course.start h).follows
  | still _ hs ih => exact ih.still hs
  | @create w w' own t v calls _ hk hp hr ih =>
    obtain ⟨harrived, hplaces⟩ := Machine.createView_arrives ih.linked hk hr
    refine ih.arrive harrived (fun _ => rfl) nofun (fun _ => rfl) (fun {u b r} hu hb hr => ?_) nofun
    by_cases he : u = v
    · obtain ⟨entry, hentry, hplaces⟩ := hplaces b (he ▸ hb) r hr
      exact absurd hplaces (hp entry hentry)
    · have hown : (loose (w'.joined own v)).own u = (loose own).own u := if_neg he
      rw [Layout.Present, hown] at hu
      rw [Layout.Shelters, hown]
      exact (ih.still harrived.still).place hu hb hr
  | move _ hm hr ih =>
    obtain ⟨w₁, hw₁, hfollows, -⟩ := ih.performed hm _
    obtain rfl := eq_of_run hw₁ hr
    exact hfollows

end World

open Machine

/-- Making a node leaves the others where they are. -/
theorem World.still_of_create {w w' : World} {c : Content} {n : NodeId} {calls : Calls}
    (hd : w.document.Linked) (h : onDocument (·.create c) calls w = some (.ok n, w')) :
    w.Still w' := by
  obtain ⟨-, rfl⟩ := Prod.mk.inj (Option.some.inj h)
  exact ⟨.of_grown (Document.linked_create hd c) (.add _ _), Nat.le_refl _, Nat.le_refl _,
    fun _ => rfl, fun _ => rfl, fun _ => rfl, fun _ => rfl, fun _ => rfl⟩

/-- A root is held by a view only if it is one of its nodes. -/
theorem World.not_holds_root {w : World} {v : ViewId} {n : NodeId} (hd : w.document.Linked)
    (hroot : w.document.parent? n = none) (hn : n ∉ w.viewNodes v) : ¬ w.Holds v n := by
  rintro ⟨m, hm, hin⟩
  cases hin with
  | root => exact hn hm
  | child _ hc => exact absurd ((hd.mem_children.mp hc).symm.trans hroot) (by simp)

/-- A bold and an italic element. -/
def twoElements : List String × List Markup.Insertion := (["<b></b><i></i>"], [])

end ReactiveViews
