import ReactiveViews.Proofs.Markup.Solid
import ReactiveViews.Proofs.Ranges.Shifts
import ReactiveViews.Proofs.Targets
/-!
# A new view enters a layout

Compiling makes nodes and leaves those that were there where they are (`World.still_of_compile`), as no
fragment is inside a compiled tree (`Markup.solidAll_of_run`). A new view does so too, and enters the
layout with the nodes of its fragment (`World.Follows.install`). Its behaviors put views before nodes
that it shelters if its template shelters (`World.shelters_entered`).
-/

namespace ReactiveViews

/-! ## Compiling -/

/-- **Compiling leaves nodes where they are.** -/
theorem World.still_of_compile {w w' : World} {strings : List String}
    {insertions : List Markup.Insertion} {t : TemplateId} {calls : Calls}
    (hd : w.document.Linked)
    (h : Machine.compileTemplate strings insertions calls w = some (.ok t, w')) : w.Still w' := by
  obtain ⟨c, hc, -, hgrown, -, hrest⟩ := Machine.compileTemplate_holds h
  have hlinked : w'.document.Linked := by
    have hsolid : (Tree.node .fragment c.trees).Solid :=
      Markup.solidAll_of_run (Machine.run_of_compile hc)
    have hplanted := Document.linked_plant hd hsolid
    obtain ⟨-, hfragment, -⟩ := Document.plant_grown w.document (.node .fragment c.trees)
    have happly := Machine.assembleTemplate_apply
      (w := { w with document := (w.document.plant (.node .fragment c.trees)).2 })
      (Document.shows_plant w.document (.node .fragment c.trees)) calls
    unfold Machine.compileTemplate at h
    rw [hc] at h
    obtain ⟨-, rfl⟩ := Prod.mk.inj (Option.some.inj (h.symm.trans happly))
    dsimp only
    split
    · exact Document.linked_prepend hplanted hfragment.2 (by simp [Content.comment])
    · exact hplanted
  rw [hrest]
  exact ⟨.of_grown hlinked hgrown, Nat.le_refl _, Nat.le_refl _, fun _ => rfl, fun _ => rfl,
    fun _ => rfl, fun _ => rfl, fun _ => rfl⟩

/-! ## Creating -/

/-- The directive's behavior puts views before its node: it shows content, or repeats. -/
def Directive.Places : Directive → Prop
  | .bind _ .content => True
  | .repeated _ _ _ => True
  | _ => False

namespace Markup.Compiled

/-- **Sheltered.** If a directive that puts views before its node applies to the first node, then that is
a text or a comment, and not an element with the directive in its tag. -/
def Sheltered (c : Compiled) : Prop :=
  ∀ target ∈ c.targets, target.1 = [0] → target.2.Places → c.startsWithPlaceholder = true

/-- **Anchoring shelters.** No directive of an anchored template puts views before the first node. -/
theorem Sheltered.anchored {c : Compiled} (h : c.Sheltered) {target : Path × Directive}
    (hm : target ∈ c.anchored.targets) (hp : target.2.Places) : target.1 ≠ [0] := by
  rw [targets_anchored] at hm
  obtain ⟨⟨path, d⟩, hmem, rfl⟩ := List.mem_map.mp hm
  intro he
  dsimp only at he hp
  unfold moved at he
  split at he
  · cases path with
    | nil => exact absurd he (by simp [shift])
    | cons i rest => exact absurd he (by simp [shift])
  · next hneeds =>
    refine hneeds ?_
    rw [needsAnchor, Bool.and_eq_true, List.any_eq_true]
    exact ⟨h _ hmem he hp, _, hmem, by simp [he]⟩

end Markup.Compiled

namespace Document

/-- **A copy stands on its own.** A document stays linked when a tree without fragments inside is planted
under a fragment and filled, what had been made is where it was, and what the fragment holds is new. -/
theorem kept_filled {d : Document} (hd : d.Linked) {content : Content} {ts : List Tree}
    (hk : content.kind = .fragment) (hs : (Tree.node content ts).Solid) :
    let fragment := (d.plant (.node content ts)).1
    let d' := (d.plant (.node content ts)).2.filled fragment ts
    d.Kept d' ∧ d.size ≤ fragment.index ∧ d'.kind fragment = .fragment ∧
      ∀ n ∈ d'.children fragment, d.size ≤ n.index := by
  intro fragment d'
  obtain ⟨hgrown, ⟨hold, hlt⟩, -⟩ := plant_grown d (.node content ts)
  have hlinked : d'.Linked := by
    have hplanted := linked_plant hd hs
    show (filled _ _ ts).Linked
    unfold filled
    split
    · exact linked_prepend hplanted hlt (by simp [Content.text])
    · exact hplanted
  have hrooted := rooted_filled (rooted_plant d (.node content ts)) hlt ts
  have hshows := shows_filled (shows_plant d (.node content ts))
  have hlt' : fragment.index < d'.size := by
    cases ts <;> exact hshows.2.1
  refine ⟨.of_grown hlinked (grown_filled hgrown hold ts), hold, ?_, fun n hn => ?_⟩
  · rw [kind]
    cases ts <;> rw [hshows.2.2.1] <;> exact hk
  · exact Nat.le_trans hold (Nat.le_of_lt (hrooted.child hold hlt' hn).1)

end Document

namespace World

variable {w w' : World} {t : TemplateId} {c : Markup.Compiled} {v : ViewId} {b : BehaviorId}
  {n r : NodeId} {l : Layout} {lo hi : Nat}

/-- A behavior puts views before the node that its directive put it on, if it puts them anywhere. -/
theorem PutOn.place {d : Directive} (h : w.PutOn n d b) (hp : w.place? b = some r) :
    n = r ∧ d.Places := by
  unfold place? at hp
  cases h with
  | handler h => rw [h] at hp; exact absurd hp (by simp)
  | @binding binding aspect _ ha h =>
    rw [h] at hp
    cases aspect with
    | content => exact ⟨Option.some.inj hp, trivial⟩
    | _ => exact absurd hp (by simp)
  | repeated h => rw [h] at hp; exact ⟨Option.some.inj hp, trivial⟩
  | probe h => rw [h] at hp; exact absurd hp (by simp)

namespace Installed

/-- Installing a view plants a copy that stands on its own. -/
theorem kept (h : w.Installed w' t c v) (hp : w.HoldsPrototype t c lo hi)
    (hd : w.document.Linked) :
    w.document.Kept w'.document ∧ w.document.size ≤ (w'.views.get v).fragment.index ∧
      w'.document.kind (w'.views.get v).fragment = .fragment ∧
      ∀ n ∈ w'.document.children (w'.views.get v).fragment, w.document.size ≤ n.index := by
  have hsolid : (Tree.node .fragment c.trees).Solid := by
    rw [← Document.tree_of_shows hp.shows]
    exact Document.solid_tree hd _
  rw [h.document, h.fragment]
  exact Document.kept_filled hd rfl hsolid

end Installed

/-- **Entering.** The layout with a new view, whose nodes are those of its fragment and what is below
them. -/
def entered (w w' : World) (l : Layout) (v : ViewId) : Layout where
  own u := if u = v then w'.document.children (w'.views.get v).fragment else l.own u
  home n :=
    if n.index < w.document.size then l.home n
    else if (w'.document.children (w'.views.get v).fragment).contains n then none
    else w'.document.parent? n
  seat u := if u = v then none else l.seat u

section Entered

variable (h : w.Installed w' t c v) (hd : w'.document.Linked)

include h hd

/-- What is inside a node of a new view was made below it. -/
theorem below_of_inside {m : NodeId}
    (hm : m ∈ w'.document.children (w'.views.get v).fragment) (hn : w'.document.Inside m n) :
    Layout.Below (entered w w' l v).home m n := by
  obtain ⟨hl, hh⟩ := h.lt_fragment
  have hm' := h.rooted.child hl hh hm
  induction hn with
  | root => exact .here
  | @child p n hp hn ih =>
    refine .under ?_ ih
    have hpi := h.rooted.inside (Nat.le_trans hl (Nat.le_of_lt hm'.1)) hm'.2.1 hp
    have hni := h.rooted.child (Nat.le_trans hl (Nat.le_trans (Nat.le_of_lt hm'.1) hpi.1)) hpi.2 hn
    have hnew : ¬ n.index < w.document.size := by omega
    have hdeep : n ∉ w'.document.children (w'.views.get v).fragment := by
      intro hc
      have he : p = (w'.views.get v).fragment :=
        Option.some.inj (hni.2.2.symm.trans (hd.mem_children.mp hc))
      rw [he] at hpi
      omega
    unfold entered
    dsimp only
    rw [if_neg hnew, if_neg (by simpa using hdeep), hni.2.2]

/-- **The new view shelters the nodes** that its behaviors put views before. -/
theorem shelters_entered (hc : c.IsPlaced)
    (hs : ∀ target ∈ c.targets, target.2.Places → target.1 ≠ [0])
    (hb : b ∈ (w'.views.get v).behaviors) (hr : w'.place? b = some r) :
    (entered w w' l v).Shelters v r := by
  obtain ⟨hl, hh⟩ := h.lt_fragment
  obtain ⟨i, hi, rfl⟩ := List.getElem_of_mem hb
  have hi' : i < c.targets.length := h.puts.length_eq ▸ hi
  obtain ⟨-, n, hn, hput⟩ := h.puts.get hi' hi
  obtain ⟨rfl, hplaces⟩ := hput.place hr
  have hmem : c.targets.get ⟨i, hi'⟩ ∈ c.targets := List.get_mem _ _
  have hne := hs _ hmem hplaces
  generalize c.targets.get ⟨i, hi'⟩ = target at *
  obtain ⟨path, d⟩ := target
  obtain ⟨index, rest, rfl⟩ := List.exists_cons_of_ne_nil (hc _ hmem).1
  obtain ⟨m, hm, hrest⟩ := Option.bind_eq_some_iff.mp hn
  have hmem : m ∈ w'.document.children (w'.views.get v).fragment := List.mem_of_getElem? hm
  have hown : (entered w w' l v).own v = w'.document.children (w'.views.get v).fragment :=
    if_pos rfl
  rw [Layout.Shelters, hown]
  refine ⟨fun hhead => hne ?_, m, hmem, below_of_inside h hd hmem (Path.inside_of_resolve hrest)⟩
  refine Path.eq_of_resolve (h.rooted.isTree hl hh) hn ?_
  rw [Path.resolve, Option.bind_eq_some_iff]
  exact ⟨n, by rw [Document.child?, ← List.head?_eq_getElem?, hhead], rfl⟩

end Entered

theorem own_entered_self : (entered w w' l v).own v = w'.document.children (w'.views.get v).fragment :=
  if_pos rfl

theorem own_entered_of_ne {u : ViewId} (hu : u ≠ v) : (entered w w' l v).own u = l.own u :=
  if_neg hu

theorem home_entered_of_lt (hn : n.index < w.document.size) :
    (entered w w' l v).home n = l.home n :=
  if_pos hn

theorem seat_entered_of_ne {u : ViewId} (hu : u ≠ v) : (entered w w' l v).seat u = l.seat u :=
  if_neg hu

section Install

variable {u : ViewId}

/-- All nodes of a view that is there had been made. -/
theorem Follows.lt_of_mem (h : w.Follows l) (hu : l.Present u) (hn : n ∈ w.viewNodes u) :
    n.index < w.document.size := by
  obtain ⟨p, hp⟩ := (h.whole hu).exists_parent h.linked hn
  exact Document.lt_of_parent hp

theorem Follows.lt_of_own (h : w.Follows l) (hn : n ∈ l.own u) : n.index < w.document.size :=
  have hu := Follows.present hn
  h.lt_of_mem hu ((h.sublist hu).subset hn)

/-- **Arrival.** A new view has been made, with nodes that are new, in its fragment. -/
structure Arrived (w w' : World) (v : ViewId) : Prop where
  new : v = ⟨w.views.size⟩
  views : w'.views = (w.views.add (w'.views.get v)).2
  behaviors : w.behaviors.Grown w'.behaviors
  made {b : BehaviorId} : b ∈ (w'.views.get v).behaviors → b.index < w'.behaviors.size
  document : w.document.Kept w'.document
  fragment : w.document.size ≤ (w'.views.get v).fragment.index
  nodes {n : NodeId} : n ∈ w'.document.children (w'.views.get v).fragment →
    w.document.size ≤ n.index
  whole : w'.Whole v (w'.document.children (w'.views.get v).fragment)

namespace Arrived

/-- **An arrival leaves everything else where it is.** -/
theorem still (h : w.Arrived w' v) : w.Still w' := by
  have hviews : w.views.Grown w'.views := by
    rw [h.views]
    exact .add _ _
  refine ⟨h.document, hviews.size, h.behaviors.size, ?_, ?_, ?_, ?_, fun {b} hb => ?_⟩
  · exact fun hv => congrArg ViewState.first (hviews.get _ hv)
  · exact fun hv => congrArg ViewState.last (hviews.get _ hv)
  · exact fun hv => congrArg ViewState.fragment (hviews.get _ hv)
  · exact fun hv => congrArg ViewState.behaviors (hviews.get _ hv)
  · rw [place?, place?, behavior, behavior, h.behaviors.get b hb]

/-- A view that arrives had not been there. -/
theorem ne_of_present (h : w.Arrived w' v) (hf : w.Follows l) (hu : l.Present u) : u ≠ v := by
  rintro rfl
  have hlt := hf.made hu
  rw [h.new] at hlt
  exact absurd hlt (Nat.lt_irrefl _)

end Arrived

/-- **A view that arrives joins a layout** with the nodes of its fragment. Whoever extends the layout says
where the nodes further down were made, and what the behaviors shelter in. -/
theorem Follows.arrive (h : w.Follows l) (hn : w.Arrived w' v) {l' : Layout}
    (hown : ∀ u, l'.own u =
      if u = v then w'.document.children (w'.views.get v).fragment else l.own u)
    (hhome : ∀ {n p}, l'.home n = some p → w'.document.parent? n = some p)
    (hinner : ∀ {u n}, n ∈ l'.own u → l'.home n = none)
    (hplace : ∀ {u b r}, l'.Present u → b ∈ (w'.views.get u).behaviors → w'.place? b = some r →
      l'.Shelters u r)
    (hseat : ∀ {u r}, l'.seat u = some r → u ≠ v ∧ l.seat u = some r) : w'.Follows l' := by
  have hold := h.still hn.still
  have hnodes := hn.whole.viewNodes_eq hn.document.linked
  have hself : l'.own v = w'.viewNodes v := by rw [hown, hnodes, if_pos rfl]
  have hother : ∀ {u}, u ≠ v → l'.own u = l.own u := fun he => by rw [hown, if_neg he]
  have hthere : ∀ {u}, u ≠ v → l'.Present u → l.Present u := by
    intro u hu hp
    rwa [Layout.Present, hother hu] at hp
  -- The nodes of the new view are new, so they are not among those of another.
  have hnew : ∀ {u n}, n ∈ l.own u → n ∉ w'.viewNodes v := fun hm hm' =>
    absurd (h.lt_of_own hm) (Nat.not_lt.mpr (hn.nodes (hnodes ▸ hm')))
  have hnew' : ∀ {u n}, l.Present u → n ∈ w'.viewNodes u → n ∉ w'.viewNodes v := by
    intro u n hu hm hm'
    obtain ⟨x, hx⟩ := hold.owned hu hm
    exact hnew hx hm'
  have hfragment : ∀ {u}, l.Present u →
      (w'.views.get u).fragment ≠ (w'.views.get v).fragment := by
    intro u hu he
    have hlt := (h.whole hu).lt_fragment
    rw [← hn.still.fragment (h.made hu), he] at hlt
    exact absurd hlt (Nat.not_lt.mpr hn.fragment)
  refine ⟨hn.document.linked, ?_, ?_, ?_, ?_, ?_, ?_, ?_, ?_, ?_, hhome, hinner, ?_, hplace, ?_⟩
  · intro u hu
    by_cases he : u = v
    · rw [he, hn.views, hn.new, Store.size_add]
      exact Nat.lt_succ_self _
    · exact hold.made (hthere he hu)
  · intro u hu
    by_cases he : u = v
    · rw [he, hnodes]
      exact hn.whole
    · exact hold.whole (hthere he hu)
  · intro u hu
    by_cases he : u = v
    · rw [he, hself]
    · rw [hother he]
      exact hold.sublist (hthere he hu)
  · intro u hu
    by_cases he : u = v
    · rw [he, hself, hnodes]
      exact hn.whole.head
    · rw [hother he]
      exact hold.head (hthere he hu)
  · intro u hu
    by_cases he : u = v
    · obtain ⟨p, hs⟩ := hn.whole.stretch
      rw [he, hself, hnodes]
      exact hs.last_mem
    · rw [hother he]
      exact hold.last (hthere he hu)
  · intro u n hu hm
    by_cases he : u = v
    · exact ⟨v, by rwa [hself, ← he]⟩
    · obtain ⟨x, hx⟩ := hold.owned (hthere he hu) hm
      exact ⟨x, by rwa [hother (hn.ne_of_present h (Follows.present hx))]⟩
  · intro u x n hu hx
    by_cases he : u = v <;> by_cases he' : x = v
    · rw [he, he']
    · rw [he, hself] at hu
      rw [hother he'] at hx
      exact absurd hu (hnew hx)
    · rw [he', hself] at hx
      rw [hother he] at hu
      exact absurd hx (hnew hu)
    · rw [hother he] at hu
      rw [hother he'] at hx
      exact hold.apart hu hx
  · intro u x m n hx hm hn' hmem
    by_cases he : u = v <;> by_cases he' : x = v
    · rw [he'] at hmem ⊢
      rwa [he, hself] at hn'
    · rw [he, hself] at hm
      exact absurd hm (hnew' (hthere he' hx) hmem)
    · rw [hother he] at hm
      rw [he'] at hmem
      exact absurd hmem (hnew hm)
    · rw [hother he] at hm hn'
      exact hold.together (hthere he' hx) hm hn' hmem
  · intro u x hu hx heq
    by_cases he : u = v <;> by_cases he' : x = v
    · rw [he, he']
    · rw [he] at heq
      exact absurd heq.symm (hfragment (hthere he' hx))
    · rw [he'] at heq
      exact absurd heq (hfragment (hthere he hu))
    · exact hold.fragment (hthere he hu) (hthere he' hx) heq
  · intro u b hu hb
    by_cases he : u = v
    · exact hn.made (he ▸ hb)
    · exact hold.behaviors (hthere he hu) hb
  · intro u r hu hr
    obtain ⟨he, hr⟩ := hseat hr
    have hu' := hthere he hu
    have hseated := hold.seat hu' hr
    have hrnew : r ∉ w'.viewNodes v := by
      obtain ⟨p, hp⟩ := (h.whole hu').exists_parent h.linked (h.first_mem hu')
      have hlt := Document.lt_of_parent ((h.seat hu' hr).parent.symm.trans hp)
      exact fun hm => absurd hlt (Nat.not_lt.mpr (hn.nodes (hnodes ▸ hm)))
    refine ⟨hseated.parent, hseated.outside, fun {x} hx => ?_, fun {x} hx hne => ?_⟩
    · by_cases he' : x = v
      · rw [he']
        exact fun heq => hrnew (heq ▸ hnodes ▸ hn.whole.first_mem)
      · exact hseated.notFirst (hthere he' hx)
    · by_cases he' : x = v
      · rw [he']
        exact iff_of_false (hnew (hold.first_own hu')) hrnew
      · exact hseated.among (hthere he' hx) hne

/-- What was made below a node before a view was installed still is. -/
theorem Follows.below_entered (h : w.Follows l) {m : NodeId} (hb : Layout.Below l.home m n) :
    Layout.Below (entered w w' l v).home m n := by
  induction hb with
  | here => exact .here
  | under hp _ ih =>
    refine .under ?_ ih
    rw [home_entered_of_lt (Document.lt_of_parent (h.home hp))]
    exact hp

/-- **A view that is installed arrives.** -/
theorem Installed.arrived (hn : w.Installed w' t c v) (hp : w.HoldsPrototype t c lo hi)
    (hd : w.document.Linked) : w.Arrived w' v := by
  obtain ⟨hkept, hfragment, hkind, hnodes⟩ := hn.kept hp hd
  refine ⟨hn.new, hn.views, hn.behaviors, fun hb => ?_, hkept, hfragment, hnodes _,
    ⟨(w'.views.get v).fragment, List.infix_rfl, hn.head, hn.last⟩, hkind, .inl rfl⟩
  obtain ⟨i, hlt, rfl⟩ := List.getElem_of_mem hb
  exact (hn.puts.get (hn.puts.length_eq ▸ hlt) hlt).1

/-- **A view that is installed enters the layout.** -/
theorem Follows.install (h : w.Follows l) (hn : w.Installed w' t c v)
    (hp : w.HoldsPrototype t c lo hi) (hc : c.IsPlaced)
    (hs : ∀ target ∈ c.targets, target.2.Places → target.1 ≠ [0]) :
    w'.Follows (entered w w' l v) := by
  have harrived := hn.arrived hp h.linked
  have hd := harrived.document.linked
  have hold := h.still harrived.still
  have hthere : ∀ {u}, u ≠ v → (entered w w' l v).Present u → l.Present u := by
    intro u hu hp
    rwa [Layout.Present, own_entered_of_ne hu] at hp
  refine h.arrive harrived (fun _ => rfl) (fun {n p} hp => ?_) (fun {u n} hm => ?_) (fun {u b r} hu hb hr => ?_)
    fun {u r} hr => ?_
  · unfold entered at hp
    dsimp only at hp
    split at hp
    · exact hold.home hp
    · split at hp
      · exact absurd hp (by simp)
      · exact hp
  · by_cases he : u = v
    · rw [he, own_entered_self] at hm
      unfold entered
      dsimp only
      rw [if_neg (Nat.not_lt.mpr (harrived.nodes hm)), if_pos (List.contains_iff_mem.mpr hm)]
    · rw [own_entered_of_ne he] at hm
      rw [home_entered_of_lt (h.lt_of_own hm)]
      exact hold.inner hm
  · by_cases he : u = v
    · rw [he] at hb ⊢
      exact shelters_entered hn hd hc hs hb hr
    · obtain ⟨hhead, m, hm, hbelow⟩ := hold.place (hthere he hu) hb hr
      rw [Layout.Shelters, own_entered_of_ne he]
      exact ⟨hhead, m, hm, h.below_entered hbelow⟩
  · have he : u ≠ v := by
      rintro rfl
      exact absurd hr (by simp [entered])
    exact ⟨he, seat_entered_of_ne he ▸ hr⟩

end Install

end World

end ReactiveViews
