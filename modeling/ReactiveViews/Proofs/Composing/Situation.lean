import ReactiveViews.Proofs.Binds
import ReactiveViews.Proofs.Composing.Heeding
import ReactiveViews.Proofs.Dormancy.Binding
import ReactiveViews.Proofs.Ranges.Contiguous
/-!
# Where a content binding stands

Two flags and a slot say where a content binding stands. What they are to say depends on nothing
but what has been shown so far, what the binding is bound to, and what the view in front of the
placeholder is bound to (`Situation.after`). The binding is *situated* so if the slot is as the
situation says, the view in front stands right before the placeholder and the others are in their
fragments, and no view is bound but the one that it names (`World.Situated`).

Each step of composing is a step from one situation to another one, whatever the calls do that it
makes, as long as they heed the binding.
-/

namespace ReactiveViews

open Machine

/-- **Exhibit.** What a content binding shows: the text of a value, or a view of a template. -/
inductive Exhibit
  | text (text : String)
  | view (template : TemplateId) (view : ViewId)

/-! What has been shown so far is a list of exhibits, the latest first. -/

namespace Exhibit

/-- The views that have been shown, with their templates. -/
def viewings : List Exhibit → List (TemplateId × ViewId)
  | [] => []
  | .text _ :: past => viewings past
  | .view t v :: past => (t, v) :: viewings past

/-- The view that is shown now. -/
def front? : List Exhibit → Option ViewId
  | .view _ v :: _ => some v
  | _ => none

/-- The text that is shown now. -/
def text? : List Exhibit → Option String
  | .text shown :: _ => some shown
  | .view _ _ :: _ => some ""
  | [] => none

/-- The view that is shown now, if it is bound to something. -/
def busy? (past : List Exhibit) (held : Option Bound) : Option (ViewId × Bound) :=
  (front? past).bind fun v => held.map (v, ·)

/-- **Reuse.** If the view shown last is of the template to be shown, it is shown again. -/
def Reused : List Exhibit → Prop
  | [] => True
  | .text _ :: past => Reused past
  | .view t v :: past => (∀ u, (viewings past).head? = some (t, u) → v = u) ∧ Reused past

/-- The view in front, if one is, is the view shown last. -/
theorem front?_cases (past : List Exhibit) :
    front? past = none ∨ ∃ t v, front? past = some v ∧ (viewings past).head? = some (t, v) :=
  match past with
  | [] => .inl rfl
  | .text _ :: _ => .inl rfl
  | .view t v :: _ => .inr ⟨t, v, rfl, rfl⟩

/-- What is bound is the view in front, if one is. -/
theorem busy?_eq_some {past : List Exhibit} {held : Option Bound} {v : ViewId} {bound : Bound} :
    busy? past held = some (v, bound) ↔ front? past = some v ∧ held = some bound := by
  unfold busy?
  cases front? past <;> cases held <;> simp

/-- It is one of those that have been shown. -/
theorem mem_of_busy? {past : List Exhibit} {held : Option Bound} {v : ViewId} {bound : Bound}
    (h : busy? past held = some (v, bound)) : ∃ t, (t, v) ∈ viewings past := by
  obtain ⟨hv, -⟩ := busy?_eq_some.mp h
  obtain hf | ⟨t, u, hf, hlast⟩ := front?_cases past
  · exact absurd (hf.symm.trans hv) (by simp)
  · obtain rfl := Option.some.inj (hf.symm.trans hv)
    exact ⟨t, List.mem_of_head? hlast⟩

/-- Where one view is in front, that is the one that is bound. -/
theorem busy_view {u v : ViewId} {held : Option Bound} {bound : Bound}
    (h : ((some v).bind fun v => held.map (v, ·)) = some (u, bound)) : u = v := by
  cases held with
  | none => exact absurd h (by simp)
  | some _ => exact (congrArg Prod.fst (Option.some.inj h)).symm

end Exhibit

open Exhibit

/-- **Situation.** What a content binding is bound to and the view that it remembers; the views
that it has shown, and which of them is in front of its node; the view that is bound, and to what;
and the text of the node, if the binding has set it. -/
structure Situation where
  bound : Option Bound
  composed : Option Composed
  views : List (TemplateId × ViewId)
  front : Option ViewId
  busy : Option (ViewId × Bound)
  text : Option String

/-- **The situation after what has been shown.** The view in front is bound to `held`. -/
def Situation.after (past : List Exhibit) (bound held : Option Bound) : Situation where
  bound
  composed := (viewings past).head?.map fun entry =>
    ⟨entry.2, entry.1, (front? past).isSome, (front? past).isSome && held.isNone⟩
  views := viewings past
  front := front? past
  busy := busy? past held
  text := text? past

namespace Machine

variable {α β : Type} {calls : Calls} {w w' : World}

/-- A sequence that has a value has had one in between. -/
theorem bind_ok {m : Machine α} {f : α → Machine β} {b : β}
    (h : (m >>= f) calls w = some (.ok b, w')) :
    ∃ a w₁, m calls w = some (.ok a, w₁) ∧ f a calls w₁ = some (.ok b, w') := by
  obtain ⟨e, -, he⟩ | h := bind_eq_some h
  · exact absurd he (by simp)
  · exact h

/-- A created view is one of its template. -/
theorem createView_template {t : TemplateId} {v : ViewId}
    (h : createView t calls w = some (.ok v, w')) : w'.templateOf v = t := by
  unfold createView at h
  obtain ⟨template, w₁, -, h⟩ := bind_ok h
  obtain ⟨fragment, w₂, -, h⟩ := bind_ok h
  obtain ⟨targets, w₃, -, h⟩ := bind_ok h
  obtain ⟨behaviors, w₄, -, h⟩ := bind_ok h
  obtain ⟨⟨first, last⟩, w₅, -, h⟩ := bind_ok h
  dsimp only at h
  rw [modifyGet_apply] at h
  obtain ⟨rfl, rfl⟩ : _ = v ∧ _ = w' := by simpa using h
  exact congrArg ViewState.template (Store.get_add_self _ _)

end Machine

namespace World

section Templates

variable {w w' : World} {t : TemplateId} {spared : ViewId → Bool}

/-- A template that has been made: its prototype is a fragment. -/
structure IsTemplate (w : World) (t : TemplateId) : Prop where
  made : t.index < w.templates.size
  kind : w.document.kind (w.templates.get t).fragment = .fragment

/-- A node that is a fragment has been made. -/
theorem lt_of_fragment {d : Document} {n : NodeId} (h : d.kind n = .fragment) : n.index < d.size :=
  Store.index_lt_of_get_ne d fun hd => by
    rw [Document.kind, Document.content, hd] at h
    exact absurd h (by decide)

theorem IsTemplate.persists (h : w.IsTemplate t) (hw : w.Persists spared w') : w'.IsTemplate t where
  made := Nat.lt_of_lt_of_le h.made hw.templates.size
  kind := by
    rw [hw.templates.get t h.made, hw.kinds.kind (lt_of_fragment h.kind)]
    exact h.kind

theorem IsTemplate.redrawn (h : w.IsTemplate t) (hw : w.Redrawn w')
    (hk : ∀ n, w'.document.kind n = w.document.kind n) : w'.IsTemplate t := by
  have ht : w'.templates = w.templates := by rw [hw]
  exact ⟨ht ▸ h.made, by rw [ht, hk, h.kind]⟩

end Templates

section Bindings

variable {w w' : World} {b : BehaviorId} {s : BindingState}

theorem bindingState?_alter (w : World) (b : BehaviorId) (f : BindingState → BindingState) :
    (w.alter b (.onBinding f)).bindingState? b = (w.bindingState? b).map f := by
  rw [bindingState?, bindingState?, behavior_alter]
  cases w.behavior b <;> rfl

/-- What a binding is put on, and what it evaluates, stays. -/
theorem Lasts.binding {spared : ViewId → Bool} (h : w.Lasts spared w')
    (hs : w.bindingState? b = some s) : ∃ s', w'.bindingState? b = some s' ∧
      s'.target = s.target ∧ s'.aspect = s.aspect ∧ s'.binding = s.binding := by
  have hb := behavior_of_bindingState? hs
  have hl := h.behavior (lt_of_binding hb)
  rw [hb] at hl
  rw [bindingState?]
  cases hb' : w'.behavior b with
  | binding s' =>
    simp only [hb', Behavior.lasting, Behavior.bare, Behavior.binding.injEq,
      BindingState.mk.injEq] at hl
    exact ⟨s', rfl, hl.1, hl.2.1, hl.2.2.1⟩
  | handler | repeated | probe =>
    rw [hb'] at hl
    exact absurd hl (by simp [Behavior.lasting, Behavior.bare])

end Bindings

/-- **Situated.** The world is as a situation of the binding says. -/
structure Situated (w : World) (x : Site) (st : Situation) : Prop where
  slot : ∃ s, w.bindingState? x.behavior = some s ∧ s.target = x.node ∧ s.aspect = .content ∧
    s.bound = st.bound ∧ s.composed = st.composed
  arranged : w.Arranged x.node (st.views.map Prod.snd) st.front
  own {t : TemplateId} {v : ViewId} : (t, v) ∈ st.views → x.views v ∧ w.templateOf v = t
  idle {t : TemplateId} {v : ViewId} : (t, v) ∈ st.views → (∀ held, st.busy ≠ some (v, held)) →
    (w.views.get v).source = none
  busy {v : ViewId} {held : Bound} : st.busy = some (v, held) →
    (w.views.get v).source = some held.source ∧ (w.views.get v).context = some held.context
  text {text : String} : st.text = some text → (w.document.content x.node).data = text

section Situated

variable {w w' : World} {x : Site} {st : Situation} {fewer : ViewId → Bool} {t : TemplateId}
  {v : ViewId} {calls : Calls}

/-- The views of a situation are where they were if something else happens. -/
theorem Arranged.unmoved {vs : List ViewId} {front : Option ViewId}
    (h : w.Arranged x.node vs front) (ha : w.BypassBut x fewer w') (hx : ∀ v ∈ vs, x.views v) :
    w'.Arranged x.node vs front where
  linked := ha.linked
  parent := by
    obtain ⟨p, hp⟩ := h.parent
    exact Option.isSome_iff_exists.mp (ha.unmoved.parent (hp ▸ rfl))
  made hv := Nat.lt_of_lt_of_le (h.made hv) ha.persists.lasts.size_views
  atHand hv := ha.unmoved.atHand (hx _ hv) (h.made hv) (h.atHand hv)
  apart {u v} hu hv he := by
    refine h.apart hu hv ?_
    have hfu := congrArg ViewState.fragment (ha.persists.lasts.view (h.made hu))
    have hfv := congrArg ViewState.fragment (ha.persists.lasts.view (h.made hv))
    exact hfu.symm.trans (he.trans hfv)
  aside hv hf := (ha.unmoved.detached (hx _ hv) (h.made hv)).trans (h.aside hv hf)
  front hf := by
    obtain ⟨hv, hb⟩ := h.front hf
    exact ⟨hv, (ha.unmoved.before (hx _ hv) (h.made hv)).trans hb⟩

namespace Situated

theorem made (h : w.Situated x st) (hv : (t, v) ∈ st.views) : v.index < w.views.size :=
  h.arranged.made (List.mem_map_of_mem hv)

theorem owned (h : w.Situated x st) : ∀ v ∈ st.views.map Prod.snd, x.views v := by
  intro v hv
  obtain ⟨⟨t, u⟩, hm, rfl⟩ := List.mem_map.mp hv
  exact (h.own hm).1

/-- **Something happens aside**, and only what views are bound to may be different. -/
theorem later {busy : Option (ViewId × Bound)} (h : w.Situated x st) (ha : w.BypassBut x fewer w')
    (hidle : ∀ {t v}, (t, v) ∈ st.views → (∀ held, busy ≠ some (v, held)) →
      (w'.views.get v).source = none)
    (hbusy : ∀ {v held}, busy = some (v, held) →
      (w'.views.get v).source = some held.source ∧ (w'.views.get v).context = some held.context) :
    w'.Situated x { st with busy } where
  slot := by
    obtain ⟨s, hs, htarget, haspect, hbound, hcomposed⟩ := h.slot
    obtain ⟨s', hs', htarget', haspect', -⟩ := ha.persists.lasts.binding hs
    have hslot := ha.unmoved.slot
    rw [slot?, slot?, hs, hs'] at hslot
    obtain ⟨hb, hc⟩ := Prod.mk.inj (Option.some.inj hslot)
    exact ⟨s', hs', htarget'.trans htarget, haspect'.trans haspect, hb.trans hbound,
      hc.trans hcomposed⟩
  arranged := h.arranged.unmoved ha h.owned
  own {t v} hv := by
    refine ⟨(h.own hv).1, ?_⟩
    have hsame := congrArg ViewState.template (ha.persists.lasts.view (h.made hv))
    exact hsame.trans (h.own hv).2
  idle := hidle
  busy := hbusy
  text ht := ha.unmoved.data.trans (h.text ht)

/-- What bypasses the binding leaves the situation as it is. -/
theorem bypass (h : w.Situated x st)
    (hb : ∀ {v held}, st.busy = some (v, held) → ∃ t, (t, v) ∈ st.views) (ha : w.Bypass x w') :
    w'.Situated x st := by
  refine h.later ha (fun hv hi => ?_) fun hbusy => ?_
  · rw [ha.persists.lasts.spared (h.own hv).1 (h.made hv)]
    exact h.idle hv hi
  · obtain ⟨t, hv⟩ := hb hbusy
    rw [ha.persists.lasts.spared (h.own hv).1 (h.made hv)]
    exact h.busy hbusy

/-- The binding is bound to something else, or remembers something else. -/
theorem alter {f : BindingState → BindingState} {bound : Option Bound} {composed : Option Composed}
    (h : w.Situated x st) (hf : ∀ s, (f s).target = s.target ∧ (f s).aspect = s.aspect)
    (hs : ∀ s, s.bound = st.bound → s.composed = st.composed →
      (f s).bound = bound ∧ (f s).composed = composed) :
    (w.alter x.behavior (.onBinding f)).Situated x { st with bound, composed } where
  slot := by
    obtain ⟨s, hst, htarget, haspect, hb, hc⟩ := h.slot
    refine ⟨f s, by rw [bindingState?_alter, hst]; rfl, (hf s).1.trans htarget,
      (hf s).2.trans haspect, hs s hb hc⟩
  arranged := h.arranged.related (.of_eq rfl) (Nat.le_refl _) fun _ _ => rfl
  own := h.own
  idle := h.idle
  busy := h.busy
  text := h.text

/-- The binding remembers another view, or none. -/
theorem recompose (h : w.Situated x st) (composed : Option Composed) :
    (w.alter x.behavior (.onBinding fun s => { s with composed })).Situated x { st with composed } :=
  h.alter (fun _ => ⟨rfl, rfl⟩) fun _ hb _ => ⟨hb, rfl⟩

/-- The document changes in nothing that the situation speaks of but where views are and the text.
-/
theorem redrawn {front : Option ViewId} {text : Option String} (h : w.Situated x st)
    (hw : w.Redrawn w') (ha : w'.Arranged x.node (st.views.map Prod.snd) front)
    (ht : ∀ data, text = some data → (w'.document.content x.node).data = data) :
    w'.Situated x { st with front, text } where
  slot := by
    obtain ⟨s, hs, hrest⟩ := h.slot
    exact ⟨s, by rw [hw]; exact hs, hrest⟩
  arranged := ha
  own hv := by
    rw [templateOf, hw.views]
    exact h.own hv
  idle hv hi := by
    rw [hw.views]
    exact h.idle hv hi
  busy hb := by
    rw [hw.views]
    exact h.busy hb
  text := ht _

/-- The node is given a text. -/
theorem write (h : w.Situated x st) {data : String} {r : Except Error Unit}
    (hr : mutate (.text x.node data) calls w = some (r, w')) :
    w'.Situated x { st with text := some data } ∧ ∀ {t}, w.IsTemplate t → w'.IsTemplate t := by
  obtain ⟨w₁, hw₁, hredrawn, hdocument⟩ := mutate_apply (.text x.node data) calls w
  obtain ⟨-, rfl⟩ : .ok () = r ∧ w₁ = w' := by simpa using hw₁.symm.trans hr
  have hrelated : w.document.Related w₁.document := by
    rw [hdocument]
    exact .modifyContent w.document x.node (f := fun c => { c with data }) fun _ => rfl
  have hviews : w₁.views = w.views := hredrawn.views
  refine ⟨h.redrawn hredrawn (h.arranged.related hrelated (Nat.le_of_eq (by rw [hviews]))
    fun _ _ => by rw [hviews]) ?_, fun ht => ht.redrawn hredrawn hrelated.kind⟩
  rintro _ ⟨⟩
  rw [hdocument]
  exact congrArg (fun node : Node => node.content.data)
    ((Store.get_modify w.document x.node x.node _).trans (if_pos rfl))

/-- The view in front is taken out. -/
theorem remove (h : w.Situated x st) (hf : st.front = some v) {r : Except Error Unit}
    (hr : removeView v calls w = some (r, w')) :
    w'.Situated x { st with front := none } ∧ ∀ {t}, w.IsTemplate t → w'.IsTemplate t := by
  have ha := h.arranged
  rw [hf] at ha
  obtain ⟨w₁, hw₁, hredrawn, hcontent, harranged⟩ := ha.remove calls
  obtain ⟨-, rfl⟩ : .ok () = r ∧ w₁ = w' := by simpa using hw₁.symm.trans hr
  refine ⟨h.redrawn hredrawn harranged fun data ht => ?_,
    fun ht => ht.redrawn hredrawn fun n => congrArg Content.kind (hcontent n)⟩
  rw [hcontent]
  exact h.text ht

/-- A view is put in front. -/
theorem insert (h : w.Situated x st) (hf : st.front = none) (hv : (t, v) ∈ st.views)
    {r : Except Error Unit} (hr : insertViewBefore v x.node calls w = some (r, w')) :
    w'.Situated x { st with front := some v } := by
  have ha := h.arranged
  rw [hf] at ha
  obtain ⟨w₁, hw₁, hredrawn, hcontent, harranged⟩ := ha.insert (List.mem_map_of_mem hv) calls
  obtain ⟨-, rfl⟩ : .ok () = r ∧ w₁ = w' := by simpa using hw₁.symm.trans hr
  refine h.redrawn hredrawn harranged fun data ht => ?_
  rw [hcontent]
  exact h.text ht

/-- **The bound view is unbound.** -/
theorem unbind [hc : Heeds x calls] (h : w.Situated x st) (hv : (t, v) ∈ st.views)
    (hb : ∀ {u held}, st.busy = some (u, held) → u = v) {r : Except Error Unit}
    (hr : calls (.unbindView v) w = some (r, w')) :
    w'.Situated x { st with busy := none } ∧ ∀ {t}, w.IsTemplate t → w'.IsTemplate t := by
  have hf : ∀ u, sparedBut x.views v u → x.views u := fun u hu => (Bool.and_eq_true_iff.mp hu).1
  have ha := bypass_of_call (c := .unbindView v) hf (by simp [sparing, Call.view?, sparedBut])
    h.arranged.linked hr
  refine ⟨h.later ha (fun {t u} hu _ => ?_) (by simp), fun ht => ht.persists ha.persists⟩
  by_cases he : u = v
  · subst he
    obtain ⟨depth, hrun⟩ := hc.run
    exact congrArg ViewState.source (view_of_unbindView (h.own hu).1 (h.made hu) (hrun hr)).2
  · have hspared : sparedBut x.views v u := by simp [sparedBut, (h.own hu).1, he]
    rw [ha.persists.lasts.spared hspared (h.made hu)]
    exact h.idle hu fun held hbusy => he (hb hbusy)

/-- **A view is bound** while none is. -/
theorem bind [hc : Heeds x calls] (h : w.Situated x st) (hb : st.busy = none)
    (hv : (t, v) ∈ st.views) {bound : Bound}
    (hr : calls (.bindView v bound.source bound.context) w = some (.ok (), w')) :
    w'.Situated x { st with busy := some (v, bound) } := by
  have hf : ∀ u, sparedBut x.views v u → x.views u := fun u hu => (Bool.and_eq_true_iff.mp hu).1
  have ha := bypass_of_call (c := .bindView v bound.source bound.context) hf
    (by simp [sparing, Call.view?, sparedBut]) h.arranged.linked hr
  refine h.later ha (fun {t u} hu hi => ?_) fun {u held} he => ?_
  · have hne : u ≠ v := fun he => hi bound (he ▸ rfl)
    have hspared : sparedBut x.views v u := by simp [sparedBut, (h.own hu).1, hne]
    rw [ha.persists.lasts.spared hspared (h.made hu)]
    exact h.idle hu (by simp [hb])
  · obtain ⟨rfl, rfl⟩ : v = u ∧ bound = held := by simpa using he
    obtain ⟨depth, hrun⟩ := hc.run
    have hnone := h.idle hv (by simp [hb])
    obtain ⟨steps, hbinds⟩ := bindView_iff.mp (hrun hr)
    cases hbinds with
    | same hs _ | anew hs _ _ _ => exact absurd (hnone.symm.trans hs) (by simp)
    | fresh _ hbs =>
      have hview := view_of_bindsInTurn (w := w.holdingView v) (h.own hv).1 (h.made hv) hbs
      exact ⟨congrArg ViewState.source hview, congrArg ViewState.context hview⟩

/-- **A new view** is neither in front nor bound. -/
theorem create [hc : Heeds x calls] (h : w.Situated x st) (hb : st.busy = none)
    (ht : w.IsTemplate t) (hr : createView t calls w = some (.ok v, w')) (hx : x.views v) :
    w'.Situated x { st with views := (t, v) :: st.views } := by
  obtain ⟨harrived, -⟩ := createView_arrives h.arranged.linked ht.kind hr
  obtain ⟨-, hcreated, -⟩ := Setting.createView_leads (S := heedingSetting x calls) t w _ _ hr
  have hnew : v.index = w.views.size := by rw [harrived.new]
  refine ⟨?_, h.arranged.arrive harrived, fun {t' u} hu => ?_, fun {t' u} hu _ => ?_, fun hbusy => ?_,
    fun htext => ?_⟩
  · obtain ⟨s, hs, hrest⟩ := h.slot
    refine ⟨s, ?_, hrest⟩
    have hlt := lt_of_binding (behavior_of_bindingState? hs)
    rw [bindingState?, behavior, hcreated.behaviors.get _ hlt]
    exact hs
  · obtain he | hu := List.mem_cons.mp hu
    · obtain ⟨rfl, rfl⟩ := Prod.mk.inj he
      exact ⟨hx, createView_template hr⟩
    · rw [templateOf, hcreated.views.get u (h.made hu)]
      exact h.own hu
  · obtain he | hu := List.mem_cons.mp hu
    · obtain ⟨-, rfl⟩ := Prod.mk.inj he
      exact (hcreated.newView u (Nat.le_of_eq hnew.symm)).source
    · rw [hcreated.views.get u (h.made hu)]
      exact h.idle hu (by simp [hb])
  · exact absurd (hb.symm.trans hbusy) (by simp)
  · obtain ⟨p, hp⟩ := h.arranged.parent
    rw [Document.content, hcreated.document.get _ (Document.lt_of_parent hp)]
    exact h.text htext

/-- A view is shown again. -/
theorem again (h : w.Situated x st) (hv : (t, v) ∈ st.views) :
    w.Situated x { st with views := (t, v) :: st.views } := by
  have hmem : ∀ {entry}, entry ∈ (t, v) :: st.views → entry ∈ st.views := fun he =>
    (List.mem_cons.mp he).elim (fun h => h ▸ hv) id
  have hmem' : ∀ {u}, u ∈ ((t, v) :: st.views).map Prod.snd → u ∈ st.views.map Prod.snd := by
    intro u hu
    obtain ⟨entry, he, rfl⟩ := List.mem_map.mp hu
    exact List.mem_map_of_mem (hmem he)
  have ha := h.arranged
  refine ⟨h.slot, ⟨ha.linked, ha.parent, fun hu => ha.made (hmem' hu), fun hu => ha.atHand (hmem' hu),
    fun hu hx => ha.apart (hmem' hu) (hmem' hx), fun hu => ha.aside (hmem' hu), fun hf => ?_⟩,
    fun hu => h.own (hmem hu), fun hu => h.idle (hmem hu), h.busy, h.text⟩
  obtain ⟨hu, hb⟩ := ha.front hf
  exact ⟨List.mem_cons_of_mem _ hu, hb⟩

end Situated

end Situated

end World

end ReactiveViews
