import ReactiveViews.Proofs.Composing.Situation
import ReactiveViews.Proofs.Scopes
/-!
# Showing a value

Showing a value brings a content binding from the situation after what has been shown so far to
the one after that and the value (`Situated.apply`). There are the ways that two flags and a slot
make possible: for a template, the view that is remembered is in place and bound, or in place and
not bound, or neither, or it is of another template, or there is none; for anything else, the view
that is remembered is taken out and unbound, or taken out, or left alone.
-/

namespace ReactiveViews

open Machine Exhibit

namespace World

/-- **Exhibiting.** What is shown once a value has been applied: its text, or the view of the
template that is remembered. -/
inductive Exhibits (w : World) (x : Site) : Value → Exhibit → Prop
  | text {value : Value} (h : ∀ t, value ≠ .template t) : Exhibits w x value (.text (w.display value))
  | view {t : TemplateId} {s : BindingState} {c : Composed}
    (hs : w.bindingState? x.behavior = some s) (hc : s.composed = some c) (hx : x.views c.view) :
    Exhibits w x (.template t) (.view t c.view)

end World

/-- **Ready.** A view that is to be composed is one of the situation, and it is in front and bound
as far as it is said to be. -/
structure Situation.Ready (st : Situation) (c : Composed) (bound : Bound) : Prop where
  listed : (c.template, c.view) ∈ st.views
  aside : c.isComposed = false → st.front = none ∧ st.busy = none
  front : c.isComposed = true → st.front = some c.view
  idle : c.isComposed = true → c.needsBindOnly = true → st.busy = none
  busy : c.isComposed = true → c.needsBindOnly = false → st.busy = some (c.view, bound)

namespace Machine

variable {calls : Calls} {w w' : World} {b : BehaviorId}

theorem pure_ok {α : Type} {a a' : α} (h : (pure a : Machine α) calls w = some (.ok a', w')) :
    a = a' ∧ w = w' := by
  simpa [pure_apply] using h

theorem setComposed_ok {composed : Option Composed} {r : Except Error Unit}
    (h : setComposed b composed calls w = some (r, w')) :
    w' = w.alter b (.onBinding fun s => { s with composed }) := by
  obtain ⟨-, rfl⟩ := Prod.mk.inj (Option.some.inj h)
  rfl

/-- Composing a view does not make it another one. -/
theorem compose_view {c : Composed} {target : NodeId} {source : Value} {context : ContextId}
    {c' : Composed} {outcome : Except Error Unit}
    (h : compose c target source context calls w = some (.ok (c', outcome), w')) :
    c'.view = c.view := by
  unfold compose at h
  split at h
  · obtain ⟨_, _, -, h⟩ := bind_ok h
    obtain ⟨_, _, -, h⟩ := bind_ok h
    exact (congrArg (·.1.view) (pure_ok h).1).symm
  · split at h
    · obtain ⟨_, _, -, h⟩ := bind_ok h
      exact (congrArg (·.1.view) (pure_ok h).1).symm
    · exact (congrArg (·.1.view) (pure_ok h).1).symm

end Machine

namespace World.Situated

variable {w w' : World} {x : Site} {st : Situation} {past : List Exhibit} {t : TemplateId}
  {v : ViewId} {bound : Bound} {held : Option Bound} {text : Option String} {value : Value}
  {entry : Exhibit} {calls : Calls} [hc : Heeds x calls]

/-- **Composing** puts the view in front and binds it, as far as that is still to be done. -/
theorem compose {c c' : Composed} (h : w.Situated x st) (hready : st.Ready c bound)
    (hr : Machine.compose c x.node bound.source bound.context calls w =
      some (.ok (c', .ok ()), w')) :
    c' = { c with isComposed := true, needsBindOnly := false } ∧
      w'.Situated x { st with front := some c.view, busy := some (c.view, bound) } := by
  obtain ⟨st₁, composed, views, front, busy, text⟩ := st
  obtain ⟨v, t, isComposed, needsBindOnly⟩ := c
  unfold Machine.compose at hr
  cases isComposed with
  | false =>
    obtain ⟨rfl, rfl⟩ : front = none ∧ busy = none := hready.aside rfl
    obtain ⟨_, w₁, hinsert, hr⟩ := bind_ok hr
    obtain ⟨outcome, w₂, hbind, hr⟩ := bind_ok hr
    obtain ⟨⟨⟩, rfl⟩ := pure_ok hr
    obtain ⟨_, hbind, ⟨⟩⟩ := attempt_eq_some.mp hbind
    exact ⟨rfl, (h.insert rfl hready.listed hinsert).bind rfl hready.listed hbind⟩
  | true =>
    obtain rfl : front = some v := hready.front rfl
    cases needsBindOnly with
    | true =>
      obtain rfl : busy = none := hready.idle rfl rfl
      obtain ⟨outcome, w₁, hbind, hr⟩ := bind_ok hr
      obtain ⟨⟨⟩, rfl⟩ := pure_ok hr
      obtain ⟨_, hbind, ⟨⟩⟩ := attempt_eq_some.mp hbind
      exact ⟨rfl, h.bind rfl hready.listed hbind⟩
    | false =>
      obtain rfl : busy = some (v, bound) := hready.busy rfl rfl
      obtain ⟨⟨⟩, rfl⟩ := pure_ok hr
      exact ⟨rfl, h⟩

/-- A view is made while none is in front or bound. -/
theorem fresh {views : List (TemplateId × ViewId)} {b : Option Bound} {composed : Option Composed}
    {c : Composed} (h : w.Situated x ⟨b, composed, views, none, none, text⟩) (bound : Bound)
    (ht : w.IsTemplate t)
    (hr : (do return ⟨← createView t, t, false, false⟩ : Machine Composed) calls w =
      some (.ok c, w')) (hx : x.views c.view) :
    c.template = t ∧ w'.Situated x ⟨b, composed, (t, c.view) :: views, none, none, text⟩ ∧
      Situation.Ready ⟨b, composed, (t, c.view) :: views, none, none, text⟩ c bound := by
  obtain ⟨v, w₁, hcreate, hr⟩ := bind_ok hr
  obtain ⟨rfl, rfl⟩ := pure_ok hr
  exact ⟨rfl, h.create rfl ht hcreate hx, List.mem_cons_self .., fun _ => ⟨rfl, rfl⟩, nofun, nofun,
    nofun⟩

/-- **The view for a template** is the one shown last, if that is of the template, and else a new
one. In that case the one shown last is aside. -/
theorem composedFor {c : Composed} (hheld : held = none ∨ held = some bound)
    (h : w.Situated x ⟨some bound, none, viewings past, front? past, busy? past held, text⟩)
    (ht : w.IsTemplate t)
    (hr : Machine.composedFor t (Situation.after past (some bound) held).composed calls w =
      some (.ok c, w')) (hx : x.views c.view) :
    c.template = t ∧ (∀ u, (viewings past).head? = some (t, u) → c.view = u) ∧
      ∃ front busy, w'.Situated x ⟨some bound, none, (t, c.view) :: viewings past, front, busy, text⟩ ∧
        Situation.Ready ⟨some bound, none, (t, c.view) :: viewings past, front, busy, text⟩ c bound := by
  unfold Situation.after at hr
  unfold busy? at h
  obtain hf | ⟨t', u, hf, hlast⟩ := front?_cases past
  · rw [hf] at h hr
    cases hlast : (viewings past).head? with
    | none =>
      rw [hlast] at hr
      obtain ⟨htemplate, h', hready⟩ := h.fresh bound ht hr hx
      exact ⟨htemplate, by simp, none, none, h', hready⟩
    | some last =>
      obtain ⟨t', u⟩ := last
      rw [hlast] at hr
      unfold Machine.composedFor at hr
      dsimp only [Option.map_some] at hr
      by_cases he : t' = t
      · subst he
        rw [if_pos rfl] at hr
        obtain ⟨rfl, rfl⟩ := pure_ok hr
        have hlisted := List.mem_of_head? hlast
        exact ⟨rfl, fun _ hu => congrArg Prod.snd (Option.some.inj hu), none, none, h.again hlisted,
          List.mem_cons_self .., fun _ => ⟨rfl, rfl⟩, nofun, nofun, nofun⟩
      · rw [if_neg he] at hr
        obtain ⟨htemplate, h', hready⟩ := h.fresh bound ht hr hx
        refine ⟨htemplate, fun _ hu => ?_, none, none, h', hready⟩
        exact absurd (congrArg Prod.fst (Option.some.inj hu)) he
  · have hlisted := List.mem_of_head? hlast
    rw [hf] at h hr
    rw [hlast] at hr ⊢
    unfold Machine.composedFor at hr
    dsimp only [Option.map_some, Option.isSome_some, Bool.true_and] at hr
    by_cases he : t' = t
    · subst he
      rw [if_pos rfl] at hr
      obtain ⟨rfl, rfl⟩ := pure_ok hr
      refine ⟨rfl, fun _ hu => congrArg Prod.snd (Option.some.inj hu), some u, _, h.again hlisted,
        List.mem_cons_self .., nofun, fun _ => rfl, fun _ hn => ?_, fun _ hn => ?_⟩
      · rw [Option.isNone_iff_eq_none.mp hn]
        rfl
      · obtain rfl | rfl := hheld
        · exact absurd hn (by simp)
        · rfl
    · rw [if_neg he, if_pos rfl] at hr
      obtain ⟨_, w₁, hremove, hr⟩ := bind_ok hr
      obtain ⟨_, w₂, hunbind, hr⟩ := bind_ok hr
      obtain ⟨h₁, ht₁⟩ := h.remove rfl hremove
      obtain ⟨h₂, ht₂⟩ := h₁.unbind hlisted (fun hb => busy_view hb) hunbind
      obtain ⟨htemplate, h', hready⟩ := h₂.fresh bound (ht₂ (ht₁ ht)) hr hx
      refine ⟨htemplate, fun _ hu => ?_, none, none, h', hready⟩
      exact absurd (congrArg Prod.fst (Option.some.inj hu)) he

/-- **Taking the view out** that is in front leaves it unbound. -/
theorem withdraw {b : Option Bound} (h : w.Situated x (.after past b held))
    (hr : withdrawComposed x.behavior (Situation.after past b held).composed calls w =
      some (.ok (), w')) :
    w'.Situated x ⟨b, (viewings past).head?.map fun entry => ⟨entry.2, entry.1, false, false⟩,
      viewings past, none, none, text? past⟩ := by
  unfold Situation.after busy? at h
  unfold Situation.after at hr
  obtain hf | ⟨t, v, hf, hlast⟩ := front?_cases past
  · rw [hf] at h hr
    cases hlast : (viewings past).head? with
    | none =>
      rw [hlast] at h hr
      obtain ⟨-, rfl⟩ := pure_ok hr
      exact h
    | some last =>
      rw [hlast] at h hr
      obtain ⟨-, rfl⟩ := pure_ok hr
      exact h
  · have hlisted := List.mem_of_head? hlast
    rw [hf, hlast] at h hr
    rw [hlast]
    unfold withdrawComposed at hr
    dsimp only [Option.map_some, Option.isSome_some, Bool.true_and] at hr
    rw [if_pos rfl] at hr
    obtain ⟨_, w₁, hset, hr⟩ := bind_ok hr
    obtain rfl := setComposed_ok hset
    obtain ⟨_, w₂, hremove, hr⟩ := bind_ok hr
    have h₁ := h.recompose (some ⟨v, t, false, held.isNone⟩)
    obtain ⟨h₂, -⟩ := h₁.remove rfl hremove
    cases held with
    | none =>
      obtain rfl := setComposed_ok hr
      exact h₂.recompose (some ⟨v, t, false, false⟩)
    | some bound =>
      exact (h₂.unbind hlisted (fun hb => (congrArg Prod.fst (Option.some.inj hb)).symm) hr).1

/-- **A value is applied.** -/
theorem updateContent {s : BindingState} (hheld : held = none ∨ held = some bound)
    (h : w.Situated x (.after past (some bound) held)) (hreused : Reused past)
    (hs : w.bindingState? x.behavior = some s) (ht : ∀ t, value = .template t → w.IsTemplate t)
    (hr : Machine.updateContent x.behavior s value bound.source bound.context calls w =
      some (.ok (), w')) (he : w'.Exhibits x value entry) :
    w'.Situated x (.after (entry :: past) (some bound) (some bound)) ∧ Reused (entry :: past) := by
  obtain ⟨s', hs', htarget, -, -, hcomposed⟩ := h.slot
  obtain rfl := Option.some.inj (hs.symm.trans hs')
  unfold Machine.updateContent at hr
  rw [htarget, hcomposed] at hr
  cases he with
  | text hne =>
    refine ⟨?_, hreused⟩
    split at hr
    · next t => exact absurd rfl (hne t)
    · obtain ⟨_, w₁, hwithdraw, hr⟩ := bind_ok hr
      obtain ⟨text, w₂, hread, hr⟩ := bind_ok hr
      obtain ⟨rfl, rfl⟩ : w₁.display value = text ∧ w₁ = w₂ := by simpa [read_apply] using hread
      obtain ⟨w₂, hw₂, hredrawn, -⟩ := mutate_apply (.text x.node (w₁.display value)) calls w₁
      obtain rfl := eq_of_run hw₂ hr
      have harrays : w₂.arrays = w₁.arrays := by rw [hredrawn]
      rw [Machine.Mirrors.display_of_arrays harrays]
      exact ((h.withdraw hwithdraw).write hr).1
  | @view t s₁ c₁ hs₁ hc₁ hx =>
    obtain ⟨_, w₁, hwrite, hr⟩ := bind_ok hr
    obtain ⟨_, w₂, hset, hr⟩ := bind_ok hr
    obtain rfl := setComposed_ok hset
    obtain ⟨c, w₃, hfor, hr⟩ := bind_ok hr
    obtain ⟨⟨c', outcome⟩, w₄, hcompose, hr⟩ := bind_ok hr
    obtain ⟨_, w₅, hset, hr⟩ := bind_ok hr
    obtain rfl := setComposed_ok hset
    obtain ⟨h₁, ht₁⟩ := h.write hwrite
    have hview := compose_view hcompose
    obtain ⟨rfl, rfl⟩ : outcome = .ok () ∧ w' = w₄.alter x.behavior (.onBinding fun s =>
        { s with composed := some c' }) := by
      cases outcome with
      | error e => exact absurd hr (by simp [Machine.ofExcept, throw_apply])
      | ok => exact ⟨rfl, (pure_ok hr).2.symm⟩
    obtain rfl : c₁ = c' := by
      rw [bindingState?_alter] at hs₁
      obtain ⟨s₄, -, rfl⟩ := Option.map_eq_some_iff.mp hs₁
      exact (Option.some.inj hc₁).symm
    obtain ⟨rfl, hreuse, front, busy, h₃, hready⟩ :=
      (h₁.recompose none).composedFor hheld ⟨(ht₁ (ht t rfl)).made, (ht₁ (ht t rfl)).kind⟩ hfor
        (hview ▸ hx)
    obtain ⟨rfl, h₄⟩ := h₃.compose hready hcompose
    exact ⟨h₄.recompose _, hreuse, hreused⟩

end World.Situated

namespace World

/-- **Applying.** A value is applied, which is no template unless it is one that has been made,
and it is shown. -/
structure Applies (calls : Calls) (x : Site) (bound : Bound) (value : Value) (w : World)
    (entry : Exhibit) (w' : World) : Prop where
  run : applyBinding x.behavior value bound.source bound.context calls w = some (.ok (), w')
  made {t : TemplateId} : value = .template t → w.IsTemplate t
  shown : w'.Exhibits x value entry

variable {calls : Calls} {w w' : World} {x : Site} {past : List Exhibit} {bound : Bound}
  {held : Option Bound} {value : Value} {entry : Exhibit}

theorem Situated.apply [hc : Heeds x calls] (hheld : held = none ∨ held = some bound)
    (h : w.Situated x (.after past (some bound) held)) (hreused : Reused past)
    (ha : w.Applies calls x bound value entry w') :
    w'.Situated x (.after (entry :: past) (some bound) (some bound)) ∧ Reused (entry :: past) := by
  obtain ⟨s, hs, -, haspect, -⟩ := h.slot
  have hr := ha.run
  unfold applyBinding at hr
  rw [bind_apply, get_apply] at hr
  dsimp only at hr
  rw [hs] at hr
  dsimp only at hr
  rw [haspect] at hr
  exact h.updateContent hheld hreused hs (fun t => ha.made) hr ha.shown

end World

end ReactiveViews
