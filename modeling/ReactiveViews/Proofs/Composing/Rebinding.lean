import ReactiveViews.Proofs.Composing.Situation
/-!
# Binding and unbinding a content binding

When a content binding is unbound the view in front stays there and is unbound as well, and what
is remembered says that it is yet to be bound (`Situated.unbindBinding`). When it is bound again
it comes to a value first, and then applies it (`bindBinding_apply`). Whatever else it does for
that bypasses what it has composed.
-/

namespace ReactiveViews

open Machine Exhibit

namespace Machine

variable {calls : Calls} {w w' : World} {b : BehaviorId}

/-- The binding is evaluated, and what it reads is recorded. -/
def observed (b : BehaviorId) (s : BindingState) (bound : Bound) : Machine Value := do
  let o ← bindingObserver b s
  observe o bound.source bound.context

/-- The binding is evaluated, and nothing is recorded. -/
def unobserved (s : BindingState) (bound : Bound) : Machine Value :=
  untracked (eval s.binding.evaluator ⟨bound.source, bound.context, .null⟩)

/-- How a binding comes to a value when it is bound. -/
def evaluation (b : BehaviorId) (s : BindingState) (bound : Bound) : Machine Value :=
  match s.binding.mode with
  | .onChange | .twoWay _ _ _ => observed b s bound
  | .oneTime | .signal _ => unobserved s bound

/-- What a binding does besides, to learn of events or signals. -/
def attend (b : BehaviorId) (s : BindingState) : Machine Unit :=
  match s.binding.mode with
  | .oneTime | .onChange => pure ()
  | .twoWay _ type _ => do
    let slot ← listen s.target ⟨type, .assign b, false⟩
    modifyBinding b fun s => { s with listener := some slot }
  | .signal name => do
    let n ← signalNotifier name
    subscribe n (.behavior b) (some name)
    modifyBinding b fun s => { s with signal := some n }

instance (x : Site) [Heeds x calls] (s : BindingState) (bound : Bound) :
    Minds x calls (observed b s bound) := by
  unfold observed
  infer_instance

instance (x : Site) [Heeds x calls] (s : BindingState) (bound : Bound) :
    Minds x calls (unobserved s bound) := by
  unfold unobserved
  infer_instance

instance (x : Site) [Heeds x calls] (s : BindingState) (bound : Bound) :
    Minds x calls (evaluation b s bound) := by
  unfold evaluation
  split <;> infer_instance

instance (x : Site) (s : BindingState) : Minds x calls (attend b s) := by
  have hlistener : ∀ slot, Minds x calls (modifyBinding b fun s => { s with listener := some slot }) :=
    fun _ => minds_modifyBinding b (fun _ => rfl) fun _ => ⟨rfl, rfl⟩
  have hsignal : ∀ n, Minds x calls (modifyBinding b fun s => { s with signal := some n }) :=
    fun _ => minds_modifyBinding b (fun _ => rfl) fun _ => ⟨rfl, rfl⟩
  unfold attend
  split <;> infer_instance

/-- **Refreshing** is evaluating with a record of what is read, and applying. -/
theorem refreshBinding_observed {s : BindingState} {bound : Bound} (hs : w.bindingState? b = some s)
    (hb : s.bound = some bound) :
    refreshBinding b calls w = (do
      let value ← observed b s bound
      applyBinding b value bound.source bound.context) calls w := by
  unfold refreshBinding observed
  rw [bind_apply, get_apply]
  dsimp only
  rw [hs]
  dsimp only
  rw [hb]
  simp only [bind_assoc]

/-- **Binding** is unbinding, evaluating, applying, and attending to what the mode asks for. -/
theorem bindBinding_apply {w₁ : World} {s : BindingState} {bound : Bound}
    (hu : unbindBinding b calls w = some (.ok (), w₁))
    (hs : (w₁.alter b (.onBinding fun s => { s with bound := some bound })).bindingState? b = some s)
    (hb : s.bound = some bound) :
    bindBinding b bound.source bound.context calls w = (do
      let value ← evaluation b s bound
      applyBinding b value bound.source bound.context
      attend b s) calls (w₁.alter b (.onBinding fun s => { s with bound := some bound })) := by
  unfold bindBinding
  rw [bind_apply, hu]
  dsimp only
  rw [bind_apply, modifyBinding_apply]
  dsimp only
  rw [bind_apply, get_apply]
  dsimp only
  rw [hs]
  dsimp only
  unfold evaluation attend
  cases s.binding.mode with
  | oneTime =>
    simp only [bind_pure_unit]
    rfl
  | onChange =>
    simp only [bind_pure_unit]
    exact refreshBinding_observed hs hb
  | twoWay assign type convert =>
    dsimp only
    rw [bind_apply, refreshBinding_observed hs hb, ← bind_apply, bind_assoc]
  | signal name =>
    dsimp only
    unfold evaluateUntracked unobserved
    rw [bind_assoc]

end Machine

namespace World.Situated

variable {w w' : World} {x : Site} {st : Situation} {past : List Exhibit} {bound : Option Bound}
  {calls : Calls} [hc : Heeds x calls]

/-- What minds the binding leaves the situation as it is. -/
theorem minds_leads {α : Type} {m : Machine α} [hm : Minds x calls m] (h : w.Situated x st)
    (hb : ∀ {v held}, st.busy = some (v, held) → ∃ t, (t, v) ∈ st.views) :
    (heedingSetting x calls).Leads m w fun _ w' => w'.Situated x st :=
  fun _ _ hr => ⟨hr, h.bypass hb (hm.bypass h.arranged.linked hr)⟩

theorem unbind_leads {t : TemplateId} {v : ViewId} (h : w.Situated x st) (hv : (t, v) ∈ st.views)
    (hb : ∀ {u held}, st.busy = some (u, held) → u = v) :
    (heedingSetting x calls).Leads (Machine.call (.unbindView v)) w fun _ w' =>
      w'.Situated x { st with busy := none } :=
  fun r w' hr => by
    have hcall : calls (.unbindView v) w = some (r, w') := hr
    exact ⟨hr, (h.unbind hv hb hcall).1⟩

/-- **The binding is unbound**, and so is the view in front, which stays there. -/
theorem unbindBinding (h : w.Situated x (.after past bound bound)) :
    (heedingSetting x calls).Leads (Machine.unbindBinding x.behavior) w fun r w' =>
      r = .ok () → w'.Situated x (.after past none none) := by
  obtain ⟨s, hs, htarget, haspect, hbound, hcomposed⟩ := h.slot
  unfold Machine.unbindBinding
  refine .get ?_
  split
  · next hnone => exact absurd (hs.symm.trans hnone) (by simp)
  next s' hs' =>
  obtain rfl := Option.some.inj (hs.symm.trans hs')
  split
  · next hnone =>
    obtain rfl : bound = none := hbound.symm.trans (Option.isNone_iff_eq_none.mp hnone)
    exact .of_eq (fun _ => rfl) fun _ => h
  -- The steps are taken from the last to the first: each goes on to the next one.
  extract_lets release cancel unlisten
  let unbinding : Situation := { Situation.after past bound bound with bound := none }
  have hrelease : ∀ u w₁, w₁.Situated x unbinding →
      (heedingSetting x calls).Leads (release u) w₁ fun r w' =>
        r = .ok () → w'.Situated x (.after past none none) := by
    intro u w₁ h₁
    unfold release
    rw [hcomposed]
    unfold unbinding Situation.after busy? at h₁
    unfold Situation.after busy?
    obtain hf | ⟨t, v, hf, hlast⟩ := front?_cases past
    · rw [hf] at h₁ ⊢
      cases hlast : (viewings past).head? <;> rw [hlast] at h₁ <;>
        exact .of_eq (fun _ => rfl) fun _ => h₁
    · rw [hf, hlast] at h₁ ⊢
      dsimp only [Option.map_some, Option.isSome_some]
      rw [if_pos rfl]
      have hlisted := List.mem_of_head? hlast
      refine Setting.Leads.bind (h₁.unbind_leads hlisted fun hb => busy_view hb) (by simp)
        fun _ w₂ h₂ => ?_
      exact .of_eq (fun _ => rfl) fun _ => h₂.recompose (some ⟨v, t, true, true⟩)
  have hcancel : ∀ u w₁, w₁.Situated x unbinding →
      (heedingSetting x calls).Leads (cancel u) w₁ fun r w' =>
        r = .ok () → w'.Situated x (.after past none none) := by
    intro u w₁ h₁
    unfold cancel
    split
    · exact (h₁.minds_leads mem_of_busy?).bind (by simp) fun u w₂ h₂ => hrelease u w₂ h₂
    · exact hrelease () w₁ h₁
  have hunlisten : ∀ u w₁, w₁.Situated x unbinding →
      (heedingSetting x calls).Leads (unlisten u) w₁ fun r w' =>
        r = .ok () → w'.Situated x (.after past none none) := by
    intro u w₁ h₁
    unfold unlisten
    split
    · exact (h₁.minds_leads mem_of_busy?).bind (by simp) fun u w₂ h₂ => hcancel u w₂ h₂
    · exact hcancel () w₁ h₁
  refine .step (fun calls => modifyBinding_apply x.behavior _ calls w) ?_
  have h₁ : (w.alter x.behavior (.onBinding fun s =>
      { s with bound := none, listener := none, signal := none })).Situated x unbinding :=
    h.alter (fun _ => ⟨rfl, rfl⟩) fun _ _ hc => ⟨rfl, hc⟩
  split
  · exact (h₁.minds_leads mem_of_busy?).bind (by simp) fun u w₂ h₂ => hunlisten u w₂ h₂
  · exact hunlisten () _ h₁

/-- **The binding is bound to something else**, and the view in front is not yet. -/
theorem rebind (h : w.Situated x (.after past none none)) (anew : Bound) :
    (w.alter x.behavior (.onBinding fun s => { s with bound := some anew })).Situated x
      (.after past (some anew) none) :=
  h.alter (fun _ => ⟨rfl, rfl⟩) fun _ _ hc => ⟨rfl, hc⟩

end World.Situated

end ReactiveViews
