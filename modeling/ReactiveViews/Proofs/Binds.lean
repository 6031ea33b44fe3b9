import ReactiveViews.Proofs.Lasting
/-!
# What a bind leaves bound

Binding a view binds its behaviors one after another, and the first that fails ends it. The
view has its source by then, and a bind to the source it has does nothing. So what a bind that
returns has bound depends on how the binds before it have ended.

The *course* of a view is what has become of its behaviors so far, bind by bind and unbind by
unbind. A bind that returns has bound every behavior to its source if and only if no
behavior has refused since the last unbind (`bind_binds_all`). If one has, every
further bind to that source returns at once and leaves things as they are
(`bindView_of_refused`), until the view is unbound or bound to another source.
-/

namespace ReactiveViews

open Machine

/-- **Step of binding.** What becomes of a behavior of a view, or of all of them. -/
inductive BindStep
  | bound (b : BehaviorId) (source : Value)
  /-- Binding the behavior to the source has failed. -/
  | refused (b : BehaviorId) (source : Value)
  /-- All behaviors have been unbound. -/
  | unbound

namespace BindStep

/-- The steps since behaviors were last unbound. The latest step comes first. -/
def sinceUnbind : List BindStep → List BindStep
  | [] => []
  | .unbound :: _ => []
  | step :: past => step :: sinceUnbind past

/-- The steps of binding some behaviors to a source, the latest first. -/
def allBound (source : Value) (bs : List BehaviorId) : List BindStep :=
  (bs.map (.bound · source)).reverse

theorem mem_allBound {source : Value} {bs : List BehaviorId} {step : BindStep} :
    step ∈ allBound source bs ↔ ∃ b ∈ bs, step = .bound b source := by
  simp only [allBound, List.mem_reverse, List.mem_map, eq_comm]

theorem sinceUnbind_append {steps : List BindStep} (h : .unbound ∉ steps) (past : List BindStep) :
    sinceUnbind (steps ++ past) = steps ++ sinceUnbind past := by
  induction steps with
  | nil => rfl
  | cons step steps ih =>
    have hrest := ih fun hm => h (List.mem_cons_of_mem _ hm)
    cases step with
    | unbound => exact absurd (List.mem_cons_self ..) h
    | bound | refused => exact congrArg (List.cons _) hrest

end BindStep

open BindStep

namespace World

/-- The world in which a view has been given what it is to be bound to. -/
def withSource (w : World) (v : ViewId) (source : Value) (context : ContextId) : World :=
  { w with views := w.views.modify v fun s =>
    { s with source := some source, context := some context } }

/-- The world in which a view is held on to. -/
def holdingView (w : World) (v : ViewId) : World := { w with held := [.binding v] ++ w.held }

end World

section Binds

variable {calls : Calls} {source : Value} {context : ContextId} {v : ViewId} {w w' : World}

/-- **Binding in turn.** Behaviors are bound one after another, until one refuses. -/
inductive BindsInTurn (calls : Calls) (source : Value) (context : ContextId) :
    List BehaviorId → World → List BindStep → Except Error Unit → World → Prop
  | none (w : World) : BindsInTurn calls source context [] w [] (.ok ()) w
  | bound {b : BehaviorId} {bs : List BehaviorId} {w w₁ w' : World} {steps : List BindStep}
    {r : Except Error Unit} (hb : bindBehavior b source context calls w = some (.ok (), w₁))
    (hr : BindsInTurn calls source context bs w₁ steps r w') :
    BindsInTurn calls source context (b :: bs) w (steps ++ [.bound b source]) r w'
  | refused {b : BehaviorId} {bs : List BehaviorId} {w w' : World} {e : Error}
    (hb : bindBehavior b source context calls w = some (.error e, w')) :
    BindsInTurn calls source context (b :: bs) w [.refused b source] (.error e) w'

/-- This is what binding behaviors one after another comes to. -/
theorem each_bindBehavior_iff {bs : List BehaviorId} {r : Except Error Unit} :
    each (fun b => bindBehavior b source context) bs calls w = some (r, w') ↔
      ∃ steps, BindsInTurn calls source context bs w steps r w' := by
  constructor
  · intro h
    induction bs generalizing w with
    | nil =>
      obtain ⟨rfl, rfl⟩ : .ok () = r ∧ w = w' := by simpa [each, pure_apply] using h
      exact ⟨[], .none w⟩
    | cons b bs ih =>
      obtain ⟨e, hb, rfl⟩ | ⟨⟨⟩, w₁, hb, hr⟩ := bind_eq_some h
      · exact ⟨_, .refused hb⟩
      · obtain ⟨steps, hs⟩ := ih hr
        exact ⟨_, .bound hb hs⟩
  · rintro ⟨steps, h⟩
    induction h with
    | none w => rfl
    | bound hb _ ih => rw [each, bind_apply, hb]; exact ih
    | refused hb => rw [each, bind_apply, hb]

/-- Either all behaviors have been bound, or those before the one that has refused. -/
theorem BindsInTurn.steps {bs : List BehaviorId} {steps : List BindStep} {r : Except Error Unit}
    (h : BindsInTurn calls source context bs w steps r w') :
    (r = .ok () ∧ steps = allBound source bs) ∨
      ∃ before b after e, bs = before ++ b :: after ∧ r = .error e ∧
        steps = .refused b source :: allBound source before := by
  induction h with
  | none => exact .inl ⟨rfl, rfl⟩
  | @bound b bs _ _ _ _ _ _ _ ih =>
    obtain ⟨hr, rfl⟩ | ⟨before, b', after, e, rfl, hr, rfl⟩ := ih
    · exact .inl ⟨hr, by simp [allBound]⟩
    · exact .inr ⟨b :: before, b', after, e, rfl, hr, by simp [allBound]⟩
  | @refused b bs _ _ e _ => exact .inr ⟨[], b, bs, e, rfl, rfl, rfl⟩

theorem BindsInTurn.unbound_not_mem {bs : List BehaviorId} {steps : List BindStep}
    {r : Except Error Unit} (h : BindsInTurn calls source context bs w steps r w') :
    .unbound ∉ steps := by
  obtain ⟨-, rfl⟩ | ⟨before, b, after, e, -, -, rfl⟩ := h.steps
  · simp [mem_allBound]
  · simp [mem_allBound]

/-- **Binding a view**, with what becomes of its behaviors on the way. -/
inductive Binds (calls : Calls) (v : ViewId) (source : Value) (context : ContextId) (w : World) :
    List BindStep → Except Error Unit → World → Prop
  /-- The view has that source. -/
  | same {current : Value} (hs : (w.views.get v).source = some current)
    (h : current.same source = true) : Binds calls v source context w [] (.ok ()) w
  /-- The view has no source. -/
  | fresh {w' : World} {steps : List BindStep} {r : Except Error Unit}
    (hs : (w.views.get v).source = none)
    (hb : BindsInTurn calls source context (w.views.get v).behaviors
      ((w.holdingView v).withSource v source context) steps r w') :
    Binds calls v source context w steps r { w' with held := w.held }
  /-- The view has another source. -/
  | anew {current : Value} {w₁ w' : World} {steps : List BindStep} {r : Except Error Unit}
    (hs : (w.views.get v).source = some current) (h : current.same source = false)
    (hu : each unbindBehavior (w.views.get v).behaviors calls (w.holdingView v) =
      some (.ok (), w₁))
    (hb : BindsInTurn calls source context (w.views.get v).behaviors
      (w₁.withSource v source context) steps r w') :
    Binds calls v source context w (steps ++ [.unbound]) r { w' with held := w.held }

/-- What is done while the view is held on to. -/
theorem holdingView_eq_some {m : Machine Unit} {r : Except Error Unit} :
    holding [.binding v] m calls w = some (r, w') ↔
      ∃ w₁, m calls (w.holdingView v) = some (r, w₁) ∧ w' = { w₁ with held := w.held } :=
  within_eq_some

/-- A view that has no source gives itself the source and binds its behaviors. -/
theorem bindView_of_none (hs : (w.views.get v).source = none) :
    bindView v source context calls w =
      holding [.binding v] (do
        modifyView v fun s => { s with source := some source, context := some context }
        each (fun b => bindBehavior b source context) (w.views.get v).behaviors) calls w := by
  unfold bindView
  rw [bind_apply, read_apply]
  simp [hs]

/-- A view that has the source already does nothing. -/
theorem bindView_of_same {current : Value} (hs : (w.views.get v).source = some current)
    (h : current.same source = true) : bindView v source context calls w = some (.ok (), w) := by
  unfold bindView
  rw [bind_apply, read_apply]
  simp [hs, h, pure_apply]

/-- A view that has another source unbinds its behaviors first. -/
theorem bindView_of_other {current : Value} (hs : (w.views.get v).source = some current)
    (h : current.same source = false) :
    bindView v source context calls w =
      holding [.binding v] (do
        each unbindBehavior (w.views.get v).behaviors
        modifyView v fun s => { s with source := some source, context := some context }
        each (fun b => bindBehavior b source context) (w.views.get v).behaviors) calls w := by
  unfold bindView
  rw [bind_apply, read_apply]
  simp [hs, h]

/-- **This is what binding a view comes to.** -/
theorem bindView_iff [Firmly calls] {r : Except Error Unit} :
    bindView v source context calls w = some (r, w') ↔
      ∃ steps, Binds calls v source context w steps r w' := by
  constructor
  · intro h
    cases hs : (w.views.get v).source with
    | none =>
      rw [bindView_of_none hs, holdingView_eq_some] at h
      obtain ⟨w₁, h, rfl⟩ := h
      obtain ⟨steps, hb⟩ := each_bindBehavior_iff.mp h
      exact ⟨steps, .fresh hs hb⟩
    | some current =>
      cases hsame : current.same source with
      | true =>
        rw [bindView_of_same hs hsame] at h
        obtain ⟨rfl, rfl⟩ : .ok () = r ∧ w = w' := by simpa using h
        exact ⟨[], .same hs hsame⟩
      | false =>
        rw [bindView_of_other hs hsame, holdingView_eq_some] at h
        obtain ⟨w₁, h, rfl⟩ := h
        obtain ⟨e, hu, -⟩ | ⟨⟨⟩, w₂, hu, h⟩ := bind_eq_some h
        · obtain ⟨_, he⟩ := Firm.ok hu
          exact absurd he nofun
        · obtain ⟨steps, hb⟩ := each_bindBehavior_iff.mp h
          exact ⟨_, .anew hs hsame hu hb⟩
  · rintro ⟨steps, h⟩
    cases h with
    | same hs h => exact bindView_of_same hs h
    | fresh hs hb =>
      rw [bindView_of_none hs, holdingView_eq_some]
      exact ⟨_, each_bindBehavior_iff.mpr ⟨_, hb⟩, rfl⟩
    | anew hs h hu hb =>
      rw [bindView_of_other hs h, holdingView_eq_some]
      refine ⟨_, ?_, rfl⟩
      rw [bind_apply, hu]
      exact each_bindBehavior_iff.mpr ⟨_, hb⟩

end Binds

/-! ## The course of a view -/

/-- **Course.** What a view has gone through by the time of a world, the latest step first. The
view is not bound or unbound from within its own binding and unbinding, and what happens
meanwhile is whatever leaves its record alone. -/
inductive Course (v : ViewId) : List BindStep → World → Prop
  | made {w : World} (hv : v.index < w.views.size) (hs : (w.views.get v).source = none)
    (hn : (w.views.get v).behaviors.Nodup) : Course v [] w
  | bind {past steps : List BindStep} {w w' : World} {depth : Nat} {source : Value}
    {context : ContextId} {r : Except Error Unit} (h : Course v past w)
    (hb : Binds (callsSparing (· == v) depth) v source context w steps r w') :
    Course v (steps ++ past) w'
  | unbind {past : List BindStep} {w w' : World} {depth : Nat} {r : Except Error Unit}
    (h : Course v past w) (hu : unbindView v (callsSparing (· == v) depth) w = some (r, w')) :
    Course v (.unbound :: past) w'
  | meanwhile {past : List BindStep} {w w' : World} (h : Course v past w)
    (hl : w.Lasts (· == v) w') : Course v past w'

/-- **Standing.** What a view is bound to, and the steps since it was unbound: it has no source; or
all its behaviors have been bound to its source, or those before one that has refused. -/
inductive Standing (s : ViewState) : List BindStep → Prop
  | unbound (h : s.source = none) : Standing s []
  | bound {source : Value} (h : s.source = some source) :
    Standing s (allBound source s.behaviors)
  | refused {source : Value} {before after : List BehaviorId} {b : BehaviorId}
    (h : s.source = some source) (hb : s.behaviors = before ++ b :: after) :
    Standing s (.refused b source :: allBound source before)

section Records

variable {spared : ViewId → Bool} {v : ViewId} {depth : Nat} {source : Value} {context : ContextId}
  {w w' : World} {steps : List BindStep} {r : Except Error Unit}

/-- Binding behaviors leaves spared views alone. -/
theorem lasts_of_bindsInTurn {bs : List BehaviorId}
    (h : BindsInTurn (callsSparing spared depth) source context bs w steps r w') :
    w.Lasts spared w' :=
  lasts_of_agrees (m := each (fun b => bindBehavior b source context) bs) (fun _ => id)
    inferInstance (each_bindBehavior_iff.mpr ⟨steps, h⟩)

/-- So does unbinding them. -/
theorem lasts_of_unbind {bs : List BehaviorId}
    (h : each unbindBehavior bs (callsSparing spared depth) w = some (r, w')) : w.Lasts spared w' :=
  lasts_of_agrees (m := each unbindBehavior bs) (fun _ => id) inferInstance h

theorem get_views_withSource (w : World) (v : ViewId) (source : Value) (context : ContextId) :
    (w.withSource v source context).views.get v =
      { w.views.get v with source := some source, context := some context } := by
  rw [World.withSource, Store.get_modify, if_pos rfl]

theorem size_views_withSource (w : World) (v : ViewId) (source : Value) (context : ContextId) :
    w.views.size ≤ (w.withSource v source context).views.size :=
  Store.size_le_modify _ _ _

/-- The record of a view whose behaviors have been bound after it was given a source. -/
theorem view_of_bindsInTurn (hs : spared v) {bs : List BehaviorId} (hv : v.index < w.views.size)
    (h : BindsInTurn (callsSparing spared depth) source context bs (w.withSource v source context)
      steps r w') : w'.views.get v =
        { w.views.get v with source := some source, context := some context } :=
  ((lasts_of_bindsInTurn h).spared hs (Nat.lt_of_lt_of_le hv (size_views_withSource ..))).trans
    (get_views_withSource _ _ _ _)

/-- A bind that has returned leaves the view with the source, or with one that is the same. -/
theorem source_of_binds (hs : spared v) (hv : v.index < w.views.size)
    (hb : Binds (callsSparing spared depth) v source context w steps (.ok ()) w') :
    ∃ s, (w'.views.get v).source = some s ∧ (s = source ∨ s.same source = true) := by
  cases hb with
  | same hs h => exact ⟨_, hs, .inr h⟩
  | fresh _ hb =>
    have hview := view_of_bindsInTurn (w := w.holdingView v) hs hv hb
    exact ⟨source, congrArg ViewState.source hview, .inl rfl⟩
  | anew _ h hu hb =>
    have hview := view_of_bindsInTurn hs (Nat.lt_of_lt_of_le hv (lasts_of_unbind hu).size_views) hb
    exact ⟨source, congrArg ViewState.source hview, .inl rfl⟩

/-- An unbound view has no source. -/
theorem view_of_unbindView (hs : spared v) (hv : v.index < w.views.size)
    (h : unbindView v (callsSparing spared depth) w = some (r, w')) :
    v.index < w'.views.size ∧ w'.views.get v =
      { w.views.get v with source := none, context := (w'.views.get v).context } := by
  unfold unbindView at h
  rw [bind_apply, read_apply] at h
  cases hsource : (w.views.get v).source with
  | none =>
    obtain ⟨rfl, rfl⟩ : .ok () = r ∧ w = w' := by simpa [hsource, pure_apply] using h
    exact ⟨hv, by rw [← hsource]⟩
  | some current =>
    let w₁ : World := { w with
      views := w.views.modify v fun s => { s with source := none, context := none } }
    have h' : holding [.binding v] (each unbindBehavior (w.views.get v).behaviors)
        (callsSparing spared depth) w₁ = some (r, w') := by
      simp only [hsource, Option.isNone_some, Bool.false_eq_true, if_false] at h
      exact h
    obtain ⟨w₂, hu, rfl⟩ := holdingView_eq_some.mp h'
    have hl := lasts_of_unbind hu
    have hsize : v.index < w₁.views.size := Nat.lt_of_lt_of_le hv (Store.size_le_modify _ _ _)
    refine ⟨Nat.lt_of_lt_of_le hsize hl.size_views, ?_⟩
    have hview : w₂.views.get v = { w.views.get v with source := none, context := none } :=
      (hl.spared hs hsize).trans (by rw [World.holdingView, Store.get_modify, if_pos rfl])
    show w₂.views.get v = _
    rw [hview]

/-- When its behaviors have been bound in turn the view stands as the steps say. -/
theorem standing_of_bindsInTurn (hs : spared v) {bs : List BehaviorId} (hv : v.index < w.views.size)
    (hbs : bs = (w.views.get v).behaviors)
    (h : BindsInTurn (callsSparing spared depth) source context bs (w.withSource v source context)
      steps r w') : v.index < w'.views.size ∧ (w'.views.get v).behaviors = bs ∧
        Standing (w'.views.get v) steps := by
  have hview := view_of_bindsInTurn hs hv h
  refine ⟨?_, by rw [hview, hbs], ?_⟩
  · exact Nat.lt_of_lt_of_le (Nat.lt_of_lt_of_le hv (size_views_withSource ..))
      (lasts_of_bindsInTurn h).size_views
  · obtain ⟨-, rfl⟩ | ⟨before, b, after, e, hb, -, rfl⟩ := h.steps
    · rw [hbs, ← show (w'.views.get v).behaviors = (w.views.get v).behaviors by rw [hview]]
      exact .bound (by rw [hview])
    · exact .refused (by rw [hview]) (by rw [hview]; exact hbs ▸ hb)

end Records

section Course

variable {v : ViewId} {depth : Nat} {source : Value} {context : ContextId} {w w' : World}
  {past steps : List BindStep} {r : Except Error Unit}

theorem Standing.nil_of_none {s : ViewState} (h : Standing s steps) (hs : s.source = none) :
    steps = [] := by
  cases h with
  | unbound => rfl
  | bound h | refused h => exact absurd (hs.symm.trans h) nofun

/-- A run in which the view is neither bound nor unbound adds nothing to its course. -/
theorem Course.run (h : Course v past w) {c : Call} {r : Except Error c.Result}
    (hr : callsSparing (· == v) depth c w = some (r, w')) : Course v past w' :=
  h.meanwhile (lasts_of_run hr)

/-- **A view stands as its course says.** -/
theorem Course.standing (h : Course v past w) : v.index < w.views.size ∧
    (w.views.get v).behaviors.Nodup ∧ Standing (w.views.get v) (sinceUnbind past) := by
  induction h with
  | made hv hs hn => exact ⟨hv, hn, .unbound hs⟩
  | @bind past _ w _ _ source context _ _ hb ih =>
    obtain ⟨hv, hn, hst⟩ := ih
    cases hb with
    | same hs hsame => exact ⟨hv, hn, hst⟩
    | fresh hs hb =>
      obtain ⟨hv', hbs, hst'⟩ :=
        standing_of_bindsInTurn (w := w.holdingView v) (by simp) hv rfl hb
      rw [sinceUnbind_append hb.unbound_not_mem, hst.nil_of_none hs, List.append_nil]
      exact ⟨hv', hbs ▸ hn, hst'⟩
    | @anew _ w₁ _ steps _ hs hsame hu hb =>
      have hl := lasts_of_unbind hu
      have hview : w₁.views.get v = w.views.get v := hl.spared (by simp) hv
      have hv₁ : v.index < w₁.views.size := Nat.lt_of_lt_of_le hv hl.size_views
      obtain ⟨hv', hbs, hst'⟩ := standing_of_bindsInTurn (by simp) hv₁ (by rw [hview]) hb
      rw [List.append_assoc, sinceUnbind_append hb.unbound_not_mem]
      exact ⟨hv', hbs ▸ hn, by simpa [sinceUnbind] using hst'⟩
  | unbind h hu ih =>
    obtain ⟨hv, hn, -⟩ := ih
    obtain ⟨hv', hview⟩ := view_of_unbindView (by simp) hv hu
    exact ⟨hv', by rw [hview]; exact hn, .unbound (by rw [hview])⟩
  | meanwhile h hl ih =>
    obtain ⟨hv, hn, hst⟩ := ih
    have hview := hl.spared (by simp) hv
    exact ⟨Nat.lt_of_lt_of_le hv hl.size_views, hview ▸ hn, hview ▸ hst⟩

/-- Who has refused is the first behavior not to have been bound, and the source stays. -/
theorem Standing.of_refused {s : ViewState} {b : BehaviorId} (h : Standing s steps)
    (hb : .refused b source ∈ steps) : s.source = some source ∧
      ∃ before after, s.behaviors = before ++ b :: after ∧
        steps = .refused b source :: allBound source before := by
  cases h with
  | unbound => exact absurd hb List.not_mem_nil
  | bound => exact absurd hb (by simp [mem_allBound])
  | @refused source' before after b' hs hbs =>
    obtain ⟨rfl, rfl⟩ : b = b' ∧ source = source' := by simpa [mem_allBound] using hb
    exact ⟨hs, before, after, hbs, rfl⟩

/-- Unless a behavior has refused all have been bound to the source. -/
theorem Standing.all_bound {s : ViewState} (h : Standing s steps) (hs : s.source = some source)
    (hr : ∀ b source', .refused b source' ∉ steps) :
    ∀ b ∈ s.behaviors, .bound b source ∈ steps := by
  intro b hb
  cases h with
  | unbound h => exact absurd (hs.symm.trans h) nofun
  | bound h =>
    obtain rfl := Option.some.inj (hs.symm.trans h)
    exact mem_allBound.mpr ⟨b, hb, rfl⟩
  | refused => exact absurd (List.mem_cons_self ..) (hr _ _)

/-- A behavior that has refused has not been bound since. -/
theorem Standing.not_bound {s : ViewState} {b : BehaviorId} (hn : s.behaviors.Nodup)
    (h : Standing s steps) (hb : .refused b source ∈ steps) (source' : Value) :
    .bound b source' ∉ steps := by
  obtain ⟨-, before, after, hbs, rfl⟩ := h.of_refused hb
  intro hm
  obtain ⟨b', hmem, heq⟩ := mem_allBound.mp ((List.mem_cons.mp hm).resolve_left nofun)
  obtain ⟨rfl, -⟩ : b = b' ∧ source' = source := by simpa using heq
  rw [hbs] at hn
  exact (List.nodup_append.mp hn).2.2 b hmem b (List.mem_cons_self ..) rfl

/-- **A bind that returns has bound every behavior** to its source, if and only if none has refused
since the last unbind. -/
theorem bind_binds_all (hc : Course v past w)
    (h : bindView v source context (callsSparing (· == v) depth) w = some (.ok (), w')) :
    ∃ steps, Binds (callsSparing (· == v) depth) v source context w steps (.ok ()) w' ∧
      ((∀ b s, BindStep.refused b s ∉ sinceUnbind (steps ++ past)) ↔
        ∀ b ∈ (w'.views.get v).behaviors, ∃ s, (s = source ∨ s.same source = true) ∧
          BindStep.bound b s ∈ sinceUnbind (steps ++ past)) := by
  obtain ⟨steps, hb⟩ := bindView_iff.mp h
  refine ⟨steps, hb, ?_⟩
  obtain ⟨s, hs, hsame⟩ := source_of_binds (by simp) hc.standing.1 hb
  obtain ⟨-, hn, hst⟩ := (hc.bind hb).standing
  constructor
  · exact fun hnone b hmem => ⟨s, hsame, hst.all_bound hs hnone b hmem⟩
  · intro hall b source' hr
    obtain ⟨-, before, after, hbs, -⟩ := hst.of_refused hr
    obtain ⟨s', -, hm⟩ := hall b (by rw [hbs]; exact List.mem_append_right _ (List.mem_cons_self ..))
    exact hst.not_bound hn hr s' hm

/-- A view of one binding, which fails for a source that is null. -/
def cautious : World :=
  { World.empty with
    behaviors := ⟨#[⟨.binding
      { target := ⟨0⟩, aspect := .prop "title"
        binding := ⟨.cond .source .source (.fail "nothing to show"), false, false, .oneTime⟩
        observer := none, bound := none, composed := none, listener := none, signal := none
        signalNeedsQueue := true }, true⟩]⟩
    views := ⟨#[{ (default : ViewState) with behaviors := [⟨0⟩] }]⟩ }

/-- The binding refuses null, and then the view is bound to something else. -/
theorem binds_all_after_refusal : ∃ w₁ w₂ steps,
    Course ⟨0⟩ [.refused ⟨0⟩ .null] w₁ ∧
      bindView ⟨0⟩ (.bool true) ⟨0⟩ (callsSparing (· == ⟨0⟩) 3) w₁ = some (.ok (), w₂) ∧
      Binds (callsSparing (· == ⟨0⟩) 3) ⟨0⟩ (.bool true) ⟨0⟩ w₁ steps (.ok ()) w₂ ∧
      ((∀ b s, BindStep.refused b s ∉ sinceUnbind (steps ++ [.refused ⟨0⟩ .null])) ↔
        ∀ b ∈ (w₂.views.get ⟨0⟩).behaviors, ∃ s, (s = .bool true ∨ s.same (.bool true) = true) ∧
          BindStep.bound b s ∈ sinceUnbind (steps ++ [.refused ⟨0⟩ .null])) := by
  have hmade : Course ⟨0⟩ [] cautious := .made (by decide) rfl (by decide)
  have hrefused : ∃ w₁, Course ⟨0⟩ [.refused ⟨0⟩ .null] w₁ ∧
      ∃ w₂, bindView ⟨0⟩ (.bool true) ⟨0⟩ (callsSparing (· == ⟨0⟩) 3) w₁ = some (.ok (), w₂) :=
    ⟨_, @Course.bind _ _ _ _ _ 3 _ ⟨0⟩ _ hmade (.fresh rfl (.refused rfl)), _, rfl⟩
  obtain ⟨w₁, hc, w₂, h⟩ := hrefused
  obtain ⟨steps, hb, hall⟩ := bind_binds_all hc h
  exact ⟨w₁, w₂, steps, hc, h, hb, hall⟩

/-- **A view that has refused is stuck**: binding it to the source again returns at once and does
nothing, although a behavior has not been bound. -/
theorem bindView_of_refused (hc : Course v past w) {b : BehaviorId} {current : Value}
    (hr : .refused b current ∈ sinceUnbind past) (hsame : current.same source = true)
    (calls : Calls) : bindView v source context calls w = some (.ok (), w) ∧
      b ∈ (w.views.get v).behaviors ∧ ∀ s, .bound b s ∉ sinceUnbind past := by
  obtain ⟨-, hn, hst⟩ := hc.standing
  obtain ⟨hs, before, after, hb, -⟩ := hst.of_refused hr
  refine ⟨bindView_of_same hs hsame, ?_, hst.not_bound hn hr⟩
  rw [hb]
  exact List.mem_append_right _ (List.mem_cons_self ..)

end Course

end ReactiveViews
