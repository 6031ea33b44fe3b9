import ReactiveViews.Proofs.Dormancy.Unbinding
/-!
# Binding, and working while bound

A behavior is *at work* when it is bound and pinned: whatever goes on meanwhile, it stays bound, as
long as everybody is careful. So it may put back what it has taken out of its state, and the views
that it lists then are those of a behavior that is bound.
-/

namespace ReactiveViews

namespace World

/-- **At work.** -/
structure AtWork (w : World) (b : BehaviorId) : Prop where
  pinned : w.isPinned b
  bound : (w.tether b).isBound

variable {w w' : World} {b : BehaviorId}

theorem AtWork.later (h : w.AtWork b) (hr : w.Bond w') : w'.AtWork b :=
  ⟨BondBut.pinned hr h.pinned, hr.bound id h.pinned h.bound⟩

/-- **A behavior at work changes** in what it lists. A view that it has set aside may be bound still
if it is among the exceptions. -/
theorem AtWork.alter (h : w.AtWork b) (hw : w.Coherent) (X : ViewId → Prop) {f : Behavior → Behavior}
    (hb : (f (w.behavior b)).tether.isBound)
    (hc : ∀ c, (f (w.behavior b)).tether.composed = some c →
      c.isComposed = false ∨ c.needsBindOnly = true → ¬ X c.view → w.IsUnbound c.view) :
    w.Bond (w.alter b f) ∧ (w.alter b f).CoherentBut X fun _ => False := by
  refine ⟨.of_alter (.inr fun _ => hb), CoherentBut.alter hw (by simp) (fun v _ hu hv => ?_) ?_⟩
  · exact absurd (h.bound.symm.trans (hw.unbound id hu hv)) nofun
  · intro v hx hi
    have hn : (f (w.behavior b)).tether.isBound ≠ false := by simp [hb]
    cases hi with
    | composed hc' hi => exact hc _ hc' (hi.imp_right fun hi => hi.resolve_right hn) hx
    | listed _ hi => exact absurd hi hn

/-- A binding at work remembers another composed view, or none. -/
theorem AtWork.recompose (h : w.AtWork b) (hw : w.Coherent) (X : ViewId → Prop)
    (composed : Option Composed)
    (hc : ∀ c, composed = some c → c.isComposed = false ∨ c.needsBindOnly = true → ¬ X c.view →
      w.IsUnbound c.view) :
    w.Bond (w.alter b (.onBinding fun s => { s with composed })) ∧
      (w.alter b (.onBinding fun s => { s with composed })).CoherentBut X fun _ => False := by
  have hf := Behavior.tether_recomposed composed (w.behavior b)
  refine h.alter hw X ?_ fun c hc' hi hx => ?_
  · rcases hf with hf | hf <;> rw [hf] <;> exact h.bound
  · rcases hf with hf | hf
    · rw [hf] at hc'
      exact hc c hc' hi hx
    · rw [hf] at hc'
      exact hw.idle id (.composed hc' (hi.imp_right .inl))

theorem behavior_alter (w : World) (b : BehaviorId) (f : Behavior → Behavior) :
    (w.alter b f).behavior b = f (w.behavior b) := by
  have hg : (w.alter b f).behaviors.get b = { w.behaviors.get b with behavior := f (w.behavior b) } :=
    (w.behaviors.get_modify b b _).trans (if_pos rfl)
  unfold World.behavior
  rw [hg]
  rfl

/-- **A behavior is bound again**, if its view is. What it has set aside stays unbound. -/
theorem Released.bind {w₁ : World} (h : Released b (fun _ => False) w w₁) (hw : w.Coherent)
    (hp : w.isPinned b) (hs : ∀ v, b ∈ (w.views.get v).behaviors → ¬ w.IsUnbound v)
    {f : Behavior → Behavior}
    (hf : (f (w₁.behavior b)).tether = { w₁.tether b with isBound := true } ∨
      (f (w₁.behavior b)).tether = w₁.tether b) :
    BondBut (· = b) w (w₁.alter b f) ∧ (w₁.alter b f).Coherent := by
  have hw₁ : w₁.Coherent := (h.coherent hw).mono (by simp) fun _ => id
  refine ⟨h.toBondBut.trans (.of_alter (.inl rfl)), CoherentBut.alter hw₁ (fun _ => id)
    (fun v _ hu hv => ?_) fun v _ hi => ?_⟩
  · -- The behavior is pinned, so nobody has unbound its view meanwhile.
    have hv : b ∈ (w.views.get v).behaviors := h.lists v ▸ hv
    exact absurd hu (h.source hv hp (hs v hv))
  · rcases hf with hf | hf
    · rw [hf] at hi
      cases hi with
      | composed hc hi =>
        have hi := hi.imp_right fun hi => hi.resolve_right nofun
        exact hw₁.idle id (.composed hc (hi.imp_right .inl))
      | listed _ hn => exact absurd hn nofun
    · exact hw₁.idle id (hf ▸ hi)

end World

namespace Setting

open Machine World

variable {S : Setting dormancy} {b : BehaviorId} {w : World}

/-! ## Composed views -/

theorem setComposed_agreesAt (hw : w.Coherent) (ha : w.AtWork b) {composed : Option Composed}
    (hc : ∀ c, composed = some c → c.isComposed = false ∨ c.needsBindOnly = true →
      w.IsUnbound c.view) : S.AgreesAt (setComposed b composed) w :=
  Leads.of_eq (fun calls => modifyBinding_apply b _ calls w)
    (ha.recompose hw _ composed fun c h hi _ => hc c h hi)

theorem compose_leads (hw : w.Coherent) (c : Composed) (target : NodeId) (source : Value)
    (context : ContextId) :
    S.Leads (compose c target source context) w fun r w' => (w.Bond w' ∧ w'.Coherent) ∧
      ∀ c' outcome, r = .ok (c', outcome) → c'.isComposed = true ∧ c'.needsBindOnly = false := by
  have hbind : S.Agrees (attempt (Machine.call (.bindView c.view source context))) := inferInstance
  unfold compose
  split
  · have hinsert : S.AgreesAt (insertViewBefore c.view target) w := Agrees.agreesAt hw
    refine Leads.bind hinsert (fun _ _ h => ⟨h, nofun⟩) fun _ w₁ h₁ => ?_
    refine Leads.bind (hbind.agreesAt h₁.2) (fun _ _ h => ⟨⟨BondBut.trans h₁.1 h.1, h.2⟩, nofun⟩)
      fun outcome w₂ h₂ => ?_
    refine .of_eq (fun _ => rfl) ⟨⟨BondBut.trans h₁.1 h₂.1, h₂.2⟩, ?_⟩
    rintro c' _ ⟨⟩
    exact ⟨rfl, rfl⟩
  · next hc =>
    have hc : c.isComposed = true := by simpa using hc
    split
    · refine Leads.bind (hbind.agreesAt hw) (fun _ _ h => ⟨h, nofun⟩) fun outcome w₁ h₁ => ?_
      refine .of_eq (fun _ => rfl) ⟨h₁, ?_⟩
      rintro c' _ ⟨⟩
      exact ⟨hc, rfl⟩
    · next hn =>
      refine .of_eq (fun _ => rfl) ⟨⟨.refl w, hw⟩, ?_⟩
      rintro c' _ ⟨⟩
      exact ⟨hc, Bool.eq_false_iff.mpr hn⟩

/-- The view that was composed is set aside at once, and unbound a little later. -/
theorem withdrawComposed_agreesAt (hw : w.Coherent) (ha : w.AtWork b) {composed : Option Composed}
    (hc : (w.tether b).composed = composed) : S.AgreesAt (withdrawComposed b composed) w := by
  unfold withdrawComposed
  split
  · next c =>
    split
    · -- The view is still bound when it is set aside, so for a moment it is an exception.
      obtain ⟨hr₁, hw₁⟩ := ha.recompose hw (· = c.view)
        (some { c with isComposed := false }) (by rintro _ ⟨⟩ _ hx; exact absurd rfl hx)
      refine .step (fun calls => modifyBinding_apply b _ calls w) (.still fun _ w₂ ha₂ => ?_)
      have hr₂ := BondBut.trans hr₁ ha₂.bond
      have hw₂ := hw₁.alike ha₂
      split
      · next hn =>
        have hu : w₂.IsUnbound c.view := by
          rw [World.IsUnbound, ha₂.views]
          exact hw.idle id (.composed hc (.inr (.inl hn)))
        have hw₂ : w₂.Coherent := hw₂.of_unbound fun v hv => .inr (hv ▸ hu)
        exact (setComposed_agreesAt hw₂ (ha.later hr₂) (by rintro _ ⟨⟩ _; exact hu)).since hr₂
      · refine (call_unbindView_leads c.view w₂).mono fun r w₃ h₃ => ?_
        obtain ⟨-, hu, hv⟩ := h₃
        exact ⟨BondBut.trans hr₂ hu.toBondBut, (hu.coherent hw₂).of_unbound fun v h =>
          h.elim (fun h => .inr (h ▸ hv)) False.elim⟩
    · exact Agrees.agreesAt hw
  · exact Agrees.agreesAt hw

theorem updateContent_agreesAt (hw : w.Coherent) (ha : w.AtWork b) {s : BindingState}
    (hs : w.behavior b = .binding s) (value source : Value) (context : ContextId) :
    S.AgreesAt (updateContent b s value source context) w := by
  have htext : ∀ text, S.Agrees (mutate (.text s.target text)) :=
    fun text => agrees_shows (.text s.target text) trivial
  unfold updateContent
  split
  · next t =>
    refine ((htext "").agreesAt hw).chain fun _ w₁ hr₁ hw₁ => ?_
    have ha₁ := ha.later hr₁
    refine (setComposed_agreesAt hw₁ ha₁ (by simp)).chain fun _ w₂ hr₂ hw₂ => ?_
    have ha₂ := ha₁.later hr₂
    refine AgreesAt.chain (Agrees.agreesAt hw₂) fun c w₃ hr₃ hw₃ => ?_
    have ha₃ := ha₂.later hr₃
    refine (compose_leads hw₃ c s.target source context).bind (fun _ _ h => h.1) ?_
    rintro ⟨c', outcome⟩ w₄ ⟨⟨hr₄, hw₄⟩, hc⟩
    obtain ⟨hcomposed, hbound⟩ := hc c' outcome rfl
    have hset : S.AgreesAt (setComposed b (some c')) w₄ := by
      refine setComposed_agreesAt hw₄ (ha₃.later hr₄) fun c hc hi => ?_
      obtain rfl := Option.some.inj hc
      rw [hcomposed, hbound] at hi
      exact absurd hi (by simp)
    exact (hset.bind fun _ w₅ hw₅ => Agrees.agreesAt hw₅).since hr₄
  · have hc : (w.tether b).composed = s.composed := by rw [World.tether, hs]; rfl
    exact (withdrawComposed_agreesAt hw ha hc).bind fun _ w₁ hw₁ => Agrees.agreesAt hw₁

/-! ## What a behavior does while at work -/

theorem applyBinding_agreesAt (hw : w.Coherent) (ha : w.AtWork b) (value source : Value)
    (context : ContextId) : S.AgreesAt (applyBinding b value source context) w := by
  unfold applyBinding
  refine .get ?_
  split
  · exact Agrees.agreesAt hw
  · next s hs =>
    have hs := behavior_of_bindingState? hs
    split
    · exact updateContent_agreesAt hw ha hs value source context
    · next name he => exact (agrees_shows (.attr _ name _) trivial).agreesAt hw
    · next name he => exact (agrees_shows (.flag _ name _) trivial).agreesAt hw
    · next name he => exact (agrees_shows (.prop _ name _) trivial).agreesAt hw
    · exact Agrees.agreesAt hw

theorem evaluateUntracked_agreesAt (hw : w.Coherent) (ha : w.AtWork b) (binding : Binding)
    (source : Value) (context : ContextId) :
    S.AgreesAt (evaluateUntracked b binding source context) w := by
  unfold evaluateUntracked
  exact AgreesAt.chain (Agrees.agreesAt hw) fun value w₁ hr₁ hw₁ =>
    applyBinding_agreesAt hw₁ (ha.later hr₁) value source context

/-- A behavior that is pinned and is bound to something is at work. -/
theorem atWork_of_binding {s : BindingState} (hp : w.isPinned b) (hs : w.bindingState? b = some s)
    {bound : Bound} (hb : s.bound = some bound) : w.AtWork b :=
  ⟨hp, by rw [World.tether, behavior_of_bindingState? hs, Behavior.tether, hb]; rfl⟩

theorem atWork_of_repeat {s : RepeatState} (hp : w.isPinned b) (hs : w.repeatState? b = some s)
    {bound : RepeatBound} (hb : s.bound = some bound) : w.AtWork b :=
  ⟨hp, by rw [World.tether, behavior_of_repeatState? hs, Behavior.tether, hb]; rfl⟩

theorem refreshBinding_agreesAt (hw : w.Coherent) (hp : w.isPinned b) :
    S.AgreesAt (refreshBinding b) w := by
  unfold refreshBinding
  refine .get ?_
  split
  · exact Agrees.agreesAt hw
  · next s hs =>
    split
    · exact Agrees.agreesAt hw
    · next bound hb =>
      have ha := atWork_of_binding hp hs hb
      refine (bindingObserver_leads hw (behavior_of_bindingState? hs) (.inr trivial)).bind
        (fun _ _ h => ⟨h.1, h.2.1⟩) fun o w₁ h₁ => ?_
      refine AgreesAt.since h₁.1 (AgreesAt.chain (Agrees.agreesAt h₁.2.1) fun value w₂ hr₂ hw₂ => ?_)
      exact applyBinding_agreesAt hw₂ ((ha.later h₁.1).later hr₂) value _ _

theorem updateAfterSignal_agreesAt (hw : w.Coherent) (hp : w.isPinned b) :
    S.AgreesAt (updateAfterSignal b) w := by
  unfold updateAfterSignal
  refine .get ?_
  split
  · exact Agrees.agreesAt hw
  · next s hs =>
    refine AgreesAt.chain (Agrees.agreesAt hw) fun _ w₁ hr₁ hw₁ => ?_
    split
    · exact Agrees.agreesAt hw₁
    · next bound hb =>
      exact evaluateUntracked_agreesAt hw₁ ((atWork_of_binding hp hs hb).later hr₁) _ _ _

/-- A repeat at work lists other views. -/
theorem relist_agreesAt (hw : w.Coherent) (ha : w.AtWork b) (views : List ViewId) :
    S.AgreesAt (modifyRepeat b fun s => { s with views }) w := by
  have hf : ((w.behavior b).onRepeat fun s => { s with views }).tether.isBound =
      (w.tether b).isBound ∧ ((w.behavior b).onRepeat fun s => { s with views }).tether.composed =
      (w.tether b).composed := by
    rw [World.tether]
    cases w.behavior b <;> exact ⟨rfl, rfl⟩
  refine Leads.of_eq (fun calls => modifyRepeat_apply b _ calls w)
    (ha.alter hw _ (hf.1.trans ha.bound) fun c hc hi _ => ?_)
  exact hw.idle id (.composed (hf.2 ▸ hc) (hi.imp_right .inl))

theorem takeViews_agreesAt (hw : w.Coherent) (ha : w.AtWork b) : S.AgreesAt (takeViews b) w := by
  unfold takeViews
  exact .read ((relist_agreesAt hw ha []).bind fun _ _ hw₁ => Agrees.agreesAt hw₁)

theorem refreshAllViews_agreesAt (hw : w.Coherent) (hp : w.isPinned b) (templateChanged : Bool) :
    S.AgreesAt (refreshAllViews b templateChanged) w := by
  unfold refreshAllViews
  refine .get ?_
  split
  · exact Agrees.agreesAt hw
  · next s hs =>
    split
    · exact Agrees.agreesAt hw
    · next bound hb =>
      have ha := atWork_of_repeat hp hs hb
      have hlt := lt_of_repeated (behavior_of_repeatState? hs)
      refine (skipPending_agreesAt hw hlt (takes_splices hs) s).chain fun _ w₁ hr₁ hw₁ => ?_
      have ha₁ := ha.later hr₁
      refine (takeViews_agreesAt hw₁ ha₁).chain fun views w₂ hr₂ hw₂ => ?_
      refine AgreesAt.chain (Agrees.agreesAt hw₂) fun rebuilt w₃ hr₃ hw₃ => ?_
      have ha₃ := (ha₁.later hr₂).later hr₃
      exact (relist_agreesAt hw₃ ha₃ rebuilt.1).bind fun _ _ hw₄ => Agrees.agreesAt hw₄

theorem updateViews_agreesAt (hw : w.Coherent) (hp : w.isPinned b) (splices : List Splice) :
    S.AgreesAt (updateViews b splices) w := by
  unfold updateViews
  refine .get ?_
  split
  · exact Agrees.agreesAt hw
  · next s hs =>
    split
    · next template bound _ hb =>
      have ha := atWork_of_repeat hp hs hb
      extract_lets length
      refine (takeViews_agreesAt hw ha).chain fun views w₁ hr₁ hw₁ => ?_
      refine AgreesAt.chain (Agrees.agreesAt hw₁) fun applied w₂ hr₂ hw₂ => ?_
      split
      refine AgreesAt.chain (Agrees.agreesAt hw₂) fun _ w₃ hr₃ hw₃ => ?_
      have ha₃ := ((ha.later hr₁).later hr₂).later hr₃
      extract_lets put
      have hput : ∀ u w', w₃.Bond w' → w'.Coherent → S.AgreesAt (put u) w' := fun _ _ hr hw' =>
        (relist_agreesAt hw' (ha₃.later hr) _).bind fun _ _ hw₄ => Agrees.agreesAt hw₄
      split
      · exact AgreesAt.chain (Agrees.agreesAt hw₃) fun u w₄ hr₄ hw₄ => hput u w₄ hr₄ hw₄
      · exact hput () w₃ (.refl w₃) hw₃
    · exact Agrees.agreesAt hw

theorem itemsChanged_agreesAt (hw : w.Coherent) (hp : w.isPinned b) :
    S.AgreesAt (itemsChanged b) w := by
  unfold itemsChanged
  refine .get ?_
  split
  · exact Agrees.agreesAt hw
  · next s hs =>
    split
    · exact Agrees.agreesAt hw
    · refine (observeItems_agreesAt hw (light_of_repeated hw hs).1 _ _).chain fun items w₁ hr₁ hw₁ => ?_
      refine AgreesAt.chain (Agrees.agreesAt hw₁) fun _ w₂ hr₂ hw₂ => ?_
      refine AgreesAt.chain (Agrees.agreesAt hw₂) fun _ w₃ hr₃ hw₃ => ?_
      exact refreshAllViews_agreesAt hw₃ (hr₃.pinned (hr₂.pinned (hr₁.pinned hp))) false

theorem templateChanged_agreesAt (hw : w.Coherent) (hp : w.isPinned b) :
    S.AgreesAt (templateChanged b) w := by
  unfold templateChanged
  refine .get ?_
  split
  · exact Agrees.agreesAt hw
  · next s hs =>
    split
    · exact Agrees.agreesAt hw
    · refine (observeTemplate_agreesAt hw (light_of_repeated hw hs).2 _ _).chain
        fun template w₁ hr₁ hw₁ => ?_
      refine AgreesAt.chain (Agrees.agreesAt hw₁) fun _ w₂ hr₂ hw₂ => ?_
      exact refreshAllViews_agreesAt hw₂ (hr₂.pinned (hr₁.pinned hp)) true

/-- A behavior is pinned while it is called back. -/
theorem reactOwned_agrees {m : Machine Unit}
    (hm : ∀ w : World, w.Coherent → w.isPinned b → S.AgreesAt m w) : S.Agrees (reactOwned b m) := by
  unfold reactOwned
  refine .get fun w hw => ?_
  split
  · have hs : Scope untethered w
        (fun w => { w with held := [.subscriber (.behavior b)] ++ w.held })
        (fun before after => { after with held := before.held }) :=
      .hold _ (by simp) (by simp) (by simp)
    refine .scoped hs hw (hm _ (dormancy.enter hs hw) ?_)
    exact isPinned_iff.mpr ⟨_, List.mem_cons_self .., beq_self_eq_true b⟩
  · exact Agrees.agreesAt hw

/-- A behavior that is told of something is pinned. -/
theorem behaviorChanged_agreesAt (hw : w.Coherent) (hp : w.isPinned b) (change : Change) :
    S.AgreesAt (behaviorChanged b change) w := by
  unfold behaviorChanged
  refine .get ?_
  split
  · next s hs => exact signalArrived_agreesAt hw (lt_of_binding hs) (.inr trivial) s
  · refine (updateViews_agreesAt hw hp _).attempt.bind fun outcome w₁ hw₁ => ?_
    split
    · exact Agrees.agreesAt hw₁
    · exact Agrees.agreesAt hw₁
  · exact Agrees.agreesAt hw

instance : S.Responsive where
  refresh _ hw _ := (reactOwned_agrees fun _ => refreshBinding_agreesAt).agreesAt hw
  items _ := reactOwned_agrees fun _ => itemsChanged_agreesAt
  template _ := reactOwned_agrees fun _ => templateChanged_agreesAt

/-! ## Binding -/

/-- What is done from a world that has been reached by binding one behavior. -/
theorem bound_leads {α : Type} {m : Machine α} {w₁ : World} (hr : BondBut (· = b) w w₁)
    (hm : S.AgreesAt m w₁) : S.Leads m w₁ fun _ w' => BondBut (· = b) w w' ∧ w'.Coherent :=
  hm.mono fun _ _ h => ⟨hr.trans (h.1.mono (by simp)), h.2⟩

theorem bindBinding_leads (hw : w.Coherent) (hp : w.isPinned b)
    (hv : ∀ v, b ∈ (w.views.get v).behaviors → ¬ w.IsUnbound v) {s : BindingState}
    (hs : w.behavior b = .binding s) (source : Value) (context : ContextId) :
    S.Leads (bindBinding b source context) w fun _ w' =>
      BondBut (· = b) w w' ∧ w'.Coherent := by
  unfold bindBinding
  refine (unbindBinding_leads hs).bind (by simp) fun _ w₁ h₁ => ?_
  have hf : ∀ x : Behavior, (x.onBinding fun s => { s with bound := some ⟨source, context⟩ }).tether =
      { x.tether with isBound := true } ∨
        (x.onBinding fun s => { s with bound := some ⟨source, context⟩ }).tether = x.tether := by
    intro x
    cases x with
    | binding s => exact .inl rfl
    | handler s | repeated s | probe s => exact .inr rfl
  obtain ⟨hr₂, hw₂⟩ := h₁.2.bind hw hp hv (hf _)
  refine .step (fun calls => modifyBinding_apply b _ calls w₁) (.get ?_)
  have hp₂ := hr₂.pinned hp
  split
  · exact .of_eq (fun _ => rfl) ⟨hr₂, hw₂⟩
  · next s₂ hs₂ =>
    have hbound : ∃ bound, s₂.bound = some bound := by
      have hb := behavior_of_bindingState? hs₂
      rw [behavior_alter] at hb
      cases hx : w₁.behavior b with
      | binding s₁ =>
        rw [hx] at hb
        cases hb
        exact ⟨_, rfl⟩
      | handler | repeated | probe =>
        rw [hx] at hb
        cases hb
    have ha := atWork_of_binding hp₂ hs₂ hbound.choose_spec
    have hlt := lt_of_binding (behavior_of_bindingState? hs₂)
    refine bound_leads hr₂ ?_
    split
    · exact evaluateUntracked_agreesAt hw₂ ha _ _ _
    · exact refreshBinding_agreesAt hw₂ hp₂
    · exact (refreshBinding_agreesAt hw₂ hp₂).bind fun _ _ hw₃ => Agrees.agreesAt hw₃
    · refine (evaluateUntracked_agreesAt hw₂ ha _ _ _).chain fun _ w₃ hr₃ hw₃ => ?_
      refine AgreesAt.chain (Agrees.agreesAt hw₃) fun n w₄ hr₄ hw₄ => ?_
      have hlt₄ := Nat.lt_of_lt_of_le hlt (BondBut.trans hr₃ hr₄).size
      exact (subscribe_agreesAt hw₄ hlt₄ n (.inr trivial)).bind fun _ _ hw₅ => Agrees.agreesAt hw₅

theorem bindHandler_leads (hw : w.Coherent) (hp : w.isPinned b)
    (hv : ∀ v, b ∈ (w.views.get v).behaviors → ¬ w.IsUnbound v) {s : HandlerState}
    (hs : w.behavior b = .handler s) (source : Value) (context : ContextId) :
    S.Leads (bindHandler b source context) w fun _ w' =>
      BondBut (· = b) w w' ∧ w'.Coherent := by
  unfold bindHandler
  refine (unbindHandler_leads hs).bind (by simp) fun _ w₁ h₁ => ?_
  have hf : ∀ x : Behavior, (x.onHandler fun s => { s with bound := some ⟨source, context⟩ }).tether =
      { x.tether with isBound := true } ∨
        (x.onHandler fun s => { s with bound := some ⟨source, context⟩ }).tether = x.tether := by
    intro x
    cases x with
    | handler s => exact .inl rfl
    | binding s | repeated s | probe s => exact .inr rfl
  obtain ⟨hr₂, hw₂⟩ := h₁.2.bind hw hp hv (hf _)
  refine .step (fun calls => modifyHandler_apply b _ calls w₁) (.get ?_)
  split
  · exact .of_eq (fun _ => rfl) ⟨hr₂, hw₂⟩
  · exact bound_leads hr₂ (Agrees.agreesAt hw₂)

theorem bindRepeat_leads (hw : w.Coherent) (hp : w.isPinned b)
    (hv : ∀ v, b ∈ (w.views.get v).behaviors → ¬ w.IsUnbound v) {s : RepeatState}
    (hs : w.behavior b = .repeated s) (source : Value) (context : ContextId) :
    S.Leads (bindRepeat b source context) w fun _ w' =>
      BondBut (· = b) w w' ∧ w'.Coherent := by
  unfold bindRepeat
  refine (unbindRepeat_leads hs).bind (by simp) fun _ w₁ h₁ => ?_
  refine .still fun childContext w₂ ha₂ => ?_
  have hf : ∀ x : Behavior,
      (x.onRepeat fun s => { s with bound := some ⟨source, context, childContext⟩ }).tether =
        { x.tether with isBound := true } ∨
      (x.onRepeat fun s => { s with bound := some ⟨source, context, childContext⟩ }).tether =
        x.tether := by
    intro x
    cases x with
    | repeated s => exact .inl rfl
    | binding s | handler s | probe s => exact .inr rfl
  obtain ⟨hr₃, hw₃⟩ := (h₁.2.alike ha₂).bind hw hp hv (hf _)
  refine .step (fun calls => modifyRepeat_apply b _ calls w₂) (.get ?_)
  split
  · exact .of_eq (fun _ => rfl) ⟨hr₃, hw₃⟩
  · next s₃ hs₃ =>
    have hp₃ := hr₃.pinned hp
    have hl := Regime.Open.light dormancy
    refine bound_leads hr₃ ?_
    refine (observeItems_agreesAt hw₃ (hl _ _) _ _).chain fun items w₄ hr₄ hw₄ => ?_
    refine (observeTemplate_agreesAt hw₄ (hl _ _) _ _).chain fun template w₅ hr₅ hw₅ => ?_
    refine AgreesAt.chain (Agrees.agreesAt hw₅) fun _ w₆ hr₆ hw₆ => ?_
    refine AgreesAt.chain (Agrees.agreesAt hw₆) fun _ w₇ hr₇ hw₇ => ?_
    have hr := ((hr₄.trans hr₅).trans hr₆).trans hr₇
    exact refreshAllViews_agreesAt hw₇ (hr.pinned hp₃) false

/-- **Binding a behavior** of a view that is bound. No other pinned behavior stops being bound. -/
theorem bindBehavior_leads (hw : w.Coherent) (hp : w.isPinned b)
    (hv : ∀ v, b ∈ (w.views.get v).behaviors → ¬ w.IsUnbound v) (source : Value)
    (context : ContextId) :
    S.Leads (bindBehavior b source context) w fun _ w' =>
      BondBut (· = b) w w' ∧ w'.Coherent := by
  unfold bindBehavior
  refine .get ?_
  split
  · next s hs => exact bindBinding_leads hw hp hv hs source context
  · next s hs => exact bindHandler_leads hw hp hv hs source context
  · next s hs => exact bindRepeat_leads hw hp hv hs source context
  · exact bound_leads (.refl w) (Agrees.agreesAt hw)

/-- The behaviors of a view that is bound and held on to are bound in order. -/
theorem bindBehaviors_leads {v : ViewId} (source : Value) (context : ContextId) {bs : List BehaviorId}
    (hb : ∀ b ∈ bs, b ∈ (w.views.get v).behaviors) (hh : .binding v ∈ w.held) (hw : w.Coherent)
    (hv : ¬ w.IsUnbound v) :
    S.Leads (each (fun b => bindBehavior b source context) bs) w fun _ w' =>
      BondBut (· ∈ bs) w w' ∧ w'.Coherent := by
  induction bs generalizing w with
  | nil => exact .of_eq (fun _ => rfl) ⟨.refl w, hw⟩
  | cons b bs ih =>
    obtain ⟨hb, hbs⟩ := List.forall_mem_cons.mp hb
    have hp : w.isPinned b := isPinned_iff.mpr ⟨_, hh, List.contains_iff_mem.mpr hb⟩
    have hviews : ∀ u, b ∈ (w.views.get u).behaviors → ¬ w.IsUnbound u := fun u hu =>
      hw.unique hb hu ▸ hv
    unfold each
    refine (bindBehavior_leads hw hp hviews source context).bind (fun _ _ h => ?_) fun _ w₁ h₁ => ?_
    · exact ⟨h.1.mono fun _ he => he ▸ List.mem_cons_self .., h.2⟩
    obtain ⟨hr₁, hw₁⟩ := h₁
    have hrest := ih (fun b hb => hr₁.behaviors (hbs b hb)) (hr₁.held ▸ hh) hw₁ (hr₁.source hb hp hv)
    refine hrest.mono fun _ w' h' => ⟨?_, h'.2⟩
    exact (hr₁.mono fun _ he => he ▸ List.mem_cons_self ..).trans
      (h'.1.mono fun _ => List.mem_cons_of_mem _)

/-- What is done with a view held on to whose behaviors are not pinned yet. -/
theorem AgreesAt.of_inner {α : Type} {m : Machine α} {v : ViewId} {bs : List BehaviorId}
    (hfree : ∀ b ∈ bs, w.isPinned b = false)
    (hm : S.Leads m { w with held := [.binding v] ++ w.held } fun _ w' =>
      BondBut (· ∈ bs) { w with held := [.binding v] ++ w.held } w' ∧ w'.Coherent) :
    S.AgreesAt (holding [.binding v] m) w := by
  refine (Leads.within hm).mono ?_
  rintro _ _ ⟨w₁, rfl, hr, hw₁⟩
  have hr := hr.leave
  refine ⟨{ hr with bound := fun _ hp => hr.bound (fun hb => ?_) hp },
    CoherentBut.of_eq hw₁ rfl rfl⟩
  exact absurd (hp.symm.trans (hfree _ hb)) nofun

/-- A view that nobody lists is bound to a source, and then its behaviors are. -/
theorem connect_leads {v : ViewId} {bs : List BehaviorId} (source : Value) (context : ContextId)
    (hb : ∀ b ∈ bs, b ∈ (w.views.get v).behaviors) (hh : .binding v ∈ w.held) (hw : w.Coherent)
    (hn : ∀ b, v ∉ (w.tether b).nested) :
    S.Leads (do
      modifyView v fun s => { s with source := some source, context := some context }
      each (fun b => bindBehavior b source context) bs) w fun _ w' =>
        BondBut (· ∈ bs) w w' ∧ w'.Coherent := by
  let bound := w.rebound v (some source) (some context)
  have hl : ∀ u, (bound.views.get u).behaviors = (w.views.get u).behaviors :=
    behaviors_rebound w v _ _
  have hv : ∀ u, bound.IsUnbound u → v ≠ u ∧ w.IsUnbound u := by
    intro u hu
    have hu := (isUnbound_rebound ..).mp hu
    split at hu
    · exact absurd hu nofun
    · next h => exact ⟨h, hu⟩
  have hr : BondBut (· ∈ bs) w bound :=
    ⟨Nat.le_refl _, rfl, fun hb => (hl _).symm ▸ hb, fun _ _ hb => hb,
      fun _ _ hu hu' => hu (hv _ hu').2⟩
  refine .step (fun calls => modifyView_apply v (some source) (some context) calls w) ?_
  have hrest := bindBehaviors_leads (S := S) (w := bound) source context
    (fun b h => (hl v).symm ▸ hb b h) hh (CoherentBut.bind hw hn source (some context))
    fun h => (hv v h).1 rfl
  exact hrest.mono fun _ w' h => ⟨hr.trans h.1, h.2⟩

/-- **Binding a view** while none of its behaviors is pinned. -/
theorem bindView_agreesAt {v : ViewId} {source : Value} {context : ContextId} (hw : w.Coherent)
    (ha : careful (.bindView v source context) w) : S.AgreesAt (bindView v source context) w := by
  obtain ⟨hfree, hlisted⟩ : (∀ b ∈ (w.views.get v).behaviors, w.isPinned b = false) ∧
      w.isListed v = false := by
    have ha : ((w.views.get v).behaviors.all (!w.isPinned ·) && !w.isListed v) = true := ha
    simpa using ha
  unfold bindView
  refine .read ?_
  extract_lets isSame connect
  split
  · exact Agrees.agreesAt hw
  refine AgreesAt.of_inner hfree ?_
  have hw₁ : ({ w with held := [.binding v] ++ w.held } : World).Coherent :=
    CoherentBut.of_eq hw rfl rfl
  split
  · refine (unbindBehaviors_leads _ _).bind (by simp) fun u w₂ h₂ => ?_
    obtain ⟨-, hu, -⟩ := h₂
    have hw₂ : w₂.Coherent := (hu.coherent hw₁).mono (by simp) fun _ => id
    refine (connect_leads source context ?_ ?_ hw₂ ?_).mono fun _ w' h => ?_
    · exact fun b hb => hu.behaviors hb
    · exact hu.held ▸ List.mem_cons_self ..
    · exact fun b hb => not_mem_nested hlisted b (hu.nested hb)
    · exact ⟨hu.toBondBut.trans h.1, h.2⟩
  · exact connect_leads source context (fun _ => id) (List.mem_cons_self ..) hw₁
      (not_mem_nested hlisted)

end Setting

end ReactiveViews
