import ReactiveViews.Proofs.Positions.Holding
/-!
# In good hands

Everything the machine does leaves alone what is free, and keeps sole what repeats hold
(`custody`). To bind a view one has to know that no repeat lists it. Whoever has found it under a
handle, or remembers having composed it, or has just made it, knows (`World.InHand`).
-/

namespace ReactiveViews

open Machine World

/-- What holds when a call is made. -/
def custodyEntry : Call → World → Prop
  | .bindView v _ _, w => w.Sole ∧ w.Unplaced (.view v)
  | _, w => w.Sole

/-- What holds of a call that has ended. A free view that is bound or unbound is bound to what was asked
for: nobody else has interfered. -/
def custodyExit : (c : Call) → World → Except Error c.Result → World → Prop
  | .bindView v _ context, w, _, w' => w'.Sole ∧ w.LeavesBut (· = v) w' ∧
    (w.Free (.view v) → (w.views.get v).source = none → (w'.views.get v).context = some context)
  | .unbindView v, w, _, w' => w'.Sole ∧ w.LeavesBut (· = v) w' ∧
    (w.Free (.view v) → (w'.views.get v).source = none ∧
      ((w'.views.get v).context = none ∨ (w'.views.get v).context = (w.views.get v).context))
  | _, w, _, w' => w.Leaves w' ∧ w'.Sole

/-- What anybody may do without asking whose something is. -/
def innocent : Subject → Prop
  | .lists _ | .view _ => False
  | _ => True

theorem World.EasesBut.custody {w w' : World} (h : w.EasesBut (fun _ => False) w') (hw : w.Sole) :
    w.Leaves w' ∧ w'.Sole :=
  ⟨h.leaves, h.sole hw⟩

/-- **The regime of custody.** -/
def custody : Regime where
  allowed _ _ := true
  Mild := innocent
  Inv := World.Sole
  Rel := World.Leaves
  Entry := custodyEntry
  Exit := custodyExit
  refl := LeavesBut.refl
  trans := LeavesBut.trans
  entry {c w} _ hv hw := by
    cases c with
    | bindView | unbindView => exact absurd hv (by simp [Call.view?])
    | _ => exact hw
  exit {c w w' r} _ hv _ he := by
    cases c with
    | bindView | unbindView => exact absurd hv (by simp [Call.view?])
    | _ => exact he
  change hw hc := (EasesBut.of_change (fun _ => id) (fun _ => id) hc).custody hw
  enter {enter _ w} hs hw := by
    have he : w.EasesBut (fun _ => False) (enter w) := by cases hs <;> exact .of_eq rfl rfl rfl rfl
    exact he.sole hw
  leave {enter leave w w'} hs _ hr hi := by
    have hin : w.EasesBut (fun _ => False) (enter w) := by cases hs <;> exact .of_eq rfl rfl rfl rfl
    have hout : w'.EasesBut (fun _ => False) (leave w w') := by
      cases hs <;> exact .of_eq rfl rfl rfl rfl
    exact ⟨(hin.leaves.trans hr).trans hout.leaves, hout.sole hi⟩
  grown hr := hr.lasts.size_behaviors
  light _ _ := .inr fun _ => trivial
  takes _ _ := .inr trivial
  calledBack _ _ := .inr trivial
  watcher _ _ := .inr fun _ => trivial
  behaviors _ _ _ := trivial
  observers _ _ _ := .inr fun _ => trivial
  aspects _ _ _ := trivial

instance (name : String) : custody.Slight (.listener name) := ⟨trivial⟩

instance (b : BehaviorId) : custody.Slight (.tether b) := ⟨trivial⟩

instance : custody.Uniform where
  tickets := trivial
  behavior _ := trivial
  aspect _ _ := trivial
  setup hw hc := (EasesBut.of_setup hc).custody hw
  cues := trivial
  deliver hw _ := hw
  delivered _ h := h
  write hw hc := (EasesBut.of_write hc).custody hw
  flush {c _} hc hw := by
    cases c with
    | settle | drainPool => exact hw
    | _ => exact hc.elim
  flushed {c _ _ _} hc _ h := by
    cases c with
    | settle | drainPool => exact h
    | _ => exact hc.elim
  pressed hw hc := (EasesBut.of_queued hc).custody hw
  adjust hw hc := (EasesBut.of_adjustment hc).custody hw

/-- While the tasks of a flush run things are left alone. -/
def custodyFlushing : Flushing custody where
  Owed start _ w := start.Leaves w ∧ w.Sole
  log {_ w _ entries} _ h := by
    have he : w.EasesBut (fun _ => False) { w with log := entries } := .of_eq rfl rfl rfl rfl
    exact ⟨h.1.trans he.leaves, he.sole h.2⟩
  turn {_ w t rest} h := by
    have he : w.EasesBut (fun _ => False) (w.inTurn t rest) := .of_eq rfl rfl rfl rfl
    exact he.sole h.2
  ran {_ w w' t rest _} h _ he := by
    have hin : w.EasesBut (fun _ => False) (w.inTurn t rest) := .of_eq rfl rfl rfl rfl
    have hout : w'.EasesBut (fun _ => False) { w' with held := w.held } := .of_eq rfl rfl rfl rfl
    exact ⟨((h.1.trans hin.leaves).trans he.1).trans hout.leaves, hout.sole he.2⟩

namespace Setting

variable {α β : Type} {S : Setting custody} {w₀ w : World}

instance process_custody : S.Agrees process := by
  refine ⟨fun {w} hw => custodyFlushing.process_agreesAt S (fun _ => ?_) fun x hx => ?_⟩
  · have he : w.EasesBut (fun _ => False) w.flushing := .of_eq rfl rfl rfl rfl
    exact he.custody hw
  · cases hx with
    | none =>
      have he : w.EasesBut (fun _ => False) { w with queue := w.queue.drain.2 } :=
        .of_eq rfl rfl rfl rfl
      exact he.custody hw
    | @all w₁ _ h =>
      have he : w₁.EasesBut (fun _ => False)
          { w₁ with queue := { w₁.queue with processing := w.queue.processing } } :=
        .of_eq rfl rfl rfl rfl
      exact ⟨h.1.trans he.leaves, he.sole h.2⟩

/-! ## Seen from where somebody began -/

/-- **Keeping.** Seen from `w₀` a computation keeps to the regime, and something holds if it
succeeds. -/
def Keeps (S : Setting custody) (w₀ : World) (m : Machine α) (w : World) (P : α → World → Prop) :
    Prop :=
  S.Leads m w fun r w' => w₀.Leaves w' ∧ w'.Sole ∧ ∀ a, r = .ok a → P a w'

theorem Keeps.bind {m : Machine α} {f : α → Machine β} {P : α → World → Prop}
    {P' : β → World → Prop} (hm : S.Keeps w₀ m w P)
    (hf : ∀ a w₁, w₀.Leaves w₁ → w₁.Sole → P a w₁ → S.Keeps w₀ (f a) w₁ P') :
    S.Keeps w₀ (m >>= f) w P' :=
  Leads.bind hm (fun _ _ h => ⟨h.1, h.2.1, nofun⟩) fun a w₁ h => hf a w₁ h.1 h.2.1 (h.2.2 a rfl)

theorem Keeps.mono {m : Machine α} {P P' : α → World → Prop} (hm : S.Keeps w₀ m w P)
    (hp : ∀ a w', P a w' → P' a w') : S.Keeps w₀ m w P' :=
  Leads.mono hm fun _ _ h => ⟨h.1, h.2.1, fun a ha => hp a _ (h.2.2 a ha)⟩

theorem Keeps.of_eq {m : Machine α} {w' : World} {a : α} {P : α → World → Prop}
    (hm : ∀ calls, m calls w = some (.ok a, w')) (hr : w₀.Leaves w') (hw : w'.Sole) (hp : P a w') :
    S.Keeps w₀ m w P :=
  Leads.of_eq hm ⟨hr, hw, fun _ h => Except.ok.inj h ▸ hp⟩

/-- What keeps to the setting leaves things alone. -/
theorem Keeps.of_agreesAt {m : Machine α} (hr : w₀.Leaves w) (hm : S.AgreesAt m w) :
    S.Keeps w₀ m w fun _ w' => w.Leaves w' :=
  Leads.mono hm fun _ _ h => ⟨LeavesBut.trans hr h.1, h.2, fun _ _ => h.1⟩

theorem Keeps.of_agrees {m : Machine α} [hm : S.Agrees m] (hr : w₀.Leaves w) (hw : w.Sole) :
    S.Keeps w₀ m w fun _ w' => w.Leaves w' :=
  .of_agreesAt hr (hm.agreesAt hw)

theorem Keeps.agreesAt {m : Machine α} {P : α → World → Prop} (h : S.Keeps w m w P) :
    S.AgreesAt m w :=
  Leads.mono h fun _ _ h => ⟨h.1, h.2.1⟩

/-- First something that keeps to the setting, and then the rest. -/
theorem Keeps.then {m : Machine α} [S.Agrees m] {f : α → Machine β} {P : β → World → Prop}
    (hr : w₀.Leaves w) (hw : w.Sole)
    (hf : ∀ a w₁, w₀.Leaves w₁ → w₁.Sole → w.Leaves w₁ → S.Keeps w₀ (f a) w₁ P) :
    S.Keeps w₀ (m >>= f) w P :=
  (Keeps.of_agrees hr hw).bind hf

/-! ## What is in hand -/

/-- A view in hand may be bound. -/
theorem bindView_inHand {v : ViewId} (h : InHand w₀ w (.view v)) (source : Value)
    (context : ContextId) :
    @Leads Unit custody S (Machine.call (.bindView v source context)) w fun _ w' =>
      InHand w₀ w' (.view v) := by
  have he : custody.Entry (.bindView v source context) w := ⟨h.sole, h.unplaced⟩
  exact (Leads.call he).mono fun _ _ he => h.bound he.2.1 he.1

/-- It may be unbound. -/
theorem unbindView_inHand {v : ViewId} (h : InHand w₀ w (.view v)) :
    @Leads Unit custody S (Machine.call (.unbindView v)) w fun _ w' => InHand w₀ w' (.view v) :=
  (Leads.call (c := .unbindView v) h.sole).mono fun _ _ he => h.bound he.2.1 he.1

/-- Others leave it in hand. -/
theorem agrees_inHand {m : Machine α} [hm : S.Agrees m] {t : Ward} (h : InHand w₀ w t) :
    S.Leads m w fun _ w' => InHand w₀ w' t :=
  (hm.agreesAt h.sole).mono fun _ _ hr => h.later hr.1 hr.2

/-- Something that is in hand whatever comes of a computation. -/
theorem Keeps.of_inHand {m : Machine α} {t : Ward}
    (h : S.Leads m w fun _ w' => InHand w₀ w' t) : S.Keeps w₀ m w fun _ w' => InHand w₀ w' t :=
  Leads.mono h fun _ _ h => ⟨h.leaves, h.sole, fun _ _ => h⟩

/-- A view that has been created is in hand. -/
theorem createView_inHand (hr : w₀.Leaves w) (hw : w.Sole) (t : TemplateId) :
    S.Keeps w₀ (createView t) w fun v w' => InHand w₀ w' (.view v) := by
  refine (createView_leads t w).mono fun r w' h => ?_
  have he : w.EasesBut (fun _ => False) w' := .of_created h.1
  refine ⟨LeavesBut.trans hr he.leaves, he.sole hw, fun v hv => ?_⟩
  obtain ⟨hi, hm⟩ := h.2 v hv
  refine .of_new hr hw he (fun hn => ?_) hm
  exact absurd hi (Nat.ne_of_lt hn)

/-- A context that has been made is in hand. -/
theorem newContext_inHand (hr : w₀.Leaves w) (hw : w.Sole) (s : ContextState) :
    S.Keeps w₀ (newContext s) w fun c w' => InHand w₀ w' (.context c) := by
  have he : w.EasesBut (fun _ => False) { w with contexts := (w.contexts.add s).2 } :=
    .of_contexts (Store.Grown.add w.contexts s).size fun c hc => by
      rw [(Store.Grown.add w.contexts s).get c hc]
      exact ⟨rfl, rfl⟩
  refine .of_eq (fun _ => rfl) (LeavesBut.trans hr he.leaves) (he.sole hw) (.of_new hr hw he ?_ ?_)
  · exact Nat.lt_irrefl _
  · show w.contexts.size < (w.contexts.add s).2.size
    rw [Store.size_add]
    exact Nat.lt_succ_self _

/-! ## Composed views -/

section Composed

variable {b : BehaviorId}

/-- A binding may forget what it composed. -/
theorem forget_keeps (hr : w₀.Leaves w) (hw : w.Sole) :
    S.Keeps w₀ (setComposed b none) w fun _ w' => w.Leaves w' := by
  have he : w.EasesBut (fun _ => False) (w.alter b (.onBinding fun s => { s with composed := none })) := by
    refine .of_alter (fun s => by cases s <;> rfl) (fun c hc => ?_) fun i v hv => ?_
    · cases hb : w.behavior b <;> rw [hb] at hc <;> exact absurd hc nofun
    · rw [tether]
      cases hb : w.behavior b <;> rw [hb] at hv <;> exact hv
  exact .of_eq (modifyBinding_apply b _ · w) (LeavesBut.trans hr he.leaves) (he.sole hw)
    he.leaves

/-- It may remember a view that is in hand. -/
theorem remember_keeps {c : Composed} (h : InHand w₀ w (.view c.view)) :
    S.Keeps w₀ (setComposed b (some c)) w fun _ w' => InHand w₀ w' (.view c.view) :=
  have h' := h.remembered b
  .of_eq (modifyBinding_apply b _ · w) h'.leaves h'.sole h'

theorem withdrawComposed_keeps (hr : w₀.Leaves w) (hw : w.Sole) {composed : Option Composed}
    (h : ∀ c, composed = some c → InHand w₀ w (.view c.view)) :
    S.Keeps w₀ (withdrawComposed b composed) w fun _ _ => True := by
  unfold withdrawComposed
  split
  · next c =>
    split
    · refine (remember_keeps (b := b) (c := { c with isComposed := false }) (h c rfl)).bind
        fun _ w₁ hr₁ hw₁ h₁ => ?_
      refine (Keeps.of_inHand (agrees_inHand h₁)).bind fun _ w₂ hr₂ hw₂ h₂ => ?_
      split
      · exact (remember_keeps (c := { c with isComposed := false, needsBindOnly := false }) h₂).mono
          fun _ _ _ => trivial
      · exact (Keeps.of_inHand (unbindView_inHand h₂)).mono fun _ _ _ => trivial
    · exact .of_eq (fun _ => rfl) hr hw trivial
  · exact .of_eq (fun _ => rfl) hr hw trivial

theorem composedFor_keeps (hr : w₀.Leaves w) (hw : w.Sole) {composed : Option Composed}
    (h : ∀ c, composed = some c → InHand w₀ w (.view c.view)) (t : TemplateId) :
    S.Keeps w₀ (composedFor t composed) w fun c w' => InHand w₀ w' (.view c.view) := by
  have hmake : ∀ w₁, w₀.Leaves w₁ → w₁.Sole → S.Keeps w₀ (do
      return (⟨← createView t, t, false, false⟩ : Composed)) w₁ fun c w' =>
        InHand w₀ w' (.view c.view) := by
    intro w₁ hr₁ hw₁
    exact (createView_inHand hr₁ hw₁ t).bind fun v w₂ hr₂ hw₂ h₂ =>
      .of_eq (fun _ => rfl) hr₂ hw₂ h₂
  unfold composedFor
  split
  · next c =>
    split
    · exact .of_eq (fun _ => rfl) hr hw (h c rfl)
    · split
      · refine (Keeps.of_inHand (agrees_inHand (h c rfl))).bind fun _ w₁ _ _ h₁ => ?_
        refine (Keeps.of_inHand (unbindView_inHand h₁)).bind fun _ w₂ hr₂ hw₂ _ => ?_
        exact hmake w₂ hr₂ hw₂
      · exact hmake w hr hw
  · exact hmake w hr hw

theorem compose_keeps {c : Composed} (h : InHand w₀ w (.view c.view)) (target : NodeId) (source : Value)
    (context : ContextId) :
    S.Keeps w₀ (compose c target source context) w fun composed w' =>
      InHand w₀ w' (.view composed.1.view) := by
  have hbind : ∀ {w₁} (c' : Composed), c'.view = c.view → InHand w₀ w₁ (.view c.view) →
      S.Keeps w₀ (do
        let outcome ← attempt (Machine.call (.bindView c.view source context))
        return (c', outcome)) w₁ fun composed w' => InHand w₀ w' (.view composed.1.view) := by
    intro w₁ c' he h₁
    refine Leads.attempt_bind (bindView_inHand h₁ source context) fun outcome w₂ h₂ => ?_
    rw [← he] at h₂
    exact Keeps.of_eq (fun _ => rfl) h₂.leaves h₂.sole h₂
  unfold compose
  split
  · refine (Keeps.of_inHand (agrees_inHand h)).bind fun _ w₁ _ _ h₁ => ?_
    exact hbind { c with isComposed := true, needsBindOnly := false } rfl h₁
  · split
    · exact hbind { c with needsBindOnly := false } rfl h
    · exact .of_eq (fun _ => rfl) h.leaves h.sole h

/-- What a content binding composed is in hand. -/
theorem composed_inHand (hw : w.Sole) {s : BindingState} (hs : w.behavior b = .binding s) {c : Composed}
    (hc : s.composed = some c) : InHand w w (.view c.view) :=
  .of_has hw (fun _ _ => Hand.noConfusion) (.composed (b := b) (by rw [tether, hs]; exact hc))

/-- **Content** is composed of nobody else's views. -/
theorem updateContent_custody (hw : w.Sole) {s : BindingState} (hs : w.behavior b = .binding s)
    (value source : Value) (context : ContextId) :
    S.AgreesAt (updateContent b s value source context) w := by
  have htext : ∀ text, S.Agrees (mutate (.text s.target text)) := fun text =>
    agrees_shows (.text s.target text) trivial
  have hown : ∀ c, s.composed = some c → InHand w w (.view c.view) := fun c => composed_inHand hw hs
  refine Keeps.agreesAt (P := fun _ _ => True) ?_
  unfold updateContent
  split
  · next t =>
    refine .then (.refl w) hw fun _ w₁ hr₁ hw₁ hl₁ => ?_
    have hown₁ : ∀ c, s.composed = some c → InHand w w₁ (.view c.view) :=
      fun c hc => (hown c hc).later hl₁ hw₁
    refine (forget_keeps hr₁ hw₁).bind fun _ w₂ hr₂ hw₂ hl₂ => ?_
    have hown₂ : ∀ c, s.composed = some c → InHand w w₂ (.view c.view) :=
      fun c hc => (hown₁ c hc).later hl₂ hw₂
    refine (composedFor_keeps hr₂ hw₂ hown₂ t).bind fun c w₃ _ _ h₃ => ?_
    refine (compose_keeps h₃ s.target source context).bind fun composed w₄ _ _ h₄ => ?_
    obtain ⟨c', outcome⟩ := composed
    exact (remember_keeps h₄).bind fun _ w₅ hr₅ hw₅ _ =>
      (Keeps.of_agrees hr₅ hw₅).mono fun _ _ _ => trivial
  · refine (withdrawComposed_keeps (.refl w) hw hown).bind fun _ w₁ hr₁ hw₁ _ => ?_
    exact (Keeps.of_agrees hr₁ hw₁).mono fun _ _ _ => trivial

/-- **Unbinding a binding** unbinds what it composed and nothing else. -/
theorem unbindBinding_custody : S.Agrees (unbindBinding b) := by
  unfold unbindBinding
  refine .get fun w hw => ?_
  split
  · exact Agrees.agreesAt hw
  · next s hs =>
    split
    · exact Agrees.agreesAt hw
    · extract_lets release cancel unlisten
      have hr : ∀ u w₁, w.Leaves w₁ → w₁.Sole → S.Keeps w (release u) w₁ fun _ _ => True := by
        intro u w₁ hr₁ hw₁
        unfold release
        split
        · next c hc =>
          have h₁ := (composed_inHand hw (behavior_of_bindingState? hs) hc).later hr₁ hw₁
          split
          · refine (Keeps.of_inHand (unbindView_inHand h₁)).bind fun _ w₂ _ _ h₂ => ?_
            exact (remember_keeps (c := { c with needsBindOnly := true }) h₂).mono fun _ _ _ => trivial
          · exact .of_eq (fun _ => rfl) hr₁ hw₁ trivial
        · exact .of_eq (fun _ => rfl) hr₁ hw₁ trivial
      have hc : ∀ u w₁, w.Leaves w₁ → w₁.Sole → S.Keeps w (cancel u) w₁ fun _ _ => True := by
        intro u w₁ hr₁ hw₁
        unfold cancel
        split
        · exact .then hr₁ hw₁ fun u w₂ hr₂ hw₂ _ => hr u w₂ hr₂ hw₂
        · exact hr () w₁ hr₁ hw₁
      have hu : ∀ u w₁, w.Leaves w₁ → w₁.Sole → S.Keeps w (unlisten u) w₁ fun _ _ => True := by
        intro u w₁ hr₁ hw₁
        unfold unlisten
        split
        · exact .then hr₁ hw₁ fun u w₂ hr₂ hw₂ _ => hc u w₂ hr₂ hw₂
        · exact hc () w₁ hr₁ hw₁
      refine Keeps.agreesAt (P := fun _ _ => True) ?_
      refine .then (.refl w) hw fun _ w₁ hr₁ hw₁ _ => ?_
      split
      · next o _ =>
        have hd := disposeObserver_agreesAt (S := S) hw₁ (Regime.Open.light custody w₁ o)
        exact (Keeps.of_agreesAt hr₁ hd).bind fun u w₂ hr₂ hw₂ _ => hu u w₂ hr₂ hw₂
      · exact hu () w₁ hr₁ hw₁

end Composed

/-! ## Repeats that are unbound -/

/-- Views that were held when somebody began are unbound one after another. -/
theorem unbindViews_keeps {views : List ViewId} (hv : ∀ v ∈ views, ¬ w₀.Free (.view v))
    (hr : w₀.Leaves w) (hw : w.Sole) :
    S.Keeps w₀ (each (fun v => Machine.call (.unbindView v)) views) w fun _ _ => True := by
  induction views generalizing w with
  | nil => exact .of_eq (fun _ => rfl) hr hw trivial
  | cons v views ih =>
    have hcall : @Keeps Unit S w₀ (Machine.call (.unbindView v)) w fun _ _ => True := by
      refine (Leads.call (c := .unbindView v) hw).mono fun _ _ he => ?_
      refine ⟨hr.since he.2.1 fun u hu => ?_, he.1, fun _ _ => trivial⟩
      exact hu ▸ hv v List.mem_cons_self
    unfold each
    exact hcall.bind fun _ w₁ hr₁ hw₁ _ =>
      ih (fun u hu => hv u (List.mem_cons_of_mem v hu)) hr₁ hw₁

/-- **Unbinding a repeat** unbinds the views that it lists and no others. -/
theorem unbindRepeat_custody {b : BehaviorId} : S.Agrees (unbindRepeat b) := by
  unfold unbindRepeat
  refine .get fun w hw => ?_
  split
  · exact Agrees.agreesAt hw
  · next s hs =>
    have hlisted : ∀ v ∈ s.views, ¬ w.Free (.view v) := by
      intro v hv
      obtain ⟨i, hi⟩ := List.getElem?_of_mem hv
      have hplaced : w.Has (.place b i) (.view v) :=
        .placed (.view (by rw [tether, behavior_of_repeatState? hs]; exact hi))
      exact hplaced.not_free
    split
    · exact Agrees.agreesAt hw
    · extract_lets dispose
      have hd : ∀ u w₁, w.Leaves w₁ → w₁.Sole → S.Keeps w (dispose u) w₁ fun _ _ => True := by
        intro u w₁ hr₁ hw₁
        unfold dispose
        have hobserver : ∀ o w₁, w₁.Sole → S.AgreesAt (disposeObserver o) w₁ := fun o w₁ hw₁ =>
          disposeObserver_agreesAt hw₁ (Regime.Open.light custody w₁ o)
        refine (unbindViews_keeps hlisted hr₁ hw₁).bind fun _ w₂ hr₂ hw₂ _ => ?_
        refine (Keeps.of_agreesAt hr₂ (hobserver _ w₂ hw₂)).bind fun _ w₃ hr₃ hw₃ _ => ?_
        exact (Keeps.of_agreesAt hr₃ (hobserver _ w₃ hw₃)).mono fun _ _ _ => trivial
      refine Keeps.agreesAt (P := fun _ _ => True) ?_
      refine .then (.refl w) hw fun _ w₁ hr₁ hw₁ _ => ?_
      split
      · exact .then hr₁ hw₁ fun u w₂ hr₂ hw₂ _ => hd u w₂ hr₂ hw₂
      · exact hd () w₁ hr₁ hw₁

/-! ## Binding and unbinding views -/

section Views

variable [∀ b, S.Listing b] {v : ViewId}

/-- A view that is not placed is given its source, and its behaviors are bound. -/
theorem rebind_leads {x : World} (hr : x.Leaves w) (hw : w.Sole) (hv : x.Unplaced (.view v))
    (source : Value) (context : ContextId) (behaviors : List BehaviorId) :
    S.Leads (do
        modifyView v fun s => { s with source := some source, context := some context }
        each (fun b => bindBehavior b source context) behaviors) w fun _ w' =>
      w'.Sole ∧ x.LeavesBut (· = v) w' ∧
        (x.Free (.view v) → (w'.views.get v).context = some context) := by
  have he : w.EasesBut (· = v) (w.rebound v (some source) (some context)) :=
    .of_rebound _ (.inr (hr.unplaced hv))
  have hsole := he.sole hw
  refine .step (modifyView_apply v (some source) (some context) · w) ?_
  refine (Agrees.agreesAt hsole).mono fun _ w' h => ⟨h.2, ?_, fun hf => ?_⟩
  · exact (hr.but.trans he.leaves).trans h.1.but
  · rw [h.1.record (he.leaves.free (hr.free hf)) id, rebound, Store.get_modify, if_pos rfl]

/-- **Binding a view** binds no other, and nobody else binds it meanwhile. -/
theorem bindView_custody (hw : w.Sole) (hv : w.Unplaced (.view v)) (source : Value)
    (context : ContextId) :
    S.Leads (bindView v source context) w (custodyExit (.bindView v source context) w) := by
  unfold bindView
  refine .read ?_
  extract_lets isSame
  split
  · next hsame =>
    refine .of_eq (fun _ => rfl) ⟨hw, .refl w, fun _ hn => ?_⟩
    simp [isSame, hn] at hsame
  · let x : World := { w with held := [.binding v] ++ w.held }
    have hin : w.EasesBut (fun _ => False) x := .of_eq rfl rfl rfl rfl
    have hx : x.Sole := hin.sole hw
    have hvx : x.Unplaced (.view v) := hin.leaves.unplaced hv
    refine (Leads.within (w := w) (Q := fun _ w' => w'.Sole ∧ x.LeavesBut (· = v) w' ∧
      (x.Free (.view v) → (x.views.get v).source = none →
        (w'.views.get v).context = some context)) ?_).mono ?_
    · extract_lets
      split
      · next hs =>
        have hnone : (x.views.get v).source ≠ none := Option.isSome_iff_ne_none.mp hs
        refine Leads.bind (Agrees.agreesAt hx) (fun _ w₁ h => ?_) fun u w₁ h => ?_
        · exact ⟨h.2, h.1.but, fun _ hn => absurd hn hnone⟩
        · refine (rebind_leads h.1 h.2 hvx source context _).mono fun _ w' h => ?_
          exact ⟨h.1, h.2.1, fun hf _ => h.2.2 hf⟩
      · refine (rebind_leads (.refl x) hx hvx source context _).mono fun _ w' h => ?_
        exact ⟨h.1, h.2.1, fun hf _ => h.2.2 hf⟩
    · rintro r _ ⟨w₁, rfl, hsole, hr, hbound⟩
      have hout : w₁.EasesBut (· = v) { w₁ with held := w.held } := .of_eq rfl rfl rfl rfl
      have hout' : w₁.EasesBut (fun _ => False) { w₁ with held := w.held } := .of_eq rfl rfl rfl rfl
      refine ⟨hout'.sole hsole, (Leaves.but hin.leaves |>.trans hr).trans hout.leaves, fun hf hn => ?_⟩
      exact hbound (hin.leaves.free hf) hn

/-- **Unbinding a view** unbinds no other, and nobody else binds it meanwhile. -/
theorem unbindView_custody (hw : w.Sole) (v : ViewId) :
    S.Leads (unbindView v) w (custodyExit (.unbindView v) w) := by
  unfold unbindView
  refine .read ?_
  split
  · next h =>
    exact .of_eq (fun _ => rfl) ⟨hw, .refl w, fun _ => ⟨Option.isNone_iff_eq_none.mp h, .inr rfl⟩⟩
  · have he : w.EasesBut (· = v) (w.rebound v none none) := .of_rebound _ (.inl rfl)
    have hsole := he.sole hw
    refine .step (modifyView_apply v none none · w) ?_
    refine (Agrees.agreesAt hsole).mono fun _ w' h => ⟨h.2, he.leaves.trans h.1.but, fun hf => ?_⟩
    rw [h.1.record (he.leaves.free hf) id, rebound, Store.get_modify, if_pos rfl]
    exact ⟨rfl, .inl rfl⟩

end Views

/-! ## Commands -/

/-- A name is given to what is in hand. -/
theorem giveHandle_keeps {t : Ward} (h : InHand w₀ w t) (name : String) :
    S.Keeps w₀ (giveHandle name t.named) w fun _ _ => True :=
  have h' := h.named name
  .of_eq (fun _ => rfl) h'.leaves h'.sole trivial

/-- What is found under a handle is in hand. -/
theorem lookUp_inHand {γ : Type} (hw : w.Sole) {name kind : String} {f : Handle → Option γ}
    {ward : γ → Ward} (hf : ∀ h a, f h = some a → h = (ward a).named) :
    S.Keeps w (lookUp name kind f) w fun a w' => InHand w w' (ward a) := by
  unfold lookUp
  refine Leads.step (fun _ => rfl) ?_
  cases hb : (w.handles.find? name).bind f with
  | none => exact .of_eq (fun _ => rfl) ⟨.refl w, hw, nofun⟩
  | some a =>
    obtain ⟨h, hfind, ha⟩ := Option.bind_eq_some_iff.mp hb
    refine .of_eq (fun _ => rfl) ⟨.refl w, hw, fun _ he => ?_⟩
    cases he
    exact .of_has hw (fun _ _ => Hand.noConfusion) (.named (hf h a ha ▸ hfind))

theorem contextNamed_inHand (hw : w.Sole) (name : String) :
    S.Keeps w (contextNamed name) w fun c w' => InHand w w' (.context c) :=
  lookUp_inHand hw fun h a ha => by
    cases h <;> first | exact congrArg Handle.context (Option.some.inj ha) | exact absurd ha nofun

theorem viewNamed_inHand (hw : w.Sole) (name : String) :
    S.Keeps w (viewNamed name) w fun v w' => InHand w w' (.view v) :=
  lookUp_inHand hw fun h a ha => by
    cases h <;> first | exact congrArg Handle.view (Option.some.inj ha) | exact absurd ha nofun

end Setting

end ReactiveViews
