import ReactiveViews.Proofs.Flush
import ReactiveViews.Proofs.Runs
/-!
# What lasts

Views and behaviors are made once. What a behavior is put on and what it evaluates stay
the same for good, and so do the nodes and the behaviors of a view. Nothing but binding and
unbinding a view says what the view is bound to: a run that *spares* a view, neither
binding nor unbinding it, leaves its record as it was (`lasts_of_run`).
-/

namespace ReactiveViews

namespace Behavior

/-- What stays of a behavior for good. A binding is given its observer when it is first bound. -/
def lasting (behavior : Behavior) : Behavior :=
  match behavior.bare with
  | .binding s => .binding { s with observer := none }
  | other => other

theorem lasting_of_bare {s s' : Behavior} (h : s'.bare = s.bare) : s'.lasting = s.lasting := by
  unfold lasting
  rw [h]

end Behavior

/-- What stays of a view however it is bound. -/
def ViewState.lasting (s : ViewState) : ViewState := { s with source := none, context := none }

namespace World

/-- **Lasting.** Behaviors and views that have been made are there for good, and spared views are
bound to what they were bound to. -/
structure Lasts (spared : ViewId → Bool) (w w' : World) : Prop where
  size_behaviors : w.behaviors.size ≤ w'.behaviors.size
  size_views : w.views.size ≤ w'.views.size
  behavior {b : BehaviorId} : b.index < w.behaviors.size →
    (w'.behavior b).lasting = (w.behavior b).lasting
  view {v : ViewId} : v.index < w.views.size → (w'.views.get v).lasting = (w.views.get v).lasting
  spared {v : ViewId} : spared v → v.index < w.views.size → w'.views.get v = w.views.get v

namespace Lasts

variable {spared : ViewId → Bool} {w w' : World}

theorem of_eq (hb : w'.behaviors = w.behaviors) (hv : w'.views = w.views) : w.Lasts spared w' where
  size_behaviors := Nat.le_of_eq (congrArg Store.size hb.symm)
  size_views := Nat.le_of_eq (congrArg Store.size hv.symm)
  behavior _ := by rw [World.behavior, World.behavior, hb]
  view _ := by rw [hv]
  spared _ _ := by rw [hv]

theorem refl (w : World) : w.Lasts spared w := .of_eq rfl rfl

theorem trans {a b c : World} (h : a.Lasts spared b) (h' : b.Lasts spared c) :
    a.Lasts spared c where
  size_behaviors := Nat.le_trans h.size_behaviors h'.size_behaviors
  size_views := Nat.le_trans h.size_views h'.size_views
  behavior hb := (h'.behavior (Nat.lt_of_lt_of_le hb h.size_behaviors)).trans (h.behavior hb)
  view hv := (h'.view (Nat.lt_of_lt_of_le hv h.size_views)).trans (h.view hv)
  spared hs hv := (h'.spared hs (Nat.lt_of_lt_of_le hv h.size_views)).trans (h.spared hs hv)

theorem fewer {fewer : ViewId → Bool} (h : w.Lasts spared w') (hf : ∀ v, fewer v → spared v) :
    w.Lasts fewer w' :=
  ⟨h.size_behaviors, h.size_views, h.behavior, h.view, fun hv => h.spared (hf _ hv)⟩

theorem of_created (h : Created w w') : w.Lasts spared w' where
  size_behaviors := h.behaviors.size
  size_views := h.views.size
  behavior {b} hb := by rw [World.behavior, World.behavior, h.behaviors.get b hb]
  view {v} hv := by rw [h.views.get v hv]
  spared {v} _ hv := h.views.get v hv

/-- One behavior changes in what does not last. -/
theorem of_modify {b : BehaviorId} {f : Behavior → Behavior} (hf : ∀ s, (f s).lasting = s.lasting) :
    w.Lasts spared { w with
      behaviors := w.behaviors.modify b fun c => { c with behavior := f c.behavior } } where
  size_behaviors := Store.size_le_modify _ _ _
  size_views := Nat.le_refl _
  behavior {b'} _ := by
    simp only [World.behavior, Store.get_modify]
    split
    · next h => exact h ▸ hf _
    · rfl
  view _ := rfl
  spared _ _ := rfl

theorem of_giveObserver (b : BehaviorId) (o : ObserverId) : w.Lasts spared (w.giveObserver b o) :=
  of_modify (f := fun behavior => match behavior with
    | .binding s => .binding { s with observer := some o }
    | other => other) fun s => by cases s <;> rfl

/-- A view that is not spared is bound or unbound. -/
theorem of_view {v : ViewId} {source : Option Value} {context : Option ContextId}
    (hv : spared v = false) : w.Lasts spared { w with
      views := w.views.modify v fun s => { s with source, context } } where
  size_behaviors := Nat.le_refl _
  size_views := Store.size_le_modify _ _ _
  behavior _ := rfl
  view {u} _ := by
    simp only [Store.get_modify]
    split
    · next h => exact h ▸ rfl
    · rfl
  spared {u} hu _ := by
    have hne : v ≠ u := fun h => by
      rw [h, hu] at hv
      exact absurd hv nofun
    rw [Store.get_modify, if_neg hne]

theorem of_sweep (w : World) : w.Lasts spared w.sweep where
  size_behaviors := Nat.le_of_eq Array.size_mapIdx.symm
  size_views := Nat.le_refl _
  behavior {b} _ := congrArg (fun c => c.behavior.lasting) <|
    Store.get_mapIdx w.behaviors (fun i c =>
      { c with isOwned := c.isOwned && w.reachable.contains (.behavior ⟨i⟩) }) (fun _ => rfl) b
  view _ := rfl
  spared _ _ := rfl

theorem of_follow (w : World) (next : FollowUp) : w.Lasts spared (w.follow next) := by
  refine .of_eq (behaviors_follow w next) ?_
  obtain h | ⟨entries, h⟩ | ⟨pool, h⟩ := w.follow_cases next <;> rw [h]

theorem of_queued {Mild : Subject → Prop} {next : FollowUp} (h : Queued Mild w next w') :
    w.Lasts spared w' :=
  .of_eq h.behaviors (by cases h <;> rfl)

/-- **Every change lasts** but to views that are spared. -/
theorem of_change {Mild : Subject → Prop} (hm : ∀ v, Mild (.view v) → spared v = false)
    (h : Change Mild w w') : w.Lasts spared w' := by
  cases h with
  | created h => exact .of_created h
  | behavior hf _ _ => exact .of_modify fun s => Behavior.lasting_of_bare (hf s)
  | @giveObserver b o _ _ => exact .of_giveObserver b o
  | view _ _ h => exact .of_view (hm _ h)
  | sweep => exact .of_sweep w
  | ask scheduler => exact .of_follow w (.schedule scheduler)
  | queued h => exact (of_queued h).trans (.of_follow _ _)
  | request =>
    have h : w.Lasts spared { w with queue := w.queue.requestIfNeeded.1 } := .of_eq rfl rfl
    exact h.trans (.of_follow _ _)
  | _ => exact .of_eq rfl rfl

theorem of_adjustment (h : Adjustment w w') : w.Lasts spared w' := by
  cases h with
  | @await _ queue _ _ =>
    have hq : w.Lasts spared { w with queue } := .of_eq rfl rfl
    exact hq.trans (.of_follow _ _)
  | install | mode | pool => exact .of_eq rfl rfl

end Lasts

end World

/-- **Sparing.** Views that are spared are neither bound nor unbound. -/
def sparing (spared : ViewId → Bool) (c : Call) (_ : World) : Bool :=
  match c.view? with
  | some v => !spared v
  | none => true

/-- **The regime of what lasts.** -/
def lasting (spared : ViewId → Bool) : Regime where
  allowed := sparing spared
  Mild
    | .view v => spared v = false
    | _ => True
  Inv _ := True
  Rel := World.Lasts spared
  Entry _ _ := True
  Exit _ w _ w' := w.Lasts spared w'
  refl := .refl
  trans := .trans
  entry _ _ _ := trivial
  exit _ _ _ h := ⟨h, trivial⟩
  change _ h := ⟨.of_change (fun _ => id) h, trivial⟩
  enter _ _ := trivial
  leave hs _ h _ := by
    cases hs <;> exact ⟨⟨h.size_behaviors, h.size_views, h.behavior, h.view, h.spared⟩, trivial⟩
  grown h := h.size_behaviors
  light _ _ := .inr fun _ => trivial
  takes _ _ := .inr trivial
  calledBack _ _ := .inr trivial
  watcher _ _ := .inr fun _ => trivial
  behaviors _ _ _ := trivial
  observers _ _ _ := .inr fun _ => trivial
  aspects _ _ _ := trivial

instance (spared : ViewId → Bool) : (lasting spared).Accessible where
  entry _ _ := trivial
  exit _ _ h := ⟨h, trivial⟩
  access _ hc := ⟨by cases hc <;> exact .of_eq rfl rfl, trivial⟩

instance (spared : ViewId → Bool) (name : String) : (lasting spared).Slight (.listener name) :=
  ⟨trivial⟩

instance (spared : ViewId → Bool) : (lasting spared).Loose where
  tether _ := trivial
  lists _ := trivial
  view {c w v} hv ha := by
    have hs : sparing spared c w = true := ha
    rw [sparing, hv] at hs
    exact (Bool.not_eq_true' _).mp hs

instance (spared : ViewId → Bool) : (lasting spared).Uniform where
  tickets := trivial
  behavior _ := trivial
  aspect _ _ := trivial
  setup _ hc := ⟨by cases hc <;> exact .of_eq rfl rfl, trivial⟩
  cues := trivial
  deliver _ _ := trivial
  delivered _ h := ⟨h, trivial⟩
  write _ hc := ⟨by cases hc <;> exact .of_eq rfl rfl, trivial⟩
  flush _ _ := trivial
  flushed _ _ h := ⟨h, trivial⟩
  pressed _ hc := ⟨.of_queued hc, trivial⟩
  adjust _ hc := ⟨.of_adjustment hc, trivial⟩

/-- While the tasks of a flush run, what was made before it lasts. -/
def lastingFlushing (spared : ViewId → Bool) : Flushing (lasting spared) where
  Owed start _ w := start.Lasts spared w
  log _ h := h.trans (.of_eq rfl rfl)
  turn _ := trivial
  ran {_ w w' t rest _} h _ he := by
    have hturn : w.Lasts spared (w.inTurn t rest) := .of_eq rfl rfl
    have hran : (w.inTurn t rest).Lasts spared w' := he
    exact (h.trans hturn).trans (hran.trans (.of_eq rfl rfl))

theorem lasting_kept (spared : ViewId → Bool) : (lasting spared).Kept := by
  refine Regime.Uniform.kept (fun S => ⟨fun {w} _ => ?_⟩) (fun _ _ => trivial)
    (fun h _ => h) fun S {t w} _ _ => Setting.Agrees.agreesAt (m := Machine.update t) trivial
  refine (lastingFlushing spared).process_agreesAt S (fun _ => .of_eq rfl rfl) fun x hx => ?_
  cases hx with
  | none => exact ⟨.of_eq rfl rfl, trivial⟩
  | all _ h => exact ⟨World.Lasts.trans h (.of_eq rfl rfl), trivial⟩

/-- The calls of a run that spares views. -/
def callsSparing (spared : ViewId → Bool) (depth : Nat) : Calls :=
  Machine.runUnder (sparing spared) depth

section Runs

variable {spared fewer : ViewId → Bool} {depth : Nat} {c : Call} {w w' : World}

instance : Machine.Firmly (callsSparing spared depth) := Machine.firmly_runUnder _ depth

/-- **What is made lasts**, in every run, and what spared views are bound to as well. -/
theorem lasts_of_run {r : Except Error c.Result}
    (h : callsSparing spared depth c w = some (r, w')) : w.Lasts spared w' :=
  (Regime.run_agrees (lasting_kept spared) (sparing spared) (fun _ _ _ h => h) depth trivial h).2.2

theorem sparing_fewer (hf : ∀ v, fewer v → spared v) (h : sparing spared c w = true) :
    sparing fewer c w = true := by
  unfold sparing at h ⊢
  cases hv : c.view? with
  | none => rfl
  | some v =>
    have hs : spared v = false := by simpa [hv] using h
    have hfewer : fewer v = false := by
      cases hv' : fewer v with
      | false => rfl
      | true => exact (hf v hv').symm.trans hs
    simp [hfewer]

/-- A run that spares some views spares fewer as well. -/
def sparingSetting (hf : ∀ v, fewer v → spared v) (depth : Nat) : Setting (lasting fewer) where
  calls := callsSparing spared depth
  calls' := callsSparing spared depth
  firm := inferInstance
  call {c w _ _} _ h := by
    obtain ⟨ha, -, he⟩ :=
      Regime.run_agrees (lasting_kept spared) (sparing spared) (fun _ _ _ h => h) depth trivial h
    exact ⟨sparing_fewer (c := c) (w := w) hf ha, h, World.Lasts.fewer he hf⟩

/-- So it is with every computation made in a run. -/
theorem lasts_of_agrees {α : Type} {m : Machine α} (hf : ∀ v, fewer v → spared v)
    (hm : (sparingSetting hf depth).Agrees m) {r : Except Error α}
    (h : m (callsSparing spared depth) w = some (r, w')) : w.Lasts fewer w' :=
  ((hm.agreesAt trivial) r w' h).2.1

end Runs

/-! ## Calls around spared views

Whoever looks after some views binds and unbinds them, but what goes on within those calls
leaves them alone. -/

/-- Calls that may be about spared views, which are spared within them. -/
def callsAround (spared : ViewId → Bool) (depth : Nat) : Calls :=
  fun c => Machine.body c (callsSparing spared depth)

/-- All spared views but one. -/
def sparedBut (spared : ViewId → Bool) (v : ViewId) : ViewId → Bool := fun u => spared u && u != v

/-- **Apart.** A computation that neither binds nor unbinds a view itself, and does not fail. -/
class Machine.Apart {α : Type} (m : Machine α) : Prop where
  eq {calls calls' : Calls} (h : ∀ c : Call, c.view? = none → calls c = calls' c) (w : World) :
    m calls w = m calls' w
  firm (calls : Calls) [Machine.Firmly calls] : Machine.Firm calls m

section Around

variable {spared : ViewId → Bool} {depth : Nat} {w w' : World} {α β : Type}

open Machine

instance : Firmly (callsAround spared depth) where
  deliver s change := ⟨fun h => by
    have hd : Firm (callsSparing spared depth) (Machine.deliver s change) := inferInstance
    exact hd.ok h⟩
  settle := ⟨fun h => by
    have hs : Firm (callsSparing spared depth) Machine.settle := inferInstance
    exact hs.ok h⟩
  unbindView v := ⟨fun h => by
    have hv : Firm (callsSparing spared depth) (Machine.unbindView v) := inferInstance
    exact hv.ok h⟩

/-- Whatever a call is about, other spared views are left alone. -/
theorem lasts_of_callsAround {c : Call} {fewer : ViewId → Bool} (hf : ∀ v, fewer v → spared v)
    (ha : sparing fewer c w = true) {r : Except Error c.Result}
    (h : callsAround spared depth c w = some (r, w')) : w.Lasts fewer w' :=
  ((lasting_kept fewer).body (sparingSetting hf depth) trivial ha r w' h).2

/-- Calls around spared views keep what is made, as all calls do. -/
def aroundSetting (spared : ViewId → Bool) (depth : Nat) : Setting (lasting fun _ => false) where
  calls := callsAround spared depth
  calls' := callsAround spared depth
  firm := inferInstance
  call {c w _ _} _ h := by
    have ha : sparing (fun _ => false) c w = true := by
      unfold sparing
      split <;> rfl
    exact ⟨ha, h, lasts_of_callsAround (by simp) ha h⟩

/-- What stands apart from binding views does not fail and leaves spared views alone. -/
theorem lasts_of_apart {m : Machine α} [hm : Apart m]
    [ha : ∀ S : Setting (lasting spared), S.Agrees m] {r : Except Error α}
    (h : m (callsAround spared depth) w = some (r, w')) : (∃ a, r = .ok a) ∧ w.Lasts spared w' := by
  refine ⟨(hm.firm _).ok h, ?_⟩
  have heq : m (callsAround spared depth) w = m (callsSparing spared (depth + 1)) w := by
    refine hm.eq (fun c hc => funext fun x => ?_) w
    show body c (callsSparing spared depth) x =
      if sparing spared c x then body c (callsSparing spared depth) x else none
    rw [sparing, hc, if_pos rfl]
  rw [heq] at h
  exact lasts_of_agrees (fun _ => id) (ha _) h

/-! ## What stands apart -/

theorem Machine.Apart.of_eq {m : Machine α} [hm : ∀ calls, Firm calls m]
    (h : ∀ calls calls', m calls = m calls') : Apart m :=
  ⟨fun _ w => congrFun (h _ _) w, fun _ _ => hm _⟩

instance (a : α) : Apart (pure a) := .of_eq fun _ _ => rfl

instance : Apart (get : Machine World) := .of_eq fun _ _ => rfl

instance (f : World → World) : Apart (modify f : Machine PUnit) := .of_eq fun _ _ => rfl

instance (f : World → α × World) : Apart (modifyGet f : Machine α) :=
  @Apart.of_eq _ _ (fun _ => .of_eq fun _ => ⟨_, _, rfl⟩) fun _ _ => rfl

instance (f : World → α) : Apart (Machine.read f) := .of_eq fun _ _ => rfl

theorem Machine.Apart.bind {m : Machine α} {f : α → Machine β} [hm : Apart m]
    (hf : ∀ a, Apart (f a)) : Apart (m >>= f) := by
  refine ⟨fun h w => ?_, fun calls _ => ?_⟩
  · rw [bind_apply, bind_apply, hm.eq h w]
    split
    · next a w₁ _ => exact (hf a).eq h w₁
    · rfl
    · rfl
  · have := hm.firm calls
    exact .bind fun a => (hf a).firm calls

instance (m : Machine α) (f : α → Machine β) [Apart m] [hf : ∀ a, Apart (f a)] :
    Apart (m >>= f) :=
  .bind hf

instance (p : Prop) [Decidable p] (m m' : Machine α) [Apart m] [Apart m'] :
    Apart (if p then m else m') := by
  split
  · infer_instance
  · infer_instance

instance (enter : World → World) (leave : World → World → World) (m : Machine α)
    [hm : Apart m] : Apart (within enter leave m) :=
  ⟨fun h w => by rw [within, within, hm.eq h], fun calls _ =>
    have := hm.firm calls
    inferInstance⟩

instance (things : List Held) (m : Machine α) [Apart m] : Apart (holding things m) := by
  unfold holding
  infer_instance

instance (views : List ViewId) (m : Machine α) [Apart m] : Apart (holdingViews views m) := by
  unfold holdingViews
  infer_instance

instance (f : β → Machine Unit) [hf : ∀ b, Apart (f b)] (l : List β) : Apart (each f l) := by
  induction l with
  | nil =>
    unfold each
    infer_instance
  | cons b l ih =>
    unfold each
    infer_instance

instance (s : Subscriber) (change : Change) : @Apart Unit (call (.deliver s change)) :=
  ⟨fun h w => congrFun (h _ rfl) w, fun _ _ => inferInstance⟩

instance (entry : LogEntry) : Apart (logEntry entry) := by
  unfold logEntry
  infer_instance

instance (m : Mutation) : Apart (mutate m) := by
  unfold mutate recordMutation modifyDocument
  infer_instance

instance (v : ViewId) (parent : NodeId) (reference : Option NodeId) :
    Apart (insertView v parent reference) := by
  unfold insertView
  refine .bind fun w => ?_
  extract_lets s inPlace
  split
  · infer_instance
  · split
    · infer_instance
    · infer_instance

instance (v : ViewId) (reference : NodeId) : Apart (insertViewBefore v reference) := by
  unfold insertViewBefore
  refine .bind fun w => ?_
  split
  · infer_instance
  · infer_instance

instance (v : ViewId) : Apart (removeView v) := by
  unfold removeView
  infer_instance

instance (c : ContextId) (index length : Nat) : Apart (itemContext c index length) := by
  unfold itemContext newContext
  infer_instance

instance (change : Change) (l : List Subscriber) : Apart (deliverAll change l) := by
  induction l with
  | nil =>
    unfold deliverAll
    infer_instance
  | cons s l ih =>
    unfold deliverAll
    infer_instance

instance (n : NotifierId) (change : Change) : Apart (notify n change) := by
  unfold notify
  infer_instance

instance (c : ContextId) (index length : Nat) : Apart (updatePosition c index length) := by
  unfold updatePosition modifyContext
  refine .bind fun old => .bind fun _ => ?_
  split
  · infer_instance
  · next n _ =>
    extract_lets second
    have hs : ∀ u, Apart (second u) := fun _ => inferInstanceAs (Apart (ite _ _ _))
    split
    · exact .bind hs
    · exact hs ()

instance (length index : Nat) (views : List ViewId) : Apart (positionViews length index views) := by
  induction views generalizing index with
  | nil =>
    unfold positionViews
    infer_instance
  | cons v views ih =>
    unfold positionViews
    refine .bind fun context => ?_
    split
    · infer_instance
    · infer_instance

instance : Apart letGo := by
  unfold letGo
  infer_instance

end Around

end ReactiveViews
