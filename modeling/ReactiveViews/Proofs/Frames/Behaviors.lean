import ReactiveViews.Proofs.Frames.Views
/-!
# Frames of events, deliveries and evaluation
-/

namespace ReactiveViews.Setting

open Machine

variable {α : Type} {G : Regime} {S : Setting G}

/-! ## Events -/

section Behaviors

variable {b : BehaviorId} [hb : G.Slight (.behavior b)]

instance (e : EventId) : S.Agrees (preventDefault e) :=
  .modify fun w => .event w e _

instance (e : EventId) : S.Agrees (stopPropagation e) :=
  .modify fun w => .event w e _

theorem agrees_modifyHandler {f : HandlerState → HandlerState}
    (hf : ∀ s, (Behavior.handler (f s)).bare = (Behavior.handler s).bare)
    (ht : World.MayTether G.Mild b (fun s => (Behavior.handler s).tether) f) :
    S.Agrees (modifyHandler b f) := by
  refine agrees_modifyBehavior (fun s => ?_)
    (ht.imp (fun h s => ?_) (And.imp_right (Or.imp_left fun h s => ?_)))
  all_goals cases s with
    | handler s => first | exact hf s | exact h s
    | binding s | repeated s | probe s => rfl

instance (listener : Option Nat) : S.Agrees (modifyHandler b fun s => { s with listener }) :=
  agrees_modifyHandler (fun _ => rfl) (.inl fun _ => rfl)

instance [ht : G.Slight (.tether b)] (bound : Option Bound) :
    S.Agrees (modifyHandler b fun s => { s with bound }) :=
  agrees_modifyHandler (fun _ => rfl) (.inr ⟨ht.mild, .inl fun _ => rfl⟩)

instance [ht : G.Slight (.tether b)] (bound : Option Bound) (listener : Option Nat) :
    S.Agrees (modifyHandler b fun s => { s with bound, listener }) :=
  agrees_modifyHandler (fun _ => rfl) (.inr ⟨ht.mild, .inl fun _ => rfl⟩)

instance (e : EventId) : S.Agrees (handleEvent b e) := by
  unfold handleEvent
  refine .get fun w hw => ?_
  split
  · exact Agrees.agreesAt hw
  · split
    · exact Agrees.agreesAt hw
    · next s _ bound _ =>
      extract_lets evaluated
      have he : ∀ u, S.Agrees (evaluated u) := by
        intro u
        refine .bind fun outcome => ?_
        split
        · infer_instance
        · infer_instance
        · infer_instance
      split
      · exact (Agrees.bind he).agreesAt hw
      · exact (he ()).agreesAt hw

instance [G.Slight (.tether b)] : S.Agrees (unbindHandler b) := by
  unfold unbindHandler
  refine .get fun w hw => ?_
  split
  · exact Agrees.agreesAt hw
  · split
    · exact Agrees.agreesAt hw
    · refine (Agrees.bind fun _ => ?_).agreesAt hw
      split
      · infer_instance
      · infer_instance

instance [G.Slight (.tether b)] (source : Value) (context : ContextId) :
    S.Agrees (bindHandler b source context) := by
  unfold bindHandler
  refine .bind fun _ => .bind fun _ => .get fun w hw => ?_
  split
  · exact Agrees.agreesAt hw
  · exact Agrees.agreesAt hw

/-! ## Binding -/

instance [G.Slight (.tether b)] [S.Listing b] : S.Agrees (unbindBehavior b) := by
  unfold unbindBehavior
  refine .get fun w hw => ?_
  split
  · exact Agrees.agreesAt hw
  · exact Agrees.agreesAt hw
  · exact Agrees.agreesAt hw
  · exact Agrees.agreesAt hw

instance (s : ProbeState) (source : Value) (context : ContextId) :
    S.Agrees (bindProbe s source context) := by
  unfold bindProbe
  refine .bind fun index => .bind fun length => .get fun w hw => ?_
  refine (Agrees.bind fun _ => ?_).agreesAt hw
  split
  · infer_instance
  · infer_instance

instance [G.Slight (.tether b)] [S.Listing b] (source : Value) (context : ContextId) :
    S.Agrees (bindBehavior b source context) := by
  unfold bindBehavior
  refine .get fun w hw => ?_
  split
  · exact Agrees.agreesAt hw
  · exact Agrees.agreesAt hw
  · exact Agrees.agreesAt hw
  · exact Agrees.agreesAt hw

/-! ## Changes -/

omit hb in
theorem reactOwned_agreesAt {m : Machine Unit} {w : World} (hw : G.Inv w)
    (hm : G.Inv { w with held := [.subscriber (.behavior b)] ++ w.held } →
      S.AgreesAt m { w with held := [.subscriber (.behavior b)] ++ w.held }) :
    S.AgreesAt (reactOwned b m) w := by
  unfold reactOwned
  refine .get ?_
  split
  · have hh : Scope G.Mild w _ _ :=
      .hold [.subscriber (.behavior b)] (by simp) (by simp) fun o ho => absurd ho (by simp)
    exact .scoped hh hw (hm (G.enter hh hw))
  · exact Agrees.agreesAt hw

instance (m : Machine Unit) [hm : S.Agrees m] : S.Agrees (reactOwned b m) :=
  ⟨fun hw => reactOwned_agreesAt hw hm.agreesAt⟩

theorem behaviorChanged_of_takes [S.Steady] [S.Listing b] {w : World} (hw : G.Inv w)
    (hc : ∀ s, w.behavior b = .binding s → w.Takes G.Mild b .task) (change : Change) :
    S.AgreesAt (behaviorChanged b change) w := by
  unfold behaviorChanged
  refine .get ?_
  split
  · next s hs => exact signalArrived_agreesAt hw (World.lt_of_binding hs) (hc s hs) s
  · refine (Agrees.bind fun outcome => ?_).agreesAt hw
    split
    · infer_instance
    · infer_instance
  · exact Agrees.agreesAt hw

instance [S.Steady] [S.Listing b] [hc : G.Slight .cues] (change : Change) :
    S.Agrees (behaviorChanged b change) :=
  ⟨fun hw => behaviorChanged_of_takes hw (fun _ _ => .inr hc.mild) change⟩

end Behaviors

/-! ## Views -/

section Views

variable [∀ b, G.Slight (.tether b)] [∀ b, [G.Slight (.behavior b)] → S.Listing b] {v : ViewId}
  [hv : G.Slight (.view v)]

instance (source : Value) (context : ContextId) : S.Agrees (bindView v source context) := by
  unfold bindView
  refine .read fun w hw => ?_
  extract_lets isSame
  have hu : S.Agrees (each unbindBehavior (w.views.get v).behaviors) := .each fun b hb =>
    have : G.Slight (.behavior b) := ⟨G.behaviors hw hv.mild hb⟩
    inferInstance
  have hb : S.Agrees (each (fun b => bindBehavior b source context) (w.views.get v).behaviors) :=
    .each fun b hb =>
      have : G.Slight (.behavior b) := ⟨G.behaviors hw hv.mild hb⟩
      inferInstance
  exact Agrees.agreesAt hw

instance : S.Agrees (unbindView v) := by
  unfold unbindView
  refine .read fun w hw => ?_
  have hu : S.Agrees (each unbindBehavior (w.views.get v).behaviors) := .each fun b hb =>
    have : G.Slight (.behavior b) := ⟨G.behaviors hw hv.mild hb⟩
    inferInstance
  exact Agrees.agreesAt hw

end Views

instance [G.Accessible] (t : TemplateId) (source : Value) (context : ContextId) (parent : NodeId) :
    S.Agrees (render t source context parent) := by
  unfold render
  infer_instance

/-! ## Deliveries and tasks -/

/-- **Responsive.** What a mild behavior does when an observer of its own calls it back keeps to the
setting. -/
class Responsive (S : Setting G) : Prop where
  refresh {b : BehaviorId} {w : World} (hb : G.Mild (.behavior b)) : G.Inv w →
    w.Takes G.Mild b .observer → S.AgreesAt (reactOwned b (refreshBinding b)) w
  items {b : BehaviorId} (hb : G.Mild (.behavior b)) : S.Agrees (reactOwned b (itemsChanged b))
  template {b : BehaviorId} (hb : G.Mild (.behavior b)) :
    S.Agrees (reactOwned b (templateChanged b))

instance [∀ b, [G.Slight (.behavior b)] → S.Listing b] : S.Responsive where
  refresh hb hw hc :=
    have : G.Slight (.behavior _) := ⟨hb⟩
    reactOwned_agreesAt hw fun hw => refreshBinding_of_takes hw hc
  items hb :=
    have : G.Slight (.behavior _) := ⟨hb⟩
    inferInstance
  template hb :=
    have : G.Slight (.behavior _) := ⟨hb⟩
    inferInstance

/-- What an observer does once it has opened its gate. -/
theorem react_rest [hS : S.Responsive] {w : World} (hw : G.Inv w) (reaction : Reaction)
    (hm : ∀ b, reaction.behavior? = some b → G.Mild (.behavior b))
    (hc : ∀ b, reaction.behavior? = some b → w.Takes G.Mild b .observer) :
    S.AgreesAt (match reaction with
      | .scripted name body => do
        logEntry (.reacted name)
        runBody body
      | .refresh b => reactOwned b (refreshBinding b)
      | .itemsChanged b => reactOwned b (itemsChanged b)
      | .templateChanged b => reactOwned b (templateChanged b)) w := by
  cases reaction with
  | scripted name body => exact Agrees.agreesAt hw
  | refresh b => exact hS.refresh (hm b rfl) hw (hc b rfl)
  | itemsChanged b => exact (hS.items (hm b rfl)).agreesAt hw
  | templateChanged b => exact (hS.template (hm b rfl)).agreesAt hw

theorem react_agreesAt [S.Responsive] {w : World} {o : ObserverId} (hw : G.Inv w)
    (ho : w.Light G.Mild o) : S.AgreesAt (react o) w := by
  unfold react
  refine .read ?_
  split
  · exact Agrees.agreesAt hw
  · refine (AgreesAt.modify hw (.openGate w (·.needsRefresh) ho)).chain fun _ w₁ hr₁ hw₁ => ?_
    refine react_rest hw₁ _ (fun b hb => ?_) fun b hb => G.takes hr₁ (G.calledBack hw hb)
    rcases ho with ho | ho
    · exact ho.2 b hb
    · exact ho _

theorem dependencyChanged_agreesAt [S.Prompt] [S.Responsive] {w : World} {o : ObserverId}
    (hw : G.Inv w) (ho : w.Light G.Mild o) : S.AgreesAt (dependencyChanged o) w := by
  unfold dependencyChanged
  refine .read ?_
  split
  · exact queued_agreesAt hw (.tell ho) fun _ => rfl
  · split
    · refine (react_agreesAt hw ho).attempt.bind fun outcome w₁ hw₁ => ?_
      split
      · exact Agrees.agreesAt hw₁
      · exact Agrees.agreesAt hw₁
    · exact Agrees.agreesAt hw

/-- A scripted subscriber keeps what it is told, and then does what it does. -/
theorem subscriberTold_leads {s : SubscriberId} {change : Change} {w : World}
    (ht : G.Inv (w.told s change)) :
    S.Leads (subscriberTold s change) w fun _ w' => G.Rel (w.told s change) w' ∧ G.Inv w' := by
  unfold subscriberTold
  refine .step (fun _ => rfl) (.step (fun _ => rfl) (AgreesAt.bind (Agrees.agreesAt ht) ?_))
  refine fun _ w' h => AgreesAt.bind (Agrees.agreesAt h) fun outcome w' h => ?_
  split <;> exact Agrees.agreesAt h

instance [hG : G.Writable] (s : SubscriberId) (change : Change) :
    S.Agrees (subscriberTold s change) :=
  ⟨fun {w} hw =>
    have ht := hG.write hw (.told w s change)
    (subscriberTold_leads ht.2).mono fun _ _ h => ⟨G.trans ht.1 h.1, h.2⟩⟩

theorem agrees_deliver [G.Open] [G.Slight .cues] [S.Steady] [∀ b, S.Listing b] {s : Subscriber}
    {change : Change}
    (hs : ∀ s', s = .scripted s' → S.Agrees (subscriberTold s' change)) :
    S.Agrees (deliver s change) := by
  cases s with
  | observer o =>
    exact ⟨fun {w} hw => dependencyChanged_agreesAt hw (Regime.Open.light G w o)⟩
  | behavior b => exact inferInstanceAs (S.Agrees (behaviorChanged b change))
  | scripted s => exact hs s rfl

instance [G.Plain] [S.Steady] [∀ b, S.Listing b] (s : Subscriber) (change : Change) :
    S.Agrees (deliver s change) :=
  agrees_deliver fun _ _ => inferInstance

instance [G.Open] [S.Steady] [∀ b, S.Listing b] (t : Task) : S.Agrees (update t) := by
  cases t with
  | observer o => exact ⟨fun {w} hw => react_agreesAt hw (Regime.Open.light G w o)⟩
  | behavior b => exact inferInstanceAs (S.Agrees (updateAfterSignal b))
  | splices a => exact inferInstanceAs (S.Agrees (flushSplices a))
  | scripted t => exact inferInstanceAs (S.Agrees (_ >>= _))

/-! ## Evaluation -/

instance (typeName : Option String) (fields : Keyed Value) :
    S.Agrees (newObject typeName fields) :=
  .modifyGet fun w => .newObject w _ rfl

instance (items : List Value) : S.Agrees (newArray items) :=
  .modifyGet fun w => .newArray w items

mutual

theorem agrees_resolve (l : Literal) : S.Agrees (resolve l) := by
  cases l with
  | null | bool | number | text | handle =>
    unfold resolve
    infer_instance
  | object typeName fields =>
    have hf := agrees_resolveFields fields
    unfold resolve
    infer_instance
  | array items =>
    have hi := agrees_resolveAll items
    unfold resolve
    infer_instance

theorem agrees_resolveFields (fields : List (String × Literal)) :
    S.Agrees (resolveFields fields) := by
  cases fields with
  | nil =>
    unfold resolveFields
    infer_instance
  | cons field fields =>
    obtain ⟨name, l⟩ := field
    have hl := agrees_resolve l
    have hr := agrees_resolveFields fields
    unfold resolveFields
    infer_instance

theorem agrees_resolveAll (items : List Literal) : S.Agrees (resolveAll items) := by
  cases items with
  | nil =>
    unfold resolveAll
    infer_instance
  | cons l items =>
    have hl := agrees_resolve l
    have hr := agrees_resolveAll items
    unfold resolveAll
    infer_instance

end

instance (l : Literal) : S.Agrees (resolve l) := agrees_resolve l

instance (fields : List (String × Literal)) : S.Agrees (resolveFields fields) :=
  agrees_resolveFields fields

instance (items : List Literal) : S.Agrees (resolveAll items) := agrees_resolveAll items

instance (env : Env) (parts : List Expr) : S.Agrees (evalTexts env parts) := by
  induction parts with
  | nil =>
    unfold evalTexts
    infer_instance
  | cons e parts ih =>
    unfold evalTexts
    infer_instance

instance (env : Env) (last : Value) (parts : List Expr) : S.Agrees (evalLast env last parts) := by
  induction parts generalizing last with
  | nil =>
    unfold evalLast
    infer_instance
  | cons e parts ih =>
    unfold evalLast
    infer_instance

instance (query : EventQuery) : S.Agrees (queryEvent query) := by
  unfold queryEvent
  refine .get fun w hw => ?_
  split
  · exact Agrees.agreesAt hw
  · cases query with
    | type | detail | bubbles | prevented | target => exact Agrees.agreesAt hw

instance (f : EventState → EventState) : S.Agrees (onEvent f) := by
  have hp : S.Agrees (pure .null : Machine Value) := inferInstance
  refine ⟨fun {w} hw => ?_⟩
  cases he : w.currentEvent with
  | none =>
    refine .of_eq (fun calls => ?_) (G.refl w) (hp.agreesAt hw)
    simp only [onEvent, bind_apply, modify_apply, he]
  | some e =>
    refine .of_change hw (.event w e f) hp fun calls => ?_
    simp only [onEvent, bind_apply, modify_apply, he]

/-- Whatever is evaluated but to observe. -/
theorem evalExpr_agrees [S.Steady] {e : Expr} (h : ∀ observer on, e ≠ .observe observer on)
    (env : Env) : S.Agrees (evalExpr e env) := by
  cases e with
  | literal | constant | source | extra | cat | seq | not | eq | add | less | fail | event | prevent | stop | log
      | «volatile» | untracked | tracking | perform =>
    unfold evalExpr
    infer_instance
  | cond test onTrue onFalse =>
    unfold evalExpr
    infer_instance
  | get object name =>
    unfold evalExpr
    refine .bind fun v => ?_
    split
    · infer_instance
    · infer_instance
  | peek object name =>
    unfold evalExpr
    refine .bind fun v => ?_
    split
    · infer_instance
    · infer_instance
  | length e =>
    unfold evalExpr
    refine .bind fun v => ?_
    split
    · infer_instance
    · infer_instance
  | rawLength e =>
    unfold evalExpr
    refine .bind fun v => ?_
    split
    · infer_instance
    · infer_instance
  | item array index =>
    unfold evalExpr
    refine .bind fun v => .bind fun i => ?_
    split
    · infer_instance
    · infer_instance
  | join array =>
    unfold evalExpr
    refine .bind fun v => ?_
    split
    · infer_instance
    · infer_instance
  | position hops query =>
    unfold evalExpr
    refine .bind fun w => ?_
    split
    · infer_instance
    · infer_instance
  | parent hops =>
    unfold evalExpr
    refine .bind fun w => ?_
    split
    · infer_instance
    · infer_instance
  | set object name value =>
    unfold evalExpr
    refine .bind fun target => .bind fun v => ?_
    extract_lets done
    have hd : ∀ u, S.Agrees (done u) := fun _ => inferInstanceAs (S.Agrees (pure _))
    split
    · exact .bind hd
    · exact hd ()
  | push array value =>
    unfold evalExpr
    refine .bind fun target => .bind fun v => ?_
    extract_lets done
    have hd : ∀ u, S.Agrees (done u) := fun _ => inferInstanceAs (S.Agrees (pure _))
    split
    · exact .bind hd
    · exact hd ()
  | track on name =>
    unfold evalExpr
    refine .bind fun v => ?_
    extract_lets done
    have hd : ∀ u, S.Agrees (done u) := fun _ => inferInstanceAs (S.Agrees (pure _))
    split
    · exact .bind hd
    · exact .bind hd
    · exact .bind hd
  | observe observer on => exact absurd rfl (h observer on)

instance [G.Open] [S.Steady] (e : Expr) (env : Env) : S.Agrees (evalExpr e env) := by
  by_cases h : ∃ observer on, e = .observe observer on
  · obtain ⟨observer, on, rfl⟩ := h
    unfold evalExpr
    refine .bind fun v => .bind fun w => ?_
    split
    · infer_instance
    · infer_instance
  · exact evalExpr_agrees (fun observer on he => h ⟨observer, on, he⟩) env

/-! ## Events -/

section Events

variable [G.Open] [S.Steady]

instance (e : EventId) (a : Action) : S.Agrees (runAction e a) := by
  cases a with
  | prevent =>
    unfold runAction
    infer_instance
  | stop =>
    unfold runAction
    infer_instance
  | perform c =>
    unfold runAction
    refine .bind fun outcome => ?_
    split
    · infer_instance
    · infer_instance

/-- A handler that is not that of a scripted listener the regime has something to say of. -/
theorem agrees_callHandler (e : EventId) {h : Handler}
    (hh : ∀ name, G.Mild (.listener name) ∨ h.isOf name = false) : S.Agrees (callHandler e h) := by
  cases h with
  | scripted listener actions =>
    have hl : ∀ type detail prevented,
        S.Agrees (logEntry (.handled listener type detail prevented)) :=
      fun _ _ _ => agrees_logEntry hh
    unfold callHandler
    infer_instance
  | assign b =>
    unfold callHandler
    infer_instance
  | event b =>
    unfold callHandler
    infer_instance

variable [hl : ∀ name, G.Slight (.listener name)]

instance (e : EventId) (h : Handler) : S.Agrees (callHandler e h) :=
  agrees_callHandler e fun name => .inl (hl name).mild

instance (n : NodeId) (e : EventId) : S.Agrees (bubble n e) := by
  unfold bubble
  refine .bind fun type => .bind fun handlers => .bind fun _ => .get fun w hw => ?_
  extract_lets s
  split
  · split
    · exact Agrees.agreesAt hw
    · exact Agrees.agreesAt hw
  · exact Agrees.agreesAt hw

omit hl in
instance (e : EventId) (f : EventState → EventState) : S.Agrees (modifyEvent e f) :=
  .modify fun w => .event w e f

omit hl in
instance (n : NodeId) (e : EventId) : S.Agrees (dispatch n e) := by
  unfold dispatch
  infer_instance

end Events

end ReactiveViews.Setting
