import ReactiveViews.Proofs.Currency.Tending
/-!
# What handlers of events do

Handlers are called up, which changes no node, and then they compute, write properties, or have commands
performed. So an event leaves an attachment tended if the writes and commands do. What
listens at the target of the attachment stays there, as it is not called only once.
-/

namespace ReactiveViews

namespace World

/-- Handlers for an event have been called up. -/
theorem Tended.takeHandlers {w : World} {changing : List PropertyRead} {a : Attachment}
    (h : w.Tended changing a) (n : NodeId) (type : String) :
    ({ w with document := (w.document.takeHandlers n type).2 } : World).Tended changing a := by
  have hsame : w.SameValues { w with document := (w.document.takeHandlers n type).2 } :=
    .of_eq rfl rfl rfl rfl
  refine h.spared ⟨hsame.toStands, rfl, rfl, rfl, id, fun ho hl => ?_⟩ (fun p _ _ => hsame.peek p.1 p.2)
    (fun _ => id) fun v hv => hv.of_sameIn (fun slot _ => ?_) hsame.display
  · exact Document.listener?_takeHandlers hl ho n type
  · exact .of_eq (Document.content_takeHandlers w.document n a.target type) slot

end World

namespace Machine

variable {calls : Calls} {a : Attachment}

/-- A change of an event behavior, which a binding is not. -/
instance (b : BehaviorId) (f : HandlerState → HandlerState) : Tends calls a (modifyHandler b f) := by
  refine ⟨fun {changing w w' r} hw h => ?_⟩
  obtain ⟨rfl, rfl⟩ := Prod.mk.inj (Option.some.inj h)
  have hsame : w.SameValues { w with behaviors := w.behaviors.modify b fun c => { c with
      behavior := match c.behavior with
        | .handler s => .handler (f s)
        | other => other } } := .of_eq rfl rfl rfl rfl
  refine hw.same ⟨hsame.toStands, rfl, ?_, rfl, id, fun _ => id⟩ hsame.peek rfl
  refine (Store.get_modify _ _ _ _).trans ?_
  split
  · next he => rw [he, hw.tied.behavior]
  · rfl

instance (e : EventId) : Tends calls a (preventDefault e) := by
  unfold preventDefault
  infer_instance

instance (e : EventId) : Tends calls a (stopPropagation e) := by
  unfold stopPropagation
  infer_instance

/-- What becomes of an event when a binding that handles it has been evaluated. -/
def settleEvent (e : EventId) (outcome : Except Error Value) : Machine Unit :=
  match outcome with
  | .ok (.bool true) => pure ()
  | .ok _ => preventDefault e
  | .error err => logError "event handler failed" err

instance (e : EventId) (outcome : Except Error Value) : Tends calls a (settleEvent e outcome) := by
  unfold settleEvent
  split <;> infer_instance

variable [∀ e env, Tends calls a (eval e env)] [∀ o name v, Tends calls a (setProperty o name v)]

instance (convert : Option Expr) (v : Value) : Tends calls a (convertValue convert v) := by
  unfold convertValue
  cases convert with
  | none => infer_instance
  | some e =>
    refine .bind fun r => ?_
    cases r <;> infer_instance

instance (how : Assign) (source v : Value) (context : ContextId) :
    Tends calls a (assign how source v context) := by
  unfold assign
  cases how with
  | expr e => infer_instance
  | property name => cases source <;> infer_instance

instance (b : BehaviorId) : Tends calls a (assignBack b) := by
  unfold assignBack
  refine .bind fun w => ?_
  cases w.bindingState? b with
  | none => infer_instance
  | some s =>
    dsimp only
    cases s.bound with
    | none => infer_instance
    | some bound =>
      cases s.binding.mode with
      | twoWay how type convert =>
        refine .bind fun v => .bind fun r => ?_
        cases r <;> infer_instance
      | oneTime | onChange | signal => infer_instance

instance (b : BehaviorId) (e : EventId) : Tends calls a (handleEvent b e) := by
  unfold handleEvent
  refine .bind fun w => ?_
  cases w.handlerState? b with
  | none => infer_instance
  | some s =>
    dsimp only
    cases s.bound with
    | none => infer_instance
    | some bound =>
      have hrest : Tends calls a (do
          settleEvent e (← attempt <| handling e <| untracked <|
            eval s.binding.evaluator ⟨bound.source, bound.context, .null⟩)) := inferInstance
      dsimp only
      split
      · exact .bind fun _ => hrest
      · exact hrest

variable [∀ c, @Tends Answer calls a (call (.perform c))]

instance (e : EventId) (action : Action) : Tends calls a (runAction e action) := by
  cases action with
  | prevent =>
    have ht : Tends calls a (preventDefault e) := inferInstance
    exact ht
  | stop =>
    have ht : Tends calls a (stopPropagation e) := inferInstance
    exact ht
  | perform c =>
    unfold runAction
    refine .bind fun r => ?_
    cases r <;> infer_instance

instance (e : EventId) (handler : Handler) : Tends calls a (callHandler e handler) := by
  cases handler with
  | scripted name actions | assign b | event b =>
    unfold callHandler
    infer_instance

/-! ## Handlers do not fail -/

section Firm

omit [∀ e env, Tends calls a (eval e env)] [∀ o name v, Tends calls a (setProperty o name v)]
  [∀ c, @Tends Answer calls a (call (.perform c))]

instance (e : EventId) : Firm calls (preventDefault e) := by
  unfold preventDefault modifyEvent
  infer_instance

instance (e : EventId) : Firm calls (stopPropagation e) := by
  unfold stopPropagation modifyEvent
  infer_instance

instance (convert : Option Expr) (v : Value) : Firm calls (convertValue convert v) := by
  unfold convertValue
  cases convert with
  | none => infer_instance
  | some e =>
    refine .bind fun r => ?_
    cases r <;> infer_instance

instance (b : BehaviorId) : Firm calls (assignBack b) := by
  unfold assignBack
  refine .bind fun w => ?_
  cases w.bindingState? b with
  | none => infer_instance
  | some s =>
    dsimp only
    cases s.bound with
    | none => infer_instance
    | some bound =>
      cases s.binding.mode with
      | twoWay how type convert =>
        refine .bind fun v => .bind fun r => ?_
        cases r <;> infer_instance
      | oneTime | onChange | signal => infer_instance

instance (e : EventId) (outcome : Except Error Value) : Firm calls (settleEvent e outcome) := by
  unfold settleEvent
  split <;> infer_instance

instance (b : BehaviorId) (e : EventId) : Firm calls (handleEvent b e) := by
  unfold handleEvent
  refine .bind fun w => ?_
  cases w.handlerState? b with
  | none => infer_instance
  | some s =>
    dsimp only
    cases s.bound with
    | none => infer_instance
    | some bound =>
      have hrest : Firm calls (do
          settleEvent e (← attempt <| handling e <| untracked <|
            eval s.binding.evaluator ⟨bound.source, bound.context, .null⟩)) := inferInstance
      dsimp only
      split
      · unfold modifyHandler
        exact .bind fun _ => hrest
      · exact hrest

instance (e : EventId) (action : Action) : Firm calls (runAction e action) := by
  cases action with
  | prevent =>
    have hf : Firm calls (preventDefault e) := inferInstance
    exact hf
  | stop =>
    have hf : Firm calls (stopPropagation e) := inferInstance
    exact hf
  | perform c =>
    unfold runAction
    refine .bind fun r => ?_
    cases r <;> infer_instance

instance (e : EventId) (handler : Handler) : Firm calls (callHandler e handler) := by
  cases handler with
  | scripted name actions | assign b | event b =>
    unfold callHandler
    infer_instance

end Firm

/-! ## Where an event goes -/

/-- An event goes on to the node around a node. -/
def ascend (n : NodeId) (e : EventId) : Machine Unit := do
  let w ← get
  let s := w.events.get e
  if s.bubbles && !s.propagationStopped then
    match w.document.parent? n with
    | some parent => call (.bubble parent e)
    | none => pure ()

/-- **An event at a node** has its handlers called, and goes on. -/
theorem bubble_apply (n : NodeId) (e : EventId) (calls : Calls) (w : World) :
    bubble n e calls w = (do
      holding [.event e, .node n]
        (each (callHandler e) (w.document.takeHandlers n (w.events.get e).type).1)
      ascend n e : Machine Unit) calls
      { w with document := (w.document.takeHandlers n (w.events.get e).type).2 } := rfl

variable [∀ n e, @Tends Unit calls a (call (.bubble n e))]

omit [∀ e env, Tends calls a (eval e env)] [∀ o name v, Tends calls a (setProperty o name v)]
  [∀ c, @Tends Answer calls a (call (.perform c))] in
instance (n : NodeId) (e : EventId) : Tends calls a (ascend n e) := by
  unfold ascend
  refine .bind fun w => ?_
  dsimp only
  split
  · cases w.document.parent? n <;> infer_instance
  · infer_instance

/-- **An event** leaves an attachment tended, wherever it goes, if what its handlers do does. -/
instance (n : NodeId) (e : EventId) : Tends calls a (bubble n e) := by
  refine ⟨fun {changing w w' r} hw h => ?_⟩
  have ht : Tends calls a (do
      holding [.event e, .node n]
        (each (callHandler e) (w.document.takeHandlers n (w.events.get e).type).1)
      ascend n e) := inferInstance
  exact ht.tends (hw.takeHandlers n (w.events.get e).type) ((bubble_apply n e calls w).symm.trans h)

instance (n : NodeId) (e : EventId) : Tends calls a (dispatch n e) := by
  unfold dispatch
  infer_instance

end Machine

end ReactiveViews
