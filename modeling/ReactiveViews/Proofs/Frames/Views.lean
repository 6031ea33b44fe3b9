import ReactiveViews.Proofs.Frames.Creation
import ReactiveViews.Proofs.Frames.Steady
import ReactiveViews.Proofs.Markup.Solid
/-!
# Frames of views and behaviors

What a behavior does keeps to the setting if the behavior is mild. Its observers are
light then, and so is what its node shows of its aspect (`Regime.observers`,
`Regime.aspects`).
-/

namespace ReactiveViews

namespace World

theorem behavior_of_bindingState? {w : World} {b : BehaviorId} {s : BindingState}
    (h : w.bindingState? b = some s) : w.behavior b = .binding s := by
  unfold bindingState? at h
  split at h
  · next s' hb =>
    cases h
    exact hb
  · exact absurd h nofun

theorem behavior_of_handlerState? {w : World} {b : BehaviorId} {s : HandlerState}
    (h : w.handlerState? b = some s) : w.behavior b = .handler s := by
  unfold handlerState? at h
  split at h
  · next s' hb =>
    cases h
    exact hb
  · exact absurd h nofun

theorem behavior_of_repeatState? {w : World} {b : BehaviorId} {s : RepeatState}
    (h : w.repeatState? b = some s) : w.behavior b = .repeated s := by
  unfold repeatState? at h
  split at h
  · next s' hb =>
    cases h
    exact hb
  · exact absurd h nofun

/-! What a behavior takes its cues from is seen from its mode. -/

theorem takes_observer {Mild : Subject → Prop} {w : World} {b : BehaviorId} {s : BindingState}
    (hs : w.bindingState? b = some s) (hm : s.binding.mode.Tracks) : w.Takes Mild b .observer :=
  .inl (by rw [behavior_of_bindingState? hs]; exact hm)

theorem takes_signal {Mild : Subject → Prop} {w : World} {b : BehaviorId} {s : BindingState}
    {name : String} (hs : w.bindingState? b = some s) (hm : s.binding.mode = .signal name) :
    w.Takes Mild b (.topic (some name)) :=
  .inl (by rw [behavior_of_bindingState? hs]; exact ⟨name, hm, rfl⟩)

theorem takes_splices {Mild : Subject → Prop} {w : World} {b : BehaviorId} {s : RepeatState}
    (hs : w.repeatState? b = some s) : w.Takes Mild b (.topic none) :=
  .inl (by rw [behavior_of_repeatState? hs]; rfl)

end World

namespace Setting

open Machine

variable {α : Type} {G : Regime} {S : Setting G}

/-! ## The host -/

instance (m : Mutation) : S.Agrees (recordMutation m) := by
  unfold recordMutation
  infer_instance

theorem agrees_move {m : Mutation} (h : ∀ d : Document, Document.Move d (d.mutate m))
    (hj : ∀ (d : Document) name, d.NoneJoin name (d.mutate m)) : S.Agrees (mutate m) := by
  have hm : S.Agrees (modifyDocument (·.mutate m)) := .modify fun w => .moved w (h _) (hj _)
  unfold mutate
  infer_instance

theorem agrees_shows {m : Mutation} {n : NodeId} {a : Aspect} (h : m.Shows n a)
    (ha : G.Mild (.aspect n a)) : S.Agrees (mutate m) := by
  have hm : S.Agrees (modifyDocument (·.mutate m)) := .modify fun w => .shows w h ha
  unfold mutate
  infer_instance

instance (parent child : NodeId) (reference : Option NodeId) :
    S.Agrees (mutate (.insert parent child reference)) :=
  agrees_move (fun d => .insert d parent child reference) fun d _ =>
    Document.noneJoin_of_same (d.listeners_insertBefore parent child reference)

instance (n : NodeId) : S.Agrees (mutate (.remove n)) :=
  agrees_move (fun d => .remove d n) fun d _ => Document.noneJoin_of_same (d.listeners_detach n)

instance (n : NodeId) (slot : Nat) : S.Agrees (mutate (.unlisten n slot)) :=
  agrees_move (fun d => .removeListener d n slot) fun d _ => d.noneJoin_removeListener n slot

/-- A listener is registered that is no scripted one of a name that the regime has something to say of. -/
theorem agrees_addListener (n : NodeId) {l : Listener}
    (h : ∀ name, G.Mild (.listener name) ∨ l.handler.isOf name = false) :
    S.Agrees (onDocument (·.addListener n l)) :=
  .modifyGet fun w => .move w (.addListener _ n l) fun name =>
    (h name).imp_right fun hl => World.unheard_document (Document.noneJoin_addListener hl n)

instance (node : NodeId) (type : String) (b : BehaviorId) (once : Bool) :
    S.Agrees (Machine.listen node ⟨type, .assign b, once⟩) := by
  have hm : S.Agrees (onDocument (·.addListener node ⟨type, .assign b, once⟩)) :=
    agrees_addListener node fun _ => .inr rfl
  unfold Machine.listen
  infer_instance

instance (node : NodeId) (type : String) (b : BehaviorId) (once : Bool) :
    S.Agrees (Machine.listen node ⟨type, .event b, once⟩) := by
  have hm : S.Agrees (onDocument (·.addListener node ⟨type, .event b, once⟩)) :=
    agrees_addListener node fun _ => .inr rfl
  unfold Machine.listen
  infer_instance

instance (n : NodeId) (type : String) : S.Agrees (onDocument (·.takeHandlers n type)) :=
  .modifyGet fun w => .moved w (.takeHandlers _ n type) fun _ => w.document.noneJoin_takeHandlers n type

/-! ## Views -/

instance (t : TemplateId) : S.Agrees (createView t) :=
  ⟨fun {w} hw => (createView_leads t w).mono fun _ _ h => G.change hw (.created h.1)⟩

instance (v : ViewId) (parent : NodeId) (reference : Option NodeId) :
    S.Agrees (insertView v parent reference) := by
  unfold insertView
  refine .get fun w hw => ?_
  split
  · exact Agrees.agreesAt hw
  · extract_lets inPlace
    split
    · exact Agrees.agreesAt hw
    · exact Agrees.agreesAt hw

instance (v : ViewId) (parent : NodeId) : S.Agrees (appendView v parent) := by
  unfold appendView
  infer_instance

instance (v : ViewId) (reference : NodeId) : S.Agrees (insertViewBefore v reference) := by
  unfold insertViewBefore
  refine .get fun w hw => ?_
  split
  · exact Agrees.agreesAt hw
  · exact Agrees.agreesAt hw

instance (v : ViewId) : S.Agrees (removeView v) := by
  unfold removeView
  infer_instance

instance [G.Accessible] (v : ViewId) : S.Agrees (disposeView v) := by
  unfold disposeView
  infer_instance

instance (v : ViewId) (source : Option Value) (context : Option ContextId)
    [h : G.Slight (.view v)] : S.Agrees (modifyView v fun s => { s with source, context }) :=
  .modify fun w => .view w source context h.mild

/-! ## Binding behaviors -/

/-- **Listing.** What a behavior does with the views that it lists keeps to the setting. -/
class Listing (S : Setting G) (b : BehaviorId) : Prop where
  content {w : World} {s : BindingState} : G.Inv w → w.behavior b = .binding s →
    s.aspect = .content → ∀ value source context,
      S.AgreesAt (updateContent b s value source context) w
  unbindBinding : S.Agrees (unbindBinding b)
  unbindRepeat : S.Agrees (unbindRepeat b)
  refreshAllViews (templateChanged : Bool) : S.Agrees (refreshAllViews b templateChanged)
  updateViews (splices : List Splice) : S.Agrees (updateViews b splices)

section Listing

variable {b : BehaviorId} [h : S.Listing b]

instance : S.Agrees (unbindBinding b) := h.unbindBinding

instance : S.Agrees (unbindRepeat b) := h.unbindRepeat

instance (templateChanged : Bool) : S.Agrees (refreshAllViews b templateChanged) :=
  h.refreshAllViews templateChanged

instance (splices : List Splice) : S.Agrees (updateViews b splices) := h.updateViews splices

end Listing

theorem agrees_modifyBehavior {b : BehaviorId} [h : G.Slight (.behavior b)]
    {f : Behavior → Behavior} (hf : ∀ s, (f s).bare = s.bare)
    (ht : World.MayTether G.Mild b Behavior.tether f) : S.Agrees (modifyBehavior b f) :=
  .modify fun w => .behavior w hf ht h.mild

theorem agrees_modifyBinding {b : BehaviorId} [G.Slight (.behavior b)]
    {f : BindingState → BindingState}
    (hf : ∀ s, (Behavior.binding (f s)).bare = (Behavior.binding s).bare)
    (ht : World.MayTether G.Mild b (fun s => (Behavior.binding s).tether) f) :
    S.Agrees (modifyBinding b f) := by
  refine agrees_modifyBehavior (fun s => ?_)
    (ht.imp (fun h s => ?_) (And.imp_right (Or.imp_left fun h s => ?_)))
  all_goals cases s with
    | binding s => first | exact hf s | exact h s
    | handler s | repeated s | probe s => rfl

section Behaviors

variable {b : BehaviorId} [hb : G.Slight (.behavior b)]

instance [ht : G.Slight (.tether b)] (bound : Option Bound) :
    S.Agrees (modifyBinding b fun s => { s with bound }) :=
  agrees_modifyBinding (fun _ => rfl) (.inr ⟨ht.mild, .inl fun _ => rfl⟩)

instance [ht : G.Slight (.tether b)] (bound : Option Bound) (listener : Option Nat)
    (signal : Option NotifierId) :
    S.Agrees (modifyBinding b fun s => { s with bound, listener, signal }) :=
  agrees_modifyBinding (fun _ => rfl) (.inr ⟨ht.mild, .inl fun _ => rfl⟩)

instance (listener : Option Nat) : S.Agrees (modifyBinding b fun s => { s with listener }) :=
  agrees_modifyBinding (fun _ => rfl) (.inl fun _ => rfl)

instance (signal : Option NotifierId) : S.Agrees (modifyBinding b fun s => { s with signal }) :=
  agrees_modifyBinding (fun _ => rfl) (.inl fun _ => rfl)

instance (signalNeedsQueue : Bool) :
    S.Agrees (modifyBinding b fun s => { s with signalNeedsQueue }) :=
  agrees_modifyBinding (fun _ => rfl) (.inl fun _ => rfl)

instance [ht : G.Slight (.tether b)] [hl : G.Slight (.lists b)] (composed : Option Composed) :
    S.Agrees (setComposed b composed) :=
  agrees_modifyBinding (fun _ => rfl) (.inr ⟨ht.mild, .inr hl.mild⟩)

/-- The observer of a mild binding behavior is light, also if it is made only now. -/
theorem bindingObserver_leads {w : World} {s : BindingState} (hw : G.Inv w)
    (hs : w.behavior b = .binding s) (hc : w.Takes G.Mild b .observer) :
    S.Leads (bindingObserver b s) w fun r w' =>
      G.Rel w w' ∧ G.Inv w' ∧ ∀ o, r = .ok o → w'.Light G.Mild o := by
  unfold bindingObserver
  split
  · next o ho =>
    refine .of_eq (fun _ => rfl) ⟨G.refl w, hw, ?_⟩
    rintro o' ⟨⟩
    exact G.observers hw hb.mild (by rw [hs, Behavior.observers, ho]; exact List.mem_singleton_self _)
  · have hr : ∀ b', Reaction.behavior? (.refresh b) = some b' → Reaction.refresh b = .refresh b' ∧
        G.Mild (.behavior b') ∧ b'.index < w.behaviors.size ∧ w.Takes G.Mild b' .observer := by
      rintro b' ⟨⟩
      exact ⟨rfl, hb.mild, World.lt_of_binding hs, hc⟩
    obtain ⟨hr₁, hw₁⟩ :=
      G.change hw (.newObserver w s.binding.evaluator s.binding.isVolatile hr)
    let o : ObserverId := ⟨w.observers.size⟩
    let w₁ := w.withObserver (.made s.binding.evaluator s.binding.isVolatile (.refresh b))
    have ho₁ : (w₁.observers.get o).reaction = .refresh b :=
      congrArg ObserverState.reaction (Store.get_add_self w.observers _)
    -- the observer may be made synchronous before the behavior is given it
    have hgive : ∀ w', G.Rel w w' → G.Inv w' → (w'.observers.get o).reaction = .refresh b →
        S.Leads (modifyBinding b (fun s => { s with observer := some o }) >>= fun _ => pure o) w'
          fun r w' => G.Rel w w' ∧ G.Inv w' ∧ ∀ o, r = .ok o → w'.Light G.Mild o := by
      intro w' hr' hw' ho
      obtain ⟨hr₂, hw₂⟩ := G.change hw' (.giveObserver w' ho hb.mild)
      refine .of_eq (fun _ => rfl) ⟨G.trans hr' hr₂, hw₂, ?_⟩
      rintro o' ⟨⟩
      exact World.light_of_behavior? (congrArg Reaction.behavior? ho) hb.mild
    refine (Leads.of_eq (fun _ => rfl) ⟨rfl, rfl⟩ : S.Leads (newObserver _ _ _) w fun r x =>
      r = .ok o ∧ x = w₁).bind (by simp) ?_
    rintro o' x ⟨ho', rfl⟩
    obtain rfl : o' = o := Except.ok.inj ho'
    split
    · have hl : w₁.Light G.Mild o :=
        World.light_of_behavior? (congrArg Reaction.behavior? ho₁) hb.mild
      obtain ⟨hr₂, hw₂⟩ := G.change hw₁ (.observerMode w₁ false hl)
      refine (Leads.of_eq (fun _ => rfl) ⟨rfl, rfl⟩ : S.Leads (setObserverMode o false) w₁
        fun r x => r = .ok () ∧ x = _).bind (by simp) ?_
      rintro _ x ⟨-, rfl⟩
      exact hgive _ (G.trans hr₁ hr₂) hw₂ (by simpa [Store.get_modify] using ho₁)
    · exact hgive w₁ hr₁ hw₁ ho₁

instance [G.Accessible] [G.Slight (.tether b)] [G.Slight (.lists b)] (composed : Option Composed) :
    S.Agrees (withdrawComposed b composed) := by
  unfold withdrawComposed
  split
  · split
    · infer_instance
    · infer_instance
  · infer_instance

instance [G.Accessible] (t : TemplateId) (composed : Option Composed) :
    S.Agrees (composedFor t composed) := by
  unfold composedFor
  split
  · split
    · infer_instance
    · extract_lets make
      have hm : ∀ u, S.Agrees (make u) := fun u => inferInstanceAs (S.Agrees (_ >>= _))
      split
      · infer_instance
      · exact hm ()
  · infer_instance

instance [G.Accessible] (c : Composed) (target : NodeId) (source : Value) (context : ContextId) :
    S.Agrees (compose c target source context) := by
  unfold compose
  split
  · infer_instance
  · split
    · infer_instance
    · infer_instance

theorem updateContent_agrees [G.Accessible] [G.Slight (.tether b)] [G.Slight (.lists b)]
    {s : BindingState} (ha : G.Mild (.aspect s.target .content))
    (value source : Value) (context : ContextId) :
    S.Agrees (updateContent b s value source context) := by
  have ht : ∀ text, S.Agrees (mutate (.text s.target text)) :=
    fun text => agrees_shows (.text s.target text) ha
  unfold updateContent
  split
  · infer_instance
  · infer_instance

instance [hS : S.Listing b] (value source : Value) (context : ContextId) :
    S.Agrees (applyBinding b value source context) := by
  unfold applyBinding
  refine .get fun w hw => ?_
  split
  · exact Agrees.agreesAt hw
  · next s hs =>
    have ha := G.aspects hw hb.mild (World.behavior_of_bindingState? hs)
    split
    · next he =>
      exact hS.content hw (World.behavior_of_bindingState? hs) he value source context
    · next name he => exact (agrees_shows (.attr _ name _) (he ▸ ha)).agreesAt hw
    · next name he => exact (agrees_shows (.flag _ name _) (he ▸ ha)).agreesAt hw
    · next name he => exact (agrees_shows (.prop _ name _) (he ▸ ha)).agreesAt hw
    · exact Agrees.agreesAt hw

theorem refreshBinding_of_takes [S.Listing b] {w : World} (hw : G.Inv w)
    (hc : w.Takes G.Mild b .observer) : S.AgreesAt (refreshBinding b) w := by
  unfold refreshBinding
  refine .get ?_
  split
  · exact Agrees.agreesAt hw
  · next s hs =>
    split
    · exact Agrees.agreesAt hw
    · next bound _ =>
      refine (bindingObserver_leads hw (World.behavior_of_bindingState? hs) hc).bind
        (fun _ _ h => ⟨h.1, h.2.1⟩) fun o w₁ h => ?_
      refine AgreesAt.since h.1 ((observe_agreesAt h.2.1 (h.2.2 o rfl) _ _).bind fun value w₂ hw₂ => ?_)
      exact Agrees.agreesAt hw₂

instance [S.Listing b] (binding : Binding) (source : Value)
    (context : ContextId) : S.Agrees (evaluateUntracked b binding source context) := by
  unfold evaluateUntracked
  infer_instance

theorem signalArrived_agreesAt [S.Steady] {w : World} (hw : G.Inv w)
    (hlt : b.index < w.behaviors.size) (hc : w.Takes G.Mild b .task) (s : BindingState) :
    S.AgreesAt (signalArrived b s) w := by
  have hm : S.Agrees (modifyBinding b fun s => { s with signalNeedsQueue := false }) :=
    inferInstance
  unfold signalArrived
  split
  · exact (hm.agreesAt hw).chain fun _ w₁ hr hw₁ =>
      enqueue_agreesAt hw₁ ⟨hb.mild, Nat.lt_of_lt_of_le hlt (G.grown hr), G.takes hr hc⟩
  · exact Agrees.agreesAt hw

instance [S.Listing b] : S.Agrees (updateAfterSignal b) := by
  unfold updateAfterSignal
  refine .get fun w hw => ?_
  split
  · exact Agrees.agreesAt hw
  · refine (Agrees.bind fun _ => ?_).agreesAt hw
    split
    · infer_instance
    · infer_instance

instance (convert : Option Expr) (value : Value) : S.Agrees (convertValue convert value) := by
  unfold convertValue
  split
  · infer_instance
  · refine .bind fun outcome => ?_
    split
    · infer_instance
    · infer_instance

instance [S.Steady] (how : Assign) (source value : Value) (context : ContextId) :
    S.Agrees (assign how source value context) := by
  unfold assign
  split
  · infer_instance
  · split
    · infer_instance
    · infer_instance

instance [S.Steady] (b : BehaviorId) : S.Agrees (assignBack b) := by
  unfold assignBack
  refine .get fun w hw => ?_
  split
  · exact Agrees.agreesAt hw
  · split
    · refine (Agrees.bind fun value => .bind fun outcome => ?_).agreesAt hw
      split
      · infer_instance
      · infer_instance
    · exact Agrees.agreesAt hw

theorem unbindBinding_agrees [G.Accessible] [G.Slight (.tether b)] [G.Slight (.lists b)] :
    S.Agrees (unbindBinding b) := by
  unfold unbindBinding
  refine .get fun w hw => ?_
  split
  · exact Agrees.agreesAt hw
  · next s hs =>
    split
    · exact Agrees.agreesAt hw
    · extract_lets release cancel unlisten
      have hr : ∀ u, S.Agrees (release u) := by
        intro u
        unfold release
        split
        · infer_instance
        · infer_instance
      have hc : ∀ u, S.Agrees (cancel u) := by
        intro u
        unfold cancel
        split
        · exact .bind hr
        · exact hr ()
      have hu : ∀ u, S.Agrees (unlisten u) := by
        intro u
        unfold unlisten
        split
        · exact .bind hc
        · exact hc ()
      have hm : S.Agrees (modifyBinding b fun s =>
        { s with bound := none, listener := none, signal := none }) := inferInstance
      refine (hm.agreesAt hw).chain fun _ w₁ hr₁ hw₁ => ?_
      split
      · next o ho =>
        have hl : w.Light G.Mild o := G.observers hw hb.mild (by
          rw [World.behavior_of_bindingState? hs, Behavior.observers, ho]
          exact List.mem_singleton_self o)
        exact (disposeObserver_agreesAt hw₁ (G.light hr₁ hl)).bind fun u _ => (hu u).agreesAt
      · exact (hu ()).agreesAt hw₁

instance [G.Slight (.tether b)] [S.Listing b] (source : Value) (context : ContextId) :
    S.Agrees (bindBinding b source context) := by
  unfold bindBinding
  refine .bind fun _ => .bind fun _ => .get fun w hw => ?_
  split
  · exact Agrees.agreesAt hw
  · next s hs =>
    split
    · exact Agrees.agreesAt hw
    · next hm => exact refreshBinding_of_takes hw (World.takes_observer hs (hm ▸ trivial))
    · next hm =>
      exact (refreshBinding_of_takes hw (World.takes_observer hs (hm ▸ trivial))).bind fun _ _ =>
        Agrees.agreesAt
    · next hm =>
      have hlt := World.lt_of_binding (World.behavior_of_bindingState? hs)
      refine AgreesAt.chain (Agrees.agreesAt hw) fun _ w₁ hr₁ hw₁ => ?_
      refine AgreesAt.chain (Agrees.agreesAt hw₁) fun n w₂ hr₂ hw₂ => ?_
      have hr := G.trans hr₁ hr₂
      have hlt₂ := Nat.lt_of_lt_of_le hlt (G.grown hr)
      exact (subscribe_agreesAt hw₂ hlt₂ n (G.takes hr (World.takes_signal hs hm))).bind fun _ _ =>
        Agrees.agreesAt

/-! ## Repeats -/

theorem agrees_modifyRepeat {f : RepeatState → RepeatState}
    (hf : ∀ s, (Behavior.repeated (f s)).bare = (Behavior.repeated s).bare)
    (ht : World.MayTether G.Mild b (fun s => (Behavior.repeated s).tether) f) :
    S.Agrees (modifyRepeat b f) := by
  refine agrees_modifyBehavior (fun s => ?_)
    (ht.imp (fun h s => ?_) (And.imp_right (Or.imp_left fun h s => ?_)))
  all_goals cases s with
    | repeated s => first | exact hf s | exact h s
    | binding s | handler s | probe s => rfl

instance (items : Option ArrayId) : S.Agrees (modifyRepeat b fun s => { s with items }) :=
  agrees_modifyRepeat (fun _ => rfl) (.inl fun _ => rfl)

instance (template : Option TemplateId) :
    S.Agrees (modifyRepeat b fun s => { s with template }) :=
  agrees_modifyRepeat (fun _ => rfl) (.inl fun _ => rfl)

instance (items : Option ArrayId) (template : Option TemplateId) :
    S.Agrees (modifyRepeat b fun s => { s with items, template }) :=
  agrees_modifyRepeat (fun _ => rfl) (.inl fun _ => rfl)

instance (itemsNotifier : Option NotifierId) :
    S.Agrees (modifyRepeat b fun s => { s with itemsNotifier }) :=
  agrees_modifyRepeat (fun _ => rfl) (.inl fun _ => rfl)

instance [ht : G.Slight (.tether b)] (bound : Option RepeatBound) :
    S.Agrees (modifyRepeat b fun s => { s with bound }) :=
  agrees_modifyRepeat (fun _ => rfl) (.inr ⟨ht.mild, .inl fun _ => rfl⟩)

instance [ht : G.Slight (.tether b)] (bound : Option RepeatBound) (items : Option ArrayId)
    (itemsNotifier : Option NotifierId) :
    S.Agrees (modifyRepeat b fun s => { s with bound, items, itemsNotifier }) :=
  agrees_modifyRepeat (fun _ => rfl) (.inr ⟨ht.mild, .inl fun _ => rfl⟩)

instance [ht : G.Slight (.tether b)] [hl : G.Slight (.lists b)] (views : List ViewId) :
    S.Agrees (modifyRepeat b fun s => { s with views }) :=
  agrees_modifyRepeat (fun _ => rfl) (.inr ⟨ht.mild, .inr hl.mild⟩)

instance (views : List ViewId) (m : Machine α) [S.Agrees m] :
    S.Agrees (holdingViews views m) := by
  unfold holdingViews
  infer_instance

theorem observeItems_agreesAt {w : World} {s : RepeatState} (hw : G.Inv w)
    (hs : w.Light G.Mild s.itemsObserver) (source : Value) (context : ContextId) :
    S.AgreesAt (observeItems s source context) w := by
  unfold observeItems
  exact (observe_agreesAt hw hs source context).bind fun _ _ => Agrees.agreesAt

theorem observeTemplate_agreesAt {w : World} {s : RepeatState} (hw : G.Inv w)
    (hs : w.Light G.Mild s.templateObserver) (source : Value) (context : ContextId) :
    S.AgreesAt (observeTemplate s source context) w := by
  unfold observeTemplate
  exact (observe_agreesAt hw hs source context).bind fun _ _ => Agrees.agreesAt

/-- The observers of a mild repeat are light. -/
theorem light_of_repeated {w : World} {s : RepeatState} (hw : G.Inv w)
    (hs : w.repeatState? b = some s) :
    w.Light G.Mild s.itemsObserver ∧ w.Light G.Mild s.templateObserver := by
  have ho : (w.behavior b).observers = [s.itemsObserver, s.templateObserver] := by
    rw [World.behavior_of_repeatState? hs, Behavior.observers]
  exact ⟨G.observers hw hb.mild (by rw [ho]; exact List.mem_cons_self ..),
    G.observers hw hb.mild (by rw [ho]; exact List.mem_cons_of_mem _ (List.mem_singleton_self _))⟩

instance (force : Bool) : S.Agrees (followItems b force) := by
  unfold followItems
  refine .get fun w hw => ?_
  split
  · exact Agrees.agreesAt hw
  · next s hs =>
    have hlt := World.lt_of_repeated (World.behavior_of_repeatState? hs)
    have hc : w.Takes G.Mild b (.topic none) := World.takes_splices hs
    extract_lets move
    have hm : ∀ notifier w', G.Rel w w' → G.Inv w' → S.AgreesAt (move notifier) w' := by
      intro notifier w₁ hr₁ hw₁
      unfold move
      extract_lets isChanged store subscribe
      have hs : ∀ u, S.Agrees (store u) := fun u => inferInstanceAs (S.Agrees (modifyRepeat b _))
      have hn : ∀ u w', G.Rel w w' → G.Inv w' → S.AgreesAt (subscribe u) w' := by
        intro u w₂ hr₂ hw₂
        unfold subscribe
        split
        · split
          · have hlt₂ := Nat.lt_of_lt_of_le hlt (G.grown hr₂)
            exact (subscribe_agreesAt hw₂ hlt₂ _ (G.takes hr₂ hc)).bind fun u _ => (hs u).agreesAt
          · exact (hs ()).agreesAt hw₂
        · exact (hs ()).agreesAt hw₂
      split
      · split
        · exact AgreesAt.chain (Agrees.agreesAt hw₁) fun u w₂ hr₂ hw₂ =>
            hn u w₂ (G.trans hr₁ hr₂) hw₂
        · exact hn () w₁ hr₁ hw₁
      · exact hn () w₁ hr₁ hw₁
    split
    · refine AgreesAt.chain (Agrees.agreesAt hw) fun n w₁ hr₁ hw₁ => ?_
      exact hm (some n) w₁ hr₁ hw₁
    · exact hm none w (G.refl w) hw

theorem skipPending_agreesAt [S.Steady] {w : World} (hw : G.Inv w)
    (hlt : b.index < w.behaviors.size) (hc : w.Takes G.Mild b (.topic none)) (s : RepeatState) :
    S.AgreesAt (skipPending b s) w := by
  unfold skipPending
  split
  · refine AgreesAt.chain (Agrees.agreesAt hw) fun _ w₁ hr₁ hw₁ => ?_
    refine AgreesAt.chain (Agrees.agreesAt hw₁) fun _ w₂ hr₂ hw₂ => ?_
    have hr := G.trans hr₁ hr₂
    exact subscribe_agreesAt hw₂ (Nat.lt_of_lt_of_le hlt (G.grown hr)) _ (G.takes hr hc)
  · exact Agrees.agreesAt hw

instance [G.Slight (.tether b)] [G.Slight (.lists b)] : S.Agrees (takeViews b) := by
  unfold takeViews
  infer_instance

instance [G.Slight (.tether b)] [G.Slight (.lists b)] (views : List ViewId) :
    S.Agrees (putViews b views) := by
  unfold putViews
  infer_instance

section Views

variable [G.Accessible]

instance (keep : World → ViewId → Bool) (views : List ViewId) :
    S.Agrees (retainViews keep views) := by
  induction views with
  | nil =>
    unfold retainViews
    infer_instance
  | cons v views ih =>
    unfold retainViews
    infer_instance

instance [G.Open] [S.Steady] (v : ViewId) (item : Value) (childContext : ContextId)
    (index length : Nat) : S.Agrees (refreshView v item childContext index length) := by
  unfold refreshView
  refine .bind fun s => ?_
  extract_lets shows
  split
  · infer_instance
  · infer_instance

instance : S.Agrees letGo :=
  .modify fun w => .sweep w

instance [G.Open] [S.Steady] (location : NodeId) (template : TemplateId) (childContext : ContextId)
    (length index : Nat) (done : List ViewId) (items : List Value) (views : List ViewId) :
    S.Agrees (matchViews location template childContext length index done items views) := by
  induction items generalizing index done views with
  | nil =>
    unfold matchViews
    infer_instance
  | cons item items ih =>
    cases views with
    | nil =>
      unfold matchViews
      refine .bind fun outcome => ?_
      split
      · infer_instance
      · infer_instance
    | cons v views =>
      unfold matchViews
      refine .bind fun outcome => ?_
      split
      · infer_instance
      · infer_instance

instance [G.Open] [S.Steady] (s : RepeatState) (childContext : ContextId) (templateChanged : Bool)
    (views : List ViewId) : S.Agrees (rebuild s childContext templateChanged views) := by
  unfold rebuild
  split
  · infer_instance
  · extract_lets recreateAll refill
    have hr : ∀ items, S.Agrees (refill items) := fun items => inferInstanceAs (S.Agrees (_ >>= _))
    split
    · exact .bind hr
    · exact .bind hr

theorem refreshAllViews_agrees [G.Open] [S.Steady] [G.Slight (.tether b)] [G.Slight (.lists b)]
    (templateChanged : Bool) : S.Agrees (refreshAllViews b templateChanged) := by
  unfold refreshAllViews
  refine .get fun w hw => ?_
  split
  · exact Agrees.agreesAt hw
  · next s hs =>
    split
    · exact Agrees.agreesAt hw
    · have hlt := World.lt_of_repeated (World.behavior_of_repeatState? hs)
      exact (skipPending_agreesAt hw hlt (World.takes_splices hs) s).bind fun _ _ => Agrees.agreesAt

instance (recycle : Bool) (v : ViewId) : S.Agrees (withdrawView recycle v) := by
  unfold withdrawView
  infer_instance

instance (location : NodeId) (template : TemplateId) (childContext : ContextId)
    (length position : Nat) (item : Value) (withdrawn views : List ViewId) :
    S.Agrees (addView location template childContext length position item withdrawn views) := by
  unfold addView
  extract_lets place
  have hp : ∀ reference, S.Agrees (place reference) := by
    intro reference
    unfold place
    extract_lets bindTo
    have hb : ∀ chosen, S.Agrees (bindTo chosen) := by
      rintro ⟨outcome, withdrawn⟩
      cases outcome with
      | error e => exact inferInstanceAs (S.Agrees (pure _))
      | ok v => exact inferInstanceAs (S.Agrees (_ >>= _))
    split
    · exact .bind hb
    · exact .bind fun outcome => .bind hb
  split
  · exact .bind hp
  · exact .bind hp

instance (location : NodeId) (template : TemplateId) (childContext : ContextId)
    (length position : Nat) (items : List Value) (withdrawn views : List ViewId) :
    S.Agrees (addViews location template childContext length position items withdrawn views) := by
  induction items generalizing position withdrawn views with
  | nil =>
    unfold addViews
    infer_instance
  | cons item items ih =>
    unfold addViews
    refine .bind fun added => ?_
    split
    split
    · infer_instance
    · infer_instance

instance (s : RepeatState) (template : TemplateId) (childContext : ContextId) (length : Nat)
    (splices : List Splice) (withdrawn views : List ViewId) :
    S.Agrees (applySplices s template childContext length splices withdrawn views) := by
  induction splices generalizing withdrawn views with
  | nil =>
    unfold applySplices
    infer_instance
  | cons splice splices ih =>
    unfold applySplices
    refine .bind fun _ => .bind fun added => ?_
    split
    split
    · infer_instance
    · infer_instance

instance [G.Open] [S.Steady] (length index : Nat) (views : List ViewId) :
    S.Agrees (positionViews length index views) := by
  induction views generalizing index with
  | nil =>
    unfold positionViews
    infer_instance
  | cons v views ih =>
    unfold positionViews
    refine .bind fun context => ?_
    split
    · infer_instance
    · infer_instance

theorem updateViews_agrees [G.Open] [S.Steady] [G.Slight (.tether b)] [G.Slight (.lists b)]
    (splices : List Splice) : S.Agrees (updateViews b splices) := by
  unfold updateViews
  refine .get fun w hw => ?_
  split
  · exact Agrees.agreesAt hw
  · split
    · extract_lets length
      refine (Agrees.bind fun views => .bind fun applied => ?_).agreesAt hw
      split
      refine .bind fun _ => ?_
      extract_lets put
      have hp : ∀ u, S.Agrees (put u) := fun _ => inferInstanceAs (S.Agrees (_ >>= _))
      split
      · infer_instance
      · exact hp ()
    · exact Agrees.agreesAt hw

theorem unbindRepeat_agrees [G.Slight (.tether b)] : S.Agrees (unbindRepeat b) := by
  unfold unbindRepeat
  refine .get fun w hw => ?_
  split
  · exact Agrees.agreesAt hw
  · next s hs =>
    split
    · exact Agrees.agreesAt hw
    · obtain ⟨hi, ht⟩ := light_of_repeated hw hs
      extract_lets dispose
      have hd : ∀ u w', G.Rel w w' → G.Inv w' → S.AgreesAt (dispose u) w' := by
        intro u w₁ hr₁ hw₁
        have he : S.Agrees (each (fun v => Machine.call (.unbindView v)) s.views) :=
          inferInstance
        refine (he.agreesAt hw₁).chain fun _ w₂ hr₂ hw₂ => ?_
        have hr := G.trans hr₁ hr₂
        refine (disposeObserver_agreesAt hw₂ (G.light hr hi)).chain fun _ w₃ hr₃ hw₃ => ?_
        exact disposeObserver_agreesAt hw₃ (G.light (G.trans hr hr₃) ht)
      refine AgreesAt.chain (Agrees.agreesAt hw) fun _ w₁ hr₁ hw₁ => ?_
      split
      · refine AgreesAt.chain (Agrees.agreesAt hw₁) fun u w₂ hr₂ hw₂ => ?_
        exact hd u w₂ (G.trans hr₁ hr₂) hw₂
      · exact hd () w₁ hr₁ hw₁

instance [G.Open] [S.Steady] [G.Slight (.tether b)] [G.Slight (.lists b)] : S.Listing b where
  content hw hs he value source context :=
    (updateContent_agrees (he ▸ G.aspects hw hb.mild hs) value source context).agreesAt hw
  unbindBinding := unbindBinding_agrees
  unbindRepeat := unbindRepeat_agrees
  refreshAllViews := refreshAllViews_agrees
  updateViews := updateViews_agrees

end Views

instance [S.Listing b] : S.Agrees (itemsChanged b) := by
  unfold itemsChanged
  refine .get fun w hw => ?_
  split
  · exact Agrees.agreesAt hw
  · next s hs =>
    split
    · exact Agrees.agreesAt hw
    · exact (observeItems_agreesAt hw (light_of_repeated hw hs).1 _ _).bind fun _ _ =>
        Agrees.agreesAt

instance [S.Listing b] : S.Agrees (templateChanged b) := by
  unfold templateChanged
  refine .get fun w hw => ?_
  split
  · exact Agrees.agreesAt hw
  · next s hs =>
    split
    · exact Agrees.agreesAt hw
    · exact (observeTemplate_agreesAt hw (light_of_repeated hw hs).2 _ _).bind fun _ _ =>
        Agrees.agreesAt

instance [G.Slight (.tether b)] [S.Listing b] (source : Value) (context : ContextId) :
    S.Agrees (bindRepeat b source context) := by
  unfold bindRepeat
  refine .bind fun _ => .bind fun childContext => .bind fun _ => .get fun w hw => ?_
  split
  · exact Agrees.agreesAt hw
  · next s hs =>
    obtain ⟨hi, ht⟩ := light_of_repeated hw hs
    refine light_bind ht (observeItems_agreesAt hw hi source context) fun items w₁ hw₁ ht => ?_
    exact (observeTemplate_agreesAt hw₁ ht source context).bind fun _ _ => Agrees.agreesAt

end Behaviors

/-! ## Templates -/

section Templates

variable [G.Open]

instance (c : Content) : S.Agrees (onDocument (·.create c)) :=
  .setupGet fun w => .edit w (.create _ c) fun _ =>
    Document.noneJoin_of_same (w.document.listeners_create c)

instance (parent child : NodeId) (reference : Option NodeId) :
    S.Agrees (modifyDocument (·.insertBefore parent child reference)) :=
  .modify fun w => .moved w (.insert _ parent child reference) fun _ =>
    Document.noneJoin_of_same (w.document.listeners_insertBefore parent child reference)

instance (s : TemplateState) : S.Agrees (modifyGet fun w : World =>
    ((w.templates.add s).1, { w with templates := (w.templates.add s).2 }) :
    Machine TemplateId) :=
  .setupGet fun w => .newTemplate w s

instance (fragment : NodeId) (directives : List (Path × Directive)) :
    S.Agrees (assembleTemplate fragment directives) := by
  unfold assembleTemplate
  refine .get fun w hw => ?_
  extract_lets d isPlaceholder enter
  have he : ∀ ds, S.Agrees (enter ds) := fun ds => inferInstanceAs (S.Agrees (modifyGet _))
  split
  · exact Agrees.agreesAt hw
  · exact Agrees.agreesAt hw

instance (strings : List String) (insertions : List Markup.Insertion) :
    S.Agrees (compileTemplate strings insertions) := by
  unfold compileTemplate
  cases hc : Markup.compile strings insertions with
  | error e => exact ⟨fun {w} hw => Leads.of_eq (fun _ => rfl) ⟨G.refl w, hw⟩⟩
  | ok c =>
    have hsolid : (Tree.node .fragment c.trees).Solid := by
      unfold Markup.compile at hc
      split at hc
      · exact absurd hc (by simp)
      · exact Markup.solidAll_of_run hc
    have hplant : S.Agrees (onDocument (·.plant (.node .fragment c.trees))) :=
      .setupGet fun w => .edit w (.plant _ hsolid) fun _ =>
        Document.noneJoin_of_same (w.document.listeners_plant _)
    have hrest : S.Agrees (onDocument (·.plant (.node .fragment c.trees)) >>= fun fragment =>
      assembleTemplate fragment c.targets) := inferInstance
    exact ⟨fun hw => Leads.congr (fun _ => rfl) (hrest.agreesAt hw)⟩

end Templates

end Setting

end ReactiveViews
