import ReactiveViews.Proofs.Agreement
/-!
# Everything the machine does keeps to a setting

For each computation, that it is made of listed changes, of scopes and of calls.

This module is about observing. What an observer does keeps to the setting if the
observer is light, that is, calls back mild behaviors only, now and later.
-/

namespace ReactiveViews.Machine

theorem askScheduler_apply (scheduler : Scheduler) (calls : Calls) (w : World) :
    askScheduler scheduler calls w = some (.ok (), w.ask scheduler) := by
  cases scheduler with
  | manual | log => rfl
  | pool =>
    cases hp : w.pool <;>
      simp [askScheduler, World.ask, logEntry, bind_apply, get_apply, set_apply, modify_apply, hp]

theorem followUp_apply {next : FollowUp} (calls : Calls) (w : World) (h : next ≠ .runNow) :
    followUp next calls w = some (.ok (), w.follow next) := by
  cases next with
  | nothing => rfl
  | schedule scheduler => exact askScheduler_apply scheduler calls w
  | runNow => exact absurd rfl h

end ReactiveViews.Machine

namespace ReactiveViews.Setting

open Machine

variable {α : Type} {G : Regime} {S : Setting G}

/-! ## Single changes -/

/-- An entry that does not tell of a call of a listener, or of one that the regime has nothing special to say
of. -/
theorem agrees_logEntry {entry : LogEntry}
    (h : ∀ name, G.Mild (.listener name) ∨ entry.isCallOf name = false) : S.Agrees (logEntry entry) :=
  .modify fun w => .log w _ fun name => (h name).imp_right fun he => World.unheard_log he w

instance (s : String) (c : ShownChange) : S.Agrees (logEntry (.notified s c)) :=
  agrees_logEntry fun _ => .inr rfl

instance (s : String) (e : Error) : S.Agrees (logEntry (.subscriberFailed s e)) :=
  agrees_logEntry fun _ => .inr rfl

instance (o : Shown) (p : String) (old new : Shown) : S.Agrees (logEntry (.changed o p old new)) :=
  agrees_logEntry fun _ => .inr rfl

instance (e : Error) : S.Agrees (logEntry (.callbackFailed e)) :=
  agrees_logEntry fun _ => .inr rfl

instance (observer : String) : S.Agrees (logEntry (.reacted observer)) :=
  agrees_logEntry fun _ => .inr rfl

instance (task : String) : S.Agrees (logEntry (.ran task)) :=
  agrees_logEntry fun _ => .inr rfl

instance : S.Agrees (logEntry .scheduled) :=
  agrees_logEntry fun _ => .inr rfl

instance : S.Agrees (logEntry .flushed) :=
  agrees_logEntry fun _ => .inr rfl

instance (tag : String) (v : Shown) : S.Agrees (logEntry (.logged tag v)) :=
  agrees_logEntry fun _ => .inr rfl

instance (answer : Answer) : S.Agrees (logEntry (.did answer)) :=
  agrees_logEntry fun _ => .inr rfl

instance (e : Error) : S.Agrees (logEntry (.didFail e)) :=
  agrees_logEntry fun _ => .inr rfl

instance (name html : String) : S.Agrees (logEntry (.probeCreated name html)) :=
  agrees_logEntry fun _ => .inr rfl

instance (name : String) (source : Shown) (index length : Nat) : S.Agrees (logEntry (.probeBound name source index length)) :=
  agrees_logEntry fun _ => .inr rfl

instance (name : String) : S.Agrees (logEntry (.probeUnbound name)) :=
  agrees_logEntry fun _ => .inr rfl

instance (m : Mutation) (shown : ShownMutation) : S.Agrees (logEntry (.mutation m shown)) :=
  agrees_logEntry fun _ => .inr rfl

instance (message cause : String) : S.Agrees (logEntry (.error message cause)) :=
  agrees_logEntry fun _ => .inr rfl

instance (message : String) : S.Agrees (logEntry (.warning message)) :=
  agrees_logEntry fun _ => .inr rfl

instance (message : String) (e : Error) : S.Agrees (logError message e) := by
  unfold logError
  infer_instance

theorem agrees_newContext {s : ContextState} (h : s.notifier = none) : S.Agrees (newContext s) :=
  .modifyGet fun w => .newContext w s h

instance : S.Agrees rootContext := agrees_newContext rfl

instance (e : Expr) (env : Env) : S.Agrees (eval e env) := by
  unfold eval
  infer_instance

instance (e : Expr) (source extra : Value) : S.Agrees (evalAlone e source extra) := by
  unfold evalAlone
  infer_instance

instance (e : Expr) : S.Agrees (runBody e) := by
  unfold runBody
  infer_instance

/-! ## Notifiers -/

instance : S.Agrees newNotifier :=
  .modifyGet fun w => .newNotifier w

theorem subscribe_agreesAt {w : World} {b : BehaviorId} [h : G.Slight (.behavior b)] (hw : G.Inv w)
    (hb : b.index < w.behaviors.size) (n : NotifierId) {topic : Option String}
    (ht : w.Takes G.Mild b (.topic topic)) : S.AgreesAt (subscribe n (.behavior b) topic) w :=
  .modify hw (.subscribe w n topic h.mild hb ht)

instance (n : NotifierId) (b : BehaviorId) (topic : Option String) [h : G.Slight (.behavior b)] :
    S.Agrees (unsubscribe n (.behavior b) topic) :=
  .modify fun w => .unsubscribe w n topic nofun fun b' hb => by cases hb; exact h.mild

instance (n : NotifierId) (s : SubscriberId) (topic : Option String) :
    S.Agrees (unsubscribe n (.scripted s) topic) :=
  .modify fun w => .unsubscribe w n topic nofun nofun

/-- What a computation that looks a notifier up comes to. -/
def Finds (S : Setting G) (m : Machine NotifierId) (source : Observable) : Prop :=
  ∀ w, G.Inv w → S.Leads m w fun r w' =>
    G.Rel w w' ∧ G.Inv w' ∧ ∀ n, r = .ok n → w'.notifierOf? source = some n

theorem Finds.agrees {m : Machine NotifierId} {source : Observable} (h : S.Finds m source) :
    S.Agrees m :=
  ⟨fun {w} hw => (h w hw).mono fun _ _ h' => ⟨h'.1, h'.2.1⟩⟩

/-- A notifier that is there is given. -/
theorem finds_pure {n : NotifierId} {source : Observable} {w : World} (hw : G.Inv w)
    (hn : w.notifierOf? source = some n) :
    S.Leads (pure n) w fun r w' =>
      G.Rel w w' ∧ G.Inv w' ∧ ∀ n, r = .ok n → w'.notifierOf? source = some n :=
  .of_eq (fun _ => rfl) ⟨G.refl w, hw, fun _ h => by cases h; exact hn⟩

/-- A new notifier is made, and given to what it is for. -/
theorem finds_made {m : NotifierId → Machine NotifierId} {source : Observable} {w : World}
    (hw : G.Inv w) {f : NotifierId → World → World}
    (hm : ∀ n calls w, m n calls w = some (.ok n, f n w))
    (hf : ∀ n, World.Change G.Mild { w with notifiers := (w.notifiers.add ⟨[]⟩).2 }
      (f n { w with notifiers := (w.notifiers.add ⟨[]⟩).2 }))
    (hn : ∀ n w, (f n w).notifierOf? source = some n) :
    S.Leads (newNotifier >>= m) w fun r w' =>
      G.Rel w w' ∧ G.Inv w' ∧ ∀ n, r = .ok n → w'.notifierOf? source = some n := by
  obtain ⟨hr, hi⟩ := G.change hw (.newNotifier w)
  obtain ⟨hr', hi'⟩ := G.change hi (hf (w.notifiers.add ⟨[]⟩).1)
  exact .of_eq (fun calls => hm _ calls _) ⟨G.trans hr hr', hi', fun _ h => by cases h; exact hn _ _⟩

theorem finds_objectNotifier (o : ObjectId) : S.Finds (objectNotifier o) (.object o) := by
  intro w hw
  unfold objectNotifier
  refine .read ?_
  split
  · next n hn => exact finds_pure hw hn
  · next hn =>
    exact finds_made hw (fun _ _ _ => rfl) (fun n => .objectNotifier _ o n hn) fun n w => by
      simp [World.notifierOf?, Store.get_modify]

theorem finds_contextNotifier (c : ContextId) : S.Finds (contextNotifier c) (.context c) := by
  intro w hw
  unfold contextNotifier
  refine .read ?_
  split
  · next n hn => exact finds_pure hw hn
  · next hn =>
    exact finds_made hw (fun _ _ _ => rfl) (fun n => .contextNotifier _ c n hn) fun n w => by
      simp [World.notifierOf?, Store.get_modify]

theorem finds_arrayNotifier (a : ArrayId) : S.Finds (arrayNotifier a) (.array a) := by
  intro w hw
  unfold arrayNotifier
  refine Leads.read (g := id) ?_
  dsimp only [id]
  split
  · next observer ho => exact finds_pure hw (congrArg (Option.map ArrayObserver.notifier) ho)
  · next ho =>
    split
    · exact .of_eq (fun _ => rfl) ⟨G.refl w, hw, nofun⟩
    · next hoff =>
      obtain ⟨hr, hi⟩ := G.change hw (.observeArray w a ho hoff)
      refine .of_eq (fun _ => rfl) ⟨hr, hi, fun n h => ?_⟩
      cases h
      simp [World.notifierOf?, Store.get_modify]

theorem finds_observableNotifier (source : Observable) :
    S.Finds (observableNotifier source) source := by
  cases source with
  | object o => exact finds_objectNotifier o
  | array a => exact finds_arrayNotifier a
  | context c => exact finds_contextNotifier c

instance (o : ObjectId) : S.Agrees (objectNotifier o) := (finds_objectNotifier o).agrees

instance (c : ContextId) : S.Agrees (contextNotifier c) := (finds_contextNotifier c).agrees

instance (a : ArrayId) : S.Agrees (arrayNotifier a) := (finds_arrayNotifier a).agrees

instance (name : String) : S.Agrees (signalNotifier name) := by
  have hn : ∀ n, S.Agrees (modify fun w => { w with signals := w.signals.put name n } :
      Machine PUnit) := fun n => .modify fun w => .signals w _
  unfold signalNotifier
  refine .get fun w hw => ?_
  split
  · exact Agrees.agreesAt hw
  · exact Agrees.agreesAt hw

/-! ## Observers -/

theorem watch_agreesAt {w : World} {o : ObserverId} (hw : G.Inv w) (ho : w.Light G.Mild o)
    (source : Observable) (name : String) : S.AgreesAt (watch o source name) w := by
  unfold watch
  refine (finds_observableNotifier source w hw).attempt_bind ?_
  rintro found w₁ ⟨hr, hi, hn⟩
  have hl := G.light hr ho
  cases found with
  | error e => exact (AgreesAt.modify hi (.deferError w₁ _ hl)).since hr
  | ok n =>
    have hp : S.Agrees (pure ⟨⟩ : Machine PUnit) := inferInstance
    exact (AgreesAt.of_change hi (.recordRead w₁ name (hn n rfl) hl) hp fun _ => rfl).since hr

instance (source : Observable) (name : String) : S.Agrees (track source name) := by
  unfold track
  refine .get fun w hw => ?_
  split
  · next o ho => exact watch_agreesAt hw (G.watcher hw ho) source name
  · exact Agrees.agreesAt hw

instance : S.Agrees trackVolatile := by
  unfold trackVolatile
  refine .get fun w hw => ?_
  split
  · next o ho => exact .modify hw (.refresh w _ (G.watcher hw ho))
  · exact Agrees.agreesAt hw

/-- Cancelling the subscriptions of an observer to some reads, one after another. -/
theorem each_unsubscribe (o : ObserverId) (records : List Record) (calls : Calls) (w : World) :
    each (fun r : Record => unsubscribe r.notifier (.observer o) (some r.name)) records calls w =
      some (.ok (), { w with notifiers := World.cancelled w.notifiers o records }) := by
  induction records generalizing w with
  | nil => rfl
  | cons r records ih => exact ih _

theorem disconnect_apply (o : ObserverId) (calls : Calls) (w : World) :
    disconnect o calls w = some (.ok (), w.disconnect o) :=
  each_unsubscribe o _ calls _

theorem disconnect_agreesAt {w : World} {o : ObserverId} (hw : G.Inv w) (ho : w.Light G.Mild o) :
    S.AgreesAt (disconnect o) w := by
  have hp : S.Agrees (pure () : Machine Unit) := inferInstance
  exact .of_change hw (.disconnect w ho) hp fun calls => disconnect_apply o calls w

/-- One computation on a light observer, and then others. -/
theorem light_bind {β : Type} {m : Machine α} {f : α → Machine β} {w : World} {o : ObserverId}
    (ho : w.Light G.Mild o) (hm : S.AgreesAt m w)
    (hf : ∀ a w', G.Inv w' → w'.Light G.Mild o → S.AgreesAt (f a) w') : S.AgreesAt (m >>= f) w :=
  hm.chain fun a w' hr hw' => hf a w' hw' (G.light hr ho)

theorem observe_agreesAt {w₀ : World} {o : ObserverId} (hw : G.Inv w₀) (ho : w₀.Light G.Mild o)
    (source : Value) (context : ContextId) : S.AgreesAt (observe o source context) w₀ := by
  unfold observe
  refine .read ?_
  extract_lets evaluated
  have he : ∀ u w, G.Inv w → w.Light G.Mild o → S.AgreesAt (evaluated u) w := by
    intro u w hw ho
    refine light_bind ho (.modify hw (.refresh w _ ho)) fun _ w hw ho => ?_
    refine light_bind ho (.attempt ?_) fun result w hw ho => .read ?_
    · have hh : Scope G.Mild w (fun w => { w with held := [.subscriber (.observer o)] ++ w.held })
          (fun before after => { after with held := before.held }) :=
        .hold _ (by simp) (by simp) fun o' ho' => by
          cases List.mem_singleton.mp ho'
          exact ho
      have hw' := G.enter hh hw
      have hs : Scope G.Mild { w with held := [.subscriber (.observer o)] ++ w.held }
          (fun w => { w with watcher := _ })
          (fun before after => { after with watcher := before.watcher }) :=
        .watch (if (w₀.observers.get o).needsRefresh then some o else none) fun o' ho' => by
          split at ho'
          · cases ho'
            exact ho
          · exact absurd ho' nofun
      exact .scoped hh hw (.scoped hs hw' (Agrees.agreesAt (G.enter hs hw')))
    · split
      · refine light_bind ho (.modify hw (.deferError w _ ho)) fun _ w hw _ => ?_
        exact Agrees.agreesAt hw
      · exact Agrees.agreesAt hw
  split
  · exact light_bind ho (disconnect_agreesAt hw ho) he
  · exact he () w₀ hw ho

theorem disposeObserver_agreesAt {w : World} {o : ObserverId} (hw : G.Inv w)
    (ho : w.Light G.Mild o) : S.AgreesAt (disposeObserver o) w := by
  unfold disposeObserver
  refine light_bind ho (disconnect_agreesAt hw ho) fun _ w hw ho => ?_
  exact .modify hw (.openGate w _ ho)

instance [G.Open] (o : ObserverId) (source : Value) (context : ContextId) :
    S.Agrees (observe o source context) :=
  ⟨fun {w} hw => observe_agreesAt hw (Regime.Open.light G w o) source context⟩

instance [G.Open] (o : ObserverId) (isAsync : Bool) : S.Agrees (setObserverMode o isAsync) :=
  .modify fun w => .observerMode w isAsync (Regime.Open.light G w o)

instance [G.Open] (o : ObserverId) : S.Agrees (disposeObserver o) :=
  ⟨fun {w} hw => disposeObserver_agreesAt hw (Regime.Open.light G w o)⟩

instance (evaluator : Expr) (isVolatile : Bool) (name : String) (body : Expr) :
    S.Agrees (newObserver evaluator isVolatile (.scripted name body)) :=
  .modifyGet fun w => .newObserver w evaluator isVolatile nofun

/-! ## Properties -/

instance (type : String) : S.Agrees (accessorsOf type) := by
  unfold accessorsOf
  refine .get fun w hw => ?_
  exact .write hw (.lookUp w type) (fun _ => rfl) inferInstance

instance (type name : String) : S.Agrees (accessorOf? type name) := by
  unfold accessorOf?
  infer_instance

instance (o : ObjectId) (name : String) : S.Agrees (getProperty o name) := by
  unfold getProperty
  refine .get fun w hw => ?_
  split
  · next o' ho =>
    refine light_bind (G.watcher hw ho) (Agrees.agreesAt hw) fun type w hw ho => ?_
    refine light_bind ho (Agrees.agreesAt hw) fun found w hw ho => ?_
    split
    · refine light_bind ho (watch_agreesAt hw ho _ name) fun _ w hw _ => ?_
      exact Agrees.agreesAt hw
    · exact Agrees.agreesAt hw
  · exact Agrees.agreesAt hw

instance (o : ObjectId) (name : String) (old new : Value) (body : Expr) :
    S.Agrees (runCallback o name old new body) := by
  unfold runCallback
  refine .get fun w hw => ?_
  refine (Agrees.bind fun _ => .bind fun outcome => ?_).agreesAt hw
  split
  · infer_instance
  · infer_instance

/-! ## Contexts -/

instance (c : ContextId) : S.Agrees (contextIndex c) := by
  unfold contextIndex
  infer_instance

instance (c : ContextId) : S.Agrees (contextLength c) := by
  unfold contextLength
  infer_instance

instance (c : ContextId) (query : PositionQuery) : S.Agrees (queryPosition c query) := by
  cases query with
  | index | length | first | last | even | odd =>
    unfold queryPosition
    infer_instance
  | middle =>
    unfold queryPosition
    refine .bind fun index => ?_
    split
    · infer_instance
    · infer_instance

instance (c : ContextId) (source : Value) : S.Agrees (childContext c source) :=
  agrees_newContext rfl

instance (c : ContextId) (index length : Nat) : S.Agrees (itemContext c index length) := by
  have hn : ∀ s : ContextState,
      S.Agrees (newContext ⟨s.parent, s.parentContext, index, length, none⟩) :=
    fun _ => agrees_newContext rfl
  unfold itemContext
  infer_instance

/-! ## The queue -/

instance (scheduler : Scheduler) : S.Agrees (askScheduler scheduler) :=
  ⟨fun {w} hw => Leads.of_eq (fun calls => askScheduler_apply scheduler calls w)
    (G.change hw (.ask w scheduler))⟩

/-- Whatever is asked for but to empty the queue at once. -/
theorem followUp_agrees {next : FollowUp} (h : next ≠ .runNow) : S.Agrees (followUp next) := by
  cases next with
  | nothing =>
    unfold followUp
    infer_instance
  | schedule scheduler =>
    unfold followUp
    infer_instance
  | runNow => exact absurd rfl h

instance [G.Free] (next : FollowUp) : S.Agrees (followUp next) := by
  by_cases h : next = .runNow
  · subst h
    unfold followUp
    infer_instance
  · exact followUp_agrees h

instance [h : G.Slight .tickets] (tickets : List TicketId) : S.Agrees (redeem tickets) :=
  .modify fun w => .tickets w _ h.mild

end ReactiveViews.Setting
