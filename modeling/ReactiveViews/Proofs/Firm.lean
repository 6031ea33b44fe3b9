import ReactiveViews.Proofs.Outcome
/-!
# What never fails

Failures are passed on by evaluation, by binding, and by commands. Telling
subscribers of a change is different: whoever is told deals with its own failures,
so that every recipient is told. The same goes for flushes, where a task that fails
does not keep the others from running. Unbinding evaluates nothing, and does not fail
either.
-/

namespace ReactiveViews

namespace Machine

variable {α β : Type} {calls : Calls}

/-- **Firm.** A computation that does not fail. -/
class Firm (calls : Calls) (m : Machine α) : Prop where
  ok {w w' : World} {r : Except Error α} : m calls w = some (r, w') → ∃ a, r = .ok a

/-- A computation that comes to a value at every world. -/
theorem Firm.of_eq {m : Machine α} (h : ∀ w, ∃ a w', m calls w = some (.ok a, w')) :
    Firm calls m := by
  refine ⟨fun {w w' r} hc => ?_⟩
  obtain ⟨a, w₁, hm⟩ := h w
  rw [hm] at hc
  obtain ⟨rfl, rfl⟩ : .ok a = r ∧ w₁ = w' := by simpa using hc
  exact ⟨a, rfl⟩

instance (a : α) : Firm calls (pure a) := .of_eq fun _ => ⟨_, _, rfl⟩

instance : Firm calls (get : Machine World) := .of_eq fun _ => ⟨_, _, rfl⟩

instance (w : World) : Firm calls (set w : Machine PUnit) := .of_eq fun _ => ⟨_, _, rfl⟩

instance (f : World → World) : Firm calls (modify f : Machine PUnit) := .of_eq fun _ => ⟨_, _, rfl⟩

instance (f : World → α) : Firm calls (read f) := .of_eq fun _ => ⟨_, _, rfl⟩

theorem Firm.bind {m : Machine α} {f : α → Machine β} [hm : Firm calls m]
    (hf : ∀ a, Firm calls (f a)) : Firm calls (m >>= f) := by
  refine ⟨fun {w w' r} h => ?_⟩
  obtain ⟨e, h1, rfl⟩ | ⟨a, w₁, h1, h2⟩ := bind_eq_some h
  · obtain ⟨a, ha⟩ := hm.ok h1
    exact absurd ha (by simp)
  · exact (hf a).ok h2

instance (m : Machine α) (f : α → Machine β) [Firm calls m] [hf : ∀ a, Firm calls (f a)] :
    Firm calls (m >>= f) :=
  .bind hf

instance (p : Prop) [Decidable p] (m m' : Machine α) [Firm calls m] [Firm calls m'] :
    Firm calls (if p then m else m') := by
  split
  · infer_instance
  · infer_instance

/-- Catching leaves no failure. -/
instance (m : Machine α) : Firm calls (attempt m) := by
  refine ⟨fun {w w' r} h => ?_⟩
  unfold attempt at h
  split at h
  · next r₁ w₁ _ =>
    obtain ⟨rfl, rfl⟩ : .ok r₁ = r ∧ w₁ = w' := by simpa using h
    exact ⟨_, rfl⟩
  · exact absurd h (by simp)

instance (enter : World → World) (leave : World → World → World) (m : Machine α)
    [hm : Firm calls m] : Firm calls (within enter leave m) := by
  refine ⟨fun {w w' r} h => ?_⟩
  unfold within at h
  split at h
  · next r₁ w₁ hc =>
    obtain ⟨rfl, rfl⟩ : r₁ = r ∧ leave w w₁ = w' := by simpa using h
    exact hm.ok hc
  · exact absurd h (by simp)

instance (things : List Held) (m : Machine α) [Firm calls m] : Firm calls (holding things m) := by
  unfold holding
  infer_instance

instance (entry : LogEntry) : Firm calls (logEntry entry) := by
  unfold logEntry
  infer_instance

instance (message : String) (e : Error) : Firm calls (logError message e) := by
  unfold logError
  infer_instance

instance {β : Type} (f : β → Machine Unit) [h : ∀ b, Firm calls (f b)] (l : List β) :
    Firm calls (each f l) := by
  induction l with
  | nil =>
    unfold each
    infer_instance
  | cons b l ih =>
    unfold each
    infer_instance

/-! ## Flushes -/

/-- Telling a subscriber does not fail, and neither does flushing until nothing is queued, nor
unbinding a view. -/
class Firmly (calls : Calls) : Prop where
  deliver (s : Subscriber) (change : Change) : @Firm Unit calls (call (.deliver s change))
  settle : @Firm FlushReport calls (call .settle)
  unbindView (v : ViewId) : @Firm Unit calls (call (.unbindView v))

instance [h : Firmly calls] (s : Subscriber) (change : Change) :
    @Firm Unit calls (call (.deliver s change)) := h.deliver s change

instance [h : Firmly calls] : @Firm FlushReport calls (call .settle) := h.settle

instance [h : Firmly calls] (v : ViewId) : @Firm Unit calls (call (.unbindView v)) :=
  h.unbindView v

variable [Firmly calls]

instance (scheduler : Scheduler) : Firm calls (askScheduler scheduler) := by
  cases scheduler with
  | manual =>
    unfold askScheduler
    infer_instance
  | log =>
    unfold askScheduler
    infer_instance
  | pool =>
    unfold askScheduler
    refine .bind fun w => ?_
    split
    · infer_instance
    · infer_instance

instance (next : FollowUp) : Firm calls (followUp next) := by
  cases next with
  | nothing =>
    unfold followUp
    infer_instance
  | schedule scheduler =>
    unfold followUp
    infer_instance
  | runNow =>
    unfold followUp
    infer_instance

instance (queue : Queue) : Firm calls (setQueue queue) := by
  unfold setQueue
  infer_instance

instance (t : Task) : Firm calls (enqueue t) := by
  unfold enqueue
  infer_instance

instance (ts : List Task) : Firm calls (runBatch ts) := by
  induction ts with
  | nil =>
    unfold runBatch
    infer_instance
  | cons t ts ih =>
    unfold runBatch
    refine .bind fun outcome => ?_
    split
    · infer_instance
    · infer_instance

instance (tickets : List TicketId) : Firm calls (redeem tickets) := by
  unfold redeem
  infer_instance

instance (processing : Bool) : Firm calls (setProcessing processing) := by
  unfold setProcessing
  infer_instance

instance : Firm calls process := by
  unfold process
  refine .bind fun w => .bind fun _ => ?_
  extract_lets finish
  have hf : ∀ report, Firm calls (finish report) := by
    intro report
    refine .bind fun _ => .bind fun w => ?_
    infer_instance
  split
  · exact .bind hf
  · exact .bind fun _ => .bind fun report => .bind fun _ => .bind hf

/-- **Flushing does not fail.** -/
instance : Firm calls settle := by
  unfold settle
  infer_instance

/-! ## Deliveries -/

instance (change : Change) (l : List Subscriber) : Firm calls (deliverAll change l) := by
  induction l with
  | nil =>
    unfold deliverAll
    infer_instance
  | cons s l ih =>
    unfold deliverAll
    infer_instance

instance (n : NotifierId) (change : Change) : Firm calls (notify n change) := by
  unfold notify
  infer_instance

instance (o : ObserverId) (f : ObserverState → ObserverState) :
    Firm calls (modifyObserver o f) := by
  unfold modifyObserver
  infer_instance

instance (o : ObserverId) : Firm calls (dependencyChanged o) := by
  unfold dependencyChanged
  refine .bind fun s => ?_
  split
  · infer_instance
  · split
    · refine .bind fun outcome => ?_
      split
      · infer_instance
      · infer_instance
    · infer_instance

instance (b : BehaviorId) (f : Behavior → Behavior) : Firm calls (modifyBehavior b f) := by
  unfold modifyBehavior
  infer_instance

instance (b : BehaviorId) (s : BindingState) : Firm calls (signalArrived b s) := by
  unfold signalArrived modifyBinding
  infer_instance

instance (b : BehaviorId) (change : Change) : Firm calls (behaviorChanged b change) := by
  unfold behaviorChanged
  refine .bind fun w => ?_
  split
  · infer_instance
  · refine .bind fun outcome => ?_
    split
    · infer_instance
    · infer_instance
  · infer_instance

instance (s : SubscriberId) (change : Change) : Firm calls (subscriberTold s change) := by
  unfold subscriberTold setSubscriber
  refine .bind fun w => .bind fun _ => .bind fun _ => .bind fun outcome => ?_
  split
  · infer_instance
  · infer_instance

/-- **Telling a subscriber does not fail.** -/
instance (s : Subscriber) (change : Change) : Firm calls (deliver s change) := by
  cases s with
  | observer o => exact inferInstanceAs (Firm calls (dependencyChanged o))
  | behavior b => exact inferInstanceAs (Firm calls (behaviorChanged b change))
  | scripted s => exact inferInstanceAs (Firm calls (subscriberTold s change))

/-! ## Unbinding -/

instance (m : Mutation) : Firm calls (mutate m) := by
  unfold mutate recordMutation modifyDocument
  infer_instance

instance (n : NotifierId) (s : Subscriber) (topic : Option String) :
    Firm calls (unsubscribe n s topic) := by
  unfold unsubscribe modifyNotifier
  infer_instance

instance (o : ObserverId) : Firm calls (disposeObserver o) := by
  unfold disposeObserver disconnect
  infer_instance

instance (b : BehaviorId) (composed : Option Composed) : Firm calls (setComposed b composed) := by
  unfold setComposed modifyBinding
  infer_instance

instance (b : BehaviorId) : Firm calls (unbindBinding b) := by
  unfold unbindBinding modifyBinding
  refine .bind fun w => ?_
  split
  · infer_instance
  · split
    · infer_instance
    · extract_lets release cancel unlisten
      have hr : ∀ u, Firm calls (release u) := by
        intro u
        unfold release
        split
        · infer_instance
        · infer_instance
      have hc : ∀ u, Firm calls (cancel u) := by
        intro u
        unfold cancel
        split
        · exact .bind hr
        · exact hr ()
      have hu : ∀ u, Firm calls (unlisten u) := by
        intro u
        unfold unlisten
        split
        · exact .bind hc
        · exact hc ()
      refine .bind fun _ => ?_
      split
      · exact .bind hu
      · exact hu ()

instance (b : BehaviorId) : Firm calls (unbindHandler b) := by
  unfold unbindHandler modifyHandler
  refine .bind fun w => ?_
  split
  · infer_instance
  · split
    · infer_instance
    · refine .bind fun _ => ?_
      split
      · infer_instance
      · infer_instance

instance (b : BehaviorId) : Firm calls (unbindRepeat b) := by
  unfold unbindRepeat modifyRepeat
  refine .bind fun w => ?_
  split
  · infer_instance
  · split
    · infer_instance
    · extract_lets dispose
      have hd : ∀ u, Firm calls (dispose u) := fun _ => inferInstanceAs (Firm calls (_ >>= _))
      refine .bind fun _ => ?_
      split
      · exact .bind hd
      · exact hd ()

instance (b : BehaviorId) : Firm calls (unbindBehavior b) := by
  unfold unbindBehavior
  refine .bind fun w => ?_
  split
  · infer_instance
  · infer_instance
  · infer_instance
  · infer_instance

/-- **Unbinding a view does not fail.** -/
instance (v : ViewId) : Firm calls (unbindView v) := by
  unfold unbindView modifyView
  refine .bind fun s => ?_
  infer_instance

end Machine

end ReactiveViews
