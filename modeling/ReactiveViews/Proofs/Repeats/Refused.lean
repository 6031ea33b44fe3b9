import ReactiveViews.Proofs.Dormancy.Binding
import ReactiveViews.Proofs.Currency.Refreshing
import ReactiveViews.Proofs.Observing.Readers
/-!
# Refused changes of the items

When the binding of its items has changed, a repeat evaluates it, remembers the array, and moves its subscription for
splices there. Only then are views refreshed. Until then the change may be *refused* (`Machine.Refusal`): the
evaluation fails, its value is not an array, or the array cannot be observed.

Evaluating an expression that only reads disturbs nothing (`World.Undisturbed`). So after a refusal the repeat is
as it was, but for one thing: an array that cannot be observed has been remembered already. The
repeat is then subscribed to one array and remembers another, which is what the next full refresh will show.
-/

namespace ReactiveViews

namespace World

/-- **Undisturbed.** No behavior, view or node has been touched, nothing has been queued, and whoever is not an observer
is subscribed to what it was. -/
structure Undisturbed (w w' : World) : Prop where
  behaviors : w'.behaviors = w.behaviors
  views : w'.views = w.views
  document : w'.document = w.document
  queue : w'.queue = w.queue
  subscribed {n : NotifierId} {topic : Option String} {s : Subscriber} : (∀ o, s ≠ .observer o) →
    (⟨topic, s⟩ ∈ (w'.notifiers.get n).subscriptions ↔ ⟨topic, s⟩ ∈ (w.notifiers.get n).subscriptions)

variable {w w' : World}

theorem Undisturbed.trans {w'' : World} (h : w.Undisturbed w') (h' : w'.Undisturbed w'') :
    w.Undisturbed w'' where
  behaviors := h'.behaviors.trans h.behaviors
  views := h'.views.trans h.views
  document := h'.document.trans h.document
  queue := h'.queue.trans h.queue
  subscribed hs := (h'.subscribed hs).trans (h.subscribed hs)

theorem Quiet.undisturbed (h : w.Quiet w') : w.Undisturbed w' :=
  ⟨h.behaviors, h.views, h.document, h.queue, h.others⟩

/-- An observer that is about to evaluate its expression has disturbed nothing. -/
theorem undisturbed_evaluating (w : World) (o : ObserverId) : w.Undisturbed (w.evaluating o) := by
  have hposed : w.Undisturbed (w.poised o) := by
    obtain ⟨-, -, hbehaviors, hdocument⟩ := w.poised_frame o
    have hrest : (w.poised o).views = w.views ∧ (w.poised o).queue = w.queue ∧
        ((w.poised o).notifiers = w.notifiers ∨
          (w.poised o).notifiers = cancelled w.notifiers o (w.observers.get o).records) := by
      cases hc : (w.observers.get o).needsRefresh && !(w.observers.get o).records.isEmpty with
      | true =>
        simp only [poised, hc, if_true]
        exact ⟨rfl, rfl, .inr rfl⟩
      | false =>
        simp only [poised, hc]
        exact ⟨rfl, rfl, .inl rfl⟩
    obtain ⟨hviews, hqueue, hnotifiers⟩ := hrest
    refine ⟨hbehaviors, hviews, hdocument, hqueue, fun {n topic s} hs => ?_⟩
    obtain hn | hn := hnotifiers
    · rw [hn]
    · rw [hn, mem_cancelled]
      exact and_iff_left fun r _ _ he => hs o (congrArg Subscription.subscriber he)
  exact hposed.trans ⟨rfl, rfl, rfl, rfl, fun _ => Iff.rfl⟩

/-- A repeat remembers what it has last been given. -/
theorem items_of_repeatState?_alter {b : BehaviorId} {s : RepeatState} {items : Option ArrayId}
    (h : (w.alter b (.onRepeat fun s => { s with items })).repeatState? b = some s) :
    s.items = items := by
  rw [repeatState?, behavior_alter] at h
  cases hb : w.behavior b with
  | repeated s₀ =>
    rw [hb] at h
    exact congrArg RepeatState.items (Option.some.inj h).symm
  | binding | handler | probe =>
    rw [hb] at h
    exact absurd h (by simp [Behavior.onRepeat])

end World

namespace Machine

variable {calls : Calls} {w w' : World} {b : BehaviorId} {s : RepeatState} {bound : RepeatBound}
  {e : Error}

/-- An expression that only reads disturbs nothing when an observer evaluates it, whatever comes of it. -/
theorem observe_undisturbed (hc : RunsReaders calls) {o : ObserverId} {source : Value}
    {context : ContextId} {r : Except Error Value}
    (he : (w.observers.get o).evaluator.readsOnly = true)
    (h : observe o source context calls w = some (r, w')) : w.Undisturbed w' := by
  obtain ⟨outcome, w₁, heval, hconclude⟩ := observe_eq_some h
  have hquiet := ((hc.reads _ _ he).quiet heval).undisturbed
  have hover : w₁.Undisturbed w' := by
    unfold conclude at hconclude
    rw [bind_apply, read_apply] at hconclude
    dsimp only at hconclude
    cases hd : (w₁.observers.get o).deferredError with
    | some e =>
      rw [hd] at hconclude
      obtain ⟨rfl, rfl⟩ := Prod.mk.inj (Option.some.inj hconclude)
      exact ⟨rfl, rfl, rfl, rfl, fun _ => Iff.rfl⟩
    | none =>
      rw [hd] at hconclude
      cases outcome <;> obtain ⟨rfl, rfl⟩ := Prod.mk.inj (Option.some.inj hconclude) <;>
        exact ⟨rfl, rfl, rfl, rfl, fun _ => Iff.rfl⟩
  exact ((w.undisturbed_evaluating o).trans hquiet).trans hover

/-- **Retargeting.** What a repeat does about a change of its items before it refreshes any view. -/
def retarget (b : BehaviorId) : Machine Unit := do
  match (← get).repeatState? b with
  | none => pure ()
  | some s =>
    match s.bound with
    | none => pure ()
    | some bound =>
      let items ← observeItems s bound.source bound.context
      modifyRepeat b fun s => { s with items }
      followItems b false

/-- The rest is a full refresh. -/
theorem itemsChanged_eq (hs : w.repeatState? b = some s) (hbound : s.bound = some bound) :
    itemsChanged b calls w = (do
      retarget b
      refreshAllViews b false : Machine Unit) calls w := by
  unfold itemsChanged retarget
  simp only [bind_assoc]
  rw [bind_apply, bind_apply, get_apply]
  dsimp only
  rw [hs]
  dsimp only
  rw [hbound]
  simp only [bind_assoc]

/-- **Refusal.** How a change of the items is refused. -/
inductive Refusal (calls : Calls) (b : BehaviorId) (s : RepeatState) (bound : RepeatBound) (w : World) :
    Error → World → Prop
  /-- The evaluation fails. -/
  | failed {e : Error} {w' : World}
    (h : observe s.itemsObserver bound.source bound.context calls w = some (.error e, w')) :
    Refusal calls b s bound w e w'
  /-- Its value is neither an array nor null. -/
  | mistyped {v : Value} {e : Error} {w' : World}
    (h : observe s.itemsObserver bound.source bound.context calls w = some (.ok v, w'))
    (he : v.asItems = .error e) : Refusal calls b s bound w e w'
  /-- The array cannot be observed. It has been remembered all the same. -/
  | unobservable {a : ArrayId} {w₁ : World}
    (h : observe s.itemsObserver bound.source bound.context calls w = some (.ok (.array a), w₁))
    (ha : (w₁.arrays.get a).observer = none) (hoff : w₁.arrayObservation = .off) :
    Refusal calls b s bound w .arrayObservationDisabled
      (w₁.alter b (.onRepeat fun s => { s with items := some a }))

theorem asItems_eq_some {v : Value} {a : ArrayId} (h : v.asItems = .ok (some a)) : v = .array a := by
  cases v with
  | array a' => exact congrArg Value.array (Option.some.inj (Except.ok.inj h))
  | null | bool | number | text | object | template => exact absurd h (by simp [Value.asItems])

/-- The notifier of an array cannot be had if the array is not observed and cannot be. -/
theorem arrayNotifier_eq_error {a : ArrayId} (h : arrayNotifier a calls w = some (.error e, w')) :
    (w.arrays.get a).observer = none ∧ w.arrayObservation = .off ∧
      e = .arrayObservationDisabled ∧ w' = w := by
  unfold arrayNotifier at h
  rw [bind_apply, get_apply] at h
  dsimp only at h
  cases ha : (w.arrays.get a).observer with
  | some observer =>
    rw [ha] at h
    exact absurd (Prod.mk.inj (Option.some.inj h)).1 (by simp)
  | none =>
    rw [ha] at h
    dsimp only at h
    by_cases hoff : w.arrayObservation = .off
    · rw [if_pos hoff] at h
      obtain ⟨he, rfl⟩ := Prod.mk.inj (Option.some.inj h)
      exact ⟨rfl, hoff, (Except.error.inj he).symm, rfl⟩
    · rw [if_neg hoff] at h
      exact absurd (Prod.mk.inj (Option.some.inj h)).1 (by simp)

/-- Following the items fails only for an array that cannot be observed, and then nothing has been done. -/
theorem followItems_eq_error {force : Bool} (h : followItems b force calls w = some (.error e, w')) :
    ∃ s a, w.repeatState? b = some s ∧ s.items = some a ∧ (w.arrays.get a).observer = none ∧
      w.arrayObservation = .off ∧ e = .arrayObservationDisabled ∧ w' = w := by
  have hmodify : ∀ f, Firm calls (modifyRepeat b f) := fun _ => .of_eq fun _ => ⟨_, _, rfl⟩
  have hsubscribe : ∀ n, Firm calls (subscribe n (.behavior b) none) :=
    fun _ => .of_eq fun _ => ⟨_, _, rfl⟩
  have hunsubscribe : ∀ n, Firm calls (unsubscribe n (.behavior b) none) :=
    fun _ => .of_eq fun _ => ⟨_, _, rfl⟩
  have hfirm : ∀ {m : Machine Unit} {w : World}, Firm calls m → m calls w ≠ some (.error e, w') :=
    fun hm hc => (hm.ok hc).elim fun _ ha => absurd ha (by simp)
  unfold followItems at h
  rw [bind_apply, get_apply] at h
  dsimp only at h
  cases hs : w.repeatState? b with
  | none =>
    rw [hs] at h
    exact absurd (Prod.mk.inj (Option.some.inj h)).1 (by simp)
  | some s =>
    rw [hs] at h
    dsimp only at h
    cases hitems : s.items with
    | none =>
      rw [hitems] at h
      refine absurd h (hfirm (.bind fun notifier => ?_))
      cases s.itemsNotifier <;> cases notifier <;> dsimp only <;> infer_instance
    | some a =>
      rw [hitems] at h
      obtain ⟨e', harray, he⟩ | ⟨n, w₁, -, h⟩ := bind_eq_some h
      · obtain rfl := Except.error.inj he
        exact ⟨s, a, rfl, hitems, arrayNotifier_eq_error harray⟩
      · -- With the notifier at hand nothing fails.
        refine absurd h (hfirm (.bind fun notifier => ?_))
        cases s.itemsNotifier <;> cases notifier <;> dsimp only <;> infer_instance

/-- **A change is refused** in one of these ways. -/
theorem refusal_of_retarget (hs : w.repeatState? b = some s) (hbound : s.bound = some bound)
    (h : retarget b calls w = some (.error e, w')) : Refusal calls b s bound w e w' := by
  unfold retarget at h
  rw [bind_apply, get_apply] at h
  dsimp only at h
  rw [hs] at h
  dsimp only at h
  rw [hbound] at h
  dsimp only at h
  obtain ⟨e', hitems, he⟩ | ⟨items, w₁, hitems, h⟩ := bind_eq_some h
  · obtain rfl := Except.error.inj he
    unfold observeItems at hitems
    obtain ⟨e', hobserve, he⟩ | ⟨v, w₁, hobserve, hitems⟩ := bind_eq_some hitems
    · obtain rfl := Except.error.inj he
      exact .failed hobserve
    · cases hv : v.asItems with
      | ok items =>
        rw [hv] at hitems
        exact absurd (Prod.mk.inj (Option.some.inj hitems)).1 (by simp)
      | error e' =>
        rw [hv] at hitems
        obtain ⟨he, rfl⟩ := Prod.mk.inj (Option.some.inj hitems)
        obtain rfl := Except.error.inj he
        exact .mistyped hobserve hv
  · unfold observeItems at hitems
    obtain ⟨e', -, he⟩ | ⟨v, w₂, hobserve, hitems⟩ := bind_eq_some hitems
    · exact absurd he (by simp)
    cases hv : v.asItems with
    | error e' =>
      rw [hv] at hitems
      exact absurd (Prod.mk.inj (Option.some.inj hitems)).1 (by simp)
    | ok found =>
      rw [hv] at hitems
      obtain ⟨hok, rfl⟩ := Prod.mk.inj (Option.some.inj hitems)
      obtain rfl := Except.ok.inj hok
      rw [bind_apply, modifyRepeat_apply] at h
      obtain ⟨s₁, a, hs₁, hs₁a, ha, hoff, rfl, rfl⟩ := followItems_eq_error h
      obtain rfl : found = some a := World.items_of_repeatState?_alter hs₁ ▸ hs₁a
      exact .unobservable (asItems_eq_some hv ▸ hobserve) ha hoff

/-- **A change that is refused** is no more than its evaluation, but that an array that cannot be observed is
remembered. If evaluating the items only reads, then behaviors, views, nodes and the queue are what they
were, and the repeat is subscribed where it was: for the same array, unless it
remembers an array that it could not observe. -/
theorem refused_items_change (depth : Nat) (hs : w.repeatState? b = some s)
    (hbound : s.bound = some bound) (h : retarget b (run depth) w = some (.error e, w')) :
    itemsChanged b (run depth) w = some (.error e, w') ∧
      Refusal (run depth) b s bound w e w' ∧
      ((w.observers.get s.itemsObserver).evaluator.readsOnly = true →
        w.Undisturbed w' ∧ w'.repeatState? b = some s ∨
        ∃ a w₁, w.Undisturbed w₁ ∧ w₁.repeatState? b = some s ∧ e = .arrayObservationDisabled ∧
          (w₁.arrays.get a).observer = none ∧ w₁.arrayObservation = .off ∧
          w' = w₁.alter b (.onRepeat fun s => { s with items := some a })) := by
  have hrefusal := refusal_of_retarget hs hbound h
  refine ⟨?_, hrefusal, fun he => ?_⟩
  · rw [itemsChanged_eq hs hbound, bind_apply, h]
  have hkept : ∀ {w₁ : World} {r : Except Error Value},
      observe s.itemsObserver bound.source bound.context (run depth) w = some (r, w₁) →
      w.Undisturbed w₁ ∧ w₁.repeatState? b = some s := by
    intro w₁ r hobserve
    have hu := observe_undisturbed (run_runsReaders depth) he hobserve
    exact ⟨hu, by rw [World.repeatState?, World.behavior, hu.behaviors]; exact hs⟩
  cases hrefusal with
  | failed hobserve => exact .inl (hkept hobserve)
  | mistyped hobserve => exact .inl (hkept hobserve)
  | unobservable hobserve ha hoff =>
    obtain ⟨hu, hs₁⟩ := hkept hobserve
    exact .inr ⟨_, _, hu, hs₁, rfl, ha, hoff, rfl⟩

/-- A repeat over an array of two items. The binding of its items has come to be their number. -/
def counted : World :=
  { World.empty with
    arrays := ⟨#[⟨[.null, .null], some ⟨⟨0⟩, false, [], true⟩⟩]⟩
    notifiers := ⟨#[⟨[⟨none, .behavior ⟨0⟩⟩]⟩]⟩
    observers := ⟨#[⟨.rawLength (.constant (.array ⟨0⟩)), false, .itemsChanged ⟨0⟩, [], true, true, true,
      none⟩]⟩
    behaviors := ⟨#[⟨.repeated ⟨⟨0⟩, ⟨false, true⟩, ⟨0⟩, ⟨1⟩, some ⟨.null, ⟨0⟩, ⟨0⟩⟩, some ⟨0⟩, some ⟨0⟩,
      some ⟨0⟩, [⟨0⟩, ⟨1⟩]⟩, true⟩]⟩ }

/-- A number is refused, and the repeat goes on with its array. -/
theorem refused_number_keeps_items : ∃ w', itemsChanged ⟨0⟩ (run 3) counted =
      some (.error (.typeMismatch "array" "number"), w') ∧
    counted.Undisturbed w' ∧ w'.repeatState? ⟨0⟩ = counted.repeatState? ⟨0⟩ := by
  obtain ⟨s, bound, hs, hbound, he⟩ : ∃ s bound, counted.repeatState? ⟨0⟩ = some s ∧
      s.bound = some bound ∧ (counted.observers.get s.itemsObserver).evaluator.readsOnly = true :=
    ⟨_, _, rfl, rfl, rfl⟩
  obtain ⟨w', h⟩ : ∃ w', retarget ⟨0⟩ (run 3) counted =
      some (.error (.typeMismatch "array" "number"), w') := ⟨_, rfl⟩
  obtain ⟨hchanged, -, hkept⟩ := refused_items_change 3 hs hbound h
  obtain ⟨hu, hs'⟩ | ⟨_, _, _, _, hoff, _⟩ := hkept he
  · exact ⟨w', hchanged, hu, hs'.trans hs.symm⟩
  · exact absurd hoff (by simp)

end Machine

end ReactiveViews
