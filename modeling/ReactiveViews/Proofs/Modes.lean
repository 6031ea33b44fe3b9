import ReactiveViews.Proofs.Lasting
/-!
# What the modes of bindings ask for

After it has been bound, a binding behavior acts when an observer of its own calls it back, when
it is told of a change, and when it has been queued and its turn comes. These are its cues, and its
mode says which of them it takes: a one-time binding none at all, a signal binding its signal, and
every other binding what its observer has seen change.

Nothing that is done gives a behavior a cue that it does not take (`World.CueStep.of_change`). So in
every session, wherever a call is made, each behavior has only cues that it takes (`World.Honours`),
and is told only of what it takes (`modes_are_honoured`). Between two binds a one-time binding is
therefore not evaluated, nor is a signal binding before its signal. The mode is that of the
behavior's own binding: a binding that was put together from several parts is on-change, and a
repeat has observers whatever the modes of its bindings.
-/

namespace ReactiveViews

namespace Behavior

/-- What cues a behavior takes is said by what stays of it for good. -/
theorem Takes.of_lasting {x y : Behavior} {cue : Cue} (h : y.lasting = x.lasting)
    (hx : x.Takes cue) : y.Takes cue := by
  cases x with
  | handler | probe => exact hx.elim
  | binding s =>
    cases y with
    | binding s' =>
      have hb : s'.binding = s.binding := by
        simp only [lasting, bare, binding.injEq, BindingState.mk.injEq] at h
        exact h.2.2.1
      cases cue <;> simpa only [Takes, hb] using hx
    | handler | repeated | probe => exact absurd h (by simp [lasting, bare])
  | repeated s =>
    cases y with
    | repeated s' => cases cue <;> exact hx
    | binding | handler | probe => exact absurd h (by simp [lasting, bare])

end Behavior

namespace World

/-- **Cued.** A behavior has a cue: there is something that has it act. -/
inductive Cued (w : World) (b : BehaviorId) : Cue → Prop
  | observer {o : ObserverId} (h : (w.observers.get o).reaction.behavior? = some b) :
    Cued w b .observer
  | topic {n : NotifierId} {topic : Option String}
    (h : ⟨topic, .behavior b⟩ ∈ (w.notifiers.get n).subscriptions) : Cued w b (.topic topic)
  | task (h : .behavior b ∈ w.queue.tasks) : Cued w b .task

/-- **Honouring modes.** Every behavior takes all cues that it has. -/
def Honours (w : World) : Prop :=
  ∀ b cue, w.Cued b cue → (w.behavior b).Takes cue

/-- **Told.** A change is one that a behavior is told of under a topic that it takes. -/
def Told (w : World) (b : BehaviorId) (change : ReactiveViews.Change) : Prop :=
  ∃ topic, (topic = none ∨ topic = change.key?) ∧ (w.behavior b).Takes (.topic topic)

variable {w w' : World} {b : BehaviorId}

/-- A behavior that takes any cue has been made. -/
theorem lt_of_takes {cue : Cue} (h : (w.behavior b).Takes cue) : b.index < w.behaviors.size :=
  w.behaviors.index_lt_of_get_ne fun hd => by
    rw [behavior, hd] at h
    exact h.elim

theorem Lasts.takes {spared : ViewId → Bool} (hl : w.Lasts spared w') {cue : Cue}
    (h : (w.behavior b).Takes cue) : (w'.behavior b).Takes cue :=
  h.of_lasting (hl.behavior (lt_of_takes h))

theorem Lasts.told {spared : ViewId → Bool} (hl : w.Lasts spared w') {change : ReactiveViews.Change}
    (h : w.Told b change) : w'.Told b change := by
  obtain ⟨topic, ht, hb⟩ := h
  exact ⟨topic, ht, hl.takes hb⟩

/-- A binding behavior that is told of something has a signal for its mode, and is told of that. -/
theorem Told.signal {change : ReactiveViews.Change} (h : w.Told b change) {s : BindingState}
    (hs : w.behavior b = .binding s) :
    ∃ name, s.binding.mode = .signal name ∧ change.key? = some name := by
  obtain ⟨topic, ht, hb⟩ := h
  rw [hs] at hb
  obtain ⟨name, hm, rfl⟩ := hb
  exact ⟨name, hm, (ht.resolve_left nofun).symm⟩

/-- **Cue step.** What happens gives behaviors only cues that they take. -/
structure CueStep (w w' : World) : Prop where
  observer : ∀ o b, (w'.observers.get o).reaction.behavior? = some b →
    (w.observers.get o).reaction.behavior? = some b ∨ (w'.behavior b).Takes .observer
  topic : ∀ n topic b, ⟨topic, .behavior b⟩ ∈ (w'.notifiers.get n).subscriptions →
    ⟨topic, .behavior b⟩ ∈ (w.notifiers.get n).subscriptions ∨ (w'.behavior b).Takes (.topic topic)
  task : ∀ b, .behavior b ∈ w'.queue.tasks →
    .behavior b ∈ w.queue.tasks ∨ (w'.behavior b).Takes .task

namespace CueStep

/-- Cues that were taken are taken still, and so are those that have come. -/
theorem honours {spared : ViewId → Bool} (h : CueStep w w') (hl : w.Lasts spared w')
    (hw : w.Honours) : w'.Honours := by
  intro b cue hc
  cases hc with
  | observer ho => exact (h.observer _ b ho).elim (fun ho => hl.takes (hw b _ (.observer ho))) id
  | topic ht => exact (h.topic _ _ b ht).elim (fun ht => hl.takes (hw b _ (.topic ht))) id
  | task ht => exact (h.task b ht).elim (fun ht => hl.takes (hw b _ (.task ht))) id

/-- A step that makes no cues. -/
theorem of_fewer (ho : ∀ o, (w'.observers.get o).reaction = (w.observers.get o).reaction)
    (hn : ∀ n topic b, ⟨topic, .behavior b⟩ ∈ (w'.notifiers.get n).subscriptions →
      ⟨topic, .behavior b⟩ ∈ (w.notifiers.get n).subscriptions)
    (hq : ∀ t ∈ w'.queue.tasks, t ∈ w.queue.tasks) : CueStep w w' where
  observer o _ h := .inl (ho o ▸ h)
  topic n topic b h := .inl (hn n topic b h)
  task _ h := .inl (hq _ h)

theorem of_eq (ho : w'.observers = w.observers) (hn : w'.notifiers = w.notifiers)
    (hq : w'.queue.tasks = w.queue.tasks) : CueStep w w' :=
  .of_fewer (fun _ => by rw [ho]) (fun _ _ _ h => hn ▸ h) fun _ h => hq ▸ h

/-- What is done to one observer leaves its reaction alone. -/
theorem reaction_modify {observers : Store .observer ObserverState} {o o' : ObserverId}
    {f : ObserverState → ObserverState} (hf : ∀ s, (f s).reaction = s.reaction) :
    ((observers.modify o f).get o').reaction = (observers.get o').reaction := by
  rw [Store.get_modify]
  split
  · next h => rw [hf, h]
  · rfl

/-- What is done to one notifier subscribes no behavior anywhere if it does not do so there. -/
theorem mem_of_modify {n₀ : NotifierId} {f : Notifier → Notifier}
    (hf : ∀ n topic b, ⟨topic, .behavior b⟩ ∈ (f n).subscriptions →
      ⟨topic, .behavior b⟩ ∈ n.subscriptions) (n : NotifierId) (topic : Option String)
    (b : BehaviorId) (h : ⟨topic, .behavior b⟩ ∈ ((w.notifiers.modify n₀ f).get n).subscriptions) :
    ⟨topic, .behavior b⟩ ∈ (w.notifiers.get n).subscriptions := by
  rw [Store.get_modify] at h
  split at h
  · next he => exact he ▸ hf _ topic b h
  · exact h

/-- Subscribing somebody else subscribes no behavior. -/
theorem mem_of_subscribe {s : Subscriber} (hs : ∀ b, s ≠ .behavior b) (t : Option String)
    (n : Notifier) (topic : Option String) (b : BehaviorId)
    (h : ⟨topic, .behavior b⟩ ∈ (n.subscribe s t).subscriptions) :
    ⟨topic, .behavior b⟩ ∈ n.subscriptions :=
  (Notifier.mem_of_mem_subscribe h).resolve_right fun he =>
    hs b (congrArg Subscription.subscriber he).symm

/-- Asking a scheduler for a flush makes no cues. -/
theorem follow (h : CueStep w w') (next : FollowUp) : CueStep w (w'.follow next) := by
  obtain hf | ⟨log, hf⟩ | ⟨pool, hf⟩ := w'.follow_cases next
  · rwa [hf]
  · rw [hf]
    exact ⟨h.observer, h.topic, h.task⟩
  · rw [hf]
    exact ⟨h.observer, h.topic, h.task⟩

/-- What is queued takes its cue. -/
theorem of_queued {Mild : Subject → Prop} (hm : ¬ Mild .cues) {next : FollowUp}
    (h : Queued Mild w next w') : CueStep w w' := by
  cases h with
  | @accept t ht =>
    refine ⟨fun _ _ h => .inl h, fun _ _ _ h => .inl h, fun b h => ?_⟩
    obtain h | rfl := Queue.mem_accept.mp h
    · exact .inl h
    · exact .inr (ht.2.2.resolve_right hm)
  | @tell o _ =>
    have hr : ∀ o', ((w.tell o).observers.get o').reaction = (w.observers.get o').reaction :=
      fun _ => reaction_modify fun _ => rfl
    exact ⟨fun o' _ h => .inl (hr o' ▸ h), fun _ _ _ h => .inl h,
      fun b h => .inl ((Queue.mem_accept.mp h).resolve_right nofun)⟩

/-- A new observer calls back a behavior that takes it. -/
theorem newObserver {s : ObserverState}
    (h : ∀ b, s.reaction.behavior? = some b → (w.behavior b).Takes .observer) :
    CueStep w (w.withObserver s) where
  observer o b ho := by
    by_cases he : o = (w.observers.add s).1
    · rw [he, withObserver, Store.get_add_self] at ho
      exact .inr (h b ho)
    · rw [withObserver, Store.get_add_of_ne _ _ _ he] at ho
      exact .inl ho
  topic _ _ _ h := .inl h
  task _ h := .inl h

/-- The new observers that a view brings along are those of its repeats. -/
theorem created (h : Created w w') : CueStep w w' where
  observer o b ho := by
    rcases Nat.lt_or_ge o.index w.observers.size with hlt | hge
    · exact .inl (h.observers.get o hlt ▸ ho)
    · obtain ⟨-, s, hs⟩ := (h.newObserver o hge).behavior b ho
      exact .inr (hs ▸ trivial)
  topic _ _ _ ht := .inl (by rwa [h.rest] at ht)
  task _ ht := .inl (by rwa [h.rest] at ht)

theorem sweep (w : World) : CueStep w w.sweep := by
  refine .of_fewer (fun o => ?_) (fun n topic b h => ?_) fun _ h => h
  · rw [observers_sweep]
    split <;> rfl
  · rw [notifiers_sweep] at h
    exact (Notifier.mem_retain.mp h).1

/-- **No listed change gives a behavior a cue that it does not take**, if one has anything to say of
cues. -/
theorem of_change {Mild : Subject → Prop} (hm : ¬ Mild .cues) (h : Change Mild w w') :
    CueStep w w' := by
  cases h with
  | log | lookUp | signals | tickets | event | move | shows | newObject | newArray | newContext
      | objectNotifier | contextNotifier | behavior | giveObserver | view | drop =>
    exact of_eq rfl rfl rfl
  | created h => exact created h
  | queued h _ => exact (of_queued hm h).follow _
  | ask scheduler => exact (of_eq rfl rfl rfl : CueStep w w).follow (.schedule scheduler)
  | request =>
    have h : CueStep w { w with queue := w.queue.requestIfNeeded.1 } :=
      of_eq rfl rfl (Queue.tasks_requestIfNeeded _)
    exact h.follow _
  | sweep => exact sweep w
  | newNotifier | observeArray =>
    exact of_fewer (fun _ => rfl) (fun _ _ _ h => mem_newNotifier.mp h) fun _ h => h
  | newObserver evaluator isVolatile h =>
    exact newObserver fun b hb => (h b hb).2.2.2.resolve_right hm
  | @subscribe n b topic _ _ ht =>
    refine ⟨fun _ _ h => .inl h, fun n' topic' b' h => ?_, fun _ h => .inl h⟩
    rw [Store.get_modify] at h
    split at h
    · next he =>
      obtain h | he' := Notifier.mem_of_mem_subscribe h
      · exact .inl (he ▸ h)
      · cases he'
        exact .inr (ht.resolve_right hm)
    · exact .inl h
  | unsubscribe =>
    exact of_fewer (fun _ => rfl) (mem_of_modify fun _ _ _ h => (Notifier.mem_unsubscribe.mp h).1)
      fun _ h => h
  | recordRead name =>
    exact of_fewer (fun _ => reaction_modify fun _ => rfl)
      (mem_of_modify (mem_of_subscribe (fun _ => by simp) _)) fun _ h => h
  | disconnect =>
    exact of_fewer (fun _ => reaction_modify fun _ => rfl) (fun _ _ _ h => (mem_cancelled.mp h).1)
      fun _ h => h
  | refresh | deferError | observerMode | openGate =>
    exact of_fewer (fun _ => reaction_modify fun _ => rfl) (fun _ _ _ h => h) fun _ h => h

theorem of_setup (h : Setup w w') : CueStep w w' := by
  cases h <;> exact of_eq rfl rfl rfl

theorem of_write (h : Write w w') : CueStep w w' := by
  cases h with
  | subscribe n s topic =>
    exact of_fewer (fun _ => rfl) (mem_of_modify (mem_of_subscribe (fun _ => by simp) topic))
      fun _ h => h
  | storeField | items | takeUp | handOver | told => exact of_eq rfl rfl rfl

theorem of_access (h : Access w w') : CueStep w w' := by
  cases h <;> exact of_eq rfl rfl rfl

theorem of_adjustment (h : Adjustment w w') : CueStep w w' := by
  cases h with
  | @await ticket queue next hq =>
    have h : CueStep w { w with queue } := of_eq rfl rfl (Queue.tasks_await hq)
    exact h.follow next
  | install => exact of_eq rfl rfl (Queue.tasks_install _ _)
  | mode | pool => exact of_eq rfl rfl rfl

end CueStep

end World

/-! ## The regime -/

/-- Whom a call has act takes the cue. -/
def Call.Heeds : Call → World → Prop
  | .deliver (.behavior b) change, w => w.Told b change
  | .update (.behavior b), w => (w.behavior b).Takes .task
  | _, _ => True

theorem Call.IsPlain.heeds {c : Call} (h : c.IsPlain) (w : World) : c.Heeds w := by
  cases c with
  | deliver | update | settle | drainPool => exact h.elim
  | eval | bindView | unbindView | bubble | perform => trivial

/-- Nothing else of the world matters. -/
theorem World.Honours.congr {w w' : World} (hw : w.Honours) (hb : w'.behaviors = w.behaviors)
    (ho : w'.observers = w.observers) (hn : w'.notifiers = w.notifiers) (hq : w'.queue = w.queue) :
    w'.Honours := by
  intro b cue hc
  rw [behavior, hb]
  refine hw b cue ?_
  cases hc with
  | observer h => exact .observer (ho ▸ h)
  | topic h => exact .topic (hn ▸ h)
  | task h => exact .task (hq ▸ h)

/-- A step that gives behaviors only cues that they take leaves modes honoured. -/
theorem honouring_respects {w w' : World} (hs : World.CueStep w w')
    (hl : w.Lasts (fun _ => false) w') (hw : w.Honours) :
    w.Lasts (fun _ => false) w' ∧ w'.Honours :=
  ⟨hl, hs.honours hl hw⟩

/-- **The regime of modes.** -/
def honouring : Regime where
  allowed _ _ := true
  Mild x := x ≠ .cues
  Inv := World.Honours
  Rel := World.Lasts fun _ => false
  Entry c w := w.Honours ∧ c.Heeds w
  Exit _ w _ w' := w.Lasts (fun _ => false) w' ∧ w'.Honours
  refl := .refl
  trans := .trans
  entry hc _ hw := ⟨hw, Call.IsPlain.heeds hc _⟩
  exit _ _ _ h := h
  change hw hc :=
    honouring_respects (.of_change (fun h => h rfl) hc) (.of_change (fun _ _ => rfl) hc) hw
  enter hs hw := by cases hs <;> exact World.Honours.congr hw rfl rfl rfl rfl
  leave hs _ hl hw' := by
    cases hs <;> exact ⟨⟨hl.size_behaviors, hl.size_views, hl.behavior, hl.view, hl.spared⟩,
      World.Honours.congr hw' rfl rfl rfl rfl⟩
  grown hl := hl.size_behaviors
  light _ _ := .inr fun _ => nofun
  takes hl ht := .inl (hl.takes (ht.resolve_right fun h => h rfl))
  calledBack hw hb := .inl (hw _ _ (.observer hb))
  watcher _ _ := .inr fun _ => nofun
  behaviors _ _ _ := nofun
  observers _ _ _ := .inr fun _ => nofun
  aspects _ _ _ := nofun

instance (name : String) : honouring.Slight (.listener name) := ⟨nofun⟩

instance : honouring.Loose where
  tether _ := nofun
  lists _ := nofun
  view _ _ := nofun

instance : honouring.Accessible where
  entry {c _} hv hw := by
    cases c with
    | bindView | unbindView => exact ⟨hw, trivial⟩
    | _ => exact absurd rfl hv
  exit _ _ h := h
  access hw hc := honouring_respects (.of_access hc) (by cases hc <;> exact .of_eq rfl rfl) hw

instance : honouring.Writable where
  behavior _ := nofun
  aspect _ _ := nofun
  setup hw hc := honouring_respects (.of_setup hc) (by cases hc <;> exact .of_eq rfl rfl) hw
  write hw hc := honouring_respects (.of_write hc) (by cases hc <;> exact .of_eq rfl rfl) hw

instance : honouring.Free where
  tickets := nofun
  behavior _ := nofun
  aspect _ _ := nofun
  setup hw hc := honouring_respects (.of_setup hc) (by cases hc <;> exact .of_eq rfl rfl) hw
  flush {c _} hc hw := by
    cases c with
    | settle | drainPool => exact ⟨hw, trivial⟩
    | eval | bindView | unbindView | bubble | perform | deliver | update => exact hc.elim
  flushed _ _ h := h
  pressed hw hc := honouring_respects (.of_queued (fun h => h rfl) hc) (.of_queued hc) hw
  adjust hw hc := honouring_respects (.of_adjustment hc) (.of_adjustment hc) hw

namespace Setting

open Machine

variable {S : Setting honouring} {w : World}

/-- **Telling behaviors of what they take** keeps to every setting. -/
theorem deliverAll_honours {change : Change} {l : List Subscriber} (hw : w.Honours)
    (hl : ∀ b, .behavior b ∈ l → w.Told b change) : S.AgreesAt (deliverAll change l) w := by
  induction l generalizing w with
  | nil => exact Agrees.agreesAt (m := pure ()) hw
  | cons s l ih =>
    have hs : Scope honouring.Mild w _ _ :=
      .hold ((s :: l).map .subscriber) (by simp) (by simp) fun _ _ => .inr fun _ => nofun
    have hi := honouring.enter hs hw
    have hc : Call.Heeds (.deliver s change)
        { w with held := (s :: l).map .subscriber ++ w.held } := by
      cases s with
      | behavior b => exact hl b (List.mem_cons_self ..)
      | observer | scripted => trivial
    unfold deliverAll
    have he : honouring.Entry (Call.deliver s change) _ := ⟨hi, hc⟩
    have hcall : @AgreesAt Unit honouring S (Machine.call (.deliver s change)) _ :=
      Leads.call he
    refine (AgreesAt.scoped hs hw hcall).chain fun _ w₁ hr hw₁ => ?_
    exact ih hw₁ fun b hb => World.Lasts.told hr (hl b (List.mem_cons_of_mem _ hb))

/-- A notifier tells behaviors only of what they take. -/
instance : S.Telling where
  notify n change := by
    unfold Machine.notify
    refine .read fun w hw => deliverAll_honours hw fun b hb => ?_
    obtain ⟨name, hk, hm⟩ | hm := Notifier.mem_recipients.mp hb
    · exact ⟨some name, .inr hk.symm, hw b _ (.topic hm)⟩
    · exact ⟨none, .inl rfl, hw b _ (.topic hm)⟩

end Setting

/-- While the tasks of a flush run, the behaviors that are still to have their turn take it. -/
def honouringFlushing : Flushing honouring where
  Owed start ts w :=
    start.Lasts (fun _ => false) w ∧ w.Honours ∧ ∀ b, .behavior b ∈ ts → (w.behavior b).Takes .task
  log _ h := ⟨h.1.trans (.of_eq rfl rfl), h.2.1.congr rfl rfl rfl rfl, h.2.2⟩
  turn {start w t rest} h := by
    refine ⟨h.2.1.congr rfl rfl rfl rfl, ?_⟩
    cases t with
    | behavior b => exact h.2.2 b (List.mem_cons_self ..)
    | observer | splices | scripted => trivial
  ran {_ w w' t rest _} h _ he := by
    have hturn : w.Lasts (fun _ => false) (w.inTurn t rest) := .of_eq rfl rfl
    have hran : w.Lasts (fun _ => false) { w' with held := w.held } :=
      (hturn.trans he.1).trans (.of_eq rfl rfl)
    exact ⟨h.1.trans hran, he.2.congr rfl rfl rfl rfl,
      fun b hb => hran.takes (h.2.2 b (List.mem_cons_of_mem _ hb))⟩

instance (S : Setting honouring) : S.Agrees Machine.process := by
  refine ⟨fun {w} hw => honouringFlushing.process_agreesAt S (fun _ => ?_) fun x hx => ?_⟩
  · have hl : w.Lasts (fun _ => false) w.flushing := .of_eq rfl rfl
    have hs : World.CueStep w w.flushing :=
      .of_fewer (fun _ => rfl) (fun _ _ _ h => h) fun _ h => absurd h List.not_mem_nil
    exact ⟨hl, hs.honours hl hw, fun b hb => hl.takes (hw b _ (.task hb))⟩
  · cases hx with
    | none =>
      have hl : w.Lasts (fun _ => false) { w with queue := w.queue.drain.2 } := .of_eq rfl rfl
      have hs : World.CueStep w { w with queue := w.queue.drain.2 } :=
        .of_fewer (fun _ => rfl) (fun _ _ _ h => h) fun _ h => absurd h List.not_mem_nil
      exact ⟨hl, hs.honours hl hw⟩
    | @all w₁ _ h =>
      have hl : w₁.Lasts (fun _ => false)
          { w₁ with queue := { w₁.queue with processing := w.queue.processing } } := .of_eq rfl rfl
      have hs : World.CueStep w₁
          { w₁ with queue := { w₁.queue with processing := w.queue.processing } } :=
        .of_eq rfl rfl rfl
      exact ⟨h.1.trans hl, hs.honours hl h.2.1⟩

/-- **Modes are honoured** in every run. -/
theorem honouring_kept : honouring.Kept := by
  refine Regime.Loose.kept (fun S => inferInstance) (fun S => inferInstance) (fun _ h => h.1)
    (fun _ hl hw => ⟨hl, hw⟩) fun S {c w} hc hw _ => ?_
  obtain ⟨hw, hh⟩ := hw
  cases c with
  | eval | bindView | unbindView | bubble | perform => exact absurd trivial hc
  | settle => exact Setting.Agrees.agreesAt (m := Machine.settle) hw
  | drainPool => exact Setting.Agrees.agreesAt (m := Machine.drainPool) hw
  | deliver s change =>
    cases s with
    | behavior b =>
      refine Setting.behaviorChanged_of_takes hw (fun s hs => .inl ?_) change
      obtain ⟨name, hm, -⟩ := World.Told.signal hh hs
      exact hs ▸ ⟨name, hm⟩
    | observer o => exact Setting.dependencyChanged_agreesAt hw (Regime.Open.light honouring w o)
    | scripted s => exact Setting.Agrees.agreesAt (m := Machine.subscriberTold s change) hw
  | update t => exact Setting.Agrees.agreesAt (m := Machine.update t) hw

/-- In the empty world there are no cues. -/
theorem honours_empty : World.empty.Honours := by
  intro b cue hc
  cases hc with
  | observer h => exact absurd h nofun
  | topic h => exact absurd h List.not_mem_nil
  | task h => exact absurd h List.not_mem_nil

/-- A view with a one-time binding and a signal binding is rendered. -/
def tickingSession : List Command :=
  [.object (.create "m" none [("x", .text "1")]),
    .node (.create "row" .fragment ""), .node (.create "cell" (.element "p") ""),
    .node (.append "row" "cell"),
    .template (.assemble "rows" "row"
      [("r.0", none, .binding { Binding.ofExpr (.get .source "x") with mode := .oneTime }),
        ("r.0", some "title",
          .binding { Binding.ofExpr (.get .source "x") with mode := .signal "tick" })]),
    .node (.create "host" (.element "div") ""),
    .view (.render "v" "rows" (.handle "m") "host" none)]

end ReactiveViews
