import ReactiveViews.Proofs.Flush
import ReactiveViews.Proofs.Runs
/-!
# No update is lost

An observer that is told of a change shuts its gate and queues itself; while the
gate is shut it is not queued again, because it waits already. The gate is opened
again when the observer has had its turn. So everything hangs on an invariant: an
asynchronous observer whose gate is shut waits, in the queue or in the batch of a
flush.

There is one way to break it. An observer whose turn comes when it has no records
does nothing, and does not open its gate either. It is then *latched*: it does not
wait, and no change will ever queue it, until it is disposed of. This happens to
an observer that is told of a change after it was disposed of, because the
notification had picked it before. In every session without such a *stale* turn the
invariant holds whenever a call is made, and then no update is lost.
-/

namespace ReactiveViews

namespace World

/-- An observer waits for its turn: in the queue, or in the batch of a flush. -/
def Waits (w : World) (o : ObserverId) : Prop :=
  .observer o ∈ w.queue.tasks ∨ .task (.observer o) ∈ w.held

instance (w : World) (o : ObserverId) : Decidable (w.Waits o) :=
  inferInstanceAs (Decidable (_ ∨ _))

/-- An asynchronous observer has shut its gate. -/
def Shut (w : World) (o : ObserverId) : Prop :=
  (w.observers.get o).isAsync = true ∧ (w.observers.get o).needsQueue = false

instance (w : World) (o : ObserverId) : Decidable (w.Shut o) :=
  inferInstanceAs (Decidable (_ ∧ _))

/-- **Latched.** The gate is shut, and the observer does not wait. -/
def Latched (w : World) (o : ObserverId) : Prop := w.Shut o ∧ ¬ w.Waits o

instance (w : World) (o : ObserverId) : Decidable (w.Latched o) :=
  inferInstanceAs (Decidable (_ ∧ _))

/-- Every record of an observer is subscribed to. -/
def Listed (w : World) : Prop :=
  ∀ o, ∀ r ∈ (w.observers.get o).records,
    ⟨some r.name, .observer o⟩ ∈ (w.notifiers.get r.notifier).subscriptions

/-- What one step does to the gates: those who waited wait still, an observer that has shut its
gate just now waits, and records stay subscribed to. -/
structure GateStep (w w' : World) : Prop where
  held : w'.held = w.held
  tasks : ∀ t ∈ w.queue.tasks, t ∈ w'.queue.tasks
  shut : ∀ o, w'.Shut o → w.Shut o ∨ .observer o ∈ w'.queue.tasks
  listed : w.Listed → w'.Listed

namespace GateStep

theorem waits {w w' : World} (h : GateStep w w') {o : ObserverId} (hw : w.Waits o) :
    w'.Waits o := by
  rcases hw with ht | hh
  · exact .inl (h.tasks _ ht)
  · exact .inr (h.held ▸ hh)

/-- A step latches nobody. -/
theorem latched {w w' : World} (h : GateStep w w') {o : ObserverId} (hl : w'.Latched o) :
    w.Latched o := by
  refine ⟨?_, fun hw => hl.2 (h.waits hw)⟩
  exact (h.shut o hl.1).resolve_right fun ht => hl.2 (.inl ht)

/-- A step that has nothing to do with observers. -/
theorem of_eq {w w' : World} (ho : w'.observers = w.observers) (hn : w'.notifiers = w.notifiers)
    (hq : w'.queue = w.queue) (hh : w'.held = w.held) : GateStep w w' where
  held := hh
  tasks t ht := hq ▸ ht
  shut o h := .inl (by simpa only [Shut, ho] using h)
  listed h := by simpa only [Listed, ho, hn] using h

/-- A step of the queue that takes nothing out. -/
theorem of_tasks {w w' : World} (ho : w'.observers = w.observers)
    (hn : w'.notifiers = w.notifiers) (hq : ∀ t ∈ w.queue.tasks, t ∈ w'.queue.tasks)
    (hh : w'.held = w.held) : GateStep w w' where
  held := hh
  tasks := hq
  shut o h := .inl (by simpa only [Shut, ho] using h)
  listed h := by simpa only [Listed, ho, hn] using h

/-- A step of the notifiers that takes no subscription of an observer out. -/
theorem of_notifiers {w w' : World} (ho : w'.observers = w.observers)
    (hn : ∀ n topic o, ⟨topic, .observer o⟩ ∈ (w.notifiers.get n).subscriptions →
      ⟨topic, .observer o⟩ ∈ (w'.notifiers.get n).subscriptions)
    (hq : w'.queue = w.queue) (hh : w'.held = w.held) : GateStep w w' where
  held := hh
  tasks t ht := hq ▸ ht
  shut o h := .inl (by simpa only [Shut, ho] using h)
  listed h o r hr := hn _ _ _ (h o r (ho ▸ hr))

/-- A step of one observer that leaves its records alone and does not shut its gate. -/
theorem of_observer {w : World} (o : ObserverId) {f : ObserverState → ObserverState}
    (hr : ∀ s, (f s).records = s.records)
    (hs : ∀ s, (f s).isAsync = true → (f s).needsQueue = false →
      s.isAsync = true ∧ s.needsQueue = false) :
    GateStep w { w with observers := w.observers.modify o f } where
  held := rfl
  tasks _ ht := ht
  shut o' h := by
    left
    simp only [Shut, Store.get_modify] at h ⊢
    split at h
    · next he => exact he ▸ hs _ h.1 h.2
    · exact h
  listed h o' r hr' := by
    refine h o' r ?_
    simp only [Store.get_modify] at hr'
    split at hr'
    · next he => rw [← he, ← hr]; exact hr'
    · exact hr'

/-- A read is recorded together with its subscription. -/
theorem recordRead (w : World) (o : ObserverId) (source : Observable) (name : String)
    (n : NotifierId) : GateStep w (w.recordRead o source name n) where
  held := rfl
  tasks _ ht := ht
  shut o' h := by
    left
    simp only [Shut, World.recordRead, Store.get_modify] at h ⊢
    split at h
    · next he => exact he ▸ h
    · exact h
  listed h o' r hr := by
    have hold : ∀ x, x ∈ (w.notifiers.get r.notifier).subscriptions →
        x ∈ ((w.recordRead o source name n).notifiers.get r.notifier).subscriptions := by
      intro x hx
      simp only [World.recordRead, Store.get_modify]
      split
      · next he => exact Notifier.mem_subscribe_of_mem (he ▸ hx) _ _
      · exact hx
    simp only [World.recordRead, Store.get_modify] at hr
    split at hr
    · next he =>
      subst he
      rcases List.mem_append.mp hr with hr | hr
      · exact hold _ (h o r hr)
      · rw [List.mem_singleton.mp hr]
        simp only [World.recordRead, Store.get_modify, if_true]
        exact Notifier.mem_subscribe _ _ _
    · exact hold _ (h o' r hr)

/-- An observer that forgets its records leaves the subscriptions of every other. -/
theorem disconnect (w : World) (o : ObserverId) : GateStep w (w.disconnect o) where
  held := rfl
  tasks _ ht := ht
  shut o' h := by
    left
    simp only [Shut, World.disconnect, Store.get_modify] at h ⊢
    split at h
    · next he => exact he ▸ h
    · exact h
  listed h o' r hr := by
    simp only [World.disconnect, Store.get_modify] at hr
    split at hr
    · exact absurd hr (by simp)
    · next he =>
      exact mem_cancelled.mpr ⟨h o' r hr, fun _ _ _ hx =>
        he (Subscriber.observer.inj (congrArg Subscription.subscriber hx)).symm⟩

/-- An observer that is told shuts its gate and waits. -/
theorem tell (w : World) (o : ObserverId) : GateStep w (w.tell o) where
  held := rfl
  tasks t ht := Queue.mem_accept.mpr (.inl ht)
  shut o' h := by
    by_cases he : o = o'
    · exact .inr (Queue.mem_accept.mpr (.inr (he ▸ rfl)))
    · left
      simpa only [Shut, World.tell, Store.get_modify, he, if_false] using h
  listed h o' r hr := by
    refine h o' r ?_
    simp only [World.tell, Store.get_modify] at hr
    split at hr
    · next he => exact he ▸ hr
    · exact hr

/-- New observers have not shut their gates, and have no records. -/
theorem created {w w' : World} (h : Created w w') : GateStep w w' := by
  have hrest := h.rest
  have hn : w'.notifiers = w.notifiers := by rw [hrest]
  have hq : w'.queue = w.queue := by rw [hrest]
  have hold : ∀ o : ObserverId, o.index < w.observers.size ∨
      (w'.observers.get o).records = [] ∧ (w'.observers.get o).needsQueue = true := by
    intro o
    rcases Nat.lt_or_ge o.index w.observers.size with ho | ho
    · exact .inl ho
    · exact .inr ⟨(h.newObserver o ho).records, (h.newObserver o ho).needsQueue⟩
  refine ⟨by rw [hrest], fun t ht => hq ▸ ht, fun o hs => .inl ?_, fun hl o r hr => ?_⟩
  · rcases hold o with ho | ho
    · rwa [Shut, h.observers.get o ho] at hs
    · exact absurd (ho.2.symm.trans hs.2) (by simp)
  · rw [hn]
    rcases hold o with ho | ho
    · rw [h.observers.get o ho] at hr
      exact hl o r hr
    · rw [ho.1] at hr
      exact absurd hr List.not_mem_nil

/-- A new observer is one thing that may be created. -/
theorem newObserver (w : World) (evaluator : Expr) (isVolatile : Bool) (reaction : Reaction) :
    GateStep w (w.withObserver (.made evaluator isVolatile reaction)) where
  held := rfl
  tasks _ ht := ht
  shut o h := by
    left
    by_cases he : o = (w.observers.add (.made evaluator isVolatile reaction)).1
    · subst he
      simp only [Shut, withObserver, Store.get_add_self] at h
      exact absurd h.2 (by simp [ObserverState.made])
    · simpa only [Shut, withObserver, Store.get_add_of_ne _ _ _ he] using h
  listed h o r hr := by
    by_cases he : o = (w.observers.add (.made evaluator isVolatile reaction)).1
    · subst he
      simp only [withObserver, Store.get_add_self] at hr
      exact absurd hr (by simp [ObserverState.made])
    · simp only [withObserver, Store.get_add_of_ne _ _ _ he] at hr
      exact h o r hr

/-- An observer that is let go forgets its records; one that is kept is still listed. -/
theorem sweep (w : World) : GateStep w w.sweep where
  held := rfl
  tasks _ ht := ht
  shut o h := by
    left
    rw [Shut, observers_sweep] at h
    split at h
    · exact h
    · exact h
  listed h o r hr := by
    rw [observers_sweep] at hr
    split at hr
    · next hl =>
      rw [notifiers_sweep, Notifier.mem_retain]
      exact ⟨h o r hr, hl⟩
    · exact absurd hr (by simp)

/-- Queueing keeps the gates in order, whatever is to be done next. -/
theorem of_queued {Mild : Subject → Prop} {w w' : World} {next : FollowUp}
    (h : Queued Mild w next w') : GateStep w w' := by
  cases h with
  | accept => exact of_tasks rfl rfl (fun t ht => Queue.mem_accept.mpr (.inl ht)) rfl
  | tell _ => exact tell w _

/-- Asking a scheduler for a flush keeps the gates in order. -/
theorem follow {w w' : World} (h : GateStep w w') (next : FollowUp) :
    GateStep w (w'.follow next) := by
  have hf : ∀ x : World, x = w' ∨ (∃ log, x = { w' with log }) ∨ (∃ pool, x = { w' with pool }) →
      GateStep w x := by
    rintro x (rfl | ⟨log, rfl⟩ | ⟨pool, rfl⟩)
    · exact h
    · exact ⟨h.held, h.tasks, h.shut, h.listed⟩
    · exact ⟨h.held, h.tasks, h.shut, h.listed⟩
  exact hf _ (w'.follow_cases next)

/-- A new subscription leaves those there were. -/
theorem subscribe (w : World) (n : NotifierId) (s : Subscriber) (topic : Option String) :
    GateStep w { w with notifiers := w.notifiers.modify n (·.subscribe s topic) } := by
  refine of_notifiers rfl (fun n' topic' o h => ?_) rfl rfl
  rw [Store.get_modify]
  split
  · next he => exact Notifier.mem_subscribe_of_mem (he ▸ h) _ topic
  · exact h

/-- **Every step keeps the gates in order.** -/
theorem of_change {Mild : Subject → Prop} {w w' : World} (h : Change Mild w w') :
    GateStep w w' := by
  cases h with
  | log | lookUp | signals | tickets | event | move | shows | newObject | newArray
      | newContext | objectNotifier | contextNotifier | behavior | giveObserver
      | view | drop =>
    exact of_eq rfl rfl rfl rfl
  | created h => exact created h
  | queued hq _ => exact (of_queued hq).follow _
  | ask scheduler => exact (of_eq rfl rfl rfl rfl : GateStep w w).follow (.schedule scheduler)
  | request =>
    exact (of_tasks rfl rfl (fun t ht => by simpa using ht) rfl :
      GateStep w { w with queue := w.queue.requestIfNeeded.1 }).follow _
  | sweep => exact sweep w
  | newNotifier | observeArray =>
    exact of_notifiers rfl (fun _ _ _ h => mem_newNotifier.mpr h) rfl rfl
  | newObserver evaluator isVolatile _ => exact newObserver w evaluator isVolatile _
  | subscribe n topic _ _ _ => exact subscribe w n _ topic
  | @unsubscribe n s topic hs =>
    refine of_notifiers rfl (fun n' topic' o h => ?_) rfl rfl
    rw [Store.get_modify]
    split
    · next he => exact Notifier.mem_unsubscribe.mpr ⟨he ▸ h, by simpa using fun _ => (hs o).symm⟩
    · exact h
  | recordRead name _ _ => exact recordRead w _ _ name _
  | disconnect _ => exact disconnect w _
  | refresh _ _ => exact of_observer _ (fun _ => rfl) fun _ ha hq => ⟨ha, hq⟩
  | deferError _ _ => exact of_observer _ (fun _ => rfl) fun _ ha hq => ⟨ha, hq⟩
  | observerMode isAsync _ =>
    exact of_observer _ (fun _ => rfl) fun s ha hq => absurd ha (by simp_all)
  | openGate _ _ => exact of_observer _ (fun _ => rfl) fun s ha hq => absurd ha (by simp_all)

theorem of_setup {w w' : World} (h : Setup w w') : GateStep w w' := by
  cases h <;> exact of_eq rfl rfl rfl rfl

theorem of_write {w w' : World} (h : Write w w') : GateStep w w' := by
  cases h with
  | subscribe n s topic => exact subscribe w n _ topic
  | storeField | items | takeUp | handOver | told => exact of_eq rfl rfl rfl rfl

theorem of_access {w w' : World} (h : Access w w') : GateStep w w' := by
  cases h <;> exact of_eq rfl rfl rfl rfl

theorem of_adjustment {w w' : World} (h : Adjustment w w') : GateStep w w' := by
  cases h with
  | @await ticket queue next hq =>
    have hs : GateStep w { w with queue } :=
      of_tasks rfl rfl (fun t ht => Queue.tasks_await hq ▸ ht) rfl
    exact hs.follow next
  | install => exact of_tasks rfl rfl (fun t ht => by simpa using ht) rfl
  | mode => exact of_tasks rfl rfl (fun t ht => ht) rfl
  | pool => exact of_eq rfl rfl rfl rfl

end GateStep

/-- **Stale.** It is the turn of an observer without records that has shut its gate and does not
wait for another turn. -/
def Stale (w : World) (o : ObserverId) : Prop :=
  (w.observers.get o).records.isEmpty = true ∧ w.Latched o

instance (w : World) (o : ObserverId) : Decidable (w.Stale o) :=
  inferInstanceAs (Decidable (_ ∧ _))

end World

/-- **Fresh.** No call is the turn of a stale observer. -/
def fresh : Call → World → Bool
  | .update (.observer o), w => !decide (w.Stale o)
  | _, _ => true

/-- **Unanswered.** An observer does not get a turn, and is told of changes only while it is
asynchronous. -/
def unanswered (o : ObserverId) : Call → World → Bool
  | .update (.observer o'), _ => o != o'
  | .deliver (.observer o') _, w => o != o' || (w.observers.get o).isAsync
  | _, _ => true

namespace World

/-- Waiting depends on the tasks queued and on what is held. -/
theorem latched_congr {w w' : World} (ho : w'.observers = w.observers) {o : ObserverId}
    (hw : w.Waits o → w'.Waits o) (h : w'.Latched o) : w.Latched o :=
  ⟨by simpa only [Shut, ho] using h.1, fun hw' => h.2 (hw hw')⟩

section Scopes

variable {Mild : Subject → Prop} {enter : World → World} {leave : World → World → World}
  {w : World}

/-- Nobody waits longer because a scope is entered that holds on to no task. -/
theorem waits_enter (hs : Scope Mild w enter leave) {o : ObserverId} (h : w.Waits o) :
    (enter w).Waits o := by
  cases hs with
  | hold things _ => exact h.imp_right fun hh => List.mem_append_right things hh
  | change things _ _ => exact h.imp_right fun hh => List.mem_append_right things hh
  | watch _ => exact h
  | handle _ => exact h

theorem waits_leave {w' : World} (hs : Scope Mild w enter leave) (hh : w'.held = (enter w).held)
    {o : ObserverId} (h : w'.Waits o) : (leave w w').Waits o := by
  cases hs with
  | hold things ht =>
    refine h.imp_right fun hm => ?_
    rw [hh] at hm
    exact (List.mem_append.mp hm).resolve_left (ht _).1
  | change things hc _ =>
    refine h.imp_right fun hm => ?_
    rw [hh] at hm
    exact (List.mem_append.mp hm).resolve_left fun ht => by simpa using hc _ ht
  | watch _ => exact h
  | handle _ => exact h

theorem observers_enter (hs : Scope Mild w enter leave) (x : World) :
    (enter x).observers = x.observers ∧ (enter x).notifiers = x.notifiers := by
  cases hs <;> exact ⟨rfl, rfl⟩

theorem observers_leave (hs : Scope Mild w enter leave) (x w' : World) :
    (leave x w').observers = w'.observers ∧ (leave x w').notifiers = w'.notifiers := by
  cases hs <;> exact ⟨rfl, rfl⟩

theorem behaviors_leave (hs : Scope Mild w enter leave) (w' : World) :
    (leave w w').behaviors = w'.behaviors ∧ (enter w).behaviors = w.behaviors := by
  cases hs <;> exact ⟨rfl, rfl⟩

theorem held_leave {w' : World} (hs : Scope Mild w enter leave) (hh : w'.held = (enter w).held) :
    (leave w w').held = w.held := by
  cases hs with
  | hold _ _ => rfl
  | change _ _ _ => rfl
  | watch _ => exact hh
  | handle _ => exact hh

end Scopes

/-- What is held on to is the same after a computation as before, observers that are not to get a
turn go on waiting, and what has been made stays. -/
structure GateRel (kept : ObserverId → Prop) (w w' : World) : Prop where
  held : w'.held = w.held
  waits : ∀ o, kept o → w.Waits o → w'.Waits o
  grown : w.behaviors.size ≤ w'.behaviors.size

theorem GateStep.rel {w w' : World} (h : GateStep w w')
    (hs : w.behaviors.size ≤ w'.behaviors.size) (kept : ObserverId → Prop) : GateRel kept w w' :=
  ⟨h.held, fun _ _ => h.waits, hs⟩

end World

open World in
/-- **The regime of the gates.** Nobody is latched, except that an observer may be while it has
its turn. Observers that are not to get a turn go on waiting. -/
def gates (allowed : Call → World → Bool) (kept : ObserverId → Prop) : Regime where
  allowed := allowed
  Mild _ := True
  Inv w := (∀ o, ¬ w.Latched o) ∧ w.Listed
  Rel := GateRel kept
  Entry c w := (∀ o, w.Latched o → c = .update (.observer o)) ∧ w.Listed
  Exit _ w _ w' := GateRel kept w w' ∧ (∀ o, ¬ w'.Latched o) ∧ w'.Listed
  refl w := ⟨rfl, fun _ _ h => h, Nat.le_refl _⟩
  trans h h' := ⟨h'.held.trans h.held, fun o hk hw => h'.waits o hk (h.waits o hk hw),
    Nat.le_trans h.grown h'.grown⟩
  entry _ _ h := ⟨fun o hl => absurd hl (h.1 o), h.2⟩
  exit _ _ _ h := h
  change hi hc :=
    have hs := GateStep.of_change hc
    ⟨hs.rel hc.size_behaviors kept, fun o hl => hi.1 o (hs.latched hl), hs.listed hi.2⟩
  enter {enter leave w} hs hi := by
    obtain ⟨ho, hn⟩ := observers_enter hs w
    refine ⟨fun o hl => hi.1 o (latched_congr ho (waits_enter hs) hl), ?_⟩
    simpa only [Listed, ho, hn] using hi.2
  leave {enter leave w w'} hs hi hr hi' := by
    obtain ⟨ho, hn⟩ := observers_leave hs w w'
    refine ⟨⟨held_leave hs hr.held, fun o hk hw => ?_, ?_⟩,
      fun o hl => hi'.1 o (latched_congr ho (waits_leave hs hr.held) hl), ?_⟩
    · exact waits_leave hs hr.held (hr.waits o hk (waits_enter hs hw))
    · rw [(behaviors_leave hs w').1, ← (behaviors_leave hs w').2]
      exact hr.grown
    · simpa only [Listed, ho, hn] using hi'.2
  grown h := h.grown
  light _ _ := .inr fun _ => trivial
  takes _ _ := .inr trivial
  calledBack _ _ := .inr trivial
  watcher _ _ := .inr fun _ => trivial
  behaviors _ _ _ := trivial
  observers _ _ _ := .inr fun _ => trivial
  aspects _ _ _ := trivial

/-- A step that keeps the gates in order respects their regime. -/
theorem World.GateStep.respects {allowed : Call → World → Bool} {kept : ObserverId → Prop}
    {w w' : World} (hs : GateStep w w') (hb : w'.behaviors = w.behaviors)
    (hi : (gates allowed kept).Inv w) : (gates allowed kept).Rel w w' ∧ (gates allowed kept).Inv w' :=
  ⟨hs.rel (Nat.le_of_eq (congrArg Store.size hb.symm)) kept,
    fun o hl => hi.1 o (hs.latched hl), hs.listed hi.2⟩

/-- Where the invariant holds any call may be made. -/
theorem gates_entry {allowed : Call → World → Bool} {kept : ObserverId → Prop} {c : Call}
    {w : World} (h : (gates allowed kept).Inv w) : (gates allowed kept).Entry c w :=
  ⟨fun o hl => absurd hl (h.1 o), h.2⟩

instance (allowed : Call → World → Bool) (kept : ObserverId → Prop) (name : String) :
    (gates allowed kept).Slight (.listener name) := ⟨trivial⟩

instance (allowed : Call → World → Bool) (kept : ObserverId → Prop) :
    (gates allowed kept).Loose where
  tether _ := trivial
  lists _ := trivial
  view _ _ := trivial

instance (allowed : Call → World → Bool) (kept : ObserverId → Prop) :
    (gates allowed kept).Accessible where
  entry _ h := gates_entry h
  exit _ _ h := h
  access hi hc := (World.GateStep.of_access hc).respects (by cases hc <;> rfl) hi

instance (allowed : Call → World → Bool) (kept : ObserverId → Prop) :
    (gates allowed kept).Uniform where
  tickets := trivial
  behavior _ := trivial
  aspect _ _ := trivial
  setup hi hc := (World.GateStep.of_setup hc).respects (by cases hc <;> rfl) hi
  cues := trivial
  deliver h _ := gates_entry h
  delivered _ h := h
  write hi hc := (World.GateStep.of_write hc).respects (by cases hc <;> rfl) hi
  flush _ h := gates_entry h
  flushed _ _ h := h
  pressed hi hc := (World.GateStep.of_queued hc).respects hc.behaviors hi
  adjust hi hc := (World.GateStep.of_adjustment hc).respects hc.behaviors hi

namespace World

/-- Whoever waits while the first of some tasks runs is one of the others, or waits anyway. -/
theorem waits_inTurn {w : World} {t : Task} {rest : List Task} {o : ObserverId} :
    (w.inTurn t rest).Waits o ↔ .observer o ∈ rest ∨ w.Waits o := by
  simp only [Waits, inTurn, List.mem_append, List.mem_cons, List.mem_map, Held.task.injEq,
    exists_eq_right, reduceCtorEq, false_or]
  constructor
  · rintro (h | h | h)
    · exact .inr (.inl h)
    · exact .inl h
    · exact .inr (.inr h)
  · rintro (h | h | h)
    · exact .inr (.inl h)
    · exact .inl h
    · exact .inr (.inr h)

/-- The same when the task has run, in a world that holds on to the same things. -/
theorem waits_of_inTurn {w w' : World} {t : Task} {rest : List Task} {o : ObserverId}
    (hh : w'.held = (w.inTurn t rest).held) (h : w'.Waits o) :
    .observer o ∈ rest ∨ ({ w' with held := w.held } : World).Waits o := by
  rcases h with h | h
  · exact .inr (.inl h)
  · rw [hh] at h
    simp only [inTurn, List.mem_append, List.mem_cons, List.mem_map, Held.task.injEq,
      exists_eq_right, reduceCtorEq, false_or] at h
    exact h.imp_right .inr

/-- What holds of the gates where a flush that began at `start` still owes some tasks: whoever is
latched is among them, and so is an observer that waited and waits no more. -/
def Owes (kept : ObserverId → Prop) (start : World) (ts : List Task) (w : World) : Prop :=
  w.held = start.held ∧ w.Listed ∧ (∀ o, w.Latched o → Task.observer o ∈ ts) ∧
    (∀ o, kept o → start.Waits o → Task.observer o ∈ ts ∨ w.Waits o) ∧
      start.behaviors.size ≤ w.behaviors.size

end World

open World in
/-- **A flush and the gates.** Whoever is latched while a flush runs still gets a turn in it. -/
def gatesFlushing {allowed : Call → World → Bool} {kept : ObserverId → Prop}
    (hk : ∀ o w, kept o → allowed (.update (.observer o)) w = false) :
    Flushing (gates allowed kept) where
  Owed := Owes kept
  log _ h := h
  turn {start w t rest} h := by
    refine ⟨fun o hl => congrArg Call.update ?_, h.2.1⟩
    have hw : ¬ (.observer o ∈ rest ∨ w.Waits o) := fun hw => hl.2 (waits_inTurn.mpr hw)
    have hm := h.2.2.1 o ⟨hl.1, fun hw' => hw (.inr hw')⟩
    exact ((List.mem_cons.mp hm).resolve_right fun hr => hw (.inl hr)).symm
  ran {start w w' t rest _} h ha he := by
    obtain ⟨hr, hi⟩ := he
    refine ⟨h.1, hi.2, fun o hl => ?_, fun o ho hw => ?_, Nat.le_trans h.2.2.2.2 hr.grown⟩
    · have hw' : w'.Waits o := Classical.byContradiction fun hn => hi.1 o ⟨hl.1, hn⟩
      exact (waits_of_inTurn hr.held hw').resolve_right hl.2
    · rcases h.2.2.2.1 o ho hw with hm | hm
      · rcases List.mem_cons.mp hm with rfl | hm
        · have hn : allowed (.update (.observer o)) _ = true := ha
          rw [hk o _ ho] at hn
          exact absurd hn (by simp)
        · exact .inl hm
      · exact waits_of_inTurn hr.held (hr.waits o ho (waits_inTurn.mpr (.inr hm)))

/-- When the tasks of a flush have run, nobody is latched. -/
theorem gates_ran {allowed : Call → World → Bool} {kept : ObserverId → Prop}
    (hk : ∀ o w, kept o → allowed (.update (.observer o)) w = false) {w x : World}
    (hi : (gates allowed kept).Inv w) (hx : (gatesFlushing hk).Ran w x) :
    (gates allowed kept).Rel w x ∧ (gates allowed kept).Inv x := by
  cases hx with
  | none ht =>
    have hw : ∀ o, w.Waits o → ({ w with queue := w.queue.drain.2 } : World).Waits o := by
      rintro o (h | h)
      · rw [ht] at h
        exact absurd h List.not_mem_nil
      · exact .inr h
    exact ⟨⟨rfl, fun o _ => hw o, Nat.le_refl _⟩,
      fun o hl => hi.1 o ⟨hl.1, fun h => hl.2 (hw o h)⟩, hi.2⟩
  | all _ h =>
    refine ⟨⟨h.1, fun o ho hw => ?_, h.2.2.2.2⟩, fun o hl => ?_, h.2.1⟩
    · exact (h.2.2.2.1 o ho hw).resolve_left (List.not_mem_nil)
    · exact absurd (h.2.2.1 o hl) (List.not_mem_nil)

/-- What a flush owes when it begins is what waited. -/
theorem World.owes_flushing {kept : ObserverId → Prop} {w : World} (hi : ∀ o, ¬ w.Latched o)
    (hl : w.Listed) : World.Owes kept w w.queue.tasks w.flushing := by
  refine ⟨rfl, hl, fun o h => ?_, fun o _ hw => hw.imp_right .inr, Nat.le_refl _⟩
  refine Classical.byContradiction fun ht => hi o ⟨h.1, ?_⟩
  rintro (hw | hw)
  · exact ht hw
  · exact h.2 (.inr hw)

open Machine in
/-- **A fresh turn unlatches.** An observer that has its turn opens its gate first, unless it has
no records; and then it is not latched, or else it were stale. -/
theorem agreesAt_react {allowed : Call → World → Bool} {kept : ObserverId → Prop}
    (S : Setting (gates allowed kept)) {o : ObserverId} {w : World}
    (hf : fresh (.update (.observer o)) w = true)
    (ht : (gates allowed kept).Entry (.update (.observer o)) w) : S.AgreesAt (react o) w := by
  have hne : ∀ o', w.Latched o' → o' = o := by
    intro o' hl
    have := ht.1 o' hl
    simpa using this.symm
  unfold react
  refine .read ?_
  split
  · next hr =>
    refine Setting.Agrees.agreesAt ⟨fun o' hl => ?_, ht.2⟩
    obtain rfl := hne o' hl
    rw [fresh, Bool.not_eq_true', decide_eq_false_iff_not] at hf
    exact hf ⟨hr, hl⟩
  · have hs : World.GateStep w { w with
        observers := w.observers.modify o fun s => { s with needsQueue := s.isAsync } } :=
      .of_change (.openGate w (·.needsRefresh) (Regime.Open.light (gates allowed kept) w o))
    have hr : (gates allowed kept).Rel w _ := hs.rel (Nat.le_refl _) kept
    refine .of_eq ?_ hr (Setting.react_rest (G := gates allowed kept) ⟨fun o' hl => ?_, hs.listed ht.2⟩
      (w.observers.get o).reaction (fun _ _ => trivial) fun _ _ => .inr trivial)
    · exact fun _ => rfl
    obtain rfl := hne o' (hs.latched hl)
    have hq := hl.1
    simp only [World.Shut, Store.get_modify, if_true] at hq
    exact absurd hq.2 (by simp [hq.1])

/-- The gates are kept in every session without a stale turn. -/
theorem gates_kept {allowed : Call → World → Bool} {kept : ObserverId → Prop}
    (hf : ∀ c w, allowed c w → fresh c w)
    (hk : ∀ o w, kept o → allowed (.update (.observer o)) w = false) :
    (gates allowed kept).Kept := by
  refine Regime.Uniform.kept (fun S => ⟨fun {w} hw => ?_⟩) (fun {c w} he hc => ?_)
    (fun hr hi => ⟨hr, hi⟩) fun S {t w} ht ha => ?_
  · exact (gatesFlushing hk).process_agreesAt S (fun _ => World.owes_flushing hw.1 hw.2)
      fun _ => gates_ran hk hw
  · exact ⟨fun o hl => hc _ (he.1 o hl), he.2⟩
  · cases t with
    | observer o => exact agreesAt_react S (hf _ w ha) ht
    | behavior | splices | scripted =>
      have hi : (gates allowed kept).Inv w :=
        ⟨fun o hl => absurd (ht.1 o hl) (by simp), ht.2⟩
      exact Setting.Agrees.agreesAt hi

end ReactiveViews
