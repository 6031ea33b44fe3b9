import ReactiveViews.Proofs.Gate
import ReactiveViews.Proofs.Runs
/-!
# Subscriptions are exactly the records

What an observer has read is written down twice: in the observer, as its records, and at the
notifiers, as its subscriptions. Evaluating, failing to subscribe, disposing and letting go touch
both, at different places. They are never found apart: an observer is subscribed to a name at a
notifier if it has a record of that, and only then, and once, however often it has read the same
(`World.Exact`).

The invariant is checked against the list of changes (`World.Exact.of_change`), where a read is
recorded and subscribed to in one step, and so are the records dropped and their subscriptions
cancelled. Subscriptions of others may come and go, and nothing else is asked of anybody, so that
whatever is done anywhere keeps it (`registering_kept`). That an observer that has been disposed of
or let go is subscribed to nothing is then read off its records, which are gone.
-/

namespace ReactiveViews

namespace World

/-- **Registered.** An observer is subscribed to a topic at a notifier. -/
def Registered (w : World) (o : ObserverId) (n : NotifierId) (topic : Option String) : Prop :=
  ⟨topic, .observer o⟩ ∈ (w.notifiers.get n).subscriptions

/-- **Has read.** An observer has recorded a read of a name at a notifier. -/
def HasRead (w : World) (o : ObserverId) (n : NotifierId) (topic : Option String) : Prop :=
  ∃ r ∈ (w.observers.get o).records, r.notifier = n ∧ some r.name = topic

/-- **Exactness.** Observers are registered exactly where they have recorded something, and nobody
is subscribed twice. -/
structure Exact (w : World) : Prop where
  registered_iff : ∀ o n topic, w.Registered o n topic ↔ w.HasRead o n topic
  once : ∀ n, (w.notifiers.get n).subscriptions.Nodup

/-- **Forgotten.** An observer has no records, and is registered nowhere. -/
structure Forgotten (w : World) (o : ObserverId) : Prop where
  records : (w.observers.get o).records = []
  nowhere : ∀ n topic, ¬ w.Registered o n topic

theorem nodup_cancelled {o : ObserverId} {notifiers : Store .notifier Notifier}
    (h : ∀ n, (notifiers.get n).subscriptions.Nodup) (records : List Record) (n : NotifierId) :
    ((cancelled notifiers o records).get n).subscriptions.Nodup := by
  induction records generalizing notifiers with
  | nil => exact h n
  | cons r records ih =>
    rw [cancelled, List.foldl_cons, ← cancelled]
    refine ih fun n' => ?_
    rw [Store.get_modify]
    split
    · exact (h _).filter _
    · exact h n'

namespace Exact

variable {w w' : World}

/-- An observer without records is forgotten. -/
theorem forgotten (h : w.Exact) {o : ObserverId} (ho : (w.observers.get o).records = []) :
    w.Forgotten o := by
  refine ⟨ho, fun n topic hr => ?_⟩
  obtain ⟨r, hr, -⟩ := (h.registered_iff o n topic).mp hr
  rw [ho] at hr
  exact absurd hr List.not_mem_nil

/-- A step after which observers have the records that they had, and are registered where they
were. -/
theorem of_same (h : w.Exact)
    (hr : ∀ o, (w'.observers.get o).records = (w.observers.get o).records)
    (hn : ∀ o n topic, w'.Registered o n topic ↔ w.Registered o n topic)
    (hd : ∀ n, (w'.notifiers.get n).subscriptions.Nodup) : w'.Exact where
  registered_iff o n topic := by
    rw [hn, h.registered_iff, HasRead, HasRead, hr]
  once := hd

/-- A step of the observers that leaves their records alone. -/
theorem of_records (h : w.Exact)
    (hr : ∀ o, (w'.observers.get o).records = (w.observers.get o).records)
    (hn : w'.notifiers = w.notifiers) : w'.Exact :=
  h.of_same hr (fun _ _ _ => by rw [Registered, hn, Registered]) fun n => hn ▸ h.once n

theorem of_eq (h : w.Exact) (ho : w'.observers = w.observers) (hn : w'.notifiers = w.notifiers) :
    w'.Exact :=
  h.of_records (fun _ => by rw [ho]) hn

/-- What is done to one observer, if it leaves its records alone. -/
theorem modifyObserver (h : w.Exact) (o : ObserverId) {f : ObserverState → ObserverState}
    (hf : ∀ s, (f s).records = s.records) :
    ({ w with observers := w.observers.modify o f } : World).Exact := by
  refine h.of_records (fun o' => ?_) rfl
  rw [Store.get_modify]
  split
  · next he => rw [hf, he]
  · rfl

/-- What is done to one notifier, if it leaves observers registered as they are. -/
theorem modifyNotifier (h : w.Exact) (n : NotifierId) {f : Notifier → Notifier}
    (hf : ∀ m topic o, ⟨topic, .observer o⟩ ∈ (f m).subscriptions ↔
      ⟨topic, .observer o⟩ ∈ m.subscriptions)
    (hd : ∀ m, m.subscriptions.Nodup → (f m).subscriptions.Nodup) :
    ({ w with notifiers := w.notifiers.modify n f } : World).Exact := by
  refine h.of_same (fun _ => rfl) (fun o n' topic => ?_) fun n' => ?_
  · rw [Registered, Store.get_modify]
    split
    · next he => exact he ▸ hf _ topic o
    · exact Iff.rfl
  · rw [Store.get_modify]
    split
    · exact hd _ (h.once n)
    · exact h.once n'

/-- Somebody else subscribes. -/
theorem subscribe (h : w.Exact) (n : NotifierId) {s : Subscriber} (hs : ∀ o, s ≠ .observer o)
    (topic : Option String) :
    ({ w with notifiers := w.notifiers.modify n (·.subscribe s topic) } : World).Exact := by
  refine h.modifyNotifier n (fun m topic' o => ⟨fun hm => ?_, fun hm => ?_⟩)
    fun m hm => Notifier.nodup_subscribe hm s topic
  · exact (Notifier.mem_of_mem_subscribe hm).resolve_right fun he =>
      hs o (congrArg Subscription.subscriber he).symm
  · exact Notifier.mem_subscribe_of_mem hm s topic

/-- Somebody else cancels a subscription. -/
theorem unsubscribe (h : w.Exact) (n : NotifierId) {s : Subscriber} (hs : ∀ o, s ≠ .observer o)
    (topic : Option String) :
    ({ w with notifiers := w.notifiers.modify n (·.unsubscribe s topic) } : World).Exact := by
  refine h.modifyNotifier n (fun m topic' o => ?_) fun m hm => hm.filter _
  rw [Notifier.mem_unsubscribe]
  exact and_iff_left fun he => hs o (congrArg Subscription.subscriber he).symm

theorem newNotifier (h : w.Exact) (ho : w'.observers = w.observers)
    (hn : w'.notifiers = (w.notifiers.add ⟨[]⟩).2) : w'.Exact := by
  have hget : ∀ n, w'.notifiers.get n = w.notifiers.get n := fun n => by rw [hn, get_newNotifier]
  refine h.of_same (fun _ => by rw [ho]) (fun o n topic => ?_) fun n => ?_
  · rw [Registered, hget, Registered]
  · rw [hget]
    exact h.once n

/-- A new observer has no records. -/
theorem newObserver (h : w.Exact) {s : ObserverState} (hs : s.records = []) :
    (w.withObserver s).Exact := by
  refine h.of_records (fun o => ?_) rfl
  by_cases he : o = (w.observers.add s).1
  · rw [he, Store.get_next, withObserver, Store.get_add_self]
    exact hs
  · rw [withObserver, Store.get_add_of_ne _ _ _ he]

theorem created (h : w.Exact) (hc : Created w w') : w'.Exact := by
  refine h.of_records (fun o => ?_) (by rw [hc.rest])
  -- An observer that was not there had no records either, as nothing is known of it.
  rcases Nat.lt_or_ge o.index w.observers.size with ho | ho
  · rw [hc.observers.get o ho]
  · rw [(hc.newObserver o ho).records, w.observers.get_of_size_le ho]
    rfl

/-- A read is recorded and subscribed to at once. That it may have been recorded before does not
matter to the notifier. -/
theorem recordRead (h : w.Exact) (o : ObserverId) (source : Observable) (name : String)
    (n : NotifierId) : (w.recordRead o source name n).Exact where
  registered_iff o' n' topic := by
    -- Both sides gain the same pair, also if the notifier has it already.
    have hr : (w.recordRead o source name n).HasRead o' n' topic ↔
        w.HasRead o' n' topic ∨ o = o' ∧ n = n' ∧ some name = topic := by
      rw [HasRead, World.recordRead, Store.get_modify]
      split
      · next he =>
        subst he
        simp [HasRead, or_and_right, exists_or]
      · next he => simp [HasRead, he]
    have hn : (w.recordRead o source name n).Registered o' n' topic ↔
        w.Registered o' n' topic ∨ o = o' ∧ n = n' ∧ some name = topic := by
      rw [Registered, World.recordRead, Store.get_modify]
      split
      · next he =>
        subst he
        rw [Notifier.mem_subscribe_iff]
        simp [Registered, and_comm, eq_comm]
      · next he => simp [Registered, he]
    rw [hn, hr, h.registered_iff]
  once n' := by
    rw [World.recordRead, Store.get_modify]
    split
    · exact Notifier.nodup_subscribe (h.once n) _ _
    · exact h.once n'

/-- The records of an observer go, and with them its subscriptions, which were to nothing else. -/
theorem disconnect (h : w.Exact) (o : ObserverId) : (w.disconnect o).Exact where
  registered_iff o' n topic := by
    rw [Registered, World.disconnect, mem_cancelled, HasRead, Store.get_modify]
    by_cases ho : o = o'
    · subst ho
      rw [if_pos rfl]
      constructor
      · -- What it was subscribed to has a record, and so has been cancelled.
        rintro ⟨hm, hne⟩
        obtain ⟨r, hr, hn, ht⟩ := (h.registered_iff o n topic).mp hm
        exact absurd (ht ▸ rfl) (hne r hr hn)
      · rintro ⟨r, hr, -⟩
        exact absurd hr List.not_mem_nil
    · rw [if_neg ho]
      refine Iff.trans (and_iff_left fun r _ _ he => ?_) (h.registered_iff o' n topic)
      exact ho (Subscriber.observer.inj (congrArg Subscription.subscriber he)).symm
  once n := nodup_cancelled h.once _ n

/-- Who is let go is taken off all lists, and forgets its records. -/
theorem sweep (h : w.Exact) : w.sweep.Exact where
  registered_iff o n topic := by
    rw [Registered, notifiers_sweep, Notifier.mem_retain, HasRead, observers_sweep]
    split
    · next hl => exact (and_iff_left hl).trans (h.registered_iff o n topic)
    · next hl =>
      constructor
      · exact fun hm => absurd hm.2 hl
      · rintro ⟨r, hr, -⟩
        exact absurd hr List.not_mem_nil
  once n := by
    rw [notifiers_sweep]
    exact (h.once n).filter _

/-- Asking a scheduler for a flush leaves everything as it is. -/
theorem follow (h : w.Exact) (next : FollowUp) : (w.follow next).Exact := by
  obtain hf | ⟨log, hf⟩ | ⟨pool, hf⟩ := w.follow_cases next <;> rw [hf]
  · exact h
  · exact h.of_eq rfl rfl
  · exact h.of_eq rfl rfl

theorem of_queued {Mild : Subject → Prop} {next : FollowUp} (h : w.Exact)
    (hq : Queued Mild w next w') : w'.Exact := by
  cases hq with
  | accept => exact h.of_eq rfl rfl
  | @tell o =>
    have ho : ({ w with observers := w.observers.modify o fun s =>
        { s with needsQueue := false } } : World).Exact := h.modifyObserver o fun _ => rfl
    exact ho.of_eq rfl rfl

/-- **No listed change tells subscriptions and records apart.** -/
theorem of_change {Mild : Subject → Prop} (h : w.Exact) (hc : Change Mild w w') : w'.Exact := by
  cases hc with
  | log | lookUp | signals | tickets | event | move | shows | newObject | newArray | newContext
      | objectNotifier | contextNotifier | behavior | giveObserver | view | drop =>
    exact h.of_eq rfl rfl
  | created hc => exact h.created hc
  | queued hq _ => exact (h.of_queued hq).follow _
  | ask scheduler => exact h.follow (.schedule scheduler)
  | request =>
    have hq : ({ w with queue := w.queue.requestIfNeeded.1 } : World).Exact := h.of_eq rfl rfl
    exact hq.follow _
  | sweep => exact h.sweep
  | newNotifier | observeArray => exact h.newNotifier rfl rfl
  | newObserver evaluator isVolatile _ => exact h.newObserver rfl
  | subscribe n topic _ _ _ => exact h.subscribe n (fun _ => by simp) topic
  | unsubscribe n topic hs _ => exact h.unsubscribe n hs topic
  | recordRead name _ _ => exact h.recordRead _ _ name _
  | disconnect _ => exact h.disconnect _
  | refresh | deferError | observerMode | openGate => exact h.modifyObserver _ fun _ => rfl

theorem of_setup (h : w.Exact) (hc : Setup w w') : w'.Exact := by
  cases hc <;> exact h.of_eq rfl rfl

theorem of_write (h : w.Exact) (hc : Write w w') : w'.Exact := by
  cases hc with
  | subscribe n s topic => exact h.subscribe n (fun _ => by simp) topic
  | storeField | items | takeUp | handOver | told => exact h.of_eq rfl rfl

theorem of_access (h : w.Exact) (hc : Access w w') : w'.Exact := by
  cases hc <;> exact h.of_eq rfl rfl

theorem of_adjustment (h : w.Exact) (hc : Adjustment w w') : w'.Exact := by
  cases hc with
  | @await ticket queue next _ =>
    have hq : ({ w with queue } : World).Exact := h.of_eq rfl rfl
    exact hq.follow next
  | install | mode | pool => exact h.of_eq rfl rfl

end Exact

/-- In the empty world nobody has read anything. -/
theorem exact_empty : World.empty.Exact where
  registered_iff o n topic := by
    constructor
    · exact fun h => absurd h List.not_mem_nil
    · rintro ⟨r, hr, -⟩
      exact absurd hr List.not_mem_nil
  once _ := List.nodup_nil

end World

/-! ## The regime -/

/-- **The regime of registrations.** Whatever is called wherever, subscriptions and records agree. -/
def registering : Regime where
  allowed _ _ := true
  Mild _ := True
  Inv := World.Exact
  Rel w w' := w.behaviors.size ≤ w'.behaviors.size
  Entry _ := World.Exact
  Exit _ w _ w' := w.behaviors.size ≤ w'.behaviors.size ∧ w'.Exact
  refl _ := Nat.le_refl _
  trans := Nat.le_trans
  entry _ _ h := h
  exit _ _ _ h := h
  change h hc := ⟨hc.size_behaviors, h.of_change hc⟩
  enter {_ _ w} hs h := by
    obtain ⟨ho, hn⟩ := World.observers_enter hs w
    exact h.of_eq ho hn
  leave {_ _ w w'} hs _ hr h := by
    obtain ⟨ho, hn⟩ := World.observers_leave hs w w'
    obtain ⟨hl, he⟩ := World.behaviors_leave hs w'
    rw [he] at hr
    exact ⟨hl ▸ hr, h.of_eq ho hn⟩
  grown h := h
  light _ _ := .inr fun _ => trivial
  takes _ _ := .inr trivial
  calledBack _ _ := .inr trivial
  watcher _ _ := .inr fun _ => trivial
  behaviors _ _ _ := trivial
  observers _ _ _ := .inr fun _ => trivial
  aspects _ _ _ := trivial

instance (name : String) : registering.Slight (.listener name) := ⟨trivial⟩

instance : registering.Loose where
  tether _ := trivial
  lists _ := trivial
  view _ _ := trivial

instance : registering.Accessible where
  entry _ h := h
  exit _ _ h := h
  access {w w'} h hc :=
    have hb : w'.behaviors = w.behaviors := by cases hc <;> rfl
    ⟨Nat.le_of_eq (congrArg Store.size hb.symm), h.of_access hc⟩

instance : registering.Uniform where
  tickets := trivial
  behavior _ := trivial
  aspect _ _ := trivial
  setup {w w'} h hc :=
    have hb : w'.behaviors = w.behaviors := by cases hc <;> rfl
    ⟨Nat.le_of_eq (congrArg Store.size hb.symm), h.of_setup hc⟩
  cues := trivial
  deliver h _ := h
  delivered _ h := h
  write {w w'} h hc :=
    have hb : w'.behaviors = w.behaviors := by cases hc <;> rfl
    ⟨Nat.le_of_eq (congrArg Store.size hb.symm), h.of_write hc⟩
  flush _ h := h
  flushed _ _ h := h
  pressed h hc := ⟨Nat.le_of_eq (congrArg Store.size hc.behaviors.symm), h.of_queued hc⟩
  adjust h hc := ⟨Nat.le_of_eq (congrArg Store.size hc.behaviors.symm), h.of_adjustment hc⟩

/-- What a flush owes has nothing to do with registrations. -/
def registeringFlushing : Flushing registering where
  Owed start _ w := start.behaviors.size ≤ w.behaviors.size ∧ w.Exact
  log _ h := ⟨h.1, h.2.of_eq rfl rfl⟩
  turn h := h.2.of_eq rfl rfl
  ran h _ he := ⟨Nat.le_trans h.1 he.1, he.2.of_eq rfl rfl⟩

/-- **Subscriptions and records agree** in every run. -/
theorem registering_kept : registering.Kept := by
  refine Regime.Uniform.kept (fun S => ⟨fun {w} hw => ?_⟩) (fun h _ => h) (fun hr h => ⟨hr, h⟩)
    fun S {t w} h _ => Setting.Agrees.agreesAt (m := Machine.update t) h
  refine registeringFlushing.process_agreesAt S (fun _ => ⟨Nat.le_refl _, hw.of_eq rfl rfl⟩)
    fun x hx => ?_
  cases hx with
  | none => exact ⟨Nat.le_refl _, hw.of_eq rfl rfl⟩
  | all _ h => exact ⟨h.1, h.2.of_eq rfl rfl⟩

/-! ## Disposing -/

namespace World

/-- An observer has been disposed of: it has forgotten its records, and discovers its dependencies
anew when it is evaluated again. -/
def disposed (w : World) (o : ObserverId) : World :=
  { w.disconnect o with
    observers := (w.disconnect o).observers.modify o fun s =>
      { s with needsRefresh := true, needsQueue := s.isAsync } }

variable {w : World}

theorem get_disposed (w : World) (o : ObserverId) : (w.disposed o).observers.get o =
    { w.observers.get o with
      records := [], needsRefresh := true, needsQueue := (w.observers.get o).isAsync } := by
  rw [disposed, Store.get_modify, if_pos rfl, disconnect, Store.get_modify, if_pos rfl]

theorem Exact.disposed (h : w.Exact) (o : ObserverId) : (w.disposed o).Exact :=
  (h.disconnect o).modifyObserver o fun _ => rfl

/-- **Disposing of an observer that has been disposed of** changes nothing. -/
theorem disposed_disposed (w : World) (o : ObserverId) : (w.disposed o).disposed o = w.disposed o := by
  have hmade : o.index < (w.disposed o).observers.size := Store.lt_size_modify _ _ _
  have hget := w.get_disposed o
  have hd : (w.disposed o).disconnect o = w.disposed o := by
    have hr : ((w.disposed o).observers.get o).records = [] := by rw [hget]
    have ho : (w.disposed o).observers.modify o (fun s => { s with records := [] }) =
        (w.disposed o).observers :=
      Store.modify_eq_self hmade (by rw [hget])
    rw [disconnect, ho, hr]
    rfl
  rw [disposed, hd, Store.modify_eq_self hmade (by rw [hget])]

end World

theorem Machine.disposeObserver_apply (o : ObserverId) (calls : Calls) (w : World) :
    disposeObserver o calls w = some (.ok (), w.disposed o) := by
  unfold disposeObserver
  rw [bind_apply, Setting.disconnect_apply]
  rfl

open Machine

/-- **Subscriptions are exactly the records**, in every session: wherever a call is made and wherever
it ends, and between commands. An observer is registered with a notifier under a name if and only if
it has a record of that, and nobody is registered twice. An observer that is disposed of is
registered nowhere, and disposing of it again changes nothing. What nobody can reach when a command
ends is let go, and is registered nowhere. -/
theorem subscriptions_are_the_records {w : World}
    (h : Session.Reached (fun _ _ => true) w ∨ ∃ c, Session.Visited (fun _ _ => true) c w) :
    w.Exact ∧
      (∀ depth c r w', run depth c w = some (r, w') → w'.Exact) ∧
      (∀ o calls, ∃ w', disposeObserver o calls w = some (.ok (), w') ∧ w'.Exact ∧ w'.Forgotten o ∧
        disposeObserver o calls w' = some (.ok (), w')) ∧
      ∀ depth c r x, performOne c (run depth) w = some (r, x) →
        run (depth + 1) (.perform c) w = some (r, x.sweep) ∧ x.sweep.Exact ∧
          ∀ o, x.reachable.contains (.observer o) = false → x.sweep.Forgotten o := by
  have hw : w.Exact := by
    obtain h | ⟨c, h⟩ := h
    · exact Session.inv_of_reached registering_kept World.exact_empty h
    · exact Session.entry_of_visited registering_kept World.exact_empty h
  have hends : ∀ depth c r w', run depth c w = some (r, w') → w'.Exact := by
    intro depth c r w' hr
    rw [← runUnder_true] at hr
    exact (Regime.run_agrees registering_kept registering.allowed (fun _ _ _ h => h) depth hw hr).2.2.2
  refine ⟨hw, hends, fun o calls => ?_, fun depth c r x hx => ?_⟩
  · have hrecords : ((w.disposed o).observers.get o).records = [] := by rw [World.get_disposed]
    refine ⟨w.disposed o, disposeObserver_apply o calls w, hw.disposed o,
      (hw.disposed o).forgotten hrecords, ?_⟩
    rw [disposeObserver_apply, World.disposed_disposed]
  · have hrun : run (depth + 1) (.perform c) w = some (r, x.sweep) := by
      show within id (fun _ after => after.sweep) (performOne c) (run depth) w = _
      rw [within, id, hx]
    have hexact := hends _ _ _ _ hrun
    refine ⟨hrun, hexact, fun o ho => hexact.forgotten ?_⟩
    rw [World.observers_sweep, if_neg (by simp [ho])]

/-- An observer reads the same property twice, and another one in between. -/
def rereadingSession : List Command :=
  [.type (.defineProperties "T" ["x", "y"] none),
    .object (.create "m" (some "T") [("x", .bool false), ("y", .bool true)]),
    .observer (.create "o" (.seq [.get .source "x", .get .source "y", .get .source "x"]) false
      (.literal .null)),
    .observer (.observe "o" (.handle "m") none)]

/-- The observer then has two records of the property, and is registered for it once. -/
theorem reread_property_is_registered_once : ∃ w n, Session.Reached (fun _ _ => true) w ∧
    (w.observers.get ⟨0⟩).records.map (·.name) = ["x", "y", "x"] ∧ w.Registered ⟨0⟩ n (some "x") ∧
    (w.notifiers.get n).subscriptions.Nodup := by
  have hplay : (Session.play (fun _ _ => true) rereadingSession World.empty).any (fun w =>
      (w.observers.get ⟨0⟩).records.map (·.name) == ["x", "y", "x"]) = true := by
    decide +kernel
  obtain ⟨w, hw, hnames⟩ := (Option.any_eq_true _ _).mp hplay
  have hnames : (w.observers.get ⟨0⟩).records.map (·.name) = ["x", "y", "x"] := by
    simpa using hnames
  have hreached := Session.reached_of_play .start hw
  obtain ⟨hexact, -⟩ := subscriptions_are_the_records (.inl hreached)
  obtain ⟨r, hr, hname⟩ : ∃ r ∈ (w.observers.get ⟨0⟩).records, r.name = "x" := by
    have hmem : "x" ∈ (w.observers.get ⟨0⟩).records.map (·.name) := by simp [hnames]
    exact List.mem_map.mp hmem
  have hread : w.HasRead ⟨0⟩ r.notifier (some "x") := ⟨r, hr, rfl, congrArg some hname⟩
  exact ⟨w, r.notifier, hreached, hnames, (hexact.registered_iff _ _ _).mpr hread,
    hexact.once r.notifier⟩

end ReactiveViews
