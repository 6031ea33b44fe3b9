import ReactiveViews.Proofs.Currency.Events
/-!
# Writes

A write stores a value, runs a callback, and tells the observers that were subscribed then, one after
another; any of them may write again. At no point in this is an attachment lost sight of. When a value is
stored, an attachment that has recorded the property is pending for it; it stays so through whatever the
callback does (`World.Tended.stored`); and it is on the list of those who are told, because a record
is never without its subscription. Until it is told it stays pending, when it is told it is refreshed, and
after that it is left tended (`Machine.deliverAll_tends`). So at the end of a write it is tended for what it
was tended for before, however writes are nested: the properties that are being written further out
(`Machine.setProperty_tends`).

This is said of every run in which those who are told behave (`admits`): bindings that are refreshed have
formulas of properties that can be tracked and values that are shown by themselves, and they do not write
to the slots of the attachments; everything else that is evaluated is tame.
-/

namespace ReactiveViews

namespace World

instance (w : World) (read : PropertyRead) : Decidable (w.Tracks read) := by
  unfold Tracks
  infer_instance

/-- Whether a behavior may be refreshed beside some attachments. -/
def mayRefresh (w : World) (as : List Attachment) (o : ObserverId) (b : BehaviorId) : Bool :=
  match w.bindingState? b with
  | none => false
  | some s =>
    match s.bound with
    | none => false
    | some bound =>
      decide (s.observer = some o) && (w.observers.get o).deferredError.isNone &&
      as.all (fun a => decide (a.observer = o ∨ s.aspect.Apart s.target a.target a.aspect)) &&
      match w.compute? ⟨bound.source, bound.context, .null⟩ (w.observers.get o).evaluator with
      | none => false
      | some (v, reads) =>
        reads.all (fun read => decide (w.Tracks read)) && decide (s.ShowsPlainly v)

/-- Whether an observer may be told of a change: it is queued, or does nothing, or what it does is tame,
or it refreshes a behavior that may be refreshed. -/
def mayTell (w : World) (as : List Attachment) (o : ObserverId) : Bool :=
  let s := w.observers.get o
  s.needsQueue || s.isAsync || s.records.isEmpty ||
  match s.reaction with
  | .scripted _ _ => true
  | .refresh b => w.mayRefresh as o b
  | .itemsChanged _ | .templateChanged _ => false

end World

/-- **What is admitted** in a run that attachments are to come out of current: tame expressions are
evaluated, scripted subscribers and observers are told of changes, and events bubble. -/
def admits (as : List Attachment) : Call → World → Bool
  | .eval e _, _ => e.isTame
  | .bubble _ _, _ => true
  | .deliver (.scripted _) _, _ => true
  | .deliver (.observer o) _, w => w.mayTell as o
  | _, _ => false

namespace World

variable {w w' : World} {a : Attachment} {as : List Attachment} {changing : List PropertyRead}
  {o : ObserverId} {b : BehaviorId} {x : ObjectId} {name : String} {v : Value}

theorem refreshable_of_mayRefresh (h : w.mayRefresh as o b = true) :
    ∃ s bound v reads, w.Refreshable o b s bound v reads ∧
      ∀ a ∈ as, a.observer ≠ o → s.aspect.Apart s.target a.target a.aspect := by
  unfold mayRefresh at h
  split at h
  · exact absurd h (by simp)
  next s hs =>
  split at h
  · exact absurd h (by simp)
  next bound hbound =>
  rw [Bool.and_eq_true, Bool.and_eq_true, Bool.and_eq_true] at h
  obtain ⟨⟨⟨hobserver, hfine⟩, hapart⟩, hvalue⟩ := h
  split at hvalue
  · exact absurd hvalue (by simp)
  next v reads hv =>
  rw [Bool.and_eq_true] at hvalue
  refine ⟨s, bound, v, reads, ⟨hs, hbound, of_decide_eq_true hobserver,
    Option.isNone_iff_eq_none.mp hfine, hv, fun read hr => ?_, of_decide_eq_true hvalue.2⟩,
    fun a ha ho => ?_⟩
  · exact of_decide_eq_true (List.all_eq_true.mp hvalue.1 read hr)
  · exact (of_decide_eq_true (List.all_eq_true.mp hapart a ha)).resolve_left ho

/-- A change of one observer. An attachment does not notice unless it is its own that changes. -/
theorem Tended.modifyObserver (h : w.Tended changing a) {f : ObserverState → ObserverState}
    (hf : o = a.observer → f (w.observers.get o) = w.observers.get o) :
    ({ w with observers := w.observers.modify o f } : World).Tended changing a := by
  have hsame : w.SameValues { w with observers := w.observers.modify o f } :=
    .of_eq rfl rfl rfl rfl
  refine h.same ⟨hsame.toStands, rfl, rfl, ?_, id, fun _ => id⟩ hsame.peek rfl
  show (w.observers.modify o f).get a.observer = _
  rw [Store.get_modify]
  split
  · next he => rw [hf he, he]
  · rfl

theorem Tied.reaction (h : w.Tied a) : (w.observers.get a.observer).reaction = .refresh a.behavior := by
  obtain ⟨records, needsRefresh, hobserver⟩ := h.observer
  rw [hobserver]

theorem Tied.synchronous (h : w.Tied a) : (w.observers.get a.observer).needsQueue = false ∧
    (w.observers.get a.observer).isAsync = false := by
  obtain ⟨records, needsRefresh, hobserver⟩ := h.observer
  rw [hobserver]
  exact ⟨rfl, rfl⟩

theorem Tied.of_refreshable (h : w.Tied a) {s : BindingState} {bound : Bound} {reads : List PropertyRead}
    (hr : w.Refreshable a.observer a.behavior s bound v reads) :
    s = a.state ∧ w.compute? a.env a.formula = some (v, reads) := by
  obtain ⟨records, needsRefresh, hobserver⟩ := h.observer
  have hstate : w.bindingState? a.behavior = some a.state := by
    rw [bindingState?, World.behavior, h.behavior]
  obtain rfl := Option.some.inj (hstate.symm.trans hr.state_eq)
  obtain rfl := Option.some.inj (a.bound_eq.symm.trans hr.bound_eq)
  refine ⟨rfl, ?_⟩
  have hv := hr.value
  rwa [hobserver] at hv

/-- The gate of an observer has been opened. -/
def opened (w : World) (o : ObserverId) : World :=
  { w with observers := w.observers.modify o fun s => { s with needsQueue := s.isAsync } }

/-! ## Storing -/

/-- A value is stored. -/
def stored (w : World) (x : ObjectId) (name : String) (v : Value) : World :=
  { w with objects := w.objects.modify x fun s => { s with fields := s.fields.put name v } }

theorem stands_stored (w : World) (x : ObjectId) (name : String) (v : Value) :
    w.Stands (w.stored x name v) := by
  have hsame : ∀ y, ((w.stored x name v).objects.get y).typeName = (w.objects.get y).typeName ∧
      ((w.stored x name v).objects.get y).notifier = (w.objects.get y).notifier := by
    intro y
    show (((w.objects.modify x _).get y).typeName = _) ∧ _
    rw [stored, Store.get_modify]
    split
    · next he => exact he ▸ ⟨rfl, rfl⟩
    · exact ⟨rfl, rfl⟩
  refine .of_eq rfl rfl (Store.size_le_modify _ _ _) (fun y other => ?_) fun {y n} hy => ?_
  · rw [isObservable, isObservable, typeOf, (hsame y).1]
    rfl
  · exact (hsame y).2.trans hy

/-- Every other property has the value that it had. -/
theorem peek_stored (w : World) {p : PropertyRead} (h : p ≠ (x, name)) (v : Value) :
    (w.stored x name v).peek p.1 p.2 = w.peek p.1 p.2 := by
  show ((((w.objects.modify x _).get p.1).fields).find? p.2).getD .null = _
  rw [Store.get_modify]
  split
  · next he =>
    rw [Keyed.find?_put, if_neg fun hn => h (Prod.ext he.symm hn.symm), he]
    rfl
  · rfl

theorem spares_stored (w : World) (x : ObjectId) (name : String) (v : Value) (a : Attachment) :
    w.Spares a (w.stored x name v) :=
  ⟨stands_stored w x name v, rfl, rfl, rfl, id, fun _ => id⟩

/-- **When a value is stored**, whoever has recorded the property is pending for it. -/
theorem Tended.stored (h : w.Tended ((x, name) :: changing) a) (v : Value) :
    (w.stored x name v).Tended ((x, name) :: changing) a := by
  refine h.spared (spares_stored w x name v _) (fun p _ hp => w.peek_stored ?_ v) (fun _ => id)
    fun u hu => hu.of_document rfl (stands_stored w x name v).display
  rintro rfl
  exact hp List.mem_cons_self

/-- A property that cannot be observed has been recorded by nobody. -/
theorem Tended.stored_unobservable (h : w.Tended changing a) (hx : w.isObservable x name = false)
    (v : Value) : (w.stored x name v).Tended changing a := by
  refine h.spared (spares_stored w x name v _) (fun p hp _ => w.peek_stored ?_ v) (fun _ => id)
    fun u hu => hu.of_document rfl (stands_stored w x name v).display
  rintro rfl
  exact absurd ((h.tied.observable hp).2.symm.trans hx) (by simp)

end World

namespace Machine

variable {calls : Calls} {a : Attachment} {as : List Attachment} {w w' : World}
  {changing : List PropertyRead} {o : ObserverId} {b : BehaviorId} {x : ObjectId} {name : String}
  {v : Value}

/-! ## What a write does -/

/-- What is done after a value has been stored. -/
def announce (x : ObjectId) (name : String) (old new : Value) (callback : Option Expr) : Machine Unit := do
  match callback with
  | some body => holding [.changing (.object x) name] (runCallback x name old new body)
  | none => pure ()
  match ← read fun w => (w.objects.get x).notifier with
  | some n => notify n (.property name)
  | none => pure ()

/-- A write to a property whose accessor has been looked up. -/
theorem setProperty_of_found {found : Option Accessor} {w₁ : World} :
    accessorOf? (w.typeOf x) name calls w = some (.ok found, w₁) →
    setProperty x name v calls w = match found with
      | none => some (.ok (), w₁.stored x name v)
      | some accessor =>
        if (w₁.peek x name).same v then some (.ok (), w₁)
        else announce x name (w₁.peek x name) v accessor.callback calls (w₁.stored x name v) := by
  intro h
  unfold setProperty
  rw [bind_apply, read_apply]
  dsimp only
  rw [bind_apply, h]
  dsimp only
  cases found with
  | none => rfl
  | some accessor =>
    dsimp only
    rw [bind_apply, read_apply]
    dsimp only
    split
    · rfl
    · unfold announce
      cases accessor.callback <;> rfl

/-- **A write**, case by case. -/
theorem setProperty_apply (x : ObjectId) (name : String) (v : Value) (calls : Calls) (w : World) :
    ∃ log, setProperty x name v calls w =
      match (w.registry.accessors (w.typeOf x)).1.find? name with
      | none => some (.ok (), (w.lookedUp (w.typeOf x) log).stored x name v)
      | some accessor =>
        if (w.peek x name).same v then some (.ok (), w.lookedUp (w.typeOf x) log)
        else announce x name (w.peek x name) v accessor.callback calls
          ((w.lookedUp (w.typeOf x) log).stored x name v) := by
  obtain ⟨log, hfound⟩ := accessorOf?_apply (w.typeOf x) name calls w
  exact ⟨log, setProperty_of_found hfound⟩

/-- A write of the value that is there does nothing. -/
theorem setProperty_again (hx : w.isObservable x name = true) (hv : (w.peek x name).same v = true)
    {r : Except Error Unit} (h : setProperty x name v calls w = some (r, w')) :
    ∃ log, w' = w.lookedUp (w.typeOf x) log := by
  obtain ⟨log, hset⟩ := setProperty_apply x name v calls w
  obtain ⟨accessor, haccessor⟩ := Option.isSome_iff_exists.mp hx
  rw [hset, haccessor] at h
  dsimp only at h
  rw [if_pos hv] at h
  exact ⟨log, (Prod.mk.inj (Option.some.inj h)).2.symm⟩

instance (o : ObjectId) (name : String) (old new : Value) (body : Expr) :
    Firm calls (runCallback o name old new body) := by
  unfold runCallback
  refine .bind fun w => .bind fun _ => .bind fun r => ?_
  cases r <;> infer_instance

/-- Writing does not fail. -/
instance [Firmly calls] (x : ObjectId) (name : String) (v : Value) :
    Firm calls (setProperty x name v) := by
  have hannounce : ∀ old callback, Firm calls (announce x name old v callback) := by
    intro old callback
    have hnotify : ∀ notifier : Option NotifierId, Firm calls (match notifier with
        | some n => notify n (.property name)
        | none => pure ()) := fun notifier => by cases notifier <;> infer_instance
    unfold announce
    cases callback <;> infer_instance
  refine ⟨fun {w w' r} h => ?_⟩
  obtain ⟨log, hset⟩ := setProperty_apply x name v calls w
  rw [hset] at h
  split at h
  · exact ⟨(), (Prod.mk.inj (Option.some.inj h)).1.symm⟩
  · split at h
    · exact ⟨(), (Prod.mk.inj (Option.some.inj h)).1.symm⟩
    · exact (hannounce _ _).ok h

/-! ## Attending to an attachment -/

/-- **Attending.** Calls leave an attachment tended, and telling its observer of a change leaves nothing
pending. -/
class Attends (calls : Calls) (a : Attachment) : Prop where
  call (c : Call) : Tends calls a (Machine.call c)
  settles {changing : List PropertyRead} {w w' : World} {change : Change} {r : Except Error Unit} :
    w.Tended changing a →
      Machine.call (.deliver (.observer a.observer) change) calls w = some (r, w') → w'.Tended [] a

section Attends

variable [Attends calls a]

instance (e : Expr) (env : Env) : Tends calls a (eval e env) := Attends.call (.eval e env)

instance : @Tends FlushReport calls a (call .settle) := Attends.call .settle

instance (c : Command) : @Tends Answer calls a (call (.perform c)) := Attends.call (.perform c)

instance (n : NodeId) (e : EventId) : @Tends Unit calls a (call (.bubble n e)) :=
  Attends.call (.bubble n e)

instance (scheduler : Scheduler) : Tends calls a (askScheduler scheduler) := by
  refine ⟨fun {changing w w' r} hw h => ?_⟩
  obtain ⟨rfl, rfl⟩ := Prod.mk.inj (Option.some.inj ((askScheduler_apply scheduler calls w).symm.trans h))
  refine hw.aside ?_
  cases scheduler with
  | manual | log => exact ⟨rfl, rfl, rfl, rfl, rfl, rfl, rfl, rfl, rfl⟩
  | pool =>
    unfold World.ask
    cases w.pool <;> exact ⟨rfl, rfl, rfl, rfl, rfl, rfl, rfl, rfl, rfl⟩

instance (next : FollowUp) : Tends calls a (followUp next) := by
  cases next with
  | nothing | schedule =>
    unfold followUp
    infer_instance
  | runNow =>
    unfold followUp
    infer_instance

instance (t : Task) : Tends calls a (enqueue t) := by
  unfold enqueue
  infer_instance

instance (s : SubscriberId) (change : Change) : Tends calls a (subscriberTold s change) := by
  have hs : ∀ state, Tends calls a (setSubscriber s state) := fun state =>
    .modify fun _ => ⟨rfl, rfl, rfl, rfl, rfl, rfl, rfl, rfl, rfl⟩
  unfold subscriberTold
  refine .bind fun w => .bind fun _ => .bind fun _ => .bind fun r => ?_
  cases r <;> infer_instance

/-! ## Telling an observer -/

omit [Attends calls a] in
/-- What the observer of a binding does when it reacts. -/
theorem refresh_tends {s : BindingState} {bound : Bound} {reads : List PropertyRead}
    (hc : RunsFormulas calls) (hw : w.Tended changing a)
    (hrefreshable : w.Refreshable o b s bound v reads)
    (hapart : a.observer ≠ o → s.aspect.Apart s.target a.target a.aspect)
    (hown : o = a.observer → b = a.behavior) {r : Except Error Unit}
    (h : reactOwned b (refreshBinding b) calls w = some (r, w')) :
    w'.Tended changing a ∧ (o = a.observer → w'.Tended [] a) := by
  unfold reactOwned at h
  rw [bind_apply, get_apply] at h
  dsimp only at h
  split at h
  · obtain ⟨w₁, hrun, rfl⟩ := within_eq_some.mp h
    have henter := World.Aside.hold w ([.subscriber (.behavior b)] ++ w.held)
    replace hrefreshable := hrefreshable.sameValues henter.sameValues rfl rfl rfl
    obtain ⟨-, w₂, hobserved, hdrawn⟩ := refreshBinding_draws hc hrefreshable hrun
    by_cases ho : o = a.observer
    · subst ho
      obtain rfl := hown rfl
      obtain ⟨rfl, hv⟩ := (hw.aside henter).tied.of_refreshable hrefreshable
      have hfresh := ((hw.aside henter).tied.refreshed hw.watcher hobserved hdrawn hv).aside (.hold w₁ w.held)
      exact ⟨hfresh.mono (by simp), fun _ => hfresh⟩
    · have hbeside := (hw.aside henter).beside hobserved hdrawn (Ne.symm ho) (hapart (Ne.symm ho))
      exact ⟨hbeside.aside (.hold w₁ w.held), fun he => absurd he ho⟩
  · next hb =>
    obtain ⟨rfl, rfl⟩ := Prod.mk.inj (Option.some.inj h)
    refine ⟨hw, fun ho => absurd ?_ hb⟩
    rw [hown ho, World.isOwned, hw.tied.behavior]

/-- **A reaction** that may happen leaves an attachment tended, and fresh if it is its own. -/
theorem react_tends (hc : RunsFormulas calls) (ha : a ∈ as) (hw : w.Tended changing a)
    (hm : w.mayTell as o = true) (hq : (w.observers.get o).needsQueue = false)
    (hasync : (w.observers.get o).isAsync = false) {r : Except Error Unit}
    (h : react o calls w = some (r, w')) :
    w'.Tended changing a ∧ (o = a.observer → w'.Tended [] a) := by
  unfold react at h
  rw [bind_apply, read_apply] at h
  dsimp only at h
  cases hr : (w.observers.get o).records with
  | nil =>
    rw [hr] at h
    obtain ⟨rfl, rfl⟩ := Prod.mk.inj (Option.some.inj h)
    exact ⟨hw, fun ho => hw.of_no_records (ho ▸ hr)⟩
  | cons first records =>
    -- Its gate is open already, so opening it changes nothing about the observer.
    have hsame : { w.observers.get o with needsQueue := (w.observers.get o).isAsync } =
        w.observers.get o := by
      rw [hasync, ← hq]
    have hget : (w.opened o).observers.get o = w.observers.get o :=
      (Store.get_modify _ _ _ _).trans ((if_pos rfl).trans hsame)
    have hopened : (w.opened o).Tended changing a := hw.modifyObserver fun _ => hsame
    have hopen : modifyObserver o (fun s => { s with needsQueue := s.isAsync }) calls w =
        some (.ok (), w.opened o) := rfl
    rw [hr, if_neg (by simp), bind_apply, hopen] at h
    dsimp only at h
    unfold World.mayTell at hm
    simp only [hq, hasync, hr, List.isEmpty_cons, Bool.or_self, Bool.false_or] at hm
    cases hreaction : (w.observers.get o).reaction with
    | scripted name body =>
      rw [hreaction] at h
      have ht : Tends calls a (logEntry (.reacted name) >>= fun _ => runBody body) := inferInstance
      refine ⟨ht.tends hopened h, fun ho => ?_⟩
      exact absurd (hw.tied.reaction.symm.trans (ho ▸ hreaction)) (by simp)
    | refresh b =>
      rw [hreaction] at h hm
      obtain ⟨s, bound, v, reads, hrefreshable, hapart⟩ := World.refreshable_of_mayRefresh hm
      refine refresh_tends hc hopened (hrefreshable.sameValues (.of_eq rfl rfl rfl rfl) rfl
        (congrArg ObserverState.evaluator hget) (congrArg ObserverState.deferredError hget))
        (hapart a ha) (fun ho => ?_) h
      exact Reaction.refresh.inj (hreaction.symm.trans (ho ▸ hw.tied.reaction))
    | itemsChanged b | templateChanged b =>
      rw [hreaction] at hm
      exact absurd hm (by simp)

/-- **Telling an observer** of a change. -/
theorem dependencyChanged_tends (hc : RunsFormulas calls) (ha : a ∈ as) (hw : w.Tended changing a)
    (hm : w.mayTell as o = true) {r : Except Error Unit}
    (h : dependencyChanged o calls w = some (r, w')) :
    w'.Tended changing a ∧ (o = a.observer → w'.Tended [] a) := by
  obtain ⟨hgate, hsync⟩ := hw.tied.synchronous
  unfold dependencyChanged at h
  rw [bind_apply, read_apply] at h
  dsimp only at h
  split at h
  · next hq =>
    -- Whoever is queued is somebody else.
    have ho : o ≠ a.observer := by
      rintro rfl
      exact absurd (hq.symm.trans hgate) (by simp)
    have hshut : ({ w with observers := w.observers.modify o fun s => { s with needsQueue := false } } :
        World).Tended changing a := hw.modifyObserver fun he => absurd he ho
    have ht : Tends calls a (enqueue (.observer o)) := inferInstance
    exact ⟨ht.tends hshut h, fun he => absurd he ho⟩
  · next hq =>
    split at h
    · next hasync =>
      obtain ⟨e, h, -⟩ | ⟨x, w₁, hattempt, h⟩ := bind_eq_some h
      · obtain ⟨x, -, hx⟩ := attempt_eq_some.mp h
        exact absurd hx (by simp)
      obtain ⟨_, hreact, -⟩ := attempt_eq_some.mp hattempt
      have hreacted := react_tends hc ha hw hm (by simpa using hq) (by simpa using hasync) hreact
      have hrest : ∀ {changing'}, w₁.Tended changing' a → w'.Tended changing' a := by
        intro changing' hw₁
        cases x with
        | ok =>
          obtain ⟨rfl, rfl⟩ := Prod.mk.inj (Option.some.inj h)
          exact hw₁
        | error e =>
          have ht : Tends calls a (logError "synchronous binding update failed" e) := inferInstance
          exact ht.tends hw₁ h
      exact ⟨hrest hreacted.1, fun ho => hrest (hreacted.2 ho)⟩
    · next hasync =>
      obtain ⟨rfl, rfl⟩ := Prod.mk.inj (Option.some.inj h)
      refine ⟨hw, fun ho => absurd ?_ hasync⟩
      rw [ho, hsync]
      rfl

/-! ## Writing -/

/-- **Telling everybody** of a change that is pending. Who is not on the list is not pending. -/
theorem deliverAll_tends [Firmly calls] {change : Change} {p : PropertyRead} {l : List Subscriber}
    (hw : w.Tended (p :: changing) a)
    (hl : .observer a.observer ∉ l → w.Tended changing a) {r : Except Error Unit}
    (h : deliverAll change l calls w = some (r, w')) : w'.Tended changing a := by
  induction l generalizing w with
  | nil =>
    obtain ⟨rfl, rfl⟩ := Prod.mk.inj (Option.some.inj h)
    exact hl List.not_mem_nil
  | cons s rest ih =>
    unfold deliverAll at h
    have hfirm : Firm calls (holding ((s :: rest).map .subscriber) (call (.deliver s change))) :=
      inferInstance
    obtain ⟨e, htold, -⟩ | ⟨x, w₁, htold, h⟩ := bind_eq_some h
    · obtain ⟨u, hu⟩ := hfirm.ok htold
      exact absurd hu (by simp)
    have ht : Tends calls a (holding ((s :: rest).map .subscriber) (call (.deliver s change))) := by
      have : Tends calls a (Machine.call (.deliver s change)) := Attends.call _
      infer_instance
    refine ih (ht.tends hw htold) (fun hrest => ?_) h
    by_cases hs : s = .observer a.observer
    · subst hs
      obtain ⟨w₂, hcall, rfl⟩ := within_eq_some.mp htold
      have hsettled := Attends.settles (hw.aside (.hold w _)) hcall
      exact (hsettled.aside (.hold w₂ w.held)).mono (by simp)
    · exact ht.tends (hl (by simp [Ne.symm hs, hrest])) htold

/-- The notifier of an object, if it has one, tells everybody of a change. -/
theorem notify_tends [Firmly calls] (hw : w.Tended ((x, name) :: changing) a) {r : Except Error Unit}
    (h : (do
      match ← read fun w => (w.objects.get x).notifier with
      | some n => notify n (.property name)
      | none => pure () : Machine Unit) calls w = some (r, w')) : w'.Tended changing a := by
  rw [bind_apply, read_apply] at h
  dsimp only at h
  cases hn : (w.objects.get x).notifier with
  | none =>
    rw [hn] at h
    obtain ⟨rfl, rfl⟩ := Prod.mk.inj (Option.some.inj h)
    exact hw.unobserved hn
  | some n =>
    rw [hn] at h
    exact deliverAll_tends hw (hw.unlisted hn) h

instance (o : ObjectId) (name : String) (old new : Value) (body : Expr) :
    Tends calls a (runCallback o name old new body) := by
  unfold runCallback
  refine .bind fun w => .bind fun _ => .bind fun r => ?_
  cases r <;> infer_instance

/-- **After a write** nothing is pending that was pending for the property. -/
theorem announce_tends [Firmly calls] {old : Value} {callback : Option Expr}
    (hw : w.Tended ((x, name) :: changing) a) {r : Except Error Unit}
    (h : announce x name old v callback calls w = some (r, w')) : w'.Tended changing a := by
  cases callback with
  | none => exact notify_tends hw h
  | some body =>
    have ht : Tends calls a (holding [.changing (.object x) name] (runCallback x name old v body)) :=
      inferInstance
    have hfirm : Firm calls (holding [.changing (.object x) name] (runCallback x name old v body)) :=
      inferInstance
    obtain ⟨e, hrun, -⟩ | ⟨u, w₁, hrun, h⟩ := bind_eq_some h
    · obtain ⟨u, hu⟩ := hfirm.ok hrun
      exact absurd hu (by simp)
    · exact notify_tends (ht.tends hw hrun) h

/-- **A write that says something new** leaves nothing pending for what it writes. -/
theorem setProperty_settles [Firmly calls] (hx : w.isObservable x name = true)
    (hnew : (w.peek x name).same v = false) (hw : w.Tended ((x, name) :: changing) a)
    {r : Except Error Unit} (h : setProperty x name v calls w = some (r, w')) :
    w'.Tended changing a := by
  obtain ⟨log, hset⟩ := setProperty_apply x name v calls w
  obtain ⟨accessor, haccessor⟩ := Option.isSome_iff_exists.mp hx
  rw [hset, haccessor] at h
  dsimp only at h
  rw [hnew, if_neg (by simp)] at h
  exact announce_tends ((hw.lookedUp _ log).stored v) h

/-- **A write** leaves an attachment tended: a write that says nothing new does nothing, and one to a
property that cannot be observed concerns nobody. -/
instance [Firmly calls] (x : ObjectId) (name : String) (v : Value) :
    Tends calls a (setProperty x name v) := by
  refine ⟨fun {changing w w' r} hw h => ?_⟩
  cases hx : w.isObservable x name with
  | true =>
    cases hnew : (w.peek x name).same v with
    | false => exact setProperty_settles hx hnew (hw.mono fun _ => List.mem_cons_of_mem _) h
    | true =>
      obtain ⟨log, rfl⟩ := setProperty_again hx hnew h
      exact hw.lookedUp _ log
  | false =>
    obtain ⟨log, hset⟩ := setProperty_apply x name v calls w
    have hnone : (w.registry.accessors (w.typeOf x)).1.find? name = none :=
      Option.not_isSome_iff_eq_none.mp (by simpa [World.isObservable] using hx)
    rw [hset, hnone] at h
    obtain ⟨rfl, rfl⟩ := Prod.mk.inj (Option.some.inj h)
    refine (hw.lookedUp _ log).stored_unobservable ?_ v
    rw [(World.sameValues_lookedUp w (w.typeOf x) log).observable, hx]

end Attends

/-! ## Runs -/

/-- **In every admitted run** calls attend to the attachments. -/
theorem runUnder_attends {as : List Attachment} {a : Attachment} (ha : a ∈ as) (depth : Nat) :
    Attends (runUnder (admits as) depth) a := by
  induction depth with
  | zero =>
    refine ⟨fun c => ⟨fun _ h => ?_⟩, fun _ h => ?_⟩
    · exact absurd h (by simp [call, runUnder])
    · exact absurd h (by simp [call, runUnder])
  | succ depth ih =>
    have hc := runUnder_runsFormulas (admits as) depth
    refine ⟨fun c => ⟨fun {changing w w' r} hw h => ?_⟩, fun {changing w w' change r} hw h => ?_⟩
    · obtain ⟨hadmitted, h⟩ := runUnder_succ h
      cases c with
      | eval e env =>
        have ht : Tends (runUnder (admits as) depth) a (evalExpr e env) := evalExpr_tends hadmitted env
        exact ht.tends hw h
      | deliver s change =>
        cases s with
        | observer o => exact (dependencyChanged_tends hc ha hw hadmitted h).1
        | scripted s =>
          have ht : Tends (runUnder (admits as) depth) a (subscriberTold s change) := inferInstance
          exact ht.tends hw h
        | behavior b => exact absurd hadmitted (by simp [admits])
      | bubble n e =>
        have ht : Tends (runUnder (admits as) depth) a (bubble n e) := inferInstance
        exact ht.tends hw h
      | _ => exact absurd hadmitted (by simp [admits])
    · obtain ⟨hadmitted, h⟩ := runUnder_succ h
      exact (dependencyChanged_tends hc ha hw hadmitted h).2 rfl

end Machine

end ReactiveViews
