import ReactiveViews.Proofs.Currency.Aspects
/-!
# Bindings that are attached

A binding that is bound has an observer, and the observer has records of what it read. This module says
when such an attachment is in order (`World.Tied`), when its node shows the value that its expression has
(`World.Fresh`), and when it does not but will be told of a change (`World.Pending`). Properties may be in
the middle of being written; so an attachment is *tended* for some properties if it is fresh or will be told
of one of these (`World.Tended`). When nothing is left to be told of, what is tended is fresh.

The observer of an attachment may discover what it reads anew each time, or it always reads the same; both
come to the same here, that whatever its value depends on is recorded.
-/

namespace ReactiveViews

/-- **Attachment.** A binding behavior that is bound, and its observer. -/
structure Attachment where
  behavior : BehaviorId
  state : BindingState
  observer : ObserverId
  bound : Bound
  observer_eq : state.observer = some observer
  bound_eq : state.bound = some bound
  /-- Somebody has written to the target: at one value of the expression, it may show another one. -/
  edited : Option (Value × Value)

namespace Attachment

/-- What the binding evaluates. -/
def formula (a : Attachment) : Expr := a.state.binding.evaluator

/-- What it is evaluated for. -/
def env (a : Attachment) : Env := ⟨a.bound.source, a.bound.context, .null⟩

/-- The node that the binding writes to. -/
def target (a : Attachment) : NodeId := a.state.target

/-- The aspect that it writes. -/
def aspect (a : Attachment) : Aspect := a.state.aspect

/-- What the target may show when the expression has a value: the same, unless it has been edited. -/
def Accepts (a : Attachment) (v shown : Value) : Prop := shown = v ∨ a.edited = some (v, shown)

end Attachment

/-- An expression that always reads the same properties. -/
def Expr.ReadsOnly (e : Expr) (env : Env) (reads : List PropertyRead) : Prop :=
  ∀ (w : World) v first, w.compute? env e = some (v, first) → first = reads

/-- The property of the source that an expression gives. -/
def Expr.sourceProperty? : Expr → Option String
  | .get .source name => some name
  | _ => none

theorem Expr.sourceProperty?_eq_some {e : Expr} {name : String} (h : e.sourceProperty? = some name) :
    e = .get .source name := by
  unfold Expr.sourceProperty? at h
  split at h
  · rw [Option.some.inj h]
  · exact absurd h (by simp)

/-- A property of a source that is an object is read, and nothing else. -/
theorem Expr.readsOnly_property {env : Env} {o : ObjectId} (h : env.source = .object o) (name : String) :
    (Expr.get .source name).ReadsOnly env [(o, name)] := by
  intro w v first hv
  rw [World.compute?, World.compute?, h] at hv
  exact (Prod.mk.inj (Option.some.inj hv)).2.symm

namespace World

/-- **Tied.** A behavior is attached: it is bound and owned, its observer calls it back at once, is
subscribed to whatever it has recorded, and discovers what it reads or always reads what it has recorded.
If it is to listen, its listener is at its target. -/
structure Tied (w : World) (a : Attachment) : Prop where
  behavior : w.behaviors.get a.behavior = ⟨.binding a.state, true⟩
  observer : ∃ records needsRefresh, w.observers.get a.observer =
    ⟨a.formula, a.state.binding.isVolatile, .refresh a.behavior, records, needsRefresh, false, false, none⟩
  live : ∀ r ∈ (w.observers.get a.observer).records, w.Live a.observer r
  tracking : (w.observers.get a.observer).needsRefresh = true ∨
    ∃ reads, a.formula.ReadsOnly a.env reads ∧ ∀ read ∈ reads, w.HasRecord a.observer read
  volatile : a.state.binding.isVolatile = true ∨ ∃ reads, a.formula.ReadsOnly a.env reads
  listens : ∀ slot, a.state.listener = some slot → ∃ how type convert,
    a.state.binding.mode = .twoWay how type convert ∧
    w.document.listener? a.target slot = some ⟨type, .assign a.behavior, false⟩

/-- **Fresh.** The target of an attachment shows the value of its expression, or what is accepted in its
place, and its observer has recorded all that the value depends on. -/
def Fresh (w : World) (a : Attachment) : Prop :=
  ∃ v shown reads, w.compute? a.env a.formula = some (v, reads) ∧
    w.Displays a.target a.aspect shown ∧ a.Accepts v shown ∧ ∀ read ∈ reads, w.HasRecord a.observer read

/-- **Pending.** The observer of an attachment has recorded one of the properties. -/
def Pending (w : World) (changing : List PropertyRead) (a : Attachment) : Prop :=
  ∃ p ∈ changing, w.HasRecord a.observer p

/-- **Tended.** Nobody watches, and an attachment is fresh, or it will be told of a property that is
changing. -/
structure Tended (w : World) (changing : List PropertyRead) (a : Attachment) : Prop where
  watcher : w.watcher = none
  tied : w.Tied a
  settled : w.Fresh a ∨ w.Pending changing a

/-- The attachment of a behavior, if it is bound and has an observer. -/
def attachment? (w : World) (b : BehaviorId) : Option Attachment :=
  match w.bindingState? b with
  | none => none
  | some s =>
    match ho : s.observer, hb : s.bound with
    | some o, some bound => some ⟨b, s, o, bound, ho, hb, none⟩
    | _, _ => none

section

variable {w w' : World} {a : Attachment} {changing : List PropertyRead} {p : PropertyRead}
  {o : ObserverId}

/-- An attachment to which nothing is pending is fresh. -/
theorem Tended.fresh (h : w.Tended [] a) : w.Fresh a := by
  obtain hf | ⟨p, hp, -⟩ := h.settled
  · exact hf
  · exact absurd hp List.not_mem_nil

/-- A tied attachment is the one of its behavior, but for what has been edited. -/
theorem Tied.attachment? (h : w.Tied a) (he : a.edited = none) :
    w.attachment? a.behavior = some a := by
  obtain ⟨b, s, o, bound, ho, hb, edited⟩ := a
  obtain rfl : edited = none := he
  have hstate : w.bindingState? b = some s := by rw [bindingState?, World.behavior, h.behavior]
  unfold World.attachment?
  rw [hstate]
  dsimp only
  split
  · next o' bound' ho' hb' =>
    obtain rfl := Option.some.inj (ho'.symm.trans ho)
    obtain rfl := Option.some.inj (hb'.symm.trans hb)
    rfl
  · next hnone => exact absurd hb (hnone o bound ho)

/-- What is tended is so for whatever else is changing. -/
theorem Tended.mono {changing' : List PropertyRead} (h : w.Tended changing a)
    (hc : ∀ p ∈ changing, p ∈ changing') : w.Tended changing' a := by
  refine ⟨h.watcher, h.tied, h.settled.imp_right ?_⟩
  rintro ⟨p, hp, hr⟩
  exact ⟨p, hc p hp, hr⟩

theorem HasRecord.of_records {read : PropertyRead}
    (h : (w'.observers.get o).records = (w.observers.get o).records) :
    w'.HasRecord o read ↔ w.HasRecord o read := by
  rw [HasRecord, HasRecord, h]

/-- Nothing is pending for an observer without records. -/
theorem Tended.of_no_records (h : w.Tended changing a) (hr : (w.observers.get a.observer).records = []) :
    w.Tended [] a := by
  refine ⟨h.watcher, h.tied, .inl (h.settled.resolve_right ?_)⟩
  rintro ⟨p, -, r, hm, -⟩
  rw [hr] at hm
  exact absurd hm List.not_mem_nil

/-- What an observer has recorded is tracked, and it is subscribed to that, if its records are live. -/
theorem HasRecord.live (hr : w.HasRecord o p)
    (hl : ∀ r ∈ (w.observers.get o).records, w.Live o r) :
    w.Tracks p ∧ ∃ n, (w.objects.get p.1).notifier = some n ∧ w.Registered o n (some p.2) := by
  obtain ⟨r, hr, hs, hname⟩ := hr
  obtain ⟨x, hx, hmade, hobservable, hnotifier, hregistered⟩ := hl r hr
  obtain rfl : x = p.1 := by
    rw [hs] at hx
    exact (Observable.object.inj hx).symm
  exact ⟨⟨hmade, hname ▸ hobservable⟩, r.notifier, hnotifier, hname ▸ hregistered⟩

/-- So it is a recipient of the changes of that. -/
theorem HasRecord.mem_recipients (hr : w.HasRecord o p)
    (hl : ∀ r ∈ (w.observers.get o).records, w.Live o r) {n : NotifierId}
    (hn : (w.objects.get p.1).notifier = some n) :
    .observer o ∈ (w.notifiers.get n).recipients (.property p.2) := by
  obtain ⟨-, m, hnotifier, hregistered⟩ := hr.live hl
  obtain rfl : n = m := Option.some.inj (hn.symm.trans hnotifier)
  exact Notifier.mem_recipients.mpr (.inl ⟨p.2, rfl, hregistered⟩)

/-- What is pending only for an object that nobody observes is not pending. -/
theorem Tended.unobserved (h : w.Tended (p :: changing) a) (hn : (w.objects.get p.1).notifier = none) :
    w.Tended changing a := by
  refine ⟨h.watcher, h.tied, h.settled.imp_right ?_⟩
  rintro ⟨q, hq, hr⟩
  obtain rfl | hq := List.mem_cons.mp hq
  · obtain ⟨-, n, hnotifier, -⟩ := hr.live h.tied.live
    exact absurd (hn.symm.trans hnotifier) (by simp)
  · exact ⟨q, hq, hr⟩

/-- The observer of an attachment that has recorded a property is a recipient of its changes. -/
theorem Tied.mem_recipients (h : w.Tied a) (hr : w.HasRecord a.observer p) {n : NotifierId}
    (hn : (w.objects.get p.1).notifier = some n) :
    .observer a.observer ∈ (w.notifiers.get n).recipients (.property p.2) :=
  hr.mem_recipients h.live hn

/-- Nor is it pending for a property whose changes its observer is not told of. -/
theorem Tended.unlisted (h : w.Tended (p :: changing) a) {n : NotifierId}
    (hn : (w.objects.get p.1).notifier = some n)
    (hl : .observer a.observer ∉ (w.notifiers.get n).recipients (.property p.2)) :
    w.Tended changing a := by
  refine ⟨h.watcher, h.tied, h.settled.imp_right ?_⟩
  rintro ⟨q, hq, hr⟩
  obtain rfl | hq := List.mem_cons.mp hq
  · exact absurd (h.tied.mem_recipients hr hn) hl
  · exact ⟨q, hq, hr⟩

/-! ## What leaves an attachment alone -/

/-- **Sparing.** What there is stands, the behavior and the observer of an attachment are as they were, the
observer is registered where it was, and so is whatever listens at the target for good. -/
structure Spares (w : World) (a : Attachment) (w' : World) : Prop extends w.Stands w' where
  watcher : w'.watcher = w.watcher
  behavior : w'.behaviors.get a.behavior = w.behaviors.get a.behavior
  observer : w'.observers.get a.observer = w.observers.get a.observer
  registered : ∀ {n topic}, w.Registered a.observer n topic → w'.Registered a.observer n topic
  listeners : ∀ {slot l}, l.once = false → w.document.listener? a.target slot = some l →
    w'.document.listener? a.target slot = some l

theorem Tied.spared (h : w.Tied a) (hs : w.Spares a w') : w'.Tied a where
  behavior := hs.behavior.trans h.behavior
  observer := by
    rw [hs.observer]
    exact h.observer
  live r hr := (h.live r (hs.observer ▸ hr)).stands hs.toStands hs.registered
  tracking := by
    rw [hs.observer]
    refine h.tracking.imp_right ?_
    rintro ⟨reads, hreads, hr⟩
    exact ⟨reads, hreads, fun read hm =>
      (HasRecord.of_records (congrArg ObserverState.records hs.observer)).mpr (hr read hm)⟩
  volatile := h.volatile
  listens slot hl := by
    obtain ⟨how, type, convert, hm, hl⟩ := h.listens slot hl
    exact ⟨how, type, convert, hm, hs.listeners rfl hl⟩

/-- What is recorded of an attachment is of properties that are observed. -/
theorem Tied.observable (h : w.Tied a) (hr : w.HasRecord a.observer p) : w.Tracks p :=
  (hr.live h.live).1

/-- **What leaves an attachment alone** leaves it tended, if what it shows and what its value depends on stay,
or are pending. -/
theorem Tended.spared {changing' : List PropertyRead} (h : w.Tended changing a)
    (hs : w.Spares a w')
    (hp : ∀ p, w.HasRecord a.observer p → p ∉ changing' → w'.peek p.1 p.2 = w.peek p.1 p.2)
    (hc : ∀ p ∈ changing, p ∈ changing')
    (hd : ∀ v, w.Displays a.target a.aspect v → w'.Displays a.target a.aspect v) :
    w'.Tended changing' a where
  watcher := hs.watcher.trans h.watcher
  tied := h.tied.spared hs
  settled := by
    have hrecorded : ∀ {p}, w'.HasRecord a.observer p ↔ w.HasRecord a.observer p :=
      HasRecord.of_records (congrArg ObserverState.records hs.observer)
    obtain ⟨v, shown, reads, hv, hshown, haccepts, hr⟩ | ⟨p, hm, hr⟩ := h.settled
    · by_cases hm : ∃ p ∈ changing', p ∈ reads
      · obtain ⟨p, hm, hread⟩ := hm
        exact .inr ⟨p, hm, hrecorded.mpr (hr p hread)⟩
      · refine .inl ⟨v, shown, reads, compute?_agree hv ⟨fun read hread => ?_, hs.handle, hs.display⟩,
          hd shown hshown, haccepts, fun read hread => hrecorded.mpr (hr read hread)⟩
        exact hp read (hr read hread) fun hc => hm ⟨read, hc, hread⟩
    · exact .inr ⟨p, hc p hm, hrecorded.mpr hr⟩

/-- Where values are the same and so is the document. -/
theorem Tended.same (h : w.Tended changing a) (hs : w.Spares a w')
    (hp : ∀ o name, w'.peek o name = w.peek o name) (hd : w'.document = w.document) :
    w'.Tended changing a :=
  h.spared hs (fun _ _ _ => hp _ _) (fun _ => id) fun _ hv => hv.of_document hd hs.display

end

end World

end ReactiveViews
