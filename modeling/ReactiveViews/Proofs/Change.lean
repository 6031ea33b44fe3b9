import ReactiveViews.Proofs.Creation
/-!
# What one step can do

However deep calls go, the world changes in a few ways only: something new is
entered, a subscription is made, a read is recorded, a task is accepted, and so
on. `World.Change` lists them once for the whole library. Whatever all of them
respect is respected by every run (`ReactiveViews.Proofs.Frames`), so an invariant
is checked against this list and not against the code.

Somebody may have something special to say of a few behaviors, views or nodes, and
show by other means what happens to these. So the list is of changes to what is
*mild*: a change to a behavior, say, is listed if the behavior is mild.

Some changes are made of two writes with nothing in between, and only together
keep what holds of the world: an observer shuts its gate and is queued, a read is
recorded and subscribed to, the records of an observer go with their
subscriptions. They are one constructor each.

`World.Change` leaves out what makes others act, such as storing a field or splicing an
array (`World.Write`), what commands set up without making anybody act
(`World.Setup`), what is done with a context or a view that somebody has got hold of
(`World.Access`), and what says how the queue is flushed (`World.Adjustment`). Beginning
a flush is not listed at all. It empties the queue, and what
was queued is then owed by the flush, which is for whoever reasons about flushes to
say.
-/

namespace ReactiveViews

/-- **Cue.** What has a behavior act besides being bound. -/
inductive Cue
  /-- An observer calls it back. -/
  | observer
  /-- It is subscribed to a topic. -/
  | topic (topic : Option String)
  /-- It is queued. -/
  | task

/-- A binding in this mode is evaluated again when what it has read changes. -/
def BindingMode.Tracks : BindingMode → Prop
  | .onChange | .twoWay _ _ _ => True
  | .oneTime | .signal _ => False

/-- **Taking cues.** A binding behavior takes the cues that its mode asks for. A repeat is called back
by its observers, whatever the modes of its bindings, and told of the splices of its items. -/
def Behavior.Takes : Behavior → Cue → Prop
  | .binding s, .observer => s.binding.mode.Tracks
  | .binding s, .topic topic => ∃ name, s.binding.mode = .signal name ∧ topic = some name
  | .binding s, .task => ∃ name, s.binding.mode = .signal name
  | .repeated _, .observer => True
  | .repeated _, .topic topic => topic = none
  | .repeated _, .task => False
  | .handler _, _ => False
  | .probe _, _ => False

/-- **Subject.** Something of which somebody may have something special to say. -/
inductive Subject
  | behavior (b : BehaviorId)
  /-- Whether a behavior is bound, and the views that it lists. -/
  | tether (b : BehaviorId)
  /-- The views that a behavior lists, be it bound or not. -/
  | lists (b : BehaviorId)
  /-- What behaviors take their cues from. -/
  | cues
  /-- Which tickets have been drawn, and which are good. -/
  | tickets
  | view (v : ViewId)
  /-- What a node shows of an aspect. -/
  | aspect (n : NodeId) (a : Aspect)
  /-- Who is registered as a scripted listener of a name, and whether it is called. -/
  | listener (name : String)

/-- Whoever is given a handle to this can neither bind a view by it nor move a context. -/
def Handle.IsInert : Handle → Prop
  | .context _ | .view _ => False
  | _ => True

/-- A mutation brings an aspect of a node to a value. -/
inductive Mutation.Shows : Mutation → NodeId → Aspect → Prop
  | text (n : NodeId) (data : String) : Shows (.text n data) n .content
  | attr (n : NodeId) (name : String) (value : Option String) :
    Shows (.attr n name value) n (.attr name)
  | flag (n : NodeId) (name : String) (present : Bool) :
    Shows (.flag n name present) n (.flag name)
  | prop (n : NodeId) (name : String) (value : Value) : Shows (.prop n name value) n (.prop name)

namespace World

/-- The notifier of something observable, if it has one. -/
def notifierOf? (w : World) : Observable → Option NotifierId
  | .object o => (w.objects.get o).notifier
  | .array a => (w.arrays.get a).observer.map (·.notifier)
  | .context c => (w.contexts.get c).notifier

/-- **Light.** An observer has been made and calls back mild behaviors only; or every behavior is
mild. -/
def Light (Mild : Subject → Prop) (w : World) (o : ObserverId) : Prop :=
  (o.index < w.observers.size ∧
    ∀ b, (w.observers.get o).reaction.behavior? = some b → Mild (.behavior b)) ∨
      ∀ b, Mild (.behavior b)

theorem light_of_behavior? {Mild : Subject → Prop} {w : World} {o : ObserverId} {b : BehaviorId}
    (h : (w.observers.get o).reaction.behavior? = some b) (hb : Mild (.behavior b)) :
    w.Light Mild o :=
  .inl ⟨lt_of_behavior? h, fun b' hb' => by
    obtain rfl : b = b' := Option.some.inj (h.symm.trans hb')
    exact hb⟩

/-- A behavior takes a cue; or nobody has anything to say of cues. -/
def Takes (Mild : Subject → Prop) (w : World) (b : BehaviorId) (cue : Cue) : Prop :=
  (w.behavior b).Takes cue ∨ Mild .cues

/-- **Calm.** What is queued is a scripted task or a mild behavior that has been made and takes its
cue, or an array where every behavior is mild. Observers are queued in one step with something else. -/
def Calm (Mild : Subject → Prop) (w : World) : Task → Prop
  | .scripted _ => True
  | .behavior b => Mild (.behavior b) ∧ b.index < w.behaviors.size ∧ w.Takes Mild b .task
  | .splices _ => ∀ b, Mild (.behavior b)
  | .observer _ => False

/-- An observer records a read of `source` that it subscribed to at a notifier. -/
def recordRead (w : World) (o : ObserverId) (source : Observable) (name : String)
    (n : NotifierId) : World :=
  { w with
    notifiers := w.notifiers.modify n (·.subscribe (.observer o) (some name))
    observers := w.observers.modify o fun s =>
      { s with
        needsRefresh := s.needsRefresh || Machine.continuesChain w s.records source
        records := s.records ++ [⟨source, name, n⟩] } }

/-- The notifiers without the subscriptions of an observer to some reads. -/
def cancelled (notifiers : Store .notifier Notifier) (o : ObserverId) (records : List Record) :
    Store .notifier Notifier :=
  records.foldl
    (fun ns r => ns.modify r.notifier (·.unsubscribe (.observer o) (some r.name))) notifiers

/-- A new notifier has no subscriptions, and neither had it before it was made. -/
theorem get_newNotifier (notifiers : Store .notifier Notifier) (n : NotifierId) :
    (notifiers.add ⟨[]⟩).2.get n = notifiers.get n := by
  by_cases he : n = (notifiers.add ⟨[]⟩).1
  · rw [he, Store.get_add_self, Store.get_next]
    rfl
  · exact Store.get_add_of_ne _ _ _ he

theorem mem_newNotifier {notifiers : Store .notifier Notifier} {n : NotifierId} {x : Subscription} :
    x ∈ ((notifiers.add ⟨[]⟩).2.get n).subscriptions ↔ x ∈ (notifiers.get n).subscriptions := by
  rw [get_newNotifier]

/-- Cancelling takes out the subscriptions to what was recorded and nothing else. -/
theorem mem_cancelled {o : ObserverId} {records : List Record} {notifiers : Store .notifier Notifier}
    {n : NotifierId} {x : Subscription} :
    x ∈ ((cancelled notifiers o records).get n).subscriptions ↔
      x ∈ (notifiers.get n).subscriptions ∧
        ∀ r ∈ records, r.notifier = n → x ≠ ⟨some r.name, .observer o⟩ := by
  induction records generalizing notifiers with
  | nil => exact ⟨fun h => ⟨h, nofun⟩, And.left⟩
  | cons r records ih =>
    have hr : x ∈ ((notifiers.modify r.notifier
          (·.unsubscribe (.observer o) (some r.name))).get n).subscriptions ↔
        x ∈ (notifiers.get n).subscriptions ∧
          (r.notifier = n → x ≠ ⟨some r.name, .observer o⟩) := by
      rw [Store.get_modify]
      split
      · next he => simp [← he, Notifier.mem_unsubscribe]
      · next he => simp [he]
    rw [cancelled, List.foldl_cons, ← cancelled, ih, hr, and_assoc, List.forall_mem_cons]

/-- An observer forgets its records and cancels their subscriptions. -/
def disconnect (w : World) (o : ObserverId) : World :=
  { w with
    observers := w.observers.modify o fun s => { s with records := [] }
    notifiers := cancelled w.notifiers o (w.observers.get o).records }

/-- An observer is told of a change: it shuts its gate and is queued. -/
def tell (w : World) (o : ObserverId) : World :=
  { w with
    observers := w.observers.modify o fun s => { s with needsQueue := false }
    queue := (w.queue.accept (.observer o)).1 }

/-- An array is given an observer, with a notifier of its own. -/
def observeArray (w : World) (a : ArrayId) : World :=
  { w with
    notifiers := (w.notifiers.add ⟨[]⟩).2
    arrays := w.arrays.modify a fun s => { s with
      observer :=
        some ⟨(w.notifiers.add ⟨[]⟩).1, w.arrayObservation = .immediate, [], true⟩ } }

/-- The observer of an array takes up a splice. -/
def takeUp (w : World) (a : ArrayId) (observer : ArrayObserver) (s : Splice) : World :=
  { w with
    arrays := w.arrays.modify a fun state => { state with
      observer := some
        { observer with pending := Splice.append observer.pending s, needsQueue := false } } }

/-- The observer of an array hands over what it has taken up. -/
def handOver (w : World) (a : ArrayId) (observer : ArrayObserver) : World :=
  { w with
    arrays := w.arrays.modify a fun state =>
      { state with observer := some { observer with pending := [], needsQueue := true } } }

/-- A context is moved, and nobody has been told yet. -/
def place (w : World) (c : ContextId) (index length : Nat) : World :=
  { w with contexts := w.contexts.modify c fun s => { s with index, length } }

/-- A scripted subscriber keeps what it is told. -/
def told (w : World) (s : SubscriberId) (change : ReactiveViews.Change) : World :=
  { w with
    subscribers := w.subscribers.set s
      { w.subscribers.get s with told := change :: (w.subscribers.get s).told } }

/-- A binding behavior is given its observer. -/
def giveObserver (w : World) (b : BehaviorId) (o : ObserverId) : World :=
  { w with
    behaviors := w.behaviors.modify b fun c =>
      { c with behavior := match c.behavior with
          | .binding s => .binding { s with observer := some o }
          | other => other } }

/-- The world in which a scheduler has been asked for a flush. -/
def ask (w : World) : Scheduler → World
  | .manual => w
  | .log => { w with log := .scheduled :: w.log }
  | .pool =>
    match w.pool with
    | some spawned => { w with pool := some (spawned + 1) }
    | none => { w with log := .error "failed to spawn update flush" "Executor is shutdown" :: w.log }

/-- The world in which has been done what a change of the queue asks for, short of emptying it. -/
def follow (w : World) : FollowUp → World
  | .schedule scheduler => w.ask scheduler
  | .nothing | .runNow => w

/-- The world in which a flush has been requested if something waits. -/
def requested (w : World) : World :=
  ({ w with queue := w.queue.requestIfNeeded.1 } : World).follow w.queue.requestIfNeeded.2

/-- Asking a scheduler for a flush is seen in the log or at the task pool only. -/
theorem follow_cases (w : World) (next : FollowUp) : w.follow next = w ∨
    (∃ entries, w.follow next = { w with log := entries }) ∨ ∃ pool, w.follow next = { w with pool } := by
  cases next with
  | nothing | runNow => exact .inl rfl
  | schedule scheduler =>
    cases scheduler with
    | manual => exact .inl rfl
    | log => exact .inr (.inl ⟨_, rfl⟩)
    | pool =>
      unfold follow ask
      cases w.pool with
      | some spawned => exact .inr (.inr ⟨_, rfl⟩)
      | none => exact .inr (.inl ⟨_, rfl⟩)

@[simp] theorem queue_follow (w : World) (next : FollowUp) : (w.follow next).queue = w.queue := by
  obtain h | ⟨entries, h⟩ | ⟨pool, h⟩ := w.follow_cases next <;> rw [h]

@[simp] theorem behaviors_follow (w : World) (next : FollowUp) :
    (w.follow next).behaviors = w.behaviors := by
  obtain h | ⟨entries, h⟩ | ⟨pool, h⟩ := w.follow_cases next <;> rw [h]

@[simp] theorem arrays_follow (w : World) (next : FollowUp) : (w.follow next).arrays = w.arrays := by
  obtain h | ⟨entries, h⟩ | ⟨pool, h⟩ := w.follow_cases next <;> rw [h]

@[simp] theorem subscribers_follow (w : World) (next : FollowUp) :
    (w.follow next).subscribers = w.subscribers := by
  obtain h | ⟨entries, h⟩ | ⟨pool, h⟩ := w.follow_cases next <;> rw [h]

@[simp] theorem behaviors_requested (w : World) : w.requested.behaviors = w.behaviors :=
  behaviors_follow _ _

@[simp] theorem queue_requested (w : World) : w.requested.queue = w.queue.requestIfNeeded.1 :=
  queue_follow _ _

/-- **Queued.** A step that may queue something, and what then has to be done. -/
inductive Queued (Mild : Subject → Prop) (w : World) : FollowUp → World → Prop
  | accept {t : Task} (ht : w.Calm Mild t) :
    Queued Mild w (w.queue.accept t).2 { w with queue := (w.queue.accept t).1 }
  | tell {o : ObserverId} (hm : w.Light Mild o) :
    Queued Mild w (w.queue.accept (.observer o)).2 (w.tell o)

/-- A change to a state leaves the tether of a behavior as it is, or that is mild; and if it is, the change
leaves the views that are listed as they are, or these are mild as well. -/
def MayTether {α : Type} (Mild : Subject → Prop) (b : BehaviorId) (tether : α → Tether) (f : α → α) :
    Prop :=
  (∀ s, tether (f s) = tether s) ∨
    Mild (.tether b) ∧ ((∀ s, (tether (f s)).lists = (tether s).lists) ∨ Mild (.lists b))

/-- **Change.** What one step of the machine does to the world, about mild subjects. -/
inductive Change (Mild : Subject → Prop) : World → World → Prop
  | log (w : World) (entries : List LogEntry)
    (hu : ∀ name, Mild (.listener name) ∨ w.Unheard name { w with log := entries }) :
    Change Mild w { w with log := entries }
  | lookUp (w : World) (type : String) :
    Change Mild w { w with registry := (w.registry.accessors type).2.1 }
  | signals (w : World) (signals : Keyed NotifierId) : Change Mild w { w with signals }
  | ask (w : World) (scheduler : Scheduler) : Change Mild w (w.ask scheduler)
  | tickets (w : World) (tickets : Store .ticket Bool) (hm : Mild .tickets) :
    Change Mild w { w with tickets }
  | event (w : World) (e : EventId) (f : EventState → EventState) :
    Change Mild w { w with events := w.events.modify e f }
  | sweep (w : World) : Change Mild w w.sweep
  | move (w : World) {document : Document} (h : Document.Move w.document document)
    (hu : ∀ name, Mild (.listener name) ∨ w.Unheard name { w with document }) :
    Change Mild w { w with document }
  | shows (w : World) {m : Mutation} {n : NodeId} {a : Aspect} (h : m.Shows n a)
    (hm : Mild (.aspect n a)) : Change Mild w { w with document := w.document.mutate m }
  /- Something new is entered. -/
  | newObject (w : World) (s : ObjectState) (h : s.notifier = none) :
    Change Mild w { w with objects := (w.objects.add s).2 }
  | newArray (w : World) (items : List Value) :
    Change Mild w { w with arrays := (w.arrays.add ⟨items, none⟩).2 }
  | newNotifier (w : World) : Change Mild w { w with notifiers := (w.notifiers.add ⟨[]⟩).2 }
  | newObserver (w : World) (evaluator : Expr) (isVolatile : Bool) {reaction : Reaction}
    (h : ∀ b, reaction.behavior? = some b → reaction = .refresh b ∧ Mild (.behavior b) ∧
      b.index < w.behaviors.size ∧ w.Takes Mild b .observer) :
    Change Mild w (w.withObserver (.made evaluator isVolatile reaction))
  | newContext (w : World) (s : ContextState) (h : s.notifier = none) :
    Change Mild w { w with contexts := (w.contexts.add s).2 }
  | created {w w' : World} (h : Created w w') : Change Mild w w'
  /- Something that is there changes. -/
  | objectNotifier (w : World) (o : ObjectId) (n : NotifierId)
    (h : (w.objects.get o).notifier = none) :
    Change Mild w { w with objects := w.objects.modify o fun s => { s with notifier := some n } }
  | contextNotifier (w : World) (c : ContextId) (n : NotifierId)
    (h : (w.contexts.get c).notifier = none) :
    Change Mild w { w with contexts := w.contexts.modify c fun s => { s with notifier := some n } }
  | observeArray (w : World) (a : ArrayId) (h : (w.arrays.get a).observer = none)
    (ho : w.arrayObservation ≠ .off) : Change Mild w (w.observeArray a)
  | behavior (w : World) {b : BehaviorId} {f : Behavior → Behavior}
    (hf : ∀ s, (f s).bare = s.bare)
    (ht : MayTether Mild b Behavior.tether f) (hm : Mild (.behavior b)) :
    Change Mild w { w with
      behaviors := w.behaviors.modify b fun c => { c with behavior := f c.behavior } }
  | giveObserver (w : World) {b : BehaviorId} {o : ObserverId}
    (ho : (w.observers.get o).reaction = .refresh b) (hm : Mild (.behavior b)) :
    Change Mild w (w.giveObserver b o)
  | view (w : World) {v : ViewId} (source : Option Value) (context : Option ContextId)
    (hm : Mild (.view v)) :
    Change Mild w { w with views := w.views.modify v fun s => { s with source, context } }
  /- Subscriptions and observers. -/
  | subscribe (w : World) (n : NotifierId) {b : BehaviorId} (topic : Option String)
    (hm : Mild (.behavior b)) (hb : b.index < w.behaviors.size)
    (ht : w.Takes Mild b (.topic topic)) :
    Change Mild w { w with notifiers := w.notifiers.modify n (·.subscribe (.behavior b) topic) }
  | unsubscribe (w : World) (n : NotifierId) {s : Subscriber} (topic : Option String)
    (hs : ∀ o, s ≠ .observer o) (hm : ∀ b, s = .behavior b → Mild (.behavior b)) :
    Change Mild w { w with notifiers := w.notifiers.modify n (·.unsubscribe s topic) }
  | recordRead (w : World) {o : ObserverId} {source : Observable} (name : String)
    {n : NotifierId} (hn : w.notifierOf? source = some n) (hm : w.Light Mild o) :
    Change Mild w (w.recordRead o source name n)
  | disconnect (w : World) {o : ObserverId} (hm : w.Light Mild o) :
    Change Mild w (w.disconnect o)
  | refresh (w : World) {o : ObserverId} (needsRefresh : ObserverState → Bool)
    (hm : w.Light Mild o) :
    Change Mild w { w with
      observers := w.observers.modify o fun s => { s with needsRefresh := needsRefresh s } }
  | deferError (w : World) {o : ObserverId} (e : ObserverState → Option Error)
    (hm : w.Light Mild o) :
    Change Mild w { w with
      observers := w.observers.modify o fun s => { s with deferredError := e s } }
  | observerMode (w : World) {o : ObserverId} (isAsync : Bool) (hm : w.Light Mild o) :
    Change Mild w { w with
      observers := w.observers.modify o fun s => { s with isAsync, needsQueue := isAsync } }
  | openGate (w : World) {o : ObserverId} (needsRefresh : ObserverState → Bool)
    (hm : w.Light Mild o) :
    Change Mild w { w with
      observers := w.observers.modify o fun s =>
        { s with needsRefresh := needsRefresh s, needsQueue := s.isAsync } }
  /- The queue, as long as it is not to be emptied at once. -/
  | queued {w w' : World} {next : FollowUp} (h : Queued Mild w next w') (hn : next ≠ .runNow) :
    Change Mild w (w'.follow next)
  | request (w : World) : Change Mild w w.requested
  | drop (w : World) (name : String) (hm : Mild (.listener name)) :
    Change Mild w { w with handles := w.handles.erase name }

/-- The document is changed and nobody joins. -/
theorem Change.moved {Mild : Subject → Prop} (w : World) {document : Document}
    (h : Document.Move w.document document) (hj : ∀ name, w.document.NoneJoin name document) :
    Change Mild w { w with document } :=
  .move w h fun name => .inr (unheard_document (hj name))

/-- The log begins anew. -/
theorem Change.unlogged (Mild : Subject → Prop) (w : World) : Change Mild w { w with log := [] } :=
  .log w [] fun _ => .inr ⟨Document.noneJoin_refl _, Nat.zero_le _, id⟩

/-- **Setup.** What a step does that only commands do, and that makes nobody act. Handles are given to what is
neither a view nor a context. -/
inductive Setup : World → World → Prop
  | registry (w : World) (registry : Registry) : Setup w { w with registry }
  | give (w : World) (name : String) {h : Handle} (hi : h.IsInert) :
    Setup w { w with handles := w.handles.put name h }
  | hostMode (w : World) (hostMode : HostMode) : Setup w { w with hostMode }
  | arrayObservation (w : World) (arrayObservation : ArrayObservation) :
    Setup w { w with arrayObservation }
  | edit (w : World) {document : Document} (h : Document.Edit w.document document)
    (hu : ∀ name, w.document.NoneJoin name document) : Setup w { w with document }
  | newEvent (w : World) (s : EventState) : Setup w { w with events := (w.events.add s).2 }
  | newTemplate (w : World) (s : TemplateState) :
    Setup w { w with templates := (w.templates.add s).2 }
  | newSubscriber (w : World) (s : Scripted) :
    Setup w { w with subscribers := (w.subscribers.add ⟨s, []⟩).2 }
  | newTask (w : World) (s : Scripted) : Setup w { w with tasks := (w.tasks.add s).2 }
  | dropPool (w : World) : Setup w { w with pool := none }

/-- **Write.** What a step does that makes others act, or that they see. -/
inductive Write : World → World → Prop
  | storeField (w : World) (o : ObjectId) (name : String) (value : Value) :
    Write w { w with
      objects := w.objects.modify o fun s => { s with fields := s.fields.put name value } }
  | items (w : World) (a : ArrayId) (items : List Value) :
    Write w { w with arrays := w.arrays.modify a fun s => { s with items } }
  | takeUp (w : World) (a : ArrayId) {observer : ArrayObserver} (s : Splice)
    (h : (w.arrays.get a).observer = some observer) : Write w (w.takeUp a observer s)
  | handOver (w : World) (a : ArrayId) {observer : ArrayObserver}
    (h : (w.arrays.get a).observer = some observer) : Write w (w.handOver a observer)
  | told (w : World) (s : SubscriberId) (change : ReactiveViews.Change) :
    Write w (w.told s change)
  | subscribe (w : World) (n : NotifierId) (s : SubscriberId) (topic : Option String) :
    Write w { w with notifiers := w.notifiers.modify n (·.subscribe (.scripted s) topic) }

/-- **Access.** What a step does with a view or a context that it has got hold of: it moves the context, or
gives a handle to it. -/
inductive Access : World → World → Prop
  | place (w : World) (c : ContextId) (index length : Nat) : Access w (w.place c index length)
  | give (w : World) (name : String) (h : Handle) :
    Access w { w with handles := w.handles.put name h }

/-- **Adjustment.** What a step does to who waits for a flush, and to when there is one. -/
inductive Adjustment : World → World → Prop
  | await (w : World) {ticket : TicketId} {queue : Queue} {next : FollowUp}
    (h : w.queue.await ticket = some (queue, next)) :
    Adjustment w (({ w with queue } : World).follow next)
  | install (w : World) (scheduler : Scheduler) :
    Adjustment w { w with queue := (w.queue.install scheduler).1 }
  | mode (w : World) (mode : UpdateMode) : Adjustment w { w with queue := { w.queue with mode } }
  | pool (w : World) (pool : Option Nat) : Adjustment w { w with pool }

/-- Queueing changes no behavior. -/
theorem Queued.behaviors {Mild : Subject → Prop} {w w' : World} {next : FollowUp}
    (h : Queued Mild w next w') : w'.behaviors = w.behaviors := by
  cases h <;> rfl

theorem Adjustment.behaviors {w w' : World} (h : Adjustment w w') : w'.behaviors = w.behaviors := by
  cases h with
  | await => exact behaviors_follow _ _
  | install | mode | pool => rfl

/-- Queueing does nothing to the task pool. -/
theorem Queued.pool {Mild : Subject → Prop} {w w' : World} {next : FollowUp}
    (h : Queued Mild w next w') : w'.pool = w.pool := by
  cases h <;> rfl

/-- Behaviors that have been made stay. -/
theorem Change.size_behaviors {Mild : Subject → Prop} {w w' : World} (h : Change Mild w w') :
    w.behaviors.size ≤ w'.behaviors.size := by
  cases h with
  | created h => exact h.behaviors.size
  | behavior | giveObserver => exact Store.size_le_modify _ _ _
  | queued h => exact Nat.le_of_eq (congrArg Store.size (h.behaviors.symm.trans (behaviors_follow _ _).symm))
  | ask scheduler => exact Nat.le_of_eq (congrArg Store.size (behaviors_follow w (.schedule scheduler)).symm)
  | request => exact Nat.le_of_eq (congrArg Store.size (behaviors_requested w).symm)
  | sweep =>
    show w.behaviors.cells.size ≤ (w.behaviors.cells.mapIdx _).size
    exact Nat.le_of_eq Array.size_mapIdx.symm
  | _ => exact Nat.le_refl _

/-- Queueing does to the queue what accepting a task does. -/
theorem Queued.queue {Mild : Subject → Prop} {w w' : World} {next : FollowUp}
    (h : Queued Mild w next w') : ∃ t, next = (w.queue.accept t).2 ∧ w'.queue = (w.queue.accept t).1 := by
  cases h with
  | accept => exact ⟨_, rfl, rfl⟩
  | tell => exact ⟨_, rfl, rfl⟩

end World

/-- What doing what is asked for makes of the flushes spawned on the task pool. -/
def FollowUp.spawn (next : FollowUp) (pool : Option Nat) : Option Nat :=
  if next = .schedule .pool then pool.map (· + 1) else pool

theorem World.pool_follow (w : World) (next : FollowUp) :
    (w.follow next).pool = next.spawn w.pool := by
  cases next with
  | nothing | runNow => rfl
  | schedule scheduler =>
    cases scheduler with
    | manual | log => rfl
    | pool =>
      simp only [follow, ask, FollowUp.spawn, if_true]
      split
      · next spawned h => rw [h, Option.map_some]
      · next h => rw [h, Option.map_none]

/-- **What a change does to the queue.** It leaves the queue alone, accepts a task as long as the
queue is not to be emptied at once, or requests a flush if something waits. What this asks for is
done. -/
inductive Queue.Step (q : Queue) : FollowUp → Queue → Prop
  | stay (next : FollowUp) : Step q next q
  | accept (t : Task) (hn : (q.accept t).2 ≠ .runNow) : Step q (q.accept t).2 (q.accept t).1
  | request : Step q q.requestIfNeeded.2 q.requestIfNeeded.1

/-- A step of the queue says neither whether a flush is running nor in which mode the queue is. -/
theorem Queue.Step.fixed {q q' : Queue} {next : FollowUp} (hs : q.Step next q') :
    q'.processing = q.processing ∧ q'.mode = q.mode := by
  cases hs with
  | stay => exact ⟨rfl, rfl⟩
  | accept t hn => exact fixed_accept q t
  | request => exact fixed_requestIfNeeded q

theorem World.Change.queue {Mild : Subject → Prop} {w w' : World} (h : World.Change Mild w w') :
    ∃ next, w.queue.Step next w'.queue ∧ w'.pool = next.spawn w.pool := by
  have hstay : ∀ {x : World}, x.queue = w.queue → x.pool = w.pool →
      ∃ next, w.queue.Step next x.queue ∧ x.pool = next.spawn w.pool :=
    fun hq hp => ⟨.nothing, hq ▸ .stay _, hp⟩
  cases h with
  | @queued w₁ _ h hn =>
    obtain ⟨t, rfl, he⟩ := h.queue
    refine ⟨_, ?_, h.pool ▸ w₁.pool_follow _⟩
    rw [queue_follow, he]
    exact .accept t hn
  | request => exact ⟨_, queue_requested w ▸ .request, pool_follow _ _⟩
  | ask scheduler =>
    exact ⟨.schedule scheduler, queue_follow w (.schedule scheduler) ▸ .stay _,
      w.pool_follow (.schedule scheduler)⟩
  | created h => exact hstay (by rw [h.rest]) (by rw [h.rest])
  | _ => exact hstay rfl rfl

end ReactiveViews
