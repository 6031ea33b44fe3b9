import ReactiveViews.Machine
/-!
# What is still there

Notifiers do not keep their subscribers, nodes do not keep their parents, and
observers and listeners do not keep the behaviors they call. So something is
there only as long as it is *reachable*: from a handle, from the queue, or from
what is running, through whatever keeps what it refers to.

`World.sweep` lets go of the rest. Subscribers that are gone are no longer listed,
an observer that is gone forgets its records, the children of a node that is gone
have no parent, and a behavior that is gone is no longer called by those that
outlive it.
-/

namespace ReactiveViews

/-- Anything that others may keep. -/
inductive Thing
  | object (o : ObjectId)
  | array (a : ArrayId)
  | template (t : TemplateId)
  | observer (o : ObserverId)
  | context (c : ContextId)
  | node (n : NodeId)
  | event (e : EventId)
  | behavior (b : BehaviorId)
  | view (v : ViewId)
  | subscriber (s : SubscriberId)
deriving DecidableEq

namespace Thing

/-- A number that tells a thing from every other: its kind in the last place, its index before. -/
def number : Thing → Nat
  | object o => 10 * o.index
  | array a => 10 * a.index + 1
  | template t => 10 * t.index + 2
  | observer o => 10 * o.index + 3
  | context c => 10 * c.index + 4
  | node n => 10 * n.index + 5
  | event e => 10 * e.index + 6
  | behavior b => 10 * b.index + 7
  | view v => 10 * v.index + 8
  | subscriber s => 10 * s.index + 9

/-- Different things have different numbers. -/
theorem number_inj {t u : Thing} : t.number = u.number ↔ t = u := by
  constructor
  · intro h
    rcases t with ⟨⟨i⟩⟩ | ⟨⟨i⟩⟩ | ⟨⟨i⟩⟩ | ⟨⟨i⟩⟩ | ⟨⟨i⟩⟩ | ⟨⟨i⟩⟩ | ⟨⟨i⟩⟩ | ⟨⟨i⟩⟩ | ⟨⟨i⟩⟩ | ⟨⟨i⟩⟩ <;>
      rcases u with ⟨⟨j⟩⟩ | ⟨⟨j⟩⟩ | ⟨⟨j⟩⟩ | ⟨⟨j⟩⟩ | ⟨⟨j⟩⟩ | ⟨⟨j⟩⟩ | ⟨⟨j⟩⟩ | ⟨⟨j⟩⟩ | ⟨⟨j⟩⟩ | ⟨⟨j⟩⟩ <;>
      simp [number] at h ⊢ <;> omega
  · rintro rfl
    rfl

/-- What a value keeps. -/
def ofValue : Value → List Thing
  | .object o => [object o]
  | .array a => [array a]
  | .template t => [template t]
  | _ => []

/-- What an expression keeps: the value of a constant. -/
def ofExpr : Expr → List Thing
  | .constant v => ofValue v
  | _ => []

/-- What a directive keeps. -/
def ofDirective : Directive → List Thing
  | .bind b _ => ofExpr b.evaluator
  | .repeated items chosen _ => ofExpr items.evaluator ++ ofExpr chosen.evaluator
  | .probe _ _ _ => []

/-- What being bound keeps. -/
def ofBound (b : Bound) : List Thing := context b.context :: ofValue b.source

/-- What something observable is. -/
def ofObservable : Observable → Thing
  | .object o => object o
  | .array a => array a
  | .context c => context c

/-- A subscriber as something that may be kept. -/
def ofSubscriber : Subscriber → Thing
  | .observer o => observer o
  | .behavior b => behavior b
  | .scripted s => subscriber s

/-- What a queued task keeps. -/
def ofTask : Task → List Thing
  | .observer o => [observer o]
  | .behavior b => [behavior b]
  | .splices a => [array a]
  | .scripted _ => []

/-- What a handle keeps. -/
def ofHandle : Handle → List Thing
  | .object o => [object o]
  | .array a => [array a]
  | .template t => [template t]
  | .subscriber s => [subscriber s]
  | .observer o => [observer o]
  | .context c => [context c]
  | .node n => [node n]
  | .event e => [event e]
  | .view v => [view v]
  | .notifier _ | .task _ | .listener _ | .ticket _ => []

/-- What is held on to. -/
def ofHeld : Held → List Thing
  | .subscriber s => [ofSubscriber s]
  | .task t => ofTask t
  | .running t => ofTask t
  | .changing _ _ => []
  | .view v => [view v]
  | .binding v => [view v]
  | .event e => [event e]
  | .node n => [node n]

/-- What a behavior keeps. -/
def ofBehavior : Behavior → List Thing
  | .binding s =>
    node s.target :: ((s.observer.map observer).toList ++ (s.bound.map ofBound).getD [] ++
      (s.composed.map fun c => [view c.view, template c.template]).getD [])
  | .handler s => node s.target :: (s.bound.map ofBound).getD []
  | .repeated s =>
    node s.location :: observer s.itemsObserver :: observer s.templateObserver ::
      ((s.bound.map fun b => context b.context :: context b.childContext ::
          ofValue b.source).getD [] ++
        (s.items.map array).toList ++ (s.template.map template).toList ++ s.views.map view)
  | .probe _ => []

/-- **Keeping.** What a thing keeps. -/
def kept (w : World) : Thing → List Thing
  | object o => (w.objects.get o).fields.flatMap fun entry => ofValue entry.2
  | array a => (w.itemsOf a).flatMap ofValue
  | template t =>
    let s := w.templates.get t
    node s.fragment :: s.directives.flatMap fun entry => ofDirective entry.2
  | observer o =>
    let s := w.observers.get o
    ofExpr s.evaluator ++ s.records.map fun r => ofObservable r.source
  | context c =>
    let s := w.contexts.get c
    (s.parentContext.map context).toList ++ ofValue s.parent
  | node n =>
    let s := w.document.get n
    s.children.map node ++ s.content.properties.flatMap fun entry => ofValue entry.2
  | event e =>
    let s := w.events.get e
    (s.target.map node).toList ++ ofValue s.detail
  | behavior b => ofBehavior (w.behavior b)
  | view v =>
    let s := w.views.get v
    node s.fragment :: node s.first :: node s.last :: template s.template ::
      (s.behaviors.map behavior ++ (s.source.map ofValue).getD [] ++
        (s.context.map context).toList)
  | subscriber _ => []

end Thing

/-- **Set of things.** The set has a thing if the bit at the thing's number is on. -/
structure ThingSet where
  bits : Nat

namespace ThingSet

/-- No things. -/
def empty : ThingSet := ⟨0⟩

/-- Whether the set has a thing. -/
def contains (s : ThingSet) (t : Thing) : Bool := s.bits.testBit t.number

/-- Adds a thing. -/
def insert (s : ThingSet) (t : Thing) : ThingSet := ⟨s.bits ||| 1 <<< t.number⟩

theorem contains_empty (t : Thing) : empty.contains t = false := by
  simp [empty, contains]

/-- The thing just added is there, and every other thing is there if it was. -/
theorem contains_insert (s : ThingSet) (t u : Thing) :
    (s.insert t).contains u = (s.contains u || decide (t = u)) := by
  have hd : decide (t = u) = decide (t.number = u.number) := by simp [Thing.number_inj]
  rw [hd, contains, insert, Nat.testBit_or, Nat.testBit_shiftLeft]
  by_cases h : t.number = u.number
  · simp [h]
  · by_cases hle : t.number ≤ u.number
    · have hz : u.number - t.number ≠ 0 := by omega
      simp [contains, h, Nat.testBit_one_eq_true_iff_self_eq_zero, hz]
    · simp [contains, h, hle]

end ThingSet

namespace World

/-- What is kept from outside: by handles, the queue, and what is running. -/
def roots (w : World) : List Thing :=
  w.handles.flatMap (fun entry => Thing.ofHandle entry.2) ++
    w.queue.tasks.flatMap Thing.ofTask ++ w.held.flatMap Thing.ofHeld ++
    (w.watcher.map Thing.observer).toList ++ (w.currentEvent.map Thing.event).toList

/-- Adds things to those seen; gives those that had not been seen before. -/
def addUnseen (seen : ThingSet) (things : List Thing) : ThingSet × List Thing :=
  things.foldl (fun (seen, fresh) t =>
    if seen.contains t then (seen, fresh) else (seen.insert t, t :: fresh)) (seen, [])

/-- What is reachable from `frontier` in a number of rounds, besides what was seen. -/
def reach (w : World) : Nat → ThingSet → List Thing → ThingSet
  | 0, seen, _ => seen
  | _, seen, [] => seen
  | rounds + 1, seen, frontier =>
    let (seen, fresh) := addUnseen seen (frontier.flatMap (Thing.kept w))
    reach w rounds seen fresh

/-- How many things there are. -/
def thingCount (w : World) : Nat :=
  w.objects.size + w.arrays.size + w.templates.size + w.observers.size + w.contexts.size +
    w.document.size + w.events.size + w.behaviors.size + w.views.size + w.subscribers.size

/-- **Reachable.** Each round but the last reaches something new. -/
def reachable (w : World) : ThingSet :=
  let (seen, fresh) := addUnseen .empty w.roots
  w.reach w.thingCount seen fresh

/-- Lets go of the children of the nodes that are gone. -/
def orphan (d : Document) (live : ThingSet) : Document :=
  let gone := d.refs.filter fun n => !(d.children n).isEmpty && !live.contains (.node n)
  gone.foldl (fun d n => (d.setParents (d.children n) none).setChildren n []) d

/-- **Sweeping.** Lets go of what is not reachable. -/
def sweep (w : World) : World :=
  let live := w.reachable
  { w with
    notifiers := ⟨w.notifiers.cells.map fun n =>
      n.retain fun s => live.contains (Thing.ofSubscriber s)⟩
    observers := ⟨w.observers.cells.mapIdx fun i s =>
      if live.contains (.observer ⟨i⟩) then s else { s with records := [] }⟩
    behaviors := ⟨w.behaviors.cells.mapIdx fun i c =>
      { c with isOwned := c.isOwned && live.contains (.behavior ⟨i⟩) }⟩
    document := orphan w.document live }

/-- An observer after sweeping: it forgets its records unless it is reachable. -/
theorem observers_sweep (w : World) (o : ObserverId) :
    w.sweep.observers.get o =
      if w.reachable.contains (.observer o) then w.observers.get o
      else { w.observers.get o with records := [] } :=
  Store.get_mapIdx w.observers (fun i s =>
    if w.reachable.contains (.observer ⟨i⟩) then s else { s with records := [] })
    (fun i => by split <;> rfl) o

/-- A notifier after sweeping: the subscriptions of those that are reachable are left. -/
theorem notifiers_sweep (w : World) (n : NotifierId) :
    w.sweep.notifiers.get n =
      (w.notifiers.get n).retain fun s => w.reachable.contains (Thing.ofSubscriber s) :=
  Store.get_map w.notifiers _ rfl n

end World

namespace Machine

/-- Lets go of what is not reachable while something is running. -/
def letGo : Machine Unit := modify World.sweep

end Machine

end ReactiveViews
