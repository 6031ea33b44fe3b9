import ReactiveViews.Proofs.Dom.Edits
import ReactiveViews.Proofs.Dom.Listeners
import ReactiveViews.Run
/-!
# What creating a view adds

Creating a view copies a fragment, puts behaviors on the copied nodes and enters the
view, all without evaluating anything. So what it does can be said at once: stores
grow, what was there stays as it was, and what is new is bound to nothing and belongs
to nobody else (`World.Created`).
-/

namespace ReactiveViews

namespace Store

variable {kind : Kind} {α : Type} [Inhabited α]

/-- **Growth.** Things have been entered, and those there before are as they were. -/
structure Grown (s s' : Store kind α) : Prop where
  size : s.size ≤ s'.size
  get : ∀ r : Ref kind, r.index < s.size → s'.get r = s.get r

namespace Grown

theorem refl (s : Store kind α) : Grown s s := ⟨Nat.le_refl _, fun _ _ => rfl⟩

theorem trans {a b c : Store kind α} (h : Grown a b) (h' : Grown b c) : Grown a c :=
  ⟨Nat.le_trans h.size h'.size,
    fun r hr => (h'.get r (Nat.lt_of_lt_of_le hr h.size)).trans (h.get r hr)⟩

theorem add (s : Store kind α) (a : α) : Grown s (s.add a).2 where
  size := by
    show s.cells.size ≤ (s.cells.push a).size
    simp
  get r hr := get_add_of_ne s a r fun h => by
    rw [h] at hr
    exact absurd hr (Nat.lt_irrefl _)

end Grown

omit [Inhabited α] in
@[simp] theorem size_add (s : Store kind α) (a : α) : (s.add a).2.size = s.size + 1 := by
  simp [add, size]

omit [Inhabited α] in
@[simp] theorem index_add (s : Store kind α) (a : α) : (s.add a).1.index = s.size := rfl

theorem size_le_modify (s : Store kind α) (r : Ref kind) (f : α → α) :
    s.size ≤ (s.modify r f).size := by
  unfold modify set
  split
  · simp [size]
  · simp only [size, Array.size_push, Array.size_append]
    omega

/-- What has been changed has been entered. -/
theorem lt_size_modify (s : Store kind α) (r : Ref kind) (f : α → α) :
    r.index < (s.modify r f).size := by
  unfold modify set
  split
  · next h => simpa [size] using h
  · simp only [size, Array.size_push, Array.size_append, Array.size_replicate]
    omega

/-- A change that leaves a thing as it is leaves the store as it is. -/
theorem modify_eq_self {s : Store kind α} {r : Ref kind} {f : α → α} (hr : r.index < s.size)
    (hf : f (s.get r) = s.get r) : s.modify r f = s := by
  have hcell : r.index < s.cells.size := hr
  have hget : s.get r = s.cells[r.index] := by
    rw [get, Array.getD_eq_getD_getElem?, Array.getElem?_eq_getElem hcell, Option.getD_some]
  rw [modify, hf, set, dif_pos hcell, hget, Array.set_getElem_self]

omit [Inhabited α] in
theorem mem_refs {s : Store kind α} {r : Ref kind} : r ∈ s.refs ↔ r.index < s.size := by
  show r ∈ (List.range s.cells.size).map Ref.mk ↔ r.index < s.cells.size
  rw [List.mem_map]
  constructor
  · rintro ⟨i, hi, rfl⟩
    exact List.mem_range.mp hi
  · exact fun h => ⟨r.index, List.mem_range.mpr h, rfl⟩

/-- What has not been entered is the default. -/
theorem get_of_size_le (s : Store kind α) {r : Ref kind} (h : s.size ≤ r.index) :
    s.get r = default := by
  show s.cells.getD r.index default = default
  rw [Array.getD_eq_getD_getElem?, Array.getElem?_eq_none h]
  rfl

/-- Something that is not the default has been entered. -/
theorem index_lt_of_get_ne (s : Store kind α) {r : Ref kind} (h : s.get r ≠ default) :
    r.index < s.size :=
  Classical.byContradiction fun hr => h (s.get_of_size_le (Nat.not_lt.mp hr))

end Store

/-- The behavior that an observer with this reaction calls back. -/
def Reaction.behavior? : Reaction → Option BehaviorId
  | scripted _ _ => none
  | refresh b => some b
  | itemsChanged b => some b
  | templateChanged b => some b

namespace Behavior

/-- The observers that a behavior evaluates its bindings with. -/
def observers : Behavior → List ObserverId
  | binding s => s.observer.toList
  | repeated s => [s.itemsObserver, s.templateObserver]
  | handler _ => []
  | probe _ => []

/-- What stays of a behavior however it is bound. -/
def bare : Behavior → Behavior
  | binding s => .binding
    { s with bound := none, composed := none, listener := none, signal := none,
             signalNeedsQueue := true }
  | handler s => .handler { s with bound := none, listener := none }
  | repeated s => .repeated
    { s with bound := none, items := none, itemsNotifier := none, template := none, views := [] }
  | probe s => .probe s

end Behavior

/-- **Tether.** Whether a behavior is bound, and the views that it lists. -/
structure Tether where
  isBound : Bool
  composed : Option Composed
  views : List ViewId

/-- The views that a tether is of, whether it is bound or not. -/
def Tether.lists (t : Tether) : Option Composed × List ViewId := (t.composed, t.views)

/-- The tether of a behavior. -/
def Behavior.tether : Behavior → Tether
  | binding s => ⟨s.bound.isSome, s.composed, []⟩
  | handler s => ⟨s.bound.isSome, none, []⟩
  | repeated s => ⟨s.bound.isSome, none, s.views⟩
  | probe _ => ⟨false, none, []⟩

/-- An observer that has not observed anything. -/
def ObserverState.made (evaluator : Expr) (isVolatile : Bool) (reaction : Reaction) :
    ObserverState :=
  ⟨evaluator, isVolatile, reaction, [], true, true, true, none⟩

/-- Whether an entry tells that a scripted listener of a name was called. -/
def LogEntry.isCallOf (name : String) : LogEntry → Bool
  | .handled listener _ _ _ => listener == name
  | _ => false

/-- How often a log tells that a scripted listener of a name was called. -/
def callsOf (name : String) (log : List LogEntry) : Nat := log.countP (LogEntry.isCallOf name)

namespace World

/-- Who calls back a behavior has been made. -/
theorem lt_of_behavior? {w : World} {o : ObserverId} {b : BehaviorId}
    (h : (w.observers.get o).reaction.behavior? = some b) : o.index < w.observers.size := by
  refine w.observers.index_lt_of_get_ne fun hd => ?_
  rw [hd] at h
  exact absurd h nofun

/-- A behavior of any kind but a probe has been made. -/
theorem lt_of_binding {w : World} {b : BehaviorId} {s : BindingState}
    (h : w.behavior b = .binding s) : b.index < w.behaviors.size :=
  w.behaviors.index_lt_of_get_ne fun hd => by
    rw [behavior, hd] at h
    exact absurd h nofun

theorem lt_of_repeated {w : World} {b : BehaviorId} {s : RepeatState}
    (h : w.behavior b = .repeated s) : b.index < w.behaviors.size :=
  w.behaviors.index_lt_of_get_ne fun hd => by
    rw [behavior, hd] at h
    exact absurd h nofun

/-- The world with one more observer. -/
def withObserver (w : World) (s : ObserverState) : World :=
  { w with observers := (w.observers.add s).2 }

/-- The world with one more behavior. -/
def withBehavior (w : World) (b : Behavior) : World :=
  { w with behaviors := (w.behaviors.add ⟨b, true⟩).2 }

/-- The world with one more view. -/
def withView (w : World) (s : ViewState) : World :=
  { w with views := (w.views.add s).2 }

/-- A behavior has just been made: it is not bound, its observers are its own, and what it is
put on has been made with it. -/
structure NewBehavior (w w' : World) (b : BehaviorId) : Prop where
  bare : (w'.behavior b).bare = w'.behavior b
  observers : ∀ o ∈ (w'.behavior b).observers,
    w.observers.size ≤ o.index ∧ (w'.observers.get o).reaction.behavior? = some b
  binding : ∀ s, w'.behavior b = .binding s →
    s.observer = none ∧ w.document.size ≤ s.target.index ∧ s.target.index < w'.document.size
  repeated : ∀ s, w'.behavior b = .repeated s → w.document.size ≤ s.location.index

/-- An observer has just been made, and if it calls back a behavior, that is a new repeat. -/
structure NewObserver (w w' : World) (o : ObserverId) : Prop where
  records : (w'.observers.get o).records = []
  needsQueue : (w'.observers.get o).needsQueue = true
  behavior : ∀ b, (w'.observers.get o).reaction.behavior? = some b →
    w.behaviors.size ≤ b.index ∧ ∃ s, w'.behavior b = .repeated s

/-- A view has just been made: it is bound to nothing, and its behaviors are its own. -/
structure NewView (w w' : World) (v : ViewId) : Prop where
  source : (w'.views.get v).source = none
  context : (w'.views.get v).context = none
  nodup : (w'.views.get v).behaviors.Nodup
  behaviors : ∀ b ∈ (w'.views.get v).behaviors,
    w.behaviors.size ≤ b.index ∧ b.index < w'.behaviors.size

/-- **Unheard.** Nobody joins the scripted listeners of a name, no more calls of them are told of, and a handle by
the name stays if there is one. -/
structure Unheard (w : World) (name : String) (w' : World) : Prop where
  joined : w.document.NoneJoin name w'.document
  told : callsOf name w'.log ≤ callsOf name w.log
  named : w.handles.find? name ≠ none → w'.handles.find? name ≠ none

theorem Unheard.of_eq {w w' : World} {name : String} (hd : w'.document = w.document)
    (hl : w'.log = w.log) (hh : w'.handles = w.handles) : w.Unheard name w' :=
  ⟨hd ▸ Document.noneJoin_refl _, Nat.le_of_eq (by rw [hl]), hh ▸ id⟩

theorem Unheard.trans {w x w' : World} {name : String} (h : w.Unheard name x)
    (h' : x.Unheard name w') : w.Unheard name w' :=
  ⟨h.joined.trans h'.joined, Nat.le_trans h'.told h.told, h'.named ∘ h.named⟩

/-- Nobody joins when the document is changed. -/
theorem unheard_document {w : World} {name : String} {document : Document}
    (h : w.document.NoneJoin name document) : w.Unheard name { w with document } :=
  ⟨h, Nat.le_refl _, id⟩

/-- An entry that tells of something else. -/
theorem unheard_log {entry : LogEntry} {name : String} (h : entry.isCallOf name = false) (w : World) :
    w.Unheard name { w with log := entry :: w.log } :=
  ⟨Document.noneJoin_refl _, Nat.le_of_eq (List.countP_cons_of_neg (by simp [h])), id⟩

/-- **Created.** What was there before a view was created is as it was, and the rest is new. -/
structure Created (w w' : World) : Prop where
  rest : w' = { w with
    document := w'.document, observers := w'.observers, behaviors := w'.behaviors
    views := w'.views, log := w'.log }
  document : w.document.Grown w'.document
  edited : w.document.Edited w'.document
  observers : w.observers.Grown w'.observers
  behaviors : w.behaviors.Grown w'.behaviors
  views : w.views.Grown w'.views
  newObserver : ∀ o, w.observers.size ≤ o.index → NewObserver w w' o
  newBehavior : ∀ b, w.behaviors.size ≤ b.index → NewBehavior w w' b
  isOwned : ∀ b, w.behaviors.size ≤ b.index → b.index < w'.behaviors.size →
    (w'.behaviors.get b).isOwned = true
  newView : ∀ v, w.views.size ≤ v.index → NewView w w' v
  size_views : w'.views.size ≤ w.views.size + 1
  unheard : ∀ name, w.Unheard name w'

end World

end ReactiveViews
