import ReactiveViews.Liveness
import ReactiveViews.Updates
import ReactiveViews.View.Basic
/-!
# Repeats

A repeat keeps one view per item of an array in front of its node. It learns of
changes in two ways. When the array is spliced, the splices are carried out on
the list of views. When the binding of the items or of the template changes, all
views are refreshed.

A full refresh shows the array as it is now, so splices that were recorded before
it must not be carried out after it: they are published to everybody else first.

While views are worked on they are taken out of the behavior's state, so that
what happens on the way finds none.
-/

namespace ReactiveViews

namespace World

/-- The state of a repeat. -/
def repeatState? (w : World) (b : BehaviorId) : Option RepeatState :=
  match w.behavior b with
  | .repeated s => some s
  | _ => none

end World

/-- The array that the items of a repeat are in; null stands for none. -/
def Value.asItems : Value → Except Error (Option ArrayId)
  | .array a => .ok (some a)
  | .null => .ok none
  | other => .error (.typeMismatch "array" other.kindName)

/-- The template of a repeat; null stands for none. -/
def Value.asTemplate : Value → Except Error (Option TemplateId)
  | .template t => .ok (some t)
  | .null => .ok none
  | other => .error (.typeMismatch "template" other.kindName)

namespace Machine

/-- Changes the state of a repeat. -/
def modifyRepeat (b : BehaviorId) (f : RepeatState → RepeatState) : Machine Unit :=
  modifyBehavior b fun
    | .repeated s => .repeated (f s)
    | other => other

/-- Runs a computation with views held on to. -/
def holdingViews {α : Type} (views : List ViewId) (m : Machine α) : Machine α :=
  holding (views.map .view) m

/-- Evaluates the items of a repeat. -/
def observeItems (s : RepeatState) (source : Value) (context : ContextId) :
    Machine (Option ArrayId) := do
  ofExcept (← observe s.itemsObserver source context).asItems

/-- Evaluates the template of a repeat. -/
def observeTemplate (s : RepeatState) (source : Value) (context : ContextId) :
    Machine (Option TemplateId) := do
  ofExcept (← observe s.templateObserver source context).asTemplate

/-- **Following the array.** Moves the subscription for splices to the current items array; with
`force` it is made even if it is where it was. -/
def followItems (b : BehaviorId) (force : Bool) : Machine Unit := do
  match (← get).repeatState? b with
  | none => pure ()
  | some s =>
    let notifier ← match s.items with
      | some a => do pure (some (← arrayNotifier a))
      | none => pure none
    let isChanged := notifier ≠ s.itemsNotifier
    if isChanged then
      match s.itemsNotifier with
      | some old => unsubscribe old (.behavior b) none
      | none => pure ()
    if isChanged || force then
      match notifier with
      | some new => subscribe new (.behavior b) none
      | none => pure ()
    modifyRepeat b fun s => { s with itemsNotifier := notifier }

/-- **Skipping.** Publishes the pending splices of the items array to everybody but this
repeat. -/
def skipPending (b : BehaviorId) (s : RepeatState) : Machine Unit := do
  match s.items, s.itemsNotifier with
  | some a, some n =>
    unsubscribe n (.behavior b) none
    flushSplices a
    subscribe n (.behavior b) none
  | _, _ => pure ()

/-- Takes the views out of the state of a repeat. -/
def takeViews (b : BehaviorId) : Machine (List ViewId) := do
  let views ← read fun w => ((w.repeatState? b).map (·.views)).getD []
  modifyRepeat b fun s => { s with views := [] }
  return views

/-- Puts views back into the state of a repeat. -/
def putViews (b : BehaviorId) (views : List ViewId) : Machine Unit :=
  modifyRepeat b fun s => { s with views }

/-! ## Full refresh -/

/-- Disposes of the views that are not kept, and gives those that are. -/
def retainViews (keep : World → ViewId → Bool) : List ViewId → Machine (List ViewId)
  | [] => return []
  | v :: rest => do
    if keep (← get) v then return v :: (← retainViews keep rest)
    disposeView v
    retainViews keep rest

/-- Brings a view that is there to an item: if it shows the item already only its position is
updated, or else it is bound anew. -/
def refreshView (v : ViewId) (item : Value) (childContext : ContextId) (index length : Nat) :
    Machine Unit := do
  let s ← read fun w => w.views.get v
  let shows := match s.source with
    | some source => source.same item
    | none => false
  match s.context, shows with
  | some context, true => updatePosition context index length
  | _, _ =>
    let context ← itemContext childContext index length
    call (.unbindView v)
    call (.bindView v item context)

/-- **Matching views to items.** Goes through the items from `index` on with the views that are
left for them. `done` are the views before, latest first. Gives all views and how it ended; an
item that fails ends it, and a new view that it made fail is let go at once. -/
def matchViews (location : NodeId) (template : TemplateId) (childContext : ContextId)
    (length : Nat) : Nat → List ViewId → List Value → List ViewId →
    Machine (List ViewId × Except Error Unit)
  | _, done, [], views => do
    holdingViews done (each disposeView views)
    return (done.reverse, .ok ())
  | index, done, item :: items, v :: views => do
    match ← attempt (holdingViews (done ++ v :: views)
        (refreshView v item childContext index length)) with
    | .ok _ => matchViews location template childContext length (index + 1) (v :: done) items views
    | .error e => return (done.reverse ++ v :: views, .error e)
  | index, done, item :: items, [] => do
    match ← attempt (holdingViews done do
        let context ← itemContext childContext index length
        let v ← createView template
        call (.bindView v item context)
        insertViewBefore v location
        return v) with
    | .ok v => matchViews location template childContext length (index + 1) (v :: done) items []
    | .error e =>
      holdingViews done letGo
      return (done.reverse, .error e)

/-- **Rebuilding.** Without a template no view is left. Views of another template are disposed
of; without recycling, a change of the items disposes of all. -/
def rebuild (s : RepeatState) (childContext : ContextId) (templateChanged : Bool)
    (views : List ViewId) : Machine (List ViewId × Except Error Unit) := do
  match s.template with
  | none =>
    each disposeView views
    return ([], .ok ())
  | some template =>
    let items ← match s.items with
      | some a => read (·.itemsOf a)
      | none => pure []
    let recreateAll := !s.options.recycle && !templateChanged
    let views ← retainViews (fun w v => !recreateAll && w.templateOf v == template) views
    matchViews s.location template childContext items.length 0 [] items views

/-- **Full refresh.** -/
def refreshAllViews (b : BehaviorId) (templateChanged : Bool) : Machine Unit := do
  match (← get).repeatState? b with
  | none => pure ()
  | some s =>
    match s.bound with
    | none => pure ()
    | some bound =>
      skipPending b s
      let views ← takeViews b
      let (views, outcome) ← rebuild s bound.childContext templateChanged views
      putViews b views
      ofExcept outcome

/-! ## Splices -/

/-- Takes a view out: a recycling repeat keeps it for another item, any other disposes of it. -/
def withdrawView (recycle : Bool) (v : ViewId) : Machine Unit :=
  if recycle then removeView v else disposeView v

/-- **One item.** Puts a view for an item at position `at` of the views: the one withdrawn first
if there is one, or else a new one. Gives the views withdrawn and the views in place. A view
that cannot be bound stays in place; if none can be created nothing is put there. -/
def addView (location : NodeId) (template : TemplateId) (childContext : ContextId)
    (length position : Nat) (item : Value) (withdrawn views : List ViewId) :
    Machine ((List ViewId × List ViewId) × Except Error Unit) := do
  let reference ← match views[position]? with
    | some v => read fun w => (w.views.get v).first
    | none => pure location
  let (outcome, withdrawn) ← match withdrawn with
    | v :: rest => pure (.ok v, rest)
    | [] => do pure (← attempt (createView template), [])
  match outcome with
  | .error e => return ((withdrawn, views), .error e)
  | .ok v =>
    let context ← itemContext childContext position length
    let bound ← attempt <| holdingViews (withdrawn ++ views) do
      call (.unbindView v)
      call (.bindView v item context)
    insertViewBefore v reference
    return ((withdrawn, views.take position ++ v :: views.drop position), bound)

/-- Puts views for the items of a splice from a position on. -/
def addViews (location : NodeId) (template : TemplateId) (childContext : ContextId)
    (length : Nat) : Nat → List Value → List ViewId → List ViewId →
    Machine ((List ViewId × List ViewId) × Except Error Unit)
  | _, [], withdrawn, views => return ((withdrawn, views), .ok ())
  | position, item :: items, withdrawn, views => do
    let ((withdrawn, views), outcome) ←
      addView location template childContext length position item withdrawn views
    match outcome with
    | .ok _ => addViews location template childContext length (position + 1) items withdrawn views
    | .error e => return ((withdrawn, views), .error e)

/-- **Carrying out splices** on the views. An item that fails ends it. -/
def applySplices (s : RepeatState) (template : TemplateId) (childContext : ContextId)
    (length : Nat) : List Splice → List ViewId → List ViewId →
    Machine ((List ViewId × List ViewId) × Except Error Unit)
  | [], withdrawn, views => return ((withdrawn, views), .ok ())
  | splice :: splices, withdrawn, views => do
    let start := min splice.index views.length
    let taken := (views.drop start).take splice.removed.length
    let kept := views.take start ++ views.drop (start + splice.removed.length)
    holdingViews (withdrawn ++ views) (each (withdrawView s.options.recycle) taken)
    let withdrawn := if s.options.recycle then withdrawn ++ taken else withdrawn
    let ((withdrawn, views), outcome) ←
      addViews s.location template childContext length start splice.added withdrawn kept
    match outcome with
    | .ok _ => applySplices s template childContext length splices withdrawn views
    | .error e => return ((withdrawn, views), .error e)

/-- Updates the positions of views, the first at `index` of `length`. -/
def positionViews (length : Nat) : Nat → List ViewId → Machine Unit
  | _, [] => pure ()
  | index, v :: views => do
    match ← read fun w => (w.views.get v).context with
    | some context => updatePosition context index length
    | none => pure ()
    positionViews length (index + 1) views

/-- **Splices arrived.** They are carried out on the views; what is withdrawn and not used again
is disposed of; and with positioning every context learns its new position. -/
def updateViews (b : BehaviorId) (splices : List Splice) : Machine Unit := do
  let w ← get
  match w.repeatState? b with
  | none => pure ()
  | some s =>
    match s.template, s.bound with
    | some template, some bound =>
      let length := match s.items with
        | some a => (w.itemsOf a).length
        | none => 0
      let views ← takeViews b
      let ((withdrawn, views), outcome) ←
        applySplices s template bound.childContext length splices [] views
      holdingViews (withdrawn ++ views) (each disposeView withdrawn)
      if s.options.positioning then
        holdingViews views (positionViews views.length 0 views)
      putViews b views
      ofExcept outcome
    | _, _ => pure ()

/-! ## Changes of the bindings -/

/-- The binding of the items changed. -/
def itemsChanged (b : BehaviorId) : Machine Unit := do
  match (← get).repeatState? b with
  | none => pure ()
  | some s =>
    match s.bound with
    | none => pure ()
    | some bound =>
      let items ← observeItems s bound.source bound.context
      modifyRepeat b fun s => { s with items }
      followItems b false
      refreshAllViews b false

/-- The binding of the template changed. -/
def templateChanged (b : BehaviorId) : Machine Unit := do
  match (← get).repeatState? b with
  | none => pure ()
  | some s =>
    match s.bound with
    | none => pure ()
    | some bound =>
      let template ← observeTemplate s bound.source bound.context
      modifyRepeat b fun s => { s with template }
      refreshAllViews b true

/-! ## Binding and unbinding -/

/-- Disconnects a repeat. Its views stay in place, unbound. -/
def unbindRepeat (b : BehaviorId) : Machine Unit := do
  match (← get).repeatState? b with
  | none => pure ()
  | some s =>
    if s.bound.isNone then return
    modifyRepeat b fun s => { s with bound := none, items := none, itemsNotifier := none }
    match s.itemsNotifier with
    | some n => unsubscribe n (.behavior b) none
    | none => pure ()
    each (fun v => call (.unbindView v)) s.views
    disposeObserver s.itemsObserver
    disposeObserver s.templateObserver

/-- Connects a repeat to a source. -/
def bindRepeat (b : BehaviorId) (source : Value) (context : ContextId) : Machine Unit := do
  unbindRepeat b
  let childContext ← childContext context source
  modifyRepeat b fun s => { s with bound := some ⟨source, context, childContext⟩ }
  match (← get).repeatState? b with
  | none => pure ()
  | some s =>
    let items ← observeItems s source context
    let template ← observeTemplate s source context
    modifyRepeat b fun s => { s with items, template }
    followItems b true
    refreshAllViews b false

end Machine

end ReactiveViews
