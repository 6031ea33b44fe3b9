import ReactiveViews.Host
import ReactiveViews.Tracking
/-!
# Views and their nodes

A view owns the run of siblings from its first node to its last. It is *detached*
while they stand in its own fragment, and then moving it in is a single insertion
of the fragment; otherwise its nodes are moved one by one. What behaviors insert
stands between the first node and the last, so it moves along.

Creating a view copies the template's fragment, finds the nodes that the
directives apply to, and only then makes the behaviors.
-/

namespace ReactiveViews

namespace Document

/-- A node and the siblings after it, up to `last` or the end; at most `steps` of them. -/
def runTo (d : Document) (last : NodeId) : Nat → NodeId → List NodeId
  | 0, n => [n]
  | steps + 1, n =>
    if n = last then [n]
    else match d.nextSibling? n with
      | some next => n :: runTo d last steps next
      | none => [n]

/-- **Run.** The siblings from `first` to `last`; there are no more than the parent has. -/
def run (d : Document) (first last : NodeId) : List NodeId :=
  let siblings := match d.parent? first with
    | some p => (d.children p).length
    | none => 0
  d.runTo last siblings first

end Document

namespace World

/-- The nodes of a view in order. -/
def viewNodes (w : World) (v : ViewId) : List NodeId :=
  let s := w.views.get v
  w.document.run s.first s.last

/-- Whether a view's nodes stand in its own fragment. -/
def isDetached (w : World) (v : ViewId) : Bool :=
  let s := w.views.get v
  w.document.parent? s.first == some s.fragment

/-- The text of a view's nodes. -/
def viewText (w : World) (v : ViewId) : String :=
  String.join ((w.viewNodes v).map w.document.textContent)

/-- The template that a view was made from. -/
def templateOf (w : World) (v : ViewId) : TemplateId := (w.views.get v).template

end World

namespace Machine

/-- Changes the state of a view. -/
def modifyView (v : ViewId) (f : ViewState → ViewState) : Machine Unit :=
  modify fun w => { w with views := w.views.modify v f }

/-- Changes a behavior. -/
def modifyBehavior (b : BehaviorId) (f : Behavior → Behavior) : Machine Unit :=
  modify fun w =>
    { w with behaviors := w.behaviors.modify b fun c => { c with behavior := f c.behavior } }

/-! ## Moving views -/

/-- Puts a view's nodes into `parent` before `reference`. A view that is there already is left
alone. -/
def insertView (v : ViewId) (parent : NodeId) (reference : Option NodeId) : Machine Unit := do
  let w ← get
  let s := w.views.get v
  if w.isDetached v then mutate (.insert parent s.fragment reference)
  else
    let inPlace := match reference with
      | some r => w.document.previousSibling? r == some s.last
      | none => false
    if inPlace then return
    each (fun n => mutate (.insert parent n reference)) (w.viewNodes v)

/-- Puts a view at the end of a node. -/
def appendView (v : ViewId) (parent : NodeId) : Machine Unit :=
  insertView v parent none

/-- Puts a view before a node, which has to have a parent. -/
def insertViewBefore (v : ViewId) (reference : NodeId) : Machine Unit := do
  match (← get).document.parent? reference with
  | some parent => insertView v parent (some reference)
  | none => logEntry (.warning "cannot insert a view before a detached node")

/-- Takes a view's nodes out, back into its fragment. -/
def removeView (v : ViewId) : Machine Unit := do
  let w ← get
  if w.isDetached v then return
  each (fun n => mutate (.insert (w.views.get v).fragment n none)) (w.viewNodes v)

/-- Takes a view's nodes out for good and unbinds it. -/
def disposeView (v : ViewId) : Machine Unit := do
  each (fun n => mutate (.remove n)) (← read (·.viewNodes v))
  call (.unbindView v)

/-! ## Creating views -/

/-- A new behavior. -/
def newBehavior (behavior : Behavior) : Machine BehaviorId :=
  modifyGet fun w =>
    let (b, behaviors) := w.behaviors.add ⟨behavior, true⟩
    (b, { w with behaviors })

/-- The nodes that directives apply to in a copy of their fragment. -/
def resolveTargets (fragment : NodeId) :
    List (Path × Directive) → Machine (List (NodeId × Directive))
  | [] => return []
  | (path, d) :: rest => do
    match path.resolve (← get).document fragment with
    | some n => return (n, d) :: (← resolveTargets fragment rest)
    | none => throw (.unresolvedTarget path.display)

/-- A new repeat. Its two observers react by calling it back. -/
def newRepeat (location : NodeId) (items template : Binding) (options : RepeatOptions) :
    Machine BehaviorId := do
  let b : BehaviorId := ⟨← read (·.behaviors.size)⟩
  let itemsObserver ← newObserver items.evaluator items.isVolatile (.itemsChanged b)
  let templateObserver ← newObserver template.evaluator template.isVolatile (.templateChanged b)
  newBehavior <| .repeated
    { location, options, itemsObserver, templateObserver
      bound := none, items := none, itemsNotifier := none, template := none, views := [] }

/-- **Behaviors.** What a directive puts on a node of a view. -/
def createBehavior (target : NodeId) : Directive → Machine BehaviorId
  | .bind binding (.event type) =>
    newBehavior (.handler { target, type, binding, bound := none, listener := none })
  | .bind binding aspect =>
    newBehavior <| .binding
      { target, aspect, binding, observer := none, bound := none, composed := none
        listener := none, signal := none, signalNeedsQueue := true }
  | .repeated items template options => newRepeat target items template options
  | .probe name failCreate failBind => do
    logEntry (.probeCreated name ((← get).document.html target))
    match failCreate with
    | some reason => throw (.binding reason)
    | none => newBehavior (.probe ⟨name, failBind⟩)

/-- The first and last node of a new view. A view without nodes gets an empty text. -/
def viewEnds (fragment : NodeId) : Machine (NodeId × NodeId) := do
  let children ← read (·.document.children fragment)
  match children.head?, children.getLast? with
  | some first, some last => return (first, last)
  | _, _ =>
    let marker ← onDocument (·.create (.text ""))
    modifyDocument (·.append fragment marker)
    return (marker, marker)

/-- **Creating.** A new view of a template, not bound to anything. -/
def createView (t : TemplateId) : Machine ViewId := do
  let template ← read fun w => w.templates.get t
  let fragment ← cloneFragment template.fragment
  let targets ← resolveTargets fragment template.directives
  let behaviors ← collect (fun (target, d) => createBehavior target d) targets
  let (first, last) ← viewEnds fragment
  modifyGet fun w =>
    let (v, views) := w.views.add
      { fragment, first, last, behaviors, template := t, source := none, context := none }
    (v, { w with views })

/-! ## Templates -/

/-- A new template of a fragment and directives at paths in it.

If a directive applies to the fragment's first node and that is a text or a comment, what is
inserted before the node would stand outside the view; so an empty comment is put in front. -/
def assembleTemplate (fragment : NodeId) (directives : List (Path × Directive)) :
    Machine TemplateId := do
  let d := (← get).document
  let isPlaceholder := match d.child? fragment 0 with
    | some first => d.kind first = .text || d.kind first = .comment
    | none => false
  let directives ←
    if isPlaceholder && directives.any (·.1 == [0]) then do
      let anchor ← onDocument (·.create (.comment ""))
      modifyDocument (·.insertBefore fragment anchor (d.child? fragment 0))
      pure <| directives.map fun (path, directive) =>
        match path with
        | index :: rest => ((index + 1) :: rest, directive)
        | [] => ([], directive)
    else pure directives
  modifyGet fun w =>
    let (t, templates) := w.templates.add ⟨fragment, directives⟩
    (t, { w with templates })

/-- **Compiling.** A new template of markup around interpolations. -/
def compileTemplate (strings : List String) (insertions : List Markup.Insertion) :
    Machine TemplateId := do
  let compiled ← ofExcept (Markup.compile strings insertions)
  let fragment ← onDocument (·.plant (.node .fragment compiled.trees))
  assembleTemplate fragment compiled.targets

end Machine

end ReactiveViews
