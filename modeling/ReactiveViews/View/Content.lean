import ReactiveViews.Updates
import ReactiveViews.View.Basic
/-!
# Binding behaviors

A binding behavior brings one aspect of its node to the value of its binding: at
once when it is bound, and again on every change, signal or event that its mode
asks for.

Content is the aspect with a memory. While the value is a template, a view of it
is *composed* in front of the placeholder. The view is kept when something else
takes its place, and reused if the same template comes back.
-/

namespace ReactiveViews

namespace World

/-- The state of a binding behavior. -/
def bindingState? (w : World) (b : BehaviorId) : Option BindingState :=
  match w.behavior b with
  | .binding s => some s
  | _ => none

/-- What a node shows of an aspect, for assigning it back. -/
def readAspect (w : World) (n : NodeId) : Aspect → Value
  | .prop name => w.document.property n name
  | .attr name => match w.document.attribute? n name with
    | some v => .text v
    | none => .null
  | .flag name => .bool (w.document.attribute? n name).isSome
  | .content => .text (w.document.textContent n)
  | .event _ => .text (w.document.textContent n)

end World

namespace Machine

/-- Changes the state of a binding behavior. -/
def modifyBinding (b : BehaviorId) (f : BindingState → BindingState) : Machine Unit :=
  modifyBehavior b fun
    | .binding s => .binding (f s)
    | other => other

/-- The observer of a binding behavior, made on first use. -/
def bindingObserver (b : BehaviorId) (s : BindingState) : Machine ObserverId := do
  match s.observer with
  | some o => return o
  | none =>
    let o ← newObserver s.binding.evaluator s.binding.isVolatile (.refresh b)
    if s.binding.isSynchronous then setObserverMode o false
    modifyBinding b fun s => { s with observer := some o }
    return o

/-! ## Content -/

/-- Replaces what is remembered of the composed view. -/
def setComposed (b : BehaviorId) (composed : Option Composed) : Machine Unit :=
  modifyBinding b fun s => { s with composed }

/-- Takes the composed view out of its place, if it is there, and unbinds it. -/
def withdrawComposed (b : BehaviorId) (composed : Option Composed) : Machine Unit := do
  match composed with
  | some c =>
    if c.isComposed then
      setComposed b (some { c with isComposed := false })
      removeView c.view
      if c.needsBindOnly then
        setComposed b (some { c with isComposed := false, needsBindOnly := false })
      else call (.unbindView c.view)
  | none => pure ()

/-- The view to compose for a template: the one remembered, if it is a view of that template,
or else a new one, after the one remembered has been taken out. -/
def composedFor (t : TemplateId) (composed : Option Composed) : Machine Composed := do
  match composed with
  | some c =>
    if c.template = t then return c
    if c.isComposed then
      removeView c.view
      call (.unbindView c.view)
    return ⟨← createView t, t, false, false⟩
  | none => return ⟨← createView t, t, false, false⟩

/-- **Composing.** Puts a composed view in place and binds it, as far as either is still to be
done. -/
def compose (c : Composed) (target : NodeId) (source : Value) (context : ContextId) :
    Machine (Composed × Except Error Unit) := do
  if !c.isComposed then
    insertViewBefore c.view target
    let outcome ← attempt (call (.bindView c.view source context))
    return ({ c with isComposed := true, needsBindOnly := false }, outcome)
  else if c.needsBindOnly then
    let outcome ← attempt (call (.bindView c.view source context))
    return ({ c with needsBindOnly := false }, outcome)
  else return (c, .ok ())

/-- **Content.** A template is shown as a composed view and leaves the placeholder empty. Any
other value is shown as text in the placeholder. -/
def updateContent (b : BehaviorId) (s : BindingState) (value : Value) (source : Value)
    (context : ContextId) : Machine Unit := do
  match value with
  | .template t =>
    mutate (.text s.target "")
    setComposed b none
    let c ← composedFor t s.composed
    let (c, outcome) ← compose c s.target source context
    setComposed b (some c)
    ofExcept outcome
  | other =>
    withdrawComposed b s.composed
    mutate (.text s.target (← read (·.display other)))

/-- **Applying.** Brings the aspect of the node to a value. -/
def applyBinding (b : BehaviorId) (value : Value) (source : Value) (context : ContextId) :
    Machine Unit := do
  let w ← get
  match w.bindingState? b with
  | none => pure ()
  | some s =>
    match s.aspect with
    | .content => updateContent b s value source context
    | .attr name =>
      mutate (.attr s.target name (if value.isNull then none else some (w.display value)))
    | .flag name => mutate (.flag s.target name value.truthy)
    | .prop name => mutate (.prop s.target name value)
    | .event _ => pure ()

/-! ## Changes -/

/-- **Refreshing.** Evaluates the binding again, as what it is bound to asks for, and applies
the value. -/
def refreshBinding (b : BehaviorId) : Machine Unit := do
  match (← get).bindingState? b with
  | none => pure ()
  | some s =>
    match s.bound with
    | none => pure ()
    | some bound =>
      let o ← bindingObserver b s
      let value ← observe o bound.source bound.context
      applyBinding b value bound.source bound.context

/-- Evaluates the binding without recording anything and applies the value. -/
def evaluateUntracked (b : BehaviorId) (binding : Binding) (source : Value)
    (context : ContextId) : Machine Unit := do
  let value ← untracked (eval binding.evaluator ⟨source, context, .null⟩)
  applyBinding b value source context

/-- A signal arrived: the behavior is queued unless it is queued already. -/
def signalArrived (b : BehaviorId) (s : BindingState) : Machine Unit := do
  if s.signalNeedsQueue then
    modifyBinding b fun s => { s with signalNeedsQueue := false }
    enqueue (.behavior b)

/-- A queued signal is acted on. -/
def updateAfterSignal (b : BehaviorId) : Machine Unit := do
  match (← get).bindingState? b with
  | none => pure ()
  | some s =>
    modifyBinding b fun s => { s with signalNeedsQueue := true }
    match s.bound with
    | none => pure ()
    | some bound => evaluateUntracked b s.binding bound.source bound.context

/-- What a two-way binding makes of a value before assigning it. A failure makes it null. -/
def convertValue (convert : Option Expr) (value : Value) : Machine Value := do
  match convert with
  | none => return value
  | some e =>
    match ← attempt (evalAlone e .null value) with
    | .ok converted => return converted
    | .error _ => return .null

/-- Assigns a value that comes from a node. -/
def assign (how : Assign) (source value : Value) (context : ContextId) : Machine Unit := do
  match how with
  | .expr e =>
    let _ ← eval e ⟨source, context, value⟩
  | .property name =>
    match source with
    | .object o => setProperty o name value
    | other => throw (.typeMismatch "object" other.kindName)

/-- **Assigning back.** The change event of a two-way binding arrived at its node. -/
def assignBack (b : BehaviorId) : Machine Unit := do
  let w ← get
  match w.bindingState? b with
  | none => pure ()
  | some s =>
    match s.bound, s.binding.mode with
    | some bound, .twoWay how _ convert =>
      let value ← convertValue convert (w.readAspect s.target s.aspect)
      match ← attempt (assign how bound.source value bound.context) with
      | .ok _ => pure ()
      | .error e => logError "two-way assignment failed" e
    | _, _ => pure ()

/-! ## Binding and unbinding -/

/-- Disconnects a binding behavior. Its composed view stays in place and is unbound. -/
def unbindBinding (b : BehaviorId) : Machine Unit := do
  match (← get).bindingState? b with
  | none => pure ()
  | some s =>
    if s.bound.isNone then return
    modifyBinding b fun s => { s with bound := none, listener := none, signal := none }
    match s.observer with
    | some o => disposeObserver o
    | none => pure ()
    match s.listener with
    | some slot => mutate (.unlisten s.target slot)
    | none => pure ()
    match s.signal, s.binding.mode with
    | some n, .signal name => unsubscribe n (.behavior b) (some name)
    | _, _ => pure ()
    match s.composed with
    | some c =>
      if c.isComposed then
        call (.unbindView c.view)
        setComposed b (some { c with needsBindOnly := true })
    | none => pure ()

/-- Connects a binding behavior to a source. -/
def bindBinding (b : BehaviorId) (source : Value) (context : ContextId) : Machine Unit := do
  unbindBinding b
  modifyBinding b fun s => { s with bound := some ⟨source, context⟩ }
  match (← get).bindingState? b with
  | none => pure ()
  | some s =>
    match s.binding.mode with
    | .oneTime => evaluateUntracked b s.binding source context
    | .onChange => refreshBinding b
    | .twoWay _ type _ =>
      refreshBinding b
      let slot ← listen s.target ⟨type, .assign b, false⟩
      modifyBinding b fun s => { s with listener := some slot }
    | .signal name =>
      evaluateUntracked b s.binding source context
      let n ← signalNotifier name
      subscribe n (.behavior b) (some name)
      modifyBinding b fun s => { s with signal := some n }

end Machine

end ReactiveViews
