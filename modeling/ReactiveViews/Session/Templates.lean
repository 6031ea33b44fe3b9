import ReactiveViews.Session.Handles
import ReactiveViews.Session.Values
/-!
# Commands on templates and views
-/

namespace ReactiveViews

namespace World

/-- A template's markup and the paths of its directives. -/
def describeTemplate (w : World) (t : TemplateId) (rendered : Option String) : TemplateInfo :=
  let s := w.templates.get t
  ⟨w.document.html s.fragment, s.directives.map (·.1.display), rendered⟩

/-- A view and what it is bound to. -/
def describeView (w : World) (v : ViewId) : ViewInfo :=
  let s := w.views.get v
  { isBound := s.source.isSome
    source := s.source.map w.shown
    context := w.showContext s.context
    template := w.shown (.template s.template)
    text := w.viewText v
    nodes := (w.viewNodes v).map w.document.html
    first := w.showNode (some s.first)
    last := w.showNode (some s.last) }

end World

namespace Machine

/-- The directive of a repeat as a script writes it. -/
def repeatDirective (form : RepeatForm) : Machine Directive := do
  match form.template with
  | .handle name =>
    let t ← templateNamed name
    return .repeated form.items (.always (.template t)) form.options
  | .binding b => return .repeated form.items b form.options

/-- What an interpolation is to the compiler. -/
def insertionOf : Interpolation → Machine Markup.Insertion
  | .markup text => return .markup text
  | .binding b => return .dynamic (.binding b)
  | .repeated form => return .dynamic (.directive (← repeatDirective form))
  | .probe name failCreate failBind =>
    return .dynamic (.directive (.probe name failCreate failBind))

/-- The directive that an interpolation is at a path; a binding applies to content unless an
attribute name says otherwise. -/
def directiveOf (aspect : Option String) : Interpolation → Machine Directive
  | .binding b =>
    return .bind b (match aspect with
      | some name => Aspect.ofAttributeName name
      | none => .content)
  | .repeated form => repeatDirective form
  | .probe name failCreate failBind => return .probe name failCreate failBind
  | .markup text => return .bind (.always (.text text)) .content

/-- The parts of a template: all paths are read before any directive is made. -/
def templateParts (parts : List (String × Option String × Interpolation)) :
    Machine (List (Path × Directive)) := do
  let paths ← collect (fun p => ofExcept (Path.parse p.1)) parts
  let directives ← collect (fun p => directiveOf p.2.1 p.2.2) parts
  return paths.zip directives

/-- Renders a new template into a new element and names both; gives the element's markup. -/
def renderFresh (t : TemplateId) (source : Literal) : Machine String := do
  let source ← resolve source
  let host ← onDocument (·.create (.element "div"))
  let v ← render t source (← rootContext) host
  giveHandle "rendered" (.view v)
  giveHandle "host" (.node host)
  read (·.document.html host)

/-- Commands on templates. -/
def performTemplate : TemplateCommand → Machine Answer
  | .compile handle strings interpolations source => do
    let t ← compileTemplate strings (← collect insertionOf interpolations)
    let rendered ← match source with
      | some l => do pure (some (← renderFresh t l))
      | none => pure none
    giveHandle handle (.template t)
    return .template ((← get).describeTemplate t rendered)
  | .assemble handle fragment parts => do
    let n ← nodeNamed fragment
    let t ← assembleTemplate n (← templateParts parts)
    giveHandle handle (.template t)
    return .template ((← get).describeTemplate t none)
  | .evaluate b source context => do
    let source ← resolve source
    let context ← contextOrRoot context
    let v ← eval b.evaluator ⟨source, context, .null⟩
    return .binding ⟨b.isVolatile, b.isSynchronous, (← get).shown v⟩

/-- Commands on views. -/
def performView : ViewCommand → Machine Answer
  | .create handle template => do
    giveHandle handle (.view (← createView (← templateNamed template)))
    return .unit
  | .render handle template source host context => do
    let t ← templateNamed template
    let source ← resolve source
    let host ← nodeNamed host
    let v ← render t source (← contextOrRoot context) host
    giveHandle handle (.view v)
    return .text (← read (·.document.html host))
  | .bind handle source context => do
    let v ← viewNamed handle
    let source ← resolve source
    call (.bindView v source (← contextOrRoot context))
    return .unit
  | .unbind handle => do
    call (.unbindView (← viewNamed handle))
    return .unit
  | .append handle node => do
    let v ← viewNamed handle
    appendView v (← nodeNamed node)
    return .unit
  | .insertBefore handle node => do
    let v ← viewNamed handle
    insertViewBefore v (← nodeNamed node)
    return .unit
  | .remove handle => do
    removeView (← viewNamed handle)
    return .unit
  | .dispose handle => do
    disposeView (← viewNamed handle)
    return .unit
  | .info handle => do
    let v ← viewNamed handle
    return .viewInfo (← read (·.describeView v))

end Machine

end ReactiveViews
