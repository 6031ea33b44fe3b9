import ReactiveViews.Proofs.Currency.Formulas
import ReactiveViews.Proofs.Dom.Listeners
import ReactiveViews.Proofs.Ranges.Moves
/-!
# What a node shows

A binding writes to one slot of its node: the text, one attribute or one property. A text attribute and
a boolean attribute of the same name are the same slot, and so are two directives on one placeholder.
Bindings with different slots do not get in each other's way (`Mutation.Shows.sameIn`), and that is
all that can be said: of two bindings with one slot the later one shows.
-/

namespace ReactiveViews

/-- **Slot.** A part of a node that is written as a whole. -/
inductive Slot
  | data
  | attribute (name : String)
  | property (name : String)
deriving DecidableEq, Repr

/-- Where an aspect of a node is kept. Nothing is written to an event. -/
def Aspect.slot? : Aspect → Option Slot
  | .content => some .data
  | .attr name => some (.attribute name)
  | .flag name => some (.attribute name)
  | .prop name => some (.property name)
  | .event _ => none

/-- **Apart.** Two aspects of nodes are kept in different slots. -/
def Aspect.Apart (n : NodeId) (a : Aspect) (n' : NodeId) (a' : Aspect) : Prop :=
  n = n' → a.slot? = a'.slot? → a.slot? = none

instance (n : NodeId) (a : Aspect) (n' : NodeId) (a' : Aspect) : Decidable (a.Apart n n' a') := by
  unfold Aspect.Apart
  infer_instance

/-- Two nodes have the same in a slot. -/
def Content.SameIn (c c' : Content) : Slot → Prop
  | .data => c'.data = c.data
  | .attribute name => c'.attributes.find? name = c.attributes.find? name
  | .property name => c'.properties.find? name = c.properties.find? name

/-- What is the same is so in every slot. -/
theorem Content.SameIn.of_eq {c c' : Content} (h : c' = c) (slot : Slot) : c.SameIn c' slot := by
  subst h
  cases slot <;> rfl

namespace Document

theorem content_modifyContent (d : Document) (n n' : NodeId) (f : Content → Content) :
    (d.modifyContent n f).content n' = if n = n' then f (d.content n) else d.content n' := by
  rw [content, modifyContent, Store.get_modify]
  split <;> rfl

end Document

/-- **A mutation of one aspect** leaves every other slot as it is. -/
theorem Mutation.Shows.sameIn {m : Mutation} {n n' : NodeId} {a : Aspect} {slot : Slot}
    (h : m.Shows n a) (hs : n = n' → a.slot? ≠ some slot) (d : Document) :
    (d.content n').SameIn ((d.mutate m).content n') slot := by
  have hfar : ∀ f : Content → Content, n ≠ n' →
      (d.content n').SameIn ((d.modifyContent n f).content n') slot := by
    intro f hn
    rw [Document.content_modifyContent, if_neg hn]
    cases slot <;> rfl
  by_cases hn : n = n'
  · subst hn
    have hs := hs rfl
    cases h <;> cases slot <;>
      simp_all [Aspect.slot?, Document.mutate, Document.setData, Document.setAttribute,
        Document.setProperty, Document.content_modifyContent, Content.SameIn, Keyed.find?_put] <;>
      split <;> simp_all [Keyed.find?_put, Keyed.find?_erase]
  · cases h <;> exact hfar _ hn

namespace World

/-- **Displaying.** An aspect of a node is what a value makes of it. -/
def Displays (w : World) (n : NodeId) (a : Aspect) (v : Value) : Prop :=
  match a with
  | .content => (w.document.content n).data = w.display v
  | .attr name =>
    w.document.attribute? n name = if v.isNull then none else some (w.display v)
  | .flag name => w.document.attribute? n name = if v.truthy then some "" else none
  | .prop name => w.document.property n name = v
  | .event _ => True

variable {w w' : World} {n n' : NodeId} {a a' : Aspect} {v : Value}

/-- What is displayed depends on the slot only. -/
theorem Displays.of_sameIn (h : w.Displays n a v)
    (hs : ∀ slot, a.slot? = some slot → (w.document.content n).SameIn (w'.document.content n) slot)
    (hd : ∀ v, w'.display v = w.display v) : w'.Displays n a v := by
  cases a with
  | content => exact (hs _ rfl).trans (h.trans (hd v).symm)
  | attr name =>
    show (w'.document.content n).attributes.find? name = _
    rw [hs _ rfl, hd]
    exact h
  | flag name => exact (hs _ rfl).trans h
  | prop name =>
    show ((w'.document.content n).properties.find? name).getD .null = v
    rw [hs _ rfl]
    exact h
  | event => trivial

theorem Displays.of_document (h : w.Displays n a v) (hs : w'.document = w.document)
    (hd : ∀ v, w'.display v = w.display v) : w'.Displays n a v := by
  exact h.of_sameIn (fun slot _ => .of_eq (by rw [hs]) slot) hd

theorem Redrawn.sameValues (h : w.Redrawn w') : w.SameValues w' := by
  rw [h]
  exact .of_eq rfl rfl rfl rfl

/-- The world has been redrawn such that an aspect of a node shows a value, and whatever is kept in
another slot is still shown. -/
structure Drawn (w : World) (n : NodeId) (a : Aspect) (v : Value) (w' : World) : Prop where
  redrawn : w.Redrawn w'
  listeners : ∀ n', (w'.document.get n').listeners = (w.document.get n').listeners
  displays : w'.Displays n a v
  others : ∀ {n' a' u}, a.Apart n n' a' → w.Displays n' a' u → w'.Displays n' a' u

/-- A mutation of an aspect draws it. -/
theorem Drawn.of_mutation {m : Mutation} (hm : m.Shows n a) (h : w.Redrawn w')
    (hw : w'.document = w.document.mutate m)
    (hv : w'.Displays n a v) : w.Drawn n a v w' where
  redrawn := h
  listeners n' := by
    rw [hw]
    cases hm <;> exact Document.listeners_modifyContent _ _ _ _
  displays := hv
  others {n' a' u} hap hu := by
    refine hu.of_sameIn (fun slot hs => ?_) h.sameValues.display
    rw [hw]
    refine hm.sameIn (fun hn he => ?_) w.document
    exact absurd ((hap hn (he.trans hs.symm)).symm.trans he) (by simp)

end World

/-- Whether a value is a template, of which content composes a view. -/
def Value.isTemplate : Value → Bool
  | .template _ => true
  | _ => false

/-- A value that is shown by itself: no template, and no view stands in its place. -/
def BindingState.ShowsPlainly (s : BindingState) (v : Value) : Prop :=
  s.aspect = .content → v.isTemplate = false ∧ s.composed.all (fun c => !c.isComposed) = true

instance (s : BindingState) (v : Value) : Decidable (s.ShowsPlainly v) := by
  unfold BindingState.ShowsPlainly
  infer_instance

namespace Machine

variable {w : World} {s : BindingState} {b : BehaviorId} {v : Value}

/-- A mutation of one aspect of a node is made. -/
theorem mutate_draws {m : Mutation} {n : NodeId} {a : Aspect} (hm : m.Shows n a)
    (hv : ∀ w', w.Redrawn w' → w'.document = w.document.mutate m → w'.Displays n a v) (calls : Calls) :
    ∃ w', mutate m calls w = some (.ok (), w') ∧ w.Drawn n a v w' := by
  obtain ⟨w', he, hr, hd⟩ := mutate_apply m calls w
  exact ⟨w', he, .of_mutation hm hr hd (hv w' hr hd)⟩

/-- A view that is not in its place is not taken out. -/
theorem withdrawComposed_idle {composed : Option Composed}
    (h : composed.all (fun c => !c.isComposed) = true) (b : BehaviorId) :
    withdrawComposed b composed = pure () := by
  cases composed with
  | none => rfl
  | some c =>
    have hc : c.isComposed = false := by simpa using h
    unfold withdrawComposed
    dsimp only
    rw [hc]
    rfl

/-- A value that is no template is shown as text. -/
theorem updateContent_draws (hv : v.isTemplate = false)
    (hc : s.composed.all (fun c => !c.isComposed) = true) (b : BehaviorId) (source : Value)
    (context : ContextId) (calls : Calls) :
    ∃ w', updateContent b s v source context calls w = some (.ok (), w') ∧
      w.Drawn s.target .content v w' := by
  have hshow : updateContent b s v source context calls w =
      mutate (.text s.target (w.display v)) calls w := by
    unfold updateContent
    cases v with
    | template t => exact absurd hv (by simp [Value.isTemplate])
    | null | bool | number | text | object | array =>
      dsimp only
      rw [withdrawComposed_idle hc, bind_apply, pure_apply]
      dsimp only
      rw [bind_apply, read_apply]
  rw [hshow]
  refine mutate_draws (.text _ _) (fun w' hr hd => ?_) calls
  show (w'.document.content s.target).data = w'.display v
  rw [hd, hr.sameValues.display, Document.mutate, Document.setData, Document.content_modifyContent,
    if_pos rfl]

/-- **Applying a value** makes the aspect show it. -/
theorem applyBinding_draws (hs : w.bindingState? b = some s) (hv : s.ShowsPlainly v) (source : Value)
    (context : ContextId) (calls : Calls) :
    ∃ w', applyBinding b v source context calls w = some (.ok (), w') ∧
      w.Drawn s.target s.aspect v w' := by
  unfold applyBinding
  rw [bind_apply, get_apply]
  dsimp only
  rw [hs]
  dsimp only
  cases ha : s.aspect with
  | content =>
    obtain ⟨hv, hc⟩ := hv ha
    exact updateContent_draws hv hc b source context calls
  | attr name =>
    refine mutate_draws (.attr _ _ _) (fun w' hr hd => ?_) calls
    show (w'.document.content s.target).attributes.find? name = _
    rw [hd, hr.sameValues.display, Document.mutate, Document.setAttribute, Document.content_modifyContent,
      if_pos rfl]
    cases v.isNull <;> simp [Keyed.find?_put, Keyed.find?_erase]
  | flag name =>
    refine mutate_draws (.flag _ _ _) (fun w' hr hd => ?_) calls
    show (w'.document.content s.target).attributes.find? name = _
    rw [hd, Document.mutate, Document.setAttribute, Document.content_modifyContent, if_pos rfl]
    cases v.truthy <;> simp [Keyed.find?_put, Keyed.find?_erase]
  | prop name =>
    refine mutate_draws (.prop _ _ _) (fun w' hr hd => ?_) calls
    show ((w'.document.content s.target).properties.find? name).getD .null = v
    rw [hd, Document.mutate, Document.setProperty, Document.content_modifyContent, if_pos rfl,
      Keyed.find?_put, if_pos rfl]
    rfl
  | event => exact ⟨w, rfl, .refl w, fun _ => rfl, trivial, fun _ hu => hu⟩

end Machine

end ReactiveViews
