import ReactiveViews.Proofs.Composing.Rebinding
import ReactiveViews.Proofs.Composing.Showing
/-!
# The content slot

A content binding is bound and unbound, and values are applied to it: when it is bound, and again
while it is. Its *exhibition* is what has been shown so far, the latest first, and what it is
bound to. In every exhibition whose calls heed the binding, it shows nothing but what has been
applied last (`content_shows_what_was_applied`): the nodes before the placeholder are those of one
view of the template, which is bound to what the binding is bound to, or there are none and the
text is that of the value. All other views are in their fragments and are not bound. A template
that is applied again before another one is has the view shown that it had before.
-/

namespace ReactiveViews

open Machine Exhibit World

/-- **Bound anew.** A binding is unbound, comes to a value in `w₂`, applies it, which ends in
`w₃`, and attends to what its mode asks for. -/
inductive BindsAnew (calls : Calls) (b : BehaviorId) (bound : Bound) (value : Value)
    (w w₂ w₃ w' : World) : Prop
  | intro {w₁ : World} {s : BindingState} (hu : unbindBinding b calls w = some (.ok (), w₁))
    (hs : (w₁.alter b (.onBinding fun s => { s with bound := some bound })).bindingState? b = some s)
    (hv : evaluation b s bound calls (w₁.alter b (.onBinding fun s => { s with bound := some bound })) =
      some (.ok value, w₂))
    (ha : applyBinding b value bound.source bound.context calls w₂ = some (.ok (), w₃))
    (ht : attend b s calls w₃ = some (.ok (), w')) : BindsAnew calls b bound value w w₂ w₃ w'

/-- **Exhibition.** What a content binding has shown by the time of a world, the latest first, and
what it is bound to. The calls that it makes heed it, and what happens meanwhile leaves it alone.
-/
inductive Exhibition (x : Site) : List Exhibit → Option Bound → World → Prop
  | made {w : World} {s : BindingState} (hd : w.document.Linked)
    (hs : w.bindingState? x.behavior = some s) (ht : s.target = x.node) (ha : s.aspect = .content)
    (hb : s.bound = none) (hc : s.composed = none) (hp : (w.document.parent? x.node).isSome) :
    Exhibition x [] none w
  | bind {past : List Exhibit} {before : Option Bound} {w w₂ w₃ w' : World} {calls : Calls}
    {bound : Bound} {value : Value} {entry : Exhibit} (h : Exhibition x past before w)
    (hc : Heeds x calls) (hb : BindsAnew calls x.behavior bound value w w₂ w₃ w')
    (ha : w₂.Applies calls x bound value entry w₃) : Exhibition x (entry :: past) (some bound) w'
  | unbind {past : List Exhibit} {before : Option Bound} {w w' : World} {calls : Calls}
    (h : Exhibition x past before w) (hc : Heeds x calls)
    (hu : unbindBinding x.behavior calls w = some (.ok (), w')) : Exhibition x past none w'
  | apply {past : List Exhibit} {w w' : World} {calls : Calls} {bound : Bound} {value : Value}
    {entry : Exhibit} (h : Exhibition x past (some bound) w) (hc : Heeds x calls)
    (ha : w.Applies calls x bound value entry w') : Exhibition x (entry :: past) (some bound) w'
  | meanwhile {past : List Exhibit} {before : Option Bound} {w w' : World}
    (h : Exhibition x past before w) (ha : w.Bypass x w') : Exhibition x past before w'

section Exhibition

variable {x : Site} {past : List Exhibit} {held : Option Bound} {w w' : World}

/-- **The situation is that after what has been shown**, all along. -/
theorem Exhibition.situated (h : Exhibition x past held w) :
    w.Situated x (.after past held held) ∧ Reused past := by
  induction h with
  | made hd hs ht ha hb hc hp =>
    refine ⟨⟨⟨_, hs, ht, ha, hb, hc⟩, ⟨hd, Option.isSome_iff_exists.mp hp, nofun, nofun, nofun, nofun,
      nofun⟩, nofun, nofun, nofun, nofun⟩, trivial⟩
  | @bind past before w w₂ w₃ w' calls bound value entry _ hc hb ha ih =>
    obtain ⟨hu, hs, hv, -, ht⟩ := hb
    rename_i w₁ s
    have h₁ : (w₁.alter x.behavior (.onBinding fun s => { s with bound := some bound })).Situated x
        (.after past (some bound) none) := ((ih.1.unbindBinding _ _ hu).2 rfl).rebind bound
    have hevaluation : Minds x calls (evaluation x.behavior s bound) := inferInstance
    have h₂ := h₁.bypass mem_of_busy? (hevaluation.bypass h₁.arranged.linked hv)
    obtain ⟨h₃, hreused⟩ := h₂.apply (.inl rfl) ih.2 ha
    have hattend : Minds x calls (attend x.behavior s) := inferInstance
    exact ⟨h₃.bypass mem_of_busy? (hattend.bypass h₃.arranged.linked ht), hreused⟩
  | unbind _ hc hu ih => exact ⟨(ih.1.unbindBinding _ _ hu).2 rfl, ih.2⟩
  | apply _ hc ha ih => exact ih.1.apply (.inr rfl) ih.2 ha
  | meanwhile _ ha ih => exact ⟨ih.1.bypass mem_of_busy? ha, ih.2⟩

/-- **Binding is being bound anew**, to a value or another. -/
theorem Exhibition.bindBinding_iff (h : Exhibition x past held w) {calls : Calls} [hc : Heeds x calls]
    {bound : Bound} :
    bindBinding x.behavior bound.source bound.context calls w = some (.ok (), w') ↔
      ∃ value w₂ w₃, BindsAnew calls x.behavior bound value w w₂ w₃ w' := by
  constructor
  · intro hr
    have hr' := hr
    unfold bindBinding at hr'
    obtain ⟨_, w₁, hu, -⟩ := bind_ok hr'
    obtain ⟨s, hs, -, -, hb, -⟩ :=
      (((h.situated.1.unbindBinding _ _ hu).2 rfl).rebind bound).slot
    rw [bindBinding_apply hu hs hb] at hr
    obtain ⟨value, w₂, hv, hr⟩ := bind_ok hr
    obtain ⟨_, w₃, ha, ht⟩ := bind_ok hr
    exact ⟨value, w₂, w₃, hu, hs, hv, ha, ht⟩
  · rintro ⟨value, w₂, w₃, hu, hs, hv, ha, ht⟩
    rename_i w₁ s
    have hb : s.bound = some bound := by
      rw [bindingState?_alter] at hs
      obtain ⟨s₁, -, rfl⟩ := Option.map_eq_some_iff.mp hs
      rfl
    rw [bindBinding_apply hu hs hb, bind_apply, hv]
    dsimp only
    rw [bind_apply, ha]
    exact ht

/-- **A change is acted on**: the binding comes to a value again, and applies it. -/
theorem Exhibition.reapply {calls : Calls} (hc : Heeds x calls) {bound : Bound}
    {evaluation : Machine Value} (hm : Minds x calls evaluation) {value : Value} {entry : Exhibit}
    {w₁ : World} (h : Exhibition x past (some bound) w)
    (hv : evaluation calls w = some (.ok value, w₁))
    (ha : w₁.Applies calls x bound value entry w') : Exhibition x (entry :: past) (some bound) w' :=
  (h.meanwhile (hm.bypass h.situated.1.arranged.linked hv)).apply hc ha

end Exhibition

/-- **Content shows what was applied last**, in every exhibition. If that is a template, the nodes
of one view of it stand right before the placeholder, which is empty; otherwise the placeholder
has the text. The view in front is bound to what the binding is bound to, if it is bound, and all
other views are in their fragments and are not bound. A template that was shown last of all
templates is shown as the same view again. -/
theorem content_shows_what_was_applied {x : Site} {past : List Exhibit} {bound : Option Bound}
    {w : World} (h : Exhibition x past bound w) :
    (∃ s, w.bindingState? x.behavior = some s ∧ s.bound = bound) ∧
      (∀ t v before, past = .view t v :: before →
        w.templateOf v = t ∧ (w.document.content x.node).data = "" ∧
          ∃ p front rest, w.document.parent? x.node = some p ∧
            w.document.children p = front ++ w.viewNodes v ++ x.node :: rest) ∧
      (∀ text before, past = .text text :: before → (w.document.content x.node).data = text) ∧
      (∀ t v, (t, v) ∈ viewings past → front? past = some v →
        (w.views.get v).source = bound.map Bound.source ∧
          ∀ b, bound = some b → (w.views.get v).context = some b.context) ∧
      (∀ t v, (t, v) ∈ viewings past → front? past ≠ some v →
        (w.views.get v).source = none ∧
          w.document.children (w.views.get v).fragment = w.viewNodes v) ∧
      Reused past := by
  obtain ⟨h, hreused⟩ := h.situated
  refine ⟨?_, ?_, ?_, ?_, ?_, hreused⟩
  · obtain ⟨s, hs, -, -, hb, -⟩ := h.slot
    exact ⟨s, hs, hb⟩
  · rintro t v before rfl
    exact ⟨(h.own (List.mem_cons_self ..)).2, h.text rfl, h.arranged.front_nodes⟩
  · rintro text before rfl
    exact h.text rfl
  · intro t v hv hf
    cases bound with
    | none => exact ⟨h.idle hv fun held hb => absurd (busy?_eq_some.mp hb).2 (by simp), nofun⟩
    | some b =>
      obtain ⟨hsource, hcontext⟩ := h.busy (busy?_eq_some.mpr ⟨hf, rfl⟩)
      refine ⟨hsource, ?_⟩
      rintro _ ⟨⟩
      exact hcontext
  · intro t v hv hf
    exact ⟨h.idle hv fun held hb => hf (busy?_eq_some.mp hb).1,
      h.arranged.aside_nodes (List.mem_map_of_mem hv) hf⟩

/-! ## Plain views

A view without behaviors has nothing in it that could come back to a binding, and neither has the
source. -/

/-- Whether a call is about no more than that. -/
def isPlain : Call → World → Bool
  | .eval .source _, _ => true
  | .bindView v _ _, w => (w.views.get v).behaviors.isEmpty
  | .unbindView v, w => (w.views.get v).behaviors.isEmpty
  | _, _ => false

/-- The calls of a run that are about no more than that. -/
def plainCalls (x : Site) (depth : Nat) : Calls := fun c w =>
  if isPlain c w then callsAround x.views depth c w else none

/-- Binding a plain view changes nothing but what it is bound to. -/
theorem bindView_plain {v : ViewId} {source : Value} {context : ContextId} {calls : Calls}
    [Firmly calls] {w w' : World} {r : Except Error Unit} (hv : (w.views.get v).behaviors = [])
    (h : bindView v source context calls w = some (r, w')) :
    w'.document = w.document ∧ w'.behaviors = w.behaviors ∧
      ∀ u, (w'.views.get u).lasting = (w.views.get u).lasting := by
  have hlasting : ∀ (x : World) u, ((x.withSource v source context).views.get u).lasting =
      (x.views.get u).lasting := by
    intro x u
    rw [withSource, Store.get_modify]
    split
    · next he => exact he ▸ rfl
    · rfl
  obtain ⟨steps, hb⟩ := bindView_iff.mp h
  cases hb with
  | same => exact ⟨rfl, rfl, fun _ => rfl⟩
  | fresh _ hbs =>
    rw [hv] at hbs
    cases hbs
    exact ⟨rfl, rfl, hlasting _⟩
  | anew _ _ hu hbs =>
    rw [hv] at hu hbs
    cases hbs
    obtain ⟨-, rfl⟩ := pure_ok hu
    exact ⟨rfl, rfl, hlasting _⟩

/-- So does unbinding it. -/
theorem unbindView_plain {v : ViewId} {calls : Calls} {w w' : World} {r : Except Error Unit}
    (hv : (w.views.get v).behaviors = []) (h : unbindView v calls w = some (r, w')) :
    w'.document = w.document ∧ w'.behaviors = w.behaviors ∧
      ∀ u, (w'.views.get u).lasting = (w.views.get u).lasting := by
  unfold unbindView at h
  rw [bind_apply, read_apply] at h
  dsimp only at h
  rw [hv] at h
  split at h
  · obtain ⟨-, rfl⟩ := Prod.mk.inj (Option.some.inj h)
    exact ⟨rfl, rfl, fun _ => rfl⟩
  · rw [bind_apply] at h
    obtain ⟨-, rfl⟩ := Prod.mk.inj (Option.some.inj h)
    refine ⟨rfl, rfl, fun u => ?_⟩
    dsimp only
    rw [Store.get_modify]
    split
    · next he => exact he ▸ rfl
    · rfl

/-- That leaves every binding alone. -/
theorem World.Unmoved.of_plain {w w' : World} {x : Site} (hd : w.document.Linked)
    (h : w'.document = w.document ∧ w'.behaviors = w.behaviors ∧
      ∀ u, (w'.views.get u).lasting = (w.views.get u).lasting) : w.Unmoved x w' := by
  obtain ⟨hdocument, hbehaviors, hviews⟩ := h
  exact .of_related hd (.of_eq hdocument) hviews
    (by rw [slot?, slot?, bindingState?, bindingState?, behavior, behavior, hbehaviors])
    (by rw [hdocument])

/-- **Plain calls heed a binding.** -/
instance (x : Site) (depth : Nat) : Heeds x (plainCalls x depth) where
  run := by
    refine ⟨depth, fun {c w r} h => ?_⟩
    unfold plainCalls at h
    split at h
    · exact h
    · exact absurd h (by simp)
  unmoved {c w w' r} hd h := by
    unfold plainCalls at h
    split at h
    · next hp =>
      refine .of_plain hd ?_
      unfold isPlain at hp
      split at hp
      · obtain ⟨-, rfl⟩ := Prod.mk.inj (Option.some.inj h)
        exact ⟨rfl, rfl, fun _ => rfl⟩
      · exact bindView_plain (List.isEmpty_iff.mp hp) h
      · exact unbindView_plain (List.isEmpty_iff.mp hp) h
      · exact absurd hp (by simp)
    · exact absurd h (by simp)

/-! ## A template that is shown again -/

/-- A binding of the source, evaluated once when it is bound. -/
def sourceOnce : Binding := ⟨.source, false, false, .oneTime⟩

/-- The content of a paragraph, which composes one view. -/
def paragraphContent : Site := ⟨⟨0⟩, ⟨7⟩, (· == ⟨1⟩)⟩

/-- Whether a binding evaluates the source once, and has just been made. -/
def isNew (x : Site) (s : BindingState) : Bool :=
  match s.binding.evaluator, s.binding.mode with
  | .source, .oneTime =>
    decide (s.target = x.node) && decide (s.aspect = .content) && s.bound.isNone && s.composed.isNone
  | _, _ => false

/-- Such a binding is given the source as it is. -/
theorem BindsAnew.of_new {x : Site} {depth : Nat} {b : BehaviorId} {s : BindingState} {bound : Bound}
    {w w' : World} (hs : w.bindingState? b = some s) (hloose : s.bound = none)
    (hsource : s.binding.evaluator = .source) (honce : s.binding.mode = .oneTime)
    (ha : applyBinding b bound.source bound.source bound.context (plainCalls x depth)
      (w.alter b (.onBinding fun s => { s with bound := some bound })) = some (.ok (), w')) :
    BindsAnew (plainCalls x depth) b bound bound.source w
      (w.alter b (.onBinding fun s => { s with bound := some bound })) w' w' := by
  have hunbind : unbindBinding b (plainCalls x depth) w = some (.ok (), w) := by
    unfold unbindBinding
    rw [bind_apply, get_apply]
    dsimp only
    rw [hs]
    dsimp only
    rw [hloose]
    rfl
  have hrebound := bindingState?_alter w b fun s => { s with bound := some bound }
  rw [hs, Option.map_some] at hrebound
  refine .intro hunbind hrebound ?_ ha ?_
  · unfold evaluation unobserved
    rw [honce, hsource]
    rfl
  · unfold attend
    rw [honce]
    rfl

instance (w : World) (t : TemplateId) : Decidable (w.IsTemplate t) :=
  decidable_of_iff (t.index < w.templates.size ∧
      w.document.kind (w.templates.get t).fragment = .fragment)
    ⟨fun h => ⟨h.1, h.2⟩, fun h => ⟨h.made, h.kind⟩⟩

/-- Whether a view is the one that a binding remembers, and one of those that it may compose. -/
def remembers (w : World) (x : Site) (v : ViewId) : Bool :=
  (w.bindingState? x.behavior).any fun s => s.composed.any fun c => c.view == v && x.views v

/-- That view is what is shown for a template. -/
theorem exhibits_of_remembers {w : World} {x : Site} {t : TemplateId} {v : ViewId}
    (h : remembers w x v = true) : w.Exhibits x (.template t) (.view t v) := by
  obtain ⟨s, hs, h⟩ := (Option.any_eq_true _ _).mp h
  obtain ⟨c, hc, h⟩ := (Option.any_eq_true _ _).mp h
  simp only [Bool.and_eq_true, beq_iff_eq] at h
  obtain ⟨rfl, hx⟩ := h
  exact .view hs hc hx

/-- A bold element, a text, and the same bold element again. -/
theorem template_is_shown_again : ∃ w, ∃ bound : Bound,
    Exhibition paragraphContent [.view ⟨0⟩ ⟨1⟩, .text "x", .view ⟨0⟩ ⟨1⟩] (some bound) w ∧
      (w.document.content ⟨7⟩).data = "" ∧
      (∃ p front rest, w.document.parent? ⟨7⟩ = some p ∧
        w.document.children p = front ++ w.viewNodes ⟨1⟩ ++ ⟨7⟩ :: rest) ∧
      (w.views.get ⟨1⟩).source = some bound.source := by
  let x := paragraphContent
  let calls := plainCalls x 2
  let bound : Bound := ⟨.template ⟨0⟩, ⟨0⟩⟩
  have hplay : comesTo (compileTemplate ["<b></b>"] [] calls World.empty) (fun _ w₁ =>
      comesTo (compileTemplate ["<p>", "</p>"] [.dynamic (.binding sourceOnce)] calls w₁) fun _ w₂ =>
        decide (w₂.IsTemplate ⟨1⟩) &&
      comesTo (createView ⟨1⟩ calls w₂) fun _ w₃ =>
        (w₃.bindingState? x.behavior).any (isNew x) && (w₃.document.parent? x.node).isSome &&
        decide (w₃.IsTemplate ⟨0⟩) &&
      comesTo (applyBinding x.behavior (.template ⟨0⟩) bound.source bound.context calls
        (w₃.alter x.behavior (.onBinding fun s => { s with bound := some bound }))) fun _ w₄ =>
        remembers w₄ x ⟨1⟩ &&
      comesTo (applyBinding x.behavior (.text "x") bound.source bound.context calls w₄) fun _ w₅ =>
        decide (w₅.IsTemplate ⟨0⟩) &&
      comesTo (applyBinding x.behavior (.template ⟨0⟩) bound.source bound.context calls w₅) fun _ w₆ =>
        remembers w₆ x ⟨1⟩) = true := by
    decide +kernel
  obtain ⟨_, w₁, hcompile, hplay⟩ := exists_of_comesTo hplay
  obtain ⟨_, w₂, hcompile', hplay⟩ := exists_of_comesTo hplay
  obtain ⟨htemplate, hplay⟩ := Bool.and_eq_true_iff.mp hplay
  obtain ⟨_, w₃, hcreate, hplay⟩ := exists_of_comesTo hplay
  obtain ⟨hplay, hrun⟩ := Bool.and_eq_true_iff.mp hplay
  obtain ⟨hplay, hinner⟩ := Bool.and_eq_true_iff.mp hplay
  obtain ⟨hnew, hparent⟩ := Bool.and_eq_true_iff.mp hplay
  obtain ⟨_, w₄, hfirst, hrun⟩ := exists_of_comesTo hrun
  obtain ⟨hremembers, hrun⟩ := Bool.and_eq_true_iff.mp hrun
  obtain ⟨_, w₅, htext, hrun⟩ := exists_of_comesTo hrun
  obtain ⟨hinner', hrun⟩ := Bool.and_eq_true_iff.mp hrun
  obtain ⟨_, w₆, hagain, hremembers'⟩ := exists_of_comesTo hrun
  have hstill := World.still_of_compile Document.forest_empty.toLinked hcompile
  have hstill' := World.still_of_compile hstill.document.linked hcompile'
  have harrived := (createView_arrives hstill'.document.linked
    (of_decide_eq_true htemplate : w₂.IsTemplate ⟨1⟩).kind hcreate).1
  obtain ⟨s, hs, hnew⟩ := (Option.any_eq_true _ _).mp hnew
  unfold isNew at hnew
  split at hnew
  case h_2 => exact absurd hnew (by simp)
  next hsource honce =>
  simp only [Bool.and_eq_true, decide_eq_true_eq, Option.isNone_iff_eq_none] at hnew
  obtain ⟨⟨⟨htarget, haspect⟩, hloose⟩, hnone⟩ := hnew
  have hmade : Exhibition x [] none w₃ :=
    .made harrived.document.linked hs htarget haspect hloose hnone hparent
  have hanew : BindsAnew calls x.behavior bound bound.source w₃ _ w₄ w₄ :=
    .of_new hs hloose hsource honce hfirst
  have hdisplay : w₅.display (.text "x") = "x" := by
    unfold World.display
    cases w₅.arrays.size <;> rfl
  have hshown : Exhibition x [.view ⟨0⟩ ⟨1⟩] (some bound) w₄ := by
    refine hmade.bind inferInstance hanew ⟨hfirst, ?_, exhibits_of_remembers hremembers⟩
    rintro _ ⟨⟩
    have hmade : w₃.IsTemplate ⟨0⟩ := of_decide_eq_true hinner
    exact ⟨hmade.made, hmade.kind⟩
  have hexhibits : w₅.Exhibits x (.text "x") (.text "x") := by
    have h : w₅.Exhibits x (.text "x") (.text (w₅.display (.text "x"))) := .text (by simp)
    rwa [hdisplay] at h
  have hnext := hshown.apply (inferInstanceAs (Heeds x calls)) ⟨htext, nofun, hexhibits⟩
  have hlast := hnext.apply (inferInstanceAs (Heeds x calls)) ⟨hagain, (by
    rintro _ ⟨⟩
    exact of_decide_eq_true hinner'), exhibits_of_remembers hremembers'⟩
  obtain ⟨-, hfront, -, hbound, -, -⟩ := content_shows_what_was_applied hlast
  obtain ⟨-, hdata, hnodes⟩ := hfront _ _ _ rfl
  exact ⟨w₆, bound, hlast, hdata, hnodes, (hbound ⟨0⟩ ⟨1⟩ (List.mem_cons_self ..) rfl).1⟩

end ReactiveViews
