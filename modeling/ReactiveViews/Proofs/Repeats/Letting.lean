import ReactiveViews.Proofs.Repeats.InStep
import ReactiveViews.Proofs.Composing.Situation
/-!
# Letting views

Which view is bound to which item leaves no trace in the world: once a view has been bound anew nothing
tells what it was bound to before. So what a computation binds is said by what it does not: it *lets* views
as a roll has them if it comes to the same where every other binding is given up (`Machine.Lets`).

A repeat that does not recycle carries out splices with new views only, whatever views it has (`updateViews_letting`).
When its items are refreshed it makes all views anew, and the same goes for views of another template
(`rebuild_anew`). Only a refresh of the template binds views again that are there; if they are for the
items that there are, in order, then to what they have been for (`rebuild_kept`).
-/

namespace ReactiveViews

open Machine

/-- What a call binds a view to. -/
def Call.letting? : Call → Option (Value × ViewId)
  | .bindView v item _ => some (item, v)
  | _ => none

/-- Calls that bind a view to an item only where that is allowed, and else give up. -/
def Calls.letting (calls : Calls) (allowed : Value × ViewId → Bool) : Calls := fun c w =>
  if c.letting?.all allowed then calls c w else none

namespace Machine

variable {α β : Type} {calls : Calls} {w w' : World}

/-- **Lets.** What a computation comes to at a world, where views are bound to what a roll has them for and
to nothing else: it comes to the same if any other binding is given up. -/
def Lets (calls : Calls) (m : Machine α) (w : World) (roll : Roll) (x : Except Error α × World) :
    Prop :=
  ∀ allowed : Value × ViewId → Bool, (∀ entry ∈ roll, allowed entry = true) →
    m (calls.letting allowed) w = some x

/-- What lets views only as a roll has it does so by every longer roll. -/
theorem Lets.mono {m : Machine α} {roll roll' : Roll} {x : Except Error α × World}
    (h : Lets calls m w roll x) (hs : ∀ entry ∈ roll, entry ∈ roll') : Lets calls m w roll' x :=
  fun allowed ha => h allowed fun entry he => ha entry (hs entry he)

/-- **Letting.** What a computation lets as it runs at a world, and what it comes to. -/
def Letting (calls : Calls) (m : Machine α) (w : World)
    (Q : Roll → Except Error α → World → Prop) : Prop :=
  ∀ r w', m calls w = some (r, w') → ∃ roll, Lets calls m w roll (r, w') ∧ Q roll r w'

/-- **Bindless.** A computation that binds no view itself. -/
class Bindless (m : Machine α) : Prop where
  eq (calls : Calls) (allowed : Value × ViewId → Bool) : m (calls.letting allowed) = m calls

namespace Letting

variable {m : Machine α} {f : α → Machine β} {Q Q' : Roll → Except Error α → World → Prop}
  {R : Roll → Except Error β → World → Prop}

theorem mono (h : Letting calls m w Q) (hq : ∀ roll r w', Q roll r w' → Q' roll r w') :
    Letting calls m w Q' := by
  intro r w' hr
  obtain ⟨roll, hl, hp⟩ := h r w' hr
  exact ⟨roll, hl, hq _ _ _ hp⟩

theorem bind (hm : Letting calls m w Q) (he : ∀ roll e w', Q roll (.error e) w' → R roll (.error e) w')
    (hf : ∀ roll a w₁, Q roll (.ok a) w₁ →
      Letting calls (f a) w₁ fun more r w' => R (roll ++ more) r w') :
    Letting calls (m >>= f) w R := by
  intro r w' h
  obtain ⟨e, h₁, rfl⟩ | ⟨a, w₁, h₁, h₂⟩ := bind_eq_some h
  · obtain ⟨roll, hl, hp⟩ := hm _ _ h₁
    exact ⟨roll, fun allowed ha => by rw [bind_apply, hl allowed ha], he _ _ _ hp⟩
  · obtain ⟨roll, hl, hp⟩ := hm _ _ h₁
    obtain ⟨more, hl', hp'⟩ := hf _ _ _ hp _ _ h₂
    refine ⟨roll ++ more, fun allowed ha => ?_, hp'⟩
    rw [bind_apply, hl allowed fun entry h => ha entry (List.mem_append_left _ h)]
    exact hl' allowed fun entry h => ha entry (List.mem_append_right _ h)

theorem of_eq {r : Except Error α} (h : ∀ calls, m calls w = some (r, w')) (hq : Q [] r w') :
    Letting calls m w Q := by
  intro r' w'' hr
  obtain ⟨rfl, rfl⟩ := Prod.mk.inj (Option.some.inj ((h calls).symm.trans hr))
  exact ⟨[], fun allowed _ => h _, hq⟩

theorem step {a : α} {w₁ : World} (h : ∀ calls, m calls w = some (.ok a, w₁))
    (hf : Letting calls (f a) w₁ R) : Letting calls (m >>= f) w R := by
  intro r w' hr
  rw [bind_apply, h] at hr
  obtain ⟨roll, hl, hq⟩ := hf _ _ hr
  exact ⟨roll, fun allowed ha => by rw [bind_apply, h]; exact hl allowed ha, hq⟩

/-- What binds no view lets none. -/
theorem still [hm : Bindless m] :
    Letting calls m w fun roll r w' => roll = [] ∧ m calls w = some (r, w') :=
  fun _ _ h => ⟨[], fun allowed _ => hm.eq calls allowed ▸ h, rfl, h⟩

/-- A computation that begins with one that binds no view. -/
theorem after [Bindless m] (he : ∀ e w', m calls w = some (.error e, w') → R [] (.error e) w')
    (hf : ∀ a w₁, m calls w = some (.ok a, w₁) → Letting calls (f a) w₁ R) :
    Letting calls (m >>= f) w R := by
  refine still.bind (fun roll e w' ⟨hr, h⟩ => hr ▸ he e w' h) ?_
  rintro _ a w₁ ⟨rfl, h⟩
  exact hf a w₁ h

/-- A computation that begins with one that binds no view and does not fail. -/
theorem first [Bindless m] [hm : Firm calls m]
    (hf : ∀ a w₁, m calls w = some (.ok a, w₁) → Letting calls (f a) w₁ R) :
    Letting calls (m >>= f) w R := by
  refine after (fun e w' h => ?_) hf
  obtain ⟨a, ha⟩ := hm.ok h
  exact absurd ha (by simp)

/-- Binding a view lets it. -/
theorem call (v : ViewId) (item : Value) (context : ContextId) :
    @Letting Unit calls (Machine.call (.bindView v item context)) w fun roll r w' =>
      roll = [(item, v)] ∧ calls (.bindView v item context) w = some (r, w') := by
  intro r w' h
  refine ⟨[(item, v)], fun allowed ha => ?_, rfl, h⟩
  have hv : (Call.bindView v item context).letting?.all allowed = true :=
    ha (item, v) (List.mem_singleton_self _)
  exact (if_pos hv).trans h

theorem attempt (h : Letting calls m w Q) : Letting calls (Machine.attempt m) w fun roll r w' =>
    ∃ x, r = .ok x ∧ Q roll x w' := by
  intro r w' hr
  obtain ⟨x, hx, rfl⟩ := attempt_eq_some.mp hr
  obtain ⟨roll, hl, hq⟩ := h _ _ hx
  exact ⟨roll, fun allowed ha => attempt_eq_some.mpr ⟨x, hl allowed ha, rfl⟩, x, rfl, hq⟩

theorem within {enter : World → World} {leave : World → World → World}
    (h : Letting calls m (enter w) Q) : Letting calls (Machine.within enter leave m) w
      fun roll r w' => ∃ x, w' = leave w x ∧ Q roll r x := by
  intro r w' hr
  obtain ⟨x, hx, rfl⟩ := within_eq_some.mp hr
  obtain ⟨roll, hl, hq⟩ := h _ _ hx
  exact ⟨roll, fun allowed ha => within_eq_some.mpr ⟨x, hl allowed ha, rfl⟩, x, rfl, hq⟩

end Letting

/-! ## What binds no view -/

namespace Bindless

theorem of_eq {m : Machine α} (h : ∀ calls calls', m calls = m calls') : Bindless m :=
  ⟨fun _ _ => h _ _⟩

instance (a : α) : Bindless (pure a) := .of_eq fun _ _ => rfl

instance (e : Error) : Bindless (throw e : Machine α) := .of_eq fun _ _ => rfl

instance (r : Except Error α) : Bindless (ofExcept r) := by
  cases r <;> exact .of_eq fun _ _ => rfl

instance : Bindless (get : Machine World) := .of_eq fun _ _ => rfl

instance (f : World → World) : Bindless (modify f : Machine PUnit) := .of_eq fun _ _ => rfl

instance (f : World → α × World) : Bindless (modifyGet f : Machine α) := .of_eq fun _ _ => rfl

instance (f : World → α) : Bindless (Machine.read f) := .of_eq fun _ _ => rfl

theorem bind {m : Machine α} {f : α → Machine β} [hm : Bindless m]
    (hf : ∀ a, Bindless (f a)) : Bindless (m >>= f) := by
  refine ⟨fun calls allowed => funext fun w => ?_⟩
  rw [bind_apply, bind_apply, hm.eq calls allowed]
  split
  · next a w₁ _ => rw [(hf a).eq calls allowed]
  · rfl
  · rfl

instance (m : Machine α) (f : α → Machine β) [Bindless m] [hf : ∀ a, Bindless (f a)] :
    Bindless (m >>= f) :=
  .bind hf

instance (p : Prop) [Decidable p] (m m' : Machine α) [Bindless m] [Bindless m'] :
    Bindless (if p then m else m') := by
  split
  · infer_instance
  · infer_instance

instance (m : Machine α) [hm : Bindless m] : Bindless (attempt m) :=
  ⟨fun calls allowed => funext fun w => by rw [attempt, attempt, hm.eq calls allowed]⟩

instance (enter : World → World) (leave : World → World → World) (m : Machine α)
    [hm : Bindless m] : Bindless (within enter leave m) :=
  ⟨fun calls allowed => funext fun w => by rw [within, within, hm.eq calls allowed]⟩

instance (views : List ViewId) (m : Machine α) [Bindless m] : Bindless (holdingViews views m) := by
  unfold holdingViews holding
  infer_instance

instance (f : β → Machine Unit) [hf : ∀ b, Bindless (f b)] (l : List β) : Bindless (each f l) := by
  induction l with
  | nil =>
    unfold each
    infer_instance
  | cons b l ih =>
    unfold each
    infer_instance

instance (f : α → Machine β) [hf : ∀ b, Bindless (f b)] (l : List α) : Bindless (collect f l) := by
  induction l with
  | nil =>
    unfold collect
    infer_instance
  | cons b l ih =>
    unfold collect
    infer_instance

/-- What neither binds nor unbinds. -/
instance (m : Machine α) [hm : Apart m] : Bindless m := by
  refine ⟨fun calls allowed => funext fun w => hm.eq (fun c hc => funext fun x => ?_) w⟩
  have hv : c.letting?.all allowed = true := by
    cases c with
    | bindView => exact absurd hc (by simp [Call.view?])
    | eval | deliver | update | settle | drainPool | unbindView | bubble | perform => rfl
  exact if_pos hv

instance (v : ViewId) : @Bindless Unit (call (.unbindView v)) := by
  refine ⟨fun calls allowed => funext fun w => ?_⟩
  have hv : (Call.unbindView v).letting?.all allowed = true := rfl
  show (if (Call.unbindView v).letting?.all allowed = true then calls (.unbindView v) w else none) = _
  rw [if_pos hv]
  rfl

instance (v : ViewId) : Bindless (disposeView v) := by
  unfold disposeView
  infer_instance

instance (recycle : Bool) (v : ViewId) : Bindless (withdrawView recycle v) := by
  unfold withdrawView
  infer_instance

instance (template : NodeId) : Bindless (cloneFragment template) := by
  unfold cloneFragment recordMutation onDocument
  refine @bind _ _ _ _ (.bind fun w => ?_) fun _ => inferInstance
  split <;> infer_instance

instance (fragment : NodeId) (directives : List (Path × Directive)) :
    Bindless (resolveTargets fragment directives) := by
  induction directives with
  | nil =>
    unfold resolveTargets
    infer_instance
  | cons entry rest ih =>
    unfold resolveTargets
    refine .bind fun w => ?_
    split <;> infer_instance

instance (target : NodeId) (d : Directive) : Bindless (createBehavior target d) := by
  have hb : ∀ behavior, Bindless (newBehavior behavior) := fun behavior => by
    unfold newBehavior
    infer_instance
  cases d with
  | bind binding aspect =>
    cases aspect <;> exact hb _
  | repeated items template options =>
    unfold createBehavior newRepeat newObserver
    infer_instance
  | probe name failCreate failBind =>
    unfold createBehavior
    cases failCreate <;> dsimp only <;> infer_instance

instance (fragment : NodeId) : Bindless (viewEnds fragment) := by
  unfold viewEnds onDocument modifyDocument
  refine .bind fun children => ?_
  split <;> infer_instance

instance (t : TemplateId) : Bindless (createView t) := by
  unfold createView
  infer_instance

instance (a : ArrayId) : Bindless (flushSplices a) := by
  unfold flushSplices setArrayObserver modifyArray holding
  refine .bind fun w => ?_
  split
  · infer_instance
  · infer_instance

instance (b : BehaviorId) (s : RepeatState) : Bindless (skipPending b s) := by
  unfold skipPending subscribe unsubscribe modifyNotifier
  split <;> infer_instance

end Bindless

end Machine

/-- The items in the array of a repeat. -/
def RepeatState.itemsIn (s : RepeatState) (w : World) : List Value :=
  match s.items with
  | some a => w.itemsOf a
  | none => []

namespace World

/-- **Remaining.** What has been made is still there. -/
abbrev Remains (w w' : World) : Prop := w.Lasts (fun _ => false) w'

/-- **New views.** The views of a roll are new, one for each entry, and of a template. -/
structure NewViews (t : TemplateId) (w : World) (roll : Roll) (w' : World) : Prop where
  remains : w.Remains w'
  nodup : roll.views.Nodup
  fresh : ∀ v ∈ roll.views, w.views.size ≤ v.index ∧ v.index < w'.views.size
  template : ∀ v ∈ roll.views, w'.templateOf v = t

variable {t : TemplateId} {w w₁ w' : World} {roll more : Roll} {v : ViewId}

theorem Remains.templateOf (h : w.Remains w') (hv : v.index < w.views.size) :
    w'.templateOf v = w.templateOf v := by
  have hl := congrArg ViewState.template (h.view hv)
  exact hl

namespace NewViews

theorem nil (h : w.Remains w') : w.NewViews t [] w' :=
  ⟨h, List.nodup_nil, fun _ hv => absurd hv List.not_mem_nil, fun _ hv => absurd hv List.not_mem_nil⟩

theorem append (h : w.NewViews t roll w₁) (h' : w₁.NewViews t more w') :
    w.NewViews t (roll ++ more) w' where
  remains := h.remains.trans h'.remains
  nodup := by
    rw [Roll.views_append]
    refine h.nodup.append h'.nodup fun v hv hv' => ?_
    have hlt := (h.fresh v hv).2
    have hle := (h'.fresh v hv').1
    omega
  fresh v hv := by
    rw [Roll.views_append] at hv
    have hsize := h.remains.size_views
    have hsize' := h'.remains.size_views
    obtain hv | hv := List.mem_append.mp hv
    · have hf := h.fresh v hv
      exact ⟨hf.1, by omega⟩
    · have hf := h'.fresh v hv
      exact ⟨by omega, hf.2⟩
  template v hv := by
    rw [Roll.views_append] at hv
    obtain hv | hv := List.mem_append.mp hv
    · exact (Remains.templateOf h'.remains (h.fresh v hv).2).trans (h.template v hv)
    · exact h'.template v hv

/-- What remains later. -/
theorem later (h : w.NewViews t roll w₁) (h' : w₁.Remains w') : w.NewViews t roll w' :=
  List.append_nil roll ▸ h.append (.nil h')

theorem since (h : w.Remains w₁) (h' : w₁.NewViews t roll w') : w.NewViews t roll w' :=
  List.nil_append roll ▸ (NewViews.nil h).append h'

end NewViews

end World

namespace Machine

open World

section Firm

variable {α : Type} {calls : Calls} [Firmly calls]

instance (priority := low) (m : Machine α) [hm : Apart m] : Firm calls m := hm.firm calls

instance (v : ViewId) : Firm calls (disposeView v) := by
  unfold disposeView
  infer_instance

instance (recycle : Bool) (v : ViewId) : Firm calls (withdrawView recycle v) := by
  unfold withdrawView
  infer_instance

instance (views : List ViewId) (m : Machine α) [Firm calls m] :
    Firm calls (holdingViews views m) := by
  unfold holdingViews
  infer_instance

end Firm

variable {α : Type} {S : Setting (lasting fun _ => false)} {w w' : World} {b : BehaviorId}
  {s : RepeatState} {location : NodeId} {template : TemplateId} {childContext : ContextId}
  {length : Nat}

/-- What has been made is still there after a computation. -/
theorem remains_of_agrees {m : Machine α} [S.Agrees m] {r : Except Error α}
    (h : m S.calls w = some (r, w')) : w.Remains w' :=
  ((Setting.Agrees.agreesAt (S := S) (m := m) trivial) r w' h).2.1

theorem remains_of_call {c : Call} {r : Except Error c.Result} (h : S.calls c w = some (r, w')) :
    w.Remains w' :=
  (S.call trivial h).2.2

/-- To create a view is to make a new one. -/
theorem createView_newViews {v : ViewId} (item : Value)
    (h : createView template S.calls w = some (.ok v, w')) : w.NewViews template [(item, v)] w' := by
  obtain ⟨hc, hv⟩ := (Setting.createView_leads (S := S) template w _ _ h).2
  obtain ⟨hv, hlt⟩ := hv v rfl
  refine ⟨remains_of_agrees h, List.nodup_singleton v, fun u hu => ?_, fun u hu => ?_⟩
  · obtain rfl := List.mem_singleton.mp hu
    exact ⟨Nat.le_of_eq hv.symm, hlt⟩
  · obtain rfl := List.mem_singleton.mp hu
    exact createView_template h

/-- Holding on to views makes no difference to what is let. -/
theorem holdingViews_letting {m : Machine α} {P : Roll → Except Error α → Prop} (views : List ViewId)
    (h : ∀ w : World, Letting S.calls m w fun roll r w' => P roll r ∧ w.Remains w') :
    Letting S.calls (holdingViews views m) w fun roll r w' => P roll r ∧ w.Remains w' := by
  have hheld : w.Remains { w with held := views.map .view ++ w.held } := .of_eq rfl rfl
  refine (Letting.within (h _)).mono ?_
  rintro roll r _ ⟨x, rfl, hp, hr⟩
  exact ⟨hp, (hheld.trans hr).trans (.of_eq rfl rfl)⟩

/-- Binding a view anew lets it. -/
theorem rebind_letting (v : ViewId) (item : Value) (context : ContextId) (w : World) :
    Letting S.calls (do
        Machine.call (.unbindView v)
        Machine.call (.bindView v item context)) w fun roll _ w' =>
      roll = [(item, v)] ∧ w.Remains w' := by
  refine .first fun _ w₁ h₁ => ?_
  have hunbound : w.Remains w₁ := remains_of_call (S := S) (c := .unbindView v) h₁
  refine (Letting.call v item context).mono fun roll r w' h => ?_
  exact ⟨h.1, hunbound.trans (remains_of_call (S := S) h.2)⟩

/-- A view is bound anew and put into its place. -/
theorem seatView_letting (held : List ViewId) (v : ViewId) (item : Value) (position : Nat)
    (reference : NodeId) (views' : List ViewId) :
    Letting S.calls (do
        let context ← itemContext childContext position length
        let bound ← attempt <| holdingViews held do
          Machine.call (.unbindView v)
          Machine.call (.bindView v item context)
        insertViewBefore v reference
        return (([], views'), bound) : Machine ((List ViewId × List ViewId) × Except Error Unit)) w
      fun roll r w' => ∃ outcome, r = .ok (([], views'), outcome) ∧ roll = [(item, v)] ∧
        w.Remains w' := by
  refine .first fun context w₁ h₁ => ?_
  refine (holdingViews_letting held (rebind_letting v item context)).attempt.bind ?_ ?_
  · rintro roll e w' ⟨_, he, -⟩
    exact absurd he (by simp)
  rintro roll outcome w₂ ⟨_, he, rfl, h₂⟩
  refine .first fun _ w₃ h₃ => ?_
  refine .of_eq (fun _ => rfl) ⟨outcome, rfl, List.append_nil _, ?_⟩
  exact ((remains_of_agrees h₁).trans h₂).trans (remains_of_agrees h₃)

/-- **One item** is given a view of its own. -/
theorem addView_letting (position : Nat) (item : Value) (views : List ViewId) :
    Letting S.calls (addView location template childContext length position item [] views) w
      fun roll r w' => ∃ views' outcome, r = .ok (([], views'), outcome) ∧
        w.NewViews template roll w' ∧ (outcome = .ok () → ∃ v, roll = [(item, v)] ∧
          views' = views.take position ++ v :: views.drop position) := by
  unfold addView
  extract_lets place
  have hplace : ∀ reference, Letting S.calls (place reference) w fun roll r w' =>
      ∃ views' outcome, r = .ok (([], views'), outcome) ∧
        w.NewViews template roll w' ∧ (outcome = .ok () → ∃ v, roll = [(item, v)] ∧
          views' = views.take position ++ v :: views.drop position) := by
    intro reference
    refine .first fun outcome w₁ h => ?_
    obtain ⟨_, hcreate, he⟩ := attempt_eq_some.mp h
    obtain rfl := Except.ok.inj he
    cases outcome with
    | error e =>
      exact .of_eq (fun _ => rfl) ⟨views, .error e, rfl, .nil (remains_of_agrees hcreate), by simp⟩
    | ok v =>
      have hnew := createView_newViews item hcreate
      refine (seatView_letting views v item position reference _).mono ?_
      rintro _ _ w' ⟨outcome, rfl, rfl, hr⟩
      exact ⟨_, outcome, rfl, hnew.later hr, fun _ => ⟨v, rfl, rfl⟩⟩
  split
  · exact .step (fun _ => rfl) (hplace _)
  · exact hplace location

/-- **The items of a splice** are given views of their own, one after another, until one fails. -/
theorem addViews_letting {position : Nat} (items : List Value) {views : List ViewId}
    (hp : position ≤ views.length) :
    Letting S.calls (addViews location template childContext length position items [] views) w
      fun roll r w' => ∃ views' outcome, r = .ok (([], views'), outcome) ∧
        w.NewViews template roll w' ∧ (outcome = .ok () → roll.items = items ∧
          views' = views.take position ++ roll.views ++ views.drop position) := by
  induction items generalizing position views w with
  | nil =>
    refine .of_eq (fun _ => rfl) ⟨views, .ok (), rfl, .nil (.refl w), fun _ => ⟨rfl, ?_⟩⟩
    simp [Roll.views]
  | cons item items ih =>
    unfold addViews
    refine (addView_letting position item views).bind
      (by simp) ?_
    rintro roll _ w₁ ⟨views₁, outcome, ⟨⟩, hnew, hv⟩
    cases outcome with
    | error e =>
      exact .of_eq (fun _ => rfl) ⟨views₁, .error e, rfl, by rwa [List.append_nil], by simp⟩
    | ok u =>
      obtain ⟨v, rfl, rfl⟩ := hv rfl
      obtain ⟨htake, hdrop⟩ := Setting.Around.take_drop_put hp [v]
      refine (ih (by simp; omega)).mono ?_
      rintro more r w' ⟨views', outcome, rfl, hmore, hviews⟩
      refine ⟨views', outcome, rfl, hnew.append hmore, fun ho => ?_⟩
      obtain ⟨hitems, rfl⟩ := hviews ho
      refine ⟨by rw [Roll.items_append, hitems]; rfl, ?_⟩
      rw [List.length_singleton, List.append_assoc, List.singleton_append] at htake hdrop
      rw [htake, hdrop, Roll.views_append]
      simp only [Roll.views, List.map_cons, List.map_nil, List.append_assoc]

/-- **Splices are carried out** with a view of its own for each item that they add. -/
theorem applySplices_letting (hoff : s.options.recycle = false) (splices : List Splice)
    {views : List ViewId} :
    Letting S.calls (applySplices s template childContext length splices [] views) w
      fun roll r w' => ∃ views' outcome, r = .ok (([], views'), outcome) ∧
        w.NewViews template roll w' ∧ (outcome = .ok () → ∀ held : Roll, held.views = views →
          ∃ held' : Roll, Splice.Seats splices held held' ∧ held'.views = views' ∧
            ∀ entry ∈ held', entry ∈ held ∨ entry ∈ roll) := by
  induction splices generalizing views w with
  | nil =>
    exact .of_eq (fun _ => rfl) ⟨views, .ok (), rfl, .nil (.refl w),
      fun _ held hv => ⟨held, .nil held, hv, fun _ => .inl⟩⟩
  | cons splice splices ih =>
    unfold applySplices
    extract_lets start taken kept withdrawn
    have hwithdrawn : withdrawn = [] := by simp [withdrawn, hoff]
    rw [hwithdrawn]
    have hle : start ≤ kept.length := by simp [kept, start]
    refine .first fun _ w₁ h₁ => ?_
    have hremains : w.Remains w₁ := remains_of_agrees h₁
    refine (addViews_letting splice.added hle).bind (by simp) ?_
    rintro roll _ w₂ ⟨views₂, outcome, ⟨⟩, hnew, hv⟩
    cases outcome with
    | error e =>
      refine .of_eq (fun _ => rfl) ⟨views₂, .error e, rfl, ?_, by simp⟩
      rw [List.append_nil]
      exact .since hremains hnew
    | ok u =>
      obtain ⟨hitems, rfl⟩ := hv rfl
      refine ih.mono ?_
      rintro more r w' ⟨views', outcome, rfl, hmore, hrolls⟩
      refine ⟨views', outcome, rfl, (NewViews.since hremains hnew).append hmore, ?_⟩
      rintro ho held rfl
      have hplace : (held.views.take start).length = start := by simp [start]
      have hnext : (splice.seat roll held).views =
          kept.take start ++ roll.views ++ kept.drop start := by
        rw [Splice.views_seat, List.take_left' hplace, List.drop_left' hplace]
      obtain ⟨held', hseats, hviews, hmem⟩ := hrolls ho _ hnext
      refine ⟨held', .cons hitems hseats, hviews, fun entry he => ?_⟩
      obtain he | he := hmem entry he
      · simp only [Splice.seat, List.mem_append] at he
        obtain (he | he) | he := he
        · exact .inl (List.mem_of_mem_take he)
        · exact .inr (List.mem_append_left _ he)
        · exact .inl (List.mem_of_mem_drop he)
      · exact .inr (List.mem_append_right _ he)

/-- Views are put back, and it is told how it ended. -/
theorem putViews_letting {s : RepeatState} (hs : w.repeatState? b = some s) (views : List ViewId)
    (outcome : Except Error Unit) :
    Letting S.calls (do
        putViews b views
        Machine.ofExcept outcome) w fun roll r w' =>
      roll = [] ∧ r = outcome ∧ w.Remains w' ∧ w'.viewsOf? b = some views := by
  have hput : ∀ calls, putViews b views calls w = some (.ok (), w.setViews b views) :=
    fun _ => rfl
  have hremains : w.Remains (w.setViews b views) := remains_of_agrees (S := S) (hput S.calls)
  have hviews : (w.setViews b views).viewsOf? b = some views :=
    viewsOf?_eq_some.mpr ⟨_, repeatState?_setViews hs views, rfl⟩
  refine .step hput ?_
  cases outcome with
  | ok u => exact .of_eq (fun _ => rfl) ⟨rfl, rfl, hremains, hviews⟩
  | error e => exact .of_eq (fun _ => rfl) ⟨rfl, rfl, hremains, hviews⟩

/-- **A batch of splices** lets no view but new ones, of the template that the repeat has. -/
theorem updateViews_letting {bound : RepeatBound} (hs : w.repeatState? b = some s)
    (hoff : s.options.recycle = false) (htemplate : s.template = some template)
    (hbound : s.bound = some bound) (splices : List Splice) :
    Letting S.calls (updateViews b splices) w fun roll r w' =>
      w.NewViews template roll w' ∧ (r = .ok () → ∀ held : Roll, held.views = s.views →
        ∃ held' : Roll, Splice.Seats splices held held' ∧ w'.viewsOf? b = some held'.views ∧
          ∀ entry ∈ held', entry ∈ held ∨ entry ∈ roll) := by
  unfold updateViews
  refine .step (fun _ => rfl) ?_
  rw [hs]
  dsimp only
  rw [htemplate, hbound]
  refine .step (Setting.Around.takeViews_apply hs) ?_
  have htaken : w.Remains (w.setViews b []) :=
    remains_of_agrees (S := S) (m := putViews b []) rfl
  refine (applySplices_letting hoff splices).bind (by simp) ?_
  rintro roll _ w₁ ⟨views, outcome, ⟨⟩, hnew, hrolls⟩
  have hnew₁ : w.NewViews template roll w₁ := .since htaken hnew
  obtain ⟨s₁, hs₁⟩ := repeatState?_of_lasts hnew₁.remains hs
  have hput : ∀ w₂, w₁.Remains w₂ → Letting S.calls (do
      putViews b views
      Machine.ofExcept outcome) w₂ fun more r w' => w.NewViews template (roll ++ more) w' ∧
        (r = .ok () → ∀ held : Roll, held.views = s.views → ∃ held' : Roll,
          Splice.Seats splices held held' ∧ w'.viewsOf? b = some held'.views ∧
            ∀ entry ∈ held', entry ∈ held ∨ entry ∈ roll ++ more) := by
    intro w₂ h₂
    obtain ⟨s₂, hs₂⟩ := repeatState?_of_lasts h₂ hs₁
    refine (putViews_letting hs₂ views outcome).mono ?_
    rintro _ r w' ⟨rfl, rfl, hr, hviews⟩
    rw [List.append_nil]
    refine ⟨hnew₁.later (h₂.trans hr), fun ho held hheld => ?_⟩
    obtain ⟨held', hseats, hheld', hmem⟩ := hrolls ho held hheld
    exact ⟨held', hseats, hheld' ▸ hviews, hmem⟩
  refine .first fun _ w₂ h₂ => ?_
  have hr₂ : w₁.Remains w₂ := remains_of_agrees h₂
  dsimp only
  split
  · exact .first fun _ w₃ h₃ => hput w₃ (hr₂.trans (remains_of_agrees h₃))
  · exact hput w₂ hr₂

/-! ## Full refreshes -/

/-- **Retaining** all views or none, as the case may be. -/
theorem retainViews_letting {keep : World → ViewId → Bool} {views : List ViewId}
    {kept : Bool} (hk : ∀ w₁, w.Remains w₁ → ∀ v ∈ views, keep w₁ v = kept) :
    Letting S.calls (retainViews keep views) w fun roll r w' =>
      roll = [] ∧ r = .ok (if kept then views else []) ∧ w.Remains w' := by
  induction views generalizing w with
  | nil => exact .of_eq (fun _ => rfl) ⟨rfl, by simp, .refl w⟩
  | cons v views ih =>
    unfold retainViews
    refine .step (fun _ => rfl) ?_
    rw [hk w (.refl w) v List.mem_cons_self]
    have hrest : ∀ w₁, w.Remains w₁ → ∀ w₂, w₁.Remains w₂ → ∀ u ∈ views, keep w₂ u = kept :=
      fun w₁ h₁ w₂ h₂ u hu => hk w₂ (h₁.trans h₂) u (List.mem_cons_of_mem v hu)
    cases kept with
    | true =>
      refine (ih (hrest w (.refl w))).bind (by simp) ?_
      rintro _ _ w₁ ⟨rfl, ⟨⟩, hr⟩
      exact .of_eq (fun _ => rfl) ⟨rfl, rfl, hr⟩
    | false =>
      refine .first fun _ w₁ h₁ => ?_
      have hr₁ : w.Remains w₁ := remains_of_agrees h₁
      refine (ih (hrest w₁ hr₁)).mono ?_
      rintro _ _ w' ⟨rfl, rfl, hr⟩
      exact ⟨rfl, rfl, hr₁.trans hr⟩

/-- A view that is there is bound to the item that it is brought to, if to anything. -/
theorem refreshView_letting (v : ViewId) (item : Value) (index : Nat) (w : World) :
    Letting S.calls (refreshView v item childContext index length) w fun roll _ w' =>
      roll ⊆ [(item, v)] ∧ w.Remains w' := by
  unfold refreshView
  refine .step (fun _ => rfl) ?_
  extract_lets shows
  have hrebind : Letting S.calls (do
      let context ← itemContext childContext index length
      Machine.call (.unbindView v)
      Machine.call (.bindView v item context)) w fun roll _ w' =>
        roll ⊆ [(item, v)] ∧ w.Remains w' := by
    refine .first fun context w₁ h₁ => (rebind_letting v item context w₁).mono ?_
    rintro _ r w' ⟨rfl, hr⟩
    exact ⟨List.Subset.refl _, (remains_of_agrees h₁).trans hr⟩
  split
  · refine Letting.still.mono ?_
    rintro _ r w' ⟨rfl, h⟩
    exact ⟨List.nil_subset _, remains_of_agrees h⟩
  · exact hrebind

/-- A new view is made and bound to an item. -/
theorem makeView_letting (item : Value) (index : Nat) (done : List ViewId) :
    Letting S.calls (holdingViews done do
        let context ← itemContext childContext index length
        let v ← createView template
        Machine.call (.bindView v item context)
        insertViewBefore v location
        return v) w fun roll r w' => w.NewViews template roll w' ∧ ∀ v, r = .ok v → roll = [(item, v)] := by
  have hmake : ∀ w : World, Letting S.calls (do
      let context ← itemContext childContext index length
      let v ← createView template
      Machine.call (.bindView v item context)
      insertViewBefore v location
      return v) w fun roll r w' => w.NewViews template roll w' ∧ ∀ v, r = .ok v → roll = [(item, v)] := by
    intro w
    refine .first fun context w₁ h₁ => .after (fun e w' h => ?_) fun v w₂ h₂ => ?_
    · exact ⟨.nil ((remains_of_agrees h₁).trans (remains_of_agrees h)), by simp⟩
    have hnew : w.NewViews template [(item, v)] w₂ :=
      .since (remains_of_agrees h₁) (createView_newViews item h₂)
    refine (Letting.call v item context).bind ?_ ?_
    · rintro _ e w' ⟨rfl, h⟩
      exact ⟨hnew.later (remains_of_call (S := S) h), by simp⟩
    rintro _ u w₃ ⟨rfl, h₃⟩
    refine .first fun _ w₄ h₄ => .of_eq (fun _ => rfl) ?_
    have hr := (remains_of_call (S := S) (c := .bindView v item context) h₃).trans
      (remains_of_agrees h₄)
    exact ⟨hnew.later hr, fun u hu => Except.ok.inj hu ▸ rfl⟩
  have hheld : w.Remains { w with held := done.map .view ++ w.held } := .of_eq rfl rfl
  refine (Letting.within (hmake _)).mono ?_
  rintro roll r _ ⟨x, rfl, hnew, hone⟩
  exact ⟨.since hheld (hnew.later (.of_eq rfl rfl)), hone⟩

/-- **Items are given views of their own**, where there are none. -/
theorem matchViews_letting (index : Nat) (done : List ViewId) (items : List Value) :
    Letting S.calls (matchViews location template childContext length index done items []) w
      fun roll r w' => ∃ views outcome, r = .ok (views, outcome) ∧ w.NewViews template roll w' ∧
        (outcome = .ok () → roll.items = items ∧ views = done.reverse ++ roll.views) := by
  induction items generalizing index done w with
  | nil =>
    unfold matchViews
    refine .first fun _ w₁ h₁ => ?_
    refine .of_eq (fun _ => rfl) ⟨done.reverse, .ok (), rfl, .nil (remains_of_agrees h₁), ?_⟩
    exact fun _ => ⟨rfl, (List.append_nil _).symm⟩
  | cons item items ih =>
    unfold matchViews
    refine (makeView_letting item index done).attempt.bind
      (by simp) ?_
    rintro roll outcome w₁ ⟨_, ⟨⟩, hnew, hone⟩
    cases outcome with
    | error e =>
      refine .first fun _ w₂ h₂ => ?_
      refine .of_eq (fun _ => rfl) ⟨_, .error e, rfl, ?_, by simp⟩
      rw [List.append_nil]
      exact hnew.later (remains_of_agrees h₂)
    | ok v =>
      obtain rfl := hone v rfl
      refine (ih (index + 1) (v :: done)).mono ?_
      rintro more r w' ⟨views, outcome, rfl, hmore, hv⟩
      refine ⟨views, outcome, rfl, hnew.append hmore, fun ho => ?_⟩
      obtain ⟨rfl, rfl⟩ := hv ho
      exact ⟨rfl, by simp [Roll.views]⟩

/-- **Views that are for the items** at their positions may be bound to them again, and to nothing else. -/
theorem matchViews_kept_letting (index : Nat) (done : List ViewId) (held : Roll) :
    Letting S.calls (matchViews location template childContext length index done held.items held.views) w
      fun roll r w' => ∃ views outcome, r = .ok (views, outcome) ∧ roll ⊆ held ∧ w.Remains w' ∧
        (outcome = .ok () → views = done.reverse ++ held.views) := by
  induction held generalizing index done w with
  | nil =>
    show Letting S.calls (matchViews location template childContext length index done [] []) w _
    unfold matchViews
    refine .first fun _ w₁ h₁ => ?_
    refine .of_eq (fun _ => rfl) ⟨done.reverse, .ok (), rfl, List.nil_subset _, remains_of_agrees h₁, ?_⟩
    exact fun _ => (List.append_nil _).symm
  | cons entry held ih =>
    obtain ⟨item, v⟩ := entry
    show Letting S.calls (matchViews location template childContext length index done
      (item :: Roll.items held) (v :: Roll.views held)) w _
    unfold matchViews
    refine (holdingViews_letting _ (refreshView_letting v item index)).attempt.bind
      (by simp) ?_
    rintro roll outcome w₁ ⟨_, ⟨⟩, hsub, hr⟩
    have hentry : roll ⊆ (item, v) :: held := fun e he =>
      List.mem_singleton.mp (hsub he) ▸ List.mem_cons_self
    cases outcome with
    | error e =>
      refine .of_eq (fun _ => rfl) ⟨_, .error e, rfl, ?_, hr, by simp⟩
      rwa [List.append_nil]
    | ok u =>
      refine (ih (index + 1) (v :: done)).mono ?_
      rintro more r w' ⟨views, outcome, rfl, hmore, hr', hv⟩
      refine ⟨views, outcome, rfl, List.append_subset.mpr ⟨hentry, fun e he => List.mem_cons_of_mem _ (hmore he)⟩, hr.trans hr', fun ho => ?_⟩
      rw [hv ho]
      simp [Roll.views]

/-- What is rebuilt where there is a template. -/
theorem rebuild_letting {Q : Roll → Except Error (List ViewId × Except Error Unit) → World → Prop}
    {templateChanged : Bool} {views : List ViewId} (htemplate : s.template = some template)
    (h : Letting S.calls (do
      let views ← retainViews (fun w v =>
        !(!s.options.recycle && !templateChanged) && w.templateOf v == template) views
      matchViews s.location template childContext (s.itemsIn w).length 0 [] (s.itemsIn w) views) w Q) :
    Letting S.calls (rebuild s childContext templateChanged views) w Q := by
  unfold rebuild
  rw [htemplate]
  dsimp only
  cases hitems : s.items with
  | none =>
    simp only [RepeatState.itemsIn, hitems] at h ⊢
    exact h
  | some a =>
    simp only [RepeatState.itemsIn, hitems] at h ⊢
    exact .step (fun _ => rfl) h

/-- **New views for all items**, where none of those that are there is kept. -/
def Anew (s : RepeatState) (w : World) (roll : Roll)
    (r : Except Error (List ViewId × Except Error Unit)) (w' : World) : Prop :=
  ∃ views outcome t, r = .ok (views, outcome) ∧ w.NewViews t roll w' ∧ (outcome = .ok () →
    roll.items = s.due w ∧ views = roll.views ∧ (roll ≠ [] → s.template = some t))

theorem rebuild_anew {templateChanged : Bool} {views : List ViewId}
    (hk : ∀ t, s.template = some t → ∀ w₁, w.Remains w₁ → ∀ v ∈ views,
      (!(!s.options.recycle && !templateChanged) && w₁.templateOf v == t) = false) :
    Letting S.calls (rebuild s childContext templateChanged views) w (Anew s w) := by
  cases htemplate : s.template with
  | none =>
    unfold rebuild
    rw [htemplate]
    refine .first fun _ w₁ h₁ => .of_eq (fun _ => rfl) ?_
    refine ⟨[], .ok (), ⟨0⟩, rfl, .nil (remains_of_agrees h₁), fun _ => ⟨?_, rfl, fun h => absurd rfl h⟩⟩
    simp [RepeatState.due, htemplate, Roll.items]
  | some t =>
    refine rebuild_letting htemplate ?_
    refine (retainViews_letting (hk t htemplate)).bind (by simp) ?_
    rintro _ _ w₁ ⟨rfl, ⟨⟩, hr⟩
    refine (matchViews_letting 0 [] (s.itemsIn w)).mono ?_
    rintro roll r w' ⟨views', outcome, rfl, hnew, hv⟩
    refine ⟨views', outcome, t, rfl, .since hr hnew, fun ho => ?_⟩
    obtain ⟨hitems, rfl⟩ := hv ho
    refine ⟨hitems.trans ?_, rfl, fun _ => htemplate⟩
    rw [RepeatState.itemsIn, RepeatState.due, htemplate]
    cases s.items <;> rfl

/-- **All views are kept**, where they are of the template and for the items that there are. -/
theorem rebuild_kept (held : Roll) (childContext : ContextId)
    (htemplate : s.template = some template)
    (hv : ∀ v ∈ held.views, v.index < w.views.size ∧ w.templateOf v = template)
    (hitems : held.items = s.itemsIn w) :
    Letting S.calls (rebuild s childContext true held.views) w fun roll r w' =>
      ∃ views outcome, r = .ok (views, outcome) ∧ roll ⊆ held ∧ w.Remains w' ∧
        (outcome = .ok () → views = held.views) := by
  have hkeep : ∀ w₁, w.Remains w₁ → ∀ v ∈ held.views,
      (!(!s.options.recycle && !true) && w₁.templateOf v == template) = true := by
    intro w₁ hr v hmem
    obtain ⟨hlt, ht⟩ := hv v hmem
    simp [hr.templateOf hlt, ht]
  refine rebuild_letting htemplate ?_
  refine (retainViews_letting hkeep).bind (by simp) ?_
  rintro _ _ w₁ ⟨rfl, ⟨⟩, hr⟩
  rw [← hitems]
  refine (matchViews_kept_letting 0 [] held).mono ?_
  rintro roll r w' ⟨views, outcome, rfl, hsub, hr', hv⟩
  exact ⟨views, outcome, rfl, hsub, hr.trans hr', hv⟩

/-- **A full refresh** is the rebuilding of the views once the pending splices have been skipped. -/
theorem refreshAllViews_letting {x : World} {sx : RepeatState} {bound : RepeatBound}
    {templateChanged : Bool} {Q : Roll → Except Error (List ViewId × Except Error Unit) → World → Prop}
    (hs : w.repeatState? b = some s) (hbound : s.bound = some bound)
    (hskip : skipPending b s S.calls w = some (.ok (), x)) (hx : x.repeatState? b = some sx)
    (h : Letting S.calls (rebuild s bound.childContext templateChanged sx.views) (x.setViews b []) Q)
    (hq : ∀ roll r w₁, Q roll r w₁ → ∃ views outcome, r = .ok (views, outcome) ∧ x.Remains w₁) :
    Letting S.calls (refreshAllViews b templateChanged) w fun roll r w' =>
      ∃ views w₁, Q roll (.ok (views, r)) w₁ ∧ w₁.Remains w' ∧ w'.viewsOf? b = some views := by
  have hdo : Letting S.calls (do
      let views ← takeViews b
      let rebuilt ← rebuild s bound.childContext templateChanged views
      putViews b rebuilt.1
      Machine.ofExcept rebuilt.2) x fun roll r w' =>
        ∃ views w₁, Q roll (.ok (views, r)) w₁ ∧ w₁.Remains w' ∧ w'.viewsOf? b = some views := by
    refine .step (Setting.Around.takeViews_apply hx) ?_
    refine h.bind (fun roll e w₁ he => ?_) fun roll result w₁ hresult => ?_
    · obtain ⟨_, _, he, -⟩ := hq _ _ _ he
      exact absurd he (by simp)
    obtain ⟨views, outcome, ⟨⟩, hr⟩ := hq _ _ _ hresult
    obtain ⟨s₁, hs₁⟩ := repeatState?_of_lasts hr hx
    refine (putViews_letting hs₁ views outcome).mono ?_
    rintro _ r w' ⟨rfl, rfl, hr', hviews⟩
    rw [List.append_nil]
    exact ⟨views, w₁, hresult, hr', hviews⟩
  intro r w' hrun
  rw [Setting.Around.refreshAllViews_of_skipped hs hbound hskip] at hrun
  obtain ⟨roll, hl, hr⟩ := hdo r w' hrun
  refine ⟨roll, fun allowed ha => ?_, hr⟩
  have hskip' : skipPending b s (S.calls.letting allowed) w = some (.ok (), x) := by
    have hb : Bindless (skipPending b s) := inferInstance
    rw [hb.eq S.calls allowed]
    exact hskip
  exact (Setting.Around.refreshAllViews_of_skipped hs hbound hskip').trans (hl allowed ha)

end Machine

end ReactiveViews
