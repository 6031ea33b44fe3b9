import ReactiveViews.Proofs.Positions.Refreshing
/-!
# Positions are exact

Wherever a call is made what repeats hold is solely theirs (`custody_kept`). So whatever batch of splices
arrives there, and whichever repeat refreshes its views in the course of it, positions are exact
afterwards (`positions_are_exact`).

A full refresh is not a call. It is run when an observer of the repeat calls back, after the repeat has
looked at what has changed, and when the repeat is bound, after the behaviors that come before it in its
view (`Machine.Refreshes`).
-/

namespace ReactiveViews

open Machine World

namespace Setting

variable {S : Setting custody} {b : BehaviorId}

/-- What repeats and content bindings do with the views that they have leaves things alone. -/
instance : S.Listing b where
  content hw hs _ value source context := updateContent_custody hw hs value source context
  unbindBinding := unbindBinding_custody
  unbindRepeat := unbindRepeat_custody
  refreshAllViews templateChanged := by
    unfold Machine.refreshAllViews
    refine .get fun w hw => ?_
    split
    · exact Agrees.agreesAt hw
    · next s hs =>
      split
      · exact Agrees.agreesAt hw
      · next bound hbound =>
        refine .congr (fun calls => (refreshAllViews_eq hs hbound templateChanged calls).symm) ?_
        exact (refreshAllViews_exact hw hs hbound templateChanged).mono fun _ _ h => ⟨h.1, h.2.1⟩
  updateViews splices := by
    refine ⟨fun {w} hw => ?_⟩
    by_cases h : ∃ s template bound, w.repeatState? b = some s ∧ s.template = some template ∧
        s.bound = some bound
    · obtain ⟨s, template, bound, hs, htemplate, hbound⟩ := h
      exact (updateViews_exact hw hs htemplate hbound splices).mono fun _ _ h => ⟨h.1, h.2.1⟩
    · unfold Machine.updateViews
      refine AgreesAt.get ?_
      split
      · exact Agrees.agreesAt hw
      · next s hs =>
        split
        · next template bound htemplate hbound => exact absurd ⟨s, template, bound, hs, htemplate, hbound⟩ h
        · exact Agrees.agreesAt hw

end Setting

theorem custody_kept : custody.Kept := by
  refine Regime.Open.kept (fun S => inferInstance) (fun S => inferInstance) (fun S => inferInstance)
    (fun {c w} _ hv he => ?_) (fun {c w w' r} _ hv hr hi => ?_) fun S {c w} hc he _ => ?_
  · cases c with
    | bindView | unbindView => exact absurd hv (by simp [Call.view?])
    | _ => exact he
  · cases c with
    | bindView | unbindView => exact absurd hv (by simp [Call.view?])
    | _ => exact ⟨hr, hi⟩
  · cases c with
    | bindView v source context => exact Setting.bindView_custody he.1 he.2 source context
    | unbindView v => exact Setting.unbindView_custody he v
    | eval | bubble | perform => exact absurd rfl (hc trivial)
    | deliver s change =>
      exact (Setting.Uniform.agrees_body (c := .deliver s change) id).agreesAt he
    | update t => exact (Setting.Uniform.agrees_body (c := .update t) id).agreesAt he
    | settle => exact (Setting.Uniform.agrees_body (c := .settle) id).agreesAt he
    | drainPool => exact (Setting.Uniform.agrees_body (c := .drainPool) id).agreesAt he

namespace World

/-- An observer of a repeat calls back: it may be queued again, and the repeat is held on to. -/
def calledBack (w : World) (o : ObserverId) (b : BehaviorId) : World :=
  { w with
    observers := w.observers.modify o fun s => { s with needsQueue := s.isAsync }
    held := [.subscriber (.behavior b)] ++ w.held }

end World

namespace Machine

variable {b : BehaviorId}

/-! ## Up to where views are refreshed -/

/-- Looks at the items of a repeat that is bound. -/
def noteItems (b : BehaviorId) : Machine Unit := do
  match (← get).repeatState? b with
  | none => pure ()
  | some s =>
    match s.bound with
    | none => pure ()
    | some bound =>
      let items ← observeItems s bound.source bound.context
      modifyRepeat b fun s => { s with items }
      followItems b false

/-- Looks at its template. -/
def noteTemplate (b : BehaviorId) : Machine Unit := do
  match (← get).repeatState? b with
  | none => pure ()
  | some s =>
    match s.bound with
    | none => pure ()
    | some bound =>
      let template ← observeTemplate s bound.source bound.context
      modifyRepeat b fun s => { s with template }

/-- Connects a repeat to a source, and looks at both. -/
def connectRepeat (b : BehaviorId) (source : Value) (context : ContextId) : Machine Unit := do
  unbindRepeat b
  let childContext ← childContext context source
  modifyRepeat b fun s => { s with bound := some ⟨source, context, childContext⟩ }
  match (← get).repeatState? b with
  | none => pure ()
  | some s =>
    let items ← observeItems s source context
    let template ← observeTemplate s source context
    modifyRepeat b fun s => { s with items, template }
    followItems b true

/-- Binds a view, up to where some of its behaviors have been bound. -/
def bindUpTo (v : ViewId) (source : Value) (context : ContextId) (before : List BehaviorId) :
    Machine Unit := do
  let s ← read fun w => w.views.get v
  if s.source.isSome then each unbindBehavior s.behaviors
  modifyView v fun s => { s with source := some source, context := some context }
  each (fun b => bindBehavior b source context) before

/-- **Refreshing.** Where a call is made at a world, a repeat comes to refresh all its views at `x`, because of
its template or not. -/
inductive Refreshes (calls : Calls) (b : BehaviorId) : Call → World → Bool → World → Prop
  /-- An observer has called back. -/
  | items {c : Call} {w x : World} {o : ObserverId} (ho : (w.observers.get o).reaction = .itemsChanged b)
    (h : noteItems b calls (w.calledBack o b) = some (.ok (), x)) : Refreshes calls b c w false x
  | template {c : Call} {w x : World} {o : ObserverId}
    (ho : (w.observers.get o).reaction = .templateChanged b)
    (h : noteTemplate b calls (w.calledBack o b) = some (.ok (), x)) : Refreshes calls b c w true x
  /-- The view in which it is is bound to another source. -/
  | bound {v : ViewId} {source : Value} {context : ContextId} {before after : List BehaviorId}
    {w y x : World} (hnew : ∀ current, (w.views.get v).source = some current → current.same source = false)
    (hb : (w.views.get v).behaviors = before ++ b :: after)
    (hbefore : bindUpTo v source context before calls { w with held := [.binding v] ++ w.held } =
      some (.ok (), y))
    (h : connectRepeat b source context calls y = some (.ok (), x)) :
    Refreshes calls b (.bindView v source context) w false x

/-! Changes of the bindings, and binding, are that and then the refresh. -/

/-- A repeat that is not bound has nothing to refresh. -/
theorem refreshAllViews_idle {w : World} (h : ∀ s, w.repeatState? b = some s → s.bound = none)
    (templateChanged : Bool) (calls : Calls) :
    refreshAllViews b templateChanged calls w = some (.ok (), w) := by
  unfold refreshAllViews
  rw [bind_apply, get_apply]
  dsimp only
  cases hs : w.repeatState? b with
  | none => rfl
  | some s =>
    dsimp only
    rw [h s hs]
    rfl

theorem itemsChanged_noted (b : BehaviorId) : itemsChanged b = (do
    noteItems b
    refreshAllViews b false) := by
  funext calls w
  unfold itemsChanged noteItems
  rw [bind_apply, get_apply, bind_assoc, bind_apply, get_apply]
  dsimp only
  cases hs : w.repeatState? b with
  | none =>
    have hidle : ∀ s, w.repeatState? b = some s → s.bound = none := fun s h => by simp [hs] at h
    exact (refreshAllViews_idle hidle false calls).symm
  | some s =>
    dsimp only
    cases hbound : s.bound with
    | none =>
      have hidle : ∀ s, w.repeatState? b = some s → s.bound = none := fun s' h => by
        rw [← Option.some.inj (hs.symm.trans h), hbound]
      exact (refreshAllViews_idle hidle false calls).symm
    | some bound => simp only [bind_assoc]

theorem templateChanged_noted (b : BehaviorId) : templateChanged b = (do
    noteTemplate b
    refreshAllViews b true) := by
  funext calls w
  unfold templateChanged noteTemplate
  rw [bind_apply, get_apply, bind_assoc, bind_apply, get_apply]
  dsimp only
  cases hs : w.repeatState? b with
  | none =>
    have hidle : ∀ s, w.repeatState? b = some s → s.bound = none := fun s h => by simp [hs] at h
    exact (refreshAllViews_idle hidle true calls).symm
  | some s =>
    dsimp only
    cases hbound : s.bound with
    | none =>
      have hidle : ∀ s, w.repeatState? b = some s → s.bound = none := fun s' h => by
        rw [← Option.some.inj (hs.symm.trans h), hbound]
      exact (refreshAllViews_idle hidle true calls).symm
    | some bound => simp only [bind_assoc]

theorem bindRepeat_connected (b : BehaviorId) (source : Value) (context : ContextId) :
    bindRepeat b source context = (do
      connectRepeat b source context
      refreshAllViews b false) := by
  unfold bindRepeat connectRepeat
  simp only [bind_assoc]
  refine congrArg _ (funext fun _ => congrArg _ (funext fun childContext => congrArg _ (funext fun _ => ?_)))
  funext calls w
  rw [bind_apply, get_apply, bind_apply, get_apply]
  dsimp only
  cases hs : w.repeatState? b with
  | none =>
    have hidle : ∀ s, w.repeatState? b = some s → s.bound = none := fun s h => by simp [hs] at h
    exact (refreshAllViews_idle hidle false calls).symm
  | some s => simp only [bind_assoc]

end Machine

namespace Setting

variable {S : Setting custody} {b : BehaviorId}

instance : S.Agrees (noteItems b) := by
  unfold noteItems
  refine .get fun w hw => ?_
  split
  · exact Agrees.agreesAt hw
  · next s hs =>
    split
    · exact Agrees.agreesAt hw
    · exact (observeItems_agreesAt hw (light_of_repeated hw hs).1 _ _).bind fun _ _ => Agrees.agreesAt

instance : S.Agrees (noteTemplate b) := by
  unfold noteTemplate
  refine .get fun w hw => ?_
  split
  · exact Agrees.agreesAt hw
  · next s hs =>
    split
    · exact Agrees.agreesAt hw
    · exact (observeTemplate_agreesAt hw (light_of_repeated hw hs).2 _ _).bind fun _ _ => Agrees.agreesAt

instance (source : Value) (context : ContextId) : S.Agrees (connectRepeat b source context) := by
  unfold connectRepeat
  refine .bind fun _ => .bind fun childContext => .bind fun _ => .get fun w hw => ?_
  split
  · exact Agrees.agreesAt hw
  · next s hs =>
    obtain ⟨hi, ht⟩ := light_of_repeated hw hs
    refine light_bind ht (observeItems_agreesAt hw hi source context) fun items w₁ hw₁ ht => ?_
    exact (observeTemplate_agreesAt hw₁ ht source context).bind fun _ _ => Agrees.agreesAt

/-- A view that is not placed is bound up to some of its behaviors. -/
theorem bindUpTo_sole {w : World} {v : ViewId} (hw : w.Sole) (hv : w.Unplaced (.view v)) (source : Value)
    (context : ContextId) (before : List BehaviorId) :
    S.Leads (bindUpTo v source context before) w fun _ w' => w'.Sole := by
  have hrest : ∀ w₁, w.Leaves w₁ → w₁.Sole → S.Leads (do
      modifyView v fun s => { s with source := some source, context := some context }
      each (fun b => bindBehavior b source context) before) w₁ fun _ w' => w'.Sole := fun w₁ hr hw₁ =>
    (rebind_leads hr hw₁ hv source context before).mono fun _ _ h => h.1
  unfold bindUpTo
  refine Leads.read ?_
  extract_lets
  split
  · refine Leads.bind (Agrees.agreesAt hw) (fun _ _ h => h.2) fun _ w₁ h => ?_
    exact hrest w₁ h.1 h.2
  · exact hrest w (.refl w) hw

end Setting

/-- Where a repeat comes to refresh its views what repeats hold is solely theirs. -/
theorem Machine.Refreshes.sole {b : BehaviorId} {c : Call} {w x : World} {templateChanged : Bool} {depth : Nat}
    (h : Refreshes (run depth) b c w templateChanged x) (hw : custody.Entry c w) : x.Sole := by
  rw [← runUnder_true] at h
  let S : Setting custody := custody.setting custody_kept depth
  have hsole : w.Sole := by
    cases c with
    | bindView => exact hw.1
    | _ => exact hw
  have hcalled : ∀ o, (w.calledBack o b).Sole := fun o =>
    have he : w.EasesBut (fun _ => False) (w.calledBack o b) := .of_eq rfl rfl rfl rfl
    he.sole hsole
  cases h with
  | items _ h => exact (Setting.Agrees.agreesAt (S := S) (hcalled _) _ _ h).2.2
  | template _ h => exact (Setting.Agrees.agreesAt (S := S) (hcalled _) _ _ h).2.2
  | @bound v _ _ _ _ _ _ _ _ _ hbefore h =>
    have he : w.EasesBut (fun _ => False) { w with held := [.binding v] ++ w.held } :=
      .of_eq rfl rfl rfl rfl
    have hy := Setting.bindUpTo_sole (S := S) (he.sole hsole) (he.leaves.unplaced hw.2) _ _ _ _ _ hbefore
    exact (Setting.Agrees.agreesAt (S := S) hy.2 _ _ h).2.2

/-- **Positions are exact.** Wherever a call is made in a session, a batch of splices that is carried out there by
a repeat with positioning leaves every view with a context that knows where in the list the view is, also if an
item has failed, and so does every full refresh that a repeat comes to in the course of the call and that comes to
its end. A context that has been moved by that has told those who had subscribed to what has changed of its
position, and no others, once all of the position had been stored. -/
theorem positions_are_exact {c : Call} {w : World} (hv : Session.Visited (fun _ _ => true) c w) (depth : Nat)
    (b : BehaviorId) :
    (∀ s splices r w', w.repeatState? b = some s → s.template.isSome → s.bound.isSome →
      s.options.positioning = true → updateViews b splices (run depth) w = some (r, w') →
        PositionedByBatch (run depth) b s splices w r w') ∧
    ∀ templateChanged x s w', Refreshes (run depth) b c w templateChanged x → x.repeatState? b = some s →
      s.bound.isSome → refreshAllViews b templateChanged (run depth) x = some (.ok (), w') →
        PositionedByRefresh (run depth) b templateChanged x w' := by
  have hw : custody.Entry c w := Session.entry_of_visited custody_kept sole_empty hv
  let S : Setting custody := custody.setting custody_kept depth
  refine ⟨fun s splices r w' hs htemplate hbound hon hr => ?_, fun templateChanged x s w' hx hs hbound hr => ?_⟩
  · have hsole : w.Sole := by
      cases c with
      | bindView => exact hw.1
      | _ => exact hw
    obtain ⟨template, htemplate⟩ := Option.isSome_iff_exists.mp htemplate
    obtain ⟨bound, hbound⟩ := Option.isSome_iff_exists.mp hbound
    rw [← runUnder_true] at hr ⊢
    exact (Setting.updateViews_exact (S := S) hsole hs htemplate hbound splices r w' hr).2.2.2 hon
  · have hsole := hx.sole hw
    obtain ⟨bound, hbound⟩ := Option.isSome_iff_exists.mp hbound
    rw [← runUnder_true] at hr ⊢
    exact (Setting.refreshAllViews_exact (S := S) hsole hs hbound templateChanged _ w' hr).2.2.2 rfl

/-- A view with a repeat that keeps positions is rendered over an array of one item. -/
def positionedSession : List Command :=
  [.array (.observation .immediate), .array (.create "a" [.text "x"]),
    .object (.create "m" none [("items", .handle "a")]),
    .node (.create "row" .fragment ""), .node (.create "cell" (.element "p") ""),
    .node (.append "row" "cell"),
    .template (.assemble "rows" "row" [("r.0", none, .binding (.ofExpr .source))]),
    .node (.create "table" .fragment ""), .node (.create "place" (.element "p") ""),
    .node (.append "table" "place"),
    .template (.assemble "list" "table" [("r.0", none,
      .repeated ⟨.ofExpr (.get .source "items"), .handle "rows", { positioning := true }⟩)]),
    .node (.create "host" (.element "div") ""),
    .view (.render "v" "list" (.handle "m") "host" none)]

/-- The repeat is bound, and an observer of it calls it back about its items. -/
def World.isPositioned (w : World) : Bool :=
  (w.repeatState? ⟨0⟩).any fun s => s.bound.isSome && s.template.isSome && s.options.positioning &&
    match (w.observers.get s.itemsObserver).reaction with
    | .itemsChanged b => decide (b = ⟨0⟩)
    | _ => false

theorem World.exists_of_isPositioned {w : World} (h : w.isPositioned) : ∃ s, w.repeatState? ⟨0⟩ = some s ∧
    s.bound.isSome ∧ s.template.isSome ∧ s.options.positioning = true ∧
      (w.observers.get s.itemsObserver).reaction = .itemsChanged ⟨0⟩ := by
  obtain ⟨s, hs, h⟩ := (Option.any_eq_true _ _).mp h
  simp only [Bool.and_eq_true] at h
  obtain ⟨⟨⟨hbound, htemplate⟩, hon⟩, hr⟩ := h
  refine ⟨s, hs, hbound, htemplate, hon, ?_⟩
  split at hr
  · next b hb => rw [hb, of_decide_eq_true hr]
  · exact absurd hr Bool.false_ne_true

/-- An item is put in front, and the view behind it learns of it; and the items are refreshed. -/
theorem moved_context_is_in_place : ∃ w s r w' x w'' c, Session.Visited (fun _ _ => true)
    (.perform (.queue .process)) w ∧ w.position c = (0, 1) ∧ w'.position c = (1, 2) ∧
      PositionedByBatch (run 8) ⟨0⟩ s [⟨0, [], [.text "y"]⟩] w r w' ∧
      PositionedByRefresh (run 8) ⟨0⟩ false x w'' := by
  have hplay : (Session.play (fun _ _ => true) positionedSession World.empty).any (fun w =>
      w.isPositioned && (runUnder (fun _ _ => true) Session.depth (.perform (.queue .process))
        { w with log := [] }).isSome &&
      (updateViews ⟨0⟩ [⟨0, [], [.text "y"]⟩] (run 8) { w with log := [] }).any (fun y =>
        w.contexts.refs.any fun c => decide (w.position c = (0, 1) ∧ y.2.position c = (1, 2))) &&
      (w.repeatState? ⟨0⟩).any fun s =>
        (noteItems ⟨0⟩ (run 8) (({ w with log := [] } : World).calledBack s.itemsObserver ⟨0⟩)).any fun y =>
          y.1.isOk && y.2.isPositioned && (refreshAllViews ⟨0⟩ false (run 8) y.2).any (·.1.isOk)) = true := by
    decide +kernel
  obtain ⟨w, hw, hplay⟩ := (Option.any_eq_true _ _).mp hplay
  simp only [Bool.and_eq_true] at hplay
  obtain ⟨⟨⟨hbound, hrun⟩, hbatch⟩, hrefresh⟩ := hplay
  obtain ⟨s, hs, hbound, htemplate, hon, ho⟩ := World.exists_of_isPositioned hbound
  obtain ⟨⟨r, w'⟩, hbatch, hmoved⟩ := (Option.any_eq_true _ _).mp hbatch
  obtain ⟨c, -, hmoved⟩ := List.any_eq_true.mp hmoved
  obtain ⟨hbefore, hafter⟩ := of_decide_eq_true hmoved
  obtain ⟨_, hs', hrefresh⟩ := (Option.any_eq_true _ _).mp hrefresh
  obtain rfl := Option.some.inj (hs.symm.trans hs')
  obtain ⟨⟨r₁, x⟩, hnote, hrefresh⟩ := (Option.any_eq_true _ _).mp hrefresh
  simp only [Bool.and_eq_true] at hrefresh
  obtain ⟨⟨hr₁, hx⟩, hrefresh⟩ := hrefresh
  obtain ⟨sx, hsx, hboundx, -⟩ := World.exists_of_isPositioned hx
  obtain ⟨⟨r₂, w''⟩, hall, hr₂⟩ := (Option.any_eq_true _ _).mp hrefresh
  have hok : ∀ {r : Except Error Unit}, r.isOk = true → r = .ok () := by
    intro r hr
    cases r with
    | ok => rfl
    | error => exact absurd hr (by simp [Except.isOk, Except.toBool])
  obtain rfl := hok hr₁
  obtain rfl := hok hr₂
  have hvisited := Session.visited_of_reached (Session.reached_of_play .start hw) hrun
  obtain ⟨hexact, hrefreshed⟩ := positions_are_exact hvisited 8 ⟨0⟩
  exact ⟨_, s, r, w', x, w'', c, hvisited, hbefore, hafter, hexact s _ r w' hs htemplate hbound hon hbatch,
    hrefreshed false x sx w'' (.items ho hnote) hsx hboundx hall⟩

end ReactiveViews
