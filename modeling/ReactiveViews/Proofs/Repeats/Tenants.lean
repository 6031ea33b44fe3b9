import ReactiveViews.Proofs.Repeats.Letting
/-!
# One item for each view

Whether views are recycled is asked in two places. Carrying out splices, a repeat that does not recycle makes
new views for what is added. When all views are refreshed it makes new ones too, unless the reason is
its template: then views of the template stay, and are matched with the items by position.

That is right as long as the views are for the items that there are. A change of the template that overtakes
pending splices finds views for the items of before, and binds views to the items of others. A
`LettingCourse` has no such change. In it every view is bound to one item in all its life
(`every_view_is_for_one_item`): new views are none of those before, and a view that is kept is bound to what
it has been bound to before if to anything.
-/

namespace ReactiveViews

open Machine World

/-- Whatever runs, what has been made is still there. -/
def runSetting (depth : Nat) : Setting (lasting fun _ => false) where
  calls := run depth
  calls' := run depth
  firm := runUnder_true depth ▸ firmly_runUnder _ depth
  call {c w w' r} _ h := by
    have ha : ∀ c w, sparing (fun _ => false) c w = true := fun c w => by
      unfold sparing
      split <;> rfl
    have hrun : callsSparing (fun _ => false) depth = run depth := by
      rw [callsSparing, funext fun c => funext (ha c)]
      exact runUnder_true depth
    exact ⟨ha c w, h, lasts_of_run (hrun ▸ h)⟩

/-- **Operation.** What a repeat has done, where it began, and what it came to. -/
structure RepeatOperation where
  machine : Machine Unit
  depth : Nat
  start : World
  outcome : Except Error Unit × World

/-- An operation binds views only to what a record has them for. -/
def RepeatOperation.Lets (op : RepeatOperation) (record : Roll) : Prop :=
  Machine.Lets (run op.depth) op.machine op.start record op.outcome

/-- **Tenancy.** What the views of a repeat are for: the template that they are of, and the items in
order. -/
structure Tenancy where
  template : Option TemplateId
  items : List Value

/-- What is known of it once something has ended: nothing if that has failed. -/
def tenancyAfter : Except Error Unit → Option Tenancy → Option Tenancy
  | .ok _, known => known
  | .error _, _ => none

theorem tenancyAfter_eq_some {r : Except Error Unit} {known : Option Tenancy} {t : Tenancy} :
    tenancyAfter r known = some t ↔ r = .ok () ∧ known = some t := by
  cases r <;> simp [tenancyAfter]

/-- **The course of a repeat that does not recycle**, with its operations, the latest first. A change of
its template finds the items that the views are for, if they are of that template already. -/
inductive LettingCourse (b : BehaviorId) : List RepeatOperation → Option Tenancy → World → Prop
  | start {w : World} : LettingCourse b [] none w
  /-- A batch of splices arrives. -/
  | batch {ops : List RepeatOperation} {known : Option Tenancy} {w w' : World} {s : RepeatState}
    {depth : Nat} {splices : List Splice} {r : Except Error Unit} (h : LettingCourse b ops known w)
    (hs : w.repeatState? b = some s) (hoff : s.options.recycle = false)
    (htemplate : s.template.isSome) (hbound : s.bound.isSome)
    (hk : ∀ t, known = some t → t.template = s.template)
    (hr : updateViews b splices (run depth) w = some (r, w')) :
    LettingCourse b (⟨updateViews b splices, depth, w, r, w'⟩ :: ops)
      (tenancyAfter r (known.map fun t => { t with items := Splice.replay splices t.items })) w'
  /-- The items are refreshed. In between, the pending splices have been published to the others. -/
  | items {ops : List RepeatOperation} {known : Option Tenancy} {w x w' : World} {s : RepeatState}
    {depth : Nat} {r : Except Error Unit} (h : LettingCourse b ops known x)
    (hs : w.repeatState? b = some s) (hoff : s.options.recycle = false) (hbound : s.bound.isSome)
    (hskip : skipPending b s (run depth) w = some (.ok (), x))
    (hr : refreshAllViews b false (run depth) w = some (r, w')) :
    LettingCourse b (⟨refreshAllViews b false, depth, w, r, w'⟩ :: ops)
      (tenancyAfter r (some ⟨s.template, s.due x⟩)) w'
  /-- The template is refreshed. -/
  | template {ops : List RepeatOperation} {t : Tenancy} {w x w' : World} {s : RepeatState}
    {depth : Nat} {r : Except Error Unit} (h : LettingCourse b ops (some t) x)
    (hs : w.repeatState? b = some s) (hoff : s.options.recycle = false) (hbound : s.bound.isSome)
    (hskip : skipPending b s (run depth) w = some (.ok (), x))
    (hstep : t.template = s.template → t.items = s.itemsIn x)
    (hr : refreshAllViews b true (run depth) w = some (r, w')) :
    LettingCourse b (⟨refreshAllViews b true, depth, w, r, w'⟩ :: ops)
      (tenancyAfter r (some ⟨s.template, s.due x⟩)) w'
  /-- Something happens that leaves the list of views as it is. -/
  | meanwhile {ops : List RepeatOperation} {known : Option Tenancy} {w w' : World}
    (h : LettingCourse b ops known w) (hl : w.Remains w') (hv : w'.viewsOf? b = w.viewsOf? b) :
    LettingCourse b ops known w'
  /-- Something happens to the list of views. -/
  | otherwise {ops : List RepeatOperation} {known : Option Tenancy} {w w' : World}
    (h : LettingCourse b ops known w) (hl : w.Remains w') : LettingCourse b ops none w'

/-- **Records.** All that the operations of a repeat have let is in a record, which has every view for one
item. If it is known what the views are for, they are for that by the record. -/
structure Recording (b : BehaviorId) (ops : List RepeatOperation) (known : Option Tenancy)
    (w : World) (record : Roll) : Prop where
  lets : ∀ op ∈ ops, op.Lets record
  one : ∀ e ∈ record, ∀ e' ∈ record, e.2 = e'.2 → e.1 = e'.1
  made : ∀ v ∈ record.views, v.index < w.views.size
  held : ∀ t, known = some t → ∃ held : Roll, held.items = t.items ∧
    w.viewsOf? b = some held.views ∧ held ⊆ record ∧
    ∀ v ∈ held.views, t.template = some (w.templateOf v)

namespace Recording

variable {b : BehaviorId} {ops : List RepeatOperation} {known known' : Option Tenancy}
  {w w' : World} {record roll : Roll} {t : TemplateId} {op : RepeatOperation}

/-- An operation that lets new views. -/
theorem add (h : Recording b ops known w record) (hn : w.NewViews t roll w') (hl : op.Lets roll)
    (hheld : ∀ t, known' = some t → ∃ held : Roll, held.items = t.items ∧
      w'.viewsOf? b = some held.views ∧ held ⊆ record ++ roll ∧
      ∀ v ∈ held.views, t.template = some (w'.templateOf v)) :
    Recording b (op :: ops) known' w' (record ++ roll) := by
  have hmade : ∀ e ∈ record, e.2.index < w.views.size :=
    fun e he => h.made e.2 (List.mem_map_of_mem he)
  have hfresh : ∀ e ∈ roll, w.views.size ≤ e.2.index :=
    fun e he => (hn.fresh e.2 (List.mem_map_of_mem he)).1
  refine ⟨fun op' ho => ?_, fun e he e' he' hv => ?_, fun v hv => ?_, hheld⟩
  · obtain rfl | ho := List.mem_cons.mp ho
    · exact hl.mono fun e he => List.mem_append_right _ he
    · exact (h.lets op' ho).mono fun e he => List.mem_append_left _ he
  · -- A view of before is none of the new ones, and each of these has been let once.
    obtain he | he := List.mem_append.mp he <;> obtain he' | he' := List.mem_append.mp he'
    · exact h.one e he e' he' hv
    · have hlt := hmade e he
      have hle := hfresh e' he'
      rw [hv] at hlt
      omega
    · have hlt := hmade e' he'
      have hle := hfresh e he
      rw [hv] at hle
      omega
    · exact congrArg Prod.fst (List.inj_on_of_nodup_map hn.nodup he he' hv)
  · rw [Roll.views_append] at hv
    obtain hv | hv := List.mem_append.mp hv
    · exact Nat.lt_of_lt_of_le (h.made v hv) hn.remains.size_views
    · exact (hn.fresh v hv).2

/-- An operation that lets what has been let already. -/
theorem again (h : Recording b ops known w record) (hr : w.Remains w') (hl : op.Lets roll)
    (hs : roll ⊆ record) (hheld : ∀ t, known' = some t → ∃ held : Roll, held.items = t.items ∧
      w'.viewsOf? b = some held.views ∧ held ⊆ record ∧
      ∀ v ∈ held.views, t.template = some (w'.templateOf v)) :
    Recording b (op :: ops) known' w' record := by
  refine ⟨fun op' ho => ?_, h.one, fun v hv => Nat.lt_of_lt_of_le (h.made v hv) hr.size_views, hheld⟩
  obtain rfl | ho := List.mem_cons.mp ho
  · exact hl.mono fun e he => hs he
  · exact h.lets op' ho

/-- **A batch arrives.** -/
theorem batch {s : RepeatState} {depth : Nat} {splices : List Splice} {r : Except Error Unit}
    (h : Recording b ops known w record) (hs : w.repeatState? b = some s)
    (hoff : s.options.recycle = false) (htemplate : s.template.isSome) (hbound : s.bound.isSome)
    (hk : ∀ t, known = some t → t.template = s.template)
    (hr : updateViews b splices (run depth) w = some (r, w')) :
    ∃ record, Recording b (⟨updateViews b splices, depth, w, r, w'⟩ :: ops)
      (tenancyAfter r (known.map fun t => { t with items := Splice.replay splices t.items })) w'
      record := by
  obtain ⟨template, htemplate⟩ := Option.isSome_iff_exists.mp htemplate
  obtain ⟨bound, hbound⟩ := Option.isSome_iff_exists.mp hbound
  obtain ⟨roll, hl, hnew, hrolls⟩ :=
    updateViews_letting (S := runSetting depth) hs hoff htemplate hbound splices r w' hr
  refine ⟨record ++ roll, h.add hnew hl fun t ht => ?_⟩
  obtain ⟨rfl, hmap⟩ := tenancyAfter_eq_some.mp ht
  obtain ⟨t, rfl, rfl⟩ := Option.map_eq_some_iff.mp hmap
  obtain ⟨held, hitems, hviews, hsub, ht⟩ := h.held t rfl
  obtain ⟨_, hs', hv⟩ := viewsOf?_eq_some.mp hviews
  obtain rfl := Option.some.inj (hs.symm.trans hs')
  obtain ⟨held', hseats, hviews', hmem⟩ := hrolls rfl held hv.symm
  refine ⟨held', by rw [hseats.items, hitems], hviews', fun e he => ?_, fun v hv => ?_⟩
  · exact List.mem_append.mpr ((hmem e he).imp_left (hsub ·))
  · obtain ⟨e, he, rfl⟩ := List.mem_map.mp hv
    obtain he | he := hmem e he
    · have hlt := h.made e.2 (List.mem_map_of_mem (hsub he))
      rw [hnew.remains.templateOf hlt]
      exact ht e.2 (List.mem_map_of_mem he)
    · rw [hnew.template e.2 (List.mem_map_of_mem he), hk t rfl, htemplate]

/-- **All views are made anew.** -/
theorem anew {x : World} {s sx : RepeatState} {depth : Nat} {templateChanged : Bool}
    {r : Except Error Unit} (h : Recording b ops known x record) (hs : w.repeatState? b = some s)
    (hbound : s.bound.isSome) (hskip : skipPending b s (run depth) w = some (.ok (), x))
    (hx : x.repeatState? b = some sx)
    (hk : ∀ t, s.template = some t → ∀ w₁, x.Remains w₁ → ∀ v ∈ sx.views,
      (!(!s.options.recycle && !templateChanged) && w₁.templateOf v == t) = false)
    (hr : refreshAllViews b templateChanged (run depth) w = some (r, w')) :
    ∃ record, Recording b (⟨refreshAllViews b templateChanged, depth, w, r, w'⟩ :: ops)
      (tenancyAfter r (some ⟨s.template, s.due x⟩)) w' record := by
  obtain ⟨bound, hbound⟩ := Option.isSome_iff_exists.mp hbound
  have htaken : x.Remains (x.setViews b []) :=
    remains_of_agrees (S := runSetting depth) (m := putViews b []) rfl
  obtain ⟨roll, hl, views, w₁, ⟨_, outcome, t, ⟨⟩, hnew, ho⟩, hr₁, hviews⟩ :=
    refreshAllViews_letting (S := runSetting depth) hs hbound hskip hx
      (rebuild_anew fun t ht w₁ h₁ => hk t ht w₁ (htaken.trans h₁))
      (by
        rintro roll r w₁ ⟨views, outcome, _, hr, hnew, _⟩
        exact ⟨views, outcome, hr, htaken.trans hnew.remains⟩)
      r w' hr
  have hnew' : x.NewViews t roll w' := .since htaken (hnew.later hr₁)
  refine ⟨record ++ roll, h.add hnew' hl fun known hknown => ?_⟩
  obtain ⟨rfl, hknown⟩ := tenancyAfter_eq_some.mp hknown
  obtain rfl := Option.some.inj hknown
  obtain ⟨hitems, rfl, htemplate⟩ := ho rfl
  refine ⟨roll, hitems, hviews, fun e he => List.mem_append_right _ he, fun v hv => ?_⟩
  have hne : roll ≠ [] := by
    rintro rfl
    exact absurd hv List.not_mem_nil
  rw [hnew'.template v hv]
  exact htemplate hne

/-- **All views are kept.** -/
theorem kept {x : World} {s sx : RepeatState} {depth : Nat} {r : Except Error Unit} {known : Tenancy}
    {template : TemplateId} (h : Recording b ops (some known) x record)
    (hs : w.repeatState? b = some s) (hbound : s.bound.isSome)
    (hskip : skipPending b s (run depth) w = some (.ok (), x)) (hx : x.repeatState? b = some sx)
    (htemplate : s.template = some template) (hsame : known.template = s.template)
    (hstep : known.items = s.itemsIn x)
    (hr : refreshAllViews b true (run depth) w = some (r, w')) :
    ∃ record, Recording b (⟨refreshAllViews b true, depth, w, r, w'⟩ :: ops)
      (tenancyAfter r (some ⟨s.template, s.due x⟩)) w' record := by
  obtain ⟨bound, hbound⟩ := Option.isSome_iff_exists.mp hbound
  obtain ⟨held, hitems, hviews, hsub, ht⟩ := h.held known rfl
  obtain ⟨_, hx', hv⟩ := viewsOf?_eq_some.mp hviews
  obtain rfl := Option.some.inj (hx.symm.trans hx')
  have htaken : x.Remains (x.setViews b []) :=
    remains_of_agrees (S := runSetting depth) (m := putViews b []) rfl
  have hmade : ∀ v ∈ held.views, v.index < x.views.size := fun v hm =>
    h.made v (List.map_subset _ hsub hm)
  have hof : ∀ v ∈ held.views, x.templateOf v = template := fun v hm => by
    have hone := (ht v hm).symm.trans (hsame.trans htemplate)
    exact Option.some.inj hone
  have hrebuild := rebuild_kept (S := runSetting depth) (w := x.setViews b [])
    (s := s) held bound.childContext htemplate
    (fun v hm => ⟨hmade v hm, (htaken.templateOf (hmade v hm)).trans (hof v hm)⟩)
    (hitems.trans hstep)
  rw [← hv] at hrebuild
  obtain ⟨roll, hl, views, w₁, ⟨_, outcome, ⟨⟩, hsub', hr₁, ho⟩, hr₂, hviews'⟩ :=
    refreshAllViews_letting (S := runSetting depth) hs hbound hskip hx hrebuild
      (by
        rintro roll r w₁ ⟨views, outcome, hr, _, hrem, _⟩
        exact ⟨views, outcome, hr, htaken.trans hrem⟩)
      r w' hr
  have hremains : x.Remains w' := (htaken.trans hr₁).trans hr₂
  refine ⟨record, h.again hremains hl (fun e he => hsub (hsub' he)) fun t htenancy => ?_⟩
  obtain ⟨rfl, hknown⟩ := tenancyAfter_eq_some.mp htenancy
  obtain rfl := Option.some.inj hknown
  refine ⟨held, ?_, ?_, hsub, fun v hm => ?_⟩
  · rw [hitems, hstep, RepeatState.due, RepeatState.itemsIn, htemplate]
    cases s.items <;> rfl
  · rw [hviews', ho rfl, hv]
  · rw [hremains.templateOf (hmade v hm), hof v hm, htemplate]

/-- Views of another template are not kept. -/
theorem differs {x : World} {s sx : RepeatState} {known : Tenancy}
    (h : Recording b ops (some known) x record) (hx : x.repeatState? b = some sx)
    (hsame : known.template ≠ s.template) (t : TemplateId) (ht : s.template = some t) (w₁ : World)
    (h₁ : x.Remains w₁) (v : ViewId) (hv : v ∈ sx.views) :
    (!(!s.options.recycle && !true) && w₁.templateOf v == t) = false := by
  obtain ⟨held, -, hviews, hsub, hof⟩ := h.held known rfl
  obtain ⟨_, hx', he⟩ := viewsOf?_eq_some.mp hviews
  obtain rfl := Option.some.inj (hx.symm.trans hx')
  rw [he] at hv
  have hne : x.templateOf v ≠ t := fun heq => hsame ((hof v hv).trans (heq ▸ ht.symm))
  rw [h₁.templateOf (h.made v (List.map_subset _ hsub hv))]
  simpa using hne

theorem meanwhile (h : Recording b ops known w record) (hl : w.Remains w')
    (hv : w'.viewsOf? b = w.viewsOf? b) : Recording b ops known w' record := by
  refine ⟨h.lets, h.one, fun v hm => Nat.lt_of_lt_of_le (h.made v hm) hl.size_views, fun t ht => ?_⟩
  obtain ⟨held, hitems, hviews, hsub, hof⟩ := h.held t ht
  refine ⟨held, hitems, hv.trans hviews, hsub, fun v hm => ?_⟩
  rw [hl.templateOf (h.made v (List.map_subset _ hsub hm))]
  exact hof v hm

end Recording

/-- **The views of a repeat that does not recycle have a record.** -/
theorem LettingCourse.recording {b : BehaviorId} {ops : List RepeatOperation}
    {known : Option Tenancy} {w : World} (h : LettingCourse b ops known w) :
    ∃ record, Recording b ops known w record := by
  -- Skipping the pending splices leaves a repeat a repeat.
  have hskipped : ∀ {w x : World} {s : RepeatState} {depth : Nat}, w.repeatState? b = some s →
      skipPending b s (run depth) w = some (.ok (), x) → ∃ sx, x.repeatState? b = some sx := by
    intro w x s depth hs hskip
    have hr : w.Remains x := (Setting.skipPending_agreesAt (S := runSetting depth) trivial
      (lt_of_repeated (behavior_of_repeatState? hs)) (takes_splices hs) s _ _ hskip).2.1
    exact repeatState?_of_lasts hr hs
  induction h with
  | start => exact ⟨[], by simp, by simp, by simp [Roll.views], by simp⟩
  | batch _ hs hoff htemplate hbound hk hr ih =>
    obtain ⟨record, ih⟩ := ih
    exact ih.batch hs hoff htemplate hbound hk hr
  | items _ hs hoff hbound hskip hr ih =>
    obtain ⟨record, ih⟩ := ih
    obtain ⟨sx, hx⟩ := hskipped hs hskip
    exact ih.anew hs hbound hskip hx (fun _ _ _ _ _ _ => by simp [hoff]) hr
  | @template ops t w x w' s depth r _ hs hoff hbound hskip hstep hr ih =>
    obtain ⟨record, ih⟩ := ih
    obtain ⟨sx, hx⟩ := hskipped hs hskip
    obtain hnone | ⟨u, hu⟩ := Option.eq_none_or_eq_some s.template
    · exact ih.anew hs hbound hskip hx (fun u hu => absurd (hnone.symm.trans hu) (by simp)) hr
    by_cases hsame : t.template = s.template
    · exact ih.kept hs hbound hskip hx hu hsame (hstep hsame) hr
    · exact ih.anew hs hbound hskip hx (ih.differs hx hsame) hr
  | meanwhile _ hl hv ih =>
    obtain ⟨record, ih⟩ := ih
    exact ⟨record, ih.meanwhile hl hv⟩
  | otherwise _ hl ih =>
    obtain ⟨record, ih⟩ := ih
    exact ⟨record, ih.lets, ih.one, fun v hv => Nat.lt_of_lt_of_le (ih.made v hv) hl.size_views, by simp⟩

/-- **Every view is for one item.** All that a repeat that does not recycle binds its views to is in a record that has
each of them for one item. -/
theorem every_view_is_for_one_item {b : BehaviorId} {ops : List RepeatOperation}
    {known : Option Tenancy} {w : World} (h : LettingCourse b ops known w) :
    ∃ record : Roll, (∀ op ∈ ops, op.Lets record) ∧
      ∀ v x y, (x, v) ∈ record → (y, v) ∈ record → x = y := by
  obtain ⟨record, hr⟩ := h.recording
  exact ⟨record, hr.lets, fun v x y hx hy => hr.one (x, v) hx (y, v) hy rfl⟩

/-! A repeat over an array of one item, which does not recycle. -/

/-- The repeat is bound, knows its array and its template, and nobody tells it of splices. -/
def World.isKeeping (w : World) : Bool :=
  (w.repeatState? ⟨0⟩).any fun s => !s.options.recycle && s.bound.isSome &&
    decide (s.template = some ⟨0⟩) && decide (s.items = some ⟨0⟩) && s.itemsNotifier.isNone

theorem World.exists_of_isKeeping {w : World} (h : w.isKeeping) : ∃ s, w.repeatState? ⟨0⟩ = some s ∧
    s.options.recycle = false ∧ s.bound.isSome ∧ s.template = some ⟨0⟩ ∧ s.items = some ⟨0⟩ ∧
    ∀ calls, skipPending ⟨0⟩ s calls w = some (.ok (), w) := by
  obtain ⟨s, hs, h⟩ := (Option.any_eq_true _ _).mp h
  simp only [Bool.and_eq_true, Bool.not_eq_true', decide_eq_true_eq, Option.isNone_iff_eq_none] at h
  obtain ⟨⟨⟨⟨hoff, hbound⟩, htemplate⟩, hitems⟩, hnone⟩ := h
  refine ⟨s, hs, hoff, hbound, htemplate, hitems, fun calls => ?_⟩
  rw [skipPending, hitems, hnone]
  rfl

def keepingRepeat : World :=
  { World.empty with
    arrays := ⟨#[⟨[.bool true], none⟩]⟩
    document := ⟨#[.ofContent .fragment, .ofContent .fragment]⟩
    contexts := ⟨#[default]⟩
    templates := ⟨#[⟨⟨0⟩, []⟩]⟩
    behaviors := ⟨#[⟨.repeated
      { location := ⟨1⟩, options := { recycle := false }, itemsObserver := ⟨0⟩
        templateObserver := ⟨0⟩, bound := some ⟨.null, ⟨0⟩, ⟨0⟩⟩, items := some ⟨0⟩
        itemsNotifier := none, template := some ⟨0⟩, views := [] }, true⟩]⟩ }

/-- The array that another item has been put into. -/
def World.prefixed (w : World) : World :=
  { w with arrays := ⟨#[⟨[.text "x", .bool true], none⟩]⟩ }

/-- The items are shown, another one is put in front, and the template is refreshed. -/
theorem refreshed_views_are_for_one_item : ∃ ops known w, LettingCourse ⟨0⟩ ops known w ∧
    ops.length = 3 ∧ ∃ record : Roll, (∀ op ∈ ops, op.Lets record) ∧
      ∀ v x y, (x, v) ∈ record → (y, v) ∈ record → x = y := by
  have hruns : (refreshAllViews ⟨0⟩ false (run 3) keepingRepeat).any (fun x =>
      x.1.isOk && x.2.prefixed.isKeeping &&
        (updateViews ⟨0⟩ [⟨0, [], [.text "x"]⟩] (run 3) x.2.prefixed).any fun y =>
          y.1.isOk && y.2.prefixed.isKeeping && (refreshAllViews ⟨0⟩ true (run 3)
            y.2.prefixed).any fun z => z.1.isOk) = true := by
    decide +kernel
  obtain ⟨⟨r₁, w₁⟩, h₁, hruns⟩ := (Option.any_eq_true _ _).mp hruns
  simp only [Bool.and_eq_true] at hruns
  obtain ⟨⟨hr₁, hp₁⟩, hruns⟩ := hruns
  obtain ⟨⟨r₂, w₂⟩, h₂, hruns⟩ := (Option.any_eq_true _ _).mp hruns
  simp only [Bool.and_eq_true] at hruns
  obtain ⟨⟨hr₂, hp₂⟩, hruns⟩ := hruns
  obtain ⟨⟨r₃, w₃⟩, h₃, hr₃⟩ := (Option.any_eq_true _ _).mp hruns
  have hok : ∀ {r : Except Error Unit}, r.isOk = true → r = .ok () := by
    intro r hr
    cases r with
    | ok => rfl
    | error => exact absurd hr (by simp [Except.isOk, Except.toBool])
  obtain rfl := hok hr₁
  obtain rfl := hok hr₂
  obtain ⟨s₁, hs₁, hoff₁, hbound₁, htemplate₁, hitems₁, -⟩ := exists_of_isKeeping hp₁
  obtain ⟨s₂, hs₂, hoff₂, hbound₂, htemplate₂, hitems₂, hskip₂⟩ := exists_of_isKeeping hp₂
  have hshown := LettingCourse.items .start (w := keepingRepeat) rfl rfl rfl rfl h₁
  have hmean : ∀ {ops known} {x : World}, LettingCourse ⟨0⟩ ops known x →
      LettingCourse ⟨0⟩ ops known x.prefixed := fun h => h.meanwhile (.of_eq rfl rfl) rfl
  have hbatch := (hmean hshown).batch hs₁ hoff₁ (htemplate₁ ▸ rfl) hbound₁ (fun t ht => ?_) h₂
  have hcourse := (hmean hbatch).template hs₂ hoff₂ hbound₂ (hskip₂ _) (fun _ => ?_) h₃
  · exact ⟨_, _, w₃, hcourse, rfl, every_view_is_for_one_item hcourse⟩
  · rw [RepeatState.itemsIn, hitems₂]
    rfl
  · rw [htemplate₁, ← Option.some.inj ht]

end ReactiveViews
