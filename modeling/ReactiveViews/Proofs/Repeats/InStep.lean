import ReactiveViews.Proofs.Repeats.Seats
/-!
# Repeats in step with their items

A full refresh that comes to its end gives every item a view, whatever views there were
before. From then on splices keep the views in step with the items, batch by batch, as long as
no item fails (`repeat_in_step`).

An item that fails ends the batch where it is: what is left of the splice and the splices
after it are never carried out, and later splices meet views that they were not meant for. The
next full refresh that comes to its end puts that right.
-/

namespace ReactiveViews

open Machine

/-- What is known of the items once something has ended: nothing if it has failed. -/
def knownAfter : Except Error Unit → Option (List Value) → Option (List Value)
  | .ok _, known => known
  | .error _, _ => none

theorem knownAfter_eq_some {outcome : Except Error Unit} {known : Option (List Value)}
    {items : List Value} :
    knownAfter outcome known = some items ↔ outcome = .ok () ∧ known = some items := by
  cases outcome <;> simp [knownAfter]

/-- The items that views are due for. Without a template there are none. -/
def RepeatState.due (s : RepeatState) (w : World) : List Value :=
  match s.template, s.items with
  | some _, some a => w.itemsOf a
  | _, _ => []

namespace World

/-- The world in which a repeat has some views. -/
def setViews (w : World) (b : BehaviorId) (views : List ViewId) : World :=
  { w with behaviors := w.behaviors.modify b fun c => { c with behavior := match c.behavior with
      | .repeated s => .repeated { s with views }
      | other => other } }

variable {spared : ViewId → Bool} {b : BehaviorId} {s : RepeatState} {w w' : World}

theorem repeatState?_setViews (hs : w.repeatState? b = some s) (views : List ViewId) :
    (w.setViews b views).repeatState? b = some { s with views } := by
  have hb := behavior_of_repeatState? hs
  rw [behavior] at hb
  simp only [repeatState?, behavior, setViews, Store.get_modify, if_true, hb]

/-- A repeat stays a repeat. -/
theorem repeatState?_of_lasts (h : w.Lasts spared w') (hs : w.repeatState? b = some s) :
    ∃ s', w'.repeatState? b = some s' := by
  have hb := behavior_of_repeatState? hs
  have hl := h.behavior (lt_of_repeated hb)
  rw [hb] at hl
  cases hb' : w'.behavior b with
  | repeated s' => exact ⟨s', by rw [repeatState?, hb']⟩
  | binding | handler | probe =>
    rw [hb'] at hl
    exact absurd hl nofun

/-- **Presenting.** A repeat lists its views once each. Where it is known what items they are for,
there is one for each of them, and those that are spared are bound to it. -/
def Presents (spared : ViewId → Bool) (b : BehaviorId) (known : Option (List Value)) (w : World) :
    Prop :=
  ∃ s, w.repeatState? b = some s ∧ w.Tidy s.views ∧
    ∀ items, known = some items → ∃ roll : Roll, roll.items = items ∧ roll.views = s.views ∧
      w.Seated spared roll

/-- The views that a repeat lists. -/
def viewsOf? (w : World) (b : BehaviorId) : Option (List ViewId) :=
  (w.repeatState? b).map (·.views)

theorem viewsOf?_eq_some {views : List ViewId} :
    w.viewsOf? b = some views ↔ ∃ s, w.repeatState? b = some s ∧ s.views = views :=
  Option.map_eq_some_iff

end World

namespace Setting.Around

open World

variable {spared : ViewId → Bool} {depth : Nat} {b : BehaviorId} {s : RepeatState} {w : World}

theorem takeViews_apply (hs : w.repeatState? b = some s) (calls : Calls) :
    takeViews b calls w = some (.ok s.views, w.setViews b []) := by
  unfold takeViews
  rw [bind_apply, read_apply, hs]
  rfl

/-- Views are put back into a repeat, and then it is told how it ended. -/
theorem putViews_leads {views : List ViewId} {outcome : Except Error Unit}
    (hs : w.repeatState? b = some s) :
    (aroundSetting spared depth).Leads (do
        putViews b views
        Machine.ofExcept outcome) w fun r w' =>
      r = outcome ∧ w'.repeatState? b = some { s with views } ∧ w'.views = w.views := by
  have hput : ∀ calls, putViews b views calls w = some (.ok (), w.setViews b views) :=
    fun _ => rfl
  refine .step hput ?_
  cases outcome with
  | ok u => exact .of_eq (fun _ => rfl) ⟨rfl, repeatState?_setViews hs views, rfl⟩
  | error e => exact .of_eq (fun _ => rfl) ⟨rfl, repeatState?_setViews hs views, rfl⟩

/-- The views of a repeat are put back into it, whatever has happened to it meanwhile. -/
theorem putViews_presents {w₁ : World} {views : List ViewId} {outcome : Except Error Unit}
    {known : Option (List Value)} (hs : w.repeatState? b = some s)
    (hl : w.Lasts (fun _ => false) w₁) (ht : w₁.Tidy views)
    (hout : ∀ items, knownAfter outcome known = some items →
      ∃ roll : Roll, roll.items = items ∧ roll.views = views ∧ w₁.Seated spared roll) :
    (aroundSetting spared depth).Leads (do
        putViews b views
        Machine.ofExcept outcome) w₁ fun r w' => Presents spared b (knownAfter r known) w' := by
  obtain ⟨s₁, hs₁⟩ := repeatState?_of_lasts hl hs
  refine (putViews_leads hs₁).mono ?_
  rintro r w' ⟨rfl, hs', hw'⟩
  have hk : Keeps spared views w₁ w' := .of_eq hw'
  refine ⟨_, hs', ht.later hk.size, fun items hi => ?_⟩
  obtain ⟨roll, hitems, rfl, hseated⟩ := hout items hi
  exact ⟨roll, hitems, rfl, hseated.keeps hk⟩

/-! ## Batches -/

/-- **A batch arrives.** Its splices are carried out on the items that there are views for. -/
theorem updateViews_leads {known : Option (List Value)} (h : Presents spared b known w)
    (hs : w.repeatState? b = some s) (htemplate : s.template.isSome) (hbound : s.bound.isSome)
    (splices : List Splice) :
    (aroundSetting spared depth).Leads (updateViews b splices) w fun r w' =>
      Presents spared b (knownAfter r (known.map (Splice.replay splices))) w' := by
  obtain ⟨template, htemplate⟩ := Option.isSome_iff_exists.mp htemplate
  obtain ⟨bound, hbound⟩ := Option.isSome_iff_exists.mp hbound
  obtain ⟨_, hs', ht, hknown⟩ := h
  obtain rfl := Option.some.inj (hs.symm.trans hs')
  unfold updateViews
  refine Leads.step (fun _ => rfl) ?_
  rw [hs]
  dsimp only
  rw [htemplate, hbound]
  refine .step (takeViews_apply hs) ?_
  have hs₀ := repeatState?_setViews hs []
  have ht₀ : (w.setViews b []).Tidy ([] ++ s.views) := ⟨ht.nodup, ht.made⟩
  refine ((applySplices_leads ht₀ s template bound.childContext _).and
    (Agrees.agreesAt trivial)).bind (fun e _ ⟨⟨_, _, _, h, _⟩, _⟩ => absurd h nofun) ?_
  rintro _ w₁ ⟨⟨withdrawn, views, outcome, ⟨⟩, ht₁, hout⟩, hl₁, -⟩
  have hd : ∀ v ∈ withdrawn, v ∉ views := fun v hv hm =>
    (List.nodup_append.mp ht₁.nodup).2.2 v hv v hm rfl
  have hviews : w₁.Tidy views := ht₁.sublist (List.sublist_append_right withdrawn views)
  refine ((eachView_held_leads disposeView_leads hd hviews.made _).and
    (Agrees.agreesAt trivial)).bind (fun e _ h => absurd h.1.1 nofun) fun _ w₂ h₂ => ?_
  obtain ⟨⟨-, hk₂⟩, hl₂, -⟩ := h₂
  -- Contexts may be positioned before the views are put back; they stay bound to what they were.
  have hput : ∀ w₃, Keeps spared views w₁ w₃ → w₁.Lasts (fun _ => false) w₃ →
      (aroundSetting spared depth).Leads (do
          putViews b views
          Machine.ofExcept outcome) w₃ fun r w' =>
        Presents spared b (knownAfter r (known.map (Splice.replay splices))) w' := by
    intro w₃ hk₃ hl₃
    refine putViews_presents hs₀ (hl₁.trans hl₃) (hviews.later hk₃.size) fun items hi => ?_
    obtain ⟨rfl, hmap⟩ := knownAfter_eq_some.mp hi
    obtain ⟨before, hbefore, rfl⟩ := Option.map_eq_some_iff.mp hmap
    obtain ⟨roll, rfl, hroll, hseated⟩ := hknown before hbefore
    obtain ⟨roll', hseats, hroll', hseated'⟩ := hout rfl roll hroll hseated
    exact ⟨roll', hseats.items, hroll', hseated'.keeps (hroll' ▸ hk₃)⟩
  dsimp only
  split
  · have hm₂ := (hviews.later hk₂.size).made
    refine (apart_leads w₂).bind (fun e _ h => absurd h.1 (by simp)) fun _ w₃ h₃ => ?_
    exact hput w₃ (hk₂.trans (.of_lasts h₃.2 hm₂)) (hl₂.trans (h₃.2.fewer nofun))
  · exact hput w₂ hk₂ hl₂

/-! ## Full refreshes -/

/-- Views that are not kept are disposed of. -/
theorem retainViews_leads (keep : World → ViewId → Bool) {views : List ViewId}
    (hm : ∀ v ∈ views, v.index < w.views.size) :
    (aroundSetting spared depth).Leads (retainViews keep views) w fun r w' =>
      ∃ kept, r = .ok kept ∧ kept.Sublist views ∧ w.views.size ≤ w'.views.size := by
  induction views generalizing w with
  | nil => exact .of_eq (fun _ => rfl) ⟨[], rfl, .slnil, Nat.le_refl _⟩
  | cons v views ih =>
    have hviews := fun u hu => hm u (List.mem_cons_of_mem _ hu)
    unfold retainViews
    refine Leads.step (fun _ => rfl) ?_
    split
    · refine (ih hviews).bind (fun e _ ⟨_, h, _⟩ => absurd h nofun) ?_
      rintro kept w₁ ⟨_, ⟨⟩, hs, hsize⟩
      exact .of_eq (fun _ => rfl) ⟨v :: kept, rfl, hs.cons_cons v, hsize⟩
    · refine (disposeView_leads v w).bind (fun e _ h => absurd h.1 nofun) fun _ w₁ h₁ => ?_
      refine (ih fun u hu => Nat.lt_of_lt_of_le (hviews u hu) h₁.2.size_views).mono ?_
      rintro r w' ⟨kept, rfl, hs, hsize⟩
      exact ⟨kept, rfl, hs.cons v, Nat.le_trans h₁.2.size_views hsize⟩

/-- A view that is there is brought to an item. -/
theorem refreshView_leads {v : ViewId} {views : List ViewId} (hv : v.index < w.views.size)
    (hn : v ∉ views) (hm : ∀ u ∈ views, u.index < w.views.size) (item : Value)
    (childContext : ContextId) (index length : Nat) :
    (aroundSetting spared depth).Leads (refreshView v item childContext index length) w
      (Showing spared views w v item) := by
  unfold refreshView
  refine Leads.read ?_
  extract_lets shows
  split
  · next context _ hshows =>
    refine (apart_leads w).mono fun r w' h => ⟨.of_lasts h.2 hm, fun _ hs => ?_⟩
    obtain ⟨source, hsource, hsame⟩ : ∃ source, (w.views.get v).source = some source ∧
        source.same item = true := by
      unfold shows at hshows
      split at hshows
      · next source hsource => exact ⟨source, hsource, hshows⟩
      · exact absurd hshows Bool.false_ne_true
    exact ⟨source, by rw [h.2.spared hs hv, hsource], .inr hsame⟩
  · refine (apart_leads w).bind (fun e _ h => absurd h.1 (by simp)) fun context w₁ h₁ => ?_
    have hk : Keeps spared views w w₁ := .of_lasts h₁.2 hm
    have hm₁ : ∀ u ∈ views, u.index < w₁.views.size :=
      fun u hu => Nat.lt_of_lt_of_le (hm u hu) hk.size
    exact (rebind_leads (Nat.lt_of_lt_of_le hv hk.size) hn hm₁ item context).mono
      fun r w' h => ⟨hk.trans h.1, h.2⟩

/-- A view is made for an item. -/
theorem makeView_leads (views : List ViewId) (hm : ∀ u ∈ views, u.index < w.views.size)
    (location : NodeId) (template : TemplateId) (item : Value) (childContext : ContextId)
    (index length : Nat) :
    (aroundSetting spared depth).Leads (do
        let context ← itemContext childContext index length
        let v ← createView template
        Machine.call (.bindView v item context)
        insertViewBefore v location
        return v) w fun r w' =>
      Keeps spared views w w' ∧ ∀ v, r = .ok v → v ∉ views ∧ v.index < w'.views.size ∧
        (spared v → w'.ShowsItem item v) := by
  refine (apart_leads w).bind (fun e _ h => absurd h.1 (by simp)) fun context w₁ h₁ => ?_
  have hk₁ : Keeps spared views w w₁ := .of_lasts h₁.2 hm
  have hm₁ : ∀ u ∈ views, u.index < w₁.views.size :=
    fun u hu => Nat.lt_of_lt_of_le (hm u hu) hk₁.size
  have hcreated : ∀ {w₂ : World}, World.Created w₁ w₂ → Keeps spared views w w₂ :=
    fun h => hk₁.trans (.of_lasts (.of_created h) hm₁)
  refine (createView_leads template w₁).bind (fun e w₂ h => ⟨hcreated h.1, nofun⟩)
    fun v w₂ h₂ => ?_
  obtain ⟨hi, hv⟩ := h₂.2 v rfl
  have hk₂ := hcreated h₂.1
  have hm₂ : ∀ u ∈ views, u.index < w₂.views.size :=
    fun u hu => Nat.lt_of_lt_of_le (hm u hu) hk₂.size
  have hn : v ∉ views := fun hmem => absurd (hm₁ v hmem) (by omega)
  refine (bindView_leads hv item context).bind
    (fun e w₃ h => ⟨hk₂.trans (.of_but h.1 hn hm₂), nofun⟩) fun _ w₃ h₃ => ?_
  have hk₃ := hk₂.trans (.of_but h₃.1 hn hm₂)
  have hv₃ : v.index < w₃.views.size := Nat.lt_of_lt_of_le hv h₃.1.size_views
  have hm₃ : ∀ u ∈ views, u.index < w₃.views.size :=
    fun u hu => Nat.lt_of_lt_of_le (hm u hu) hk₃.size
  refine (apart_leads w₃).bind (fun e _ h => absurd h.1 (by simp)) fun _ w₄ h₄ => ?_
  refine .of_eq (fun _ => rfl) ⟨hk₃.trans (.of_lasts h₄.2 hm₃), ?_⟩
  rintro _ ⟨⟩
  refine ⟨hn, Nat.lt_of_lt_of_le hv₃ h₄.2.size_views, fun hs => ?_⟩
  simpa only [ShowsItem, h₄.2.spared hs hv₃] using h₃.2 rfl hs

/-- What matching views to items comes to: the views before are followed by a view for each item, if
no item fails. -/
def Matching (spared : ViewId → Bool) (done : List ViewId) (w : World) (items : List Value)
    (r : Except Error (List ViewId × Except Error Unit)) (w' : World) : Prop :=
  ∃ views outcome, r = .ok (views, outcome) ∧ w'.Tidy views ∧ Keeps spared done w w' ∧
    (outcome = .ok () → ∃ added : Roll, added.items = items ∧ w'.Seated spared added ∧
      views = done.reverse ++ added.views)

/-- One more view has been matched to an item. -/
theorem Matching.cons {done : List ViewId} {v : ViewId} {item : Value} {items : List Value}
    {w₁ w' : World} {r : Except Error (List ViewId × Except Error Unit)}
    (hk : Keeps spared done w w₁) (hs : spared v → w₁.ShowsItem item v)
    (h : Matching spared (v :: done) w₁ items r w') : Matching spared done w (item :: items) r w' := by
  obtain ⟨views, outcome, rfl, ht, hk', hout⟩ := h
  refine ⟨views, outcome, rfl, ht, hk.trans (hk'.mono fun u hu => by simp [hu]), fun ho => ?_⟩
  obtain ⟨added, hitems, hseated, rfl⟩ := hout ho
  have hfirst : w'.Seated spared [(item, v)] := by
    have hv : w₁.Seated spared [(item, v)] := by
      intro entry he
      obtain rfl := List.mem_singleton.mp he
      exact hs
    exact hv.keeps (hk'.mono fun u hu => by simp_all [Roll.views])
  refine ⟨(item, v) :: added, by rw [← hitems]; rfl, hfirst.append hseated, ?_⟩
  simp [Roll.views]

/-- **Views are matched to items.** -/
theorem matchViews_leads {index : Nat} {done views : List ViewId} {items : List Value}
    (h : w.Tidy (done ++ views)) (location : NodeId) (template : TemplateId)
    (childContext : ContextId) (length : Nat) :
    (aroundSetting spared depth).Leads
      (matchViews location template childContext length index done items views) w
      (Matching spared done w items) := by
  induction items generalizing index done views w with
  | nil =>
    have hd : ∀ v ∈ views, v ∉ done := fun v hv hm =>
      (List.nodup_append.mp h.nodup).2.2 v hm v hv rfl
    have hm : ∀ v ∈ done, v.index < w.views.size := fun v hv =>
      h.made v (List.mem_append_left _ hv)
    have hdone : w.Tidy done.reverse :=
      (h.sublist (List.sublist_append_left ..)).perm (List.reverse_perm done)
    unfold matchViews
    refine (eachView_held_leads disposeView_leads hd hm _).bind (fun e _ h => absurd h.1 nofun)
      fun _ w₁ h₁ => ?_
    refine .of_eq (fun _ => rfl) ⟨_, _, rfl, hdone.later h₁.2.size, h₁.2, fun _ => ?_⟩
    exact ⟨[], rfl, nofun, by simp [Roll.views]⟩
  | cons item items ih =>
    cases views with
    | cons v views =>
      have hp : (v :: done ++ views).Perm (done ++ v :: views) := List.perm_middle.symm
      have ht : w.Tidy (v :: done ++ views) := h.perm hp
      have hn : v ∉ done := fun hm =>
        (List.nodup_cons.mp ht.nodup).1 (List.mem_append_left views hm)
      have hm : ∀ u ∈ done, u.index < w.views.size := fun u hu => h.made u (by simp [hu])
      unfold matchViews
      refine (held_leads (refreshView_leads ?made hn ?others item childContext index
        length)).attempt_bind fun outcome w₁ h₁ => ?_
      case made => exact h.made v (by simp)
      case others => exact hm
      cases outcome with
      | ok u => exact (ih (ht.later h₁.1.size)).mono fun _ _ => .cons h₁.1 (h₁.2 rfl)
      | error e =>
        have hall : w.Tidy (done.reverse ++ v :: views) :=
          h.perm ((List.reverse_perm done).append_right _)
        exact .of_eq (fun _ => rfl) ⟨_, _, rfl, hall.later h₁.1.size, h₁.1, nofun⟩
    | nil =>
      rw [List.append_nil] at h
      unfold matchViews
      refine (Leads.within (makeView_leads done ?made location template item childContext index
        length)).attempt_bind fun outcome w₁ h₁ => ?_
      case made => exact h.made
      obtain ⟨w₂, rfl, hk₂, hv⟩ := h₁
      have hk : Keeps spared done w { w₂ with held := w.held } := ⟨hk₂.size, hk₂.view⟩
      cases outcome with
      | ok v =>
        obtain ⟨hn, hmade, hs⟩ := hv v rfl
        refine (ih ⟨?_, ?_⟩).mono fun _ _ => .cons hk hs
        · simpa using ⟨hn, h.nodup⟩
        · intro u hu
          rcases List.mem_cons.mp (by simpa using hu) with rfl | hu
          · exact hmade
          · exact (h.later hk.size).made u hu
      | error e =>
        have hm := (h.later hk.size).made
        refine (apart_leads _).bind (fun e _ h => absurd h.1 (by simp)) fun _ w₃ h₃ => ?_
        have hk₃ := hk.trans (.of_lasts h₃.2 hm)
        exact .of_eq (fun _ => rfl)
          ⟨_, _, rfl, (h.perm (List.reverse_perm done)).later hk₃.size, hk₃, nofun⟩

/-- The views that are there are rebuilt for the items that views are due for. -/
theorem rebuild_leads {views : List ViewId} (ht : w.Tidy views) (s : RepeatState)
    (childContext : ContextId) (templateChanged : Bool) :
    (aroundSetting spared depth).Leads (rebuild s childContext templateChanged views) w
      (Matching spared [] w (s.due w)) := by
  unfold rebuild
  cases htemplate : s.template with
  | none =>
    have hnone : ∀ v ∈ ([] : List ViewId), v.index < w.views.size := by simp
    refine (eachView_leads disposeView_leads (fun _ _ => List.not_mem_nil) hnone).bind
      (fun e _ h => absurd h.1 (by simp)) fun _ w₁ h₁ => ?_
    refine .of_eq (fun _ => rfl) ⟨[], .ok (), rfl, ⟨.nil, by simp⟩, h₁.2, fun _ => ?_⟩
    exact ⟨[], by simp [Roll.items, RepeatState.due, htemplate], by simp [Seated], rfl⟩
  | some template =>
    have hmatch : (aroundSetting spared depth).Leads (do
        let views ← retainViews (fun w v =>
          !(!s.options.recycle && !templateChanged) && w.templateOf v == template) views
        matchViews s.location template childContext (s.due w).length 0 [] (s.due w) views) w
          (Matching spared [] w (s.due w)) := by
      refine (retainViews_leads _ ht.made).bind (fun e w₁ h => absurd h.choose_spec.1 (by simp)) ?_
      rintro kept w₁ ⟨_, ⟨⟩, hs, hsize⟩
      refine (matchViews_leads ((ht.sublist hs).later hsize) s.location template childContext
        _).mono ?_
      rintro r w' ⟨views', outcome, rfl, ht', hk, hout⟩
      exact ⟨views', outcome, rfl, ht', ⟨Nat.le_trans hsize hk.size, by simp⟩, hout⟩
    cases hitems : s.items with
    | none =>
      simp only [RepeatState.due, htemplate, hitems] at hmatch ⊢
      exact hmatch
    | some a =>
      simp only [RepeatState.due, htemplate, hitems] at hmatch ⊢
      exact Leads.read hmatch

/-- A full refresh whose skipping of the pending splices has come to its end. -/
theorem refreshAllViews_of_skipped {x : World} {bound : RepeatBound} {templateChanged : Bool}
    {calls : Calls} (hs : w.repeatState? b = some s) (hbound : s.bound = some bound)
    (hskip : skipPending b s calls w = some (.ok (), x)) :
    refreshAllViews b templateChanged calls w = (do
      let views ← takeViews b
      let (views, outcome) ← rebuild s bound.childContext templateChanged views
      putViews b views
      Machine.ofExcept outcome : Machine Unit) calls x := by
  unfold refreshAllViews
  rw [bind_apply, get_apply]
  dsimp only
  rw [hs]
  dsimp only
  rw [hbound]
  dsimp only
  rw [bind_apply, hskip]

/-- **A full refresh.** Once the pending splices have been skipped there are views for the items of
then, whatever views there were. -/
theorem presents_of_refresh {x w' : World} {known : Option (List Value)} {templateChanged : Bool}
    {r : Except Error Unit} (h : Presents spared b known w) (hs : w.repeatState? b = some s)
    (hbound : s.bound.isSome)
    (hskip : skipPending b s (callsAround spared depth) w = some (.ok (), x))
    (hviews : x.viewsOf? b = w.viewsOf? b)
    (hr : refreshAllViews b templateChanged (callsAround spared depth) w = some (r, w')) :
    Presents spared b (knownAfter r (some (s.due x))) w' := by
  obtain ⟨bound, hbound⟩ := Option.isSome_iff_exists.mp hbound
  obtain ⟨_, hs', ht, -⟩ := h
  obtain rfl := Option.some.inj (hs.symm.trans hs')
  obtain ⟨sx, hsx, hvx⟩ := viewsOf?_eq_some.mp (hviews.trans (viewsOf?_eq_some.mpr ⟨s, hs, rfl⟩))
  have hlx : w.Lasts (fun _ => false) x :=
    (skipPending_agreesAt (S := aroundSetting spared depth) trivial
      (lt_of_repeated (behavior_of_repeatState? hs)) (takes_splices hs) s _ _ hskip).2.1
  have htx : (x.setViews b []).Tidy sx.views := hvx ▸ ht.later hlx.size_views
  have hs₀ := repeatState?_setViews hsx []
  have hdo : (aroundSetting spared depth).Leads (do
      let views ← takeViews b
      let (views, outcome) ← rebuild s bound.childContext templateChanged views
      putViews b views
      Machine.ofExcept outcome) x fun r w' =>
        Presents spared b (knownAfter r (some (s.due x))) w' := by
    refine .step (takeViews_apply hsx) ?_
    refine ((rebuild_leads htx s bound.childContext templateChanged).and
      (Agrees.agreesAt trivial)).bind (fun e _ ⟨⟨_, _, h, _⟩, _⟩ => absurd h nofun) ?_
    rintro _ w₁ ⟨⟨views, outcome, ⟨⟩, ht₁, -, hout⟩, hl₁, -⟩
    refine putViews_presents hs₀ hl₁ ht₁ fun items hi => ?_
    obtain ⟨rfl, hdue⟩ := knownAfter_eq_some.mp hi
    obtain rfl := Option.some.inj hdue
    obtain ⟨roll, hitems, hseated, hroll⟩ := hout rfl
    exact ⟨roll, hitems, hroll.symm, hseated⟩
  rw [refreshAllViews_of_skipped hs hbound hskip] at hr
  exact (hdo _ _ hr).2

end Setting.Around

/-! ## The course of a repeat -/

open World

/-- **Course of a repeat.** What items its views are for, as far as that is known, and how it has
come to that. Meanwhile nobody else binds or unbinds the spared views or touches the list. -/
inductive RepeatCourse (spared : ViewId → Bool) (b : BehaviorId) :
    Option (List Value) → World → Prop
  | made {w : World} {s : RepeatState} (hs : w.repeatState? b = some s) (hv : s.views = []) :
    RepeatCourse spared b none w
  /-- All views are refreshed. Publishing the pending splices to the others has left the list
  alone. -/
  | refresh {known : Option (List Value)} {w x w' : World} {s : RepeatState} {depth : Nat}
    {templateChanged : Bool} {r : Except Error Unit} (h : RepeatCourse spared b known w)
    (hs : w.repeatState? b = some s) (hbound : s.bound.isSome)
    (hskip : skipPending b s (callsAround spared depth) w = some (.ok (), x))
    (hviews : x.viewsOf? b = w.viewsOf? b)
    (hr : refreshAllViews b templateChanged (callsAround spared depth) w = some (r, w')) :
    RepeatCourse spared b (knownAfter r (some (s.due x))) w'
  /-- A batch of splices arrives. -/
  | batch {known : Option (List Value)} {w w' : World} {s : RepeatState} {depth : Nat}
    {splices : List Splice} {r : Except Error Unit} (h : RepeatCourse spared b known w)
    (hs : w.repeatState? b = some s) (htemplate : s.template.isSome) (hbound : s.bound.isSome)
    (hr : updateViews b splices (callsAround spared depth) w = some (r, w')) :
    RepeatCourse spared b (knownAfter r (known.map (Splice.replay splices))) w'
  | meanwhile {known : Option (List Value)} {w w' : World} (h : RepeatCourse spared b known w)
    (hl : w.Lasts spared w') (hv : w'.viewsOf? b = w.viewsOf? b) : RepeatCourse spared b known w'
  /-- The views are bound or unbound all the same, as when the repeat is unbound. -/
  | adrift {known : Option (List Value)} {w w' : World} (h : RepeatCourse spared b known w)
    (hl : w.Lasts (fun _ => false) w') (hv : w'.viewsOf? b = w.viewsOf? b) :
    RepeatCourse spared b none w'

namespace RepeatCourse

variable {spared : ViewId → Bool} {b : BehaviorId} {known : Option (List Value)} {w : World}

theorem presents (h : RepeatCourse spared b known w) : Presents spared b known w := by
  induction h with
  | made hs hv => exact ⟨_, hs, by rw [hv]; exact ⟨.nil, nofun⟩, nofun⟩
  | refresh h hs hbound hskip hviews hr ih =>
    exact Setting.Around.presents_of_refresh ih hs hbound hskip hviews hr
  | batch h hs htemplate hbound hr ih =>
    exact (Setting.Around.updateViews_leads ih hs htemplate hbound _ _ _ hr).2
  | meanwhile h hl hv ih =>
    obtain ⟨s, hs, ht, hknown⟩ := ih
    obtain ⟨s', hs', heq⟩ := viewsOf?_eq_some.mp (hv.trans (viewsOf?_eq_some.mpr ⟨s, hs, rfl⟩))
    refine ⟨s', hs', heq ▸ ht.later hl.size_views, fun items hi => ?_⟩
    obtain ⟨roll, hitems, hviews, hseated⟩ := hknown items hi
    exact ⟨roll, hitems, heq ▸ hviews, hseated.keeps (.of_lasts hl (hviews ▸ ht.made))⟩
  | adrift h hl hv ih =>
    obtain ⟨s, hs, ht, -⟩ := ih
    obtain ⟨s', hs', heq⟩ := viewsOf?_eq_some.mp (hv.trans (viewsOf?_eq_some.mpr ⟨s, hs, rfl⟩))
    exact ⟨s', hs', heq ▸ ht.later hl.size_views, nofun⟩

/-- A run that spares the views and leaves the list as it is. -/
theorem run (h : RepeatCourse spared b known w) {w' : World} {depth : Nat} {c : Call}
    {r : Except Error c.Result} (hr : callsSparing spared depth c w = some (r, w'))
    (hv : w'.viewsOf? b = w.viewsOf? b) : RepeatCourse spared b known w' :=
  h.meanwhile (lasts_of_run hr) hv

end RepeatCourse

/-- **Repeats are in step with their items.** If a full refresh has come to its end, and since then
no batch has failed, then the repeat has one view for each item, in order and bound to the item, and
no other views. -/
theorem repeat_in_step {spared : ViewId → Bool} {b : BehaviorId} {items : List Value} {w : World}
    (h : RepeatCourse spared b (some items) w)
    (hs : ∀ views, w.viewsOf? b = some views → ∀ v ∈ views, spared v) :
    ∃ s, w.repeatState? b = some s ∧ s.views.Nodup ∧ ∃ roll : Roll, roll.items = items ∧
      roll.views = s.views ∧ ∀ entry ∈ roll, w.ShowsItem entry.1 entry.2 := by
  obtain ⟨s, hstate, ht, hknown⟩ := h.presents
  obtain ⟨roll, hitems, hviews, hseated⟩ := hknown items rfl
  refine ⟨s, hstate, ht.nodup, roll, hitems, hviews, fun entry he => hseated entry he ?_⟩
  refine hs s.views (viewsOf?_eq_some.mpr ⟨s, hstate, rfl⟩) entry.2 ?_
  rw [← hviews]
  exact List.mem_map_of_mem he

/-! A repeat over an array of one item, with a template that fails for null. -/

/-- The repeat is bound and knows its array, and nobody tells it of splices. -/
def World.isUntold (w : World) : Bool :=
  (w.repeatState? ⟨0⟩).any fun s => s.bound.isSome && s.template.isSome &&
    decide (s.items = some ⟨0⟩) && s.itemsNotifier.isNone

theorem World.exists_of_isUntold {w : World} (h : w.isUntold) :
    ∃ s, w.repeatState? ⟨0⟩ = some s ∧ s.bound.isSome ∧ s.template.isSome ∧
      (∀ calls, skipPending ⟨0⟩ s calls w = some (.ok (), w)) ∧ s.due w = w.itemsOf ⟨0⟩ := by
  obtain ⟨s, hs, h⟩ := (Option.any_eq_true _ _).mp h
  simp only [Bool.and_eq_true, decide_eq_true_eq, Option.isNone_iff_eq_none] at h
  obtain ⟨⟨⟨hbound, htemplate⟩, hitems⟩, hnone⟩ := h
  obtain ⟨template, ht⟩ := Option.isSome_iff_exists.mp htemplate
  refine ⟨s, hs, hbound, htemplate, fun calls => ?_, ?_⟩
  · rw [skipPending, hitems, hnone]
    rfl
  · rw [RepeatState.due, ht, hitems]

def pickyRepeat : World :=
  { World.empty with
    arrays := ⟨#[⟨[.null], none⟩]⟩
    document := ⟨#[.ofContent .fragment, .ofContent .fragment]⟩
    contexts := ⟨#[default]⟩
    templates := ⟨#[⟨⟨0⟩, [([], .bind ⟨.cond .source .source (.fail "nothing to show"), false,
      false, .oneTime⟩ (.prop "title"))]⟩]⟩
    behaviors := ⟨#[⟨.repeated
      { location := ⟨1⟩, options := {}, itemsObserver := ⟨0⟩, templateObserver := ⟨0⟩
        bound := some ⟨.null, ⟨0⟩, ⟨0⟩⟩, items := some ⟨0⟩, itemsNotifier := none
        template := some ⟨0⟩, views := [] }, true⟩]⟩ }

/-- The calls that the repeat makes. -/
def pickyCalls : Calls := callsAround (fun _ => true) 3

/-- The item fails, the array gets another one, and then one more in front of it. -/
theorem repeat_in_step_after_failure : ∃ e w₁ w,
    refreshAllViews ⟨0⟩ false pickyCalls pickyRepeat = some (.error e, w₁) ∧
      RepeatCourse (fun _ => true) ⟨0⟩ (some [.bool true, .text "x"]) w ∧
        ∃ s, w.repeatState? ⟨0⟩ = some s ∧ s.views.Nodup ∧ ∃ roll : Roll,
          roll.items = [.bool true, .text "x"] ∧ roll.views = s.views ∧
            ∀ entry ∈ roll, w.ShowsItem entry.1 entry.2 := by
  have hruns : (refreshAllViews ⟨0⟩ false pickyCalls pickyRepeat).any (fun x =>
      !x.1.isOk && x.2.isUntold && (refreshAllViews ⟨0⟩ false pickyCalls
        { x.2 with arrays := ⟨#[⟨[.text "x"], none⟩]⟩ }).any fun y =>
          y.1.isOk && y.2.isUntold && (updateViews ⟨0⟩ [⟨0, [], [.bool true]⟩] pickyCalls
            y.2).any fun z => z.1.isOk) = true := by
    decide +kernel
  obtain ⟨⟨r₁, w₁⟩, h₁, hruns⟩ := (Option.any_eq_true _ _).mp hruns
  simp only [Bool.and_eq_true] at hruns
  obtain ⟨⟨hr₁, hp₁⟩, hruns⟩ := hruns
  obtain ⟨⟨r₂, w₂⟩, h₂, hruns⟩ := (Option.any_eq_true _ _).mp hruns
  simp only [Bool.and_eq_true] at hruns
  obtain ⟨⟨hr₂, hp₂⟩, hruns⟩ := hruns
  obtain ⟨⟨r₃, w₃⟩, h₃, hr₃⟩ := (Option.any_eq_true _ _).mp hruns
  obtain ⟨e, rfl⟩ : ∃ e, r₁ = .error e := by
    cases r₁ with
    | ok => exact absurd hr₁ nofun
    | error e => exact ⟨e, rfl⟩
  obtain rfl : r₂ = .ok () := by
    cases r₂ with
    | ok => rfl
    | error => exact absurd hr₂ nofun
  obtain rfl : r₃ = .ok () := by
    cases r₃ with
    | ok => rfl
    | error => exact absurd hr₃ nofun
  let w₁' : World := { w₁ with arrays := ⟨#[⟨[.text "x"], none⟩]⟩ }
  have hmade : RepeatCourse (fun _ => true) ⟨0⟩ none pickyRepeat := .made rfl rfl
  have hfailed : RepeatCourse (fun _ => true) ⟨0⟩ none w₁' :=
    (hmade.refresh rfl rfl rfl rfl h₁).meanwhile (.of_eq rfl rfl) rfl
  obtain ⟨s, hs, hbound, -, hskip, hdue⟩ := exists_of_isUntold (w := w₁') hp₁
  have hright := hfailed.refresh hs hbound (hskip _) rfl h₂
  obtain ⟨s₂, hs₂, hbound₂, htemplate₂, -, -⟩ := exists_of_isUntold hp₂
  have hcourse := hright.batch hs₂ htemplate₂ hbound₂ h₃
  rw [hdue] at hcourse
  exact ⟨e, w₁, w₃, h₁, hcourse, repeat_in_step hcourse fun _ _ _ _ => rfl⟩

end ReactiveViews
