import ReactiveViews.Proofs.Positions.Exact
/-!
# Full refreshes

A full refresh goes through the items. A view that shows its item already is kept, and its context is
moved; any other is given a new context, which is made with the position that it is to have. So when the
refresh comes to the next item, the views behind it have contexts that are in their places, and those
ahead are as the refresh has found them (`Setting.Matched`). The views are the repeat's own all that
time. Whatever those do who are told that a context has moved, or what is bound when a view is, no other
context is moved by that.
-/

namespace ReactiveViews

open Machine World

namespace Machine

variable {calls : Calls} {w x : World} {b : BehaviorId} {s : RepeatState} {template : TemplateId}
  {bound : RepeatBound}

/-- **Clearing out** what is not kept, up to where views are matched to the items. -/
def clearOut (b : BehaviorId) (s : RepeatState) (template : TemplateId) (templateChanged : Bool) :
    Machine (List Value × List ViewId) := do
  let views ← takeViews b
  let items ← read s.itemsIn
  let kept ← retainViews (fun w v =>
    !(!s.options.recycle && !templateChanged) && w.templateOf v == template) views
  return (items, kept)

/-- Pending splices are skipped, views are rebuilt, and they are put back. -/
theorem refreshAllViews_eq (hs : w.repeatState? b = some s) (hbound : s.bound = some bound)
    (templateChanged : Bool) (calls : Calls) :
    refreshAllViews b templateChanged calls w = (do
      skipPending b s
      let views ← takeViews b
      let (views, outcome) ← rebuild s bound.childContext templateChanged views
      putViews b views
      ofExcept outcome : Machine Unit) calls w := by
  unfold refreshAllViews
  rw [bind_apply, get_apply]
  dsimp only
  rw [hs]
  dsimp only
  rw [hbound]

/-- Where there is a template, views are cleared out and then matched. -/
theorem rebuild_eq (htemplate : s.template = some template) (childContext : ContextId)
    (templateChanged : Bool) {f : List ViewId × Except Error Unit → Machine Unit} (calls : Calls) :
    (do
      let views ← takeViews b
      let rebuilt ← rebuild s childContext templateChanged views
      f rebuilt : Machine Unit) calls x = (do
      let (items, kept) ← clearOut b s template templateChanged
      let matched ← matchViews s.location template childContext items.length 0 [] items kept
      f matched : Machine Unit) calls x := by
  unfold rebuild clearOut
  rw [htemplate]
  cases hitems : s.items with
  | none =>
    have hread : Machine.read s.itemsIn = pure [] := by
      have hnone : s.itemsIn = fun _ => [] := funext fun w => by rw [RepeatState.itemsIn, hitems]
      rw [hnone]
      rfl
    simp only [bind_assoc, pure_bind, hread]
  | some a =>
    have hsome : s.itemsIn = fun w => w.itemsOf a := funext fun w => by rw [RepeatState.itemsIn, hitems]
    simp only [bind_assoc, pure_bind, hsome]

/-- **The matching comes to a view**, whose context is where it was when the matching began, and moves it. -/
structure Matches (calls : Calls) (location : NodeId) (template : TemplateId) (childContext : ContextId)
    (items : List Value) (kept : List ViewId) (z : World) (i : Nat) (v : ViewId) (c : ContextId)
    (y y' : World) : Prop where
  /-- The items in front have been given their views. -/
  run : ∃ done item rest todo,
    matchViews location template childContext items.length 0 [] items kept calls z =
      matchViews location template childContext items.length i done (item :: rest) (v :: todo) calls y
  /-- The view has been kept. -/
  kept : v ∈ kept ∧ (z.views.get v).context = some c
  position : y.position c = z.position c
  moves : ∃ held, Moves calls c i items.length { y with held } y'

/-- **Put in place.** Every view has a context, which knows where in the list the view is. Views have been
cleared out at `x` and matched to the items, and a context that was there already has been moved by that from
where it was. -/
def PutInPlace (calls : Calls) (b : BehaviorId) (s : RepeatState) (childContext : ContextId)
    (templateChanged : Bool) (x : World) (views : List ViewId) (w' : World) : Prop :=
  ∀ i v, views[i]? = some v → ∃ c, (w'.views.get v).context = some c ∧
    w'.position c = (i, views.length) ∧ (x.Made (.context c) → ∃ template items kept z y y',
      s.template = some template ∧
      clearOut b s template templateChanged calls x = some (.ok (items, kept), z) ∧
      z.position c = x.position c ∧
      Matches calls s.location template childContext items kept z i v c y y')

/-- **Positioned by a refresh.** Once the pending splices have been skipped, contexts are put in place. -/
def PositionedByRefresh (calls : Calls) (b : BehaviorId) (templateChanged : Bool) (w w' : World) : Prop :=
  ∃ s bound x views, w.repeatState? b = some s ∧ s.bound = some bound ∧
    skipPending b s calls w = some (.ok (), x) ∧ w'.viewsOf? b = some views ∧
    PutInPlace calls b s bound.childContext templateChanged x views w'

end Machine

namespace Setting

variable {S : Setting custody} {w₀ w : World} {views : List ViewId} {v : ViewId}

/-- Views that are not kept are disposed of, and those that are kept are left alone. -/
theorem retainViews_own (keep : World → ViewId → Bool) {vs : List ViewId} (hvs : ∀ v ∈ vs, v ∈ views)
    (hn : vs.Nodup) (h : Own w₀ w views) :
    S.Leads (retainViews keep vs) w fun r w' => ∃ kept, r = .ok kept ∧ kept.Sublist vs ∧
      Own w₀ w' views ∧ ∀ u ∈ views, (u ∈ vs → u ∈ kept) → w.Alone w' u := by
  induction vs generalizing w with
  | nil => exact .of_eq (fun _ => rfl) ⟨[], rfl, .slnil, h, fun u _ _ => .refl w u⟩
  | cons v vs ih =>
    obtain ⟨hv, hvs⟩ := List.forall_mem_cons.mp hvs
    obtain ⟨hnew, hn⟩ := List.nodup_cons.mp hn
    unfold retainViews
    refine Leads.step (fun _ => rfl) ?_
    split
    · refine (ih hvs hn h).bind (fun e _ ⟨_, h, _⟩ => absurd h (by simp)) ?_
      rintro kept w₁ ⟨_, ⟨⟩, hs, hown, halone⟩
      refine .of_eq (fun _ => rfl) ⟨v :: kept, rfl, hs.cons_cons v, hown, fun u hu hk => ?_⟩
      refine halone u hu fun hmem => ?_
      have hne : u ≠ v := fun he => hnew (he ▸ hmem)
      exact List.mem_of_ne_of_mem hne (hk (List.mem_cons_of_mem v hmem))
    · refine (disposeView_attends h hv).bind (fun e _ he => absurd he.1 (by simp))
        fun _ w₁ ⟨_, ht, _⟩ => ?_
      refine (ih hvs hn ht.own).mono ?_
      rintro r w' ⟨kept, rfl, hs, hown, halone⟩
      refine ⟨kept, rfl, hs.cons v, hown, fun u hu hk => ?_⟩
      have hne : u ≠ v := by
        rintro rfl
        exact hnew (hs.subset (hk List.mem_cons_self))
      exact (ht.others hu hne).trans (halone u hu fun hmem => hk (List.mem_cons_of_mem v hmem))

/-- **A view is brought to an item.** -/
theorem refreshView_attends (h : Own w₀ w views) (hv : v ∈ views) (item : Value)
    (childContext : ContextId) (index length : Nat) :
    S.Leads (refreshView v item childContext index length) w fun r w' => Attends w₀ w views v w' ∧
      (r = .ok () → ∃ c, (w'.views.get v).context = some c ∧ w'.position c = (index, length) ∧
        (w₀.Made (.context c) → (w.views.get v).context = some c ∧
          Moves S.calls c index length w w')) := by
  unfold refreshView
  refine Leads.read ?_
  extract_lets shows
  split
  · next c hc _ =>
    refine (updatePosition_attends h hv hc index length).mono ?_
    rintro r w' ⟨-, ht, hrecord, hm⟩
    exact ⟨ht, fun _ => ⟨c, hrecord ▸ hc, hm.moved, fun _ => ⟨hc, hm⟩⟩⟩
  · refine (itemContext_spare h childContext index length).bind (fun e _ he => ?_) ?_
    · obtain ⟨_, he, -⟩ := he
      exact absurd he (by simp)
    rintro c w₁ ⟨_, ⟨⟩, hr₁, hw₁, hc, hpos⟩
    refine (rebindView_attends (h.later hr₁ hw₁) hv hc item).mono ?_
    rintro r w' ⟨ht, hcontext, hp⟩
    exact ⟨(h.attends hr₁ hw₁ v).trans ht, fun _ => ⟨c, hcontext, hp.trans hpos,
      fun hm => absurd hm hc.new⟩⟩

/-- **A view is made for an item**, and it is one more. -/
theorem makeView_own (h : Own w₀ w views) (location : NodeId) (template : TemplateId) (item : Value)
    (childContext : ContextId) (index length : Nat) :
    S.Leads (do
        let context ← itemContext childContext index length
        let v ← createView template
        Machine.call (.bindView v item context)
        insertViewBefore v location
        return v) w fun r w' => Own w₀ w' views ∧ (∀ u ∈ views, w.Alone w' u) ∧
      ∀ v, r = .ok v → Own w₀ w' (v :: views) ∧ ∃ c, (w'.views.get v).context = some c ∧
        w'.position c = (index, length) ∧ ¬ w₀.Made (.context c) := by
  refine (itemContext_spare h childContext index length).bind
    (fun e _ ⟨_, he, _⟩ => absurd he (by simp)) ?_
  rintro c w₁ ⟨_, ⟨⟩, hr₁, hw₁, hc, hpos⟩
  have h₁ := h.later hr₁ hw₁
  have halone₁ : ∀ u ∈ views, w.Alone w₁ u := fun u hu => h.alone hr₁ hu id
  refine (createView_own h₁ template).bind (fun e w₂ ⟨hr₂, hw₂, _⟩ => ?_) fun v w₂ ⟨hr₂, hw₂, hv⟩ => ?_
  · exact ⟨h₁.later hr₂ hw₂, fun u hu => (halone₁ u hu).trans (h₁.alone hr₂ hu id), by simp⟩
  obtain ⟨h₂, hsource, hnone⟩ := hv v rfl
  have halone₂ : ∀ u ∈ views, w.Alone w₂ u := fun u hu => (halone₁ u hu).trans (h₁.alone hr₂ hu id)
  have hfewer : ∀ {w'}, Own w₀ w' (v :: views) → Own w₀ w' views :=
    fun h => h.sublist (List.sublist_cons_self v views)
  have hc₂ : Spare w₀ w₂ (v :: views) c := by
    refine ⟨LeavesBut.free hr₂ hc.free, hc.new, fun {u} hu => ?_⟩
    obtain rfl | hu := List.mem_cons.mp hu
    · rw [hnone]
      exact (Option.some_ne_none c).symm
    · rw [(h₁.alone hr₂ hu id).record]
      exact hc.vacant hu
  have hpos₂ : w₂.position c = (index, length) := (LeavesBut.position hr₂ hc.free).trans hpos
  refine Leads.bind (bindView_attends h₂ List.mem_cons_self hsource hc₂ item) (fun e w₃ h₃ => ?_)
    fun _ w₃ h₃ => ?_
  all_goals
    obtain ⟨ht, hcontext, hp⟩ := h₃
    have halone₃ : ∀ u ∈ views, w.Alone w₃ u := fun u hu =>
      (halone₂ u hu).trans (ht.others (List.mem_cons_of_mem v hu) fun he =>
        (List.nodup_cons.mp h₂.nodup).1 (he ▸ hu))
  · exact ⟨hfewer ht.own, halone₃, by simp⟩
  refine Leads.bind (Agrees.agreesAt (m := insertViewBefore v location) ht.own.sole)
    (fun e w₄ h₄ => ?_) fun _ w₄ h₄ => ?_
  all_goals
    have hown₄ := ht.own.later h₄.1 h₄.2
    have halone₄ : ∀ u ∈ v :: views, w₃.Alone w₄ u := fun u hu => ht.own.alone h₄.1 hu id
    have halone : ∀ u ∈ views, w.Alone w₄ u := fun u hu =>
      (halone₃ u hu).trans (halone₄ u (List.mem_cons_of_mem v hu))
  · exact ⟨hfewer hown₄, halone, by simp⟩
  refine .of_eq (fun _ => rfl) ⟨hfewer hown₄, halone, fun u hu => ?_⟩
  obtain rfl := Except.ok.inj hu
  have hv₄ := halone₄ v List.mem_cons_self
  exact ⟨hown₄, c, hv₄.record ▸ hcontext, (hv₄.position hcontext).trans (hp.trans hpos₂), hc.new⟩

/-! ## Matching -/

section Matching

variable {z : World} {location : NodeId} {template : TemplateId} {childContext : ContextId}
  {items : List Value} {kept : List ViewId}

/-- **Settled.** A view has been given a place by the matching. -/
def Settled (S : Setting custody) (w₀ z : World) (location : NodeId) (template : TemplateId)
    (childContext : ContextId) (items : List Value) (kept : List ViewId) (i : Nat) (v : ViewId)
    (w : World) : Prop :=
  ∃ c, (w.views.get v).context = some c ∧ w.position c = (i, items.length) ∧
    (w₀.Made (.context c) →
      ∃ y y', Matches S.calls location template childContext items kept z i v c y y')

/-- What the matching has come to when it has passed some of the items. -/
structure Matched (S : Setting custody) (w₀ z : World) (location : NodeId) (template : TemplateId)
    (childContext : ContextId) (items : List Value) (kept : List ViewId) (done : List ViewId)
    (rest : List Value) (todo : List ViewId) (w : World) : Prop where
  own : Own w₀ w (done ++ todo)
  length : done.length + rest.length = items.length
  run : matchViews location template childContext items.length 0 [] items kept S.calls z =
    matchViews location template childContext items.length done.length done rest todo S.calls w
  ahead : ∀ v ∈ todo, v ∈ kept ∧ z.Alone w v
  behind : ∀ i v, done.reverse[i]? = some v →
    Settled S w₀ z location template childContext items kept i v w

theorem Settled.alone {i : Nat} {w' : World}
    (h : Settled S w₀ z location template childContext items kept i v w) (ha : w.Alone w' v) :
    Settled S w₀ z location template childContext items kept i v w' := by
  obtain ⟨c, hc, hp, hm⟩ := h
  exact ⟨c, ha.record ▸ hc, (ha.position hc).trans hp, hm⟩

/-- One more item has its view. -/
theorem Matched.next {done todo todo' : List ViewId} {item : Value} {rest : List Value} {w' : World}
    (h : Matched S w₀ z location template childContext items kept done (item :: rest) todo w)
    (hown : Own w₀ w' (v :: done ++ todo')) (hothers : ∀ u ∈ done ++ todo', w.Alone w' u)
    (htodo : ∀ u ∈ todo', u ∈ todo)
    (hv : Settled S w₀ z location template childContext items kept done.length v w')
    (hrun : matchViews location template childContext items.length done.length done (item :: rest) todo
        S.calls w =
      matchViews location template childContext items.length (done.length + 1) (v :: done) rest todo'
        S.calls w') :
    Matched S w₀ z location template childContext items kept (v :: done) rest todo' w' where
  own := hown
  length := by
    rw [← h.length, List.length_cons, List.length_cons, Nat.add_right_comm, Nat.add_assoc]
  run := h.run.trans hrun
  ahead u hu :=
    have ha := h.ahead u (htodo u hu)
    ⟨ha.1, ha.2.trans (hothers u (List.mem_append_right done hu))⟩
  behind i u hi := by
    rw [List.reverse_cons, List.getElem?_append] at hi
    split at hi
    · have hu : u ∈ done := List.mem_reverse.mp (List.mem_of_getElem? hi)
      exact (h.behind i u hi).alone (hothers u (List.mem_append_left todo' hu))
    · next hlt =>
      have hlt' := (List.getElem?_eq_some_iff.mp hi).1
      rw [List.length_singleton, List.length_reverse] at hlt'
      rw [List.length_reverse] at hlt
      obtain rfl : i = done.length := by omega
      obtain rfl := List.mem_singleton.mp (List.mem_of_getElem? hi)
      exact hv

/-- What the matching comes to: own views, and if no item has failed there is a settled one for each. -/
def Settling (S : Setting custody) (w₀ z : World) (location : NodeId) (template : TemplateId)
    (childContext : ContextId) (items : List Value) (kept : List ViewId)
    (r : Except Error (List ViewId × Except Error Unit)) (w' : World) : Prop :=
  ∃ views outcome, r = .ok (views, outcome) ∧ Own w₀ w' views ∧ (outcome = .ok () →
    views.length = items.length ∧ ∀ i v, views[i]? = some v →
      Settled S w₀ z location template childContext items kept i v w')

/-- **Matching puts every context in its place.** -/
theorem matchViews_settling {done todo : List ViewId} {rest : List Value}
    (h : Matched S w₀ z location template childContext items kept done rest todo w) :
    S.Leads (matchViews location template childContext items.length done.length done rest todo) w
      (Settling S w₀ z location template childContext items kept) := by
  induction rest generalizing done todo w with
  | nil =>
    have hapart : ∀ u ∈ done, u ∉ todo := fun u hu hm =>
      (List.nodup_append.mp h.own.nodup).2.2 u hu u hm rfl
    unfold matchViews
    refine (each_held_attends disposeView_attends (fun v hv => List.mem_append_right done hv) h.own
      _).bind (fun e _ he => absurd he.1 (by simp)) fun _ w₁ ⟨_, hown, halone, _⟩ => ?_
    have hdone : Own w₀ w₁ done.reverse :=
      (hown.sublist (List.sublist_append_left done todo)).perm (List.reverse_perm done)
    refine .of_eq (fun _ => rfl) ⟨_, _, rfl, hdone, fun _ => ⟨?_, fun i v hi => ?_⟩⟩
    · rw [List.length_reverse, ← h.length]
      rfl
    · have hv : v ∈ done := List.mem_reverse.mp (List.mem_of_getElem? hi)
      exact (h.behind i v hi).alone (halone v (List.mem_append_left todo hv) (hapart v hv))
  | cons item rest ih =>
    cases todo with
    | cons v todo =>
      have hv : v ∈ done ++ v :: todo := by simp
      have hperm : (v :: done ++ todo).Perm (done ++ v :: todo) := List.perm_middle.symm
      unfold matchViews
      refine (Leads.ran (Leads.within (refreshView_attends (h.own.held _) hv item childContext
        done.length items.length))).attempt_bind ?_
      rintro outcome _ ⟨⟨w₁, rfl, ht, hsettled⟩, hrun⟩
      have hown : Own w₀ { w₁ with held := w.held } (v :: done ++ todo) :=
        (ht.own.held w.held).perm hperm
      cases outcome with
      | error e =>
        refine .of_eq (fun _ => rfl) ⟨_, _, rfl, (ht.own.held w.held).perm ?_, by simp⟩
        exact (List.reverse_perm done).append_right (v :: todo)
      | ok u =>
        obtain ⟨c, hc, hp, hm⟩ := hsettled rfl
        have hothers : ∀ u ∈ done ++ todo, w.Alone { w₁ with held := w.held } u := by
          intro u hu
          have hne : u ≠ v := by
            rintro rfl
            exact (List.nodup_cons.mp hown.nodup).1 hu
          have ha := ht.others (hperm.subset (List.mem_cons_of_mem v hu)) hne
          exact ⟨ha.record, ha.position⟩
        refine ih (h.next hown hothers (fun u hu => List.mem_cons_of_mem v hu) ⟨c, hc, hp, fun hmade => ?_⟩ ?_)
        · obtain ⟨hcw, hmoves⟩ := hm hmade
          obtain ⟨hkept, hahead⟩ := h.ahead v List.mem_cons_self
          have hcz : (z.views.get v).context = some c := hahead.record ▸ hcw
          exact ⟨w, w₁, ⟨done, item, rest, todo, h.run⟩, ⟨hkept, hcz⟩, hahead.position hcz, _, hmoves⟩
        · have hattempt := attempt_eq_some.mpr ⟨_, hrun, rfl⟩
          change attempt (holdingViews _ _) _ _ = _ at hattempt
          rw [matchViews, bind_apply, hattempt]
    | nil =>
      have hdone : Own w₀ w done := h.own.perm (by rw [List.append_nil])
      unfold matchViews
      refine (Leads.ran (Leads.within (makeView_own (hdone.held _) location template item childContext
        done.length items.length))).attempt_bind ?_
      rintro outcome _ ⟨⟨w₁, rfl, hown, halone, hmade⟩, hrun⟩
      have hown' : Own w₀ { w₁ with held := w.held } done := hown.held w.held
      cases outcome with
      | error e =>
        have hsweep : S.Agrees letGo := .modify fun w => .sweep w
        refine (Leads.ran (Agrees.agreesAt hown'.sole)).bind (fun e w₂ h₂ => ?_) fun _ w₂ h₂ => ?_
        · obtain ⟨_, he⟩ := Firm.ok h₂.2
          exact absurd he (by simp)
        · refine .of_eq (fun _ => rfl) ⟨_, _, rfl, ?_, by simp⟩
          exact (hown'.later h₂.1.1 h₂.1.2).perm (List.reverse_perm done)
      | ok v =>
        obtain ⟨hv, c, hc, hp, hnew⟩ := hmade v rfl
        have hown : Own w₀ { w₁ with held := w.held } (v :: done ++ []) := by
          rw [List.append_nil]
          exact hv.held w.held
        have hothers : ∀ u ∈ done ++ [], w.Alone { w₁ with held := w.held } u := by
          rw [List.append_nil]
          exact fun u hu => ⟨(halone u hu).record, (halone u hu).position⟩
        refine ih (h.next hown hothers (fun _ hu => hu) ⟨c, hc, hp, fun hm => absurd hm hnew⟩ ?_)
        · have hattempt := attempt_eq_some.mpr ⟨_, hrun, rfl⟩
          change attempt (holdingViews _ _) _ _ = _ at hattempt
          rw [matchViews, bind_apply, hattempt]

end Matching

/-! ## Refreshing -/

variable {x : World} {b : BehaviorId} {s sx : RepeatState} {template : TemplateId}

/-- What is kept is left alone while the rest is cleared out. -/
theorem clearOut_own (hw : x.Sole) (hs : x.repeatState? b = some sx) (s : RepeatState)
    (template : TemplateId) (templateChanged : Bool) :
    S.Leads (clearOut b s template templateChanged) x fun r z => ∃ items kept, r = .ok (items, kept) ∧
      Own x z kept ∧ ∀ v ∈ kept, x.Alone z v := by
  have htaken : Own x (x.setViews b []) sx.views := .taken hw hs
  unfold clearOut
  refine .step (Around.takeViews_apply hs) (Leads.read ?_)
  refine (retainViews_own _ (fun _ hv => hv) htaken.nodup htaken).bind
    (fun e _ ⟨_, he, _⟩ => absurd he (by simp)) ?_
  rintro kept z ⟨_, ⟨⟩, hsub, hown, halone⟩
  refine .of_eq (fun _ => rfl) ⟨_, kept, rfl, hown.sublist hsub, fun v hv => ?_⟩
  have ha := halone v (hsub.subset hv) fun _ => hv
  exact ⟨ha.record, ha.position⟩

/-- Views are rebuilt. -/
theorem rebuild_own (hw : x.Sole) (hs : x.repeatState? b = some sx) (s : RepeatState)
    (childContext : ContextId) (templateChanged : Bool)
    {f : List ViewId × Except Error Unit → Machine Unit} {Q : Except Error Unit → World → Prop}
    (hf : ∀ views outcome w', Own x w' views →
      (outcome = .ok () → PutInPlace S.calls b s childContext templateChanged x views w') →
        S.Leads (f (views, outcome)) w' Q) :
    S.Leads (do
        let views ← takeViews b
        let rebuilt ← rebuild s childContext templateChanged views
        f rebuilt) x Q := by
  cases htemplate : s.template with
  | none =>
    have htaken : Own x (x.setViews b []) sx.views := .taken hw hs
    unfold rebuild
    rw [htemplate]
    refine .step (Around.takeViews_apply hs) ?_
    dsimp only
    rw [bind_assoc]
    refine (each_attends disposeView_attends (fun _ hv => hv) htaken).bind
      (fun e _ he => absurd he.1 (by simp)) fun _ w₁ ⟨_, hown, _⟩ => ?_
    exact hf [] (.ok ()) w₁ (.nil hown.leaves hown.sole) fun _ i v hi => absurd hi (by simp)
  | some template =>
    refine .congr (rebuild_eq htemplate childContext templateChanged) ?_
    refine (Leads.ran (clearOut_own hw hs s template templateChanged)).bind
      (fun e _ ⟨⟨_, _, he, _⟩, _⟩ => absurd he (by simp)) ?_
    rintro _ z ⟨⟨items, kept, ⟨⟩, hown, halone⟩, hrun⟩
    have hstart : Matched S x z s.location template childContext items kept [] items kept z :=
      ⟨hown, Nat.zero_add _, rfl, fun v hv => ⟨hv, .refl z v⟩, fun i v hi => absurd hi (by simp)⟩
    refine (matchViews_settling hstart).bind (fun e _ ⟨_, _, he, _⟩ => absurd he (by simp)) ?_
    rintro _ w' ⟨views, outcome, ⟨⟩, hown', hsettled⟩
    refine hf views outcome w' hown' fun ho i v hi => ?_
    obtain ⟨hlength, hsettled⟩ := hsettled ho
    obtain ⟨c, hc, hp, hm⟩ := hsettled i v hi
    refine ⟨c, hc, hlength ▸ hp, fun hmade => ?_⟩
    obtain ⟨y, y', hmatches⟩ := hm hmade
    obtain ⟨hv, hcz⟩ := hmatches.kept
    have ha := halone v hv
    exact ⟨template, items, kept, z, y, y', htemplate, hrun, ha.position (ha.record ▸ hcz), hmatches⟩

/-- **A full refresh** leaves other things alone, and if it comes to its end positions are exact. -/
theorem refreshAllViews_exact {bound : RepeatBound} (hw : w.Sole) (hs : w.repeatState? b = some s)
    (hbound : s.bound = some bound) (templateChanged : Bool) :
    S.Leads (refreshAllViews b templateChanged) w fun r w' => w.Leaves w' ∧ w'.Sole ∧
      (r = .ok () → PositionedByRefresh S.calls b templateChanged w w') := by
  have hlt := lt_of_repeated (behavior_of_repeatState? hs)
  refine .congr (refreshAllViews_eq hs hbound templateChanged) ?_
  refine (Leads.ran (skipPending_agreesAt hw hlt (takes_splices hs) s)).bind
    (fun e x h => ⟨h.1.1, h.1.2, by simp⟩) ?_
  rintro _ x ⟨⟨hl, hx⟩, hskip⟩
  obtain ⟨sx, hsx⟩ := repeatState?_of_lasts hl.lasts hs
  refine rebuild_own hx hsx s bound.childContext templateChanged fun views outcome w₁ hown hplaces => ?_
  refine (putViews_own hown hsx outcome).mono ?_
  rintro r w' ⟨rfl, hl', hw', hviews, hv', hc'⟩
  refine ⟨LeavesBut.trans hl hl', hw', fun ho => ⟨s, bound, x, views, hs, hbound, hskip, hviews, ?_⟩⟩
  intro i v hi
  obtain ⟨c, hc, hp, hm⟩ := hplaces ho i v hi
  refine ⟨c, hv' ▸ hc, ?_, hm⟩
  rw [World.position, hc']
  exact hp

end Setting

end ReactiveViews
