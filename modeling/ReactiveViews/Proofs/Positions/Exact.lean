import ReactiveViews.Proofs.Positions.Batches
/-!
# The pass over the views

A batch of splices leaves contexts with the positions that they were made with, and those may be wrong
several times over: of a list that was half updated, and of the items that there were to be in the end.
So one pass over the views puts every context where its view is (`Setting.positionViews_exact`). The
contexts are different, and free. Whatever those do who are told that one of them has moved, the next
one is where the batch has left it, and the last one is where the pass has put it.
-/

namespace ReactiveViews

open Machine World

namespace World

/-- **Exact positions.** The contexts of some views know where in the list these are. -/
def InPlace (w : World) (views : List ViewId) : Prop :=
  ∀ i v c, views[i]? = some v → (w.views.get v).context = some c → w.position c = (i, views.length)

end World

namespace Machine

/-- **Carrying out a batch** of splices, up to where contexts are positioned. -/
def carryOut (b : BehaviorId) (s : RepeatState) (template : TemplateId) (bound : RepeatBound)
    (splices : List Splice) : Machine (List ViewId × Except Error Unit) := do
  let length ← read fun w => (s.due w).length
  let views ← takeViews b
  let ((withdrawn, views), outcome) ←
    applySplices s template bound.childContext length splices [] views
  holdingViews (withdrawn ++ views) (each disposeView withdrawn)
  return (views, outcome)

/-- A batch is carried out, contexts are positioned if they are to be, and views are put back. -/
theorem updateViews_eq {w : World} {b : BehaviorId} {s : RepeatState} {template : TemplateId}
    {bound : RepeatBound} (hs : w.repeatState? b = some s) (htemplate : s.template = some template)
    (hbound : s.bound = some bound) (splices : List Splice) (calls : Calls) :
    updateViews b splices calls w = (do
      let (views, outcome) ← carryOut b s template bound splices
      if s.options.positioning then holdingViews views (positionViews views.length 0 views)
      putViews b views
      ofExcept outcome : Machine Unit) calls w := by
  unfold updateViews carryOut
  simp only [bind_assoc]
  rw [bind_apply, get_apply, bind_apply (read _), read_apply]
  dsimp only
  rw [hs]
  dsimp only
  rw [RepeatState.due, htemplate, hbound]
  cases s.items <;> simp only [pure_bind, List.length_nil]

/-- **The pass comes to a context**, which is where it was when the pass began, and moves it. -/
structure Passes (calls : Calls) (views : List ViewId) (w : World) (i : Nat) (c : ContextId)
    (y y' : World) : Prop where
  /-- The views in front have been passed. -/
  run : positionViews views.length 0 (views.take i) calls w = some (.ok (), y)
  position : y.position c = w.position c
  moves : Moves calls c i views.length y y'

/-- **Positioned by a batch.** The batch is carried out, and then every context is put in its place:
what had been there before was still where it had been. -/
def PositionedByBatch (calls : Calls) (b : BehaviorId) (s : RepeatState) (splices : List Splice)
    (w : World) (r : Except Error Unit) (w' : World) : Prop :=
  ∃ template bound views x, s.template = some template ∧ s.bound = some bound ∧
    carryOut b s template bound splices calls w = some (.ok (views, r), x) ∧
    w'.viewsOf? b = some views ∧ w'.InPlace views ∧
    ∀ i v c, views[i]? = some v → (w'.views.get v).context = some c →
      (w.Made (.context c) → x.position c = w.position c) ∧
        ∃ y y', Passes calls views { x with held := views.map .view ++ x.held } i c y y'

theorem positionViews_append (n i : Nat) (a b : List ViewId) :
    positionViews n i (a ++ b) = (do
      positionViews n i a
      positionViews n (i + a.length) b) := by
  induction a generalizing i with
  | nil => rfl
  | cons v a ih =>
    have hlength : i + (v :: a).length = i + 1 + a.length := by
      rw [List.length_cons, Nat.add_comm a.length, Nat.add_assoc]
    rw [List.cons_append, positionViews, positionViews, bind_assoc, hlength]
    refine congrArg _ (funext fun o => ?_)
    cases o with
    | none => exact ih (i + 1)
    | some c =>
      dsimp only
      rw [ih, bind_assoc]

end Machine

namespace Setting

variable {S : Setting custody} {w₀ w x : World} {views : List ViewId} {v : ViewId}

/-- An own view is given a position. -/
theorem updatePosition_attends {c : ContextId} (h : Own w₀ w views) (hv : v ∈ views)
    (hc : (w.views.get v).context = some c) (index length : Nat) :
    S.Leads (updatePosition c index length) w fun r w' => r = .ok () ∧ Attends w₀ w views v w' ∧
      w'.views.get v = w.views.get v ∧ Moves S.calls c index length w w' := by
  refine (updatePosition_leads h.sole c index length).mono fun r w' ⟨hr, hl, hw', hm⟩ => ?_
  have hmoved := h.moved hv hc index length
  exact ⟨hr, ⟨hmoved.later hl hw', fun {u} hu hne => (h.alone_moved hv hc hu hne index length).trans
    (hmoved.alone hl hu id)⟩, (hmoved.alone hl hv id).record, hm (h.freeSeat hv hc)⟩

/-- The pass comes to one view. -/
theorem positionView_attends (h : Own w₀ w views) (hv : v ∈ views) (index length : Nat) :
    S.Leads (positionViews length index [v]) w fun r w' => r = .ok () ∧ Attends w₀ w views v w' ∧
      w'.views.get v = w.views.get v ∧
        ∀ c, (w.views.get v).context = some c → Moves S.calls c index length w w' := by
  unfold positionViews
  refine Leads.read ?_
  cases hc : (w.views.get v).context with
  | none => exact .of_eq (fun _ => rfl) ⟨rfl, h.attends (.refl w) h.sole v, rfl, nofun⟩
  | some c =>
    refine (updatePosition_attends h hv hc index length).bind (fun e _ he => absurd he.1 nofun)
      fun _ w₁ h₁ => ?_
    refine .of_eq (fun _ => rfl) ⟨rfl, h₁.2.1, h₁.2.2.1, fun d hd => ?_⟩
    obtain rfl := Option.some.inj hd
    exact h₁.2.2.2

/-- What the pass has come to when it has passed some of the views. -/
structure Passed (S : Setting custody) (w₀ x : World) (views done : List ViewId) (w : World) : Prop where
  own : Own w₀ w views
  run : positionViews views.length 0 done S.calls x = some (.ok (), w)
  record : ∀ v ∈ views, w.views.get v = x.views.get v
  ahead : ∀ v ∈ views, v ∉ done → x.Alone w v
  behind : ∀ i v c, done[i]? = some v → (x.views.get v).context = some c →
    w.position c = (i, views.length) ∧ ∃ y y', Passes S.calls views x i c y y'

/-- The next view is passed. -/
theorem Passed.next {done todo : List ViewId} {w' : World} (h : Passed S w₀ x views done w)
    (hviews : done ++ v :: todo = views)
    (hrun : positionViews views.length done.length [v] S.calls w = some (.ok (), w'))
    (ht : Attends w₀ w views v w') (hrecord : w'.views.get v = w.views.get v)
    (hm : ∀ c, (w.views.get v).context = some c → Moves S.calls c done.length views.length w w') :
    Passed S w₀ x views (done ++ [v]) w' := by
  have hnodup : (done ++ v :: todo).Nodup := hviews ▸ h.own.nodup
  have hfresh : v ∉ done := fun hmem => (List.nodup_append.mp hnodup).2.2 v hmem v List.mem_cons_self rfl
  have hv : v ∈ views := by
    rw [← hviews]
    simp
  have hsame : ∀ u ∈ views, w'.views.get u = x.views.get u := by
    intro u hu
    by_cases he : u = v
    · exact he ▸ hrecord.trans (h.record v hv)
    · exact (ht.others hu he).record.trans (h.record u hu)
  refine ⟨ht.own, ?_, hsame, fun u hu hn => ?_, fun i u c hi hc => ?_⟩
  · rw [positionViews_append, bind_apply, h.run, Nat.zero_add]
    exact hrun
  · rw [List.mem_append, List.mem_singleton, not_or] at hn
    exact (h.ahead u hu hn.1).trans (ht.others hu hn.2)
  · rw [List.getElem?_append] at hi
    split at hi
    · have hu : u ∈ done := List.mem_of_getElem? hi
      have hmem : u ∈ views := hviews ▸ List.mem_append_left _ hu
      obtain ⟨hp, hpasses⟩ := h.behind i u c hi hc
      have hne : u ≠ v := fun he => hfresh (he ▸ hu)
      exact ⟨((ht.others hmem hne).position (h.record u hmem ▸ hc)).trans hp, hpasses⟩
    · next hlt =>
      obtain ⟨hi₀, rfl⟩ : i = done.length ∧ v = u := by
        have hi₁ := List.mem_of_getElem? hi
        have hlt₁ := (List.getElem?_eq_some_iff.mp hi).1
        rw [List.length_singleton] at hlt₁
        exact ⟨by omega, (List.mem_singleton.mp hi₁).symm⟩
      subst hi₀
      have hmoves := hm c (h.record v hv ▸ hc)
      refine ⟨hmoves.moved, w, w', ?_, (h.ahead v hv hfresh).position hc, hmoves⟩
      rw [← hviews, List.take_left, hviews]
      exact h.run

/-- **The pass puts every context in its place.** -/
theorem positionViews_exact {done todo : List ViewId} (h : Passed S w₀ x views done w)
    (hviews : done ++ todo = views) :
    S.Leads (positionViews views.length done.length todo) w fun r w' =>
      r = .ok () ∧ Passed S w₀ x views views w' := by
  induction todo generalizing done w with
  | nil =>
    rw [List.append_nil] at hviews
    exact .of_eq (fun _ => rfl) ⟨rfl, hviews ▸ h⟩
  | cons v todo ih =>
    have hv : v ∈ views := by
      rw [← hviews]
      simp
    have hone : positionViews views.length done.length (v :: todo) = (do
        positionViews views.length done.length [v]
        positionViews views.length (done ++ [v]).length todo) := by
      rw [List.length_append]
      exact positionViews_append views.length done.length [v] todo
    rw [hone]
    refine (Leads.ran (positionView_attends h.own hv done.length views.length)).bind
      (fun e _ he => absurd he.1.1 nofun) fun _ w₁ h₁ => ?_
    obtain ⟨⟨-, ht, hrecord, hm⟩, hrun⟩ := h₁
    refine ih (h.next hviews hrun ht hrecord hm) ?_
    rw [List.append_assoc]
    exact hviews

/-! ## Batches -/

variable {b : BehaviorId} {s : RepeatState}

/-- **A batch is carried out** without moving any context. -/
theorem carryOut_stock (hw : w.Sole) (hs : w.repeatState? b = some s) (template : TemplateId)
    (bound : RepeatBound) (splices : List Splice) :
    S.Leads (carryOut b s template bound splices) w fun r x =>
      ∃ views outcome, r = .ok (views, outcome) ∧ Stock w x views := by
  unfold carryOut
  refine Leads.read (.step (Around.takeViews_apply hs) ?_)
  have htaken : Stock w (w.setViews b []) ([] ++ s.views) := .taken hw hs
  refine (applySplices_stock htaken s template bound.childContext _).bind
    (fun e _ ⟨_, _, _, h, _⟩ => absurd h nofun) ?_
  rintro _ w₁ ⟨withdrawn, views, outcome, ⟨⟩, h₁⟩
  refine (each_held_attends disposeView_attends (fun v hv => List.mem_append_left views hv)
    h₁.toOwn _).bind (fun e _ h => absurd h.1 nofun) fun _ w₂ ⟨_, hown, _, hrest⟩ => ?_
  have h₂ : Stock w w₂ (withdrawn ++ views) := ⟨hown, fun hv => hrest _ hv (h₁.resting hv)⟩
  exact .of_eq (fun _ => rfl) ⟨views, outcome, rfl, h₂.sublist (List.sublist_append_right _ _)⟩

/-- Own views are put back into a repeat. -/
theorem putViews_own (h : Own w₀ w views) (hs : w₀.repeatState? b = some s)
    (outcome : Except Error Unit) :
    S.Leads (do
        putViews b views
        Machine.ofExcept outcome) w fun r w' => r = outcome ∧ w₀.Leaves w' ∧ w'.Sole ∧
      w'.viewsOf? b = some views ∧ w'.views = w.views ∧ w'.contexts = w.contexts := by
  obtain ⟨s', hs'⟩ := repeatState?_of_lasts h.leaves.lasts hs
  obtain ⟨hl, hsole⟩ := h.put b
  have hviews : (w.setViews b views).viewsOf? b = some views :=
    viewsOf?_eq_some.mpr ⟨_, repeatState?_setViews hs' views, rfl⟩
  have hput : ∀ calls, putViews b views calls w = some (.ok (), w.setViews b views) := fun _ => rfl
  refine .step hput ?_
  cases outcome <;> exact .of_eq (fun _ => rfl) ⟨rfl, hl, hsole, hviews, rfl, rfl⟩

/-- **Updating views** leaves other things alone, and positions are exact if they are kept. -/
theorem updateViews_exact (hw : w.Sole) (hs : w.repeatState? b = some s) {template : TemplateId}
    {bound : RepeatBound} (htemplate : s.template = some template) (hbound : s.bound = some bound)
    (splices : List Splice) :
    S.Leads (updateViews b splices) w fun r w' => w.Leaves w' ∧ w'.Sole ∧
      (s.options.positioning = true → PositionedByBatch S.calls b s splices w r w') := by
  refine .congr (updateViews_eq hs htemplate hbound splices) ?_
  refine (Leads.ran (carryOut_stock hw hs template bound splices)).bind
    (fun e _ ⟨⟨_, _, h, _⟩, _⟩ => absurd h nofun) ?_
  rintro _ x ⟨⟨views, outcome, ⟨⟩, hx⟩, hrun⟩
  dsimp only
  split
  · next hon =>
    let xh : World := { x with held := views.map .view ++ x.held }
    have hstart : Passed S w xh views [] xh :=
      ⟨hx.toOwn.held _, rfl, fun _ _ => rfl, fun v _ _ => .refl xh v, fun _ _ _ h => absurd h nofun⟩
    have hpass : S.Leads (holdingViews views (positionViews views.length 0 views)) x fun r w' =>
        ∃ w₁ : World, w' = { w₁ with held := x.held } ∧ r = .ok () ∧ Passed S w xh views views w₁ :=
      Leads.within (positionViews_exact hstart rfl)
    refine hpass.bind
      (fun e _ ⟨_, _, h, _⟩ => absurd h nofun) ?_
    rintro _ _ ⟨w₁, rfl, -, h₁⟩
    refine (putViews_own (h₁.own.held x.held) hs outcome).mono ?_
    rintro r w' ⟨rfl, hl, hw', hviews, hv', hc'⟩
    have hexact : ∀ i v c, views[i]? = some v → (w'.views.get v).context = some c →
        w'.position c = (i, views.length) ∧ ∃ y y', Passes S.calls views xh i c y y' := by
      intro i v c hi hc
      rw [hv'] at hc
      have hmem := List.mem_of_getElem? hi
      obtain ⟨hp, hpasses⟩ := h₁.behind i v c hi (h₁.record v hmem ▸ hc)
      refine ⟨?_, hpasses⟩
      rw [World.position, hc']
      exact hp
    refine ⟨hl, hw', fun _ => ⟨template, bound, views, x, htemplate, hbound, hrun, hviews,
      fun i v c hi hc => (hexact i v c hi hc).1, fun i v c hi hc => ⟨?_, (hexact i v c hi hc).2⟩⟩⟩
    rw [hv'] at hc
    have hmem := List.mem_of_getElem? hi
    exact hx.resting hmem c (h₁.record v hmem ▸ hc)
  · next hoff =>
    refine (putViews_own hx.toOwn hs outcome).mono fun r w' h => ?_
    exact ⟨h.2.1, h.2.2.1, fun hon => absurd hon hoff⟩

end Setting

end ReactiveViews
