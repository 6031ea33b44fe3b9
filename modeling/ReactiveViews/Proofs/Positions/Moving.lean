import ReactiveViews.Proofs.Positions.Custody
import ReactiveViews.Proofs.Positions.Owning
/-!
# Moving contexts

A context that is moved has both its index and its length changed before anybody is told
(`Machine.Moves`). Those who subscribed to the index are told first, if it has changed, and may do as
they like: a context that is free stays where it has been put, so those who subscribed to the length
find both as well.
-/

namespace ReactiveViews

open Machine World

namespace World

/-- A context that is where it should be is not moved. -/
theorem place_position {w : World} {c : ContextId} (hm : w.Made (.context c)) :
    w.place c (w.position c).1 (w.position c).2 = w := by
  have hs : (w.contexts.modify c fun s => { s with
      index := (w.position c).1, length := (w.position c).2 }) = w.contexts :=
    Store.modify_eq_self hm rfl
  rw [place, hs]

end World

namespace Machine

/-- **Telling.** Subscribers are told of a change if there has been one and there is a notifier to tell
them, and otherwise nothing happens. -/
def Tells (calls : Calls) (notifier : Option NotifierId) (changed : Prop)
    (tell : NotifierId → Machine Unit) (w w' : World) : Prop :=
  (∃ n, notifier = some n ∧ changed ∧ tell n calls w = some (.ok (), w')) ∨
    (notifier = none ∨ ¬ changed) ∧ w' = w

/-- **Moving.** What it comes to that a context gets a new position. -/
structure Moves (calls : Calls) (c : ContextId) (index length : Nat) (w w' : World) : Prop where
  run : updatePosition c index length calls w = some (.ok (), w')
  /-- Nothing is done if the position is not new. -/
  still : w.position c = (index, length) → ∀ calls', updatePosition c index length calls' w =
    some (.ok (), w)
  /-- Both parts are stored when those are told who subscribed to either. -/
  told : ∃ w₁,
    Tells calls (w.contexts.get c).notifier ((w.position c).1 ≠ index)
      (fun n => holding (if (w.position c).2 ≠ length then [.changing (.context c) "length"] else [])
        (notify n (.property "index"))) (w.place c index length) w₁ ∧
    w₁.position c = (index, length) ∧
    Tells calls (w.contexts.get c).notifier ((w.position c).2 ≠ length)
      (fun n => notify n (.property "length")) w₁ w'
  moved : w'.position c = (index, length)

theorem modifyContext_apply (c : ContextId) (index length : Nat) (calls : Calls) (w : World) :
    modifyContext c (fun s => { s with index, length }) calls w =
      some (.ok (), w.place c index length) := rfl

/-- A context that is where it should be is not moved, and nobody is told. -/
theorem updatePosition_still {w : World} {c : ContextId} {index length : Nat}
    (hm : w.Made (.context c)) (h : w.position c = (index, length)) (calls : Calls) :
    updatePosition c index length calls w = some (.ok (), w) := by
  obtain ⟨rfl, rfl⟩ := Prod.mk.inj h
  have hplace := place_position hm
  unfold updatePosition
  rw [bind_apply, read_apply]
  dsimp only
  rw [bind_apply, modifyContext_apply]
  dsimp only [World.position] at hplace ⊢
  rw [hplace]
  cases (w.contexts.get c).notifier with
  | none => rfl
  | some n =>
    dsimp only
    rw [if_neg (fun h => h rfl), if_neg (fun h => h rfl)]
    rfl

end Machine

namespace Setting

variable {α : Type} {S : Setting custody} {w₀ w : World}

/-- What a computation comes to is what it has been run to. -/
theorem Leads.ran {m : Machine α} {Q : Except Error α → World → Prop} (h : S.Leads m w Q) :
    S.Leads m w fun r w' => Q r w' ∧ m S.calls w = some (r, w') :=
  fun r w' hr => ⟨(h r w' hr).1, (h r w' hr).2, hr⟩

/-- What is done in one case only, and then the rest. -/
theorem ite_bind (p : Prop) [Decidable p] (m : Machine Unit) (f : Unit → Machine α) :
    (if p then m >>= f else f ()) = (if p then m else pure ()) >>= f := by
  split
  · rfl
  · rw [pure_bind]

/-- Telling subscribers leaves things alone. -/
theorem tells_leads (hw : w.Sole) (tell : NotifierId → Machine Unit) [∀ n, S.Agrees (tell n)]
    [∀ n, Firm S.calls (tell n)] (n : NotifierId) (changed : Prop) [Decidable changed] :
    S.Leads (if changed then tell n else pure ()) w fun r w' =>
      r = .ok () ∧ w.Leaves w' ∧ w'.Sole ∧ Tells S.calls (some n) changed tell w w' := by
  split
  · next h =>
    refine (Leads.ran (Agrees.agreesAt hw)).mono fun r w' ⟨hr, hrun⟩ => ?_
    obtain ⟨_, rfl⟩ := Firm.ok hrun
    exact ⟨rfl, hr.1, hr.2, .inl ⟨n, rfl, h, hrun⟩⟩
  · next h => exact .of_eq (fun _ => rfl) ⟨rfl, .refl w, hw, .inr ⟨.inr h, rfl⟩⟩

/-- **Moving a context** leaves everything else alone, and if it is free it stays where it is put. -/
theorem updatePosition_leads (hw : w.Sole) (c : ContextId) (index length : Nat) :
    S.Leads (updatePosition c index length) w fun r w' =>
      r = .ok () ∧ (w.place c index length).Leaves w' ∧ w'.Sole ∧
        (w.Free (.context c) → Moves S.calls c index length w w') := by
  let old := w.contexts.get c
  let x := w.place c index length
  have hx : x.Sole := hw.place c index length
  -- what is known in the end, once the subscribers to the index and to the length have been told
  have hend : ∀ {w₁ w₂}, x.Leaves w₁ → w₁.Leaves w₂ →
      updatePosition c index length S.calls w = some (.ok (), w₂) →
      Tells S.calls old.notifier (old.index ≠ index)
        (fun n => holding (if old.length ≠ length then [.changing (.context c) "length"] else [])
          (notify n (.property "index"))) x w₁ →
      Tells S.calls old.notifier (old.length ≠ length) (fun n => notify n (.property "length"))
        w₁ w₂ →
      w.Free (.context c) → Moves S.calls c index length w w₂ := by
    intro w₁ w₂ hl₁ hl₂ hrun hindex hlength hf
    have hpos : x.position c = (index, length) := by
      rw [position_place, if_pos rfl]
    have hf₁ : w₁.Free (.context c) := hl₁.free (hf.place c index length)
    have hpos₁ := (hl₁.position (hf.place c index length)).trans hpos
    exact ⟨hrun, updatePosition_still hf.made, ⟨w₁, hindex, hpos₁, hlength⟩,
      (hl₂.position hf₁).trans hpos₁⟩
  refine (Leads.ran (Q := fun r w' => r = .ok () ∧ ∃ w₁, x.Leaves w₁ ∧ w₁.Leaves w' ∧ w'.Sole ∧
    Tells S.calls old.notifier (old.index ≠ index)
      (fun n => holding (if old.length ≠ length then [.changing (.context c) "length"] else [])
        (notify n (.property "index"))) x w₁ ∧
    Tells S.calls old.notifier (old.length ≠ length) (fun n => notify n (.property "length"))
      w₁ w') ?_).mono ?_
  · unfold updatePosition
    refine .read (.step (modifyContext_apply c index length · w) ?_)
    split
    · next hn =>
      exact .of_eq (fun _ => rfl) ⟨rfl, x, .refl x, .refl x, hx, .inr ⟨.inl hn, rfl⟩,
        .inr ⟨.inl hn, rfl⟩⟩
    · next n hn =>
      let tell : NotifierId → Machine Unit := fun m => holding
        (if old.length ≠ length then [.changing (.context c) "length"] else [])
        (notify m (.property "index"))
      have hheld : ∀ m, S.Agrees (tell m) := fun m =>
        agrees_changing (by split <;> simp) inferInstance
      have hfirm : ∀ m, Firm S.calls (tell m) := fun m => inferInstanceAs (Firm S.calls (holding _ _))
      extract_lets second
      rw [ite_bind]
      refine (tells_leads hx tell n (old.index ≠ index)).bind (fun e _ h => absurd h.1 (by simp))
        fun u w₁ h₁ => ?_
      refine (tells_leads h₁.2.2.1 (fun m => notify m (.property "length")) n
        (old.length ≠ length)).mono fun r w' h => ?_
      have hn' : old.notifier = some n := hn
      rw [hn']
      exact ⟨h.1, w₁, h₁.2.1, h.2.1, h.2.2.1, h₁.2.2.2, h.2.2.2⟩
  · rintro r w' ⟨⟨rfl, w₁, hl₁, hl₂, hw', hindex, hlength⟩, hrun⟩
    exact ⟨rfl, LeavesBut.trans hl₁ hl₂, hw', hend hl₁ hl₂ hrun hindex hlength⟩

/-! ## Commands -/

/-- A context in hand may be moved. -/
theorem updatePosition_inHand {c : ContextId} (h : InHand w₀ w (.context c)) (index length : Nat) :
    S.Keeps w₀ (updatePosition c index length) w fun _ _ => True :=
  (updatePosition_leads h.sole c index length).mono fun _ _ h' =>
    ⟨LeavesBut.trans (h.leaves.place h.foreign index length) h'.2.1, h'.2.2.1, fun _ _ => trivial⟩

instance custody_performContext (c : ContextCommand) : S.Agrees (performContext c) := by
  -- a context is made and named
  have hmade : ∀ {w₀ w : World} (s : ContextState) (name : String), w₀.Leaves w → w.Sole →
      S.Keeps w₀ (do
        giveHandle name (.context (← newContext s))
        return Answer.unit) w fun _ _ => True := by
    intro w₀ w s name hr hw
    refine (newContext_inHand hr hw s).bind fun c w₁ _ _ h₁ => ?_
    exact (giveHandle_keeps h₁ name).bind fun _ w₂ hr₂ hw₂ _ => .of_eq (fun _ => rfl) hr₂ hw₂ trivial
  refine ⟨fun {w} hw => ?_⟩
  cases c with
  | create name => exact (hmade _ name (.refl w) hw).agreesAt
  | child name context source =>
    refine Keeps.agreesAt (P := fun _ _ => True) ?_
    refine .then (.refl w) hw fun c w₁ hr₁ hw₁ _ => .then hr₁ hw₁ fun v w₂ hr₂ hw₂ _ => ?_
    exact hmade _ name hr₂ hw₂
  | item name context index length =>
    refine Keeps.agreesAt (P := fun _ _ => True) ?_
    refine .then (.refl w) hw fun c w₁ hr₁ hw₁ _ => ?_
    exact hmade _ name hr₁ hw₁
  | move name index length =>
    refine Keeps.agreesAt (P := fun _ _ => True) ?_
    refine (contextNamed_inHand hw name).bind fun c w₁ _ _ h₁ => ?_
    exact (updatePosition_inHand h₁ index length).bind fun _ w₂ hr₂ hw₂ _ =>
      .of_eq (fun _ => rfl) hr₂ hw₂ trivial
  | info name =>
    unfold Machine.performContext
    exact Agrees.agreesAt hw

/-- A view that has been rendered is in hand. -/
theorem render_inHand (hr : w₀.Leaves w) (hw : w.Sole) (t : TemplateId) (source : Value)
    (context : ContextId) (parent : NodeId) :
    S.Keeps w₀ (render t source context parent) w fun v w' => InHand w₀ w' (.view v) := by
  unfold render
  refine (createView_inHand hr hw t).bind fun v w₁ _ _ h₁ => ?_
  refine (Keeps.of_inHand (bindView_inHand h₁ source context)).bind fun _ w₂ _ _ h₂ => ?_
  exact (Keeps.of_inHand (agrees_inHand h₂)).bind fun _ w₃ hr₃ hw₃ h₃ =>
    .of_eq (fun _ => rfl) hr₃ hw₃ h₃

instance custody_renderFresh (t : TemplateId) (source : Literal) : S.Agrees (renderFresh t source) := by
  refine ⟨fun {w} hw => Keeps.agreesAt (P := fun _ _ => True) ?_⟩
  unfold renderFresh
  refine .then (.refl w) hw fun v w₁ hr₁ hw₁ _ => .then hr₁ hw₁ fun host w₂ hr₂ hw₂ _ =>
    .then hr₂ hw₂ fun c w₃ hr₃ hw₃ _ => ?_
  refine (render_inHand hr₃ hw₃ t v c host).bind fun u w₄ _ _ h₄ => ?_
  refine (giveHandle_keeps h₄ "rendered").bind fun _ w₅ hr₅ hw₅ _ => ?_
  exact (Keeps.of_agrees hr₅ hw₅).mono fun _ _ _ => trivial

instance custody_performView (c : ViewCommand) : S.Agrees (performView c) := by
  refine ⟨fun {w} hw => Keeps.agreesAt (P := fun _ _ => True) ?_⟩
  have hunit : ∀ {w₁ : World}, w.Leaves w₁ → w₁.Sole →
      S.Keeps w (pure Answer.unit : Machine Answer) w₁ fun _ _ => True :=
    fun hr hw => .of_eq (fun _ => rfl) hr hw trivial
  cases c with
  | create name template =>
    refine .then (.refl w) hw fun t w₁ hr₁ hw₁ _ => ?_
    refine (createView_inHand hr₁ hw₁ t).bind fun v w₂ _ _ h₂ => ?_
    exact (giveHandle_keeps h₂ name).bind fun _ w₃ hr₃ hw₃ _ => hunit hr₃ hw₃
  | render name template source host context =>
    refine .then (.refl w) hw fun t w₁ hr₁ hw₁ _ => .then hr₁ hw₁ fun v w₂ hr₂ hw₂ _ =>
      .then hr₂ hw₂ fun n w₃ hr₃ hw₃ _ => .then hr₃ hw₃ fun c w₄ hr₄ hw₄ _ => ?_
    refine (render_inHand hr₄ hw₄ t v c n).bind fun u w₅ _ _ h₅ => ?_
    refine (giveHandle_keeps h₅ name).bind fun _ w₆ hr₆ hw₆ _ => ?_
    exact (Keeps.of_agrees hr₆ hw₆).mono fun _ _ _ => trivial
  | bind name source context =>
    refine (viewNamed_inHand hw name).bind fun v w₁ _ _ h₁ => ?_
    refine (Keeps.of_inHand (agrees_inHand h₁)).bind fun s w₂ _ _ h₂ => ?_
    refine (Keeps.of_inHand (agrees_inHand h₂)).bind fun c w₃ _ _ h₃ => ?_
    exact (Keeps.of_inHand (bindView_inHand h₃ s c)).bind fun _ w₄ hr₄ hw₄ _ => hunit hr₄ hw₄
  | unbind name =>
    refine (viewNamed_inHand hw name).bind fun v w₁ _ _ h₁ => ?_
    exact (Keeps.of_inHand (unbindView_inHand h₁)).bind fun _ w₂ hr₂ hw₂ _ => hunit hr₂ hw₂
  | dispose name =>
    refine (viewNamed_inHand hw name).bind fun v w₁ _ _ h₁ => ?_
    refine Keeps.bind (P := fun _ _ => True) ?_ fun _ w₂ hr₂ hw₂ _ => hunit hr₂ hw₂
    unfold disposeView
    refine (Keeps.of_inHand (agrees_inHand h₁)).bind fun nodes w₂ _ _ h₂ => ?_
    refine (Keeps.of_inHand (agrees_inHand h₂)).bind fun _ w₃ _ _ h₃ => ?_
    exact (Keeps.of_inHand (unbindView_inHand h₃)).mono fun _ _ _ => trivial
  | append | insertBefore | remove | info =>
    refine (Keeps.of_agreesAt (.refl w) ?_).mono fun _ _ _ => trivial
    unfold Machine.performView
    exact Agrees.agreesAt hw

instance : S.Naming := ⟨inferInstance, inferInstance, inferInstance⟩

end Setting

end ReactiveViews
