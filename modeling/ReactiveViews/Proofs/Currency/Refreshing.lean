import ReactiveViews.Proofs.Currency.Attached
/-!
# Refreshing

When the observer of a binding reacts, it evaluates the binding's expression and the value is applied. If the
expression is a formula, all of this is determined by the world at the start: the observer has the records
of what the formula reads (`World.Evaluated`), the aspect shows the value, and nothing else is touched
(`Machine.refreshBinding_draws`). So a refreshed attachment is fresh, whatever was pending
(`World.Tied.refreshed`), and one with another observer and another slot is left as tended as it was
(`World.Tended.beside`).
-/

namespace ReactiveViews

namespace World

/-- **Evaluated.** An observer has evaluated a formula. It has live records; if it was to discover its
dependencies, these are of all that was read, and else they are those that it had. -/
structure Evaluated (w : World) (o : ObserverId) (reads : List PropertyRead) (w' : World) : Prop
    extends w.SameValues w' where
  watcher : w'.watcher = w.watcher
  behaviors : w'.behaviors = w.behaviors
  document : w'.document = w.document
  others : ∀ o', o' ≠ o → w'.observers.get o' = w.observers.get o'
  registered : ∀ {o' n topic}, o' ≠ o → w.Registered o' n topic → w'.Registered o' n topic
  self : ∃ records refreshed,
    w'.observers.get o = { w.observers.get o with records, needsRefresh := refreshed } ∧
    ((∀ r ∈ (w.observers.get o).records, w.Live o r) → ∀ r ∈ records, w'.Live o r) ∧
    ((w.observers.get o).needsRefresh = true → (∀ read ∈ reads, w'.HasRecord o read) ∧
      ((w.observers.get o).isVolatile = true → refreshed = true)) ∧
    ((w.observers.get o).needsRefresh = false → records = (w.observers.get o).records)

variable {w w' : World} {o : ObserverId} {reads : List PropertyRead}

/-- What an observer has done for itself spares every other. -/
theorem Evaluated.spares (h : w.Evaluated o reads w') {a : Attachment} (ho : a.observer ≠ o) :
    w.Spares a w' where
  toStands := h.toStands
  watcher := h.watcher
  behavior := by rw [h.behaviors]
  observer := h.others _ ho
  registered := h.registered ho
  listeners _ hl := by rwa [h.document]

/-- The world in which an observer is about to evaluate its expression. -/
def poised (w : World) (o : ObserverId) : World :=
  let w₁ := if (w.observers.get o).needsRefresh && !(w.observers.get o).records.isEmpty then
    w.disconnect o else w
  { w₁ with observers := w₁.observers.modify o fun s => { s with needsRefresh := s.isVolatile } }

/-- Before it evaluates its expression, an observer that is to discover its dependencies forgets those
that it had. -/
theorem poised_observer (w : World) (o : ObserverId) :
    (w.poised o).observers.get o = { w.observers.get o with
      records := if (w.observers.get o).needsRefresh then [] else (w.observers.get o).records
      needsRefresh := (w.observers.get o).isVolatile } := by
  unfold poised
  dsimp only
  rw [Store.get_modify, if_pos rfl]
  cases hn : (w.observers.get o).needsRefresh with
  | false => simp
  | true =>
    cases hr : (w.observers.get o).records with
    | nil => simp [hr]
    | cons r records =>
      simp only [List.isEmpty_cons, Bool.not_false, Bool.and_self, if_true, disconnect,
        Store.get_modify]

theorem sameValues_poised (w : World) (o : ObserverId) : w.SameValues (w.poised o) := by
  unfold poised
  dsimp only
  split <;> exact .of_eq rfl rfl rfl rfl

/-- Nothing is done to other observers. -/
theorem poised_others (w : World) {o o' : ObserverId} (ho : o' ≠ o) :
    (w.poised o).observers.get o' = w.observers.get o' := by
  unfold poised
  dsimp only
  rw [Store.get_modify, if_neg (Ne.symm ho)]
  split
  · rw [disconnect, Store.get_modify, if_neg (Ne.symm ho)]
  · rfl

/-- Nor to who is watching, to what is held on to, to behaviors, and to the document. -/
theorem poised_frame (w : World) (o : ObserverId) : (w.poised o).watcher = w.watcher ∧
    (w.poised o).held = w.held ∧ (w.poised o).behaviors = w.behaviors ∧
    (w.poised o).document = w.document := by
  unfold poised
  dsimp only
  split <;> exact ⟨rfl, rfl, rfl, rfl⟩

theorem poised_registered (w : World) {o o' : ObserverId} {n : NotifierId} {topic : Option String}
    (hr : w.Registered o' n topic)
    (ho : o' ≠ o ∨ (w.observers.get o).needsRefresh = false) :
    (w.poised o).Registered o' n topic := by
  unfold poised Registered
  dsimp only
  split
  · next hc =>
    refine mem_cancelled.mpr ⟨hr, fun r _ _ he => ?_⟩
    obtain ho | ho := ho
    · exact ho (Subscriber.observer.inj (congrArg Subscription.subscriber he))
    · rw [ho] at hc
      exact absurd hc (by simp)
  · exact hr

/-- The world in which it evaluates its expression. -/
def evaluating (w : World) (o : ObserverId) : World :=
  { w.poised o with
    held := [.subscriber (.observer o)] ++ (w.poised o).held
    watcher := if (w.observers.get o).needsRefresh then some o else none }

theorem sameValues_evaluating (w : World) (o : ObserverId) : w.SameValues (w.evaluating o) :=
  (w.sameValues_poised o).trans (.of_eq rfl rfl rfl rfl)

/-- What an observer has recorded when its expression has been evaluated. -/
theorem self_of_noting (h : (w.evaluating o).Noting w' reads) : ∃ records refreshed,
    w'.observers.get o = { w.observers.get o with records, needsRefresh := refreshed } ∧
    ((∀ r ∈ (w.observers.get o).records, w.Live o r) → ∀ r ∈ records, w'.Live o r) ∧
    ((w.observers.get o).needsRefresh = true → (∀ read ∈ reads, w'.HasRecord o read) ∧
      ((w.observers.get o).isVolatile = true → refreshed = true)) ∧
    ((w.observers.get o).needsRefresh = false → records = (w.observers.get o).records) := by
  have hself : (w.evaluating o).observers.get o = _ := w.poised_observer o
  cases hn : (w.observers.get o).needsRefresh with
  | true =>
    have hw : (w.evaluating o).watcher = some o := if_pos hn
    obtain ⟨records, refreshed, hget, hkeeps, hlive, hreads⟩ := h.self o hw
    rw [hself, hn, if_pos rfl, List.nil_append] at hget
    refine ⟨records, refreshed, hget, fun _ => hlive, fun _ => ⟨fun read hr => ?_, fun hv => ?_⟩, fun he => absurd he (by simp)⟩
    · obtain ⟨r, hr, he⟩ := hreads read hr
      exact ⟨r, hget ▸ hr, he⟩
    · exact hkeeps (by rw [hself]; exact hv)
  | false =>
    have hw : (w.evaluating o).watcher = none := if_neg (by simp [hn])
    have hget := (h.others o (by simp [hw])).trans hself
    rw [hn, if_neg (by simp)] at hget
    refine ⟨_, _, hget, fun hlive r hr => ?_, fun he => absurd he (by simp), fun _ => rfl⟩
    exact (hlive r hr).stands ((w.sameValues_evaluating o).trans h.toSameValues).toStands
      fun hr => h.registered (w.poised_registered hr (.inr hn))

end World

namespace Machine

variable {α : Type} {calls : Calls} {w w' : World} {o : ObserverId} {reads : List PropertyRead}
  {v : Value} {b : BehaviorId} {s : BindingState}

/-- What an observer makes of the outcome of its expression: an error that it was to raise comes first. -/
def conclude (o : ObserverId) (outcome : Except Error Value) : Machine Value := do
  match ← read fun w => (w.observers.get o).deferredError with
  | some e =>
    modifyObserver o fun s => { s with deferredError := none }
    throw e
  | none => ofExcept outcome

/-- **Observing taken apart.** The observer is poised, it evaluates its expression as the watcher if it is to
discover anything, and it concludes. -/
theorem observe_eq_some {source : Value} {context : ContextId} {r : Except Error Value}
    (h : observe o source context calls w = some (r, w')) :
    ∃ outcome w₁, eval (w.observers.get o).evaluator ⟨source, context, .null⟩ calls (w.evaluating o) =
        some (outcome, w₁) ∧
      conclude o outcome calls { w₁ with watcher := w.watcher, held := w.held } = some (r, w') := by
  have hstart : observe o source context calls w = (do
      let result ← attempt <| holding [.subscriber (.observer o)] <|
        watching (if (w.observers.get o).needsRefresh then some o else none)
          (eval (w.observers.get o).evaluator ⟨source, context, .null⟩)
      conclude o result : Machine Value) calls (w.poised o) := by
    unfold observe
    rw [bind_apply, read_apply]
    dsimp only
    unfold World.poised
    split
    · rw [bind_apply, Setting.disconnect_apply]
      rfl
    · rfl
  rw [hstart] at h
  obtain ⟨e, hresult, -⟩ | ⟨outcome, w₂, hresult, h⟩ := bind_eq_some h
  · obtain ⟨x, -, hx⟩ := attempt_eq_some.mp hresult
    exact absurd hx (by simp)
  obtain ⟨x, hholding, he⟩ := attempt_eq_some.mp hresult
  obtain rfl := Except.ok.inj he
  obtain ⟨w₃, hwatching, rfl⟩ := within_eq_some.mp hholding
  obtain ⟨w₄, heval, rfl⟩ := within_eq_some.mp hwatching
  obtain ⟨hwatcher, hheld, -⟩ := w.poised_frame o
  refine ⟨outcome, w₄, heval, ?_⟩
  rw [← hwatcher, ← hheld]
  exact h

/-- **Observing a formula** gives its value. -/
theorem observe_gives (hc : RunsFormulas calls) {source : Value} {context : ContextId}
    (hd : (w.observers.get o).deferredError = none)
    (hv : w.compute? ⟨source, context, .null⟩ (w.observers.get o).evaluator = some (v, reads))
    (ht : ∀ read ∈ reads, w.Tracks read) {r : Except Error Value}
    (h : observe o source context calls w = some (r, w')) :
    r = .ok v ∧ w.Evaluated o reads w' := by
  obtain ⟨outcome, w₄, heval, h⟩ := observe_eq_some h
  have hsame := w.sameValues_evaluating o
  obtain ⟨rfl, hnoting⟩ := (hc _ _ _).gives (World.compute?_agree hv (hsame.agreesOn _))
    (fun p hp => (ht p hp).stands hsame.toStands) heval
  obtain ⟨records, refreshed, hself, hlive, hdiscovered, hkept⟩ := World.self_of_noting hnoting
  unfold conclude at h
  rw [bind_apply, read_apply] at h
  dsimp only at h
  rw [hself] at h
  dsimp only at h
  rw [hd] at h
  obtain ⟨rfl, rfl⟩ := Prod.mk.inj (Option.some.inj h)
  obtain ⟨-, -, hbehaviors, hdocument⟩ := w.poised_frame o
  refine ⟨rfl, ⟨(hsame.trans hnoting.toSameValues).trans (.of_eq rfl rfl rfl rfl), rfl,
    hnoting.behaviors.trans hbehaviors, hnoting.document.trans hdocument, fun o' ho => ?_,
    fun ho hr => hnoting.registered (w.poised_registered hr (.inl ho)),
    records, refreshed, hself, hlive, hdiscovered, hkept⟩⟩
  refine (hnoting.others o' ?_).trans (w.poised_others ho)
  show (if (w.observers.get o).needsRefresh then some o else none) ≠ some o'
  split
  · exact fun he => ho (Option.some.inj he).symm
  · simp

end Machine

namespace World

variable {w w' w₁ : World} {o : ObserverId} {b : BehaviorId} {s : BindingState} {bound : Bound}
  {v : Value} {reads : List PropertyRead} {a : Attachment} {changing : List PropertyRead}
  {as : List Attachment}

/-- **Refreshable.** A bound behavior has an observer whose expression is a formula of properties that can
be tracked, and the value is shown by itself. -/
structure Refreshable (w : World) (o : ObserverId) (b : BehaviorId) (s : BindingState) (bound : Bound)
    (v : Value) (reads : List PropertyRead) : Prop where
  state_eq : w.bindingState? b = some s
  bound_eq : s.bound = some bound
  observer_eq : s.observer = some o
  fine : (w.observers.get o).deferredError = none
  value : w.compute? ⟨bound.source, bound.context, .null⟩ (w.observers.get o).evaluator =
    some (v, reads)
  tracks : ∀ read ∈ reads, w.Tracks read
  plain : s.ShowsPlainly v

theorem bindingState?_congr (h : w'.behaviors = w.behaviors) (b : BehaviorId) :
    w'.bindingState? b = w.bindingState? b := by
  rw [bindingState?, bindingState?, World.behavior, World.behavior, h]

theorem Refreshable.sameValues (h : w.Refreshable o b s bound v reads) (hs : w.SameValues w')
    (hb : w'.behaviors = w.behaviors)
    (he : (w'.observers.get o).evaluator = (w.observers.get o).evaluator)
    (hd : (w'.observers.get o).deferredError = (w.observers.get o).deferredError) :
    w'.Refreshable o b s bound v reads where
  state_eq := (bindingState?_congr hb b).trans h.state_eq
  bound_eq := h.bound_eq
  observer_eq := h.observer_eq
  fine := hd.trans h.fine
  value := by
    rw [he]
    exact compute?_agree h.value (hs.agreesOn _)
  tracks read hr := (h.tracks read hr).stands hs.toStands
  plain := h.plain

theorem Drawn.spares {n : NodeId} {aspect : Aspect} (h : w.Drawn n aspect v w') (a : Attachment) :
    w.Spares a w' where
  toStands := h.redrawn.sameValues.toStands
  watcher := by rw [h.redrawn]
  behavior := by rw [h.redrawn]
  observer := by rw [h.redrawn]
  registered hr := by
    rw [h.redrawn]
    exact hr
  listeners _ hl := by rwa [Document.listener?, h.listeners]

/-- **One refresh beside another attachment** leaves it tended. -/
theorem Tended.beside (h : w.Tended changing a) (hobserved : w.Evaluated o reads w₁)
    (hdrawn : w₁.Drawn s.target s.aspect v w') (ho : a.observer ≠ o)
    (hap : s.aspect.Apart s.target a.target a.aspect) : w'.Tended changing a :=
  (h.same (hobserved.spares ho) hobserved.peek hobserved.document).spared (hdrawn.spares _)
    (fun _ _ _ => hdrawn.redrawn.sameValues.peek _ _) (fun _ => id) fun _ => hdrawn.others hap

/-- What a tied observer is tied to once it has observed. -/
theorem Tied.observed (h : w.Tied a) (hobserved : w.Evaluated a.observer reads w')
    (hv : w.compute? a.env a.formula = some (v, reads)) :
    w'.Tied a ∧ ∀ read ∈ reads, w'.HasRecord a.observer read := by
  obtain ⟨records, refreshed, hself, hlive, hdiscovered, hkept⟩ := hobserved.self
  obtain ⟨records₀, needsRefresh, hobserver⟩ := h.observer
  have hreads : ∀ read ∈ reads, w'.HasRecord a.observer read := by
    obtain hn | ⟨reads', honly, hrecorded⟩ := h.tracking
    · exact (hdiscovered hn).1
    · cases hn : (w.observers.get a.observer).needsRefresh with
      | true => exact (hdiscovered hn).1
      | false =>
        obtain rfl := honly w v reads hv
        refine fun read hr => (HasRecord.of_records ?_).mpr (hrecorded read hr)
        rw [hself]
        exact hkept hn
  refine ⟨⟨?_, ⟨records, refreshed, ?_⟩, fun r hr => ?_, ?_, h.volatile, ?_⟩, hreads⟩
  · rw [hobserved.behaviors, h.behavior]
  · rw [hself, hobserver]
  · rw [hself] at hr
    exact hlive h.live r hr
  · obtain hvolatile | ⟨reads', honly⟩ := h.volatile
    · cases hn : (w.observers.get a.observer).needsRefresh with
      | true =>
        refine .inl ?_
        rw [hself]
        exact (hdiscovered hn).2 (by rw [hobserver]; exact hvolatile)
      | false =>
        obtain hn' | ⟨reads', honly, -⟩ := h.tracking
        · exact absurd (hn.symm.trans hn') (by simp)
        · obtain rfl := honly w v reads hv
          exact .inr ⟨reads, honly, hreads⟩
    · obtain rfl := honly w v reads hv
      exact .inr ⟨reads, honly, hreads⟩
  · rw [hobserved.document]
    exact h.listens

/-- **A refreshed attachment is fresh**, whatever was pending. -/
theorem Tied.refreshed (h : w.Tied a) (hw : w.watcher = none) (hobserved : w.Evaluated a.observer reads w₁)
    (hdrawn : w₁.Drawn a.target a.aspect v w') (hv : w.compute? a.env a.formula = some (v, reads)) :
    w'.Tended [] a := by
  obtain ⟨htied, hreads⟩ := h.observed hobserved hv
  have hspares := hdrawn.spares a
  refine ⟨hspares.watcher.trans (hobserved.watcher.trans hw), htied.spared hspares, .inl ?_⟩
  refine ⟨v, v, reads, compute?_agree hv ?_, hdrawn.displays, .inl rfl, fun read hr => ?_⟩
  · exact (hobserved.toSameValues.trans hdrawn.redrawn.sameValues).agreesOn reads
  · exact (HasRecord.of_records (congrArg ObserverState.records hspares.observer)).mpr (hreads read hr)

end World

namespace Machine

variable {calls : Calls} {w w' : World} {o : ObserverId} {b : BehaviorId} {s : BindingState}
  {bound : Bound} {v : Value} {reads : List PropertyRead}

/-- Refreshing a behavior that has an observer. -/
theorem refreshBinding_apply {o : ObserverId} (hs : w.bindingState? b = some s)
    (hbound : s.bound = some bound) (ho : s.observer = some o) (calls : Calls) :
    refreshBinding b calls w = (do
      let value ← observe o bound.source bound.context
      applyBinding b value bound.source bound.context : Machine Unit) calls w := by
  unfold refreshBinding
  rw [bind_apply, get_apply]
  dsimp only
  rw [hs]
  dsimp only
  rw [hbound]
  dsimp only
  rw [bind_apply, bindingObserver, ho]
  rfl

/-- **Refreshing a binding** whose expression is a formula. -/
theorem refreshBinding_draws (hc : RunsFormulas calls) (hr : w.Refreshable o b s bound v reads)
    {r : Except Error Unit} (h : refreshBinding b calls w = some (r, w')) :
    r = .ok () ∧ ∃ w₁, w.Evaluated o reads w₁ ∧ w₁.Drawn s.target s.aspect v w' := by
  rw [refreshBinding_apply hr.state_eq hr.bound_eq hr.observer_eq] at h
  obtain ⟨e, hobserve, -⟩ | ⟨value, w₁, hobserve, h⟩ := bind_eq_some h
  · exact absurd (observe_gives hc hr.fine hr.value hr.tracks hobserve).1 (by simp)
  · obtain ⟨he, hobserved⟩ := observe_gives hc hr.fine hr.value hr.tracks hobserve
    obtain rfl := Except.ok.inj he
    obtain ⟨w₂, happly, hdrawn⟩ := applyBinding_draws
      ((World.bindingState?_congr hobserved.behaviors b).trans hr.state_eq) hr.plain bound.source
      bound.context calls
    obtain ⟨rfl, rfl⟩ := Prod.mk.inj (Option.some.inj (happly.symm.trans h))
    exact ⟨rfl, w₁, hobserved, hdrawn⟩

end Machine

end ReactiveViews
