import ReactiveViews.Proofs.Currency.Writes
/-!
# Attaching a binding

Binding a behavior that is not bound gives it an observer, if it has none, and refreshes it. Up to the refresh
nothing but the behavior and its observer has changed (`World.Begun`), so that other attachments are left
as tended as they were, and the new one is tied; the refresh makes it fresh (`Machine.refreshBinding_attaches`).
-/

namespace ReactiveViews

/-- The environment of a binding that is bound. -/
def Bound.env (bound : Bound) : Env := ⟨bound.source, bound.context, .null⟩

/-- A behavior that is given a source and an observer. -/
def BindingState.attached (s : BindingState) (o : ObserverId) (bound : Bound) : BindingState :=
  { s with observer := some o, bound := some bound }

/-- Its attachment. -/
def BindingState.attachment (s : BindingState) (b : BehaviorId) (o : ObserverId) (bound : Bound) :
    Attachment where
  behavior := b
  state := s.attached o bound
  observer := o
  bound := bound
  observer_eq := rfl
  bound_eq := rfl
  edited := none

namespace World

/-- **Bindable.** A behavior is not bound and does not listen, and has no observer or one that has been disposed
of. Its binding is synchronous, and a formula of properties that can be tracked, for a value that is shown by itself. -/
structure Bindable (w : World) (b : BehaviorId) (s : BindingState) (bound : Bound) (v : Value)
    (reads : List PropertyRead) : Prop where
  cell : w.behaviors.get b = ⟨.binding s, true⟩
  unbound : s.bound = none
  silent : s.listener = none
  idle : ∀ o, s.observer = some o → w.observers.get o =
    ⟨s.binding.evaluator, s.binding.isVolatile, .refresh b, [], true, false, false, none⟩
  synchronous : s.binding.isSynchronous = true
  tracking : s.binding.isVolatile = true ∨ ∃ reads, s.binding.evaluator.ReadsOnly bound.env reads
  value : w.compute? bound.env s.binding.evaluator = some (v, reads)
  tracks : ∀ read ∈ reads, w.Tracks read
  plain : s.ShowsPlainly v

/-- **About to be refreshed.** A behavior has been bound and given an observer, and nothing else has been
done. -/
structure Begun (w : World) (b : BehaviorId) (s : BindingState) (bound : Bound) (o : ObserverId)
    (w' : World) : Prop extends w.SameValues w' where
  watcher : w'.watcher = w.watcher
  document : w'.document = w.document
  notifiers : w'.notifiers = w.notifiers
  behavior : w'.behaviors.get b = ⟨.binding (s.attached o bound), true⟩
  behaviors : ∀ b', b' ≠ b → w'.behaviors.get b' = w.behaviors.get b'
  observer : w'.observers.get o =
    ⟨s.binding.evaluator, s.binding.isVolatile, .refresh b, [], true, false, false, none⟩
  observers : ∀ o', o' ≠ o → w'.observers.get o' = w.observers.get o'
  /-- The observer is new, or it is the behavior's already. -/
  own : w.observers.get o = default ∨ (w.observers.get o).reaction = .refresh b

/-- Whether a behavior without an observer is bindable, because its binding discovers what it reads or reads
one property of an object. -/
def isBindable (w : World) (b : BehaviorId) (bound : Bound) : Bool :=
  match w.behaviors.get b with
  | ⟨.binding s, true⟩ =>
    s.bound.isNone && s.listener.isNone && s.observer.isNone && s.binding.isSynchronous &&
    (s.binding.isVolatile || match s.binding.evaluator.sourceProperty?, bound.source with
      | some _, .object _ => true
      | _, _ => false) &&
    match w.compute? bound.env s.binding.evaluator with
    | none => false
    | some (v, reads) => reads.all (fun read => decide (w.Tracks read)) && decide (s.ShowsPlainly v)
  | _ => false

variable {w w' w₁ : World} {b : BehaviorId} {s : BindingState} {bound : Bound} {o : ObserverId}
  {v : Value} {reads : List PropertyRead} {a : Attachment} {changing : List PropertyRead}

theorem exists_bindable (h : w.isBindable b bound = true) :
    ∃ s v reads, w.Bindable b s bound v reads := by
  unfold isBindable at h
  split at h
  · next s hcell =>
    simp only [Bool.and_eq_true, Option.isNone_iff_eq_none] at h
    obtain ⟨⟨⟨⟨⟨hbound, hlistener⟩, hobserver⟩, hsynchronous⟩, htracking⟩, hvalue⟩ := h
    split at hvalue
    · exact absurd hvalue (by simp)
    next v reads hv =>
    rw [Bool.and_eq_true] at hvalue
    refine ⟨s, v, reads, hcell, hbound, hlistener, by simp [hobserver], hsynchronous, ?_, hv, fun read hr => ?_,
      of_decide_eq_true hvalue.2⟩
    · obtain hvolatile | honly := (Bool.or_eq_true _ _).mp htracking
      · exact .inl hvolatile
      · split at honly
        · next name o he hsource =>
          exact .inr ⟨_, Expr.sourceProperty?_eq_some he ▸ Expr.readsOnly_property hsource name⟩
        · exact absurd honly (by simp)
    · exact of_decide_eq_true (List.all_eq_true.mp hvalue.1 read hr)
  · exact absurd h (by simp)

/-- What is attached already is not the behavior that is being bound, and has another observer. -/
theorem Tied.ne_of_bindable (h : w.Tied a) (hb : w.Bindable b s bound v reads) : a.behavior ≠ b := by
  rintro rfl
  have hs : a.state = s := by
    have he := h.behavior.symm.trans hb.cell
    simpa using he
  exact absurd (a.bound_eq.symm.trans (hs ▸ hb.unbound)) (by simp)

theorem Begun.ne_observer (hg : w.Begun b s bound o w') (h : w.Tied a) (hne : a.behavior ≠ b) :
    a.observer ≠ o := by
  rintro rfl
  obtain hd | hr := hg.own
  · exact absurd (h.reaction.symm.trans (congrArg ObserverState.reaction hd)) (by simp [default])
  · exact hne (Reaction.refresh.inj (h.reaction.symm.trans hr))

/-- Other attachments are not touched. -/
theorem Tended.begun (h : w.Tended changing a) (hb : w.Bindable b s bound v reads)
    (hg : w.Begun b s bound o w') : w'.Tended changing a := by
  have hne := h.tied.ne_of_bindable hb
  refine h.same ⟨hg.toStands, hg.watcher, hg.behaviors _ hne,
    hg.observers _ (hg.ne_observer h.tied hne), fun hr => ?_, fun _ hl => ?_⟩ hg.peek hg.document
  · rwa [Registered, hg.notifiers]
  · rwa [hg.document]

/-- The new attachment is tied, without records so far. -/
theorem Begun.tied (hg : w.Begun b s bound o w') (hb : w.Bindable b s bound v reads) :
    w'.Tied (s.attachment b o bound) where
  behavior := hg.behavior
  observer := ⟨[], true, hg.observer⟩
  live r hr := by
    rw [show (s.attachment b o bound).observer = o from rfl, hg.observer] at hr
    exact absurd hr List.not_mem_nil
  tracking := .inl (congrArg ObserverState.needsRefresh hg.observer)
  volatile := hb.tracking
  listens slot hl := absurd (hb.silent.symm.trans hl) (by simp)

theorem Begun.refreshable (hg : w.Begun b s bound o w') (hb : w.Bindable b s bound v reads) :
    w'.Refreshable o b (s.attached o bound) bound v reads where
  state_eq := by rw [bindingState?, World.behavior, hg.behavior]
  bound_eq := rfl
  observer_eq := rfl
  fine := congrArg ObserverState.deferredError hg.observer
  value := by
    rw [hg.observer]
    exact compute?_agree hb.value (hg.agreesOn _)
  tracks read hr := (hb.tracks read hr).stands hg.toStands
  plain := hb.plain

end World

namespace Machine

variable {calls : Calls} {w w' : World} {b : BehaviorId} {s : BindingState} {bound : Bound}
  {v : Value} {reads : List PropertyRead}

/-- The world in which a behavior has been given its source. -/
def sourced (w : World) (b : BehaviorId) (s : BindingState) (bound : Bound) : World :=
  { w with behaviors := w.behaviors.modify b fun c =>
      { c with behavior := .binding { s with bound := some bound } } }

/-- A bound behavior is given a new observer, which is told of changes at once. -/
def furnished (w : World) (b : BehaviorId) (s : BindingState) : World :=
  let made := w.observers.add
    ⟨s.binding.evaluator, s.binding.isVolatile, .refresh b, [], true, true, true, none⟩
  World.giveObserver { w with
    observers := made.2.modify made.1 fun s => { s with isAsync := false, needsQueue := false } } b made.1

theorem bindingObserver_apply (ho : s.observer = none) (hs : s.binding.isSynchronous = true)
    (calls : Calls) :
    bindingObserver b s calls w = some (.ok ⟨w.observers.cells.size⟩, furnished w b s) := by
  unfold bindingObserver
  rw [ho]
  dsimp only
  rw [bind_apply, newObserver, modifyGet_apply]
  dsimp only
  rw [if_pos hs]
  rfl

/-- **A refresh begins** with giving the behavior its observer. -/
theorem refreshBinding_begins (hb : w.Bindable b s bound v reads) (calls : Calls) :
    ∃ o w₁, refreshBinding b calls (sourced w b s bound) = refreshBinding b calls w₁ ∧
      w.Begun b s bound o w₁ := by
  have hcell : (sourced w b s bound).behaviors.get b =
      ⟨.binding { s with bound := some bound }, true⟩ := by
    refine (Store.get_modify _ _ _ _).trans ((if_pos rfl).trans ?_)
    rw [hb.cell]
  have hothers : ∀ b', b' ≠ b → (sourced w b s bound).behaviors.get b' = w.behaviors.get b' :=
    fun b' hne => (Store.get_modify _ _ _ _).trans (if_neg (Ne.symm hne))
  cases ho : s.observer with
  | some o =>
    refine ⟨o, sourced w b s bound, rfl, .of_eq rfl rfl rfl rfl, rfl, rfl, rfl, ?_, hothers,
      hb.idle o ho, fun _ _ => rfl, .inr ?_⟩
    · rw [hcell, BindingState.attached, ← ho]
    · rw [hb.idle o ho]
  | none =>
    have hbound := bindingObserver_apply (w := sourced w b s bound) (b := b)
      (s := { s with bound := some bound }) ho hb.synchronous calls
    have hgiven : (furnished (sourced w b s bound) b { s with bound := some bound }).behaviors.get b =
        ⟨.binding (s.attached ⟨w.observers.cells.size⟩ bound), true⟩ := by
      refine (Store.get_modify _ _ _ _).trans ((if_pos rfl).trans ?_)
      rw [hcell]
      rfl
    refine ⟨⟨w.observers.cells.size⟩, furnished (sourced w b s bound) b { s with bound := some bound },
      ?_, .of_eq rfl rfl rfl rfl, rfl, rfl, rfl, hgiven, fun b' hne => ?_, ?_, fun o' hne => ?_, .inl ?_⟩
    · have hstate : (furnished (sourced w b s bound) b { s with bound := some bound }).bindingState? b =
          some (s.attached ⟨w.observers.cells.size⟩ bound) := by
        rw [World.bindingState?, World.behavior, hgiven]
      rw [refreshBinding_apply hstate rfl rfl]
      unfold refreshBinding
      rw [bind_apply, get_apply]
      dsimp only
      rw [World.bindingState?, World.behavior, hcell]
      dsimp only
      rw [bind_apply, hbound]
      rfl
    · exact ((Store.get_modify _ _ _ _).trans (if_neg (Ne.symm hne))).trans (hothers b' hne)
    · refine (Store.get_modify _ _ _ _).trans ((if_pos rfl).trans ?_)
      rw [Store.get_add_self]
    · refine (Store.get_modify _ _ _ _).trans ((if_neg (Ne.symm hne)).trans ?_)
      exact Store.get_add_of_ne _ _ _ hne
    · exact Store.get_next w.observers default

/-- **Attaching.** Once it has been refreshed, a bound behavior is attached and fresh, other attachments are
left as tended as they were, and so are all listeners. -/
theorem refreshBinding_attaches (hc : RunsFormulas calls) (hb : w.Bindable b s bound v reads)
    (hw : w.watcher = none) {r : Except Error Unit}
    (h : refreshBinding b calls (sourced w b s bound) = some (r, w')) :
    r = .ok () ∧ ∃ o, w'.Tended [] (s.attachment b o bound) ∧
      (∀ {a changing}, w.Tended changing a → s.aspect.Apart s.target a.target a.aspect →
        w'.Tended changing a) ∧
      ∀ n, (w'.document.get n).listeners = (w.document.get n).listeners := by
  obtain ⟨o, w₁, hbegin, hbegun⟩ := refreshBinding_begins hb calls
  rw [hbegin] at h
  obtain ⟨rfl, w₂, hobserved, hdrawn⟩ := refreshBinding_draws hc (hbegun.refreshable hb) h
  have hv : w₁.compute? (s.attachment b o bound).env (s.attachment b o bound).formula = some (v, reads) :=
    World.compute?_agree hb.value (hbegun.agreesOn _)
  refine ⟨rfl, o, (hbegun.tied hb).refreshed (hbegun.watcher.trans hw) hobserved hdrawn hv,
    fun {a changing} ha hap => ?_, fun n => ?_⟩
  · exact (ha.begun hb hbegun).beside hobserved hdrawn
      (hbegun.ne_observer ha.tied (ha.tied.ne_of_bindable hb)) hap
  · rw [hdrawn.listeners, hobserved.document, hbegun.document]

/-- A behavior that is not bound is only given its source before what its mode asks for is done. -/
theorem bindBinding_sources (hcell : w.behaviors.get b = ⟨.binding s, true⟩) (hs : s.bound = none)
    (hm : s.binding.mode = .onChange ∨ ∃ how type convert, s.binding.mode = .twoWay how type convert)
    (calls : Calls) :
    bindBinding b bound.source bound.context calls w = (do
      refreshBinding b
      match s.binding.mode with
      | .twoWay _ type _ =>
        let slot ← listen s.target ⟨type, .assign b, false⟩
        modifyBinding b fun s => { s with listener := some slot }
      | _ => pure () : Machine Unit) calls (sourced w b s bound) := by
  have hstate : w.bindingState? b = some s := by rw [World.bindingState?, World.behavior, hcell]
  have hsourced : (sourced w b s bound).bindingState? b = some { s with bound := some bound } := by
    rw [World.bindingState?, World.behavior, sourced, Store.get_modify, if_pos rfl]
  have hunbind : unbindBinding b calls w = some (.ok (), w) := by
    unfold unbindBinding
    rw [bind_apply, get_apply]
    dsimp only
    rw [hstate]
    dsimp only
    rw [hs]
    rfl
  have hsource : modifyBinding b (fun s => { s with bound := some ⟨bound.source, bound.context⟩ }) calls w =
      some (.ok (), sourced w b s bound) := by
    unfold modifyBinding modifyBehavior sourced Store.modify
    rw [modify_apply, hcell]
  unfold bindBinding
  rw [bind_apply, hunbind]
  dsimp only
  rw [bind_apply, hsource]
  dsimp only
  rw [bind_apply, get_apply]
  dsimp only
  rw [hsourced]
  dsimp only
  obtain hm | ⟨how, type, convert, hm⟩ := hm
  · rw [hm]
    dsimp only
    rw [bind_apply]
    cases refreshBinding b calls (sourced w b s bound) with
    | none => rfl
    | some x => obtain ⟨_ | _, _⟩ := x <;> rfl
  · rw [hm]

end Machine

end ReactiveViews
