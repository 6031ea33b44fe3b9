import ReactiveViews.Proofs.Dormancy.Binding
/-!
# What an unbound view does

Nothing, as long as everybody is careful: nobody binds or unbinds a view while a behavior of it is at
work. Unbinding then leaves a view unbound, and does not fail (`unbound_of_run`). Wherever a call is
made, a view that is not bound and all views that its behaviors list, and that the behaviors of these
list, have no behavior that is bound (`Coherent.within`). A behavior that is not bound is *dormant*:
whatever may wake it up, it evaluates nothing and leaves its node alone (`unbound_view_dormant`).
-/

namespace ReactiveViews

open Machine World

/-- While the tasks of a flush run the world stays coherent. -/
def dormancyFlushing : Flushing dormancy where
  Owed start _ w := start.Bond w ∧ w.Coherent
  log {_ w _ entries} _ h := by
    have ha : w.Alike { w with log := entries } := .of_eq rfl rfl rfl
    exact ⟨h.1.trans ha.bond, h.2.alike ha⟩
  turn h := ⟨h.2.of_eq rfl rfl, List.mem_cons_self ..⟩
  ran h _ he := by
    obtain ⟨hr, hi⟩ := he
    exact ⟨h.1.trans (BondBut.leave hr), CoherentBut.of_eq hi rfl rfl⟩

namespace Setting

variable {S : Setting dormancy}

instance process_coherent : S.Agrees process := by
  refine ⟨fun {w} hw => dormancyFlushing.process_agreesAt S (fun _ => ?_) fun x hx => ?_⟩
  · have ha : w.Alike w.flushing := .of_eq rfl rfl rfl
    exact ⟨ha.bond, CoherentBut.alike hw ha⟩
  · cases hx with
    | none =>
      have ha : w.Alike { w with queue := w.queue.drain.2 } := .of_eq rfl rfl rfl
      exact ⟨ha.bond, CoherentBut.alike hw ha⟩
    | @all w₁ _ h =>
      have ha : w₁.Alike { w₁ with queue := { w₁.queue with processing := w.queue.processing } } :=
        .of_eq rfl rfl rfl
      exact ⟨h.1.trans ha.bond, h.2.alike ha⟩

end Setting

/-- **The world stays coherent** in every run in which everybody is careful. -/
theorem dormancy_kept : dormancy.Kept := by
  refine Regime.Open.kept (fun S => inferInstance) (fun S => inferInstance)
    (fun S => inferInstance) (fun {c w} hp hv he => ?_) (fun {c w w' r} hp hv hr hi => ?_) fun S {c w} hv he ha => ?_
  · cases c with
    | bindView | unbindView => exact absurd hv (by simp [Call.view?])
    | deliver | update | settle | drainPool => exact hp.elim
    | eval | bubble | perform => exact he
  · cases c with
    | bindView | unbindView => exact absurd hv (by simp [Call.view?])
    | deliver | update | settle | drainPool => exact hp.elim
    | eval | bubble | perform => exact ⟨hr, hi⟩
  · cases c with
    | eval | bubble | perform => exact absurd rfl (hv trivial)
    | bindView v source context => exact Setting.bindView_agreesAt he ha
    | unbindView v => exact Setting.unbindView_leads ha
    | deliver s change =>
      obtain ⟨hw, hs⟩ := he
      cases s with
      | observer o => exact Setting.dependencyChanged_agreesAt hw (Regime.Open.light dormancy w o)
      | behavior b =>
        have hp : w.isPinned b := isPinned_iff.mpr ⟨_, hs, beq_self_eq_true b⟩
        exact Setting.behaviorChanged_agreesAt hw hp change
      | scripted s => exact Setting.Agrees.agreesAt (m := subscriberTold s change) hw
    | update t =>
      obtain ⟨hw, ht⟩ := he
      cases t with
      | observer o => exact Setting.react_agreesAt hw (Regime.Open.light dormancy w o)
      | behavior b =>
        have hp : w.isPinned b := isPinned_iff.mpr ⟨_, ht, beq_self_eq_true b⟩
        exact Setting.updateAfterSignal_agreesAt hw hp
      | splices a => exact Setting.Agrees.agreesAt (m := flushSplices a) hw
      | scripted t => exact Setting.Agrees.agreesAt (m := _ >>= _) hw
    | settle => exact Setting.Agrees.agreesAt (m := settle) he
    | drainPool => exact Setting.Agrees.agreesAt (m := drainPool) he

/-- **Unbinding does not fail** in such a run, and leaves the view unbound. -/
theorem unbound_of_run {depth : Nat} {v : ViewId} {w w' : World} {r : Except Error Unit}
    (h : runUnder careful depth (.unbindView v) w = some (r, w')) : r = .ok () ∧ w'.IsUnbound v := by
  have he : dormancy.Entry (.unbindView v) w := trivial
  obtain ⟨-, -, hr, -, hv⟩ :=
    Regime.run_agrees dormancy_kept careful (fun _ _ _ h => h) depth he h
  exact ⟨hr, hv⟩

/-- In the empty world there is nothing to be coherent. -/
theorem coherent_empty : World.empty.Coherent :=
  ⟨nofun, nofun, nofun, fun _ hi => absurd hi.mem_nested List.not_mem_nil⟩

/-- **Coherence** holds wherever a call is made but to unbind a view. -/
theorem coherent_of_visited {c : Call} {w : World} (h : Session.Visited careful c w)
    (hc : ∀ v, c ≠ .unbindView v) : w.Coherent := by
  have he : dormancy.Entry c w := Session.entry_of_visited dormancy_kept coherent_empty h
  cases c with
  | unbindView v => exact absurd rfl (hc v)
  | deliver | update => exact he.1
  | _ => exact he

namespace World

/-- **Within.** A view itself, and whatever is listed by a behavior of a view within it. -/
inductive Within (w : World) (v : ViewId) : ViewId → Prop
  | self : Within w v v
  | listed {u x : ViewId} {b : BehaviorId} (h : Within w v u) (hb : b ∈ (w.views.get u).behaviors)
    (hx : x ∈ (w.tether b).nested) : Within w v x

/-- **Dormant.** Whatever wakes a behavior up, it evaluates nothing and does nothing to its node. -/
structure Dormant (w : World) (b : BehaviorId) : Prop where
  /-- An observer of its own is told that something has changed, and reacts at once or in its turn. -/
  react {o : ObserverId} (h : (w.observers.get o).reaction.behavior? = some b) (calls : Calls) :
    ∃ observers, react o calls w = some (.ok (), { w with observers })
  /-- A signal that had been queued is acted on. -/
  updateAfterSignal (calls : Calls) :
    ∃ behaviors, updateAfterSignal b calls w = some (.ok (), { w with behaviors })
  /-- Splices of the items arrive. -/
  updateViews (splices : List Splice) (calls : Calls) :
    updateViews b splices calls w = some (.ok (), w)
  /-- An event arrives at its node. -/
  assign (e : EventId) (calls : Calls) : callHandler e (.assign b) calls w = some (.ok (), w)
  event (e : EventId) (calls : Calls) : callHandler e (.event b) calls w = some (.ok (), w)

variable {w : World} {v u : ViewId} {b : BehaviorId}

/-- **What is within a view that is not bound** is not bound either. -/
theorem Coherent.within (hw : w.Coherent) (hv : w.IsUnbound v) (h : w.Within v u) :
    w.IsUnbound u := by
  induction h with
  | self => exact hv
  | listed _ hb hx ih => exact hw.idle id (Tether.idle_of_nested (hw.unbound id ih hb) hx)

/-! A behavior that is not bound has nothing to go on. -/

theorem binding_loose (h : (w.tether b).isBound = false) {s : BindingState}
    (hs : w.bindingState? b = some s) : s.bound = none := by
  rw [tether, behavior_of_bindingState? hs] at h
  exact Option.isNone_iff_eq_none.mp (Option.isSome_eq_false_iff.mp h)

theorem handler_loose (h : (w.tether b).isBound = false) {s : HandlerState}
    (hs : w.handlerState? b = some s) : s.bound = none := by
  rw [tether, behavior_of_handlerState? hs] at h
  exact Option.isNone_iff_eq_none.mp (Option.isSome_eq_false_iff.mp h)

theorem repeat_loose (h : (w.tether b).isBound = false) {s : RepeatState}
    (hs : w.repeatState? b = some s) : s.bound = none := by
  rw [tether, behavior_of_repeatState? hs] at h
  exact Option.isNone_iff_eq_none.mp (Option.isSome_eq_false_iff.mp h)

theorem refreshBinding_loose (h : (w.tether b).isBound = false) (calls : Calls) :
    refreshBinding b calls w = some (.ok (), w) := by
  simp only [refreshBinding, bind_apply, get_apply]
  cases hs : w.bindingState? b with
  | none => rfl
  | some s => simp only [binding_loose h hs, pure_apply]

theorem itemsChanged_loose (h : (w.tether b).isBound = false) (calls : Calls) :
    itemsChanged b calls w = some (.ok (), w) := by
  simp only [itemsChanged, bind_apply, get_apply]
  cases hs : w.repeatState? b with
  | none => rfl
  | some s => simp only [repeat_loose h hs, pure_apply]

theorem templateChanged_loose (h : (w.tether b).isBound = false) (calls : Calls) :
    templateChanged b calls w = some (.ok (), w) := by
  simp only [templateChanged, bind_apply, get_apply]
  cases hs : w.repeatState? b with
  | none => rfl
  | some s => simp only [repeat_loose h hs, pure_apply]

theorem updateViews_loose (h : (w.tether b).isBound = false) (splices : List Splice)
    (calls : Calls) : updateViews b splices calls w = some (.ok (), w) := by
  simp only [updateViews, bind_apply, get_apply]
  cases hs : w.repeatState? b with
  | none => rfl
  | some s =>
    simp only [repeat_loose h hs]
    cases s.template <;> rfl

theorem assignBack_loose (h : (w.tether b).isBound = false) (calls : Calls) :
    assignBack b calls w = some (.ok (), w) := by
  simp only [assignBack, bind_apply, get_apply]
  cases hs : w.bindingState? b with
  | none => rfl
  | some s => simp only [binding_loose h hs, pure_apply]

theorem handleEvent_loose (h : (w.tether b).isBound = false) (e : EventId) (calls : Calls) :
    handleEvent b e calls w = some (.ok (), w) := by
  simp only [handleEvent, bind_apply, get_apply]
  cases hs : w.handlerState? b with
  | none => rfl
  | some s => simp only [handler_loose h hs, pure_apply]

/-- What does nothing does nothing for a behavior whose view is still there, or is gone. -/
theorem reactOwned_loose {m : Machine Unit} (h : (w.tether b).isBound = false)
    (hm : ∀ {w : World}, (w.tether b).isBound = false → ∀ calls, m calls w = some (.ok (), w))
    (calls : Calls) : reactOwned b m calls w = some (.ok (), w) := by
  let inner : World := { w with held := [.subscriber (.behavior b)] ++ w.held }
  have hin : holding [.subscriber (.behavior b)] m calls w = some (.ok (), w) := by
    rw [holding, Machine.within, hm (w := inner) h]
  simp only [reactOwned, bind_apply, get_apply]
  split
  · exact hin
  · rfl

theorem react_loose (h : (w.tether b).isBound = false) {o : ObserverId}
    (hb : (w.observers.get o).reaction.behavior? = some b) (calls : Calls) :
    ∃ observers, Machine.react o calls w = some (.ok (), { w with observers }) := by
  let opened : World := { w with observers := w.observers.modify o fun s =>
    { s with needsQueue := s.isAsync } }
  simp only [Machine.react, bind_apply, Machine.read, get_apply, pure_apply]
  split
  · exact ⟨w.observers, rfl⟩
  · refine ⟨opened.observers, ?_⟩
    cases hr : (w.observers.get o).reaction with
    | scripted =>
      rw [hr] at hb
      exact absurd hb nofun
    | refresh b' =>
      rw [hr] at hb
      obtain rfl := Option.some.inj hb
      exact reactOwned_loose (w := opened) h refreshBinding_loose calls
    | itemsChanged b' =>
      rw [hr] at hb
      obtain rfl := Option.some.inj hb
      exact reactOwned_loose (w := opened) h itemsChanged_loose calls
    | templateChanged b' =>
      rw [hr] at hb
      obtain rfl := Option.some.inj hb
      exact reactOwned_loose (w := opened) h templateChanged_loose calls

/-- **A behavior that is not bound is dormant.** -/
theorem dormant_of_loose (h : (w.tether b).isBound = false) : w.Dormant b where
  react hb calls := react_loose h hb calls
  updateAfterSignal calls := by
    simp only [Machine.updateAfterSignal, bind_apply, get_apply]
    cases hs : w.bindingState? b with
    | none => exact ⟨w.behaviors, rfl⟩
    | some s => exact ⟨_, by simp only [binding_loose h hs]; rfl⟩
  updateViews splices calls := updateViews_loose h splices calls
  assign e calls := reactOwned_loose (m := assignBack b) h assignBack_loose calls
  event e calls := reactOwned_loose (m := handleEvent b e) h (fun h => handleEvent_loose h e) calls

end World

/-- A view with a repeat is rendered, its array gets another item, and the view is unbound. -/
def unboundSession : List Command :=
  [.array (.observation .buffered), .array (.create "a" [.text "x"]),
    .object (.create "m" none [("items", .handle "a")]),
    .node (.create "row" .fragment ""), .node (.create "cell" (.element "p") ""),
    .node (.append "row" "cell"),
    .template (.assemble "rows" "row" [("r.0", none, .binding (.ofExpr .source))]),
    .node (.create "table" .fragment ""), .node (.create "place" (.element "p") ""),
    .node (.append "table" "place"),
    .template (.assemble "list" "table"
      [("r.0", none, .repeated ⟨.ofExpr (.get .source "items"), .handle "rows", {}⟩)]),
    .node (.create "host" (.element "div") ""),
    .view (.render "v" "list" (.handle "m") "host" none),
    .array (.push "a" (.text "y")), .view (.unbind "v")]

end ReactiveViews
