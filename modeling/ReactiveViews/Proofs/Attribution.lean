import ReactiveViews.Proofs.Scopes
/-!
# Whose reads are recorded

Where evaluations are scopes (`Machine.runIn`), a read is one call of `Machine.note`. What is left is
what noting does. The observer whose scope it is gets one more record, at the end of those it has, and
all others keep theirs (`World.Noted`). It may be the first time that something is observed; then it
is given a notifier, which is nothing to observers and no property's value. A list can be observed
only where lists are.
-/

namespace ReactiveViews

namespace World

/-- Whether a property of an object is observable. -/
def isObservable (w : World) (o : ObjectId) (name : String) : Bool :=
  ((w.registry.accessors (w.typeOf o)).1.find? name).isSome

/-- **Noted.** A read has been appended to the records of the observer whose scope it is in. Nothing
has been done to any other observer, and properties have the values that they had. -/
structure Noted (w : World) (scope : Option ObserverId) (source : Observable) (name : String)
    (w' : World) : Prop where
  appended : ∀ o, scope = some o → ∃ n, (w'.observers.get o).records =
    (w.observers.get o).records ++ [⟨source, name, n⟩]
  others : ∀ o, scope ≠ some o → w'.observers.get o = w.observers.get o
  values : ∀ o name, w'.peek o name = w.peek o name

/-- A notifier is no value. -/
theorem peek_of_fields {w w' : World}
    (h : ∀ o, (w'.objects.get o).fields = (w.objects.get o).fields) (o : ObjectId) (name : String) :
    w'.peek o name = w.peek o name := by
  rw [peek, h, peek]

end World

namespace Machine

variable {w : World}

/-- What can be observed has a notifier or is given one, which is nothing to observers. -/
theorem observableNotifier_succeeds {source : Observable}
    (h : ∀ a, source = .array a → w.arrayObservation ≠ .off) (calls : Calls) :
    ∃ n w', observableNotifier source calls w = some (.ok n, w') ∧ w'.observers = w.observers ∧
      ∀ o name, w'.peek o name = w.peek o name := by
  cases source with
  | object o =>
    show ∃ n w', objectNotifier o calls w = _ ∧ _
    unfold objectNotifier
    rw [bind_apply, read_apply]
    dsimp only
    cases (w.objects.get o).notifier with
    | some n => exact ⟨n, w, rfl, rfl, fun _ _ => rfl⟩
    | none =>
      refine ⟨_, _, rfl, rfl, World.peek_of_fields fun o' => ?_⟩
      show ((w.objects.modify o _).get o').fields = _
      rw [Store.get_modify]
      split
      · next he => rw [← he]
      · rfl
  | context c =>
    show ∃ n w', contextNotifier c calls w = _ ∧ _
    unfold contextNotifier
    rw [bind_apply, read_apply]
    dsimp only
    cases (w.contexts.get c).notifier <;> exact ⟨_, _, rfl, rfl, fun _ _ => rfl⟩
  | array a =>
    show ∃ n w', arrayNotifier a calls w = _ ∧ _
    unfold arrayNotifier
    rw [bind_apply, get_apply]
    dsimp only
    cases (w.arrays.get a).observer with
    | some observer => exact ⟨_, _, rfl, rfl, fun _ _ => rfl⟩
    | none =>
      dsimp only
      rw [if_neg (h a rfl)]
      exact ⟨_, _, rfl, rfl, fun _ _ => rfl⟩

/-- **A read is noted** for the observer whose scope it is in, and for nobody else. -/
theorem note_noted (scope : Option ObserverId) {source : Observable} (name : String)
    (h : ∀ a, source = .array a → w.arrayObservation ≠ .off) (calls : Calls) :
    ∃ w', note scope source name calls w = some (.ok (), w') ∧ w.Noted scope source name w' := by
  cases scope with
  | none => exact ⟨w, rfl, by simp, fun _ _ => rfl, fun _ _ => rfl⟩
  | some o =>
    -- The record is made behind the notifier, which may be new and changes no observer.
    obtain ⟨n, w₁, hn, ho, hv⟩ := observableNotifier_succeeds h calls
    have hattempt : attempt (observableNotifier source) calls w = some (.ok (.ok n), w₁) := by
      unfold attempt
      rw [hn]
    show ∃ w', watch o source name calls w = _ ∧ _
    unfold watch
    rw [bind_apply, hattempt]
    refine ⟨_, rfl, ?_, fun o' hne => ?_, hv⟩
    · rintro _ ⟨⟩
      refine ⟨n, ?_⟩
      show ((w₁.observers.modify o _).get o).records = _
      rw [Store.get_modify, if_pos rfl, ho]
    · show (w₁.observers.modify o _).get o' = _
      rw [Store.get_modify, if_neg fun he => hne (congrArg some he), ho]

/-- Looking up whether a property is observable is nothing to observers. -/
theorem accessorOf?_finds (type name : String) (calls : Calls) (w : World) :
    ∃ w', accessorOf? type name calls w =
        some (.ok ((w.registry.accessors type).1.find? name), w') ∧
      w'.observers = w.observers ∧ w'.objects = w.objects := by
  unfold accessorOf? accessorsOf
  rw [bind_apply, bind_apply, get_apply]
  dsimp only
  rw [bind_apply, modify_apply]
  dsimp only
  cases (w.registry.accessors type).2.2 <;> exact ⟨_, rfl, rfl, rfl⟩

/-- **A read of a property** gives its value, and is noted if the property is observable. -/
theorem getIn_noted (scope : Option ObserverId) (o : ObjectId) (name : String) (calls : Calls)
    (w : World) :
    ∃ w', getIn scope o name calls w = some (.ok (w.peek o name), w') ∧
      (w.isObservable o name = true → w.Noted scope (.object o) name w') ∧
      (w.isObservable o name = false → w'.observers = w.observers) := by
  cases scope with
  | none => exact ⟨w, rfl, fun _ => ⟨by simp, fun _ _ => rfl, fun _ _ => rfl⟩, fun _ => rfl⟩
  | some watcher =>
    obtain ⟨w₁, hfound, ho, hobjects⟩ := accessorOf?_finds (w.typeOf o) name calls w
    have hpeek : ∀ o name, w₁.peek o name = w.peek o name :=
      World.peek_of_fields fun _ => by rw [hobjects]
    have hlists : ∀ a, Observable.object o = .array a → w₁.arrayObservation ≠ .off := by simp
    obtain ⟨w₂, hnote, hnoted⟩ := note_noted (some watcher) name hlists calls
    unfold getIn
    dsimp only
    rw [bind_apply, read_apply]
    dsimp only
    rw [bind_apply, hfound]
    dsimp only
    -- Looking up changes the registry at most, so the read that follows is one in the world before.
    cases hs : w.isObservable o name with
    | false =>
      rw [World.isObservable] at hs
      rw [hs, ← hpeek]
      exact ⟨w₁, rfl, by simp, fun _ => ho⟩
    | true =>
      rw [World.isObservable] at hs
      rw [hs, if_pos rfl, bind_apply, hnote]
      refine ⟨w₂, ?_, fun _ => ⟨fun x hx => ?_, fun x hx => ?_, fun x p => ?_⟩, by simp⟩
      · rw [← hpeek, ← hnoted.values]
        rfl
      · rw [← ho]
        exact hnoted.appended x hx
      · rw [← ho]
        exact hnoted.others x hx
      · rw [← hpeek]
        exact hnoted.values x p

/-- **Reads are attributed.** Evaluating whatever expression with somebody or nobody watching is
evaluating it in that scope, where a read is noted for the observer whose scope is the innermost one
around it, also where the evaluation of a part fails. A read that is noted is appended to the records
of that observer and is nothing to any other, and one in nobody's scope is nothing to all of them.
Whoever was watching before an observer has observed, or an untracked part has been evaluated, is
watching again after that, whether it has succeeded or failed. -/
theorem reads_are_attributed :
    (∀ depth scope e env w, run depth (.eval e env) { w with watcher := scope } =
      watchedBy scope (runIn depth scope (.eval e env) w)) ∧
    (∀ depth o source context w, observe o source context (run depth) w =
      watchedBy w.watcher (observing o (fun scope e =>
        withCalls (runIn depth scope) (eval e ⟨source, context, .null⟩)) (run depth) w)) ∧
    (∀ scope source name calls (w : World), w.arrayObservation ≠ .off → ∃ w',
      note scope source name calls w = some (.ok (), w') ∧ w.Noted scope source name w') ∧
    (∀ scope o name calls (w : World), ∃ w',
      getIn scope o name calls w = some (.ok (w.peek o name), w') ∧
      (w.isObservable o name = true → w.Noted scope (.object o) name w') ∧
      (w.isObservable o name = false → w'.observers = w.observers)) ∧
    (∀ depth o source context w r w', observe o source context (run depth) w = some (r, w') →
      w'.watcher = w.watcher) ∧
    ∀ depth e env w r w', untracked (eval e env) (run depth) w = some (r, w') →
      w'.watcher = w.watcher := by
  refine ⟨run_eq_runIn, observe_eq_observing, fun scope source name calls w h => ?_, getIn_noted,
    fun depth o source context w r w' h => ?_, fun depth e env w r w' h => ?_⟩
  · exact note_noted scope name (fun _ _ => h) calls
  · exact watcher_of_run (fun S => inferInstance) h
  · exact watcher_of_run (fun S => inferInstance) h

end Machine

open Machine

/-- An observer asks another one, then reads a property that is not tracked there, and one that is.
The other one reads the length of a list. -/
def nestingSession : List Command :=
  [.array (.observation .buffered),
    .type (.defineProperties "T" ["name", "title"] none),
    .array (.create "list" [.bool true]),
    .object (.create "m" (some "T") [("name", .bool true), ("items", .handle "list")]),
    .observer (.create "inner" (.length (.peek .source "items")) false (.literal .null)),
    .observer (.create "outer" (.seq [.observe "inner" .source, .untracked (.get .source "title"),
      .get .source "name"]) false (.literal .null)),
    .observer (.observe "outer" (.handle "m") none)]

/-- Each of the two has a record of what it has read itself, and so it is noted when it reads more. -/
theorem nested_reads_are_attributed : ∃ w, Session.Reached (fun _ _ => true) w ∧
    w.arrayObservation ≠ .off ∧
    (w.observers.get ⟨0⟩).records.map (·.name) = ["length"] ∧
    (w.observers.get ⟨1⟩).records.map (·.name) = ["name"] ∧
    ∃ w', note (some ⟨1⟩) (.array ⟨0⟩) "length" (run 0) w = some (.ok (), w') ∧
      w.Noted (some ⟨1⟩) (.array ⟨0⟩) "length" w' := by
  have hplay : (Session.play (fun _ _ => true) nestingSession World.empty).any (fun w =>
      decide (w.arrayObservation ≠ .off) &&
      (w.observers.get ⟨0⟩).records.map (·.name) == ["length"] &&
      (w.observers.get ⟨1⟩).records.map (·.name) == ["name"]) = true := by
    decide +kernel
  obtain ⟨w, hw, hrecords⟩ := (Option.any_eq_true _ _).mp hplay
  simp only [Bool.and_eq_true, decide_eq_true_eq, beq_iff_eq] at hrecords
  obtain ⟨⟨hon, hinner⟩, houter⟩ := hrecords
  obtain ⟨-, -, hnoted, -⟩ := reads_are_attributed
  exact ⟨w, Session.reached_of_play .start hw, hon, hinner, houter,
    hnoted (some ⟨1⟩) (.array ⟨0⟩) "length" (run 0) w hon⟩

end ReactiveViews
