import ReactiveViews.Proofs.Currency.Refreshing
import ReactiveViews.Proofs.Observing.Readers
/-!
# When an observer has lost track

An observer that is to discover its dependencies says so by a flag, which is cleared *before* its expression is
evaluated. If the evaluation fails, part of what it reads may not be subscribed to. A volatile observer
sets the flag again at once and makes up for it next time. A stable one does not: it goes on as if
it knew its dependencies, and later evaluations succeed although nobody is told of changes. It has *missed*
what it should have discovered, and only disposing of it sets this right.

A `Career` is whatever may happen to an observer, evaluations that fail included, with a note of whether
something has been missed. As long as nothing has, an observer that has evaluated its expression
successfully is subscribed to all that the expression reads (`World.Faring`, kept by
every step), and an observer that is volatile never misses anything.
-/

namespace ReactiveViews

namespace World

/-- **Rereading.** What the evaluation of an observer's expression comes to, if the expression reads some pairs
whenever it is evaluated. As watched by the observer it is a discovery, which has found these
pairs if it comes to a value; with nobody watching it does not concern the observer. -/
structure Rereads (calls : Calls) (o : ObserverId) (pairs : List TrackedRead) (env : Env) (w : World) :
    Prop where
  watched {w' : World} {r : Except Error Value} : w.watcher = some o →
    Machine.eval (w.observers.get o).evaluator env calls w = some (r, w') →
    ∃ reads, w.Discovery o reads w' ∧ ∀ v, r = .ok v → pairs ⊆ reads
  unwatched {w' : World} {r : Except Error Value} : w.watcher = none →
    Machine.eval (w.observers.get o).evaluator env calls w = some (r, w') → w.PassesBy o w'

variable {w w' : World} {o : ObserverId} {pairs : List TrackedRead}

/-- So is it with an expression that only reads, and the reads that are certain. -/
theorem rereads_of_readsOnly (depth : Nat) (env : Env)
    (he : (w.observers.get o).evaluator.readsOnly = true)
    (hp : pairs ⊆ (w.observers.get o).evaluator.certain) :
    w.Rereads (Machine.run depth) o pairs env where
  watched hw h := by
    obtain ⟨reads, hd, hc⟩ := ((Machine.run_runsReaders depth).reads _ env he).discovery h hw
    exact ⟨reads, hd, fun v hv => List.Subset.trans hp (hc v hv)⟩
  unwatched hw h := (((Machine.run_runsReaders depth).reads _ env he).quiet h).beside (by simp [hw])

/-- **Faring.** How an observer is found between evaluations. -/
structure Faring (w : World) (o : ObserverId) (pairs : List TrackedRead) (missed : Bool) : Prop where
  deferredError : (w.observers.get o).deferredError = none
  volatile : (w.observers.get o).isVolatile = true → (w.observers.get o).needsRefresh = true
  stable : missed = true → (w.observers.get o).isVolatile = false
  subscribed : missed = false → (w.observers.get o).needsRefresh = true ∨
    ∀ read ∈ pairs, w.Subscribed o read

namespace Faring

variable {missed : Bool}

theorem beside (h : w.Faring o pairs missed) (hb : w.PassesBy o w') : w'.Faring o pairs missed where
  deferredError := hb.deferredError.trans h.deferredError
  volatile hv := hb.needsRefresh (h.volatile (hb.isVolatile ▸ hv))
  stable hm := hb.isVolatile.trans (h.stable hm)
  subscribed hm := (h.subscribed hm).imp hb.needsRefresh
    fun hs read hr => hb.subscribed read (hs read hr)

/-- Disposing has an observer discover everything anew. -/
theorem disposed (h : w.Faring o pairs missed) : (w.disposed o).Faring o pairs false := by
  have hget := World.get_disposed w o
  refine ⟨?_, fun _ => ?_, fun h => absurd h (by simp), fun _ => .inl ?_⟩
  · rw [hget]
    exact h.deferredError
  · rw [hget]
  · rw [hget]

/-- **An observer that keeps its dependencies** is left as it was. -/
theorem retained {r : Except Error Value} {outcome : Except Error Value} {w₁ : World}
    (h : w.Faring o pairs missed) (hn : (w.observers.get o).needsRefresh = false)
    (hb : (w.evaluating o).PassesBy o w₁) {calls : Calls}
    (hc : Machine.conclude o outcome calls { w₁ with watcher := w.watcher, held := w.held } =
      some (r, w')) :
    w'.Faring o pairs missed ∧ ∀ read, w.Subscribed o read → w'.Subscribed o read := by
  have hself : (w.evaluating o).observers.get o = { w.observers.get o with
      records := if (w.observers.get o).needsRefresh then [] else (w.observers.get o).records
      needsRefresh := (w.observers.get o).isVolatile } := w.poised_observer o
  have hstable : (w.observers.get o).isVolatile = false := by
    cases hv : (w.observers.get o).isVolatile with
    | false => rfl
    | true => exact absurd (hn.symm.trans (h.volatile hv)) (by simp)
  -- Nothing is disconnected, so to begin with nothing has happened to its subscriptions.
  have hposed : (w.poised o).notifiers = w.notifiers := by
    unfold poised
    rw [hn]
    rfl
  have hstart : w.PassesBy o (w.evaluating o) := by
    refine ⟨?_, ?_, ?_, fun hn' => absurd (hn.symm.trans hn') (by simp), fun read hr => ?_⟩
    · rw [hself]
    · rw [hself]
    · rw [hself]
    · obtain ⟨n, hsource, hreg⟩ := hr
      refine ⟨n, ?_, ?_⟩
      · unfold evaluating poised
        rw [hn]
        exact hsource
      · show _ ∈ ((w.poised o).notifiers.get n).subscriptions
        rwa [hposed]
  have hbeside : w.PassesBy o { w₁ with watcher := w.watcher, held := w.held } :=
    (hstart.trans hb).trans (.of_same rfl id id)
  unfold Machine.conclude at hc
  rw [Machine.bind_apply, Machine.read_apply] at hc
  dsimp only at hc
  rw [hbeside.deferredError.trans h.deferredError] at hc
  cases outcome <;> obtain ⟨rfl, rfl⟩ := Prod.mk.inj (Option.some.inj hc) <;>
    exact ⟨h.beside hbeside, hbeside.subscribed⟩

/-- **An observer that discovers** its dependencies has missed something if its evaluation failed and it is not
to discover them again. If it has come to a value, it is subscribed to everything. -/
theorem discovered {r : Except Error Value} {outcome : Except Error Value} {w₁ : World}
    {reads : List TrackedRead} (hd : (w.evaluating o).Discovery o reads w₁) (hp : ∀ v, outcome = .ok v → pairs ⊆ reads)
    {calls : Calls}
    (hc : Machine.conclude o outcome calls { w₁ with watcher := w.watcher, held := w.held } =
      some (r, w')) :
    w'.Faring o pairs (!r.isOk && !(w'.observers.get o).needsRefresh) ∧
      ∀ v, r = .ok v → ∀ read ∈ pairs, w'.Subscribed o read := by
  have hself : (w.evaluating o).observers.get o = { w.observers.get o with
      records := if (w.observers.get o).needsRefresh then [] else (w.observers.get o).records
      needsRefresh := (w.observers.get o).isVolatile } := w.poised_observer o
  have hfound := hd.sound
  have hvolatile : (w₁.observers.get o).isVolatile = true →
      (w₁.observers.get o).needsRefresh = true := by
    intro hv
    refine hfound.needsRefresh ?_
    rw [hself]
    rwa [hfound.isVolatile, hself] at hv
  have hstable : ∀ {x : Bool}, (!x && !(w₁.observers.get o).needsRefresh) = true →
      (w₁.observers.get o).isVolatile = false := by
    intro x hx
    cases hv : (w₁.observers.get o).isVolatile with
    | false => rfl
    | true =>
      rw [hvolatile hv] at hx
      exact absurd hx (by simp)
  have hagain : ∀ {e : Error}, (!(Except.error e : Except Error Value).isOk &&
      !(w₁.observers.get o).needsRefresh) = false → (w₁.observers.get o).needsRefresh = true := by
    intro e hx
    simpa [Except.isOk, Except.toBool] using hx
  unfold Machine.conclude at hc
  rw [Machine.bind_apply, Machine.read_apply] at hc
  dsimp only at hc
  cases he : (w₁.observers.get o).deferredError with
  | some e =>
    -- A read could not be subscribed to. The failure is raised, and no longer kept.
    rw [he] at hc
    obtain ⟨rfl, rfl⟩ := Prod.mk.inj (Option.some.inj hc)
    have hget : (w₁.observers.modify o fun s => { s with deferredError := none }).get o =
        { w₁.observers.get o with deferredError := none } :=
      (Store.get_modify _ _ _ _).trans (if_pos rfl)
    refine ⟨⟨?_, ?_, ?_, ?_⟩, nofun⟩
    · exact (congrArg ObserverState.deferredError hget).trans rfl
    all_goals
      show _ = _ → _
      dsimp only
      rw [hget]
    · exact hvolatile
    · exact hstable
    · exact fun hm => .inl (hagain hm)
  | none =>
    rw [he] at hc
    have hsame : r = outcome ∧ w' = { w₁ with watcher := w.watcher, held := w.held } := by
      cases outcome <;> obtain ⟨rfl, rfl⟩ := Prod.mk.inj (Option.some.inj hc) <;> exact ⟨rfl, rfl⟩
    obtain ⟨rfl, rfl⟩ := hsame
    have hall : ∀ v, r = .ok v → ∀ read ∈ pairs, w₁.Subscribed o read :=
      fun v hv read hr => hfound.subscribed he read (hp v hv hr)
    refine ⟨⟨he, hvolatile, hstable, fun hm => ?_⟩, hall⟩
    cases r with
    | error e => exact .inl (hagain hm)
    | ok v => exact .inr (hall v rfl)

end Faring

end World

open World Machine

/-- **Career.** Whatever may happen to an observer whose expression reads some pairs whenever it is evaluated, with
a note of whether something has been missed. -/
inductive Career (calls : Calls) (o : ObserverId) (pairs : List TrackedRead) : World → Bool → Prop
  /-- It is made, and is to discover its dependencies. -/
  | made {w : World} (hn : (w.observers.get o).needsRefresh = true)
    (hd : (w.observers.get o).deferredError = none) : Career calls o pairs w false
  /-- It evaluates its expression, successfully or not. If it is to discover its dependencies and fails, and is not to
  discover them again, it has missed something. -/
  | observed {w w' : World} {missed : Bool} {source : Value} {context : ContextId}
    {r : Except Error Value} (h : Career calls o pairs w missed)
    (he : (w.evaluating o).Rereads calls o pairs ⟨source, context, .null⟩)
    (hr : observe o source context calls w = some (r, w')) :
    Career calls o pairs w' (if (w.observers.get o).needsRefresh then
      !r.isOk && !(w'.observers.get o).needsRefresh else missed)
  /-- It is disposed of. -/
  | disposed {w w' : World} {missed : Bool} (h : Career calls o pairs w missed)
    (hr : disposeObserver o calls w = some (.ok (), w')) : Career calls o pairs w' false
  /-- Something happens that does not concern it. -/
  | beside {w w' : World} {missed : Bool} (h : Career calls o pairs w missed)
    (hb : w.PassesBy o w') : Career calls o pairs w' missed

variable {calls : Calls} {o : ObserverId} {pairs : List TrackedRead} {w w' : World} {missed : Bool}
  {source : Value} {context : ContextId} {r : Except Error Value}

/-- One evaluation: how the observer is found after it, and what it is subscribed to if it has come to a
value. -/
theorem World.Faring.observed (h : w.Faring o pairs missed)
    (he : (w.evaluating o).Rereads calls o pairs ⟨source, context, .null⟩)
    (hr : observe o source context calls w = some (r, w')) :
    w'.Faring o pairs (if (w.observers.get o).needsRefresh then
        !r.isOk && !(w'.observers.get o).needsRefresh else missed) ∧
      (missed = false ∨ (w.observers.get o).needsRefresh = true →
        ∀ v, r = .ok v → ∀ read ∈ pairs, w'.Subscribed o read) := by
  obtain ⟨outcome, w₁, heval, hc⟩ := observe_eq_some hr
  have hself : ((w.evaluating o).observers.get o).evaluator = (w.observers.get o).evaluator :=
    (congrArg ObserverState.evaluator (w.poised_observer o)).trans rfl
  rw [← hself] at heval
  cases hn : (w.observers.get o).needsRefresh with
  | true =>
    have hw : (w.evaluating o).watcher = some o := if_pos hn
    obtain ⟨reads, hd, hp⟩ := he.watched hw heval
    obtain ⟨ht, hs⟩ := Faring.discovered hd hp hc
    exact ⟨ht, fun _ => hs⟩
  | false =>
    have hw : (w.evaluating o).watcher = none := if_neg (by simp [hn])
    obtain ⟨ht, hs⟩ := h.retained hn (he.unwatched hw heval) hc
    refine ⟨ht, fun hm v _ read hr => hs read ?_⟩
    have hm := hm.resolve_right (by simp)
    exact ((h.subscribed hm).resolve_left (by simp [hn])) read hr

/-- **How an observer fares** in its career. -/
theorem Career.faring (h : Career calls o pairs w missed) : w.Faring o pairs missed := by
  induction h with
  | made hn hd => exact ⟨hd, fun _ => hn, fun h => absurd h (by simp), fun _ => .inl hn⟩
  | observed _ he hr ih => exact (ih.observed he hr).1
  | disposed _ hr ih =>
    rw [disposeObserver_apply] at hr
    obtain rfl := (Prod.mk.inj (Option.some.inj hr)).2
    exact ih.disposed
  | beside _ hb ih => exact ih.beside hb

/-- **A failed evaluation does not lose track**, as long as nothing has been missed: an observer that has evaluated its
expression successfully is subscribed to all that it reads. A volatile observer never misses anything. A
stable one has, if an evaluation in which it was to discover its dependencies has failed, and it is not to
discover them again; this lasts until it is disposed of. -/
theorem observed_successfully_is_subscribed (h : Career calls o pairs w missed)
    (he : (w.evaluating o).Rereads calls o pairs ⟨source, context, .null⟩)
    (hr : observe o source context calls w = some (r, w')) :
    ((w.observers.get o).isVolatile = true → missed = false) ∧
      (missed = false ∨ (w.observers.get o).needsRefresh = true →
        ∀ v, r = .ok v → ∀ read ∈ pairs, w'.Subscribed o read) := by
  refine ⟨fun hv => ?_, (h.faring.observed he hr).2⟩
  cases missed with
  | false => rfl
  | true => exact absurd (hv.symm.trans (h.faring.stable rfl)) nofun

/-- A stable observer that adds up the lengths of two arrays, where no array can be observed. -/
def addingUp : World :=
  { World.empty with
    arrays := ⟨#[⟨[.null], none⟩, ⟨[.null, .null], none⟩]⟩
    observers := ⟨#[⟨.add (.length (.constant (.array ⟨0⟩))) (.length (.constant (.array ⟨1⟩))), false,
      .scripted "" default, [], true, true, true, none⟩]⟩ }

/-- What it comes to in a world. -/
def addUp (w : World) : Except Error Value × World :=
  (observe ⟨0⟩ .null ⟨0⟩ (run 3) w).getD (.ok .null, w)

/-- The world in which it has failed, has then been disposed of, and arrays can be observed. -/
def addingUpAgain : World :=
  { (addUp addingUp).2.disposed ⟨0⟩ with arrayObservation := .buffered }

/-- After a failure that has been made good by disposing, the observer is subscribed to both lengths. -/
theorem disposed_observer_is_subscribed : ∃ w v w', Career (run 3) ⟨0⟩
      [(.array ⟨0⟩, "length"), (.array ⟨1⟩, "length")] w true ∧
    observe ⟨0⟩ .null ⟨0⟩ (run 3) { w.disposed ⟨0⟩ with arrayObservation := .buffered } =
      some (.ok v, w') ∧
    ∀ read ∈ [(Observable.array ⟨0⟩, "length"), (.array ⟨1⟩, "length")], w'.Subscribed ⟨0⟩ read := by
  have hruns : ∀ w, (observe ⟨0⟩ .null ⟨0⟩ (run 3) w).isSome = true →
      observe ⟨0⟩ .null ⟨0⟩ (run 3) w = some ((addUp w).1, (addUp w).2) := by
    intro w hw
    rw [addUp]
    cases hx : observe ⟨0⟩ .null ⟨0⟩ (run 3) w with
    | none => rw [hx] at hw; exact absurd hw (by simp)
    | some x => rfl
  have hreads : ∀ w : World, ((w.evaluating ⟨0⟩).observers.get ⟨0⟩).evaluator =
      .add (.length (.constant (.array ⟨0⟩))) (.length (.constant (.array ⟨1⟩))) →
      (w.evaluating ⟨0⟩).Rereads (run 3) ⟨0⟩ [(.array ⟨0⟩, "length"), (.array ⟨1⟩, "length")]
        ⟨.null, ⟨0⟩, .null⟩ := fun w he =>
    rereads_of_readsOnly 3 _ (by rw [he]; decide) (by rw [he]; decide)
  have hfirst := hruns addingUp (by decide +kernel)
  have hcareer := Career.observed (.made (w := addingUp) (by decide +kernel) rfl)
    (hreads addingUp rfl) hfirst
  have hmissed : (if (addingUp.observers.get ⟨0⟩).needsRefresh then
      !(addUp addingUp).1.isOk && !((addUp addingUp).2.observers.get ⟨0⟩).needsRefresh
      else false) = true := by decide +kernel
  rw [hmissed] at hcareer
  have hagain : Career (run 3) ⟨0⟩ [(.array ⟨0⟩, "length"), (.array ⟨1⟩, "length")]
      addingUpAgain false :=
    .beside (.disposed hcareer (disposeObserver_apply _ _ _)) (.of_same rfl id id)
  have hsecond := hruns addingUpAgain (by decide +kernel)
  have hok : (addUp addingUpAgain).1.isOk = true := by decide +kernel
  obtain ⟨v, hv⟩ : ∃ v, (addUp addingUpAgain).1 = .ok v := by
    cases hx : (addUp addingUpAgain).1 with
    | error e => rw [hx] at hok; exact absurd hok (by simp [Except.isOk, Except.toBool])
    | ok v => exact ⟨v, rfl⟩
  have hr : observe ⟨0⟩ .null ⟨0⟩ (run 3) addingUpAgain =
      some (.ok v, (addUp addingUpAgain).2) := by rw [hsecond, ← hv]
  refine ⟨(addUp addingUp).2, v, (addUp addingUpAgain).2, hcareer, hr, ?_⟩
  exact (observed_successfully_is_subscribed hagain (hreads addingUpAgain (by rfl)) hr).2 (.inl rfl) v rfl

end ReactiveViews
