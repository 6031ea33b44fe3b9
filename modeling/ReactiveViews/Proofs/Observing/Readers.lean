import ReactiveViews.Proofs.Registrations
/-!
# Expressions that only read

Most bindings act on nobody: they read values, compare and put them together, and may fail on the way.
Evaluating such an expression (`Expr.readsOnly`) is *quiet*: nothing is shown, queued, written or told, and all that
changes is what is known of who has read what (`World.Quiet`). With an observer watching, it is a series of
reads for that observer, and what happens in between does not concern the observer
(`World.Discovery`). A read whose source cannot be observed is not the end of it: the evaluation goes on,
and the failure is kept with the observer. So a discovery is sound as long as no failure is kept
(`World.Discovery.sound`).

Some reads can be seen in the expression, whatever it is evaluated for: an evaluation that comes to a
value has made these (`Expr.certain`, `Machine.run_runsReaders`).
-/

namespace ReactiveViews

/-- A read that can be tracked: of something observable, under a name. -/
abbrev TrackedRead := Observable × String

namespace Expr

mutual

/-- **Only reading.** An expression that writes nothing, gives no commands and asks no other observer. -/
def readsOnly : Expr → Bool
  | .literal _ | .constant _ | .source | .extra | .fail _ | .position _ _ | .parent _ | .event _
    | .volatile | .tracking => true
  | .get e _ | .peek e _ | .not e | .length e | .rawLength e | .join e | .log _ e | .untracked e
    | .track e _ => e.readsOnly
  | .eq a b | .add a b | .less a b | .item a b => a.readsOnly && b.readsOnly
  | .cond test onTrue onFalse => test.readsOnly && onTrue.readsOnly && onFalse.readsOnly
  | .cat parts | .seq parts => readsOnlyAll parts
  | .prevent | .stop | .set _ _ _ | .push _ _ | .observe _ _ | .perform _ => false

/-- Every one of some expressions only reads. -/
def readsOnlyAll : List Expr → Bool
  | [] => true
  | e :: rest => e.readsOnly && readsOnlyAll rest

end

mutual

/-- **Certain reads**, which are made whatever the expression is evaluated for, if it does not fail: those
of the lengths of arrays that it names. -/
def certain : Expr → List TrackedRead
  | .length (.constant (.array a)) => [(.array a, "length")]
  | .get e _ | .peek e _ | .not e | .length e | .rawLength e | .join e | .log _ e | .track e _ =>
    e.certain
  | .eq a b | .add a b | .less a b | .item a b => a.certain ++ b.certain
  | .cond test _ _ => test.certain
  | .cat parts | .seq parts => certainAll parts
  | _ => []

/-- What is certainly read by one of some expressions. -/
def certainAll : List Expr → List TrackedRead
  | [] => []
  | e :: rest => e.certain ++ certainAll rest

end

end Expr

namespace World

/-- **Subscribed.** An observer is registered for a read with the notifier of what is read. -/
def Subscribed (w : World) (o : ObserverId) (read : TrackedRead) : Prop :=
  ∃ n, w.notifierOf? read.1 = some n ∧ w.Registered o n (some read.2)

/-! ## What is quiet -/

/-- **Quiet.** Nothing has happened but that the watcher has read. -/
structure Quiet (w w' : World) : Prop where
  behaviors : w'.behaviors = w.behaviors
  views : w'.views = w.views
  document : w'.document = w.document
  queue : w'.queue = w.queue
  watcher : w'.watcher = w.watcher
  arrayObservation : w'.arrayObservation = w.arrayObservation
  notifierOf? : ∀ {source n}, w.notifierOf? source = some n → w'.notifierOf? source = some n
  registered : ∀ {o n topic}, w.Registered o n topic → w'.Registered o n topic
  others : ∀ {n topic s}, (∀ o, s ≠ .observer o) →
    (⟨topic, s⟩ ∈ (w'.notifiers.get n).subscriptions ↔ ⟨topic, s⟩ ∈ (w.notifiers.get n).subscriptions)
  unwatched : ∀ {o}, w.watcher ≠ some o → w'.observers.get o = w.observers.get o

variable {w w' w'' : World} {o : ObserverId} {reads more : List TrackedRead}

namespace Quiet

theorem trans (h : w.Quiet w') (h' : w'.Quiet w'') : w.Quiet w'' where
  behaviors := h'.behaviors.trans h.behaviors
  views := h'.views.trans h.views
  document := h'.document.trans h.document
  queue := h'.queue.trans h.queue
  watcher := h'.watcher.trans h.watcher
  arrayObservation := h'.arrayObservation.trans h.arrayObservation
  notifierOf? hn := h'.notifierOf? (h.notifierOf? hn)
  registered hr := h'.registered (h.registered hr)
  others hs := (h'.others hs).trans (h.others hs)
  unwatched ho := (h'.unwatched (h.watcher ▸ ho)).trans (h.unwatched ho)

/-- What is done with nobody watching. -/
theorem untracked (h : ({ w with watcher := none } : World).Quiet w') :
    w.Quiet { w' with watcher := w.watcher } ∧
      ∀ o, w'.observers.get o = w.observers.get o :=
  ⟨⟨h.behaviors, h.views, h.document, h.queue, rfl, h.arrayObservation, h.notifierOf?, h.registered,
    h.others, fun _ => h.unwatched (by simp)⟩, fun _ => h.unwatched (by simp)⟩

end Quiet

/-- **Still.** Quiet, and nobody has read anything. -/
structure Unread (w w' : World) : Prop extends w.Quiet w' where
  observers : ∀ o, w'.observers.get o = w.observers.get o

namespace Unread

/-- What leaves observers and notifiers alone, and who has which notifier. -/
theorem of_eq (hb : w'.behaviors = w.behaviors) (hv : w'.views = w.views)
    (hd : w'.document = w.document) (hq : w'.queue = w.queue) (hw : w'.watcher = w.watcher)
    (ha : w'.arrayObservation = w.arrayObservation) (ho : w'.observers = w.observers)
    (hs : ∀ n, w'.notifiers.get n = w.notifiers.get n)
    (hn : ∀ {source n}, w.notifierOf? source = some n → w'.notifierOf? source = some n) :
    w.Unread w' where
  behaviors := hb
  views := hv
  document := hd
  queue := hq
  watcher := hw
  arrayObservation := ha
  notifierOf? := hn
  registered hr := by rwa [Registered, hs]
  others _ := by rw [hs]
  unwatched _ := by rw [ho]
  observers _ := by rw [ho]

theorem refl (w : World) : w.Unread w :=
  .of_eq rfl rfl rfl rfl rfl rfl rfl (fun _ => rfl) id

end Unread

/-! ## What does not concern an observer -/

/-- **Passing by.** Something that does not concern an observer: its subscriptions are kept, and if it is to
discover its dependencies it still is. -/
structure PassesBy (o : ObserverId) (w w' : World) : Prop where
  evaluator : (w'.observers.get o).evaluator = (w.observers.get o).evaluator
  isVolatile : (w'.observers.get o).isVolatile = (w.observers.get o).isVolatile
  deferredError : (w'.observers.get o).deferredError = (w.observers.get o).deferredError
  needsRefresh : (w.observers.get o).needsRefresh = true → (w'.observers.get o).needsRefresh = true
  subscribed : ∀ read, w.Subscribed o read → w'.Subscribed o read

namespace PassesBy

theorem trans (h : w.PassesBy o w') (h' : w'.PassesBy o w'') : w.PassesBy o w'' where
  evaluator := h'.evaluator.trans h.evaluator
  isVolatile := h'.isVolatile.trans h.isVolatile
  deferredError := h'.deferredError.trans h.deferredError
  needsRefresh hr := h'.needsRefresh (h.needsRefresh hr)
  subscribed read hs := h'.subscribed read (h.subscribed read hs)

/-- What leaves the observer itself alone, and what it is subscribed to. -/
theorem of_same (ho : w'.observers.get o = w.observers.get o)
    (hn : ∀ {source n}, w.notifierOf? source = some n → w'.notifierOf? source = some n)
    (hr : ∀ {n topic}, w.Registered o n topic → w'.Registered o n topic) : w.PassesBy o w' where
  evaluator := by rw [ho]
  isVolatile := by rw [ho]
  deferredError := by rw [ho]
  needsRefresh := by rw [ho]; exact id
  subscribed _ := fun ⟨n, hs, hreg⟩ => ⟨n, hn hs, hr hreg⟩

end PassesBy

/-- What is quiet while somebody else watches, or nobody, is beside. -/
theorem Quiet.beside (h : w.Quiet w') (ho : w.watcher ≠ some o) : w.PassesBy o w' :=
  .of_same (h.unwatched ho) h.notifierOf? h.registered

theorem Unread.beside (h : w.Unread w') (o : ObserverId) : w.PassesBy o w' :=
  .of_same (h.observers o) h.notifierOf? h.registered

/-! ## What a read does -/

/-- The world in which the failure of a read is kept with the observer; the first one stays. -/
def deferError (w : World) (o : ObserverId) (e : Error) : World :=
  { w with observers := w.observers.modify o fun s =>
      { s with deferredError := s.deferredError.or (some e) } }

/-- **Reading**, for an observer. Either the read is subscribed to and recorded, or that it cannot be is
kept with the observer. -/
inductive Watched (o : ObserverId) (read : TrackedRead) (w : World) : World → Prop
  | failed (e : Error) : Watched o read w (w.deferError o e)
  | recorded {w₁ : World} {n : NotifierId} (h : w.Unread w₁) (hn : w₁.notifierOf? read.1 = some n) :
    Watched o read w (w₁.recordRead o read.1 read.2 n)

/-- To read does not concern others. -/
theorem recordRead_registered {n m : NotifierId} {o' : ObserverId} {topic : Option String}
    {source : Observable} {name : String} (h : w.Registered o' m topic) :
    (w.recordRead o source name n).Registered o' m topic := by
  rw [Registered, recordRead, Store.get_modify]
  split
  · next he => exact Notifier.mem_subscribe_of_mem (he ▸ h) _ _
  · exact h

theorem recordRead_self (w : World) (o : ObserverId) (source : Observable) (name : String)
    (n : NotifierId) : (w.recordRead o source name n).observers.get o = { w.observers.get o with
      needsRefresh := (w.observers.get o).needsRefresh ||
        Machine.continuesChain w (w.observers.get o).records source
      records := (w.observers.get o).records ++ [⟨source, name, n⟩] } :=
  (Store.get_modify _ _ _ _).trans (if_pos rfl)

theorem recordRead_subscribed {source : Observable} {name : String} {n : NotifierId}
    (hn : w.notifierOf? source = some n) :
    (w.recordRead o source name n).Subscribed o (source, name) := by
  refine ⟨n, ?_, ?_⟩
  · cases source <;> exact hn
  · rw [Registered, recordRead, Store.get_modify, if_pos rfl]
    exact Notifier.mem_subscribe _ _ _

theorem Watched.quiet {read : TrackedRead} (h : w.Watched o read w') (hw : w.watcher = some o) :
    w.Quiet w' := by
  cases h with
  | failed e =>
    refine ⟨rfl, rfl, rfl, rfl, rfl, rfl, id, id, fun _ => Iff.rfl, fun {o'} ho => ?_⟩
    exact (Store.get_modify _ _ _ _).trans (if_neg fun he => ho (hw.trans (congrArg some he)))
  | @recorded w₁ n h hn =>
    refine h.toQuiet.trans ⟨rfl, rfl, rfl, rfl, rfl, rfl, fun {source _} hs => ?_, recordRead_registered,
      fun {m topic s} hs => ?_, fun {o'} ho => ?_⟩
    · cases source <;> exact hs
    · rw [recordRead, Store.get_modify]
      split
      · next he =>
        subst he
        rw [Notifier.mem_subscribe_iff]
        exact or_iff_left fun he => hs o (congrArg Subscription.subscriber he)
      · exact Iff.rfl
    · rw [h.watcher] at ho
      exact (Store.get_modify _ _ _ _).trans (if_neg fun he => ho (hw.trans (congrArg some he)))

/-! ## Discoveries -/

/-- **Discovery.** From one world to another, some reads were made for an observer, and what happened
in between did not concern it. -/
inductive Discovery (o : ObserverId) (w : World) : List TrackedRead → World → Prop
  | start : Discovery o w [] w
  | beside {reads : List TrackedRead} {w₁ w₂ : World} (h : Discovery o w reads w₁)
    (hb : w₁.PassesBy o w₂) : Discovery o w reads w₂
  | read {reads : List TrackedRead} {w₁ w₂ : World} {read : TrackedRead}
    (h : Discovery o w reads w₁) (hr : w₁.Watched o read w₂) : Discovery o w (reads ++ [read]) w₂

theorem Discovery.trans (h : w.Discovery o reads w') (h' : w'.Discovery o more w'') :
    w.Discovery o (reads ++ more) w'' := by
  induction h' with
  | start => rwa [List.append_nil]
  | beside _ hb ih => exact .beside ih hb
  | read _ hr ih => exact List.append_assoc .. ▸ .read ih hr

/-- What is found of an observer when it has made some reads. -/
structure Found (o : ObserverId) (w : World) (reads : List TrackedRead) (w' : World) : Prop where
  evaluator : (w'.observers.get o).evaluator = (w.observers.get o).evaluator
  isVolatile : (w'.observers.get o).isVolatile = (w.observers.get o).isVolatile
  needsRefresh : (w.observers.get o).needsRefresh = true → (w'.observers.get o).needsRefresh = true
  kept : ∀ read, w.Subscribed o read → w'.Subscribed o read
  /-- No failure is kept, so nothing has failed: each read is subscribed to. -/
  subscribed : (w'.observers.get o).deferredError = none → ∀ read ∈ reads, w'.Subscribed o read

/-- A read on top. -/
theorem Found.read {w₁ w₂ : World} {read : TrackedRead} (h : w.Found o reads w₁)
    (hr : w₁.Watched o read w₂) : w.Found o (reads ++ [read]) w₂ := by
  cases hr with
  | failed e =>
    have hget : (w₁.deferError o e).observers.get o = { w₁.observers.get o with
        deferredError := (w₁.observers.get o).deferredError.or (some e) } :=
      (Store.get_modify _ _ _ _).trans (if_pos rfl)
    refine ⟨?_, ?_, fun hn => ?_, h.kept, fun hd => ?_⟩
    · rw [hget]; exact h.evaluator
    · rw [hget]; exact h.isVolatile
    · rw [hget]; exact h.needsRefresh hn
    · rw [hget] at hd
      exact absurd hd (by cases (w₁.observers.get o).deferredError <;> simp)
  | @recorded w₂ n hq hn =>
    have hb := hq.beside o
    have hkept : ∀ r, w₁.Subscribed o r → (w₂.recordRead o read.1 read.2 n).Subscribed o r := by
      intro r hr
      obtain ⟨m, hm, hreg⟩ := hb.subscribed r hr
      exact ⟨m, by cases hs : r.1 <;> rw [hs] at hm <;> exact hm, recordRead_registered hreg⟩
    refine ⟨?_, ?_, fun hr => ?_, fun r hr => hkept r (h.kept r hr), fun hd r hr => ?_⟩
    · rw [recordRead_self]; exact hb.evaluator.trans h.evaluator
    · rw [recordRead_self]; exact hb.isVolatile.trans h.isVolatile
    · rw [recordRead_self, hb.needsRefresh (h.needsRefresh hr)]
      rfl
    · rw [recordRead_self] at hd
      obtain hr | hr := List.mem_append.mp hr
      · exact hkept r (h.subscribed (hb.deferredError ▸ hd) r hr)
      · rw [List.mem_singleton.mp hr]
        exact recordRead_subscribed hn

/-- **Discoveries are sound.** -/
theorem Discovery.sound (h : w.Discovery o reads w') : w.Found o reads w' := by
  induction h with
  | start => exact ⟨rfl, rfl, id, fun _ => id, by simp⟩
  | beside _ hb ih =>
    exact ⟨hb.evaluator.trans ih.evaluator, hb.isVolatile.trans ih.isVolatile,
      fun hn => hb.needsRefresh (ih.needsRefresh hn), fun r hr => hb.subscribed r (ih.kept r hr),
      fun hd r hr => hb.subscribed r (ih.subscribed (hb.deferredError ▸ hd) r hr)⟩
  | read _ hr ih => exact ih.read hr

end World

/-! ## What reading is made of -/

namespace Machine

variable {α β : Type} {calls : Calls} {certain first rest : List TrackedRead}

/-- **Reading.** A computation that is quiet, a discovery for whoever watches, and comes to a value only
after certain reads. -/
structure Reads (calls : Calls) (certain : List TrackedRead) (m : Machine α) : Prop where
  quiet {w w' : World} {r : Except Error α} : m calls w = some (r, w') → w.Quiet w'
  discovery {w w' : World} {r : Except Error α} {o : ObserverId} : m calls w = some (r, w') →
    w.watcher = some o → ∃ reads, w.Discovery o reads w' ∧ ∀ a, r = .ok a → certain ⊆ reads

namespace Reads

/-- A computation that comes to one thing, unread. -/
theorem of_unread {m : Machine α} (h : ∀ w : World, ∃ r w', m calls w = some (r, w') ∧ w.Unread w') :
    Reads calls [] m where
  quiet {w w' r} hm := by
    obtain ⟨r₁, w₁, h₁, hu⟩ := h w
    obtain ⟨rfl, rfl⟩ := Prod.mk.inj (Option.some.inj (h₁.symm.trans hm))
    exact hu.toQuiet
  discovery {w w' r o} hm _ := by
    obtain ⟨r₁, w₁, h₁, hu⟩ := h w
    obtain ⟨rfl, rfl⟩ := Prod.mk.inj (Option.some.inj (h₁.symm.trans hm))
    exact ⟨[], .beside .start (hu.beside o), fun _ _ => List.Subset.refl _⟩

theorem pure (a : α) : Reads calls [] (Pure.pure a : Machine α) :=
  .of_unread fun w => ⟨_, w, rfl, .refl w⟩

theorem throw (e : Error) : Reads calls certain (throwThe Error e : Machine α) where
  quiet {w w' r} h := by
    obtain ⟨rfl, rfl⟩ := Prod.mk.inj (Option.some.inj h)
    exact (World.Unread.refl w).toQuiet
  discovery {w w' r o} h _ := by
    obtain ⟨rfl, rfl⟩ := Prod.mk.inj (Option.some.inj h)
    exact ⟨[], .start, by simp⟩

theorem read (f : World → α) : Reads calls [] (Machine.read f) :=
  .of_unread fun w => ⟨_, w, rfl, .refl w⟩

/-- One computation after another, which needs to be known only for what the first can come to. -/
theorem bindOf {m : Machine α} {f : α → Machine β} (hm : Reads calls first m)
    (hf : ∀ a w w', m calls w = some (.ok a, w') → Reads calls rest (f a)) :
    Reads calls (first ++ rest) (m >>= f) where
  quiet h := by
    obtain ⟨e, h₁, -⟩ | ⟨a, w₁, h₁, h₂⟩ := bind_eq_some h
    · exact hm.quiet h₁
    · exact (hm.quiet h₁).trans ((hf a _ _ h₁).quiet h₂)
  discovery {w w' r o} h hw := by
    obtain ⟨e, h₁, rfl⟩ | ⟨a, w₁, h₁, h₂⟩ := bind_eq_some h
    · obtain ⟨reads, hd, -⟩ := hm.discovery h₁ hw
      exact ⟨reads, hd, by simp⟩
    · obtain ⟨reads, hd, hc⟩ := hm.discovery h₁ hw
      obtain ⟨more, hd', hc'⟩ := (hf a _ _ h₁).discovery h₂ ((hm.quiet h₁).watcher.trans hw)
      exact ⟨reads ++ more, hd.trans hd', fun b hb =>
        List.append_subset.mpr ⟨List.Subset.trans (hc a rfl) (List.subset_append_left _ _),
          List.Subset.trans (hc' b hb) (List.subset_append_right _ _)⟩⟩

theorem bind {m : Machine α} {f : α → Machine β} (hm : Reads calls first m)
    (hf : ∀ a, Reads calls rest (f a)) : Reads calls (first ++ rest) (m >>= f) :=
  hm.bindOf fun a _ _ _ => hf a

/-- Nothing is certain of the second. -/
theorem andThen {m : Machine α} {f : α → Machine β} (hm : Reads calls first m)
    (hf : ∀ a, Reads calls [] (f a)) : Reads calls first (m >>= f) :=
  List.append_nil first ▸ hm.bind hf

theorem look {f : World → Machine α} (hf : ∀ w, Reads calls certain (f w)) :
    Reads calls certain (MonadState.get >>= f) where
  quiet {w _ _} h := (hf w).quiet h
  discovery {w _ _ _} h := (hf w).discovery h

/-- Less is certain. -/
theorem less {m : Machine α} (h : Reads calls first m) (hs : rest ⊆ first) : Reads calls rest m where
  quiet := h.quiet
  discovery hm hw := by
    obtain ⟨reads, hd, hc⟩ := h.discovery hm hw
    exact ⟨reads, hd, fun a ha => List.Subset.trans hs (hc a ha)⟩

/-- Of what nobody is watching nothing is read. -/
theorem untracked {m : Machine α} (h : Reads calls first m) : Reads calls [] (untracked m) where
  quiet hm := by
    unfold Machine.untracked watching at hm
    obtain ⟨w₁, h₁, rfl⟩ := within_eq_some.mp hm
    exact (h.quiet h₁).untracked.1
  discovery {w w' r o} hm _ := by
    unfold Machine.untracked watching at hm
    obtain ⟨w₁, h₁, rfl⟩ := within_eq_some.mp hm
    obtain ⟨hq, ho⟩ := (h.quiet h₁).untracked
    exact ⟨[], .beside .start (.of_same (ho o) hq.notifierOf? hq.registered),
      fun _ _ => List.Subset.refl _⟩

end Reads

/-! ## Reading and recording -/

section Watching

variable {w : World}

/-- Whether something can be observed is settled unread. -/
theorem observableNotifier_cases (source : Observable) (calls : Calls) (w : World) :
    (∃ e, observableNotifier source calls w = some (.error e, w)) ∨
      ∃ n w', observableNotifier source calls w = some (.ok n, w') ∧ w.Unread w' ∧
        w'.notifierOf? source = some n := by
  have hnew : ∀ n, (w.notifiers.add ⟨[]⟩).2.get n = w.notifiers.get n := World.get_newNotifier _
  cases source with
  | object x =>
    refine .inr ?_
    rw [observableNotifier, objectNotifier, bind_apply, read_apply]
    cases hx : (w.objects.get x).notifier with
    | some n => exact ⟨n, w, rfl, .refl w, hx⟩
    | none =>
      refine ⟨_, _, rfl, .of_eq rfl rfl rfl rfl rfl rfl rfl hnew fun {source n} hs => ?_,
        congrArg ObjectState.notifier ((Store.get_modify _ _ _ _).trans (if_pos rfl))⟩
      cases source with
      | object x' =>
        refine (congrArg ObjectState.notifier ((Store.get_modify _ _ _ _).trans (if_neg ?_))).trans hs
        rintro rfl
        exact absurd (hx.symm.trans hs) (by simp)
      | array | context => exact hs
  | context c =>
    refine .inr ?_
    rw [observableNotifier, contextNotifier, bind_apply, read_apply]
    cases hc : (w.contexts.get c).notifier with
    | some n => exact ⟨n, w, rfl, .refl w, hc⟩
    | none =>
      refine ⟨_, _, rfl, .of_eq rfl rfl rfl rfl rfl rfl rfl hnew fun {source n} hs => ?_,
        congrArg ContextState.notifier ((Store.get_modify _ _ _ _).trans (if_pos rfl))⟩
      cases source with
      | context c' =>
        refine (congrArg ContextState.notifier ((Store.get_modify _ _ _ _).trans (if_neg ?_))).trans hs
        rintro rfl
        exact absurd (hc.symm.trans hs) (by simp)
      | array | object => exact hs
  | array a =>
    rw [observableNotifier, arrayNotifier, bind_apply, get_apply]
    dsimp only
    cases ha : (w.arrays.get a).observer with
    | some observer => exact .inr ⟨_, w, rfl, .refl w, congrArg (Option.map _) ha⟩
    | none =>
      by_cases hoff : w.arrayObservation = .off
      · rw [if_pos hoff]
        exact .inl ⟨_, rfl⟩
      · rw [if_neg hoff]
        have hget : ∀ a', (w.observeArray a).notifierOf? (.array a') =
            if a = a' then some (w.notifiers.add ⟨[]⟩).1 else w.notifierOf? (.array a') := by
          intro a'
          rw [World.notifierOf?, World.observeArray, Store.get_modify]
          split <;> rfl
        refine .inr ⟨_, w.observeArray a, rfl, .of_eq rfl rfl rfl rfl rfl rfl rfl hnew
          fun {source n} hs => ?_, (hget a).trans (if_pos rfl)⟩
        cases source with
        | array a' =>
          refine (hget a').trans ((if_neg ?_).trans hs)
          rintro rfl
          rw [World.notifierOf?, ha] at hs
          exact absurd hs (by simp)
        | object | context => exact hs

/-- **A read is subscribed to and recorded**, or its failure is kept. -/
theorem watch_watched (o : ObserverId) (source : Observable) (name : String) (calls : Calls)
    (w : World) : ∃ w', watch o source name calls w = some (.ok (), w') ∧
      w.Watched o (source, name) w' := by
  obtain ⟨e, h⟩ | ⟨n, w₁, h, hu, hn⟩ := observableNotifier_cases source calls w
  · have ha : attempt (observableNotifier source) calls w = some (.ok (.error e), w) :=
      attempt_eq_some.mpr ⟨_, h, rfl⟩
    refine ⟨w.deferError o e, ?_, .failed e⟩
    rw [watch, bind_apply, ha]
    rfl
  · have ha : attempt (observableNotifier source) calls w = some (.ok (.ok n), w₁) :=
      attempt_eq_some.mpr ⟨_, h, rfl⟩
    refine ⟨w₁.recordRead o source name n, ?_, .recorded hu hn⟩
    rw [watch, bind_apply, ha]
    rfl

end Watching

namespace Reads

/-- A read for the watcher is certain. -/
theorem watch (source : Observable) (name : String) :
    Reads calls [(source, name)] (track source name) := by
  have hwatched : ∀ {w : World} {o : ObserverId}, w.watcher = some o →
      track source name calls w = Machine.watch o source name calls w := by
    intro w o hw
    rw [track, bind_apply, get_apply]
    dsimp only
    rw [hw]
  have hquiet : ∀ {w : World}, w.watcher = none → track source name calls w = some (.ok ⟨⟩, w) := by
    intro w hw
    rw [track, bind_apply, get_apply]
    dsimp only
    rw [hw]
    rfl
  refine ⟨fun {w w' r} h => ?_, fun {w w' r o} h hw => ?_⟩
  · cases hw : w.watcher with
    | none =>
      rw [hquiet hw] at h
      obtain ⟨rfl, rfl⟩ := Prod.mk.inj (Option.some.inj h)
      exact (World.Unread.refl w).toQuiet
    | some o =>
      obtain ⟨w₁, h₁, hr⟩ := watch_watched o source name calls w
      rw [hwatched hw] at h
      obtain ⟨rfl, rfl⟩ := Prod.mk.inj (Option.some.inj (h₁.symm.trans h))
      exact hr.quiet hw
  · obtain ⟨w₁, h₁, hr⟩ := watch_watched o source name calls w
    rw [hwatched hw] at h
    obtain ⟨rfl, rfl⟩ := Prod.mk.inj (Option.some.inj (h₁.symm.trans h))
    exact ⟨[(source, name)], .read .start hr, fun _ _ => List.Subset.refl _⟩

/-- To discover dependencies anew next time concerns nobody but the watcher. -/
theorem trackVolatile : Reads calls [] trackVolatile where
  quiet {w w' r} h := by
    rw [Machine.trackVolatile, bind_apply, get_apply] at h
    dsimp only at h
    cases hw : w.watcher with
    | none =>
      rw [hw] at h
      obtain ⟨rfl, rfl⟩ := Prod.mk.inj (Option.some.inj h)
      exact (World.Unread.refl w).toQuiet
    | some o =>
      rw [hw] at h
      obtain ⟨rfl, rfl⟩ := Prod.mk.inj (Option.some.inj h)
      refine ⟨rfl, rfl, rfl, rfl, rfl, rfl, id, id, fun _ => Iff.rfl, fun {o'} ho => ?_⟩
      exact (Store.get_modify _ _ _ _).trans (if_neg fun he => ho (hw.trans (congrArg some he)))
  discovery {w w' r o} h hw := by
    rw [Machine.trackVolatile, bind_apply, get_apply] at h
    dsimp only at h
    rw [hw] at h
    obtain ⟨rfl, rfl⟩ := Prod.mk.inj (Option.some.inj h)
    have hget : (w.observers.modify o fun s => { s with needsRefresh := true }).get o =
        { w.observers.get o with needsRefresh := true } :=
      (Store.get_modify _ _ _ _).trans (if_pos rfl)
    refine ⟨[], .beside .start ⟨?_, ?_, ?_, fun _ => ?_, fun _ => id⟩,
      fun _ _ => List.Subset.refl _⟩
    · exact (congrArg ObserverState.evaluator hget).trans rfl
    · exact (congrArg ObserverState.isVolatile hget).trans rfl
    · exact (congrArg ObserverState.deferredError hget).trans rfl
    · exact (congrArg ObserverState.needsRefresh hget).trans rfl

/-- Looking up whether a property is observable may be worth a warning. -/
theorem accessorOf? (type name : String) : Reads calls [] (accessorOf? type name) := by
  refine .of_unread fun w => ?_
  unfold Machine.accessorOf? accessorsOf
  rw [bind_apply, bind_apply, get_apply]
  dsimp only
  rw [bind_apply, modify_apply]
  dsimp only
  cases (w.registry.accessors type).2.2 <;>
    exact ⟨_, _, rfl, .of_eq rfl rfl rfl rfl rfl rfl rfl (fun _ => rfl) id⟩

theorem getProperty (x : ObjectId) (name : String) : Reads calls [] (getProperty x name) := by
  -- A read that is tracked is one for the watcher.
  have hwatch : Machine.getProperty x name calls = (do
      if (← get).watcher.isSome then
        if (← Machine.accessorOf? (← Machine.read (·.typeOf x)) name).isSome then
          track (.object x) name
      Machine.read (·.peek x name) : Machine Value) calls := by
    funext w
    unfold Machine.getProperty
    rw [bind_apply, bind_apply, get_apply]
    dsimp only
    cases hw : w.watcher with
    | none => rfl
    | some o =>
      simp only [Option.isSome_some, if_true, bind_apply, read_apply]
      cases ha : Machine.accessorOf? (w.typeOf x) name calls w with
      | none => rfl
      | some found =>
        obtain ⟨_ | accessor, w₁⟩ := found
        · rfl
        · have hw₁ : w₁.watcher = some o :=
            ((accessorOf? (w.typeOf x) name).quiet ha).watcher.trans hw
          cases accessor with
          | none => rfl
          | some accessor => simp [bind_apply, track, get_apply, hw₁]
  have hreads : Reads calls [] (do
      if (← get).watcher.isSome then
        if (← Machine.accessorOf? (← Machine.read (·.typeOf x)) name).isSome then
          track (.object x) name
      Machine.read (·.peek x name) : Machine Value) := by
    have hp : ∀ u : PUnit, Reads calls [] ((fun _ => Machine.read (·.peek x name)) u) := fun _ => .read _
    refine .look fun w => ?_
    dsimp only
    split
    · refine (Reads.read _).andThen fun type => (accessorOf? type name).andThen fun accessor => ?_
      split
      · exact ((watch (.object x) name).less (List.nil_subset _)).andThen hp
      · exact hp ⟨⟩
    · exact hp ⟨⟩
  exact ⟨fun h => hreads.quiet (hwatch ▸ h), fun h => hreads.discovery (hwatch ▸ h)⟩

theorem indexOf (c : ContextId) : Reads calls [] (contextIndex c) := by
  unfold contextIndex
  exact ((watch _ _).less (List.nil_subset _)).andThen fun _ => .read _

theorem lengthOf (c : ContextId) : Reads calls [] (contextLength c) := by
  unfold contextLength
  exact ((watch _ _).less (List.nil_subset _)).andThen fun _ => .read _

theorem queryPosition (c : ContextId) (query : PositionQuery) :
    Reads calls [] (queryPosition c query) := by
  cases query with
  | index | first | even | odd => exact (indexOf c).andThen fun _ => .pure _
  | length => exact (lengthOf c).andThen fun _ => .pure _
  | last => exact (indexOf c).andThen fun _ => (lengthOf c).andThen fun _ => .pure _
  | middle =>
    unfold Machine.queryPosition
    refine (indexOf c).andThen fun index => ?_
    split
    · exact .pure _
    · exact (lengthOf c).andThen fun _ => .pure _

theorem queryEvent (query : EventQuery) : Reads calls [] (queryEvent query) := by
  unfold Machine.queryEvent
  refine .look fun w => ?_
  split
  · exact .pure _
  · cases query <;> exact .pure _

theorem logEntry (entry : LogEntry) : Reads calls [] (logEntry entry) :=
  .of_unread fun _ => ⟨_, _, rfl, .of_eq rfl rfl rfl rfl rfl rfl rfl (fun _ => rfl) id⟩

/-- A new object has no notifier yet, and where it is now nothing was before. -/
theorem newObject (typeName : Option String) (fields : Keyed Value) :
    Reads calls [] (newObject typeName fields) := by
  refine .of_unread fun w => ⟨_, _, rfl, .of_eq rfl rfl rfl rfl rfl rfl rfl (fun _ => rfl)
    fun {source n} hs => ?_⟩
  cases source with
  | object x =>
    by_cases hx : x = (w.objects.add ⟨typeName.getD "Object", fields, none⟩).1
    · rw [World.notifierOf?, hx, Store.get_next] at hs
      exact absurd hs.symm (Option.some_ne_none n)
    · exact (congrArg ObjectState.notifier (Store.get_add_of_ne _ _ _ hx)).trans hs
  | array | context => exact hs

theorem newArray (items : List Value) : Reads calls [] (newArray items) := by
  refine .of_unread fun w => ⟨_, _, rfl, .of_eq rfl rfl rfl rfl rfl rfl rfl (fun _ => rfl)
    fun {source n} hs => ?_⟩
  cases source with
  | array a =>
    rw [World.notifierOf?] at hs
    by_cases ha : a = (w.arrays.add ⟨items, none⟩).1
    · rw [ha, Store.get_next] at hs
      exact absurd hs.symm (Option.some_ne_none n)
    · show Option.map _ ((w.arrays.add ⟨items, none⟩).2.get a).observer = _
      rwa [Store.get_add_of_ne _ _ _ ha]
  | object | context => exact hs

mutual

theorem resolve (l : Literal) : Reads calls [] (resolve l) := by
  cases l with
  | null | bool | number | text => exact .pure _
  | handle name => exact .read _
  | object typeName fields =>
    unfold Machine.resolve
    exact (resolveFields fields).andThen fun _ => (newObject _ _).andThen fun _ => .pure _
  | array items =>
    unfold Machine.resolve
    exact (resolveAll items).andThen fun _ => (newArray _).andThen fun _ => .pure _

theorem resolveFields (fields : List (String × Literal)) :
    Reads calls [] (resolveFields fields) := by
  cases fields with
  | nil => exact .pure _
  | cons field rest =>
    obtain ⟨name, l⟩ := field
    unfold Machine.resolveFields
    exact (resolve l).andThen fun _ => (resolveFields rest).andThen fun _ => .pure _

theorem resolveAll (items : List Literal) : Reads calls [] (resolveAll items) := by
  cases items with
  | nil => exact .pure _
  | cons l rest =>
    unfold Machine.resolveAll
    exact (resolve l).andThen fun _ => (resolveAll rest).andThen fun _ => .pure _

end

end Reads

/-! ## Evaluating -/

/-- **Running readers.** Calls evaluate what only reads in this way, and a constant to itself. -/
structure RunsReaders (calls : Calls) : Prop where
  reads (e : Expr) (env : Env) : e.readsOnly = true → Reads calls e.certain (eval e env)
  constant {v : Value} {env : Env} {w w' : World} {r : Except Error Value} :
    eval (.constant v) env calls w = some (r, w') → r = .ok v

namespace RunsReaders

variable (hc : RunsReaders calls)

include hc

theorem evalTexts (env : Env) {parts : List Expr} (h : Expr.readsOnlyAll parts = true) :
    Reads calls (Expr.certainAll parts) (evalTexts env parts) := by
  induction parts with
  | nil => exact .pure _
  | cons e rest ih =>
    rw [Expr.readsOnlyAll, Bool.and_eq_true] at h
    unfold Machine.evalTexts
    rw [Expr.certainAll]
    refine (hc.reads e env h.1).bind fun v => ?_
    exact (Reads.read _).bind fun text => (ih h.2).andThen fun _ => .pure _

theorem evalLast (env : Env) (last : Value) {parts : List Expr}
    (h : Expr.readsOnlyAll parts = true) :
    Reads calls (Expr.certainAll parts) (evalLast env last parts) := by
  induction parts generalizing last with
  | nil => exact .pure _
  | cons e rest ih =>
    rw [Expr.readsOnlyAll, Bool.and_eq_true] at h
    unfold Machine.evalLast
    rw [Expr.certainAll]
    exact (hc.reads e env h.1).bind fun v => ih v h.2

/-- Two operands, and what is made of their values. -/
theorem operands {a b : Expr} (env : Env) (h : (a.readsOnly && b.readsOnly) = true)
    {f : Value → Value → Machine Value} (hf : ∀ x y, Reads calls [] (f x y)) :
    Reads calls (a.certain ++ b.certain) (do
      let x ← eval a env
      let y ← eval b env
      f x y) := by
  rw [Bool.and_eq_true] at h
  exact (hc.reads a env h.1).bind fun x => (hc.reads b env h.2).andThen fun y => hf x y

/-- The length of an array is read where the expression gives an array, and so certainly of one that it
names. -/
theorem length (e : Expr) (env : Env) (he : e.readsOnly = true) :
    Reads calls (Expr.length e).certain (evalExpr (.length e) env) := by
  have hread : ∀ a, Reads calls [(.array a, "length")] (do
      track (.array a) "length"
      return Value.ofNat (← Machine.read (·.itemsOf a)).length) := fun a =>
    (Reads.watch (.array a) "length").andThen fun _ => (Reads.read _).andThen fun _ => .pure _
  unfold evalExpr
  by_cases ha : ∃ a, e = .constant (.array a)
  · obtain ⟨a, rfl⟩ := ha
    refine (hc.reads (.constant (.array a)) env rfl).bindOf fun v w w' hv => ?_
    obtain rfl := Except.ok.inj (hc.constant hv)
    exact hread a
  · have hcertain : (Expr.length e).certain = e.certain := by
      rw [Expr.certain]
      exact fun a he => ha ⟨a, he⟩
    rw [hcertain]
    refine (hc.reads e env he).andThen fun v => ?_
    split
    · exact (hread _).less (List.nil_subset _)
    · exact .pure _

/-- **An expression that only reads**, if calls evaluate its parts as they should. -/
theorem evalExpr (e : Expr) (env : Env) (he : e.readsOnly = true) :
    Reads calls e.certain (evalExpr e env) := by
  cases e with
  | literal l => exact .resolve l
  | constant | source | extra => exact .pure _
  | tracking => exact .look fun _ => .pure _
  | fail reason => exact .throw _
  | «volatile» => exact Reads.trackVolatile.andThen fun _ => .pure _
  | event query => exact .queryEvent query
  | length e => exact hc.length e env he
  | get e name =>
    unfold Machine.evalExpr
    rw [Expr.certain]
    refine (hc.reads e env he).andThen fun v => ?_
    split
    · exact .getProperty _ _
    · exact .pure _
  | peek e name =>
    unfold Machine.evalExpr
    rw [Expr.certain]
    refine (hc.reads e env he).andThen fun v => ?_
    split
    · exact .read _
    · exact .pure _
  | rawLength e =>
    unfold Machine.evalExpr
    rw [Expr.certain]
    refine (hc.reads e env he).andThen fun v => ?_
    split
    · exact (Reads.read _).andThen fun _ => .pure _
    · exact .pure _
  | join e =>
    unfold Machine.evalExpr
    rw [Expr.certain]
    refine (hc.reads e env he).andThen fun v => ?_
    split
    · exact .look fun _ => .pure _
    · exact .pure _
  | not e =>
    unfold Machine.evalExpr
    rw [Expr.certain]
    exact (hc.reads e env he).andThen fun _ => .pure _
  | log tag e =>
    unfold Machine.evalExpr
    rw [Expr.certain]
    exact (hc.reads e env he).andThen fun _ => .look fun _ => (Reads.logEntry _).andThen fun _ => .pure _
  | untracked e =>
    unfold Machine.evalExpr
    exact (hc.reads e env he).untracked
  | track e name =>
    unfold Machine.evalExpr
    rw [Expr.certain]
    refine (hc.reads e env he).andThen fun v => ?_
    have ht : ∀ source, Reads calls [] (do
        Machine.track source name
        return Value.null) := fun source =>
      ((Reads.watch source name).less (List.nil_subset _)).andThen fun _ => .pure _
    split <;> exact ht _
  | position hops query =>
    unfold Machine.evalExpr
    refine .look fun w => ?_
    split
    · exact .queryPosition _ _
    · exact .pure _
  | parent hops =>
    unfold Machine.evalExpr
    refine .look fun w => ?_
    split <;> exact .pure _
  | cat parts =>
    unfold Machine.evalExpr
    rw [Expr.certain]
    exact (hc.evalTexts env he).andThen fun _ => .pure _
  | seq parts =>
    unfold Machine.evalExpr
    rw [Expr.certain]
    exact hc.evalLast env .null he
  | eq a b | add a b | less a b =>
    unfold Machine.evalExpr
    rw [Expr.certain]
    exact hc.operands env he fun _ _ => .pure _
  | item a b =>
    unfold Machine.evalExpr
    rw [Expr.certain]
    refine hc.operands env he fun v i => ?_
    split
    · exact (Reads.read _).andThen fun _ => .pure _
    · exact .pure _
  | cond test onTrue onFalse =>
    rw [Expr.readsOnly, Bool.and_eq_true, Bool.and_eq_true] at he
    obtain ⟨⟨htest, htrue⟩, hfalse⟩ := he
    unfold Machine.evalExpr
    rw [Expr.certain]
    refine (hc.reads test env htest).andThen fun v => ?_
    split
    · exact (hc.reads onTrue env htrue).less (List.nil_subset _)
    · exact (hc.reads onFalse env hfalse).less (List.nil_subset _)
  | prevent | stop | set | push | observe | perform => exact absurd he (by simp [Expr.readsOnly])

end RunsReaders

/-- **Running an expression that only reads** is quiet, and a discovery for whoever watches. -/
theorem run_runsReaders (depth : Nat) : RunsReaders (run depth) := by
  induction depth with
  | zero =>
    exact ⟨fun e env _ => ⟨fun h => absurd h (by simp [eval, call, run]),
      fun h => absurd h (by simp [eval, call, run])⟩, fun h => absurd h (by simp [eval, call, run])⟩
  | succ depth ih =>
    refine ⟨fun e env he => ?_, fun {v env w w' r} h => ?_⟩
    · have h := ih.evalExpr e env he
      exact ⟨fun hm => h.quiet hm, fun hm => h.discovery hm⟩
    · exact (Prod.mk.inj (Option.some.inj h)).1.symm

end Machine

end ReactiveViews
