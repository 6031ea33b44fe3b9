import ReactiveViews.Proofs.Flush
import ReactiveViews.Proofs.Runs
/-!
# Whoever waits is woken

Between flushes, whatever waits has asked for a flush: the queue is in asynchronous
mode, a flush is requested, and it was requested from the scheduler that is
installed. In synchronous mode nothing waits. Six operations take part in this, each
in an order of its own, and tasks may use them in the middle of a flush.

It goes wrong in two ways, and only in these. A task that waits for the next flush in
synchronous mode gets a ticket, and nobody asks for that flush. And a task that
switches from asynchronous to synchronous mode leaves the flush that runs it without
another to follow, so that what is queued after it stays where it is. In every
session in which neither happens the law holds at every call.

Emptying the queue at once is called in the middle of enqueueing and of switching
modes, with the law broken; nothing but the absence of a flush is asked for there.
-/

namespace ReactiveViews

/-! ## The queue -/

/-- What is done does not take a flush off the task pool. -/
theorem FollowUp.spawn_ne_zero {pool : Option Nat} (next : FollowUp) (h : pool ≠ some 0) :
    next.spawn pool ≠ some 0 := by
  unfold spawn
  split
  · simp
  · exact h

namespace Queue

/-- **Asking.** After a step of the queue a flush is requested only if it was before, from the same
scheduler, or if the scheduler that is installed now is to be asked. -/
def Asks (q q' : Queue) (next : FollowUp) : Prop :=
  q'.flushRequested = true →
    (q.flushRequested = true ∧ q'.scheduler = q.scheduler) ∨ next = .schedule q'.scheduler

theorem asks_request (q : Queue) : q.Asks q.request.1 q.request.2 := by
  intro h
  unfold request at h ⊢
  split at h
  · next hq =>
    rw [if_pos hq]
    exact .inr rfl
  · exact .inl ⟨h, by split <;> rfl⟩

theorem asks_requestIfNeeded (q : Queue) : q.Asks q.requestIfNeeded.1 q.requestIfNeeded.2 := by
  unfold requestIfNeeded
  split
  · exact fun h => .inl ⟨h, rfl⟩
  · exact asks_request q

theorem asks_accept (q : Queue) (t : Task) : q.Asks (q.accept t).1 (q.accept t).2 := by
  unfold accept
  split
  · exact fun h => .inl ⟨h, rfl⟩
  · dsimp only
    split
    · exact fun h => .inl ⟨h, rfl⟩
    · exact asks_request { q with tasks := q.tasks ++ [t] }

theorem asks_await {q queue : Queue} {ticket : TicketId} {next : FollowUp}
    (h : q.await ticket = some (queue, next)) : q.Asks queue next := by
  unfold await at h
  split at h
  · exact absurd h nofun
  · obtain ⟨rfl, rfl⟩ := Prod.ext_iff.mp (Option.some.inj h)
    exact asks_request { q with waiters := q.waiters ++ [ticket] }

/-- Whoever was asked before, after installing it is the new scheduler. -/
theorem asks_install (q : Queue) (scheduler : Scheduler) :
    (q.install scheduler).1.flushRequested = true → (q.install scheduler).2 = .schedule scheduler := by
  intro h
  have hs : (q.install scheduler).1.scheduler = scheduler := by
    unfold install requestIfNeeded request
    split
    · rfl
    · split <;> rfl
  have ha := asks_requestIfNeeded { q with scheduler, flushRequested := false } h
  exact (ha.resolve_left nofun).trans (congrArg _ hs)

/-- **Sound.** A flush that is requested from the task pool is on it, and nobody waits for a flush
in synchronous mode. -/
structure Sound (q : Queue) (pool : Option Nat) : Prop where
  spawned : q.flushRequested = true → q.scheduler = .pool → pool ≠ some 0
  waiters : q.mode = .sync → q.waiters = []

/-- **Awake.** Unless a flush is running, a flush is requested if something waits. -/
structure Awake (q : Queue) (pool : Option Nat) : Prop extends Sound q pool where
  requested : q.processing = false → q.isIdle = false →
    q.mode = .async ∧ q.flushRequested = true

theorem spawned_of_asks {q q' : Queue} {pool : Option Nat} {next : FollowUp} (hs : q.Sound pool)
    (h : q.Asks q' next) :
    q'.flushRequested = true → q'.scheduler = .pool → next.spawn pool ≠ some 0 := by
  intro hf hp
  obtain ⟨hf', hp'⟩ | rfl := h hf
  · exact next.spawn_ne_zero (hs.spawned hf' (hp' ▸ hp))
  · rw [hp, FollowUp.spawn, if_pos rfl]
    simp

/-- Requesting a flush in asynchronous mode wakes everybody. -/
theorem awake_request {q : Queue} {pool : Option Nat} (h : q.Sound pool) (hm : q.mode = .async) :
    q.request.1.Awake (q.request.2.spawn pool) := by
  have hr : q.request.1 = { q with flushRequested := true } := by
    unfold request
    split
    · rfl
    · next hn =>
      have hf : q.flushRequested = true := by simpa [hm] using hn
      rw [← hf]
  refine ⟨⟨spawned_of_asks h (asks_request q), ?_⟩, ?_⟩
  · rw [hr]
    exact h.waiters
  · rw [hr]
    exact fun _ _ => ⟨hm, rfl⟩

/-- So does requesting one if something waits, but that does nothing for tasks in synchronous
mode. -/
theorem awake_requestIfNeeded {q : Queue} {pool : Option Nat} (h : q.Sound pool)
    (ht : q.processing = false → q.mode = .sync → q.tasks = []) :
    q.requestIfNeeded.1.Awake (q.requestIfNeeded.2.spawn pool) := by
  unfold requestIfNeeded
  split
  · next hi =>
    exact ⟨h, fun _ hn => absurd hi (by simp [hn])⟩
  · cases hm : q.mode with
    | async => exact awake_request h hm
    | sync =>
      have hr : q.request = (q, .nothing) := if_neg (by simp [hm])
      rw [hr]
      refine ⟨h, fun hp hi => absurd hi ?_⟩
      simp [isIdle, ht hp hm, h.waiters hm]

namespace Awake

variable {q : Queue} {pool : Option Nat}

/-- While no flush is running nothing waits in synchronous mode. -/
theorem idle (h : q.Awake pool) (hp : q.processing = false) (hm : q.mode = .sync) :
    q.isIdle = true := by
  cases hi : q.isIdle with
  | true => rfl
  | false => exact absurd ((h.requested hp hi).1.symm.trans hm) nofun

theorem tasks (h : q.Awake pool) (hp : q.processing = false) (hm : q.mode = .sync) :
    q.tasks = [] := by
  have hi := h.idle hp hm
  simp only [isIdle, Bool.and_eq_true, List.isEmpty_iff] at hi
  exact hi.1

/-- While no flush is running tasks wait in asynchronous mode only. -/
theorem async (h : q.Awake pool) (hp : q.processing = false) (ht : q.tasks ≠ []) :
    q.mode = .async := by
  cases hm : q.mode with
  | async => rfl
  | sync => exact absurd (h.tasks hp hm) ht

/-- Nobody is put to sleep by switching to asynchronous mode. -/
theorem mode_async (h : q.Awake pool) : Awake { q with mode := .async } pool :=
  ⟨⟨h.spawned, nofun⟩, fun hp hi => ⟨rfl, (h.requested hp hi).2⟩⟩

theorem accept (h : q.Awake pool) (t : Task) (hn : (q.accept t).2 ≠ .runNow) :
    (q.accept t).1.Awake ((q.accept t).2.spawn pool) := by
  have hs : ({ q with tasks := q.tasks ++ [t] } : Queue).Sound pool := ⟨h.spawned, h.waiters⟩
  unfold Queue.accept at hn ⊢
  split
  · exact h
  · next ht =>
    rw [if_neg ht] at hn
    dsimp only at hn ⊢
    split
    · next hm =>
      -- the task waits because a flush is running
      simp only [hm] at hn
      split at hn
      · next hp =>
        rw [if_pos hp]
        exact ⟨hs, fun hp' => absurd hp (by simp [show q.processing = false from hp'])⟩
      · exact absurd rfl hn
    · next hm => exact awake_request hs hm

theorem await (h : q.Awake pool) {queue : Queue} {ticket : TicketId} {next : FollowUp}
    (ha : q.await ticket = some (queue, next)) (hm : q.processing = true → q.mode = .async) :
    queue.Awake (next.spawn pool) := by
  unfold Queue.await at ha
  split at ha
  · exact absurd ha nofun
  · next hn =>
    have hasync : q.mode = .async := by
      cases hp : q.processing with
      | true => exact hm hp
      | false =>
        cases hq : q.mode with
        | async => rfl
        | sync => exact absurd ⟨hq, hp⟩ hn
    obtain ⟨rfl, rfl⟩ := Prod.ext_iff.mp (Option.some.inj ha)
    have hs : ({ q with waiters := q.waiters ++ [ticket] } : Queue).Sound pool :=
      ⟨h.spawned, fun hm => absurd (hasync.symm.trans hm) nofun⟩
    exact awake_request hs hasync

/-- Installing a scheduler forgets what was requested, and what pool it was requested from. -/
theorem install (h : q.Awake pool) (scheduler : Scheduler) (pool' : Option Nat) :
    (q.install scheduler).1.Awake ((q.install scheduler).2.spawn pool') :=
  awake_requestIfNeeded ⟨nofun, h.waiters⟩ h.tasks

/-- **A step of the queue puts nobody to sleep.** -/
theorem step (h : q.Awake pool) {q' : Queue} {next : FollowUp} (hs : q.Step next q') :
    q'.Awake (next.spawn pool) := by
  cases hs with
  | stay => exact ⟨⟨fun hf hp => next.spawn_ne_zero (h.spawned hf hp), h.waiters⟩, h.requested⟩
  | accept t hn => exact h.accept t hn
  | request => exact awake_requestIfNeeded h.toSound h.tasks

end Awake

end Queue

/-! ## The regime -/

/-- The law holds of a world. -/
def World.Awake (w : World) : Prop := w.queue.Awake w.pool

/-- Requesting a flush if something waits restores the law. -/
theorem World.awake_requested {w : World} (h : w.queue.Sound w.pool)
    (ht : w.queue.processing = false → w.queue.mode = .sync → w.queue.tasks = []) :
    w.requested.Awake := by
  have hp : w.requested.pool = w.queue.requestIfNeeded.2.spawn w.pool := World.pool_follow _ _
  rw [World.Awake, World.queue_requested, hp]
  exact Queue.awake_requestIfNeeded h ht

/-- **Awake sessions.** In the middle of a flush nobody switches from asynchronous to synchronous
mode, and nobody waits for the next flush in synchronous mode. -/
def awake : Call → World → Bool
  | .perform (.queue (.setMode .sync)), w | .perform (.queue (.configure .sync _)), w =>
    !(w.queue.processing && w.queue.mode = .async)
  | .perform (.queue (.next _)), w => !(w.queue.processing && w.queue.mode = .sync)
  | _, _ => true

/-- A flush ends where it began, stays asynchronous if it is, and what has been made stays. -/
structure World.Kept (w w' : World) : Prop where
  processing : w'.queue.processing = w.queue.processing
  async : w.queue.processing = true → w.queue.mode = .async → w'.queue.mode = .async
  grown : w.behaviors.size ≤ w'.behaviors.size

namespace World.Kept

theorem refl (w : World) : w.Kept w := ⟨rfl, fun _ h => h, Nat.le_refl _⟩

theorem trans {a b c : World} (h : a.Kept b) (h' : b.Kept c) : a.Kept c :=
  ⟨h'.processing.trans h.processing,
    fun hp hm => h'.async (h.processing.trans hp) (h.async hp hm), Nat.le_trans h.grown h'.grown⟩

/-- A step that neither begins nor ends a flush, and leaves its mode. -/
theorem of_queue {w w' : World} (hp : w'.queue.processing = w.queue.processing)
    (hm : w'.queue.mode = w.queue.mode) (hb : w.behaviors.size ≤ w'.behaviors.size) :
    w.Kept w' :=
  ⟨hp, fun _ h => hm.trans h, hb⟩

end World.Kept

open World in
/-- **The regime of waking up.** Emptying the queue may be called with the law broken. -/
def wakeful : Regime where
  allowed := awake
  Mild _ := True
  Inv := World.Awake
  Rel := World.Kept
  Entry c w := w.Awake ∨ c = .settle
  Exit _ w _ w' := w.Kept w' ∧ w'.Awake
  refl := Kept.refl
  trans := Kept.trans
  entry _ _ h := .inl h
  exit _ _ _ h := h
  change {w w'} hi hc := by
    obtain ⟨next, hs, hp⟩ := hc.queue
    obtain ⟨hf, hm⟩ := hs.fixed
    refine ⟨.of_queue hf hm hc.size_behaviors, ?_⟩
    show w'.queue.Awake w'.pool
    exact hp ▸ hi.step hs
  enter hs hi := by cases hs <;> exact hi
  leave hs _ hr hi' := by cases hs <;> exact ⟨⟨hr.processing, hr.async, hr.grown⟩, hi'⟩
  grown h := h.grown
  light _ _ := .inr fun _ => trivial
  takes _ _ := .inr trivial
  calledBack _ _ := .inr trivial
  watcher _ _ := .inr fun _ => trivial
  behaviors _ _ _ := trivial
  observers _ _ _ := .inr fun _ => trivial
  aspects _ _ _ := trivial

instance (name : String) : wakeful.Slight (.listener name) := ⟨trivial⟩

instance : wakeful.Loose where
  tether _ := trivial
  lists _ := trivial
  view _ _ := trivial

instance : wakeful.Accessible where
  entry _ h := .inl h
  exit _ _ h := h
  access hi hc := by cases hc <;> exact ⟨.of_queue rfl rfl (Nat.le_refl _), hi⟩

instance : wakeful.Slight .tickets := ⟨trivial⟩

instance : wakeful.Plain where
  behavior _ := trivial
  aspect _ _ := trivial
  setup hi hc := by
    cases hc with
    | dropPool => exact ⟨.of_queue rfl rfl (Nat.le_refl _), ⟨fun _ _ => nofun, hi.waiters⟩, hi.requested⟩
    | _ => exact ⟨.of_queue rfl rfl (Nat.le_refl _), hi⟩
  cues := trivial
  deliver hi _ := .inl hi
  delivered _ h := h
  write hi hc := by cases hc <;> exact ⟨.of_queue rfl rfl (Nat.le_refl _), hi⟩

namespace Setting

open Machine

variable {S : Setting wakeful}

instance : S.Prompt where
  pressed {w w'} hi hq := by
    obtain ⟨t, ht, hw⟩ := hq.queue
    have hr : w.Kept w' :=
      .of_queue (by rw [hw, (Queue.fixed_accept _ t).1]) (by rw [hw, (Queue.fixed_accept _ t).2])
        (Nat.le_of_eq (congrArg Store.size hq.behaviors.symm))
    have hsettle : wakeful.Entry .settle w' := .inr rfl
    exact (Leads.call hsettle).mono fun _ _ h => ⟨hr.trans h.1, h.2⟩

end Setting

/-- **A flush and waking up.** While the tasks of a flush run, whatever waits needs nobody to ask
for another flush. -/
def wakefulFlushing : Flushing wakeful where
  Owed start _ w := w.Awake ∧ w.queue.processing = true ∧
    (start.queue.mode = .async → w.queue.mode = .async) ∧ start.behaviors.size ≤ w.behaviors.size
  log _ h := h
  turn h := .inl h.1
  ran := by
    rintro start w w' t rest r ⟨-, hp, hm, hb⟩ - ⟨hr, hi⟩
    exact ⟨hi, hr.processing.trans hp, fun h => hr.async hp (hm h), Nat.le_trans hb hr.grown⟩

namespace Setting

open Machine

variable {S : Setting wakeful}

/-- **One flush wakes up what it leaves**, unless it leaves tasks in synchronous mode; then whoever
called for it goes on. -/
theorem process_wakes (w : World) : S.Leads process w fun r w' =>
    (∃ report, r = .ok report) ∧ w.Kept w' ∧ (w.queue.mode = .async → w'.queue.mode = .async) ∧
      (w'.Awake ∨ (w.queue.tasks ≠ [] ∧ w'.queue.tasks ≠ []) ∧ w'.queue.processing = false ∧
        w'.queue.mode = .sync) := by
  have ho : w.queue.tasks ≠ [] → wakefulFlushing.Owed w w.queue.tasks w.flushing :=
    fun _ => ⟨⟨⟨nofun, fun _ => rfl⟩, nofun⟩, rfl, id, Nat.le_refl _⟩
  refine (wakefulFlushing.process_leads S ho).mono ?_
  rintro r w' ⟨hok, x, hx, rfl⟩
  refine ⟨hok, ?_⟩
  have hq : ((x.redeemed w.queue.waiters).requested).queue = x.queue.requestIfNeeded.1 :=
    World.queue_requested _
  have hb : ((x.redeemed w.queue.waiters).requested).behaviors = x.behaviors :=
    World.behaviors_requested _
  have hp := (Queue.fixed_requestIfNeeded x.queue).1
  have hm := (Queue.fixed_requestIfNeeded x.queue).2
  cases hx with
  | none ht =>
    refine ⟨.of_queue (hq ▸ hp) (hq ▸ hm) (Nat.le_of_eq (congrArg Store.size hb.symm)),
      fun h => (congrArg Queue.mode hq).trans (hm.trans h), .inl ?_⟩
    exact World.awake_requested ⟨nofun, fun _ => rfl⟩ fun _ _ => rfl
  | @all w₁ ht h =>
    obtain ⟨hi, hrun, hasync, hgrown⟩ := h
    have hkept : w.Kept ((World.redeemed _ w.queue.waiters).requested) :=
      ⟨(congrArg Queue.processing hq).trans hp,
        fun _ h => (congrArg Queue.mode hq).trans (hm.trans (hasync h)),
        Nat.le_trans hgrown (Nat.le_of_eq (congrArg Store.size hb.symm))⟩
    refine ⟨hkept, fun h => (congrArg Queue.mode hq).trans (hm.trans (hasync h)), ?_⟩
    by_cases hleft : w.queue.processing = false ∧ w₁.queue.mode = .sync ∧ w₁.queue.tasks ≠ []
    · have hrest : w₁.queue.tasks ≠ [] := hleft.2.2
      refine .inr ⟨⟨ht, ?_⟩, (congrArg Queue.processing hq).trans (hp.trans hleft.1),
        (congrArg Queue.mode hq).trans (hm.trans hleft.2.1)⟩
      rwa [hq, Queue.tasks_requestIfNeeded]
    · refine .inl (World.awake_requested ⟨hi.spawned, hi.waiters⟩ fun hp hm => ?_)
      exact Classical.byContradiction fun ht => hleft ⟨hp, hm, ht⟩

/-- **A flush keeps to the law** from a world where tasks wait in asynchronous mode only, unless a
flush is running. -/
theorem process_agrees {w : World}
    (hw : w.queue.processing = false → w.queue.tasks ≠ [] → w.queue.mode = .async) :
    S.AgreesAt process w := by
  refine (process_wakes w).mono ?_
  rintro r w' ⟨-, hk, hm, hi | ⟨ht, hp, hs⟩⟩
  · exact ⟨hk, hi⟩
  · have hasync := hm (hw (hk.processing.symm.trans hp) ht.1)
    exact absurd (hasync.symm.trans hs) nofun

instance : S.Agrees process :=
  ⟨fun hi => process_agrees hi.async⟩

/-- Emptying the queue may be called anywhere, and restores the law. -/
theorem settled (w : World) : @AgreesAt FlushReport wakeful S (Machine.call .settle) w := by
  have he : wakeful.Entry .settle w := .inr rfl
  exact Leads.call he

/-- **Flushing until nothing is queued restores the law**, whatever has happened to it. -/
theorem settle_agrees (w : World) : S.AgreesAt settle w := by
  unfold settle
  refine (process_wakes w).bind (fun e _ h => by simpa using h.1) ?_
  rintro report w' ⟨-, hk, -, hi⟩
  refine .read (g := id) ?_
  dsimp only [id]
  split
  · next ht =>
    have hempty : w'.queue.tasks = [] := List.isEmpty_iff.mp ht
    exact .of_eq (fun _ => rfl) ⟨hk, hi.resolve_right fun h => h.1.2 hempty⟩
  · have hend : ∀ total : FlushReport, S.Agrees (pure (report.absorb total)) :=
      fun _ => inferInstance
    exact ((settled w').bind fun total _ => (hend total).agreesAt).since hk

/-- Switching to asynchronous mode. -/
theorem setMode_async {w : World} (hw : w.Awake) : S.AgreesAt (setMode .async) w := by
  have hk : w.Kept { w with queue := { w.queue with mode := .async } } :=
    ⟨rfl, fun _ _ => rfl, Nat.le_refl _⟩
  exact Leads.of_eq (fun _ => rfl) ⟨hk, hw.mode_async⟩

/-- Switching to synchronous mode, unless a flush is running that is asynchronous. -/
theorem setMode_sync {w : World} (hm : w.queue.processing = true → w.queue.mode = .sync) :
    S.AgreesAt (setMode .sync) w := by
  have hk : w.Kept { w with queue := { w.queue with mode := .sync } } :=
    ⟨rfl, fun hp h => absurd ((hm hp).symm.trans h) nofun, Nat.le_refl _⟩
  have hs : ∀ calls, setMode .sync calls w = (Machine.call .settle >>= fun _ => pure ())
      calls { w with queue := { w.queue with mode := .sync } } := fun _ => rfl
  have hend : S.Agrees (pure () : Machine Unit) := inferInstance
  exact .of_eq hs hk ((settled _).bind fun _ _ => hend.agreesAt)

/-- **Configuring keeps to the law**, unless it is to synchronous mode while a flush is running that
is asynchronous. What is asked of the new scheduler is asked after the mode is switched. -/
theorem configure_agrees {mode : UpdateMode} {scheduler : Scheduler} {w : World} (hw : w.Awake)
    (hm : mode = .sync → w.queue.processing = true → w.queue.mode = .sync) :
    S.AgreesAt (configure mode scheduler) w := by
  let pool := if scheduler = .pool then some 0 else w.pool
  let x : World := { w with pool, queue := (w.queue.install scheduler).1 }
  have hc : ∀ calls, configure mode scheduler calls w =
      (setMode mode >>= fun _ => followUp (w.queue.install scheduler).2) calls x := by
    intro calls
    cases scheduler <;> rfl
  have hf := Queue.fixed_requestIfNeeded { w.queue with scheduler, flushRequested := false }
  have hk : w.Kept x := .of_queue hf.1 hf.2 (Nat.le_refl _)
  have hn : (w.queue.install scheduler).2 ≠ .runNow := Queue.requestIfNeeded_ne_runNow _
  refine .of_eq hc hk ?_
  cases mode with
  | async =>
    let y : World := { x with queue := { x.queue with mode := .async } }
    have hy : ∀ calls, (setMode .async >>= fun _ => followUp (w.queue.install scheduler).2) calls x =
        some (.ok (), y.follow (w.queue.install scheduler).2) :=
      fun calls => followUp_apply calls y hn
    have hi : (y.follow (w.queue.install scheduler).2).Awake := by
      rw [World.Awake, World.queue_follow, World.pool_follow]
      exact (hw.install scheduler pool).mode_async
    have hky : x.Kept (y.follow (w.queue.install scheduler).2) := by
      refine ⟨?_, fun _ _ => ?_, ?_⟩
      · rw [World.queue_follow]
      · rw [World.queue_follow]
      · exact Nat.le_of_eq (by rw [World.behaviors_follow])
    exact Leads.of_eq hy ⟨hky, hi⟩
  | sync =>
    have hs : S.AgreesAt (setMode .sync) x :=
      setMode_sync fun hp => hf.2.trans (hm rfl (hf.1.symm.trans hp))
    exact hs.bind fun _ _ => (followUp_agrees hn).agreesAt

instance : @Agrees FlushReport wakeful S (Machine.call .settle) := ⟨fun {w} _ => settled w⟩

instance : @Agrees Unit wakeful S (Machine.call .drainPool) := by
  refine ⟨fun {w} hw => ?_⟩
  have he : wakeful.Entry .drainPool w := .inl hw
  exact Leads.call he

/-- A flush spawned on the task pool is run. It is off the pool before it begins, and no longer
requested when it has begun. -/
instance : S.Agrees drainPool := by
  unfold drainPool
  refine .get fun w hw => ?_
  split
  · next spawned hpool =>
    have hset : S.Leads (set { w with pool := some spawned } : Machine PUnit) w
        fun r w' => r = .ok ⟨⟩ ∧ w' = { w with pool := some spawned } :=
      .of_eq (fun _ => rfl) ⟨rfl, rfl⟩
    refine hset.bind (by simp) ?_
    rintro _ w' ⟨-, rfl⟩
    have hk : w.Kept { w with pool := some spawned } := .of_queue rfl rfl (Nat.le_refl _)
    have hp : S.AgreesAt process { w with pool := some spawned } :=
      process_agrees (w := { w with pool := some spawned }) hw.async
    exact (hp.bind fun _ _ => Agrees.agreesAt).since hk
  · exact Agrees.agreesAt hw

theorem nextFlush_agrees {w : World} (hw : w.Awake)
    (hm : w.queue.processing = true → w.queue.mode = .async) : S.AgreesAt nextFlush w := by
  refine nextFlush_agreesAt hw fun x ticket queue next hx hq ha => ?_
  have hf := Queue.fixed_await ha
  refine ⟨?_, ?_⟩
  · refine .of_queue ?_ ?_ ?_
    · rw [World.queue_follow]
      exact hf.1
    · rw [World.queue_follow]
      exact hf.2
    · exact Nat.le_of_eq (by rw [World.behaviors_follow])
  · have hi := hx.await ha (hq ▸ hm)
    show World.Awake _
    rwa [World.Awake, World.queue_follow, World.pool_follow]

/-- The flush that is running when somebody may switch to synchronous mode is not asynchronous. -/
theorem sync_of_awake {w : World}
    (ha : (!(w.queue.processing && decide (w.queue.mode = .async))) = true)
    (hp : w.queue.processing = true) : w.queue.mode = .sync := by
  cases hm : w.queue.mode with
  | sync => rfl
  | async => exact absurd ha (by simp [hp, hm])

instance : S.Commanded where
  subscribe hw _ := Agrees.agreesAt hw
  queue {c w} hc hw ha := by
    have hunit : S.Agrees (pure Answer.unit : Machine Answer) := inferInstance
    cases c with
    | createTask | enqueue | status | dropPool | poll => exact absurd trivial hc
    | process | settle | processResult | runPool =>
      unfold performQueue
      exact Agrees.agreesAt hw
    | setMode mode =>
      have hm : S.AgreesAt (setMode mode) w := by
        cases mode with
        | async => exact setMode_async hw
        | sync => exact setMode_sync (sync_of_awake ha)
      exact hm.bind fun _ _ => hunit.agreesAt
    | configure mode scheduler =>
      have hm : mode = .sync → w.queue.processing = true → w.queue.mode = .sync := by
        rintro rfl
        exact sync_of_awake ha
      exact (configure_agrees hw hm).bind fun _ _ => hunit.agreesAt
    | next handle =>
      have hm : w.queue.processing = true → w.queue.mode = .async := by
        intro hp
        cases hm : w.queue.mode with
        | async => rfl
        | sync => exact absurd ha (by simp [wakeful, awake, hp, hm])
      unfold performQueue
      refine (nextFlush_agrees hw hm).bind fun ticket _ hw' => ?_
      exact Agrees.agreesAt hw'

end Setting

open Machine in
/-- Awake sessions keep to the law. -/
theorem wakeful_kept : wakeful.Kept := by
  refine Regime.Loose.kept (fun S => inferInstance) (fun S => inferInstance) (fun {c w} hc he => ?_)
    (fun _ hr hi => ⟨hr, hi⟩) fun S {c w} hc he _ => ?_
  · obtain hi | rfl := he
    · exact hi
    · exact hc.elim
  · cases c with
    | eval | bindView | unbindView | bubble | perform => exact absurd trivial hc
    | settle => exact Setting.settle_agrees w
    | deliver | update | drainPool =>
      have hi : w.Awake := he.resolve_right nofun
      unfold body
      exact Setting.Agrees.agreesAt (G := wakeful) hi

/-- **Requested.** If something waits, the queue is in asynchronous mode and a flush has been
requested that has not begun; with the task pool installed, a flush is on it. -/
def World.Requested (w : World) : Prop :=
  w.queue.isIdle = false → w.queue.mode = .async ∧ w.queue.flushRequested = true ∧
    (w.queue.scheduler = .pool → w.pool ≠ some 0)

theorem World.Awake.wakes {w : World} (h : w.Awake) (hp : w.queue.processing = false) :
    w.Requested := by
  intro hi
  obtain ⟨hm, hf⟩ := h.requested hp hi
  exact ⟨hm, hf, h.spawned hf⟩

theorem awake_empty : World.empty.Awake := ⟨⟨nofun, nofun⟩, fun _ h => absurd h (by decide)⟩

namespace Session

/-- Between the commands of a session no flush is running. -/
theorem processing_of_reached {w : World} (h : Reached awake w) : w.queue.processing = false := by
  induction h with
  | start => rfl
  | @perform w w' c r hw hr ih =>
    have hi : w.Awake := inv_of_reached wakeful_kept awake_empty hw
    have he : wakeful.Entry (.perform c) { w with log := [] } := .inl hi
    obtain ⟨-, -, hk, -⟩ := Regime.run_agrees wakeful_kept awake (fun _ _ _ h => h) depth he hr
    exact hk.processing.trans ih

end Session

/-- **No wake-up is lost.** In an awake session, no flush is running between commands, and if
anything waits then for a flush, task or ticket, it has been requested. The same holds wherever a
call is made with no flush running, however deep in a command, except for the call that empties the
queue at once and so sees to it. And a flush has only ever been requested from the scheduler that is
installed: whatever raises the request asks that scheduler. -/
theorem no_wake_up_is_lost (w : World) :
    (Session.Reached awake w → w.queue.processing = false ∧ w.Requested) ∧
    (∀ c, Session.Visited awake c w → c ≠ .settle → w.queue.processing = false → w.Requested) ∧
    (∀ q t, Queue.Asks q (q.accept t).1 (q.accept t).2) ∧
    (∀ q, Queue.Asks q q.requestIfNeeded.1 q.requestIfNeeded.2) ∧
    (∀ q ticket queue next, Queue.await q ticket = some (queue, next) → q.Asks queue next) ∧
    ∀ q scheduler, (Queue.install q scheduler).1.flushRequested = true →
      (q.install scheduler).2 = .schedule scheduler := by
  refine ⟨fun hw => ?_, fun c hv hc hp => ?_, Queue.asks_accept, Queue.asks_requestIfNeeded,
    fun _ _ _ _ => Queue.asks_await, Queue.asks_install⟩
  · have hp := Session.processing_of_reached hw
    have hi : w.Awake := Session.inv_of_reached wakeful_kept awake_empty hw
    exact ⟨hp, hi.wakes hp⟩
  · have he : wakeful.Entry c w := Session.entry_of_visited wakeful_kept awake_empty hv
    exact (he.resolve_right hc).wakes hp

/-- In synchronous mode a task waits for the next flush. -/
def sleepingSession : List Command :=
  [.queue (.setMode .sync), .queue (.createTask "t" (.perform (.queue (.next "n")))),
    .queue (.enqueue "t")]

-- The ticket is never good: nobody asks for a flush.
example : (Session.play (fun _ _ => true) sleepingSession World.empty).any (fun w =>
    !w.queue.isIdle && decide (w.queue.mode = .sync) && !w.queue.flushRequested &&
      !w.queue.processing) = true := by
  decide +kernel

/-- A task is queued while the task pool is installed. -/
def spawningSession : List Command :=
  [.queue (.configure .async .pool), .queue (.createTask "t" (.literal .null)),
    .queue (.enqueue "t")]

theorem spawned_flush_is_requested : ∃ w, Session.Reached awake w ∧ w.queue.isIdle = false ∧
    w.queue.scheduler = .pool ∧ w.queue.flushRequested = true ∧ w.pool ≠ some 0 := by
  have hplay : (Session.play awake spawningSession World.empty).any (fun w =>
      !w.queue.isIdle && decide (w.queue.scheduler = .pool)) = true := by
    decide +kernel
  obtain ⟨w, hw, hq⟩ := Option.any_eq_true _ _ |>.mp hplay
  simp only [Bool.and_eq_true, Bool.not_eq_true', decide_eq_true_eq] at hq
  have hreached := Session.reached_of_play .start hw
  obtain ⟨-, hf, hpool⟩ := ((no_wake_up_is_lost w).1 hreached).2 hq.1
  exact ⟨w, hreached, hq.1, hq.2, hf, hpool hq.2⟩

end ReactiveViews
