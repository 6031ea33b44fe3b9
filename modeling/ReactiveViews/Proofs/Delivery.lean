import ReactiveViews.Proofs.Flush
import ReactiveViews.Proofs.Runs
/-!
# Tasks run once, and in order

A flush is told here turn by turn. Its turns are those of the tasks that waited when it
began, one each and in the order in which they were accepted, whether they fail or not;
what waits when it has ended is what was accepted in the course of its turns, in that
order. So over any sequence of enqueueing and flushing the tasks that ran, followed by
those that still wait, are the tasks that waited at first, followed by those accepted
(`Turns.tasks`, `Flush.order`, `Deeds.order`).

What this rests on is that a task that is having its turn does nothing to the queue but
add to it. That is so as long as it does not flush the queue itself, nor says in which
mode the queue is to be, and is shown of every call that it may make (`adding_kept`).
-/

namespace ReactiveViews

/-- **Extension.** A queue with more tasks behind those that waited, none of them twice, and
otherwise flushed in the same way. -/
structure Queue.Extended (q : Queue) (accepted : List Task) (q' : Queue) : Prop where
  tasks : q'.tasks = q.tasks ++ accepted
  nodup : q.tasks.Nodup → q'.tasks.Nodup
  processing : q'.processing = q.processing
  mode : q'.mode = q.mode

namespace Queue.Extended

/-- Nothing is added. -/
theorem of_tasks {q q' : Queue} (ht : q'.tasks = q.tasks)
    (hf : q'.processing = q.processing ∧ q'.mode = q.mode) : q.Extended [] q' :=
  ⟨ht.trans (List.append_nil _).symm, fun h => ht ▸ h, hf.1, hf.2⟩

theorem refl (q : Queue) : q.Extended [] q := of_tasks rfl ⟨rfl, rfl⟩

theorem trans {a b c : Queue} {ts us : List Task} (h : a.Extended ts b) (h' : b.Extended us c) :
    a.Extended (ts ++ us) c where
  tasks := by rw [h'.tasks, h.tasks, List.append_assoc]
  nodup ha := h'.nodup (h.nodup ha)
  processing := h'.processing.trans h.processing
  mode := h'.mode.trans h.mode

/-- A task that waits already is not accepted again. -/
theorem accept (q : Queue) (t : Task) :
    q.Extended (if t ∈ q.tasks then [] else [t]) (q.accept t).1 := by
  by_cases ht : t ∈ q.tasks
  · rw [if_pos ht]
    exact of_tasks (by rw [tasks_accept, if_pos ht]) (fixed_accept q t)
  · have htasks : (q.accept t).1.tasks = q.tasks ++ [t] := by rw [tasks_accept, if_neg ht]
    rw [if_neg ht]
    refine ⟨htasks, fun hq => ?_, (fixed_accept q t).1, (fixed_accept q t).2⟩
    rw [htasks]
    exact List.nodup_append.mpr ⟨hq, by simp, fun u hu v hv huv =>
      ht (List.mem_singleton.mp hv ▸ huv ▸ hu)⟩

theorem of_step {q q' : Queue} {next : FollowUp} (h : q.Step next q') :
    ∃ accepted, q.Extended accepted q' := by
  cases h with
  | stay => exact ⟨[], refl q⟩
  | accept t => exact ⟨_, accept q t⟩
  | request => exact ⟨[], of_tasks (tasks_requestIfNeeded q) (fixed_requestIfNeeded q)⟩

end Queue.Extended

/-! ## Turns -/

/-- **Turn.** A task that ran, the tasks accepted meanwhile in order, and how it ended. -/
structure Turn where
  task : Task
  accepted : List Task
  outcome : Except Error Unit

/-- How a turn failed, if it did. -/
def Turn.error? (t : Turn) : Option Error :=
  match t.outcome with
  | .ok _ => none
  | .error e => some e

/-- What is to be reported of some turns. -/
def FlushReport.ofTurns (turns : List Turn) : FlushReport :=
  ⟨turns.length, turns.filterMap Turn.error?⟩

theorem FlushReport.absorb_ofTurns (a b : List Turn) :
    (ofTurns a).absorb (ofTurns b) = ofTurns (a ++ b) := by
  simp [absorb, ofTurns]

/-- The world when a turn that began in another is over: a failure is logged. -/
def World.turnOver (w after : World) (outcome : Except Error Unit) : World :=
  match outcome with
  | .ok _ => { after with held := w.held }
  | .error e =>
    { after with held := w.held, log := .error "queued update failed" e.message :: after.log }

@[simp] theorem World.queue_turnOver (w after : World) (outcome : Except Error Unit) :
    (w.turnOver after outcome).queue = after.queue := by
  cases outcome <;> rfl

/-- A call comes to an end, run to some depth. -/
def Call.Ends (c : Call) (w : World) (r : Except Error c.Result) (w' : World) : Prop :=
  ∃ depth, Machine.run depth c w = some (r, w')

/-- **Turns.** The tasks of a batch run one after another, from one world to another. -/
inductive Turns : World → List Task → List Turn → World → Prop
  | nil (w : World) : Turns w [] [] w
  | cons {w w₁ w' : World} {t : Task} {rest accepted : List Task} {outcome : Except Error Unit}
    {turns : List Turn} (h : (Call.update t).Ends (w.inTurn t rest) outcome w₁)
    (hq : w.queue.Extended accepted w₁.queue)
    (hr : Turns (w.turnOver w₁ outcome) rest turns w') :
    Turns w (t :: rest) (⟨t, accepted, outcome⟩ :: turns) w'

namespace Turns

variable {w w' : World} {batch : List Task} {turns : List Turn}

/-- **Each task of a batch has one turn, in order**, however the turns end. -/
theorem tasks (h : Turns w batch turns w') : turns.map Turn.task = batch := by
  induction h with
  | nil => rfl
  | cons _ _ _ ih => rw [List.map_cons, ih]

/-- **What is accepted in the course of a batch waits behind what waited**, in the order in which it
was accepted. -/
theorem queue (h : Turns w batch turns w') :
    w.queue.Extended (turns.flatMap Turn.accepted) w'.queue := by
  induction h with
  | nil => exact .refl _
  | cons _ hq _ ih =>
    rw [World.queue_turnOver] at ih
    rw [List.flatMap_cons]
    exact hq.trans ih

end Turns

/-- **Flush.** The tasks that waited have their turns, the tickets that waited are made good, and
another flush is requested if something waits again. -/
inductive Flush (w : World) : List Turn → World → Prop
  | none (h : w.queue.tasks = []) :
    Flush w [] (({ w with queue := w.queue.drain.2 }.redeemed w.queue.waiters).requested)
  | turns {w₁ : World} {turns : List Turn} (h : w.queue.tasks ≠ [])
    (ht : Turns w.flushing w.queue.tasks turns w₁) :
    Flush w turns ((({ w₁ with queue := { w₁.queue with processing := w.queue.processing } } :
      World).redeemed w.queue.waiters).requested)

namespace Flush

variable {w w' : World} {turns : List Turn}

/-- **A flush runs what waited when it began**, each task once and in the order of acceptance; what
is accepted meanwhile does not run in it. -/
theorem tasks (h : Flush w turns w') : turns.map Turn.task = w.queue.tasks := by
  cases h with
  | none h => exact h.symm
  | turns _ ht => exact ht.tasks

/-- **A flush leaves what was accepted in its course**, in the order of acceptance. -/
theorem queue (h : Flush w turns w') : w'.queue.tasks = turns.flatMap Turn.accepted ∧
    w'.queue.tasks.Nodup ∧ w'.queue.processing = w.queue.processing ∧
      w'.queue.mode = w.queue.mode := by
  cases h with
  | none h =>
    rw [World.queue_requested, Queue.tasks_requestIfNeeded, (Queue.fixed_requestIfNeeded _).1,
      (Queue.fixed_requestIfNeeded _).2]
    exact ⟨rfl, List.nodup_nil, rfl, rfl⟩
  | @turns w₁ _ h ht =>
    have hq := ht.queue
    rw [World.queue_requested, Queue.tasks_requestIfNeeded, (Queue.fixed_requestIfNeeded _).1,
      (Queue.fixed_requestIfNeeded _).2]
    exact ⟨hq.tasks, hq.nodup List.nodup_nil, rfl, hq.mode⟩

end Flush

namespace Machine

/-- The first turn of a batch, and then the others. -/
theorem runBatch_cons_apply (t : Task) (rest : List Task) (calls : Calls) (w : World) :
    runBatch (t :: rest) calls w =
      match calls (.update t) (w.inTurn t rest) with
      | some (outcome, w₁) =>
        (runBatch rest >>= fun report => pure
          ((FlushReport.ofTurns [⟨t, [], outcome⟩]).absorb report)) calls (w.turnOver w₁ outcome)
      | none => none := by
  have ha : attempt (holding (.running t :: rest.map .task) (call (.update t))) calls w =
      match calls (.update t) (w.inTurn t rest) with
      | some (outcome, w₁) => some (.ok outcome, { w₁ with held := w.held })
      | none => none := by
    unfold attempt holding within call
    cases h : calls (.update t) (w.inTurn t rest) with
    | none =>
      have h' : calls (.update t) { w with held := .running t :: rest.map .task ++ w.held } = none := h
      simp only [h']
    | some x =>
      have h' : calls (.update t) { w with held := .running t :: rest.map .task ++ w.held } = some x := h
      simp only [h']
  rw [runBatch, bind_apply, ha]
  cases calls (.update t) (w.inTurn t rest) with
  | none => rfl
  | some x =>
    obtain ⟨outcome, w₁⟩ := x
    cases outcome with
    | ok u => rfl
    | error e => rfl

end Machine

/-- **Flushes.** One flush after another, until nothing waits. -/
inductive Flushes : World → List (List Turn) → World → Prop
  | last {w w' : World} {turns : List Turn} (h : Flush w turns w') (ht : w'.queue.tasks = []) :
    Flushes w [turns] w'
  | more {w w₁ w' : World} {turns : List Turn} {flushes : List (List Turn)} (h : Flush w turns w₁)
    (ht : w₁.queue.tasks ≠ []) (hr : Flushes w₁ flushes w') : Flushes w (turns :: flushes) w'

/-- Nothing waits in the end, and no flush is running that was not before. -/
theorem Flushes.queue {w w' : World} {flushes : List (List Turn)} (h : Flushes w flushes w') :
    w'.queue.tasks = [] ∧ w'.queue.processing = w.queue.processing ∧
      w'.queue.mode = w.queue.mode := by
  induction h with
  | last h ht => exact ⟨ht, h.queue.2.2⟩
  | more h _ _ ih => exact ⟨ih.1, ih.2.1.trans h.queue.2.2.1, ih.2.2.trans h.queue.2.2.2⟩

/-- What waited runs first, and then what was accepted in the course of one flush and another. -/
theorem Flushes.order {w w' : World} {flushes : List (List Turn)} (h : Flushes w flushes w') :
    flushes.flatten.map Turn.task = w.queue.tasks ++ flushes.flatten.flatMap Turn.accepted := by
  induction h with
  | @last w w' turns h ht =>
    have hn := h.queue.1.symm.trans ht
    rw [List.flatten_singleton, h.tasks, hn, List.append_nil]
  | more h _ _ ih =>
    rw [List.flatten_cons, List.map_append, h.tasks, ih, h.queue.1, List.flatMap_append]

/-! ## Tasks that only add to the queue -/

/-- **Adding.** Calls for tasks that have their turn only add to the queue, and flushing until
nothing waits is flush after flush. -/
structure Adding (calls : Calls) : Prop where
  update {t : Task} {w w' : World} {r : Except Error Unit} : w.queue.processing = true →
    calls (.update t) w = some (r, w') →
      (Call.update t).Ends w r w' ∧ ∃ accepted, w.queue.Extended accepted w'.queue
  settle {w w' : World} {r : Except Error FlushReport} : w.queue.processing = false →
    calls .settle w = some (r, w') →
      ∃ flushes, Flushes w flushes w' ∧ r = .ok (.ofTurns flushes.flatten)

namespace Adding

open Machine

variable {calls : Calls} {w w' : World}

/-- **A batch is turn after turn.** -/
theorem turns_of_runBatch (hc : Adding calls) {batch : List Task} {r : Except Error FlushReport}
    (hp : w.queue.processing = true) (h : runBatch batch calls w = some (r, w')) :
    ∃ turns, Turns w batch turns w' ∧ r = .ok (.ofTurns turns) := by
  induction batch generalizing w w' r with
  | nil =>
    obtain ⟨rfl, rfl⟩ : .ok .empty = r ∧ w = w' := by simpa [runBatch, pure_apply] using h
    exact ⟨[], .nil w, rfl⟩
  | cons t rest ih =>
    rw [runBatch_cons_apply] at h
    cases hu : calls (.update t) (w.inTurn t rest) with
    | none =>
      rw [hu] at h
      cases h
    | some x =>
      obtain ⟨outcome, w₁⟩ := x
      rw [hu] at h
      have hturn : (w.inTurn t rest).queue.processing = true := hp
      obtain ⟨he, accepted, hq⟩ := hc.update hturn hu
      have hp' : (w.turnOver w₁ outcome).queue.processing = true := by
        rw [World.queue_turnOver, hq.processing]
        exact hp
      obtain ⟨e, h1, -⟩ | ⟨report, w₂, h1, h2⟩ := bind_eq_some h
      · obtain ⟨turns, -, hr⟩ := ih hp' h1
        cases hr
      · obtain ⟨turns, ht, hr⟩ := ih hp' h1
        obtain rfl : report = .ofTurns turns := Except.ok.inj hr
        obtain ⟨rfl, rfl⟩ : .ok _ = r ∧ w₂ = w' := by simpa [pure_apply] using h2
        refine ⟨⟨t, accepted, outcome⟩ :: turns, .cons he hq ht, ?_⟩
        exact congrArg Except.ok (FlushReport.absorb_ofTurns [⟨t, accepted, outcome⟩] turns)

/-- **One flush.** -/
theorem flush_of_process (hc : Adding calls) {r : Except Error FlushReport}
    (h : process calls w = some (r, w')) :
    ∃ turns, Flush w turns w' ∧ r = .ok (.ofTurns turns) := by
  rw [process_apply] at h
  split at h
  · next ht =>
    obtain ⟨rfl, rfl⟩ : .ok .empty = r ∧ _ = w' := by simpa using h
    exact ⟨[], .none ht, rfl⟩
  · next ht =>
    cases hb : runBatch w.queue.tasks calls w.flushing with
    | none =>
      rw [hb] at h
      exact absurd h nofun
    | some x =>
      obtain ⟨r₁, w₁⟩ := x
      obtain ⟨turns, hts, rfl⟩ := hc.turns_of_runBatch rfl hb
      rw [hb] at h
      obtain ⟨rfl, rfl⟩ : .ok _ = r ∧ _ = w' := by simpa using h
      exact ⟨turns, .turns ht hts, rfl⟩

/-- **Flushing until nothing waits.** -/
theorem flushes_of_settle (hc : Adding calls) {r : Except Error FlushReport}
    (hp : w.queue.processing = false) (h : Machine.settle calls w = some (r, w')) :
    ∃ flushes, Flushes w flushes w' ∧ r = .ok (.ofTurns flushes.flatten) := by
  unfold Machine.settle at h
  obtain ⟨e, h1, -⟩ | ⟨report, w₁, h1, h2⟩ := bind_eq_some h
  · obtain ⟨turns, -, hr⟩ := hc.flush_of_process h1
    exact absurd hr nofun
  · obtain ⟨turns, hf, hr⟩ := hc.flush_of_process h1
    obtain rfl : report = .ofTurns turns := Except.ok.inj hr
    rw [bind_apply, get_apply] at h2
    dsimp only at h2
    split at h2
    · next ht =>
      obtain ⟨rfl, rfl⟩ : .ok _ = r ∧ w₁ = w' := by simpa [pure_apply] using h2
      exact ⟨[turns], .last hf (List.isEmpty_iff.mp ht), by rw [List.flatten_singleton]⟩
    · next ht =>
      have hp₁ : w₁.queue.processing = false := hf.queue.2.2.1.trans hp
      have ht₁ : w₁.queue.tasks ≠ [] := fun h => ht (List.isEmpty_iff.mpr h)
      obtain ⟨e, h3, -⟩ | ⟨total, w₂, h3, h4⟩ := bind_eq_some h2
      · obtain ⟨flushes, -, hr⟩ := hc.settle hp₁ h3
        exact absurd hr nofun
      · obtain ⟨flushes, hfs, hr⟩ := hc.settle hp₁ h3
        obtain rfl : total = .ofTurns flushes.flatten := Except.ok.inj hr
        obtain ⟨rfl, rfl⟩ : .ok _ = r ∧ w₂ = w' := by simpa [pure_apply] using h4
        refine ⟨turns :: flushes, .more hf ht₁ hfs, ?_⟩
        rw [List.flatten_cons, FlushReport.absorb_ofTurns]

end Adding

/-- Tasks that are having their turn do not flush the queue, nor say how it is flushed. -/
def addsOnly : Call → World → Bool
  | .settle, w | .drainPool, w | .perform (.queue .process), w | .perform (.queue .settle), w
  | .perform (.queue .processResult), w | .perform (.queue .runPool), w
  | .perform (.queue (.setMode _)), w | .perform (.queue (.configure _ _)), w =>
    !w.queue.processing
  | _, _ => true

open World in
/-- **The regime of a turn.** While a flush is running the queue is added to, and nothing else
happens to it. -/
def adding : Regime where
  allowed := addsOnly
  Mild _ := True
  Inv w := w.queue.processing = true
  Rel w w' := (∃ accepted, w.queue.Extended accepted w'.queue) ∧
    w.behaviors.size ≤ w'.behaviors.size
  Entry _ w := w.queue.processing = true
  Exit _ w _ w' := (∃ accepted, w.queue.Extended accepted w'.queue) ∧
    w.behaviors.size ≤ w'.behaviors.size
  refl w := ⟨⟨[], .refl _⟩, Nat.le_refl _⟩
  trans := by
    rintro a b c ⟨⟨ts, h⟩, hs⟩ ⟨⟨us, h'⟩, hs'⟩
    exact ⟨⟨ts ++ us, h.trans h'⟩, Nat.le_trans hs hs'⟩
  entry _ _ h := h
  exit := by
    rintro c w w' r - - hi ⟨⟨ts, h⟩, hs⟩
    exact ⟨⟨⟨ts, h⟩, hs⟩, h.processing.trans hi⟩
  change {w w'} hi hc := by
    obtain ⟨next, hs, -⟩ := hc.queue
    exact ⟨⟨Queue.Extended.of_step hs, hc.size_behaviors⟩, hs.fixed.1.trans hi⟩
  enter hs hi := by cases hs <;> exact hi
  leave hs _ hr hi' := by cases hs <;> exact ⟨hr, hi'⟩
  grown h := h.2
  light _ _ := .inr fun _ => trivial
  takes _ _ := .inr trivial
  calledBack _ _ := .inr trivial
  watcher _ _ := .inr fun _ => trivial
  behaviors _ _ _ := trivial
  observers _ _ _ := .inr fun _ => trivial
  aspects _ _ _ := trivial

theorem adding_inv {w w' : World} (hi : adding.Inv w) (h : adding.Rel w w') : adding.Inv w' := by
  obtain ⟨⟨ts, h⟩, -⟩ := h
  exact h.processing.trans hi

/-- A step that leaves the queue alone. -/
theorem adding_stay {w w' : World} (hq : w'.queue = w.queue) (hb : w'.behaviors = w.behaviors)
    (hi : adding.Inv w) : adding.Rel w w' ∧ adding.Inv w' :=
  ⟨⟨⟨[], hq ▸ .refl _⟩, Nat.le_of_eq (congrArg Store.size hb.symm)⟩,
    (congrArg Queue.processing hq).trans hi⟩

instance (name : String) : adding.Slight (.listener name) := ⟨trivial⟩

instance loose_adding : adding.Loose where
  tether _ := trivial
  lists _ := trivial
  view _ _ := trivial

instance accessible_adding : adding.Accessible where
  entry _ h := h
  exit _ hi h := ⟨h, adding_inv hi h⟩
  access hi hc := by cases hc <;> exact adding_stay rfl rfl hi

instance slight_adding : adding.Slight .tickets := ⟨trivial⟩

instance plain_adding : adding.Plain where
  behavior _ := trivial
  aspect _ _ := trivial
  setup hi hc := by cases hc <;> exact adding_stay rfl rfl hi
  cues := trivial
  deliver hi _ := hi
  delivered hi h := ⟨h, adding_inv hi h⟩
  write hi hc := by cases hc <;> exact adding_stay rfl rfl hi

namespace Setting

open Machine

variable {S : Setting adding}

instance prompt_adding : S.Prompt where
  pressed hi hq := by
    obtain ⟨t, ht, -⟩ := hq.queue
    have hp := (Queue.accept_eq_runNow.mp ht.symm).2.2
    exact absurd (hp.symm.trans hi) nofun

instance commanded_adding : S.Commanded where
  subscribe hw _ := Agrees.agreesAt hw
  queue {c w} hc hw ha := by
    have hrun : addsOnly (.perform (.queue c)) w = true := ha
    have hp : w.queue.processing = true := hw
    cases c with
    | createTask | enqueue | status | dropPool | poll => exact absurd trivial hc
    | process | settle | processResult | runPool | setMode | configure =>
      exact absurd hrun (by simp [addsOnly, hp])
    | next handle =>
      unfold performQueue
      refine (nextFlush_agreesAt hw fun x ticket queue next hx _ hq => ?_).bind
        fun ticket _ hw' => Agrees.agreesAt hw'
      have he : x.queue.Extended [] queue := .of_tasks (Queue.tasks_await hq) (Queue.fixed_await hq)
      have hr : adding.Rel x (({ x with queue } : World).follow next) := by
        refine ⟨⟨[], ?_⟩, ?_⟩
        · rwa [World.queue_follow]
        · exact Nat.le_of_eq (by rw [World.behaviors_follow])
      exact ⟨hr, adding_inv hx hr⟩

end Setting

/-- **Tasks only add to the queue**, whatever they call, as long as they do not flush it. -/
theorem adding_kept : adding.Kept := by
  refine Regime.Loose.kept (fun S => inferInstance) (fun S => inferInstance) (fun _ he => he)
    (fun _ hr _ => hr) fun S {c w} hc hw ha => ?_
  have hrun : addsOnly c w = true := ha
  have hp : w.queue.processing = true := hw
  cases c with
  | eval | bindView | unbindView | bubble | perform => exact absurd trivial hc
  | settle | drainPool => exact absurd hrun (by simp [addsOnly, hp])
  | deliver s change =>
    have hb : S.AgreesAt (Machine.deliver s change) w := Setting.Agrees.agreesAt hw
    exact hb.mono fun _ _ h => h.1
  | update t =>
    have hb : S.AgreesAt (Machine.update t) w := Setting.Agrees.agreesAt hw
    exact hb.mono fun _ _ h => h.1

open Machine in
/-- **Runs add.** -/
theorem adding_runUnder (depth : Nat) : Adding (runUnder addsOnly depth) := by
  induction depth with
  | zero => exact ⟨fun _ h => absurd h nofun, fun _ h => absurd h nofun⟩
  | succ depth ih =>
    refine ⟨fun {t w w' r} hp h => ?_, fun hp h => ih.flushes_of_settle hp (runUnder_succ h).2⟩
    have he : adding.Entry (.update t) w := hp
    obtain ⟨-, hrun, hr⟩ := Regime.run_agrees adding_kept (fun _ _ => true) (fun _ _ _ _ => rfl)
      (depth + 1) he h
    rw [runUnder_true] at hrun
    exact ⟨⟨depth + 1, hrun⟩, hr.1⟩

/-! ## What is done to the queue from outside -/

/-- **Act.** -/
inductive Act
  | enqueue (t : Task)
  | process
  | settle

/-- What acting comes to: flushing is reported. -/
def Act.run : Act → Machine (Option FlushReport)
  | .enqueue t => do
    Machine.enqueue t
    return none
  | .process => return some (← Machine.process)
  | .settle => return some (← Machine.settle)

/-- **Deed.** What came of an act: the task that it was the first to queue, if it did, and the
flushes there were. -/
structure Deed where
  queued : List Task
  flushes : List (List Turn)

namespace Deed

/-- The turns that tasks had, one after another. -/
def turns (d : Deed) : List Turn := d.flushes.flatten

/-- The tasks accepted, one after another. -/
def accepted (d : Deed) : List Task := d.queued ++ d.turns.flatMap Turn.accepted

/-- The tasks that ran, one after another. -/
def ran (d : Deed) : List Task := d.turns.map Turn.task

end Deed

/-- What is reported of an act. -/
def Act.report (act : Act) (d : Deed) : Option FlushReport :=
  match act with
  | .enqueue _ => none
  | .process | .settle => some (.ofTurns d.turns)

/-- **Doing.** What comes of an act at a world. -/
inductive Act.Does : Act → World → Deed → World → Prop
  /-- A task that waits already is not queued again, and nothing happens. -/
  | again {w : World} {t : Task} (h : t ∈ w.queue.tasks) : Does (.enqueue t) w ⟨[], []⟩ w
  | later {w : World} {t : Task} (h : t ∉ w.queue.tasks) (hm : w.queue.mode = .async) :
    Does (.enqueue t) w ⟨[t], []⟩
      (({ w with queue := (w.queue.accept t).1 } : World).follow (w.queue.accept t).2)
  | atOnce {w w' : World} {t : Task} {flushes : List (List Turn)} (h : t ∉ w.queue.tasks)
    (hm : w.queue.mode = .sync) (hf : Flushes { w with queue := (w.queue.accept t).1 } flushes w') :
    Does (.enqueue t) w ⟨[t], flushes⟩ w'
  | process {w w' : World} {turns : List Turn} (h : Flush w turns w') :
    Does .process w ⟨[], [turns]⟩ w'
  | settle {w w' : World} {flushes : List (List Turn)} (h : Flushes w flushes w') :
    Does .settle w ⟨[], flushes⟩ w'

namespace Act

open Machine hiding process settle run

variable {act : Act} {w w' : World}

/-- **An act comes to what is reported of its deed.** -/
theorem does_of_run {calls : Calls} (hc : Adding calls) {r : Except Error (Option FlushReport)}
    (hp : w.queue.processing = false) (h : act.run calls w = some (r, w')) :
    ∃ d, act.Does w d w' ∧ r = .ok (act.report d) := by
  cases act with
  | enqueue t =>
    have he : run (.enqueue t) calls w = (followUp (w.queue.accept t).2 >>= fun _ => pure none :
      Machine (Option FlushReport)) calls { w with queue := (w.queue.accept t).1 } := rfl
    rw [he] at h
    by_cases hn : (w.queue.accept t).2 = .runNow
    · obtain ⟨ht, hm, -⟩ := Queue.accept_eq_runNow.mp hn
      have hp' : (w.queue.accept t).1.processing = false := (Queue.fixed_accept _ t).1.trans hp
      rw [hn] at h
      obtain ⟨e, h1, -⟩ | ⟨_, w₁, h1, h2⟩ := bind_eq_some h
      · obtain ⟨e', h3, -⟩ | ⟨report, w₂, -, h4⟩ := bind_eq_some h1
        · obtain ⟨flushes, -, hr⟩ := hc.settle hp' h3
          exact absurd hr nofun
        · exact absurd h4 (by simp [pure_apply])
      · obtain ⟨rfl, rfl⟩ : .ok none = r ∧ w₁ = w' := by simpa [pure_apply] using h2
        obtain ⟨e', h3, -⟩ | ⟨report, w₂, h3, h4⟩ := bind_eq_some h1
        · obtain ⟨flushes, -, hr⟩ := hc.settle hp' h3
          exact absurd hr nofun
        · obtain rfl : w₂ = w₁ := by simpa [pure_apply] using h4
          obtain ⟨flushes, hf, -⟩ := hc.settle hp' h3
          exact ⟨_, .atOnce ht hm hf, rfl⟩
    · rw [bind_apply, followUp_apply _ _ hn] at h
      obtain ⟨rfl, rfl⟩ : .ok none = r ∧ _ = w' := by simpa [pure_apply] using h
      by_cases ht : t ∈ w.queue.tasks
      · have ha : w.queue.accept t = (w.queue, .nothing) := if_pos ht
        rw [ha]
        exact ⟨_, .again ht, rfl⟩
      · cases hm : w.queue.mode with
        | async => exact ⟨_, .later ht hm, rfl⟩
        | sync => exact absurd (Queue.accept_eq_runNow.mpr ⟨ht, hm, hp⟩) hn
  | process =>
    obtain ⟨e, h1, -⟩ | ⟨report, w₁, h1, h2⟩ := bind_eq_some h
    · obtain ⟨turns, -, hr⟩ := hc.flush_of_process h1
      exact absurd hr nofun
    · obtain ⟨rfl, rfl⟩ : .ok (some report) = r ∧ w₁ = w' := by simpa [pure_apply] using h2
      obtain ⟨turns, hf, hr⟩ := hc.flush_of_process h1
      obtain rfl : report = .ofTurns turns := Except.ok.inj hr
      refine ⟨_, .process hf, ?_⟩
      show _ = Except.ok (some (FlushReport.ofTurns [turns].flatten))
      rw [List.flatten_singleton]
  | settle =>
    obtain ⟨e, h1, -⟩ | ⟨report, w₁, h1, h2⟩ := bind_eq_some h
    · obtain ⟨flushes, -, hr⟩ := hc.flushes_of_settle hp h1
      exact absurd hr nofun
    · obtain ⟨rfl, rfl⟩ : .ok (some report) = r ∧ w₁ = w' := by simpa [pure_apply] using h2
      obtain ⟨flushes, hf, hr⟩ := hc.flushes_of_settle hp h1
      obtain rfl : report = .ofTurns flushes.flatten := Except.ok.inj hr
      exact ⟨_, .settle hf, rfl⟩

namespace Does

variable {d : Deed}

theorem order (h : act.Does w d w') :
    w.queue.tasks ++ d.accepted = d.ran ++ w'.queue.tasks ∧
      (w.queue.tasks.Nodup → w'.queue.tasks.Nodup) ∧
      w'.queue.processing = w.queue.processing ∧ w'.queue.mode = w.queue.mode := by
  cases h with
  | again h => exact ⟨List.append_nil _, id, rfl, rfl⟩
  | @later _ t h hm =>
    have hq := Queue.Extended.accept w.queue t
    rw [if_neg h] at hq
    rw [World.queue_follow]
    exact ⟨hq.tasks.symm, hq.nodup, hq.processing, hq.mode⟩
  | @atOnce _ _ t flushes h hm hf =>
    have hq := Queue.Extended.accept w.queue t
    rw [if_neg h] at hq
    have ho := hf.order
    obtain ⟨ht, hp, hm⟩ := hf.queue
    refine ⟨?_, fun _ => ht ▸ List.nodup_nil, hp.trans hq.processing, hm.trans hq.mode⟩
    show w.queue.tasks ++ ([t] ++ _) = flushes.flatten.map Turn.task ++ w'.queue.tasks
    rw [ho, hq.tasks, ht, List.append_nil, List.append_assoc]
    rfl
  | @process _ _ turns h =>
    obtain ⟨ht, hn, hp, hm⟩ := h.queue
    refine ⟨?_, fun _ => hn, hp, hm⟩
    show w.queue.tasks ++ [turns].flatten.flatMap Turn.accepted = [turns].flatten.map Turn.task ++ _
    rw [List.flatten_singleton, h.tasks, ht]
  | @settle _ _ flushes h =>
    obtain ⟨ht, hp, hm⟩ := h.queue
    refine ⟨?_, fun _ => ht ▸ List.nodup_nil, hp, hm⟩
    show w.queue.tasks ++ flushes.flatten.flatMap Turn.accepted = flushes.flatten.map Turn.task ++ _
    rw [h.order, ht, List.append_nil]

end Does

/-- In synchronous mode nothing is left to wait. -/
theorem Does.sync {d : Deed} (h : act.Does w d w') (hm : w.queue.mode = .sync)
    (ht : w.queue.tasks = []) : w'.queue.tasks = [] := by
  cases h with
  | again => exact ht
  | later _ ha => exact absurd (ha.symm.trans hm) nofun
  | atOnce _ _ hf => exact hf.queue.1
  | @process _ _ turns hf =>
    have hn : turns = [] := List.map_eq_nil_iff.mp (hf.tasks.trans ht)
    rw [hf.queue.1, hn, List.flatMap_nil]
  | settle hf => exact hf.queue.1

end Act

/-- **Deeds.** What comes of one act after another. -/
inductive Deeds : List Act → World → List Deed → World → Prop
  | nil (w : World) : Deeds [] w [] w
  | cons {act : Act} {acts : List Act} {w w₁ w' : World} {d : Deed} {deeds : List Deed}
    (h : act.Does w d w₁) (hr : Deeds acts w₁ deeds w') : Deeds (act :: acts) w (d :: deeds) w'

namespace Deeds

variable {acts : List Act} {w w' : World} {deeds : List Deed}

/-- **First come, first served.** The tasks that ran and those that wait are those that waited and
those that were accepted, in that order. -/
theorem order (h : Deeds acts w deeds w') :
    w.queue.tasks ++ deeds.flatMap Deed.accepted = deeds.flatMap Deed.ran ++ w'.queue.tasks ∧
      (w.queue.tasks.Nodup → w'.queue.tasks.Nodup) ∧ w'.queue.mode = w.queue.mode := by
  induction h with
  | nil => exact ⟨List.append_nil _, id, rfl⟩
  | cons h _ ih =>
    obtain ⟨ho, hn, -, hm⟩ := h.order
    refine ⟨?_, fun hw => ih.2.1 (hn hw), ih.2.2.trans hm⟩
    rw [List.flatMap_cons, List.flatMap_cons, ← List.append_assoc, ho, List.append_assoc, ih.1,
      List.append_assoc]

/-- In synchronous mode nothing is left to wait. -/
theorem sync (h : Deeds acts w deeds w') (hm : w.queue.mode = .sync) (ht : w.queue.tasks = []) :
    w'.queue.tasks = [] := by
  induction h with
  | nil => exact ht
  | cons h _ ih => exact ih (h.order.2.2.2.trans hm) (h.sync hm ht)

end Deeds

open Machine in
/-- Acting is deed after deed. -/
theorem deeds_of_run {calls : Calls} (hc : Adding calls) {acts : List Act} {w w' : World}
    {r : Except Error (List (Option FlushReport))} (hp : w.queue.processing = false)
    (h : collect Act.run acts calls w = some (r, w')) :
    ∃ deeds, Deeds acts w deeds w' ∧ r = .ok (List.zipWith Act.report acts deeds) := by
  induction acts generalizing w w' r with
  | nil =>
    obtain ⟨rfl, rfl⟩ : .ok [] = r ∧ w = w' := by simpa [collect, pure_apply] using h
    exact ⟨[], .nil w, rfl⟩
  | cons act acts ih =>
    rw [collect] at h
    obtain ⟨e, h1, -⟩ | ⟨report, w₁, h1, h2⟩ := bind_eq_some h
    · obtain ⟨d, -, hr⟩ := Act.does_of_run hc hp h1
      cases hr
    · obtain ⟨d, hd, hr⟩ := Act.does_of_run hc hp h1
      obtain rfl : report = act.report d := Except.ok.inj hr
      have hp₁ : w₁.queue.processing = false := hd.order.2.2.1.trans hp
      obtain ⟨e, h3, -⟩ | ⟨reports, w₂, h3, h4⟩ := bind_eq_some h2
      · obtain ⟨deeds, -, hr⟩ := ih hp₁ h3
        cases hr
      · obtain ⟨deeds, hds, hr⟩ := ih hp₁ h3
        obtain rfl : reports = _ := Except.ok.inj hr
        obtain ⟨rfl, rfl⟩ : .ok _ = r ∧ w₂ = w' := by simpa [pure_apply] using h4
        exact ⟨d :: deeds, .cons hd hds, rfl⟩

open Machine in
/-- **Tasks run once, and in order.** Whatever is queued and flushed from outside, and whatever
tasks queue in their turns, every deed is told turn by turn, with reports of as many turns as there
were and of the failures among them. A flush runs the tasks that waited when it began, each once, in
order and regardless of failures, and leaves those that were accepted in its course. So over all
deeds the tasks ran in the order in which they were accepted: those that ran, and then those that
wait, are those that waited at first, and then those that were accepted. No task ever waits twice,
and in synchronous mode none is left to wait. -/
theorem tasks_run_once_in_order {acts : List Act} {depth : Nat} {w w' : World}
    {r : Except Error (List (Option FlushReport))} (hp : w.queue.processing = false)
    (h : collect Act.run acts (runUnder addsOnly depth) w = some (r, w')) :
    ∃ deeds, Deeds acts w deeds w' ∧ r = .ok (List.zipWith Act.report acts deeds) ∧
      w.queue.tasks ++ deeds.flatMap Deed.accepted =
        deeds.flatMap Deed.ran ++ w'.queue.tasks ∧
      (w.queue.tasks.Nodup → w'.queue.tasks.Nodup) ∧
      (w.queue.mode = .sync → w.queue.tasks = [] → w'.queue.tasks = []) ∧
      ∀ x turns x', Flush x turns x' → turns.map Turn.task = x.queue.tasks ∧
        x'.queue.tasks = turns.flatMap Turn.accepted ∧ x'.queue.tasks.Nodup := by
  obtain ⟨deeds, hd, hr⟩ := deeds_of_run (adding_runUnder depth) hp h
  obtain ⟨ho, hn, -⟩ := hd.order
  exact ⟨deeds, hd, hr, ho, hn, hd.sync, fun _ _ _ hf => ⟨hf.tasks, hf.queue.1, hf.queue.2.1⟩⟩

/-- Tasks that queue each other and themselves, one of which fails. -/
def requeueingSession : List Command :=
  [.queue (.createTask "t" (.seq [.perform (.queue (.enqueue "u")), .perform (.queue (.enqueue "t")),
      .fail "t"])),
    .queue (.createTask "u" (.perform (.queue (.enqueue "t"))))]

/-- What is then done to the queue. -/
def requeueingActs : List Act :=
  [.enqueue (.scripted ⟨0⟩), .enqueue (.scripted ⟨0⟩), .process, .process]

open Machine in
theorem requeued_tasks_run_in_order : ∃ w w' deeds, Session.Reached (fun _ _ => true) w ∧
    w.queue.tasks = [] ∧ Deeds requeueingActs w deeds w' ∧
    deeds.flatMap Deed.accepted = deeds.flatMap Deed.ran ++ w'.queue.tasks := by
  have hplay : (Session.play (fun _ _ => true) requeueingSession World.empty).any (fun w =>
      !w.queue.processing && w.queue.tasks.isEmpty &&
        (collect Act.run requeueingActs (runUnder addsOnly 12) w).isSome) = true := by
    decide +kernel
  obtain ⟨w, hw, hq⟩ := Option.any_eq_true _ _ |>.mp hplay
  simp only [Bool.and_eq_true, Bool.not_eq_true', List.isEmpty_iff] at hq
  obtain ⟨⟨r, w'⟩, hr⟩ := Option.isSome_iff_exists.mp hq.2
  obtain ⟨deeds, hd, -, ho, -⟩ := tasks_run_once_in_order hq.1.1 hr
  rw [hq.1.2, List.nil_append] at ho
  exact ⟨w, w', deeds, Session.reached_of_play .start hw, hq.1.2, hd, ho⟩

end ReactiveViews
