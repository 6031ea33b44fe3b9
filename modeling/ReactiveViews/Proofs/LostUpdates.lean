import ReactiveViews.Proofs.Gate
/-!
# No update is lost

An observer that is told of a change waits from then on, and a flush does not end
before everybody who waited has had a turn. Together: the observer is called back
after the change, at the latest by the end of the next flush.

The condition is that no turn in the session was stale. A stale turn leaves the
observer latched, and a latched observer that is told of a change does nothing at
all, so the condition cannot be weakened.
-/

namespace ReactiveViews

/-- A session without stale turns in which an observer is not called back: it gets no turn, and
is told of changes only while it is asynchronous. -/
def silent (o : ObserverId) (c : Call) (w : World) : Bool := fresh c w && unanswered o c w

theorem silent_kept (o : ObserverId) : (gates (silent o) (· = o)).Kept := by
  refine gates_kept (fun c w h => ?_) fun o' w ho => ?_
  · simp only [silent, Bool.and_eq_true] at h
    exact h.1
  · simp [silent, unanswered, show o' = o from ho]

namespace Machine

/-- **An observer that is told waits**, and so it does until it gets a turn. -/
theorem dependencyChanged_waits {o : ObserverId} (S : Setting (gates (silent o) (· = o)))
    {w : World} (hi : (gates (silent o) (· = o)).Inv w)
    (ha : (w.observers.get o).isAsync = true) :
    S.Leads (dependencyChanged o) w fun _ w' => w'.Waits o := by
  unfold dependencyChanged
  refine Setting.Leads.read ?_
  split
  · have hs := World.GateStep.tell w o
    have hi' : (gates (silent o) (· = o)).Inv (w.tell o) :=
      ⟨fun o' hl => hi.1 o' (hs.latched hl), hs.listed hi.2⟩
    have ht : (w.tell o).Waits o := .inl (Queue.mem_accept.mpr (.inr rfl))
    have hf : S.AgreesAt (followUp (w.queue.accept (.observer o)).2) (w.tell o) :=
      Setting.Agrees.agreesAt hi'
    exact fun r w' hc => ⟨(hf r w' hc).1, (hf r w' hc).2.1.waits o rfl ht⟩
  · next hq =>
    have hw : w.Waits o :=
      Classical.byContradiction fun hn => hi.1 o ⟨⟨ha, by simpa using hq⟩, hn⟩
    rw [ha]
    exact .of_eq (fun _ => rfl) hw

/-- The runs of a session in which an observer is not called back. -/
def silentRuns (o : ObserverId) (depth : Nat) : Setting (gates (silent o) (· = o)) :=
  (gates (silent o) (· = o)).setting (silent_kept o) depth

/-- The call by which an observer is told leaves it waiting. -/
theorem deliver_waits {o : ObserverId} (depth : Nat) (change : Change) {w : World}
    (hi : (gates (silent o) (· = o)).Inv w) :
    (silentRuns o depth).Leads (call (.deliver (.observer o) change)) w
      fun _ w' => (gates (silent o) (· = o)).Rel w w' ∧ (gates (silent o) (· = o)).Inv w' ∧
        w'.Waits o := by
  intro r w' hc
  refine ⟨hc, ?_⟩
  have ha : (silentRuns o depth).AgreesAt (call (.deliver (.observer o) change)) w :=
    Setting.Leads.call (gates_entry hi)
  obtain ⟨-, hr, hi'⟩ := ha r w' hc
  refine ⟨hr, hi', ?_⟩
  cases depth with
  | zero => exact absurd hc (by simp [call, silentRuns, Regime.setting, runUnder])
  | succ depth =>
    obtain ⟨hs, hb⟩ := runUnder_succ hc
    have hasync : (w.observers.get o).isAsync = true := by
      have hs' : silent o (.deliver (.observer o) change) w = true := hs
      simpa [silent, fresh, unanswered] using hs'
    exact (dependencyChanged_waits (silentRuns o depth) hi hasync r w' hb).2

/-- Once it has been told, an observer waits still when the rest have been told. -/
theorem deliverAll_waits {o : ObserverId} (depth : Nat) (change : Change) (l : List Subscriber)
    {w : World} (hi : (gates (silent o) (· = o)).Inv w) (ho : .observer o ∈ l) :
    (silentRuns o depth).Leads (deliverAll change l) w fun _ w' => w'.Waits o := by
  induction l generalizing w with
  | nil => exact absurd ho (List.not_mem_nil)
  | cons s l ih =>
    have hf : Firm (runUnder (silent o) depth)
        (holding ((s :: l).map .subscriber) (call (.deliver s change))) := inferInstance
    rw [deliverAll]
    by_cases he : s = .observer o
    · subst he
      -- this one is told here, and waits while the others are told
      have htold : (silentRuns o depth).Leads
          (holding ((.observer o :: l).map .subscriber) (call (.deliver (.observer o) change))) w
          fun _ w₁ => (gates (silent o) (· = o)).Inv w₁ ∧ w₁.Waits o := by
        have hs : Scope (gates (silent o) (· = o)).Mild w _ _ :=
          .hold ((Subscriber.observer o :: l).map .subscriber) (by simp) (by simp)
            fun o' _ => Regime.Open.light _ w o'
        have he := (gates (silent o) (· = o)).enter hs hi
        refine (Setting.Leads.within (deliver_waits depth change he)).mono ?_
        rintro _ _ ⟨w₁, rfl, hr, hi₁, hw⟩
        exact ⟨((gates (silent o) (· = o)).leave hs hi hr hi₁).2, World.waits_leave hs hr.held hw⟩
      refine htold.bind (fun _ _ h => h.2) fun _ w₁ h => ?_
      have hr : (silentRuns o depth).AgreesAt (deliverAll change l) w₁ :=
        Setting.Agrees.agreesAt h.1
      exact hr.mono fun _ w' h' => h'.1.waits o rfl h.2
    · have hr : (silentRuns o depth).AgreesAt
          (holding ((s :: l).map .subscriber) (call (.deliver s change))) w :=
        Setting.Agrees.agreesAt hi
      intro r w' hc
      obtain ⟨e, h1, rfl⟩ | ⟨a, w₁, h1, h2⟩ := bind_eq_some hc
      · obtain ⟨a, ha⟩ := hf.ok h1
        exact absurd ha (by simp)
      · have hm : Subscriber.observer o ∈ l := (List.mem_cons.mp ho).resolve_left (Ne.symm he)
        exact ⟨hc, (ih (hr _ _ h1).2.2 hm r w' h2).2⟩

/-- A task whose turn came to an end was called. -/
theorem isSome_of_turn {calls : Calls} {t : Task} {things : List Held} {w : World}
    {x : Except Error (Except Error Unit) × World}
    (h : attempt (holding things (call (.update t))) calls w = some x) :
    (calls (.update t) { w with held := things ++ w.held }).isSome := by
  unfold attempt holding within call at h
  cases hc : calls (.update t) { w with held := things ++ w.held } with
  | none =>
    rw [hc] at h
    exact absurd h (by simp)
  | some y => rfl

/-- **A batch comes to its end with the turn of each of its tasks.** -/
theorem turn_of_runBatch {calls : Calls} {ts : List Task} {t : Task} (hm : t ∈ ts) {w w' : World}
    {r : Except Error FlushReport} (h : runBatch ts calls w = some (r, w')) :
    ∃ w₁, (calls (.update t) w₁).isSome := by
  induction ts generalizing w r w' with
  | nil => exact absurd hm (List.not_mem_nil)
  | cons u rest ih =>
    rw [runBatch] at h
    obtain ⟨e, h1, -⟩ | ⟨outcome, w₁, h1, h2⟩ := bind_eq_some h
    · have hf : Firm calls (attempt (holding (.running u :: rest.map .task) (call (.update u)))) :=
        inferInstance
      obtain ⟨a, ha⟩ := hf.ok h1
      exact absurd ha (by simp)
    · by_cases he : t = u
      · exact ⟨_, he ▸ isSome_of_turn h1⟩
      · have hr : ∀ {w₂ w₃ : World} {r : Except Error FlushReport} {n : FlushReport},
            (runBatch rest >>= fun report => pure (n.absorb report)) calls w₂ = some (r, w₃) →
              ∃ w₁, (calls (.update t) w₁).isSome := by
          intro w₂ w₃ r n h
          have hm' := (List.mem_cons.mp hm).resolve_left he
          obtain ⟨e, h3, -⟩ | ⟨report, w₄, h3, -⟩ := bind_eq_some h
          · exact ih hm' h3
          · exact ih hm' h3
        cases outcome with
        | ok u => exact hr h2
        | error e =>
          obtain ⟨e', h3, -⟩ | ⟨_, w₂, -, h4⟩ := bind_eq_some h2
          · exact absurd h3 (by simp [logError, logEntry, modify_apply])
          · exact hr h4

/-- **A flush comes to its end with the turn of each task that waited.** -/
theorem turn_of_process {calls : Calls} {t : Task} {w w' : World}
    {r : Except Error FlushReport} (hm : t ∈ w.queue.tasks) (h : process calls w = some (r, w')) :
    ∃ w₁, (calls (.update t) w₁).isSome := by
  rw [process_apply, if_neg (List.ne_nil_of_mem hm)] at h
  cases hb : runBatch w.queue.tasks calls w.flushing with
  | none =>
    rw [hb] at h
    cases h
  | some x => exact turn_of_runBatch hm hb

/-! ## Nobody is forgotten -/

/-- A latched observer that is told of a change does nothing. -/
theorem deliver_latched {w : World} {o : ObserverId} (h : w.Latched o) (change : Change)
    (calls : Calls) : deliver (.observer o) change calls w = some (.ok (), w) := by
  show dependencyChanged o calls w = _
  unfold dependencyChanged
  rw [bind_apply, read_apply]
  simp [h.1.1, h.1.2, pure_apply]

/-- The turn of a stale observer changes nothing, and leaves it latched. -/
theorem react_stale {w : World} {o : ObserverId} (h : w.Stale o) (calls : Calls) :
    react o calls w = some (.ok (), w) := by
  unfold react
  rw [bind_apply, read_apply]
  simp [h.1, pure_apply]

end Machine

open Machine

/-- An observer waits, and whatever is called next, it waits still when that ends, unless it was
called back. -/
def World.WaitsOn (w : World) (o : ObserverId) : Prop :=
  w.Waits o ∧ ∀ depth c r w', runUnder (silent o) depth c w = some (r, w') → w'.Waits o

theorem waitsOn_of_inv {o : ObserverId} {w : World} (hi : (gates (silent o) (· = o)).Inv w)
    (h : w.Waits o) : w.WaitsOn o := by
  refine ⟨h, fun depth c r w' hc => ?_⟩
  have he : (gates (silent o) (· = o)).Entry c w := gates_entry hi
  have ha := Regime.run_agrees (silent_kept o) _ (fun _ _ _ h => h) depth he hc
  exact ha.2.2.1.waits o rfl h

/-- In a session in which an observer is not called back it has no turn. -/
theorem no_turn (o : ObserverId) (depth : Nat) (w : World) :
    runUnder (silent o) depth (.update (.observer o)) w = none := by
  cases h : runUnder (silent o) depth (.update (.observer o)) w with
  | none => rfl
  | some x =>
    cases depth with
    | zero => exact absurd h (by simp [runUnder])
    | succ depth =>
      have hs := (runUnder_succ h).1
      exact absurd hs (by simp [silent, unanswered])

/-- Nothing has happened in the empty world, and nobody is latched. -/
theorem inv_empty (allowed : Call → World → Bool) (kept : ObserverId → Prop) :
    (gates allowed kept).Inv World.empty :=
  ⟨fun _ h => absurd (show true = false from h.1.2) (by decide), fun _ _ h => absurd h (List.not_mem_nil)⟩

/-- **No update is lost.** Let a session without stale turns be anywhere but at the very beginning
of a turn. When a dependency that an observer has recorded changes, the observer is waiting once
everybody has been told; so it is when it is told itself, even if it has been disposed of since it
was picked; and it waits until it is called back. Neither a flush that begins while it waits nor a
batch that it is in comes to an end before. A turn is stale exactly if it leaves an observer in a
state, latched, in which being told has no effect. -/
theorem no_update_is_lost {c : Call} {w : World} (hv : Session.Visited fresh c w)
    (hc : ∀ t, c ≠ .update t) (o : ObserverId) :
    (∀ r ∈ (w.observers.get o).records, ∀ change, change.key? = some r.name →
      ∀ depth a w', notify r.notifier change (runUnder (silent o) depth) w = some (a, w') →
        w'.WaitsOn o) ∧
    (∀ change depth a w',
      runUnder (silent o) depth (.deliver (.observer o) change) w = some (a, w') → w'.WaitsOn o) ∧
    (∀ w₁ depth, .observer o ∈ w₁.queue.tasks → process (runUnder (silent o) depth) w₁ = none) ∧
    (∀ ts w₁ depth, .observer o ∈ ts → runBatch ts (runUnder (silent o) depth) w₁ = none) ∧
    ∀ w₁ calls, w₁.Stale o → react o calls w₁ = some (.ok (), w₁) ∧
      ∀ change, deliver (.observer o) change calls w₁ = some (.ok (), w₁) := by
  have hkept : (gates fresh fun _ => False).Kept :=
    gates_kept (fun _ _ h => h) fun _ _ h => absurd h id
  have hentry := Session.entry_of_visited hkept (inv_empty _ _) hv
  have hi : (gates (silent o) (· = o)).Inv w :=
    ⟨fun o' hl => hc _ (hentry.1 o' hl), hentry.2⟩
  refine ⟨fun r hr change hk depth a w' hn => ?_, fun change depth a w' hd => ?_,
    fun w₁ depth hm => ?_, fun ts w₁ depth hm => ?_, fun w₁ calls hs => ⟨react_stale hs calls, ?_⟩⟩
  · -- a record is subscribed to, so the observer is among those who are told
    have hto : .observer o ∈ (w.notifiers.get r.notifier).recipients change :=
      Notifier.mem_recipients.mpr (.inl ⟨r.name, hk, hi.2 o r hr⟩)
    have hw := (deliverAll_waits depth change _ hi hto a w' hn).2
    have ha : (silentRuns o depth).AgreesAt (notify r.notifier change) w :=
      Setting.Agrees.agreesAt hi
    exact waitsOn_of_inv (ha a w' hn).2.2 hw
  · obtain ⟨-, -, hi', hw⟩ := deliver_waits depth change hi a w' hd
    exact waitsOn_of_inv hi' hw
  · cases h : process (runUnder (silent o) depth) w₁ with
    | none => rfl
    | some x =>
      obtain ⟨w₂, hs⟩ := turn_of_process hm h
      rw [no_turn] at hs
      exact absurd hs (by simp)
  · cases h : runBatch ts (runUnder (silent o) depth) w₁ with
    | none => rfl
    | some x =>
      obtain ⟨w₂, hs⟩ := turn_of_runBatch hm h
      rw [no_turn] at hs
      exact absurd hs (by simp)
  · exact fun change => deliver_latched hs.2 change calls

/-- An observer is disposed of by a subscriber that is told of a change before it. -/
def disposingSession : List Command :=
  [.type (.defineProperties "T" ["x"] none),
    .object (.create "m" (some "T") [("x", .bool false)]),
    .observer (.create "o" (.get .source "x") false (.literal .null)),
    .notifier (.createSubscriber "s" (.perform (.observer (.dispose "o")))),
    .notifier (.subscribe "s" (.handle "m") (some "x")),
    .observer (.observe "o" (.handle "m") none),
    .object (.set "m" "x" (.bool true)),
    .notifier (.unsubscribe "s" (.handle "m") (some "x")),
    .queue .settle,
    .observer (.observe "o" (.handle "m") none)]

-- Stale turns happen: here the observer has observed the property again, and is latched.
example : (Session.play (fun _ _ => true) disposingSession World.empty).any (fun w =>
    !(w.observers.get ⟨0⟩).records.isEmpty && decide (w.Latched ⟨0⟩)) = true := by
  decide +kernel

/-- A session in which an observer has observed a property. -/
def observedSession : List Command :=
  [.type (.defineProperties "T" ["x"] none),
    .object (.create "m" (some "T") [("x", .bool false)]),
    .observer (.create "o" (.get .source "x") false (.literal .null)),
    .observer (.observe "o" (.handle "m") none)]

/-- The next command writes the property that was observed. -/
def observedWrite : Command := .object (.set "m" "x" (.bool true))

/-- The write comes to an end, and so does telling of it the observer that recorded the property. -/
def observedTold (start : World) : Bool :=
  let w := { start with log := [] }
  (runUnder fresh Session.depth (.perform observedWrite) w).isSome &&
    (w.observers.get ⟨0⟩).records.any fun r => r.name == "x" &&
      (notify r.notifier (.property "x") (runUnder (silent ⟨0⟩) 3) w).isSome

theorem observed_update_waits : ∃ w r a w', Session.Visited fresh (.perform observedWrite) w ∧
    r ∈ (w.observers.get ⟨0⟩).records ∧
    notify r.notifier (.property "x") (runUnder (silent ⟨0⟩) 3) w = some (a, w') ∧
    w'.WaitsOn ⟨0⟩ := by
  have hplay : (Session.play fresh observedSession World.empty).any observedTold = true := by
    decide +kernel
  obtain ⟨start, hstart, htold⟩ := Option.any_eq_true _ _ |>.mp hplay
  simp only [observedTold, Bool.and_eq_true, List.any_eq_true, beq_iff_eq] at htold
  obtain ⟨hw, r, hr, hname, hn⟩ := htold
  obtain ⟨⟨a, w'⟩, hn⟩ := Option.isSome_iff_exists.mp hn
  have hv := Session.visited_of_reached (Session.reached_of_play .start hstart) hw
  have hwaits := (no_update_is_lost hv (by simp) ⟨0⟩).1 r hr (.property "x")
    (congrArg some hname.symm) 3 a w' hn
  exact ⟨_, r, a, w', hv, hr, hn, hwaits⟩

end ReactiveViews
