import ReactiveViews.Proofs.Frames.Session
/-!
# Runs

What a regime promises of calls holds of every run, to any depth, in which only
allowed calls are made (`Regime.run_agrees`), if it holds of the body of each call as
far as it holds of the calls made there. For an open regime what is to be shown is listed
(`Regime.Open.kept`), and for a uniform loose one that is little (`Regime.Uniform.kept`): flushing
respects it, which is not made of listed changes, and so does a task whose turn comes, where
the invariant may be found broken.

A run in which calls are given up, `runUnder`, also says what a run does on the
way. A call is *visited* if the run does not come to its end when that call, at
that world, is given up.
-/

namespace ReactiveViews

namespace Machine

/-- What calls do to a depth if those that are not allowed are given up. -/
def runUnder (allowed : Call → World → Bool) : Nat → Calls
  | 0, _ => fun _ => none
  | depth + 1, c => fun w => if allowed c w then body c (runUnder allowed depth) w else none

theorem runUnder_succ {allowed : Call → World → Bool} {depth : Nat} {c : Call} {w : World}
    {x : Except Error c.Result × World} (h : runUnder allowed (depth + 1) c w = some x) :
    allowed c w = true ∧ body c (runUnder allowed depth) w = some x := by
  change (if allowed c w then body c (runUnder allowed depth) w else none) = some x at h
  split at h
  · next ha => exact ⟨ha, h⟩
  · exact absurd h (by simp)

/-- With every call allowed nothing is given up. -/
theorem runUnder_true (depth : Nat) : runUnder (fun _ _ => true) depth = run depth := by
  induction depth with
  | zero => rfl
  | succ depth ih =>
    funext c w
    show body c (runUnder (fun _ _ => true) depth) w = body c (run depth) w
    rw [ih]

/-- At no depth does telling a subscriber fail, or flushing, or unbinding a view. -/
instance firmly_runUnder (allowed : Call → World → Bool) (depth : Nat) :
    Firmly (runUnder allowed depth) := by
  induction depth with
  | zero =>
    refine ⟨fun s change => ⟨fun h => ?_⟩, ⟨fun h => ?_⟩, fun v => ⟨fun h => ?_⟩⟩
    · exact absurd h (by simp [call, runUnder])
    · exact absurd h (by simp [call, runUnder])
    · exact absurd h (by simp [call, runUnder])
  | succ depth ih =>
    refine ⟨fun s change => ⟨fun h => ?_⟩, ⟨fun h => ?_⟩, fun v => ⟨fun h => ?_⟩⟩
    · have hd : Firm (runUnder allowed depth) (deliver s change) := inferInstance
      exact hd.ok (runUnder_succ h).2
    · have hs : Firm (runUnder allowed depth) settle := inferInstance
      exact hs.ok (runUnder_succ h).2
    · have hv : Firm (runUnder allowed depth) (unbindView v) := inferInstance
      exact hv.ok (runUnder_succ h).2

end Machine

namespace Regime

open Machine

/-- **Kept regime.** Whatever is called comes to what is promised of it, if the calls it makes
do. -/
structure Kept (G : Regime) : Prop where
  body (S : Setting G) {c : Call} {w : World} : G.Entry c w → G.allowed c w →
    S.Leads (Machine.body c) w (G.Exit c w)

/-- **Open regimes are kept** if whatever makes others act or is commanded keeps to every setting,
and if so do calls that are not plain, and those that bind and unbind views. -/
theorem Open.kept {G : Regime} [G.Open] (hs : ∀ S : Setting G, S.Steady)
    (hq : ∀ S : Setting G, S.Commanded) (hn : ∀ S : Setting G, S.Naming)
    (he : ∀ {c : Call} {w : World}, c.IsPlain → c.view? = none → G.Entry c w → G.Inv w)
    (hx : ∀ {c : Call} {w w' : World} {r : Except Error c.Result}, c.IsPlain → c.view? = none →
      G.Rel w w' → G.Inv w' → G.Exit c w r w')
    (hb : ∀ (S : Setting G) {c : Call} {w : World}, (c.IsPlain → c.view? ≠ none) → G.Entry c w →
      G.allowed c w → S.Leads (Machine.body c) w (G.Exit c w)) : G.Kept := by
  refine ⟨fun S {c w} hc ha => ?_⟩
  have hsteady := hs S
  have hcommanded := hq S
  have hnaming := hn S
  by_cases hp : c.IsPlain ∧ c.view? = none
  · obtain ⟨hp, hv⟩ := hp
    exact (Setting.body_agreesAt hp hv (he hp hv hc) ha).mono fun _ _ h => hx hp hv h.1 h.2
  · exact hb S (fun h hv => hp ⟨h, hv⟩) hc ha

/-- **Loose regimes are kept** if so do calls that are not plain. -/
theorem Loose.kept {G : Regime} [G.Open] [G.Loose] [G.Accessible] (hs : ∀ S : Setting G, S.Steady)
    (hq : ∀ S : Setting G, S.Commanded)
    (he : ∀ {c : Call} {w : World}, c.IsPlain → G.Entry c w → G.Inv w)
    (hx : ∀ {c : Call} {w w' : World} {r : Except Error c.Result}, c.IsPlain → G.Rel w w' →
      G.Inv w' → G.Exit c w r w')
    (hb : ∀ (S : Setting G) {c : Call} {w : World}, ¬ c.IsPlain → G.Entry c w → G.allowed c w →
      S.Leads (Machine.body c) w (G.Exit c w)) : G.Kept := by
  refine Open.kept hs hq (fun S => ?_) (fun hp _ => he hp) (fun hp _ => hx hp) fun S {c w} hv hc ha => ?_
  · have hsteady := hs S
    infer_instance
  have hsteady := hs S
  by_cases hp : c.IsPlain
  · obtain ⟨v, hv⟩ := Option.ne_none_iff_exists'.mp (hv hp)
    exact (Setting.view_agreesAt hv (he hp hc) ha).mono fun _ _ h => hx hp h.1 h.2
  · exact hb S hp hc ha

/-- **Uniform regimes are kept** if flushing respects them, and if so does a task whose turn comes,
where the invariant may be found broken. -/
theorem Uniform.kept {G : Regime} [G.Uniform] [G.Loose] [G.Accessible]
    [∀ S : Setting G, S.Audible]
    (hp : ∀ S : Setting G, S.Agrees process)
    (he : ∀ {c : Call} {w : World}, G.Entry c w → (∀ t, c ≠ .update t) → G.Inv w)
    (hx : ∀ {c : Call} {w w' : World} {r : Except Error c.Result}, G.Rel w w' → G.Inv w' →
      G.Exit c w r w')
    (hu : ∀ (S : Setting G) {t : Task} {w : World}, G.Entry (.update t) w →
      G.allowed (.update t) w → S.AgreesAt (update t) w) : G.Kept := by
  refine Loose.kept (fun S => inferInstance) (fun S => ?_) (fun hc h => he h ?_)
    (fun _ => hx) fun S {c w} hc hw ha => ?_
  · have hproc := hp S
    infer_instance
  · rintro t rfl
    exact hc
  · have hproc := hp S
    have hb : S.AgreesAt (Machine.body c) w := by
      by_cases h : ∃ t, c = .update t
      · obtain ⟨t, rfl⟩ := h
        exact hu S hw ha
      · exact (Setting.Uniform.agrees_body hc).agreesAt (he hw fun t ht => h ⟨t, ht⟩)
    exact hb.mono fun _ _ h => hx h.1 h.2

/-- **Runs agree.** A run in which only allowed calls are made respects the regime. Made under
another condition, which holds of every allowed call where it may be made, the run comes out the
same. -/
theorem run_agrees {G : Regime} (hG : G.Kept) (allowed : Call → World → Bool)
    (ha : ∀ c w, G.Entry c w → G.allowed c w → allowed c w) :
    ∀ (depth : Nat) {c : Call} {w w' : World} {r : Except Error c.Result}, G.Entry c w →
      runUnder G.allowed depth c w = some (r, w') →
      G.allowed c w ∧ runUnder allowed depth c w = some (r, w') ∧ G.Exit c w r w'
  | 0, _, _, _, _, _, h => absurd h (by simp [runUnder])
  | depth + 1, c, w, w', r, hw, h => by
    obtain ⟨hc, h⟩ := runUnder_succ h
    let S : Setting G :=
      { calls := runUnder G.allowed depth, calls' := runUnder allowed depth
        firm := firmly_runUnder _ depth
        call := fun hw h => run_agrees hG allowed ha depth hw h }
    obtain ⟨h1, h2⟩ := hG.body S hw hc r w' h
    refine ⟨hc, ?_, h2⟩
    show (if allowed c w then body c (runUnder allowed depth) w else none) = some (r, w')
    rw [if_pos (ha c w hw hc)]
    exact h1

/-- The setting of the runs of a regime. -/
def setting (G : Regime) (hG : G.Kept) (depth : Nat) : Setting G where
  calls := runUnder G.allowed depth
  calls' := runUnder G.allowed depth
  firm := firmly_runUnder _ depth
  call hw h := run_agrees hG G.allowed (fun _ _ _ h => h) depth hw h

end Regime

namespace Machine

open Classical in
/-- **Visiting.** In the course of running call `c` at `w`, which comes to an end, the call `c'`
is made at `w'`. -/
def Visits (allowed : Call → World → Bool) (depth : Nat) (c : Call) (w : World) (c' : Call)
    (w' : World) : Prop :=
  (runUnder allowed depth c w).isSome ∧
    runUnder (fun d x => allowed d x && !decide (d = c' ∧ x = w')) depth c w = none

/-- The call that a run begins with is visited. -/
theorem visits_self {allowed : Call → World → Bool} {depth : Nat} {c : Call} {w : World}
    (h : (runUnder allowed depth c w).isSome) : Visits allowed depth c w c w := by
  classical
  refine ⟨h, Option.eq_none_iff_forall_ne_some.mpr fun x hx => ?_⟩
  cases depth with
  | zero => exact absurd hx (by simp [runUnder])
  | succ depth =>
    have ha := (runUnder_succ hx).1
    exact absurd ha (by simp)

/-- Where a call is made the invariant holds. -/
theorem entry_of_visits {G : Regime} (hG : G.Kept) {depth : Nat} {c c' : Call} {w w' : World}
    (hw : G.Entry c w) (h : Visits G.allowed depth c w c' w') : G.Entry c' w' := by
  classical
  obtain ⟨hs, hn⟩ := h
  refine Classical.byContradiction fun hv => ?_
  obtain ⟨⟨r, x⟩, hx⟩ := Option.isSome_iff_exists.mp hs
  have ha : ∀ d x, G.Entry d x → G.allowed d x →
      (G.allowed d x && !decide (d = c' ∧ x = w')) = true := by
    intro d x hd hx
    rw [hx, Bool.true_and, Bool.not_eq_true', decide_eq_false_iff_not]
    rintro ⟨rfl, rfl⟩
    exact hv hd
  obtain ⟨-, hr, -⟩ := Regime.run_agrees hG _ ha depth hw hx
  rw [hn] at hr
  exact absurd hr (by simp)

end Machine

namespace Session

open Machine

/-- **Reached.** The worlds between the commands of a session in which only allowed calls are
made. -/
inductive Reached (allowed : Call → World → Bool) : World → Prop
  | start : Reached allowed World.empty
  | perform {w w' : World} {c : Command} {r : Except Error Answer} (h : Reached allowed w)
    (hr : runUnder allowed depth (.perform c) { w with log := [] } = some (r, w')) :
    Reached allowed { w' with log := [] }

/-- **Visited.** A call is made at a world in the course of such a session. -/
def Visited (allowed : Call → World → Bool) (c : Call) (w : World) : Prop :=
  ∃ start command, Reached allowed start ∧
    Visits allowed depth (.perform command) { start with log := [] } c w

/-- The world that a session comes to, command by command. -/
def play (allowed : Call → World → Bool) : List Command → World → Option World
  | [], w => some w
  | c :: cs, w =>
    match runUnder allowed depth (.perform c) { w with log := [] } with
    | some (_, w) => play allowed cs { w with log := [] }
    | none => none

theorem reached_of_play {allowed : Call → World → Bool} {cs : List Command} {w w' : World}
    (hw : Reached allowed w) (h : play allowed cs w = some w') : Reached allowed w' := by
  induction cs generalizing w with
  | nil => exact Option.some.inj h ▸ hw
  | cons c cs ih =>
    unfold play at h
    split at h
    · next r w₁ hr => exact ih (.perform hw hr) h
    · exact absurd h (by simp)

/-- The first call of a command that comes to an end is visited. -/
theorem visited_of_reached {allowed : Call → World → Bool} {w : World} (hw : Reached allowed w)
    {c : Command} (h : (runUnder allowed depth (.perform c) { w with log := [] }).isSome) :
    Visited allowed (.perform c) { w with log := [] } :=
  ⟨w, c, hw, visits_self h⟩

/-- What a command comes to is what its run comes to. -/
theorem perform_eq_some {w w' : World} {c : Command} {o : Outcome} :
    perform w c = some (o, w') ↔ ∃ r x, run depth (.perform c) { w with log := [] } = some (r, x) ∧
      o = ⟨r, x.log.reverse⟩ ∧ w' = { x with log := [] } := by
  unfold perform
  cases run depth (.perform c) { w with log := [] } with
  | none => simp
  | some x =>
    obtain ⟨r, x⟩ := x
    simp only [Option.some.injEq, Prod.mk.injEq]
    constructor
    · rintro ⟨rfl, rfl⟩
      exact ⟨r, x, ⟨rfl, rfl⟩, rfl, rfl⟩
    · rintro ⟨r', x', ⟨rfl, rfl⟩, rfl, rfl⟩
      exact ⟨rfl, rfl⟩

/-- Whatever is performed in a session, the session goes on from there. -/
theorem reached_of_perform {w w' : World} {c : Command} {o : Outcome}
    (hw : Reached (fun _ _ => true) w) (h : perform w c = some (o, w')) :
    Reached (fun _ _ => true) w' := by
  obtain ⟨r, x, hr, -, rfl⟩ := perform_eq_some.mp h
  rw [← runUnder_true] at hr
  exact .perform hw hr

/-- One command keeps what holds between commands. -/
theorem keeps_of_run {G : Regime} (hG : G.Kept) {w w' : World} {c : Command}
    {r : Except Error Answer} (hw : G.Inv w)
    (hr : runUnder G.allowed depth (.perform c) { w with log := [] } = some (r, w')) :
    G.Rel w { w' with log := [] } ∧ G.Inv { w' with log := [] } := by
  have hc : (Call.perform c).IsPlain := trivial
  obtain ⟨hr₁, hi₁⟩ := G.change hw (.unlogged _ w)
  obtain ⟨-, -, he⟩ := Regime.run_agrees hG G.allowed (fun _ _ _ h => h) depth
    (G.entry hc rfl hi₁) hr
  obtain ⟨hr₂, hi₂⟩ := G.exit hc rfl hi₁ he
  obtain ⟨hr₃, hi₃⟩ := G.change hi₂ (.unlogged _ w')
  exact ⟨G.trans hr₁ (G.trans hr₂ hr₃), hi₃⟩

/-- So does a session, command by command. -/
theorem keeps_of_play {G : Regime} (hG : G.Kept) {cs : List Command} {w w' : World} (hw : G.Inv w)
    (h : play G.allowed cs w = some w') : G.Rel w w' ∧ G.Inv w' := by
  induction cs generalizing w with
  | nil => exact Option.some.inj h ▸ ⟨G.refl w, hw⟩
  | cons c cs ih =>
    unfold play at h
    split at h
    · next r w₁ hr =>
      obtain ⟨hr₁, hi₁⟩ := keeps_of_run hG hw hr
      obtain ⟨hr₂, hi₂⟩ := ih hi₁ h
      exact ⟨G.trans hr₁ hr₂, hi₂⟩
    · exact absurd h (by simp)

/-- What holds at first is kept by every session. -/
theorem keeps_of_reached {G : Regime} (hG : G.Kept) (h0 : G.Inv World.empty) {w : World}
    (h : Reached G.allowed w) : G.Rel World.empty w ∧ G.Inv w := by
  induction h with
  | start => exact ⟨G.refl _, h0⟩
  | perform _ hr ih =>
    obtain ⟨hr', hi⟩ := keeps_of_run hG ih.2 hr
    exact ⟨G.trans ih.1 hr', hi⟩

theorem inv_of_reached {G : Regime} (hG : G.Kept) (h0 : G.Inv World.empty) {w : World}
    (h : Reached G.allowed w) : G.Inv w :=
  (keeps_of_reached hG h0 h).2

/-- What holds at first holds at every call. -/
theorem entry_of_visited {G : Regime} (hG : G.Kept) (h0 : G.Inv World.empty) {c : Call} {w : World}
    (h : Visited G.allowed c w) : G.Entry c w := by
  obtain ⟨start, command, hs, hv⟩ := h
  have hw : G.Inv { start with log := [] } := (G.change (inv_of_reached hG h0 hs) (.unlogged _ start)).2
  have hc : (Call.perform command).IsPlain := trivial
  exact entry_of_visits hG (G.entry hc rfl hw) hv

end Session

end ReactiveViews
