import ReactiveViews.Proofs.Currency.Refreshing
/-!
# What leaves attachments tended

Callbacks and subscribers may compute, log, fail, and write properties: they are *tame*. Whatever is tame
leaves an attachment tended, if the writes do. This is a matter of what each computation is made of, so it
is a class (`Machine.Tends`), found for a computation as soon as it is known of its parts. Who is told of a
write and what that does is left to calls here, and taken up where calls are run.

Nobody watches while tame expressions are evaluated, so reads change nothing at all.
-/

namespace ReactiveViews

/-- Whether a literal is a value that is there already. -/
def Literal.isStanding : Literal → Bool
  | .object _ _ | .array _ => false
  | _ => true

/-- **Tame.** Whether evaluating an expression does no more than to compute, to log, to fail, to deal with
the event at hand, and to write properties. What its parts do is said of these. -/
def Expr.isTame : Expr → Bool
  | .literal l => l.isStanding
  | .push _ _ | .observe _ _ | .perform _ => false
  | _ => true

namespace World

/-- **Aside.** A step that has nothing to do with values, nodes and who observes what. -/
structure Aside (w w' : World) : Prop where
  watcher : w'.watcher = w.watcher
  behaviors : w'.behaviors = w.behaviors
  document : w'.document = w.document
  objects : w'.objects = w.objects
  registry : w'.registry = w.registry
  arrays : w'.arrays = w.arrays
  handles : w'.handles = w.handles
  observers : w'.observers = w.observers
  notifiers : w'.notifiers = w.notifiers

variable {w w' : World} {a : Attachment} {changing : List PropertyRead}

theorem Aside.hold (w : World) (held : List Held) : w.Aside { w with held } :=
  ⟨rfl, rfl, rfl, rfl, rfl, rfl, rfl, rfl, rfl⟩

theorem Aside.sameValues (h : w.Aside w') : w.SameValues w' :=
  .of_eq h.objects h.registry h.arrays h.handles

theorem Aside.spares (h : w.Aside w') (a : Attachment) : w.Spares a w' where
  toStands := h.sameValues.toStands
  watcher := h.watcher
  behavior := by rw [h.behaviors]
  observer := by rw [h.observers]
  registered hr := by rwa [Registered, h.notifiers]
  listeners _ hl := by rwa [h.document]

theorem Tended.aside (h : w.Tended changing a) (hs : w.Aside w') : w'.Tended changing a :=
  h.same (hs.spares _) hs.sameValues.peek hs.document

theorem Tended.lookedUp (h : w.Tended changing a) (type : String) (log : List LogEntry) :
    (w.lookedUp type log).Tended changing a := by
  have hsame := sameValues_lookedUp w type log
  exact h.same ⟨hsame.toStands, rfl, rfl, rfl, id, fun _ => id⟩ hsame.peek rfl

end World

namespace Machine

/-- **Tending.** A computation leaves an attachment tended for the same properties. -/
class Tends {α : Type} (calls : Calls) (a : Attachment) (m : Machine α) : Prop where
  tends {changing : List PropertyRead} {w w' : World} {r : Except Error α} :
    w.Tended changing a → m calls w = some (r, w') → w'.Tended changing a

section Tends

variable {α β : Type} {calls : Calls} {a : Attachment}

/-- A computation that changes nothing. -/
theorem Tends.of_still {m : Machine α} (h : ∀ w, w.watcher = none → ∃ r, m calls w = some (r, w)) :
    Tends calls a m := by
  refine ⟨fun {changing w w' r} hw hm => ?_⟩
  obtain ⟨r', h⟩ := h w hw.watcher
  obtain ⟨rfl, rfl⟩ := Prod.mk.inj (Option.some.inj (h.symm.trans hm))
  exact hw

instance (x : α) : Tends calls a (pure x) := .of_still fun _ _ => ⟨_, rfl⟩

instance (e : Error) : Tends calls a (throw e : Machine α) := .of_still fun _ _ => ⟨_, rfl⟩

instance : Tends calls a (get : Machine World) := .of_still fun _ _ => ⟨_, rfl⟩

instance (f : World → α) : Tends calls a (read f) := .of_still fun _ _ => ⟨_, rfl⟩

/-- A step aside. -/
theorem Tends.modify {f : World → World} (h : ∀ w : World, w.Aside (f w)) :
    Tends calls a (modify f : Machine PUnit) := by
  refine ⟨fun {changing w w' r} hw hm => ?_⟩
  obtain ⟨rfl, rfl⟩ := Prod.mk.inj (Option.some.inj hm)
  exact hw.aside (h w)

theorem Tends.modifyGet {f : World → α × World} (h : ∀ w : World, w.Aside (f w).2) :
    Tends calls a (modifyGet f : Machine α) := by
  refine ⟨fun {changing w w' r} hw hm => ?_⟩
  obtain ⟨rfl, rfl⟩ := Prod.mk.inj (Option.some.inj hm)
  exact hw.aside (h w)

theorem Tends.bind {m : Machine α} {f : α → Machine β} [hm : Tends calls a m]
    (hf : ∀ x, Tends calls a (f x)) : Tends calls a (m >>= f) := by
  refine ⟨fun {changing w w' r} hw h => ?_⟩
  obtain ⟨e, h, -⟩ | ⟨x, w₁, h, h'⟩ := bind_eq_some h
  · exact hm.tends hw h
  · exact (hf x).tends (hm.tends hw h) h'

instance (m : Machine α) (f : α → Machine β) [Tends calls a m] [hf : ∀ x, Tends calls a (f x)] :
    Tends calls a (m >>= f) :=
  .bind hf

instance (p : Prop) [Decidable p] (m m' : Machine α) [Tends calls a m] [Tends calls a m'] :
    Tends calls a (if p then m else m') := by
  split <;> infer_instance

instance (m : Machine α) [hm : Tends calls a m] : Tends calls a (attempt m) := by
  refine ⟨fun {changing w w' r} hw h => ?_⟩
  obtain ⟨x, h, -⟩ := attempt_eq_some.mp h
  exact hm.tends hw h

/-- A scope that has nothing to do with attachments. -/
theorem Tends.within {enter : World → World} {leave : World → World → World} {m : Machine α}
    [hm : Tends calls a m] (henter : ∀ w : World, w.watcher = none → w.Aside (enter w))
    (hleave : ∀ w w' : World, w.watcher = none → w'.watcher = none → w'.Aside (leave w w')) :
    Tends calls a (within enter leave m) := by
  refine ⟨fun {changing w w' r} hw h => ?_⟩
  obtain ⟨w₁, hrun, rfl⟩ := within_eq_some.mp h
  have h₁ := hm.tends (hw.aside (henter w hw.watcher)) hrun
  exact h₁.aside (hleave w w₁ hw.watcher h₁.watcher)

instance (things : List Held) (m : Machine α) [Tends calls a m] : Tends calls a (holding things m) :=
  .within (fun _ _ => .hold _ _) fun _ _ _ _ => .hold _ _

instance (m : Machine α) [Tends calls a m] : Tends calls a (untracked m) :=
  .within (fun _ hw => ⟨hw.symm, rfl, rfl, rfl, rfl, rfl, rfl, rfl, rfl⟩)
    fun _ _ hw hw' => ⟨hw.trans hw'.symm, rfl, rfl, rfl, rfl, rfl, rfl, rfl, rfl⟩

instance (e : EventId) (m : Machine α) [Tends calls a m] : Tends calls a (handling e m) :=
  .within (fun _ _ => ⟨rfl, rfl, rfl, rfl, rfl, rfl, rfl, rfl, rfl⟩)
    fun _ _ _ _ => ⟨rfl, rfl, rfl, rfl, rfl, rfl, rfl, rfl, rfl⟩

instance (f : β → Machine Unit) [h : ∀ x, Tends calls a (f x)] (l : List β) :
    Tends calls a (each f l) := by
  induction l with
  | nil =>
    unfold each
    infer_instance
  | cons x l ih =>
    unfold each
    infer_instance

end Tends

/-! ## Tame expressions -/

section Tame

variable {calls : Calls} {a : Attachment}

instance (entry : LogEntry) : Tends calls a (logEntry entry) :=
  .modify fun _ => ⟨rfl, rfl, rfl, rfl, rfl, rfl, rfl, rfl, rfl⟩

instance (message : String) (e : Error) : Tends calls a (logError message e) := by
  unfold logError
  infer_instance

instance (c : ContextState) : Tends calls a (newContext c) :=
  .modifyGet fun _ => ⟨rfl, rfl, rfl, rfl, rfl, rfl, rfl, rfl, rfl⟩

instance : Tends calls a rootContext := by
  unfold rootContext
  infer_instance

instance (queue : Queue) : Tends calls a (setQueue queue) :=
  .modify fun _ => ⟨rfl, rfl, rfl, rfl, rfl, rfl, rfl, rfl, rfl⟩

instance (e : EventId) (f : EventState → EventState) : Tends calls a (modifyEvent e f) :=
  .modify fun _ => ⟨rfl, rfl, rfl, rfl, rfl, rfl, rfl, rfl, rfl⟩

instance (source : Observable) (name : String) : Tends calls a (track source name) := by
  refine .of_still fun w hw => ⟨.ok (), ?_⟩
  unfold track
  rw [bind_apply, get_apply]
  dsimp only
  rw [hw]
  rfl

instance : Tends calls a trackVolatile := by
  refine .of_still fun w hw => ⟨.ok (), ?_⟩
  unfold trackVolatile
  rw [bind_apply, get_apply]
  dsimp only
  rw [hw]
  rfl

instance (o : ObjectId) (name : String) : Tends calls a (getProperty o name) := by
  refine .of_still fun w hw => ⟨.ok (w.peek o name), ?_⟩
  unfold getProperty
  rw [bind_apply, get_apply]
  dsimp only
  rw [hw]
  rfl

instance (c : ContextId) (query : PositionQuery) : Tends calls a (queryPosition c query) := by
  cases query <;> unfold queryPosition contextIndex <;> try unfold contextLength
  all_goals infer_instance

instance (query : EventQuery) : Tends calls a (queryEvent query) := by
  refine .of_still fun w _ => ?_
  unfold queryEvent
  rw [bind_apply, get_apply]
  dsimp only
  cases w.currentEvent with
  | none => exact ⟨_, rfl⟩
  | some e => cases query <;> exact ⟨_, rfl⟩

instance (f : EventState → EventState) : Tends calls a (onEvent f) := by
  unfold onEvent
  have hm : Tends calls a (modify fun w => match w.currentEvent with
      | some e => { w with events := w.events.modify e f }
      | none => w : Machine PUnit) := .modify fun w => by
    split <;> exact ⟨rfl, rfl, rfl, rfl, rfl, rfl, rfl, rfl, rfl⟩
  infer_instance

/-- A literal that is there already. -/
theorem resolve_tends {l : Literal} (h : l.isStanding = true) : Tends calls a (resolve l) := by
  cases l with
  | object | array => exact absurd h (by simp [Literal.isStanding])
  | null | bool | number | text | handle =>
    unfold resolve
    infer_instance

variable [he : ∀ e env, Tends calls a (eval e env)]

instance (e : Expr) (source extra : Value) : Tends calls a (evalAlone e source extra) := by
  unfold evalAlone
  infer_instance

instance (e : Expr) : Tends calls a (runBody e) := by
  unfold runBody
  infer_instance

instance (parts : List Expr) (env : Env) : Tends calls a (evalTexts env parts) := by
  induction parts with
  | nil =>
    unfold evalTexts
    infer_instance
  | cons e rest ih =>
    unfold evalTexts
    infer_instance

instance (parts : List Expr) (env : Env) (last : Value) : Tends calls a (evalLast env last parts) := by
  induction parts generalizing last with
  | nil =>
    unfold evalLast
    infer_instance
  | cons e rest ih =>
    unfold evalLast
    infer_instance

/-- **Tame expressions** leave an attachment tended, if the writes that they make do. -/
theorem evalExpr_tends [hs : ∀ o name v, Tends calls a (setProperty o name v)] {e : Expr}
    (h : e.isTame = true) (env : Env) : Tends calls a (evalExpr e env) := by
  unfold evalExpr
  cases e with
  | literal l => exact resolve_tends h
  | push | observe | perform => exact absurd h (by simp [Expr.isTame])
  | get e name =>
    refine .bind fun v => ?_
    cases v <;> infer_instance
  | peek e name =>
    refine .bind fun v => ?_
    cases v <;> infer_instance
  | length e | rawLength e =>
    refine .bind fun v => ?_
    cases v <;> infer_instance
  | item array index =>
    refine .bind fun v => .bind fun i => ?_
    cases v <;> infer_instance
  | join array =>
    refine .bind fun v => ?_
    cases v <;> infer_instance
  | position hops query =>
    refine .bind fun w => ?_
    cases enclosing? w hops env.context <;> infer_instance
  | parent hops =>
    refine .bind fun w => ?_
    cases enclosing? w hops env.context <;> infer_instance
  | set object name value =>
    refine .bind fun target => .bind fun v => ?_
    cases target <;> infer_instance
  | track on name =>
    refine .bind fun v => ?_
    cases v <;> infer_instance
  | constant | source | extra | cat | seq | cond | not | eq | add | less | fail | event | prevent
  | stop | log | volatile | untracked | tracking => infer_instance

end Tame

end Machine

end ReactiveViews
