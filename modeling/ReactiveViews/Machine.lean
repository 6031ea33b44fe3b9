import ReactiveViews.World
/-!
# Running

Evaluating an expression may write a property, which notifies subscribers, which
evaluate expressions; binding a view may bind the views inside it. These circles
are cut in one place. A `Call` names each thing that may come around to itself, a
`Machine` is a computation that may make calls, and what calls do is a parameter
of it. `ReactiveViews.Run` ties the knot, to a depth.

A computation has three outcomes: it gives a value, it fails with an `Error` and
keeps what it did to the world, or the depth did not suffice (`none`), and then
nothing is claimed about it.
-/

namespace ReactiveViews

/-- **Environment.** What an expression is evaluated in. -/
structure Env where
  source : Value
  context : ContextId
  extra : Value

/-- **Call.** A computation that others may come around to. -/
inductive Call
  | eval (e : Expr) (env : Env)
  /-- A subscriber is told of a change. -/
  | deliver (s : Subscriber) (change : Change)
  /-- A queued task runs. -/
  | update (t : Task)
  /-- Flushes until nothing is queued. -/
  | settle
  /-- Runs the flushes spawned on the task pool until none is left. -/
  | drainPool
  | bindView (v : ViewId) (source : Value) (context : ContextId)
  | unbindView (v : ViewId)
  /-- An event is handled at a node and, if it bubbles, at the nodes around it. -/
  | bubble (n : NodeId) (e : EventId)
  | perform (c : Command)

/-- What a call gives. -/
@[reducible] def Call.Result : Call → Type
  | eval _ _ => Value
  | settle => FlushReport
  | perform _ => Answer
  | _ => Unit

/-- A change of the world that gives a value, fails, or does not come to an end. -/
abbrev Effect := ExceptT Error (StateT World Option)

/-- What every call does. -/
abbrev Calls := (c : Call) → Effect c.Result

/-- **Machine.** A computation that may make calls. -/
abbrev Machine := ReaderT Calls Effect

namespace Machine

variable {α : Type}

/-- Makes a call. -/
def call (c : Call) : Machine c.Result := fun calls => calls c

/-- **Catching.** The outcome of a computation as a value; what it did is kept either way. -/
def attempt (m : Machine α) : Machine (Except Error α) := fun calls w =>
  match m calls w with
  | some (r, w') => some (.ok r, w')
  | none => none

/-- **Scoping.** Runs `m` in a changed world and restores what was changed, also when `m` fails:
`leave` is given the world before and the world after. -/
def within (enter : World → World) (leave : World → World → World) (m : Machine α) :
    Machine α := fun calls w =>
  match m calls (enter w) with
  | some (r, w') => some (r, leave w w')
  | none => none

/-- Gives the value or fails with the error. -/
def ofExcept (r : Except Error α) : Machine α :=
  match r with
  | .ok a => pure a
  | .error e => throw e

/-- Reads something off the world. -/
def read (f : World → α) : Machine α := do return f (← get)

/-- Runs a computation with something held on to. -/
def holding (things : List Held) (m : Machine α) : Machine α :=
  within (fun w => { w with held := things ++ w.held })
    (fun before after => { after with held := before.held }) m

/-- **Watching.** Tracked reads of `m` are recorded for an observer, or for nobody. -/
def watching (watcher : Option ObserverId) (m : Machine α) : Machine α :=
  within (fun w => { w with watcher }) (fun before after => { after with watcher := before.watcher })
    m

/-- Runs a computation whose reads are recorded for nobody. -/
def untracked (m : Machine α) : Machine α := watching none m

/-- Runs a computation that handles an event. -/
def handling (e : EventId) (m : Machine α) : Machine α :=
  within (fun w => { w with currentEvent := some e })
    (fun before after => { after with currentEvent := before.currentEvent }) m

/-- Adds an entry to the log. -/
def logEntry (entry : LogEntry) : Machine Unit :=
  modify fun w => { w with log := entry :: w.log }

/-- Logs a failure that is not passed on. -/
def logError (message : String) (e : Error) : Machine Unit :=
  logEntry (.error message e.message)

/-- Does one thing after another to the members of a list. -/
def each {β : Type} (f : β → Machine Unit) : List β → Machine Unit
  | [] => pure ()
  | b :: bs => do
    f b
    each f bs

/-- The results of doing something to the members of a list in order. -/
def collect {β γ : Type} (f : β → Machine γ) : List β → Machine (List γ)
  | [] => pure []
  | b :: bs => do
    let c ← f b
    return c :: (← collect f bs)

/-- Evaluates an expression. -/
def eval (e : Expr) (env : Env) : Machine Value := call (.eval e env)

/-- A new context. -/
def newContext (c : ContextState) : Machine ContextId :=
  modifyGet fun w =>
    let (r, contexts) := w.contexts.add c
    (r, { w with contexts })

/-- A new context with nothing around it, at position zero of zero. -/
def rootContext : Machine ContextId := newContext ⟨.null, none, 0, 0, none⟩

/-- Evaluates an expression for a source and an extra value in a new root context. -/
def evalAlone (e : Expr) (source extra : Value) : Machine Value := do
  eval e ⟨source, ← rootContext, extra⟩

/-- Evaluates the body of something scripted, for its effects. -/
def runBody (e : Expr) : Machine Unit := do
  let _ ← evalAlone e .null .null

end Machine

end ReactiveViews
