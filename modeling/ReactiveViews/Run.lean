import ReactiveViews.Liveness
import ReactiveViews.Session.Nodes
import ReactiveViews.Session.Observation
import ReactiveViews.Session.Templates
/-!
# Running calls

Here the knot is tied: `body` says what each call does, given what calls do, and
`run` is what calls do to a depth of calls within calls. A deeper run finishes
whatever a shallower one finishes, in the same way; only a computation that goes
around for ever finishes at no depth.

`Session.perform` performs one command on a world and gives its answer together
with what was logged.
-/

namespace ReactiveViews

namespace Machine

/-- What a command does, apart from letting go of what it leaves behind. -/
def performOne : Command → Machine Answer
  | .value c => performValue c
  | .type c => performType c
  | .object c => performObject c
  | .notifier c => performNotifier c
  | .array c => performArray c
  | .observer c => performObserver c
  | .context c => performContext c
  | .queue c => performQueue c
  | .node c => performNode c
  | .event c => performEvent c
  | .template c => performTemplate c
  | .view c => performView c
  | .drop handle => do
    modify fun w => { w with handles := w.handles.erase handle }
    return .unit

/-- **Performing.** When a command has ended, also with a failure, what is no longer reachable
is let go. -/
def perform (c : Command) : Machine Answer :=
  within id (fun _ after => after.sweep) (performOne c)

/-- **Bodies.** What each call does. -/
def body : (c : Call) → Machine c.Result
  | .eval e env => evalExpr e env
  | .deliver s change => deliver s change
  | .update t => update t
  | .settle => settle
  | .drainPool => drainPool
  | .bindView v source context => bindView v source context
  | .unbindView v => unbindView v
  | .bubble n e => bubble n e
  | .perform c => perform c

/-- **Running.** What calls do to a depth. -/
def run : Nat → Calls
  | 0, _ => fun _ => none
  | depth + 1, c => body c (run depth)

end Machine

namespace Session

/-- The depth to which commands are run. -/
def depth : Nat := 4000

/-- How a command ended, and what was logged on the way. -/
structure Outcome where
  answer : Except Error Answer
  log : List LogEntry

/-- **One command.** The outcome and the world after it; none if the depth did not suffice. -/
def perform (w : World) (c : Command) : Option (Outcome × World) :=
  match Machine.run depth (.perform c) { w with log := [] } with
  | some (answer, w) => some (⟨answer, w.log.reverse⟩, { w with log := [] })
  | none => none

end Session

end ReactiveViews
