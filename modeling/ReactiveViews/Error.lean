/-!
# What can go wrong

Each way in which observing, compiling, creating, binding or flushing can fail is
a constructor of `Error`, with what is needed to say so. The wording stands in
`Error.message` and nowhere else.
-/

namespace ReactiveViews

/-- **Failures.** -/
inductive Error
  /-- An array was to be observed while nothing is set up to observe arrays. -/
  | arrayObservationDisabled
  /-- A binding expression failed. -/
  | binding (reason : String)
  /-- A path leads to no node, or is none. -/
  | unresolvedTarget (path : String)
  /-- Markup is malformed at a byte of the joined source. -/
  | markup (offset : Nat) (reason : String)
  /-- A value of one kind came where another kind is needed. -/
  | typeMismatch (expected found : String)
  /-- Some updates of a flush failed. -/
  | flush (failures : List Error)
deriving Inhabited

namespace Error

/-- The text shown for a failure. -/
def message : Error → String
  | arrayObservationDisabled =>
    "array observation is not enabled; call `enable_array_observation()` or " ++
      "`set_array_observer_factory()` before binding to arrays"
  | binding reason => "binding evaluation failed: " ++ reason
  | unresolvedTarget path => "template target `" ++ path ++ "` does not resolve to a node"
  | markup offset reason => "markup error at byte " ++ Nat.repr offset ++ ": " ++ reason
  | typeMismatch expected found => "expected " ++ expected ++ ", found " ++ found
  | flush failures => Nat.repr failures.length ++ " queued update(s) failed"

end Error

end ReactiveViews
