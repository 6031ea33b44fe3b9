import ReactiveViews.Store
import ReactiveViews.Text.Shortest
/-!
# Values

What flows through bindings: the absence of a value, booleans, numbers and text,
which are compared by what they are, and references to objects, arrays and
templates, which are compared by identity.
-/

namespace ReactiveViews

/-- **Value.** -/
inductive Value
  | null
  | bool (b : Bool)
  | number (n : Float)
  | text (s : String)
  | object (o : ObjectId)
  | array (a : ArrayId)
  | template (t : TemplateId)
deriving Inhabited

namespace Value

/-- A count as a number. -/
def ofNat (n : Nat) : Value := .number (Float.ofNat n)

/-- **Sameness.** The comparison by which a change is told from a repetition. Numbers compare
as numbers, so a value that is no number differs from itself and the two zeros are the same. -/
def same : Value → Value → Bool
  | null, null => true
  | bool a, bool b => a == b
  | number a, number b => a == b
  | text a, text b => a == b
  | object a, object b => a == b
  | array a, array b => a == b
  | template a, template b => a == b
  | _, _ => false

/-- The name of the kind of value. -/
def kindName : Value → String
  | null => "null"
  | bool _ => "bool"
  | number _ => "number"
  | text _ => "text"
  | object _ => "object"
  | array _ => "array"
  | template _ => "template"

/-- **Truth.** Null, `false`, zero, what is no number and empty text are false; all else is
true. -/
def truthy : Value → Bool
  | null => false
  | bool b => b
  | number n => n != 0 && !n.isNaN
  | text s => !s.isEmpty
  | _ => true

/-- Whether there is no value. -/
def isNull : Value → Bool
  | null => true
  | _ => false

end Value

/-- A number as content shows it. -/
def showNumber (n : Float) : String :=
  if n.isNaN then "NaN"
  else if n.isInf then (if n > 0 then "Infinity" else "-Infinity")
  else Text.showFinite n

/-- A number as diagnostics show it: infinity has a shorter name there. -/
def debugNumber (n : Float) : String :=
  if n.isNaN then "NaN"
  else if n.isInf then (if n > 0 then "inf" else "-inf")
  else Text.showFinite n

end ReactiveViews
