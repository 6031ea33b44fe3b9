/-!
# Aspects of a node

A binding writes to one aspect of one node: its content, an attribute, a boolean
attribute, a property or an event. In markup the first character of an attribute
name tells which.
-/

namespace ReactiveViews

/-- **Aspect.** The part of a node that a binding writes to. -/
inductive Aspect
  /-- Text, or a composed view when the value is a template. -/
  | content
  /-- A text attribute, which null removes. -/
  | attr (name : String)
  /-- An attribute that is there exactly when the value is true. -/
  | flag (name : String)
  | prop (name : String)
  | event (name : String)
deriving DecidableEq, Inhabited, Repr

namespace Aspect

/-- Reads the aspect off an attribute name: `?` marks a boolean attribute, `:` a property and
`@` an event. -/
def ofAttributeName (name : String) : Aspect :=
  match name.toList with
  | '?' :: rest => flag (String.ofList rest)
  | ':' :: rest => prop (String.ofList rest)
  | '@' :: rest => event (String.ofList rest)
  | _ => attr name

/-- The name without its mark; content has none. -/
def name? : Aspect → Option String
  | content => none
  | attr name => some name
  | flag name => some name
  | prop name => some name
  | event name => some name

/-- The aspect as it stands in markup. -/
def display : Aspect → String
  | content => "content"
  | attr name => name
  | flag name => "?" ++ name
  | prop name => ":" ++ name
  | event name => "@" ++ name

/-- The name of the kind of aspect. -/
def kindName : Aspect → String
  | content => "content"
  | attr _ => "attribute"
  | flag _ => "boolean"
  | prop _ => "property"
  | event _ => "event"

/-- Reading back what an aspect looks like in markup gives the aspect, if it is not content and
the name of a plain attribute does not look marked. -/
theorem ofAttributeName_display (a : Aspect) (hc : a ≠ content)
    (hn : ∀ name, a = attr name → ofAttributeName name = attr name) :
    ofAttributeName a.display = a := by
  cases a with
  | content => exact absurd rfl hc
  | attr name => exact hn name rfl
  | flag name => simp [display, ofAttributeName]
  | prop name => simp [display, ofAttributeName]
  | event name => simp [display, ofAttributeName]

end Aspect

end ReactiveViews
