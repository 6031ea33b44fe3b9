import ReactiveViews.Error
import ReactiveViews.Text.Entity
/-!
# Markers

An interpolation takes part in the joined source as a marker: its number between
two characters of the private use area. `segments` splits a piece of source into
the texts and the markers that it consists of.
-/

namespace ReactiveViews.Markup

/-- The character that opens a marker. -/
def markerOpen : Char := '\ue000'

/-- The character that closes a marker. -/
def markerClose : Char := '\ue001'

/-- The marker of the interpolation with a number. -/
def marker (index : Nat) : List Char :=
  markerOpen :: ((Nat.repr index).toList ++ [markerClose])

/-- **Segment.** A piece of text, or a marker. -/
inductive Segment
  | text (cs : List Char)
  | marker (index : Nat)
deriving DecidableEq, Repr

/-- Whether a segment is a marker. -/
def Segment.isMarker : Segment → Bool
  | text _ => false
  | marker _ => true

/-- A text segment, unless the text is empty. -/
def textSegment (cs : List Char) : List Segment :=
  if cs.isEmpty then [] else [.text cs]

/-- **Segments.** The texts and markers of a piece of source in order. A marker that is not
closed or does not hold a number is corrupt. -/
def segments (source : List Char) : Except Error (List Segment) :=
  match _h : Text.splitAt? markerOpen source with
  | none => .ok (textSegment source)
  | some (before, after) =>
    match _h' : Text.splitAt? markerClose after with
    | none => .error (.markup 0 "corrupt interpolation marker")
    | some (number, rest) =>
      match Text.readIndex number with
      | none => .error (.markup 0 "corrupt interpolation marker")
      | some index =>
        (segments rest).map fun others => textSegment before ++ .marker index :: others
termination_by source.length
decreasing_by
  rw [Text.splitAt?_eq_some _h, Text.splitAt?_eq_some _h']
  simp
  omega

end ReactiveViews.Markup
