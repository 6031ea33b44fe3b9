import ReactiveViews.Markup.Cursor
import ReactiveViews.Markup.Marker
import ReactiveViews.Template.Path
/-!
# Attributes in markup

Inside a tag the source is a run of attributes. `readAttribute` cuts one out, and
`Supply.attach` decides what it is: a plain attribute if its value holds no
marker; a binding of the aspect that its name tells if its value is one marker;
a binding that joins the pieces if markers are mixed with text; and a directive
on the element if the marker stands where a name would.

Each interpolation may be used once. A `Supply` keeps those not used yet, and the
directives made of the others with the paths of the nodes they apply to.
-/

namespace ReactiveViews.Markup

/-- An interpolation that is more than markup. -/
inductive Dynamic
  | binding (b : Binding)
  | directive (d : Directive)

/-- **Supply.** The interpolations that are left, under their numbers, and the directives placed
so far, in order. -/
structure Supply where
  slots : List (Option Dynamic)
  targets : List (Path × Directive)

namespace Supply

/-- Takes an interpolation out. It is an error at `pos` if there is none of that number left. -/
def take (s : Supply) (pos index : Nat) : Except Error (Dynamic × Supply) :=
  match (s.slots[index]?).join with
  | some d => .ok (d, { s with slots := s.slots.set index none })
  | none => .error (.markup pos ("interpolation " ++ Nat.repr index ++ " used twice"))

/-- Places a directive on the node at a path. -/
def place (s : Supply) (path : Path) (d : Directive) : Supply :=
  { s with targets := s.targets ++ [(path, d)] }

end Supply

/-- An attribute as it stands in the source: where it begins, its name and its value. -/
structure RawAttribute where
  start : Nat
  name : List Char
  value : List Char

/-- Characters that an attribute name may hold. -/
def isNameChar (c : Char) : Bool :=
  !Text.isBlank c && c != '=' && c != '>' && c != '/'

/-- Characters that an attribute value without quotes may hold. -/
def isBareValueChar (c : Char) : Bool :=
  !Text.isBlank c && c != '>'

/-- Reads what is behind an opening quote up to the closing one. -/
def readQuoted (quote : Char) (c : Cursor) : Except Error (List Char × Cursor) :=
  match Text.splitAt? quote c.rest with
  | some (value, rest) => .ok (value, c.past (value ++ [quote]) rest)
  | none => .error (.markup c.pos "unterminated attribute value")

/-- Reads an attribute value in double quotes, single quotes or none. -/
def readValue (c : Cursor) : Except Error (List Char × Cursor) :=
  match c.rest with
  | '"' :: _ => readQuoted '"' c.next
  | '\'' :: _ => readQuoted '\'' c.next
  | _ => .ok (c.readWhile isBareValueChar)

/-- Reads an attribute value if an equals sign comes first; otherwise the value is empty. -/
def readOptionalValue (c : Cursor) : Except Error (List Char × Cursor) :=
  match c.rest with
  | '=' :: _ => readValue c.next.skipBlanks
  | _ => .ok ([], c)

/-- **One attribute.** A character that begins no name is skipped and gives none. -/
def readAttribute (c : Cursor) : Except Error (Option RawAttribute × Cursor) :=
  let (name, c') := c.readWhile isNameChar
  if name.isEmpty then .ok (none, c.next)
  else
    match readOptionalValue c'.skipBlanks with
    | .error e => .error e
    | .ok (value, c'') => .ok (some ⟨c.pos, name, value⟩, c'')

theorem readQuoted_within {quote : Char} {c c' : Cursor} {value : List Char}
    (h : readQuoted quote c = .ok (value, c')) : c'.Within c := by
  unfold readQuoted at h
  split at h
  · next v rest hs =>
    simp only [Except.ok.injEq, Prod.mk.injEq] at h
    rw [← h.2]
    exact Cursor.past_within (by simp [Text.splitAt?_eq_some hs])
  · simp at h

theorem readValue_within {c c' : Cursor} {value : List Char}
    (h : readValue c = .ok (value, c')) : c'.Within c := by
  unfold readValue at h
  split at h
  · exact (readQuoted_within h).trans c.next_within
  · exact (readQuoted_within h).trans c.next_within
  · simp only [Except.ok.injEq] at h
    have := c.readWhile_within isBareValueChar
    rwa [h] at this

theorem readOptionalValue_within {c c' : Cursor} {value : List Char}
    (h : readOptionalValue c = .ok (value, c')) : c'.Within c := by
  unfold readOptionalValue at h
  split at h
  · exact (readValue_within h).trans (c.next.skipBlanks_within.trans c.next_within)
  · simp only [Except.ok.injEq, Prod.mk.injEq] at h
    rw [← h.2]
    exact Cursor.Within.refl c

/-- Reading an attribute moves on, whatever stands there. -/
theorem readAttribute_past {c c' : Cursor} {a : Option RawAttribute} (hc : c.rest ≠ [])
    (h : readAttribute c = .ok (a, c')) : c'.Past c := by
  unfold readAttribute at h
  split at h
  next name c₁ hw =>
  have hname : c.rest.takeWhile isNameChar = name := congrArg Prod.fst hw
  have hc₁ : c₁ = c.past (c.rest.takeWhile isNameChar) (c.rest.dropWhile isNameChar) :=
    (congrArg Prod.snd hw).symm
  split at h
  · simp only [Except.ok.injEq, Prod.mk.injEq] at h
    rw [← h.2]
    exact Cursor.next_past hc
  · next hn =>
    split at h
    · simp at h
    · next v c'' hv =>
      simp only [Except.ok.injEq, Prod.mk.injEq] at h
      rw [← h.2]
      have hne : c.rest.takeWhile isNameChar ≠ [] := by simpa [hname] using hn
      have hp : c₁.Past c :=
        hc₁ ▸ Cursor.past_past List.takeWhile_append_dropWhile.symm hne
      exact ((readOptionalValue_within hv).trans (Cursor.skipBlanks_within _)).trans_past hp

namespace Supply

/-- Attaches directives whose markers stand in place of an attribute name. -/
def attachBare (path : Path) (start pos : Nat) :
    List Segment → Supply → Except Error Supply
  | [], s => .ok s
  | .text _ :: _, _ => .error (.markup start "attribute names cannot be interpolated")
  | .marker index :: rest, s =>
    match s.take pos index with
    | .error e => .error e
    | .ok (.binding _, _) => .error (.markup start "bindings need an attribute name")
    | .ok (.directive d, s) => attachBare path start pos rest (s.place path d)

/-- The pieces of a value that mixes text and markers, as expressions, and whether one of them
is volatile. -/
def mix (start pos : Nat) :
    List Segment → Supply → Except Error (List Expr × Bool × Supply)
  | [], s => .ok ([], false, s)
  | .text cs :: rest, s =>
    (mix start pos rest s).map fun (parts, isVolatile, s) =>
      (.literal (.text (String.ofList (Text.decode cs))) :: parts, isVolatile, s)
  | .marker index :: rest, s =>
    match s.take pos index with
    | .error e => .error e
    | .ok (.directive _, _) => .error (.markup start "directives cannot be mixed with text")
    | .ok (.binding b, s) =>
      (mix start pos rest s).map fun (parts, isVolatile, s) =>
        (b.evaluator :: parts, b.isVolatile || isVolatile, s)

/-- **Attaching.** Makes an attribute, or a directive at `path`, of what was read. `pos` is
where reading stands behind it. -/
def attach (s : Supply) (path : Path) (pos : Nat) (raw : RawAttribute)
    (attributes : Keyed String) : Except Error (Keyed String × Supply) :=
  if raw.name.contains markerOpen then
    match segments raw.name with
    | .error e => .error e
    | .ok names => (s.attachBare path raw.start pos names).map fun s => (attributes, s)
  else
    match segments raw.value with
    | .error e => .error e
    | .ok values =>
      let name := String.ofList raw.name
      let aspect := Aspect.ofAttributeName name
      match values with
      | [.marker index] =>
        match s.take pos index with
        | .error e => .error e
        | .ok (.binding b, s) => .ok (attributes, s.place path (.bind b aspect))
        | .ok (.directive d, s) => .ok (attributes, s.place path d)
      | _ =>
        if values.any Segment.isMarker then
          match aspect with
          | .event _ => .error (.markup raw.start "event bindings cannot be mixed with text")
          | _ =>
            (s.mix raw.start pos values).map fun (parts, isVolatile, s) =>
              let joined : Binding := { Binding.ofExpr (.cat parts) with isVolatile }
              (attributes, s.place path (.bind joined aspect))
        else
          .ok (attributes.put name (String.ofList (Text.decode raw.value)), s)

end Supply

end ReactiveViews.Markup
