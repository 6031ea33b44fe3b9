/-!
# Reading numerals

Two readers. `readNatural` reads the whole numbers that stand in character
references, interpolation markers and target paths: digits of a base, at least
one, with an optional plus sign, and a bound that the value must stay below.
`readDecimal` reads a floating-point number from decimal text.
-/

namespace ReactiveViews.Text

/-- The value of a digit, up to base thirty-six, in either case. -/
def digitValue? (c : Char) : Option Nat :=
  if '0' ≤ c ∧ c ≤ '9' then some (c.toNat - '0'.toNat)
  else if 'a' ≤ c ∧ c ≤ 'z' then some (c.toNat - 'a'.toNat + 10)
  else if 'A' ≤ c ∧ c ≤ 'Z' then some (c.toNat - 'A'.toNat + 10)
  else none

/-- Reads the digits of a base after the value `acc` of those already read. -/
def readDigits (base acc : Nat) : List Char → Option Nat
  | [] => some acc
  | c :: rest =>
    match digitValue? c with
    | some d => if d < base then readDigits base (acc * base + d) rest else none
    | none => none

/-- **Whole numbers.** One or more digits of `base`, after at most one plus sign, whose
value is below `bound`. -/
def readNatural (base bound : Nat) (text : List Char) : Option Nat :=
  let digits := match text with
    | '+' :: rest => rest
    | other => other
  if digits.isEmpty then none
  else (readDigits base 0 digits).filter (· < bound)

/-- Whole numbers that fit a machine word of sixty-four bits, in base ten. -/
def readIndex (text : List Char) : Option Nat :=
  readNatural 10 0x10000000000000000 text

/-- The value and count of the leading decimal digits, and what follows them. -/
def takeDigits (acc count : Nat) : List Char → Nat × Nat × List Char
  | [] => (acc, count, [])
  | c :: rest =>
    if c.isDigit then takeDigits (acc * 10 + (c.toNat - '0'.toNat)) (count + 1) rest
    else (acc, count, c :: rest)

/-- The exponent part of a decimal: nothing, or `e` with an optionally signed whole number. -/
def readExponent : List Char → Option Int
  | [] => some 0
  | c :: rest =>
    if c == 'e' || c == 'E' then
      let (negative, digits) := match rest with
        | '-' :: r => (true, r)
        | '+' :: r => (false, r)
        | r => (false, r)
      match takeDigits 0 0 digits with
      | (value, count, []) =>
        if count == 0 then none else some (if negative then -(value : Int) else value)
      | _ => none
    else none

/-- An unsigned finite decimal. -/
def readMagnitude (text : List Char) : Option Float :=
  let (whole, wholeCount, rest) := takeDigits 0 0 text
  let (mantissa, places, rest) := match rest with
    | '.' :: r => takeDigits whole 0 r
    | r => (whole, 0, r)
  if wholeCount + places == 0 then none
  else (readExponent rest).map fun e =>
    let scale : Int := e - (places : Int)
    if scale < 0 then Float.ofScientific mantissa true scale.natAbs
    else Float.ofScientific mantissa false scale.natAbs

/-- **Floating-point numbers.** A decimal with optional sign, point and exponent, or one of
the words for infinity and the value that is no number. -/
def readDecimal (text : String) : Option Float :=
  let (negative, rest) := match text.toList with
    | '-' :: r => (true, r)
    | '+' :: r => (false, r)
    | r => (false, r)
  let word := String.ofList (rest.map Char.toLower)
  let magnitude :=
    if word == "nan" then some (0.0 / 0.0)
    else if word == "inf" || word == "infinity" then some (1.0 / 0.0)
    else readMagnitude rest
  magnitude.map fun m => if negative then -m else m

end ReactiveViews.Text
