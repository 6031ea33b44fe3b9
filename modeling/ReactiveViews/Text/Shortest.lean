/-!
# Shortest decimals

A number is shown with the fewest digits that still identify it. A finite
double stands for every real that rounds to it, so the digits to show are those
of a decimal in that interval with as few digits as possible, and of those the
nearest to the double itself.

The selection is exact: the double is `m * 2 ^ q`, and a decimal
`digits * 10 ^ exponent` is compared with the ends of the interval by cross
multiplication of natural numbers. `positional` lays the digits out without an
exponent, however large or small the number is.
-/

namespace ReactiveViews.Text

/-- **Binary value.** A finite non-negative double: `m * 2 ^ q`. -/
structure Binary where
  m : Nat
  q : Int
  /-- The gap below is half the gap above, as at a power of two. -/
  narrowBelow : Bool

/-- The magnitude that the bits of a finite double encode. -/
def Binary.ofBits (bits : UInt64) : Binary :=
  let exponent := ((bits >>> 52) &&& 0x7FF).toNat
  let fraction := (bits &&& 0xFFFFFFFFFFFFF).toNat
  if exponent == 0 then ⟨fraction, -1074, false⟩
  else ⟨0x10000000000000 + fraction, (exponent : Int) - 1075, fraction == 0 && 1 < exponent⟩

/-- **Decimal value.** `digits * 10 ^ exponent`. -/
structure Decimal where
  digits : Nat
  exponent : Int
deriving Repr, DecidableEq

/-- Compares `a * 10 ^ i` with `n * 2 ^ j`. -/
def compareScaled (a : Nat) (i : Int) (n : Nat) (j : Int) : Ordering :=
  compare (a * Nat.pow 10 i.toNat * Nat.pow 2 (-j).toNat)
    (n * Nat.pow 2 j.toNat * Nat.pow 10 (-i).toNat)

/-- The decimal lies among the reals that round to `x`: halfway to the neighbours on both
sides, the ends included exactly when `m` is even. -/
def Binary.identifiedBy (x : Binary) (d : Decimal) : Bool :=
  let low := if x.narrowBelow then 4 * x.m - 1 else 4 * x.m - 2
  let high := 4 * x.m + 2
  let closed := x.m % 2 == 0
  let below := compareScaled d.digits d.exponent low (x.q - 2)
  let above := compareScaled d.digits d.exponent high (x.q - 2)
  (below == .gt || (closed && below == .eq)) && (above == .lt || (closed && above == .eq))

/-- The least `k`, counting up from `k`, with `m * 2 ^ q < 10 ^ k`; at most `steps` are tried. -/
def Binary.scaleFrom (x : Binary) : Nat → Int → Int
  | 0, k => k
  | steps + 1, k =>
    if compareScaled 1 k x.m x.q == .gt then k else x.scaleFrom steps (k + 1)

/-- The least `k` with `m * 2 ^ q < 10 ^ k`. The bit length gives a start that is at most a
few steps too small, since `0.30103` is just above the logarithm of two. -/
def Binary.scale (x : Binary) : Int :=
  let bits : Int := (Nat.log2 x.m : Int) + x.q
  x.scaleFrom 8 (Int.fdiv (bits * 30103) 100000 - 1)

/-- The decimal that identifies `x` on the grid of multiples of `10 ^ exponent`, if any does:
the grid point below `x` or the one above, whichever is nearer, and the upper one of two that
are equally near. -/
def Binary.onGrid? (x : Binary) (exponent : Int) : Option Decimal :=
  let num := x.m * Nat.pow 2 x.q.toNat * Nat.pow 10 (-exponent).toNat
  let den := Nat.pow 2 (-x.q).toNat * Nat.pow 10 exponent.toNat
  let floor := num / den
  let lower : Decimal := ⟨floor, exponent⟩
  let upper : Decimal := ⟨floor + 1, exponent⟩
  match x.identifiedBy lower, x.identifiedBy upper with
  | true, true => some (if 2 * num < (2 * floor + 1) * den then lower else upper)
  | true, false => some lower
  | false, true => some upper
  | false, false => none

/-- The first grid, from `10 ^ exponent` to finer ones, that holds a decimal identifying `x`.
Seventeen digits always suffice; if none is found the value itself is the answer. -/
def Binary.search (x : Binary) : Nat → Int → Decimal
  | 0, _ => ⟨x.m * Nat.pow 2 x.q.toNat * Nat.pow 5 (-x.q).toNat, -((-x.q).toNat : Int)⟩
  | grids + 1, exponent =>
    match x.onGrid? exponent with
    | some d => d
    | none => x.search grids (exponent - 1)

/-- Moves trailing zeros of the digits into the exponent; at most `steps` are moved. -/
def Decimal.strip : Nat → Decimal → Decimal
  | 0, d => d
  | steps + 1, d =>
    if d.digits ≠ 0 ∧ d.digits % 10 = 0 then strip steps ⟨d.digits / 10, d.exponent + 1⟩ else d

/-- **The fewest digits.** The nearest to `x` of the shortest decimals that identify it. -/
def Binary.shortest (x : Binary) : Decimal :=
  if x.m = 0 then ⟨0, 0⟩ else (x.search 17 (x.scale - 1)).strip 20

/-- **Positional layout.** All digits are written out: zeros are appended for a positive
exponent, and a point is set for a negative one. -/
def Decimal.positional (d : Decimal) : String :=
  let digits := (Nat.repr d.digits).toList
  if 0 ≤ d.exponent then
    String.ofList (digits ++ List.replicate d.exponent.toNat '0')
  else
    let places := (-d.exponent).toNat
    let padded := List.replicate (places + 1 - digits.length) '0' ++ digits
    let split := padded.length - places
    String.ofList (padded.take split ++ '.' :: padded.drop split)

/-- A finite number with the fewest digits that identify it, its sign kept even for zero. -/
def showFinite (x : Float) : String :=
  let bits := x.toBits
  let text := (Binary.ofBits bits).shortest.positional
  if bits >>> 63 == 1 then "-" ++ text else text

end ReactiveViews.Text
