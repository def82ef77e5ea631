import Chip8.Decimal

/-!
# The shortest decimal of a double

A double stands for all reals that round to it. `shortest?` finds, among the
decimals in that interval with the fewest digits, the one nearest to the double
itself; of two equally near it takes the larger.

The search is exact. The interval is kept as fractions over one denominator, and
for one, two, up to seventeen digits the two neighbours of the double on that
decimal grid are tried. If any point of a grid lies in the interval, so does
one of these neighbours, so the first hit has the fewest digits.
-/

namespace Chip8.Decimal

/-- The leading bit of a normal mantissa, which the fraction of a double leaves out. -/
def hiddenBit : Nat := Nat.pow 2 52

/-- The reals that round to a double: from `low` to `high` around `value`, each over
`denominator`, with the ends when `closed`. -/
structure RoundingInterval where
  low : Nat
  value : Nat
  high : Nat
  denominator : Nat
  closed : Bool

namespace RoundingInterval

/-- The interval of the double with the given fraction and exponent bits, both not zero
together. The gap below a power of two is half the gap above. -/
def ofBits (exponentBits fraction : Nat) : RoundingInterval :=
  let mantissa := if exponentBits = 0 then fraction else fraction + hiddenBit
  let power : Int := (if exponentBits = 0 then 1 else exponentBits : Nat) - 1077
  let below := if fraction = 0 ∧ 1 < exponentBits then 1 else 2
  let up := Nat.pow 2 power.toNat
  { low := (4 * mantissa - below) * up
    value := 4 * mantissa * up
    high := (4 * mantissa + 2) * up
    denominator := Nat.pow 2 (-power).toNat
    closed := mantissa % 2 == 0 }

/-- The same interval measured in units of a power of ten. -/
def inUnits (exponent : Int) (r : RoundingInterval) : RoundingInterval :=
  let up := Nat.pow 10 (-exponent).toNat
  { low := r.low * up
    value := r.value * up
    high := r.high * up
    denominator := r.denominator * Nat.pow 10 exponent.toNat
    closed := r.closed }

/-- Whether a whole number of units lies in the interval. -/
def contains (r : RoundingInterval) (units : Nat) : Bool :=
  let point := units * r.denominator
  if r.closed then r.low ≤ point && point ≤ r.high
  else r.low < point && point < r.high

/-- The better of the two whole numbers around the value, if one is in the interval. -/
def neighbour? (r : RoundingInterval) : Option Nat :=
  let floor := r.value / r.denominator
  let nearFloor := 2 * (r.value % r.denominator) < r.denominator
  match r.contains floor, r.contains (floor + 1) with
  | true, true => some (if nearFloor then floor else floor + 1)
  | true, false => some floor
  | false, true => some (floor + 1)
  | false, false => none

/-- The power of ten of the leading digit of the value. -/
def leadingExponent (r : RoundingInterval) : Int :=
  if r.denominator ≤ r.value then
    (Numeral.digits 10 (r.value / r.denominator)).length - 1
  else
    match (List.range 400).find? fun j => r.denominator ≤ r.value * Nat.pow 10 j with
    | some j => -j
    | none => 0

/-- The first grid with a point in the interval, coarse to fine. -/
def shortest? (r : RoundingInterval) : Option Decimal :=
  (List.range 17).findSome? fun (j : Nat) =>
    let exponent := r.leadingExponent - (j : Int)
    (r.inUnits exponent).neighbour?.map fun units => ⟨units, exponent⟩

end RoundingInterval

/-- A double in positional notation, with the fewest digits that read back as it. -/
def floatText (x : Float) : String :=
  let bits := x.toBits.toNat
  let exponentBits := bits / hiddenBit % 2048
  let fraction := bits % hiddenBit
  let magnitude : List Char :=
    if exponentBits = 0 ∧ fraction = 0 then ['0']
    else
      match (RoundingInterval.ofBits exponentBits fraction).shortest? with
      | some d => d.positional
      | none => []
  let sign := if bits / (hiddenBit * 2048) = 1 then "-" else ""
  if exponentBits = 2047 then
    if fraction = 0 then sign ++ "inf" else "NaN"
  else sign ++ String.ofList magnitude

end Chip8.Decimal
