import Chip8.Numeral

/-!
# Decimal numbers

A coefficient and a power of ten. `positional` writes it without an exponent
and without a fractional part that is zero; `toFloat` gives the nearest double.
-/

namespace Chip8

/-- The number `coefficient * 10 ^ exponent`. -/
structure Decimal where
  coefficient : Nat
  exponent : Int
  deriving DecidableEq, Repr

namespace Decimal

/-- Drop zeros from the right end of a run of digits. -/
def trimZeros (cs : List Char) : List Char := (cs.reverse.dropWhile (· == '0')).reverse

/-- The number in positional notation: all digits before the point, and after it
as many as are needed. -/
def positional (d : Decimal) : List Char :=
  if 0 ≤ d.exponent then
    Numeral.digits 10 (d.coefficient * Nat.pow 10 d.exponent.toNat)
  else
    let places := (-d.exponent).toNat
    let unit := Nat.pow 10 places
    let whole := Numeral.digits 10 (d.coefficient / unit)
    match trimZeros (Numeral.padded 10 places (d.coefficient % unit)) with
    | [] => whole
    | fraction => whole ++ '.' :: fraction

/-- Powers of ten from here on are beyond every double. -/
def largestExponent : Int := 310

/-- The double nearest to the number; infinite when it is too large.

Numbers whose leading digit is far outside the range of doubles are settled by
its place alone, so that no huge power is computed. -/
def toFloat (d : Decimal) : Float :=
  let leading : Int := d.exponent + (Numeral.digits 10 d.coefficient).length
  if d.coefficient = 0 then 0
  else if leading < -400 then 0
  else if largestExponent < leading then 1 / 0
  else Float.ofScientific d.coefficient (d.exponent < 0) d.exponent.natAbs

end Decimal

end Chip8
