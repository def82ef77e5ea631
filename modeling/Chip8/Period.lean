/-!
# Periods

The time between two ticks of a given frequency, to the nanosecond below. A
frequency of zero never ticks and is given the empty period.
-/

namespace Chip8

/-- A length of time. -/
structure Period where
  seconds : Nat
  nanoseconds : Nat
  deriving DecidableEq, Repr

namespace Period

/-- Nanoseconds in a second. -/
def perSecond : Nat := 1000000000

/-- A length of time given in nanoseconds. -/
def ofNanoseconds (t : Nat) : Period := ⟨t / perSecond, t % perSecond⟩

/-- The period of a frequency in hertz. -/
def ofHertz (frequency : Nat) : Period :=
  if frequency = 0 then ⟨0, 0⟩ else ofNanoseconds (perSecond / frequency)

/-- The whole period in nanoseconds. -/
def toNanoseconds (p : Period) : Nat := p.seconds * perSecond + p.nanoseconds

end Period

end Chip8
