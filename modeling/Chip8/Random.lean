/-!
# Random sources

An endless run of bytes and how many of them have been taken. Nothing but
`next` takes one, so what a program drew is a prefix of the run.
-/

namespace Chip8

/-- A run of random bytes, read from the front. -/
structure RandomSource where
  /-- The byte at each place of the run. -/
  byte : Nat → UInt8
  /-- How many bytes have been taken. -/
  drawn : Nat := 0

namespace RandomSource

/-- Take the next byte. -/
def next (s : RandomSource) : UInt8 × RandomSource :=
  (s.byte s.drawn, { s with drawn := s.drawn + 1 })

/-- The source that gives a list of bytes over and over. -/
def cycling (bytes : List UInt8) : RandomSource :=
  let values := bytes.toArray
  { byte := fun i => values.getD (i % values.size) 0 }

end RandomSource

end Chip8
