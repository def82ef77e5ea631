import Chip8.Random

/-!
# Seeded random bytes

The keystream of ChaCha with twelve rounds under a key spread from a 64-bit
seed. Every byte is the low byte of one output word, and each is computed from
the seed and its place alone: the keystream is random access.
-/

namespace Chip8.ChaCha

/-- The sixteen words a block is computed from, and those it consists of. -/
abbrev Block := Vector UInt32 16

/-- Turn the bits of a word to the left. -/
def rotateLeft (x : UInt32) (count : UInt32) : UInt32 :=
  (x <<< count) ||| (x >>> (32 - count))

/-- Mix four words of a block. -/
def quarterRound (a b c d : Fin 16) (s : Block) : Block :=
  let s := s.set a (s[a] + s[b])
  let s := s.set d (rotateLeft (s[d] ^^^ s[a]) 16)
  let s := s.set c (s[c] + s[d])
  let s := s.set b (rotateLeft (s[b] ^^^ s[c]) 12)
  let s := s.set a (s[a] + s[b])
  let s := s.set d (rotateLeft (s[d] ^^^ s[a]) 8)
  let s := s.set c (s[c] + s[d])
  s.set b (rotateLeft (s[b] ^^^ s[c]) 7)

/-- Mix the columns of a block, then its diagonals. -/
def doubleRound (s : Block) : Block :=
  let s := quarterRound 0 4 8 12 s
  let s := quarterRound 1 5 9 13 s
  let s := quarterRound 2 6 10 14 s
  let s := quarterRound 3 7 11 15 s
  let s := quarterRound 0 5 10 15 s
  let s := quarterRound 1 6 11 12 s
  let s := quarterRound 2 7 8 13 s
  quarterRound 3 4 9 14 s

/-- Apply a function some number of times. -/
def times (f : Block → Block) : Nat → Block → Block
  | 0, s => s
  | n + 1, s => times f n (f s)

/-- The state a key gives the seed generator for its next word. -/
def advanceSeed (s : UInt64) : UInt64 := s * 6364136223846793005 + 11634580027462260723

/-- The word a state of the seed generator gives out. -/
def seedWord (s : UInt64) : UInt32 :=
  let mixed : UInt32 := (((s >>> 18) ^^^ s) >>> 27).toUInt32
  let turn : UInt32 := (s >>> 59).toUInt32
  (mixed >>> turn) ||| (mixed <<< ((32 - turn) % 32))

/-- The words of the key spread from a seed. -/
def keyWords (count : Nat) (s : UInt64) : List UInt32 :=
  match count with
  | 0 => []
  | n + 1 => seedWord (advanceSeed s) :: keyWords n (advanceSeed s)

/-- What a block is computed from: constants, key, and its number. -/
def initial (seed : UInt64) (number : Nat) : Block :=
  let key := (keyWords 8 seed).toArray
  let constants : Vector UInt32 4 := #v[0x61707865, 0x3320646e, 0x79622d32, 0x6b206574]
  Vector.ofFn fun i =>
    if h : i.val < 4 then constants[i.val]
    else if i.val < 12 then key.getD (i.val - 4) 0
    else if i.val = 12 then UInt32.ofNat number
    else if i.val = 13 then UInt32.ofNat (number / 4294967296)
    else 0

/-- The words of the keystream block with a given number. -/
def block (seed : UInt64) (number : Nat) : Block :=
  let start := initial seed number
  (times doubleRound 6 start).zipWith (· + ·) start

/-- The byte at a place of the keystream. -/
def byte (seed : UInt64) (place : Nat) : UInt8 :=
  have hWord : place % 16 < 16 := Nat.mod_lt _ (by decide)
  ((block seed (place / 16))[place % 16]).toUInt8

end Chip8.ChaCha

namespace Chip8

/-- The source that a seed gives. -/
def RandomSource.seeded (seed : UInt64) : RandomSource := { byte := ChaCha.byte seed }

end Chip8
