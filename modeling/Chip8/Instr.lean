import Chip8.Word

/-!
# Instructions

What a word asks of the machine, with its operands taken out. The shifts act
on one register only, so they carry no second operand: the words that differ
in it are the same instruction.
-/

namespace Chip8

/-- One of the sixteen general registers `V0` to `VF`. -/
abbrev Reg := Fin 16

/-- `VF`, which takes the carry, borrow and collision flags. -/
def Reg.flag : Reg := ⟨15, by decide⟩

/-- `V0`, which jumps with an offset add to their target. -/
def Reg.offset : Reg := ⟨0, by decide⟩

/-- The operations that combine two registers into the first. -/
inductive AluOp where
  | copy
  | or
  | and
  | xor
  | add
  | sub
  /-- The second register minus the first. -/
  | subFrom
  deriving DecidableEq, Repr

/-- The instruction set. -/
inductive Instr where
  /-- Unset every pixel. -/
  | clear
  /-- Return from a subroutine. -/
  | ret
  /-- Go on at an address. -/
  | jump (target : UInt16)
  /-- Call the subroutine at an address. -/
  | call (target : UInt16)
  /-- Skip the next instruction if a register holds a value. -/
  | skipEqual (x : Reg) (value : UInt8)
  /-- Skip the next instruction if a register holds another value. -/
  | skipNotEqual (x : Reg) (value : UInt8)
  /-- Skip the next instruction if two registers are equal. -/
  | skipSame (x y : Reg)
  /-- Skip the next instruction if two registers differ. -/
  | skipDifferent (x y : Reg)
  /-- Put a value into a register. -/
  | set (x : Reg) (value : UInt8)
  /-- Add a value to a register, without a flag. -/
  | increase (x : Reg) (value : UInt8)
  /-- Combine two registers into the first. -/
  | alu (op : AluOp) (x y : Reg)
  /-- Halve a register; the flag is the bit that falls out. -/
  | shiftRight (x : Reg)
  /-- Double a register; the flag is its top bit, in place. -/
  | shiftLeft (x : Reg)
  /-- Put an address into the index register. -/
  | setIndex (address : UInt16)
  /-- Go on at an address plus `V0`. -/
  | jumpOffset (base : UInt16)
  /-- Put a random byte, masked, into a register. -/
  | random (x : Reg) (mask : UInt8)
  /-- Draw a sprite of the given height at the index, at coordinates in two registers. -/
  | draw (x y height : Fin 16)
  /-- Skip the next instruction if the key in a register is pressed. -/
  | skipPressed (x : Reg)
  /-- Skip the next instruction if the key in a register is not pressed. -/
  | skipReleased (x : Reg)
  /-- Read the delay timer. -/
  | readDelay (x : Reg)
  /-- Wait for a key and put it into a register. -/
  | awaitKey (x : Reg)
  /-- Set the delay timer. -/
  | setDelay (x : Reg)
  /-- Set the sound timer. -/
  | setSound (x : Reg)
  /-- Add a register to the index. -/
  | addIndex (x : Reg)
  /-- Point the index at the glyph of the digit in a register. -/
  | pointGlyph (x : Reg)
  /-- Store the three decimal digits of a register at the index. -/
  | storeDecimal (x : Reg)
  /-- Store `V0` up to a register at the index. -/
  | storeRegisters (x : Reg)
  /-- Load `V0` up to a register from the index. -/
  | loadRegisters (x : Reg)
  deriving DecidableEq, Repr

end Chip8
