import Chip8.Word

/-!
# Faults

The conditions a machine cannot go on from. Each one is a cause; its wording
is in `Fault.message` alone.
-/

namespace Chip8

/-- The largest program, in bytes, that is accepted for loading. -/
def maxProgramSize : Nat := 3583

/-- Why the machine refuses to go on. -/
inductive Fault where
  /-- A program of this size is empty or too large; size zero also says that none is loaded. -/
  | invalidProgram (size : Nat)
  /-- A subroutine call with sixteen return addresses already held. -/
  | stackOverflow
  /-- A return with no return address held. -/
  | stackUnderflow
  /-- A word that no instruction has, and where it stood. -/
  | unknownOpcode (word : Word) (address : UInt16)
  deriving DecidableEq, Repr

/-- The text shown for a fault. -/
def Fault.message : Fault → String
  | .invalidProgram size =>
      "invalid program: size must be between 1 and " ++ Numeral.decimal maxProgramSize ++
        " bytes, got " ++ Numeral.decimal size
  | .stackOverflow => "call stack overflow"
  | .stackUnderflow => "call stack underflow"
  | .unknownOpcode word address =>
      "unknown opcode " ++ word.hex ++ " at " ++ Numeral.hex 4 address.toNat

/-- Programs of one up to `maxProgramSize` bytes can be loaded. -/
def isProgramSize (size : Nat) : Bool := 1 ≤ size && size ≤ maxProgramSize

end Chip8
