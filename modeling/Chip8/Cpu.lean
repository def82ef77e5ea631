import Chip8.CallStack
import Chip8.Instr
import Chip8.Memory

/-!
# The processor

Registers, timers, call stack and memory, and the operations on them that need
neither devices nor random numbers. The program counter and the index are full
16-bit words: they wrap at sixteen bits, while memory takes them modulo its size.
-/

namespace Chip8

/-- The state of the processor. -/
structure Cpu where
  /-- Where the next instruction is fetched. -/
  pc : UInt16 := UInt16.ofNat programStart
  /-- The registers `V0` to `VF`. -/
  registers : Vector UInt8 16 := Vector.replicate 16 0
  /-- The index register `I`, an address for block operations and sprites. -/
  index : UInt16 := 0
  /-- Counts down to zero, once a frame. -/
  delay : UInt8 := 0
  /-- Counts down to zero, once a frame; the buzzer sounds until it gets there. -/
  sound : UInt8 := 0
  /-- The register a key is awaited for. -/
  wait : Option Reg := none
  memory : Memory := .powerOn
  stack : CallStack := .empty
  deriving DecidableEq

namespace Cpu

/-- The state before any program is loaded. -/
def powerOn : Cpu := {}

/-- The state with a program just loaded. -/
def loaded (program : List UInt8) : Cpu := { memory := .ofProgram program }

/-! ## Registers -/

/-- The value of a register. -/
def reg (x : Reg) (c : Cpu) : UInt8 := c.registers[x]

/-- Put a value into a register. -/
def setReg (x : Reg) (value : UInt8) (c : Cpu) : Cpu :=
  { c with registers := c.registers.set x value }

@[simp] theorem reg_setReg_self (x : Reg) (value : UInt8) (c : Cpu) :
    (c.setReg x value).reg x = value := by
  simp [reg, setReg]

theorem reg_setReg_ne {x y : Reg} (hNe : x ≠ y) (value : UInt8) (c : Cpu) :
    (c.setReg x value).reg y = c.reg y := by
  have hVal : x.val ≠ y.val := fun h => hNe (Fin.ext h)
  simp [reg, setReg, hVal]

/-- Put a flag into `VF` and then a result into a register. In `VF` the result wins. -/
def setFlagged (x : Reg) (flag result : UInt8) (c : Cpu) : Cpu :=
  (c.setReg Reg.flag flag).setReg x result

/-! ## Control -/

/-- Go past one instruction. -/
def advance (c : Cpu) : Cpu := { c with pc := c.pc + 2 }

/-- Go past the next instruction if the condition holds. -/
def skipIf (condition : Bool) (c : Cpu) : Cpu := if condition then c.advance else c

/-- Go on at an address. -/
def jump (target : UInt16) (c : Cpu) : Cpu := { c with pc := target }

/-- Keep the program counter on the stack and go on at an address. -/
def call (target : UInt16) (c : Cpu) : Except Fault Cpu :=
  match c.stack.push c.pc with
  | .ok stack => .ok { c with pc := target, stack }
  | .error fault => .error fault

/-- Go on at the address on top of the stack. -/
def ret (c : Cpu) : Except Fault Cpu :=
  match c.stack.pop with
  | .ok (address, stack) => .ok { c with pc := address, stack }
  | .error fault => .error fault

/-! ## Timers -/

/-- One less, but not below zero. -/
def countDown (t : UInt8) : UInt8 := if t = 0 then 0 else t - 1

/-- Count both timers down. -/
def tick (c : Cpu) : Cpu :=
  { c with delay := countDown c.delay, sound := countDown c.sound }

/-! ## Blocks of memory at the index -/

/-- The cells from the index on, as many as asked for. -/
def indexed (count : Nat) (c : Cpu) : List UInt8 := c.memory.slice c.index.toNat count

/-- Put bytes into the cells from the index on. -/
def storeIndexed (values : List UInt8) (c : Cpu) : Cpu :=
  { c with memory := c.memory.storeAll c.index.toNat values }

/-- The bytes that `storeIndexed` leaves out, with their cells. -/
def droppedFrom (values : List UInt8) (c : Cpu) : List (UInt8 × Nat) :=
  Memory.protectedIn c.index.toNat values

/-- Fill `V0` up to a register from the cells from the index on. -/
def loadIndexed (x : Reg) (c : Cpu) : Cpu :=
  { c with
    registers := Vector.ofFn fun k =>
      if k.val ≤ x.val then c.memory.read (c.index.toNat + k.val) else c.reg k }

/-- The values of `V0` up to a register. -/
def firstRegisters (x : Reg) (c : Cpu) : List UInt8 := c.registers.toList.take (x.val + 1)

/-! ## Text -/

/-- The registers as two lines of text. -/
def dump (c : Cpu) : String :=
  let general := (List.finRange 16).map fun x =>
    Numeral.hex 1 x.val ++ "=" ++ Numeral.hex 2 (c.reg x).toNat ++ " "
  String.join (general.map ("V" ++ ·)) ++ "\n" ++
    "I=" ++ Numeral.hex 4 c.index.toNat ++
    " PC=" ++ Numeral.hex 4 c.pc.toNat ++
    " DT=" ++ Numeral.hex 2 c.delay.toNat ++
    " ST=" ++ Numeral.hex 2 c.sound.toNat ++
    " SP=" ++ Numeral.decimal c.stack.depth

end Cpu

end Chip8
