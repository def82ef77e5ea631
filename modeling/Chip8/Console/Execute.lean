import Chip8.Console
import Chip8.Instr.Decode
import Chip8.Sprite

/-!
# Executing one word

The program counter goes past the word first, so that jumps and skips act on
the next fetch directly. Then the word is decoded and its instruction carried
out; a word that is no instruction is a fault that names where it stood.

A fault changes nothing but the program counter: the operations that can fail
do so before they write anything.
-/

namespace Chip8

/-- The result of combining two values, and the flag it raises if it has one. -/
def AluOp.eval : AluOp → UInt8 → UInt8 → Option Bool × UInt8
  | .copy, _, b => (none, b)
  | .or, a, b => (none, a ||| b)
  | .and, a, b => (none, a &&& b)
  | .xor, a, b => (none, a ^^^ b)
  | .add, a, b => (some (256 ≤ a.toNat + b.toNat), a + b)
  | .sub, a, b => (some (b < a), a - b)
  | .subFrom, a, b => (some (a < b), b - a)

/-- A flag as the value it has in a register. -/
def flagValue (flag : Bool) : UInt8 := if flag then 1 else 0

/-- The digits of a byte in decimal: hundreds, tens and ones. -/
def decimalDigits (value : UInt8) : List UInt8 := [value / 100, value / 10 % 10, value % 10]

namespace Cpu

/-- Where the pixels are that a sprite at the index would flip. -/
def spritePixels (x y height : Fin 16) (c : Cpu) : List (Nat × Nat) :=
  Sprite.pixelsAt (c.reg x).toNat (c.reg y).toNat (c.indexed height.val)

/-- Combine two registers into the first. -/
def combine (op : AluOp) (x y : Reg) (c : Cpu) : Cpu :=
  match op.eval (c.reg x) (c.reg y) with
  | (none, result) => c.setReg x result
  | (some flag, result) => c.setFlagged x (flagValue flag) result

end Cpu

namespace Console

variable {δ : Type}

/-- End well, with the state reached. -/
def done (flow : Flow) (c : Console δ) : Outcome (Console δ) Flow :=
  { result := .ok flow, state := c }

/-- End with a fault, in the state reached. -/
def fail (fault : Fault) (c : Console δ) : Outcome (Console δ) Flow :=
  { result := .error fault, state := c }

/-- Act on the processor alone and end well. -/
def update (flow : Flow) (f : Cpu → Cpu) (c : Console δ) : Outcome (Console δ) Flow :=
  done flow (c.mapCpu f)

/-- Go where a processor operation leads that can fail. -/
def transfer (f : Cpu → Except Fault Cpu) (c : Console δ) : Outcome (Console δ) Flow :=
  match f c.machine.cpu with
  | .ok cpu => done .jump { c with machine := { c.machine with cpu } }
  | .error fault => fail fault c

/-- Store bytes at the index and report those that the font refuses. -/
def storeBlock (values : List UInt8) (c : Console δ) : Outcome (Console δ) Flow :=
  { result := .ok .proceed
    records := ((c.machine.cpu.droppedFrom values).map fun (value, address) =>
      Record.dropped value address).toArray
    state := c.mapCpu (·.storeIndexed values) }

/-- Put a random byte, masked, into a register. -/
def drawRandom (x : Reg) (mask : UInt8) (c : Console δ) : Console δ :=
  let drawn := c.machine.random.next
  { c with machine := { c.machine with
      random := drawn.2
      cpu := c.machine.cpu.setReg x (mask &&& drawn.1) } }

variable [Devices δ]

/-- Ask whether the key whose number is in a register is down. A number that names no key
is not asked for, and is never down. -/
def poll (x : Reg) (c : Console δ) : Bool × Console δ :=
  if h : (c.machine.cpu.reg x).toNat < 16 then
    let answer := Devices.pressed ⟨(c.machine.cpu.reg x).toNat, h⟩ c.devices
    (answer.1, { c with devices := answer.2 })
  else (false, c)

/-- Skip the next instruction if the key in a register is down, or is not, as `wanted`. -/
def skipOnKey (x : Reg) (wanted : Bool) (c : Console δ) : Outcome (Console δ) Flow :=
  let asked := c.poll x
  asked.2.update .proceed (·.skipIf (asked.1 == wanted))

/-- Draw the sprite at the index; the flag says whether any pixel was erased. -/
def drawSprite (x y height : Fin 16) (c : Console δ) : Outcome (Console δ) Flow :=
  let drawn := Devices.toggleAll (c.machine.cpu.spritePixels x y height) c.devices
  update .draw (·.setReg Reg.flag (flagValue drawn.1)) { c with devices := drawn.2 }

end Console

open Console

/-- Carry out an instruction, with the program counter already past it. -/
def Instr.perform {δ : Type} [Devices δ] (instr : Instr) (c : Console δ) :
    Outcome (Console δ) Flow :=
  match instr with
  | .clear => done .clear { c with devices := Devices.clear c.devices }
  | .ret => c.transfer Cpu.ret
  | .jump target => c.update .jump (·.jump target)
  | .call target => c.transfer (Cpu.call target)
  | .skipEqual x value => c.update .proceed fun cpu => cpu.skipIf (cpu.reg x == value)
  | .skipNotEqual x value => c.update .proceed fun cpu => cpu.skipIf (cpu.reg x != value)
  | .skipSame x y => c.update .proceed fun cpu => cpu.skipIf (cpu.reg x == cpu.reg y)
  | .skipDifferent x y => c.update .proceed fun cpu => cpu.skipIf (cpu.reg x != cpu.reg y)
  | .set x value => c.update .proceed (·.setReg x value)
  | .increase x value => c.update .proceed fun cpu => cpu.setReg x (cpu.reg x + value)
  | .alu op x y => c.update .proceed (·.combine op x y)
  | .shiftRight x =>
      c.update .proceed fun cpu => cpu.setFlagged x (cpu.reg x % 2) (cpu.reg x / 2)
  | .shiftLeft x =>
      c.update .proceed fun cpu => cpu.setFlagged x (cpu.reg x / 128 * 128) (cpu.reg x * 2)
  | .setIndex address => c.update .proceed fun cpu => { cpu with index := address }
  | .jumpOffset base =>
      c.update .jump fun cpu =>
        cpu.jump (UInt16.ofNat ((base.toNat + (cpu.reg Reg.offset).toNat) % memorySize))
  | .random x mask => done .proceed (c.drawRandom x mask)
  | .draw x y height => c.drawSprite x y height
  | .skipPressed x => c.skipOnKey x true
  | .skipReleased x => c.skipOnKey x false
  | .readDelay x => c.update .proceed fun cpu => cpu.setReg x cpu.delay
  | .awaitKey x =>
      { c.update .keyWait fun cpu => { cpu with wait := some x } with records := #[.waiting x] }
  | .setDelay x => c.update .proceed fun cpu => { cpu with delay := cpu.reg x }
  | .setSound x => c.update .sound fun cpu => { cpu with sound := cpu.reg x }
  | .addIndex x =>
      c.update .proceed fun cpu => { cpu with index := cpu.index + (cpu.reg x).toUInt16 }
  | .pointGlyph x =>
      c.update .proceed fun cpu =>
        { cpu with index := UInt16.ofNat (Font.glyphHeight * (cpu.reg x).toNat) }
  | .storeDecimal x => c.storeBlock (decimalDigits (c.machine.cpu.reg x))
  | .storeRegisters x => c.storeBlock (c.machine.cpu.firstRegisters x)
  | .loadRegisters x => c.update .proceed (·.loadIndexed x)

namespace Console

variable {δ : Type} [Devices δ]

/-- Refuse a word that is no instruction. In the family of the keypad tests the keypad is
asked before the test is looked at. -/
def refuse (w : Word) (address : UInt16) (c : Console δ) : Outcome (Console δ) Flow :=
  let asked := if w.family.val = 0xE then (c.poll w.x).2 else c
  fail (.unknownOpcode w address) asked

/-- Execute a word, whether or not the machine has a program, waits or has halted. -/
def execute (w : Word) (c : Console δ) : Outcome (Console δ) Flow :=
  match Instr.ofWord? w with
  | some instr => instr.perform (c.mapCpu Cpu.advance)
  | none => refuse w c.machine.cpu.pc (c.mapCpu Cpu.advance)

end Console

end Chip8
