import Chip8.Console.Operation
import Chip8.Proofs.Board.Checked

/-!
# The interpreter on bare arrays

The machine with nothing in its types to keep it safe: registers, memory, call
stack and pixels are arrays, registers and stack slots are numbered by `Nat`,
the fields of a word are cut out by masks and shifts, and the keypad is a mask.
Every access, every sum that does not wrap by intent and every shift by a
variable amount is checked, and a check that fails is a `Crash`.

This is the machine as it is laid out where arrays end and sums overflow. That
it never crashes, and does what a `Console` does, is proved in
`Chip8.Proofs.Board.Agreement`.
-/

namespace Chip8

open Checked

/-! ## Fields of a word -/

namespace Field

/-- The first nibble. -/
def family (w : Word) : Nat := ((w &&& 0xF000) >>> 12).toNat

/-- The second nibble. -/
def x (w : Word) : Nat := ((w &&& 0x0F00) >>> 8).toNat

/-- The third nibble. -/
def y (w : Word) : Nat := ((w &&& 0x00F0) >>> 4).toNat

/-- The last nibble. -/
def n (w : Word) : Nat := (w &&& 0x000F).toNat

/-- The low byte. -/
def kk (w : Word) : UInt8 := (w &&& 0x00FF).toUInt8

/-- The low twelve bits. -/
def nnn (w : Word) : UInt16 := w &&& 0x0FFF

end Field

/-! ## Devices -/

/-- Devices whose pixels and keys may be looked up out of range. -/
class CheckedDevices (ε : Type) where
  toggle : Nat → Nat → ε → Checked (Bool × ε)
  clear : ε → ε
  pressed : Key → ε → Checked (Bool × ε)
  toneOn : Float → ε → ε
  toneOff : ε → ε

/-- Devices of someone else's making, taken not to crash. -/
instance Devices.checked {δ : Type} [Devices δ] : CheckedDevices δ where
  toggle x y d := .ok (Devices.toggle x y d)
  clear := Devices.clear
  pressed key d := .ok (Devices.pressed key d)
  toneOn := Devices.toneOn
  toneOff := Devices.toneOff

/-- The devices in memory on bare arrays. -/
structure Panel where
  pixels : Array Bool
  /-- The keys that are down, key `k` at bit `k`. -/
  keys : UInt16
  tone : Option Float

namespace Panel

/-- Where the pixel at a coordinate is kept. -/
def position (x y : Nat) : Checked Nat := do
  let row ← mulSize (y &&& 31) 64
  addSize (x &&& 63) row

/-- Flip a pixel, and say whether that erased it. -/
def toggle (x y : Nat) (p : Panel) : Checked (Bool × Panel) := do
  let i ← position x y
  let old ← read p.pixels i
  let pixels ← write p.pixels i (!old)
  return (old, { p with pixels })

/-- Whether a key is down. -/
def isPressed (key : Key) (p : Panel) : Checked Bool := do
  let bit ← shiftLeft16 1 key.val
  return decide (p.keys &&& bit > 0)

/-- Move a key down or up. -/
def setKey (key : Key) (pressed : Bool) (p : Panel) : Checked Panel := do
  let bit ← shiftLeft16 1 key.val
  return { p with keys := if pressed then p.keys ||| bit else p.keys &&& ~~~bit }

end Panel

instance : CheckedDevices Panel where
  toggle := Panel.toggle
  clear p := { p with pixels := Array.replicate p.pixels.size false }
  pressed key p := do return (← p.isPressed key, p)
  toneOn frequency p := { p with tone := some frequency }
  toneOff p := { p with tone := none }

/-! ## The machine -/

/-- A machine laid out in arrays. -/
structure Board where
  pc : UInt16
  registers : Array UInt8
  index : UInt16
  delay : UInt8
  sound : UInt8
  wait : Option Nat
  memory : Array UInt8
  slots : Array UInt16
  depth : Nat
  random : RandomSource
  conf : Conf
  hasProgram : Bool
  trap : Option Fault

namespace Board

/-- The value of a register. -/
def getReg (r : Nat) (b : Board) : Checked UInt8 := read b.registers r

/-- Put a value into a register. -/
def setReg (r : Nat) (value : UInt8) (b : Board) : Checked Board := do
  return { b with registers := ← write b.registers r value }

/-- The byte at an address. -/
def loadByte (address : Nat) (b : Board) : Checked UInt8 := read b.memory (address &&& 4095)

/-- Put a byte at an address, unless a glyph is there. -/
def storeByte (address : Nat) (value : UInt8) (b : Board) : Checked Board :=
  let cell := address &&& 4095
  if cell < Font.size then return b
  else do return { b with memory := ← write b.memory cell value }

/-- The word at the program counter. -/
def fetch (b : Board) : Checked Word := do
  let high ← b.loadByte b.pc.toNat
  let next ← addSize b.pc.toNat 1
  let low ← b.loadByte next
  return Word.ofBytes high low

/-- Put an address on top of the stack; a full stack takes none. -/
def push (address : UInt16) (b : Board) : Checked (Except Fault Board) :=
  if b.depth = stackSize then return .error .stackOverflow
  else do
    let slots ← write b.slots b.depth address
    let depth ← addSize b.depth 1
    return .ok { b with slots, depth }

/-- Take the newest address off the stack; an empty stack has none. -/
def pop (b : Board) : Checked (Except Fault (UInt16 × Board)) :=
  if b.depth = 0 then return .error .stackUnderflow
  else do
    let depth ← subSize b.depth 1
    let address ← read b.slots depth
    return .ok (address, { b with depth })

/-- Go past one instruction. -/
def skip (b : Board) : Board := { b with pc := b.pc + 2 }

/-- Go past the next instruction if the condition holds. -/
def skipIf (condition : Bool) (b : Board) : Board := if condition then b.skip else b

/-- Count both timers down. -/
def tick (b : Board) : Board :=
  { b with delay := Cpu.countDown b.delay, sound := Cpu.countDown b.sound }

/-! ### Loading -/

/-- Put the glyphs into the lowest cells. -/
def loadFont (b : Board) : Checked Board := do
  let stop ← addSize 0 Font.size
  return { b with memory := ← copyRange b.memory 0 stop Font.glyphs.toArray }

/-- The machine before any program is loaded. -/
def powerOn (conf : Conf) (random : RandomSource) : Checked Board :=
  loadFont
    { pc := 0x200, registers := Array.replicate 16 0, index := 0, delay := 0, sound := 0,
      wait := none, memory := Array.replicate 4096 0, slots := Array.replicate 16 0,
      depth := 0, random, conf, hasProgram := false, trap := none }

/-- Set everything back that a program can have changed. -/
def reset (b : Board) : Checked Board :=
  loadFont
    { b with
      pc := 0x200, registers := Array.replicate b.registers.size 0, index := 0, delay := 0,
      sound := 0, wait := none, memory := Array.replicate b.memory.size 0,
      slots := Array.replicate b.slots.size 0, depth := 0 }

/-- Load a program; one of a size that does not fit changes nothing. -/
def load (program : List UInt8) (b : Board) : Checked (Except Fault Unit × Board) :=
  if !isProgramSize program.length then
    return (.error (.invalidProgram program.length), b)
  else do
    let b ← b.reset
    let stop ← addSize programStart program.length
    let memory ← copyRange b.memory programStart stop program.toArray
    return (.ok (), { b with memory, hasProgram := true, trap := none })

/-- Report that a key went down. -/
def keyDown (key : Key) (b : Board) : Checked (Bool × Board) :=
  match b.wait with
  | some r => do
    let b ← setReg r (UInt8.ofNat key.val) { b with wait := none }
    return (true, b)
  | none => return (false, b)

/-! ### Blocks of memory -/

/-- Store the three decimal digits of a register at the index. -/
def storeDecimal (r : Nat) (b : Board) : Checked Board := do
  let start := b.index.toNat
  let value ← b.getReg r
  let b ← b.storeByte start (value / 100)
  let b ← b.storeByte (← addSize start 1) (value / 10 % 10)
  b.storeByte (← addSize start 2) (value % 10)

/-- Store the registers up to one at the index. -/
def storeRegisters (r : Nat) (b : Board) : Checked Board :=
  let start := b.index.toNat
  forCount (fun v b => do
    let address ← addSize start v
    let value ← b.getReg v
    b.storeByte address value) (r + 1) b

/-- Load the registers up to one from the index. -/
def loadRegisters (r : Nat) (b : Board) : Checked Board :=
  let start := b.index.toNat
  forCount (fun v b => do
    let address ← addSize start v
    let value ← b.loadByte address
    b.setReg v value) (r + 1) b

/-! ### Arithmetic -/

/-- The flag, if any, and the result that the last nibble of an arithmetic word selects. -/
def combined? (selector : Nat) (x y : UInt8) : Option (Option UInt8 × UInt8) :=
  match selector with
  | 0x0 => some (none, y)
  | 0x1 => some (none, x ||| y)
  | 0x2 => some (none, x &&& y)
  | 0x3 => some (none, x ^^^ y)
  | 0x4 => some (some (flagValue (256 ≤ x.toNat + y.toNat)), x + y)
  | 0x5 => some (some (flagValue (x > y)), x - y)
  | 0x6 => some (some (x &&& 0x01), x >>> 1)
  | 0x7 => some (some (flagValue (y > x)), y - x)
  | 0xE => some (some (x &&& 0x80), x <<< 1)
  | _ => none

/-- Put a flag, if there is one, into `VF` and then a result into a register. -/
def setFlagged (r : Nat) (flag : Option UInt8) (result : UInt8) (b : Board) : Checked Board := do
  let b ← match flag with
    | some flag => b.setReg 15 flag
    | none => pure b
  b.setReg r result

end Board

/-! ## Executing a word -/

/-- A board wired to its devices. -/
structure Wired (ε : Type) where
  board : Board
  devices : ε

/-- What an operation on a board comes to: an answer or a fault, and the state it left. -/
abbrev Reached (ε α : Type) := Except Fault α × Wired ε

namespace Wired

variable {ε : Type}

/-- End with a fault. -/
def fail {α : Type} (fault : Fault) (s : Wired ε) : Checked (Reached ε α) :=
  return (.error fault, s)

/-- Act on the board alone and end well. -/
def update (flow : Flow) (f : Board → Checked Board) (s : Wired ε) : Checked (Reached ε Flow) := do
  return (.ok flow, { s with board := ← f s.board })

/-- Refuse a word that is no instruction. -/
def unknown (w : Word) (s : Wired ε) : Checked (Reached ε Flow) :=
  s.fail (.unknownOpcode w (s.board.pc - 2))

/-- Keep the program counter on the stack and go on at an address. -/
def call (target : UInt16) (s : Wired ε) : Checked (Reached ε Flow) := do
  match ← s.board.push s.board.pc with
  | .ok board => return (.ok .jump, { s with board := { board with pc := target } })
  | .error fault => s.fail fault

/-- Go on at the address on top of the stack. -/
def ret (s : Wired ε) : Checked (Reached ε Flow) := do
  match ← s.board.pop with
  | .ok (address, board) => return (.ok .jump, { s with board := { board with pc := address } })
  | .error fault => s.fail fault

/-- The arithmetic words. -/
def math (w : Word) (s : Wired ε) : Checked (Reached ε Flow) := do
  let x ← s.board.getReg (Field.x w)
  let y ← s.board.getReg (Field.y w)
  match Board.combined? (Field.n w) x y with
  | some (flag, result) => s.update .proceed (·.setFlagged (Field.x w) flag result)
  | none => s.unknown w

/-- The words for timers, index and blocks of memory. -/
def misc (w : Word) (s : Wired ε) : Checked (Reached ε Flow) :=
  let r := Field.x w
  match (Field.kk w).toNat with
  | 0x07 => s.update .proceed fun b => b.setReg r b.delay
  | 0x0A => s.update .keyWait fun b => return { b with wait := some r }
  | 0x15 => s.update .proceed fun b => return { b with delay := ← b.getReg r }
  | 0x18 => s.update .sound fun b => return { b with sound := ← b.getReg r }
  | 0x1E => s.update .proceed fun b => return { b with index := b.index + (← b.getReg r).toUInt16 }
  | 0x29 => s.update .proceed fun b => do
    let offset ← mul16 (← b.getReg r).toUInt16 5
    return { b with index := ← add16 0 offset }
  | 0x33 => s.update .proceed (·.storeDecimal r)
  | 0x55 => s.update .proceed (·.storeRegisters r)
  | 0x65 => s.update .proceed (·.loadRegisters r)
  | _ => s.unknown w

variable [CheckedDevices ε]

/-- The words that clear the display and return. -/
def system (w : Word) (s : Wired ε) : Checked (Reached ε Flow) :=
  if w = 0x00E0 then return (.ok .clear, { s with devices := CheckedDevices.clear s.devices })
  else if w = 0x00EE then s.ret
  else s.unknown w

/-- Flip the pixels of a sprite row whose bits are set; the answer says whether any flip, of
this row or before, erased its pixel. -/
def drawRow (x y r : Nat) (row : UInt8) (drawn : Bool × ε) : Checked (Bool × ε) :=
  forCount (fun column (erased, devices) => do
    let bit ← shiftRight8 0x80 column
    if row &&& bit ≠ 0 then
      let answer ← CheckedDevices.toggle (← addSize x column) (← addSize y r) devices
      return (erased || answer.1, answer.2)
    else return (erased, devices)) 8 drawn

/-- Draw the sprite at the index. -/
def draw (w : Word) (s : Wired ε) : Checked (Reached ε Flow) := do
  let x ← s.board.getReg (Field.x w)
  let y ← s.board.getReg (Field.y w)
  let (erased, devices) ← forCount (fun r drawn => do
    let row ← s.board.loadByte (← addSize s.board.index.toNat r)
    drawRow x.toNat y.toNat r row drawn) (Field.n w) (false, s.devices)
  return (.ok .draw, { board := ← s.board.setReg 15 (flagValue erased), devices })

/-- Ask whether the key of a number is down. A number that names no key is never down. -/
def poll (value : UInt8) (devices : ε) : Checked (Bool × ε) :=
  match Key.ofNat? value.toNat with
  | .ok key => CheckedDevices.pressed key devices
  | .error _ => return (false, devices)

/-- The words that test a key. -/
def keys (w : Word) (s : Wired ε) : Checked (Reached ε Flow) := do
  let value ← s.board.getReg (Field.x w)
  let (pressed, devices) ← poll value s.devices
  let s : Wired ε := { s with devices }
  match (Field.kk w).toNat with
  | 0x9E => s.update .proceed fun b => return b.skipIf pressed
  | 0xA1 => s.update .proceed fun b => return b.skipIf !pressed
  | _ => s.unknown w

/-- Execute a word. -/
def execute (w : Word) (s : Wired ε) : Checked (Reached ε Flow) :=
  let s : Wired ε := { s with board := s.board.skip }
  match Field.family w with
  | 0x0 => s.system w
  | 0x1 => s.update .jump fun b => return { b with pc := Field.nnn w }
  | 0x2 => s.call (Field.nnn w)
  | 0x3 => s.update .proceed fun b => return b.skipIf ((← b.getReg (Field.x w)) == Field.kk w)
  | 0x4 => s.update .proceed fun b => return b.skipIf ((← b.getReg (Field.x w)) != Field.kk w)
  | 0x5 =>
      if Field.n w ≠ 0 then s.unknown w
      else s.update .proceed fun b => do
        return b.skipIf ((← b.getReg (Field.x w)) == (← b.getReg (Field.y w)))
  | 0x6 => s.update .proceed (·.setReg (Field.x w) (Field.kk w))
  | 0x7 => s.update .proceed fun b => do
    b.setReg (Field.x w) ((← b.getReg (Field.x w)) + Field.kk w)
  | 0x8 => s.math w
  | 0x9 =>
      if Field.n w ≠ 0 then s.unknown w
      else s.update .proceed fun b => do
        return b.skipIf ((← b.getReg (Field.x w)) != (← b.getReg (Field.y w)))
  | 0xA => s.update .proceed fun b => return { b with index := Field.nnn w }
  | 0xB => s.update .jump fun b => do
    let target ← add16 (Field.nnn w) (← b.getReg 0).toUInt16
    return { b with pc := target &&& 0x0FFF }
  | 0xC => s.update .proceed fun b =>
      let drawn := b.random.next
      Board.setReg (Field.x w) (Field.kk w &&& drawn.1) { b with random := drawn.2 }
  | 0xD => s.draw w
  | 0xE => s.keys w
  | 0xF => s.misc w
  | _ => .error .unreachable

/-! ## Driving the board -/

/-- Fetch the word at the program counter and execute it; a fault halts the machine. -/
def fetchExecute (s : Wired ε) : Checked (Reached ε Flow) := do
  let w ← s.board.fetch
  let (result, s) ← s.execute w
  match result with
  | .ok flow => return (.ok flow, s)
  | .error fault => fail fault { s with board := { s.board with trap := some fault } }

/-- Take one instruction. -/
def step (s : Wired ε) : Checked (Reached ε Flow) :=
  match s.board.trap with
  | some fault => s.fail fault
  | none =>
      if !s.board.hasProgram then s.fail (.invalidProgram 0)
      else if s.board.wait.isSome then return (.ok .keyWait, s)
      else s.fetchExecute

/-- Take up to a number of instructions, until a fault or an answer that asks to stop. -/
def steps (stop : Flow → Bool) : Nat → Flow → Wired ε → Checked (Reached ε Flow)
  | 0, last, s => return (.ok last, s)
  | count + 1, _, s => do
    let (result, s) ← s.step
    match result with
    | .ok flow => if stop flow then return (.ok flow, s) else steps stop count flow s
    | .error fault => s.fail fault

/-- Sound the buzzer while the sound timer runs, and silence it otherwise. -/
def setTone (s : Wired ε) : Wired ε :=
  if 0 < s.board.sound then
    { s with devices := CheckedDevices.toneOn s.board.conf.tone s.devices }
  else { s with devices := CheckedDevices.toneOff s.devices }

/-- Count the timers down unless the machine waits for a key, then set the buzzer. -/
def finishBatch (s : Wired ε) : Wired ε :=
  setTone (if s.board.wait.isSome then s else { s with board := s.board.tick })

/-- Run one batch. -/
def cycle (s : Wired ε) : Checked (Reached ε Unit) := do
  let (result, s) ← s.steps (fun _ => false) s.board.conf.speed .proceed
  match result with
  | .ok _ => return (.ok (), s.finishBatch)
  | .error fault => s.fail fault

/-- Do one operation of a host. -/
def apply (op : Operation) (s : Wired ε) : Checked (Reached ε Answer) :=
  match op with
  | .load program => do
    let (result, board) ← s.board.load program
    return (result.map fun _ => .done, { s with board })
  | .execute w => do
    let (result, s) ← s.execute w
    return (result.map .flow, s)
  | .step => do
    let (result, s) ← s.step
    return (result.map .flow, s)
  | .runSteps count => do
    let (result, s) ← s.steps (· == .keyWait) count .proceed
    return (result.map .flow, s)
  | .cycle => do
    let (result, s) ← s.cycle
    return (result.map fun _ => .done, s)
  | .keyDown key => do
    let (resolved, board) ← s.board.keyDown key
    return (.ok (.resolved resolved), { s with board })

/-- Do operations one after the other, also after faults; the answers in order, and the state
reached. -/
def applyAll : List Operation → Wired ε → Checked (List (Except Fault Answer) × Wired ε)
  | [], s => return ([], s)
  | op :: ops, s => do
    let (result, s) ← s.apply op
    let (results, s) ← applyAll ops s
    return (result :: results, s)

end Wired

end Chip8
