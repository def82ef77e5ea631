import Chip8.Cpu
import Chip8.Outcome
import Chip8.Random.ChaCha

/-!
# The machine

A processor with its random source, its settings, and whether it has a program
and has halted. A machine that halted keeps the fault as its `trap` until a new
program is loaded. Loading replaces the whole processor, so nothing of what
ran before is left; only the random source goes on where it was.
-/

namespace Chip8

/-- How a machine is to run. -/
structure Conf where
  /-- Instructions in a batch. -/
  speed : Nat := 15
  /-- The seed of the random source, when it is fixed. -/
  seed : Option UInt64 := none
  /-- The pitch of the buzzer, in hertz. -/
  tone : Float := 440.0

/-- A machine without its devices. -/
structure Machine where
  cpu : Cpu := .powerOn
  random : RandomSource
  conf : Conf
  hasProgram : Bool := false
  /-- The fault the machine halted on. -/
  trap : Option Fault := none

namespace Machine

/-- A machine before any program is loaded. -/
def new (conf : Conf) (random : RandomSource) : Machine := { conf, random }

/-- A machine with the random source of the seed in its settings, or of `entropy` when
they have none. -/
def seeded (conf : Conf) (entropy : UInt64) : Machine :=
  new conf (.seeded (conf.seed.getD entropy))

/-- Whether the machine waits for a key. -/
def isWaiting (m : Machine) : Bool := m.cpu.wait.isSome

/-- Load a program; one of a size that does not fit changes nothing. -/
def load (program : List UInt8) (m : Machine) : Outcome Machine Unit :=
  if isProgramSize program.length then
    { result := .ok ()
      state := { m with cpu := .loaded program, hasProgram := true, trap := none }
      records := #[.loaded program.length] }
  else
    { result := .error (.invalidProgram program.length), state := m }

theorem load_of_accepted {program : List UInt8} (hSize : isProgramSize program.length = true)
    (m : Machine) :
    m.load program =
      { result := .ok ()
        state := { m with cpu := .loaded program, hasProgram := true, trap := none }
        records := #[.loaded program.length] } :=
  if_pos hSize

theorem load_of_refused {program : List UInt8} (hSize : ¬ isProgramSize program.length = true)
    (m : Machine) :
    m.load program = { result := .error (.invalidProgram program.length), state := m } :=
  if_neg hSize

/-- Only programs of a size that fits are accepted. -/
theorem size_of_loaded {program : List UInt8} {m : Machine}
    (hLoad : (m.load program).result = .ok ()) : isProgramSize program.length = true := by
  by_cases hSize : isProgramSize program.length = true
  · exact hSize
  · rw [load_of_refused hSize] at hLoad
    cases hLoad

/-- Report that a key went down, which ends a wait by putting the key into its register.
The answer says whether there was one. -/
def keyDown (key : Key) (m : Machine) : Outcome Machine Bool :=
  match m.cpu.wait with
  | some x =>
      { result := .ok true
        state := { m with cpu := { m.cpu.setReg x (UInt8.ofNat key.val) with wait := none } }
        records := #[.resolved key x] }
  | none => { result := .ok false, state := m }

end Machine

end Chip8
