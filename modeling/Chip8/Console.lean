import Chip8.Devices
import Chip8.Flow
import Chip8.Machine

/-!
# Consoles

A machine wired to its devices: what an instruction acts on.
-/

namespace Chip8

/-- A machine and the devices it is wired to. -/
structure Console (δ : Type) where
  machine : Machine
  devices : δ

namespace Console

variable {δ : Type}

/-- The same devices wired to another machine. -/
def withMachine (c : Console δ) (machine : Machine) : Console δ := { c with machine }

/-- Act on the processor alone. -/
def mapCpu (f : Cpu → Cpu) (c : Console δ) : Console δ :=
  { c with machine := { c.machine with cpu := f c.machine.cpu } }

/-- Halt on a fault. -/
def halt (fault : Fault) (c : Console δ) : Console δ :=
  { c with machine := { c.machine with trap := some fault } }

end Console

end Chip8
