import Chip8.Console

/-!
# Reports

The state of a console with headless devices as text: the display, row by row,
then the registers. Nothing follows the last register.
-/

namespace Chip8

/-- The display and the registers as text. -/
def Console.report (c : Console Headless) : String :=
  c.devices.display.dump ++ c.machine.cpu.dump

end Chip8
