/-!
# Flow

What an instruction tells the host about itself: whether the display or the
buzzer is concerned, and whether the machine now waits for a key.
-/

namespace Chip8

/-- What kind of thing an instruction did. -/
inductive Flow where
  /-- Nothing the host has to act on. -/
  | proceed
  /-- Control went to an address. -/
  | jump
  /-- The display was cleared. -/
  | clear
  /-- A sprite was drawn. -/
  | draw
  /-- The sound timer was set. -/
  | sound
  /-- The machine waits for a key. -/
  | keyWait
  deriving DecidableEq, Repr

end Chip8
