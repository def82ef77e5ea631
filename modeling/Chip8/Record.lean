import Chip8.Decimal.Shortest
import Chip8.Fault
import Chip8.Instr.Mnemonic
import Chip8.Key

/-!
# Records

What a machine and the frame loop report while they work. A record is a cause
with its particulars; `Record.level` and `Record.text` give its weight and wording.
-/

namespace Chip8

/-- How weighty a record is. -/
inductive Level where
  | trace
  | debug
  | info
  | warn
  | error
  deriving DecidableEq, Repr

/-- The name of a level. -/
def Level.text : Level → String
  | .trace => "TRACE"
  | .debug => "DEBUG"
  | .info => "INFO"
  | .warn => "WARN"
  | .error => "ERROR"

/-- One thing that was reported. -/
inductive Record where
  /-- A program of this size was loaded. -/
  | loaded (size : Nat)
  /-- A word was fetched to be executed. -/
  | fetched (pc : UInt16) (word : Word)
  /-- The machine waits for a key to put into a register. -/
  | waiting (x : Reg)
  /-- A key ended the wait. -/
  | resolved (key : Key) (x : Reg)
  /-- A byte was kept out of the font. -/
  | dropped (value : UInt8) (address : Nat)
  /-- The machine halted. -/
  | halted (fault : Fault)
  /-- The frame loop set out. -/
  | running (frames speed : Nat)
  /-- The frame loop came to its end. -/
  | stopped (frame : Nat)
  /-- A scripted key event was applied. -/
  | keyEvent (frame : Nat) (key : Key) (pressed : Bool)
  /-- The buzzer came on. -/
  | toneOn (frame : Nat) (frequency : Float)
  /-- The buzzer went off. -/
  | toneOff (frame : Nat)

namespace Record

/-- How weighty each kind of record is. -/
def level : Record → Level
  | .fetched .. => .trace
  | .loaded _ => .debug
  | .waiting _ => .debug
  | .resolved .. => .debug
  | .keyEvent .. => .debug
  | .running .. => .info
  | .stopped _ => .info
  | .toneOn .. => .info
  | .toneOff _ => .info
  | .dropped .. => .warn
  | .halted _ => .error

/-- The start of a record about a frame. -/
def frameText (frame : Nat) : String := "frame " ++ Numeral.decimal frame ++ ": "

/-- The wording of a record. -/
def text : Record → String
  | .loaded size => "loaded program of " ++ Numeral.decimal size ++ " bytes"
  | .fetched pc word => Numeral.hex 4 pc.toNat ++ ": " ++ word.mnemonic
  | .waiting x => "waiting for key into " ++ x.text
  | .resolved key x => "key " ++ Key.text key ++ " resolved wait on " ++ Reg.text x
  | .dropped value address =>
      "dropped write of " ++ Numeral.hex 2 value.toNat ++ " to font memory at " ++
        Numeral.hex 4 address
  | .halted fault => "machine halted: " ++ fault.message
  | .running frames speed =>
      "running " ++ Numeral.decimal frames ++ " frames at " ++ Numeral.decimal speed ++
        " instructions per frame"
  | .stopped frame => "stopped after " ++ Numeral.decimal frame ++ " frames"
  | .keyEvent frame key pressed =>
      frameText frame ++ "key " ++ Key.text key ++ " pressed=" ++
        (if pressed then "true" else "false")
  | .toneOn frame frequency =>
      frameText frame ++ "tone on at " ++ Decimal.floatText frequency ++ " Hz"
  | .toneOff frame => frameText frame ++ "tone off"

/-- Whether a record is of interest without looking into the machine. -/
def isNotable (r : Record) : Bool :=
  match r.level with
  | .trace => false
  | .debug => false
  | .info => true
  | .warn => true
  | .error => true

/-- The line a record makes in a log. -/
def line (r : Record) : String := r.level.text ++ " " ++ r.text

end Record

end Chip8
