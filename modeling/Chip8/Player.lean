import Chip8.Console.Drive
import Chip8.Report

/-!
# Playing a program with scripted keys

A player runs a console frame by frame: it applies the key events that are due,
runs one batch, and reports when the buzzer comes on or goes off. Events are
taken from the front of the script only, so each is applied once and in order;
an event waits behind an earlier one that is due later.

A frame that fails is not counted, but the events it applied are spent.
-/

namespace Chip8

/-- A key going down or up at the start of a frame. -/
structure KeyEvent where
  /-- The frame, counted from zero. Below `2 ^ 64`, as the frames of a run are. -/
  frame : Nat
  key : Key
  pressed : Bool := true
  deriving DecidableEq, Repr

/-- A console with headless devices, the events still to come, and the frames played. -/
structure Player where
  console : Console Headless
  script : List KeyEvent := []
  /-- A run has fewer than `2 ^ 64` frames, so that 64 bits count them without wrapping. -/
  frame : Nat := 0

namespace Player

/-- A player before any program is loaded. -/
def new (machine : Machine) (script : List KeyEvent) : Player :=
  { console := { machine, devices := {} }, script }

/-- Load a program and start over with blank devices, at frame zero. The script goes on
where it was, and a program that does not fit changes nothing. -/
def load (program : List UInt8) (p : Player) : Outcome Player Unit :=
  let o := p.console.machine.load program
  match o.result with
  | .ok _ =>
      { result := .ok ()
        state := { p with console := { machine := o.state, devices := {} }, frame := 0 }
        records := o.records }
  | .error fault => { result := .error fault, state := p, records := o.records }

/-! ## Scripted keys -/

/-- Move the key of an event, and report a press to the machine. -/
def applyEvent (event : KeyEvent) (c : Console Headless) : Console Headless × Array Record :=
  let devices := { c.devices with keys := c.devices.keys.set event.key event.pressed }
  if event.pressed then
    let o := c.machine.keyDown event.key
    ({ machine := o.state, devices }, o.records)
  else ({ c with devices }, #[])

/-- Apply events in order, reporting each one before what it does. -/
def applyEvents (frame : Nat) :
    List KeyEvent → Console Headless → Array Record → Console Headless × Array Record
  | [], c, records => (c, records)
  | event :: rest, c, records =>
      let applied := applyEvent event c
      applyEvents frame rest applied.1
        (records.push (.keyEvent frame event.key event.pressed) ++ applied.2)

/-- Whether an event is due in a frame. -/
def isDue (frame : Nat) (event : KeyEvent) : Bool := event.frame ≤ frame

/-- Take the events that are due off the script and apply them. -/
def applyScript (p : Player) : Player × Array Record :=
  let applied := applyEvents p.frame (p.script.takeWhile (isDue p.frame)) p.console #[]
  ({ p with console := applied.1, script := p.script.dropWhile (isDue p.frame) }, applied.2)

/-! ## Frames -/

/-- The record of the buzzer coming on or going off during a frame, if it did. -/
def toneChange (frame : Nat) : Option Float → Option Float → Array Record
  | none, some frequency => #[.toneOn frame frequency]
  | some _, none => #[.toneOff frame]
  | _, _ => #[]

/-- Play one frame: the events that are due, then one batch. -/
def playFrame (p : Player) : Outcome Player Unit :=
  let ready := p.applyScript
  let before := ready.1.console.devices.tone
  let batch := ready.1.console.cycle.after ready.2
  match batch.result with
  | .ok _ =>
      { result := .ok ()
        state := { ready.1 with console := batch.state, frame := p.frame + 1 }
        records := batch.records ++ toneChange p.frame before batch.state.devices.tone }
  | .error fault =>
      { result := .error fault
        state := { ready.1 with console := batch.state }
        records := batch.records }

/-- Play a number of frames, up to the first that fails. Of the records a frame makes, only
those worth keeping are kept. -/
def play (frames : Nat) (p : Player) (worth : Record → Bool := fun _ => true) :
    Outcome Player Unit :=
  let start : Outcome Player Unit :=
    { result := .ok (), state := p, records := #[.running frames p.console.machine.conf.speed] }
  let o := Outcome.repeatUntil (fun _ => false) (fun p => p.playFrame.keeping worth) frames start
  match o.result with
  | .ok _ => { o with records := o.records.push (.stopped o.state.frame) }
  | .error _ => o

/-- The display and the registers as text. -/
def report (p : Player) : String := p.console.report

end Player

end Chip8
