import Chip8.Player
import Chip8.Yaml.Value

/-!
# Settings

What a settings file may say: how the machine runs, how many frames, and which
keys go down and up when. Everything is optional. Fields that are not known
are passed over, and the key events come out sorted by frame, those of one
frame in the order of the file.
-/

namespace Chip8

/-- The contents of a settings file. -/
structure Settings where
  conf : Conf := {}
  /-- How many frames to play. -/
  frames : Option Nat := none
  /-- Key events, sorted by frame. -/
  keys : List KeyEvent := []

namespace Settings

open Yaml (Node field? required?)

/-- A whole number of 64 bits. -/
def count? (node : Node) : Option Nat := node.natural? Numeral.wordLimit

/-- The number of a key. -/
def key? (node : Node) : Option Key :=
  (node.natural? 256).bind fun code => (Key.ofNat? code).toOption

/-- How the machine runs. -/
def conf? (node : Node) : Option Conf := do
  let fields ← node.fields?
  let defaults : Conf := {}
  let speed ← field? "speed" count? fields
  let seed ← field? "seed" (Node.nullable? count?) fields
  let tone ← field? "tone_frequency" Node.real? fields
  return {
    speed := speed.getD defaults.speed
    seed := seed.join.map UInt64.ofNat
    tone := tone.getD defaults.tone }

/-- One key event; the key goes down unless it says otherwise. -/
def event? (node : Node) : Option KeyEvent := do
  let fields ← node.fields?
  let frame ← required? "frame" count? fields
  let key ← required? "key" key? fields
  let pressed ← field? "pressed" Node.boolean? fields
  return { frame, key, pressed := pressed.getD true }

/-- A list of key events. -/
def events? (node : Node) : Option (List KeyEvent) := do
  let items ← node.items?
  items.mapM event?

/-- Key events sorted by frame, keeping the order of those in one frame. -/
def sortByFrame (events : List KeyEvent) : List KeyEvent :=
  events.mergeSort fun a b => a.frame ≤ b.frame

/-- The settings a node stands for. -/
def ofNode? (node : Node) : Option Settings := do
  let fields ← node.fields?
  let conf ← field? "vm" conf? fields
  let frames ← field? "frames" (Node.nullable? count?) fields
  let keys ← field? "keys" events? fields
  return {
    conf := conf.getD {}
    frames := frames.join
    keys := sortByFrame (keys.getD []) }

/-- The settings in a text. -/
def ofText? (text : String) : Option Settings := (Node.ofText? text).bind ofNode?

end Settings

end Chip8
