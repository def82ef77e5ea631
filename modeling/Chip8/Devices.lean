import Chip8.Framebuffer
import Chip8.Key

/-!
# Devices

The machine talks to a display, a keypad and a buzzer through the five
operations of `Devices`, and knows nothing else of them. `Headless` devices
keep everything in memory. `Recorded` wraps any devices and writes down each
call, with what it was answered, without changing what the calls do.
-/

namespace Chip8

/-- What a machine can ask of the devices it is wired to. Each operation may change
the devices. -/
class Devices (δ : Type) where
  /-- Flip the pixel at a coordinate; the answer says whether that erased it. -/
  toggle : Nat → Nat → δ → Bool × δ
  /-- Unset every pixel. -/
  clear : δ → δ
  /-- Whether a key is down. -/
  pressed : Key → δ → Bool × δ
  /-- Sound the buzzer at a pitch in hertz. -/
  toneOn : Float → δ → δ
  /-- Silence the buzzer. -/
  toneOff : δ → δ

namespace Devices

variable {δ : Type} [Devices δ]

/-- Flip pixels in order; the answer says whether any flip erased its pixel. -/
def toggleAll : List (Nat × Nat) → δ → Bool × δ
  | [], d => (false, d)
  | (x, y) :: rest, d =>
      let first := toggle x y d
      let others := toggleAll rest first.2
      (first.1 || others.1, others.2)

theorem toggleAll_append (first later : List (Nat × Nat)) (d : δ) :
    toggleAll (first ++ later) d =
      ((toggleAll first d).1 || (toggleAll later (toggleAll first d).2).1,
        (toggleAll later (toggleAll first d).2).2) := by
  induction first generalizing d with
  | nil => simp [toggleAll]
  | cons p rest ih =>
      obtain ⟨x, y⟩ := p
      simp only [List.cons_append, toggleAll, ih, Bool.or_assoc]

end Devices

/-! ## Devices in memory -/

/-- A bitmap, a keypad set by its owner, and the pitch of the buzzer while it sounds. -/
structure Headless where
  display : Framebuffer := .blank
  keys : Keypad := .released
  tone : Option Float := none

instance : Devices Headless where
  toggle x y d :=
    let flipped := d.display.toggle x y
    (flipped.1, { d with display := flipped.2 })
  clear d := { d with display := .blank }
  pressed k d := (d.keys.isPressed k, d)
  toneOn frequency d := { d with tone := some frequency }
  toneOff d := { d with tone := none }

/-! ## Recording -/

/-- One call a machine made, with the answer it got. -/
inductive Call where
  | toggle (x y : Nat) (erased : Bool)
  | clear
  | pressed (key : Key) (down : Bool)
  | toneOn (frequency : Float)
  | toneOff

/-- Devices together with the calls made to them, oldest first. -/
structure Recorded (δ : Type) where
  devices : δ
  calls : Array Call := #[]

instance {δ : Type} [Devices δ] : Devices (Recorded δ) where
  toggle x y r :=
    let answer := Devices.toggle x y r.devices
    (answer.1, { devices := answer.2, calls := r.calls.push (.toggle x y answer.1) })
  clear r := { devices := Devices.clear r.devices, calls := r.calls.push .clear }
  pressed k r :=
    let answer := Devices.pressed k r.devices
    (answer.1, { devices := answer.2, calls := r.calls.push (.pressed k answer.1) })
  toneOn frequency r :=
    { devices := Devices.toneOn frequency r.devices, calls := r.calls.push (.toneOn frequency) }
  toneOff r := { devices := Devices.toneOff r.devices, calls := r.calls.push .toneOff }

end Chip8
