/-!
# The framebuffer

A bitmap of 64 by 32 pixels. Coordinates are any natural numbers and wrap at
the edges, so a pixel is named by its coordinates modulo width and height.
`pixel_toggle_same` and `pixel_toggle_other` describe a toggle through `pixel`.
-/

namespace Chip8

/-- A bitmap, row after row. -/
structure Framebuffer where
  pixels : Vector Bool 2048
  deriving DecidableEq

namespace Framebuffer

/-- Pixels in a row. -/
def width : Nat := 64

/-- Rows. -/
def height : Nat := 32

/-- The bitmap with every pixel unset. -/
def blank : Framebuffer := ⟨Vector.replicate 2048 false⟩

/-- Where the pixel at a coordinate is kept. -/
def index (x y : Nat) : Fin 2048 :=
  ⟨x % 64 + 64 * (y % 32), by omega⟩

theorem index_eq_iff {x y u v : Nat} :
    index x y = index u v ↔ x % width = u % width ∧ y % height = v % height := by
  simp only [index, Fin.mk.injEq, width, height]
  omega

/-- Whether the pixel at a coordinate is set. -/
def pixel (x y : Nat) (f : Framebuffer) : Bool := f.pixels[index x y]

/-- Flip the pixel at a coordinate, and say whether that erased it. -/
def toggle (x y : Nat) (f : Framebuffer) : Bool × Framebuffer :=
  let old := f.pixel x y
  (old, ⟨f.pixels.set (index x y) (!old)⟩)

@[simp] theorem pixel_blank (x y : Nat) : blank.pixel x y = false := by
  simp [pixel, blank]

theorem pixel_toggle_same {x y u v : Nat} (hSame : index x y = index u v) (f : Framebuffer) :
    (f.toggle x y).2.pixel u v = !f.pixel x y := by
  simp [pixel, toggle, hSame]

theorem pixel_toggle_other {x y u v : Nat} (hOther : index x y ≠ index u v) (f : Framebuffer) :
    (f.toggle x y).2.pixel u v = f.pixel u v := by
  have hVal : (index x y).val ≠ (index u v).val := fun h => hOther (Fin.ext h)
  simp [pixel, toggle, hVal]

/-- Where the set pixels are, as `x + 64 * y`, ascending. -/
def litPositions (f : Framebuffer) : List Nat :=
  ((List.finRange 2048).filter fun i => f.pixels[i]).map Fin.val

/-- How many pixels are set. -/
def litCount (f : Framebuffer) : Nat := f.pixels.toList.count true

/-- No pixel is set. -/
def isBlank (f : Framebuffer) : Bool := f.pixels.toList.all (! ·)

/-- How a pixel is printed. -/
def pixelChar (lit : Bool) : Char := if lit then '#' else '.'

/-- A row as it is printed. -/
def rowText (y : Nat) (f : Framebuffer) : List Char :=
  (List.range width).map fun x => pixelChar (f.pixel x y)

/-- The whole bitmap as text, each row ended by a newline. -/
def dump (f : Framebuffer) : String :=
  String.ofList ((List.range height).flatMap fun y => f.rowText y ++ ['\n'])

end Framebuffer

end Chip8
