/-!
# Sprites

A sprite is a list of rows, each a byte whose bits are eight pixels, the high
bit on the left.
-/

namespace Chip8.Sprite

/-- The columns of a row whose pixel is set, left to right. -/
def rowColumns (row : UInt8) : List Nat :=
  (List.range 8).filter fun c => row.toNat.testBit (7 - c)

/-- The coordinates of the set pixels, row by row, with the sprite at `(x, y)`. -/
def pixelsAt (x y : Nat) : List UInt8 → List (Nat × Nat)
  | [] => []
  | row :: rows => (rowColumns row).map (fun c => (x + c, y)) ++ pixelsAt x (y + 1) rows

theorem pixelsAt_append (x y : Nat) (upper lower : List UInt8) :
    pixelsAt x y (upper ++ lower) =
      pixelsAt x y upper ++ pixelsAt x (y + upper.length) lower := by
  induction upper generalizing y with
  | nil => rfl
  | cons row rows ih =>
      rw [List.cons_append, pixelsAt, pixelsAt, ih, List.append_assoc, List.length_cons,
        Nat.add_assoc, Nat.add_comm 1]

/-- The rows with their numbers: row `r` of the sprite lies `r` below its corner. -/
theorem pixelsAt_eq_flatMap (x y : Nat) (rows : List UInt8) :
    pixelsAt x y rows =
      rows.zipIdx.flatMap fun (row, r) => (rowColumns row).map fun c => (x + c, y + r) := by
  induction rows generalizing y with
  | nil => rfl
  | cons row rows ih =>
      rw [pixelsAt, ih, List.zipIdx_cons, List.flatMap_cons, List.zipIdx_succ, List.flatMap_map]
      simp only [Nat.add_zero, Nat.add_assoc, Nat.add_comm 1]

end Chip8.Sprite
