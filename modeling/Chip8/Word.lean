import Chip8.Numeral

/-!
# Instruction words

An instruction is a 16-bit word, stored high byte first. Its meaning hangs on
its nibbles: the `family` on the left, then either a 12-bit address `nnn`, or
a register `x` with a byte `kk`, or two registers `x`, `y` with a selector `n`.

The fields are defined by division, so that facts about them are arithmetic;
`eq_of_nibbles` says that the four nibbles determine the word.
-/

namespace Chip8

/-- A 16-bit instruction word. -/
abbrev Word := UInt16

namespace Word

/-- The first nibble, which selects the kind of instruction. -/
def family (w : Word) : Fin 16 :=
  ⟨w.toNat / 4096, by have := w.toNat_lt; omega⟩

/-- The second nibble, a register. -/
def x (w : Word) : Fin 16 := ⟨w.toNat / 256 % 16, Nat.mod_lt _ (by decide)⟩

/-- The third nibble, a register. -/
def y (w : Word) : Fin 16 := ⟨w.toNat / 16 % 16, Nat.mod_lt _ (by decide)⟩

/-- The last nibble, a selector or the height of a sprite. -/
def n (w : Word) : Fin 16 := ⟨w.toNat % 16, Nat.mod_lt _ (by decide)⟩

/-- The low byte. -/
def kk (w : Word) : UInt8 := UInt8.ofNat (w.toNat % 256)

/-- The low twelve bits, an address. -/
def nnn (w : Word) : UInt16 := UInt16.ofNat (w.toNat % 4096)

/-- The word of two bytes, high byte first. -/
def ofBytes (high low : UInt8) : Word := UInt16.ofNat (high.toNat * 256 + low.toNat)

/-- The word of four nibbles. -/
def ofNibbles (family x y n : Fin 16) : Word :=
  UInt16.ofNat (family.val * 4096 + x.val * 256 + y.val * 16 + n.val)

theorem toNat_ofBytes (high low : UInt8) :
    (ofBytes high low).toNat = high.toNat * 256 + low.toNat := by
  have hHigh := high.toNat_lt
  have hLow := low.toNat_lt
  simp only [ofBytes, UInt16.toNat_ofNat']
  omega

theorem toNat_kk (w : Word) : w.kk.toNat = w.toNat % 256 := by
  simp [kk, UInt8.toNat_ofNat']

theorem toNat_nnn (w : Word) : w.nnn.toNat = w.toNat % 4096 := by
  simp only [nnn, UInt16.toNat_ofNat']
  omega

theorem toNat_eq_nibbles (w : Word) :
    w.toNat = w.family.val * 4096 + w.x.val * 256 + w.y.val * 16 + w.n.val := by
  simp only [family, x, y, n]
  omega

/-- Words with equal nibbles are equal. -/
theorem eq_of_nibbles {v w : Word} (hFamily : v.family = w.family) (hx : v.x = w.x)
    (hy : v.y = w.y) (hn : v.n = w.n) : v = w := by
  apply UInt16.toNat_inj.1
  rw [toNat_eq_nibbles v, toNat_eq_nibbles w, hFamily, hx, hy, hn]

theorem toNat_ofNibbles (family x y n : Fin 16) :
    (ofNibbles family x y n).toNat = family.val * 4096 + x.val * 256 + y.val * 16 + n.val := by
  simp only [ofNibbles, UInt16.toNat_ofNat']
  omega

@[simp] theorem family_ofNibbles (f x y n : Fin 16) : (ofNibbles f x y n).family = f := by
  apply Fin.ext
  simp only [family, toNat_ofNibbles]
  omega

@[simp] theorem x_ofNibbles (f x y n : Fin 16) : (ofNibbles f x y n).x = x := by
  apply Fin.ext
  simp only [Word.x, toNat_ofNibbles]
  omega

@[simp] theorem y_ofNibbles (f x y n : Fin 16) : (ofNibbles f x y n).y = y := by
  apply Fin.ext
  simp only [Word.y, toNat_ofNibbles]
  omega

@[simp] theorem n_ofNibbles (f x y n : Fin 16) : (ofNibbles f x y n).n = n := by
  apply Fin.ext
  simp only [Word.n, toNat_ofNibbles]
  omega

theorem kk_ofNibbles (f x y n : Fin 16) :
    (ofNibbles f x y n).kk = UInt8.ofNat (y.val * 16 + n.val) := by
  apply UInt8.toNat_inj.1
  rw [toNat_kk, toNat_ofNibbles, UInt8.toNat_ofNat']
  omega

/-- The word of a family, a register and a byte. -/
def ofByte (family x : Fin 16) (kk : UInt8) : Word :=
  UInt16.ofNat (family.val * 4096 + x.val * 256 + kk.toNat)

theorem toNat_ofByte (family x : Fin 16) (kk : UInt8) :
    (ofByte family x kk).toNat = family.val * 4096 + x.val * 256 + kk.toNat := by
  have hByte := kk.toNat_lt
  simp only [ofByte, UInt16.toNat_ofNat']
  omega

@[simp] theorem family_ofByte (f x : Fin 16) (kk : UInt8) : (ofByte f x kk).family = f := by
  have hByte := kk.toNat_lt
  apply Fin.ext
  simp only [family, toNat_ofByte]
  omega

@[simp] theorem x_ofByte (f x : Fin 16) (kk : UInt8) : (ofByte f x kk).x = x := by
  have hByte := kk.toNat_lt
  apply Fin.ext
  simp only [Word.x, toNat_ofByte]
  omega

@[simp] theorem kk_ofByte (f x : Fin 16) (kk : UInt8) : (ofByte f x kk).kk = kk := by
  have hByte := kk.toNat_lt
  apply UInt8.toNat_inj.1
  rw [toNat_kk, toNat_ofByte]
  omega

/-- The word as four upper-case hexadecimal digits. -/
def hex (w : Word) : String := Numeral.hex 4 w.toNat

end Word

end Chip8
