import Chip8.Word
import Chip8.Fault

/-!
# Memory

Four kilobytes of cells. Addresses are any natural numbers and wrap at twelve
bits. The lowest cells hold the glyphs of the hexadecimal digits and refuse
to be overwritten: `store` leaves them as they are, and `protectedIn` lists the
bytes of a run that are kept out in this way (`read_store_of_protected`).

`read_write_same` and `read_write_other` say that a write changes its own cell
and no other.
-/

namespace Chip8

/-- Cells in memory. -/
def memorySize : Nat := 4096

/-- Where programs start in memory. -/
def programStart : Nat := 0x200

namespace Font

/-- Rows of a glyph. -/
def glyphHeight : Nat := 5

/-- The glyphs of the digits `0` to `F`, five rows each, eight pixels a row. -/
def glyphs : Vector UInt8 80 := #v[
  0xF0, 0x90, 0x90, 0x90, 0xF0,
  0x20, 0x60, 0x20, 0x20, 0x70,
  0xF0, 0x10, 0xF0, 0x80, 0xF0,
  0xF0, 0x10, 0xF0, 0x10, 0xF0,
  0x90, 0x90, 0xF0, 0x10, 0x10,
  0xF0, 0x80, 0xF0, 0x10, 0xF0,
  0xF0, 0x80, 0xF0, 0x90, 0xF0,
  0xF0, 0x10, 0x20, 0x40, 0x40,
  0xF0, 0x90, 0xF0, 0x90, 0xF0,
  0xF0, 0x90, 0xF0, 0x10, 0xF0,
  0xF0, 0x90, 0xF0, 0x90, 0x90,
  0xE0, 0x90, 0xE0, 0x90, 0xE0,
  0xF0, 0x80, 0x80, 0x80, 0xF0,
  0xE0, 0x90, 0x90, 0x90, 0xE0,
  0xF0, 0x80, 0xF0, 0x80, 0xF0,
  0xF0, 0x80, 0xF0, 0x80, 0x80]

/-- Cells taken by the glyphs, from address zero on. -/
def size : Nat := 80

end Font

/-- The contents of memory. -/
structure Memory where
  cells : Vector UInt8 4096
  deriving DecidableEq

namespace Memory

/-- The cell an address means. -/
def cell (address : Nat) : Fin 4096 := ⟨address % 4096, Nat.mod_lt _ (by decide)⟩

/-- The byte at an address. -/
def read (address : Nat) (m : Memory) : UInt8 := m.cells[cell address]

/-- Put a byte at an address, glyphs or not. -/
def write (address : Nat) (value : UInt8) (m : Memory) : Memory :=
  ⟨m.cells.set (cell address) value⟩

/-- Whether an address lies among the glyphs. -/
def isProtected (address : Nat) : Bool := (cell address).val < 80

/-- Put a byte at an address, unless a glyph is there. -/
def store (address : Nat) (value : UInt8) (m : Memory) : Memory :=
  if isProtected address then m else m.write address value

/-- Put a run of bytes at the addresses from one on. -/
def storeAll (address : Nat) : List UInt8 → Memory → Memory
  | [], m => m
  | value :: rest, m => storeAll (address + 1) rest (m.store address value)

/-- The bytes of a run that meet a glyph, with the cells they are kept out of. -/
def protectedIn (address : Nat) : List UInt8 → List (UInt8 × Nat)
  | [] => []
  | value :: rest =>
      if isProtected address then
        (value, (cell address).val) :: protectedIn (address + 1) rest
      else protectedIn (address + 1) rest

/-- The instruction word at an address. -/
def fetch (address : Nat) (m : Memory) : Word :=
  Word.ofBytes (m.read address) (m.read (address + 1))

/-- The glyphs, a program from `programStart` on, and zeros. -/
def ofProgram (program : List UInt8) : Memory :=
  let bytes := program.toArray
  ⟨Vector.ofFn fun i =>
    if h : i.val < 80 then Font.glyphs[i.val]
    else if i.val < programStart then 0
    else bytes.getD (i.val - programStart) 0⟩

/-- Memory before any program is loaded. -/
def powerOn : Memory := ofProgram []

/-- A run of bytes from an address on. -/
def slice (address count : Nat) (m : Memory) : List UInt8 :=
  (List.range count).map fun k => m.read (address + k)

theorem read_write_same {a b : Nat} (hSame : cell a = cell b) (value : UInt8) (m : Memory) :
    (m.write a value).read b = value := by
  simp [read, write, hSame]

theorem read_write_other {a b : Nat} (hOther : cell a ≠ cell b) (value : UInt8) (m : Memory) :
    (m.write a value).read b = m.read b := by
  have hVal : (cell a).val ≠ (cell b).val := fun h => hOther (Fin.ext h)
  simp [read, write, hVal]

theorem isProtected_iff (a : Nat) : isProtected a = true ↔ a % memorySize < Font.size :=
  decide_eq_true_iff

/-- A store that meets a glyph changes nothing. -/
theorem store_of_protected {a : Nat} (hGlyph : isProtected a = true) (value : UInt8)
    (m : Memory) : m.store a value = m := by
  simp [store, hGlyph]

/-- A store above the glyphs is a write. -/
theorem store_of_not_protected {a : Nat} (hFree : isProtected a = false) (value : UInt8)
    (m : Memory) : m.store a value = m.write a value := by
  simp [store, hFree]

/-- **The glyphs are read-only**: no store changes what is read among them. -/
theorem read_store_of_protected {b : Nat} (hGlyph : isProtected b = true) (a : Nat)
    (value : UInt8) (m : Memory) : (m.store a value).read b = m.read b := by
  cases hA : isProtected a with
  | true => rw [store_of_protected hA]
  | false =>
      rw [store_of_not_protected hA]
      apply read_write_other
      intro hCell
      rw [isProtected, hCell] at hA
      rw [isProtected, hA] at hGlyph
      exact Bool.false_ne_true hGlyph

theorem read_storeAll_of_protected {b : Nat} (hGlyph : isProtected b = true) (a : Nat)
    (values : List UInt8) (m : Memory) : (m.storeAll a values).read b = m.read b := by
  induction values generalizing a m with
  | nil => rfl
  | cons value rest ih => rw [storeAll, ih, read_store_of_protected hGlyph]

/-! ## Runs of cells -/

theorem storeAll_append (address : Nat) (first later : List UInt8) (m : Memory) :
    m.storeAll address (first ++ later) =
      (m.storeAll address first).storeAll (address + first.length) later := by
  induction first generalizing address m with
  | nil => rfl
  | cons value rest ih =>
      rw [List.cons_append, storeAll, storeAll, ih, List.length_cons, Nat.add_assoc,
        Nat.add_comm 1]

theorem slice_succ (address count : Nat) (m : Memory) :
    m.slice address (count + 1) = m.slice address count ++ [m.read (address + count)] := by
  simp [slice, List.range_succ]

/-- Memory has room for every program that is accepted. -/
theorem fits_of_isProgramSize {size : Nat} (hSize : isProgramSize size = true) :
    programStart + size ≤ memorySize := by
  rw [isProgramSize, Bool.and_eq_true, decide_eq_true_iff, decide_eq_true_iff] at hSize
  exact Nat.le_trans (Nat.add_le_add_left hSize.2 _) (by decide)

/-- Above the glyphs there is the program, and zeros below and behind it. -/
theorem read_ofProgram_above {a : Nat} (hAbove : Font.size ≤ a) (hCell : a < memorySize)
    (program : List UInt8) :
    (ofProgram program).read a =
      if programStart ≤ a then program.getD (a - programStart) 0 else 0 := by
  have hSame : (cell a).val = a := Nat.mod_eq_of_lt hCell
  have hGlyph : ¬ a < 80 := Nat.not_lt.2 hAbove
  by_cases hBefore : a < programStart
  · simp [read, ofProgram, hSame, hGlyph, hBefore, Nat.not_le.2 hBefore]
  · simp [read, ofProgram, hSame, hGlyph, hBefore, Nat.not_lt.1 hBefore]

/-- A program is read back from where it was put. -/
theorem read_ofProgram {program : List UInt8} {k : Nat} (hk : k < program.length)
    (hFits : programStart + k < memorySize) :
    (ofProgram program).read (programStart + k) = program[k] := by
  have hAbove : Font.size ≤ programStart + k := by
    unfold Font.size programStart
    omega
  rw [read_ofProgram_above hAbove hFits, if_pos (Nat.le_add_right _ _), Nat.add_sub_cancel_left]
  simp [hk]

/-- The first word of a program is its first two bytes. -/
theorem fetch_ofProgram (high low : UInt8) (rest : List UInt8) :
    (ofProgram (high :: low :: rest)).fetch programStart = Word.ofBytes high low := by
  have hHigh : (ofProgram (high :: low :: rest)).read (programStart + 0) = high :=
    read_ofProgram (by simp) (by decide)
  have hLow : (ofProgram (high :: low :: rest)).read (programStart + 1) = low :=
    read_ofProgram (by simp) (by decide)
  rw [Nat.add_zero] at hHigh
  rw [fetch, hHigh, hLow]

/-- A word of a program is two of its bytes. -/
theorem fetch_ofProgram_add {program : List UInt8} {k : Nat} (hk : k + 1 < program.length)
    (hFits : programStart + (k + 1) < memorySize) :
    (ofProgram program).fetch (programStart + k) =
      Word.ofBytes program[k] program[k + 1] := by
  rw [fetch, read_ofProgram (Nat.lt_of_succ_lt hk) (Nat.lt_of_succ_lt hFits), Nat.add_assoc,
    read_ofProgram hk hFits]

/-- The high byte of the word at an address is the byte there. -/
theorem toNat_fetch_high (address : Nat) (m : Memory) :
    (m.fetch address).toNat / 256 = (m.read address).toNat := by
  have hLow := (m.read (address + 1)).toNat_lt
  rw [fetch, Word.toNat_ofBytes]
  omega

/-! ## Addresses of the same cell -/

/-- Addresses that agree modulo the size of memory mean the same cell. -/
theorem cell_congr {a b : Nat} (hCell : a % memorySize = b % memorySize) : cell a = cell b :=
  Fin.ext hCell

theorem read_congr {a b : Nat} (hCell : a % memorySize = b % memorySize) (m : Memory) :
    m.read a = m.read b := by
  simp [read, cell_congr hCell]

theorem store_congr {a b : Nat} (hCell : a % memorySize = b % memorySize) (value : UInt8)
    (m : Memory) : m.store a value = m.store b value := by
  simp [store, isProtected, write, cell_congr hCell]

private theorem mod_add_congr {a b : Nat} (hCell : a % memorySize = b % memorySize) (k : Nat) :
    (a + k) % memorySize = (b + k) % memorySize := by
  rw [Nat.add_mod, hCell, ← Nat.add_mod]

theorem storeAll_congr {a b : Nat} (hCell : a % memorySize = b % memorySize)
    (values : List UInt8) (m : Memory) : m.storeAll a values = m.storeAll b values := by
  induction values generalizing a b m with
  | nil => rfl
  | cons value rest ih =>
      rw [storeAll, storeAll, store_congr hCell, ih (mod_add_congr hCell 1)]

theorem fetch_congr {a b : Nat} (hCell : a % memorySize = b % memorySize) (m : Memory) :
    m.fetch a = m.fetch b := by
  rw [fetch, fetch, read_congr hCell, read_congr (mod_add_congr hCell 1)]

theorem slice_congr {a b : Nat} (hCell : a % memorySize = b % memorySize) (count : Nat)
    (m : Memory) : m.slice a count = m.slice b count := by
  apply List.map_congr_left
  intro k _
  exact read_congr (mod_add_congr hCell k) m

end Memory

end Chip8
