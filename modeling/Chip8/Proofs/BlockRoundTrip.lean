import Chip8.Proofs.BlockStore
import Chip8.Proofs.FontIntegrity

/-!
# Blocks that are stored and loaded back

`Fx55` and `Fx65` go over the same row of cells, in the same order and around
the same end of memory. What the one stores the other loads, whatever became of
the registers in between, but for the cells of the font: from those the glyphs
come back. The other way round nothing is lost at all, since a byte that a glyph
would keep out is the byte of that glyph.

## Main results

* `Memory.storeAll_of_read` — storing what is there changes nothing.
* `Console.StoresBlock.reg_loaded` — what is loaded from a block that was stored.
* `store_load_inverse` — registers and digits through memory and back, and memory through registers.
-/

namespace Chip8

/-! ## Storing what is there -/

namespace Memory

theorem store_read (a : Nat) (m : Memory) : m.store a (m.read a) = m := by
  unfold store
  split
  · rfl
  · simp [write, read]

/-- **Storing in each cell the byte it has changes nothing**, however often a cell is met. -/
theorem storeAll_of_read {a : Nat} {values : List UInt8} {m : Memory}
    (hSame : ∀ k (hk : k < values.length), values[k] = m.read (a + k)) :
    m.storeAll a values = m := by
  induction values generalizing a with
  | nil => rfl
  | cons value rest ih =>
      have hFirst : value = m.read a := hSame 0 (Nat.zero_lt_succ _)
      rw [storeAll, hFirst, store_read]
      apply ih
      intro k hk
      rw [Nat.add_assoc, Nat.add_comm 1]
      exact hSame (k + 1) (Nat.succ_lt_succ hk)

/-- What is read where the glyphs are. -/
theorem HoldsFont.read {m : Memory} (h : m.HoldsFont) {a : Nat} (ha : a < Font.size) :
    m.read a = Font.glyphs.get ⟨a, ha⟩ := by
  have hRow : (m.slice 0 Font.size)[a]? = Font.glyphs.toList[a]? := by rw [h]
  have hGlyph : a < Font.glyphs.toList.length := by
    rw [Vector.length_toList]
    exact ha
  have hSlice : (m.slice 0 Font.size)[a]? = some (m.read a) := by simp [slice, ha]
  rw [hSlice, List.getElem?_eq_getElem hGlyph, Option.some_inj] at hRow
  exact hRow

end Memory

/-! ## Loading a block -/

theorem Cpu.reg_loadIndexed (x k : Reg) (c : Cpu) :
    (c.loadIndexed x).reg k = if k ≤ x then c.memory.read (c.index.toNat + k.val) else c.reg k := by
  have hGet : (c.loadIndexed x).reg k =
      if k.val ≤ x.val then c.memory.read (c.index.toNat + k.val) else c.reg ⟨k.val, k.isLt⟩ :=
    Vector.getElem_ofFn k.isLt
  rw [hGet]
  rfl

namespace Console

variable {δ : Type} [Devices δ]

/-- What a block of registers leaves in memory, as a row of stores. -/
theorem execute_storeRegisters_memory (x : Fin 16) (c : Console δ) :
    (c.execute (Word.ofNibbles 15 x 5 5)).state.machine.cpu.memory =
      c.machine.cpu.memory.storeAll c.machine.cpu.index.toNat (c.machine.cpu.firstRegisters x) := by
  rw [execute_storeRegisters]
  rfl

private theorem execute_loadRegisters_cpu (x : Fin 16) (c : Console δ) :
    (c.execute (Word.ofNibbles 15 x 6 5)).state.machine.cpu =
      c.machine.cpu.advance.loadIndexed x := by
  rw [execute_of_instr (Instr.ofWord?_transfer x 6 5)]
  rfl

theorem StoresBlock.index {word : Word} {values : List UInt8} {c : Console δ}
    (h : c.StoresBlock word values) :
    (c.execute word).state.machine.cpu.index = c.machine.cpu.index :=
  (congrArg (fun d : Console δ => d.machine.cpu.index) h.only).trans rfl

/-- **What is loaded from a block that was stored**: above the font the bytes of the block, and in
the font what was there before. -/
theorem StoresBlock.reg_loaded {word : Word} {values : List UInt8} {c d : Console δ}
    (h : c.StoresBlock word values)
    (hMemory : d.machine.cpu.memory = (c.execute word).state.machine.cpu.memory)
    (hIndex : d.machine.cpu.index = c.machine.cpu.index) {x k : Fin 16} (hk : k ≤ x)
    (hInside : k.val < values.length) :
    (d.execute (Word.ofNibbles 15 x 6 5)).state.machine.cpu.reg k =
      if c.machine.cpu.cellAt k.val < Font.size then
        c.machine.cpu.memory.read (c.machine.cpu.cellAt k.val)
      else values[k.val] := by
  have hLoaded : (d.execute (Word.ofNibbles 15 x 6 5)).state.machine.cpu.reg k =
      (c.execute word).state.machine.cpu.memory.read
        (c.machine.cpu.cellAt k.val) := by
    rw [execute_loadRegisters_cpu, Cpu.reg_loadIndexed, if_pos hk, ← hMemory, Cpu.read_cellAt,
      ← hIndex]
    rfl
  rw [hLoaded]
  split
  next hBelow => exact h.kept k.val hInside hBelow
  next hAbove => exact h.held k.val hInside (Nat.not_lt.1 hAbove)

/-- Loading a block leaves its registers with the bytes of memory, and memory alone. -/
theorem storeRegisters_loadRegisters (x : Fin 16) (c : Console δ) :
    ((c.execute (Word.ofNibbles 15 x 6 5)).state.execute
      (Word.ofNibbles 15 x 5 5)).state.machine.cpu.memory = c.machine.cpu.memory := by
  have hMemory : (c.machine.cpu.advance.loadIndexed x).memory = c.machine.cpu.memory := rfl
  have hIndex : (c.machine.cpu.advance.loadIndexed x).index = c.machine.cpu.index := rfl
  rw [execute_storeRegisters_memory, execute_loadRegisters_cpu, hMemory, hIndex]
  apply Memory.storeAll_of_read
  intro k hk
  simp only [Cpu.firstRegisters_eq, List.getElem_ofFn]
  rw [Cpu.firstRegisters_eq, List.length_ofFn] at hk
  rw [Cpu.reg_loadIndexed]
  exact if_pos (Nat.le_of_lt_succ hk)

end Console

/-- **Storing and loading blocks are inverse, up to the font.**  What `Fx55` stored, `Fx65` loads,
whatever was put into the registers in between; a register whose cell is in the font gets the byte
of the glyph there, and the registers above `Vx` and the index are left alone. What `Fx65` loaded,
`Fx55` puts back, so that memory is as it was. The digits that `Fx33` stored above the font, `F265`
loads into `V0`, `V1` and `V2`. -/
theorem store_load_inverse {δ : Type} [Devices δ] (x : Fin 16) (c : Console δ) :
    let cpu := c.machine.cpu
    (cpu.memory.slice 0 Font.size = Font.glyphs.toList → ∀ registers : Vector UInt8 16,
      let stored := (c.execute (Word.ofNibbles 15 x 5 5)).state
      let changed := stored.mapCpu fun cpu => { cpu with registers }
      let loaded := (changed.execute (Word.ofNibbles 15 x 6 5)).state.machine.cpu
      (∀ k ≤ x, Font.size ≤ cpu.cellAt k → loaded.reg k = cpu.reg k) ∧
      (∀ k ≤ x, ∀ hBelow : cpu.cellAt k < Font.size,
        loaded.reg k = Font.glyphs.get ⟨cpu.cellAt k, hBelow⟩) ∧
      (∀ k > x, loaded.reg k = registers.get k) ∧
      loaded.index = cpu.index) ∧
    ((c.execute (Word.ofNibbles 15 x 6 5)).state.execute
      (Word.ofNibbles 15 x 5 5)).state.machine.cpu.memory = cpu.memory ∧
    ((∀ k < 3, Font.size ≤ cpu.cellAt k) →
      let stored := (c.execute (Word.ofNibbles 15 x 3 3)).state
      let loaded := (stored.execute (Word.ofNibbles 15 2 6 5)).state.machine.cpu
      loaded.reg 0 ≤ 9 ∧ loaded.reg 1 ≤ 9 ∧ loaded.reg 2 ≤ 9 ∧
      100 * (loaded.reg 0).toNat + 10 * (loaded.reg 1).toNat + (loaded.reg 2).toNat =
        (cpu.reg x).toNat) := by
  intro cpu
  refine ⟨fun hFont registers => ?_, c.storeRegisters_loadRegisters x, fun hAbove => ?_⟩
  · intro stored changed loaded
    have hStores := c.storesBlock_registers x
    have hIndex : changed.machine.cpu.index = cpu.index := hStores.index
    have hCpu : loaded = changed.machine.cpu.advance.loadIndexed x :=
      changed.execute_loadRegisters_cpu x
    have hLoaded (k : Fin 16) (hk : k ≤ x) : loaded.reg k =
        if cpu.cellAt k < Font.size then cpu.memory.read (cpu.cellAt k) else cpu.reg k := by
      have hInside : k.val < (cpu.firstRegisters x).length := by
        rw [Cpu.firstRegisters_eq, List.length_ofFn]
        exact Nat.lt_succ_of_le hk
      have hReg : (cpu.firstRegisters x)[k.val] = cpu.reg k := by
        simp only [Cpu.firstRegisters_eq, List.getElem_ofFn]
        rfl
      rw [← hReg]
      exact hStores.reg_loaded (d := changed) rfl hIndex hk hInside
    refine ⟨fun k hk hHigh => ?_, fun k hk hBelow => ?_, fun k hk => ?_, ?_⟩
    · rw [hLoaded k hk, if_neg (Nat.not_lt.2 hHigh)]
    · rw [hLoaded k hk, if_pos hBelow]
      exact Memory.HoldsFont.read hFont hBelow
    · rw [hCpu, Cpu.reg_loadIndexed, if_neg (Fin.not_le.2 hk)]
      rfl
    · rw [hCpu]
      exact hIndex
  · intro stored loaded
    obtain ⟨hundreds, tens, ones, hDigits, hLe⟩ := exists_decimalDigits (cpu.reg x)
    have hStores := c.storesBlock_decimal x
    rw [hDigits] at hStores
    have hLoaded (k : Fin 16) (hk : k.val < 3) : loaded.reg k = [hundreds, tens, ones][k.val] := by
      have hLast : k ≤ 2 := Nat.le_of_lt_succ hk
      refine (hStores.reg_loaded rfl hStores.index hLast hk).trans ?_
      exact if_neg (Nat.not_lt.2 (hAbove k.val hk))
    rw [hLoaded 0 (by decide), hLoaded 1 (by decide), hLoaded 2 (by decide)]
    exact hLe

/-- Four registers stored from the last but one cell on, all registers set to nine, and the four
loaded back: the third gets the first row of the glyph of zero. Elsewhere, a value and its digits.
-/
theorem store_load_inverse_around_end :
    let start : Console Headless := ⟨Machine.new {} (.cycling [1]), {}⟩
    let c := start.afterAll [.execute 0x6007, .execute 0xAFFE]
    let d := start.afterAll [.execute 0x60FE, .execute 0xA300]
    let changed := (c.execute (Word.ofNibbles 15 3 5 5)).state.mapCpu fun cpu =>
      { cpu with registers := Vector.replicate 16 9 }
    let loaded := (changed.execute (Word.ofNibbles 15 3 6 5)).state.machine.cpu
    let digits := ((d.execute (Word.ofNibbles 15 0 3 3)).state.execute
      (Word.ofNibbles 15 2 6 5)).state.machine.cpu
    c.machine.cpu.memory.slice 0 Font.size = Font.glyphs.toList ∧
      (∀ k < 3, Font.size ≤ d.machine.cpu.cellAt k) ∧
      loaded.reg 0 = 7 ∧ loaded.reg 2 = 0xF0 ∧ loaded.reg 4 = 9 ∧
      100 * (digits.reg 0).toNat + 10 * (digits.reg 1).toNat + (digits.reg 2).toNat = 254 := by
  intro start c d changed loaded digits
  have hFont : c.machine.cpu.memory.HoldsFont := Memory.holdsFont_ofProgram []
  have hAbove : ∀ k < 3, Font.size ≤ d.machine.cpu.cellAt k := by decide
  obtain ⟨hAround, -, -⟩ := store_load_inverse 3 c
  obtain ⟨hHigh, hLow, hRest, -⟩ := hAround hFont (Vector.replicate 16 9)
  have hGlyph : loaded.reg 2 = 0xF0 := (hLow 2 (by decide) (by decide)).trans (by decide)
  obtain ⟨-, -, hDecimal⟩ := store_load_inverse 0 d
  obtain ⟨-, -, -, hValue⟩ := hDecimal hAbove
  exact ⟨hFont, hAbove, hHigh 0 (by decide) (by decide), hGlyph, hRest 4 (by decide), hValue⟩

end Chip8
