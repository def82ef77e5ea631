import Chip8.Console.Operation
import Chip8.Instr.Encode
import Chip8.Proofs.Execution

/-!
# Blocks are stored around the end of memory and above the font

`Fx55` stores registers and `Fx33` the decimal digits of one, in a row of cells
from the index on. The row wraps at the end of memory, so it can enter the font
from above and leave it again. It is shorter than memory, and therefore none of
its cells is met twice: each cell above the font holds its own byte afterwards,
each cell of the font keeps the byte it had and is reported, and the rest of
memory is as it was.

## Main results

* `Memory.read_storeAll_own`, `Memory.read_storeAll_other` — what a row of stores leaves in the
  cells it reaches, and in all others.
* `Memory.protectedIn_eq` — the bytes that are kept out of the font, in order.
* `blocks_are_stored` — the two instructions that store blocks, and all other words.
-/

namespace Chip8

/-! ## A row of stores -/

namespace Memory

/-- Addresses that lie apart by less than the size of memory mean different cells. -/
theorem cell_add_ne {a j k : Nat} (hLess : j < k) (hNear : k < memorySize) :
    cell (a + j) ≠ cell (a + k) := by
  intro hSame
  have hVal : (a + j) % 4096 = (a + k) % 4096 := congrArg Fin.val hSame
  unfold memorySize at hNear
  omega

/-- A row of stores changes no cell that it does not reach. -/
theorem read_storeAll_other {a b : Nat} {values : List UInt8}
    (hOther : ∀ k < values.length, cell (a + k) ≠ cell b) (m : Memory) :
    (m.storeAll a values).read b = m.read b := by
  induction values generalizing a m with
  | nil => rfl
  | cons value rest ih =>
      have hFirst : cell a ≠ cell b := hOther 0 (Nat.zero_lt_succ _)
      have hRest : ∀ k < rest.length, cell (a + 1 + k) ≠ cell b := by
        intro k hk
        rw [Nat.add_assoc, Nat.add_comm 1]
        exact hOther (k + 1) (Nat.succ_lt_succ hk)
      rw [storeAll, ih hRest, store]
      split
      · rfl
      · exact read_write_other hFirst value m

theorem read_store_self (a : Nat) (value : UInt8) (m : Memory) :
    (m.store a value).read a = if isProtected a then m.read a else value := by
  unfold store
  split
  · rfl
  · exact read_write_same rfl value m

/-- **A row of stores puts each byte into its own cell**, unless a glyph is there. -/
theorem read_storeAll_own {a k : Nat} {values : List UInt8} (hk : k < values.length)
    (hFits : values.length ≤ memorySize) (m : Memory) :
    (m.storeAll a values).read (a + k) =
      if isProtected (a + k) then m.read (a + k) else values[k] := by
  induction values generalizing a k m with
  | nil => cases hk
  | cons value rest ih =>
      rw [List.length_cons] at hFits
      rw [storeAll]
      cases k with
      | zero =>
          have hBehind : ∀ j < rest.length, cell (a + 1 + j) ≠ cell a := by
            intro j hj
            rw [Nat.add_assoc]
            exact (cell_add_ne (a := a) (j := 0) (by omega) (by omega)).symm
          rw [Nat.add_zero, read_storeAll_other hBehind]
          exact read_store_self a value m
      | succ k =>
          have hRest := ih (a := a + 1) (Nat.lt_of_succ_lt_succ hk) (Nat.le_of_succ_le hFits)
            (m.store a value)
          rw [Nat.add_assoc, Nat.add_comm 1] at hRest
          rw [hRest, List.getElem_cons_succ]
          split
          next hGlyph => exact read_store_of_protected hGlyph a value m
          next => rfl

/-- **The bytes that are kept out of the font**, with their cells, in the order of the row. -/
theorem protectedIn_eq (a : Nat) (values : List UInt8) :
    protectedIn a values =
      (values.zipIdx.map fun (value, k) => (value, (a + k) % memorySize)).filter
        fun (_, cell) => cell < Font.size := by
  induction values generalizing a with
  | nil => rfl
  | cons value rest ih =>
      have hRest : protectedIn (a + 1) rest =
          ((rest.zipIdx 1).map fun (value, k) => (value, (a + k) % memorySize)).filter
            fun (_, cell) => cell < Font.size := by
        rw [ih, List.zipIdx_succ, List.map_map]
        simp only [Function.comp_def, Nat.add_assoc, Nat.add_comm 1]
      rw [protectedIn, List.zipIdx_cons, List.map_cons, hRest]
      by_cases hGlyph : isProtected a = true
      · rw [if_pos hGlyph, List.filter_cons_of_pos]
        · rfl
        · exact decide_eq_true ((isProtected_iff a).1 hGlyph)
      · rw [if_neg hGlyph, List.filter_cons_of_neg]
        exact mt of_decide_eq_true (mt (isProtected_iff a).2 hGlyph)

end Memory

/-! ## The words that store blocks -/

namespace Instr

private theorem word_of_storeDecimal {w : Word} {x : Reg} (h : ofWord? w = some (.storeDecimal x)) :
    w = Word.ofNibbles 15 x 3 3 := by
  have hCode := code_of_word h
  apply UInt16.toNat_inj.1
  rw [Word.toNat_ofNibbles, hCode, code]
  omega

private theorem word_of_storeRegisters {w : Word} {x : Reg}
    (h : ofWord? w = some (.storeRegisters x)) : w = Word.ofNibbles 15 x 5 5 := by
  have hCode := code_of_word h
  apply UInt16.toNat_inj.1
  rw [Word.toNat_ofNibbles, hCode, code]
  omega

end Instr

/-- The cell of memory that lies so far behind the index. -/
def Cpu.cellAt (k : Nat) (c : Cpu) : Nat := (c.index.toNat + k) % memorySize

theorem Cpu.read_cellAt (k : Nat) (c : Cpu) (m : Memory) :
    m.read (c.cellAt k) = m.read (c.index.toNat + k) :=
  Memory.read_congr (Nat.mod_mod _ _) m

/-- The registers up to one of them, as a row of bytes. -/
theorem Cpu.firstRegisters_eq (x : Reg) (c : Cpu) :
    c.firstRegisters x = List.ofFn fun k : Fin (x.val + 1) => c.reg (k.castLE x.isLt) := by
  have hx := x.isLt
  apply List.ext_getElem
  · rw [firstRegisters, List.length_take, Vector.length_toList, List.length_ofFn]
    omega
  · intro k hk hk'
    simp only [firstRegisters, reg, List.getElem_take, Vector.getElem_toList, List.getElem_ofFn]
    rfl

/-- Hundreds, tens and ones are digits, and make up the value. -/
theorem exists_decimalDigits (value : UInt8) :
    ∃ hundreds tens ones : UInt8, decimalDigits value = [hundreds, tens, ones] ∧
      hundreds ≤ 9 ∧ tens ≤ 9 ∧ ones ≤ 9 ∧
      100 * hundreds.toNat + 10 * tens.toNat + ones.toNat = value.toNat := by
  have hValue := value.toNat_lt
  refine ⟨value / 100, value / 10 % 10, value % 10, rfl, ?_⟩
  simp only [UInt8.le_iff_toNat_le, UInt8.toNat_div, UInt8.toNat_mod, UInt8.reduceToNat]
  omega

namespace Console

variable {δ : Type} [Devices δ]

/-- A word stores bytes in a row of cells from the index on, around the end of memory. -/
structure StoresBlock (word : Word) (values : List UInt8) (c : Console δ) : Prop where
  answered : (c.execute word).result = .ok .proceed
  /-- A cell above the font holds its byte afterwards. -/
  held : ∀ k (hk : k < values.length), Font.size ≤ c.machine.cpu.cellAt k →
    (c.execute word).state.machine.cpu.memory.read (c.machine.cpu.cellAt k) = values[k]
  /-- A cell of the font keeps the byte it had. -/
  kept : ∀ k < values.length, c.machine.cpu.cellAt k < Font.size →
    (c.execute word).state.machine.cpu.memory.read (c.machine.cpu.cellAt k) =
      c.machine.cpu.memory.read (c.machine.cpu.cellAt k)
  /-- The bytes that a glyph keeps out are reported, each once and in order. -/
  reported : (c.execute word).records.toList =
    ((values.zipIdx.map fun (value, k) => (value, c.machine.cpu.cellAt k)).filter
      fun (_, cell) => cell < Font.size).map fun (value, cell) => .dropped value cell
  /-- Every other cell is as it was. -/
  elsewhere : ∀ cell < memorySize, (∀ k < values.length, c.machine.cpu.cellAt k ≠ cell) →
    (c.execute word).state.machine.cpu.memory.read cell = c.machine.cpu.memory.read cell
  /-- Beside memory only the program counter moves. -/
  only : (c.execute word).state = { c with machine := { c.machine with cpu := { c.machine.cpu with
    pc := c.machine.cpu.pc + 2
    memory := (c.execute word).state.machine.cpu.memory } } }

/-- A word stores the bytes that its instruction takes to the index. -/
theorem storesBlock_of_execute {word : Word} {values : List UInt8} {c : Console δ}
    (hExecute : c.execute word = (c.mapCpu Cpu.advance).storeBlock values)
    (hFits : values.length ≤ memorySize) : c.StoresBlock word values := by
  have hMemory : (c.execute word).state.machine.cpu.memory =
      c.machine.cpu.memory.storeAll c.machine.cpu.index.toNat values := by
    rw [hExecute]
    rfl
  have hOwn (k : Nat) (hk : k < values.length) :
      (c.execute word).state.machine.cpu.memory.read (c.machine.cpu.cellAt k) =
        if c.machine.cpu.cellAt k < Font.size then
          c.machine.cpu.memory.read (c.machine.cpu.cellAt k)
        else values[k] := by
    rw [hMemory, Cpu.read_cellAt, Cpu.read_cellAt, Memory.read_storeAll_own hk hFits]
    simp only [Memory.isProtected_iff]
    rfl
  refine
    { answered := by rw [hExecute]; rfl
      held := fun k hk hAbove => ?_
      kept := fun k hk hBelow => ?_
      reported := ?_
      elsewhere := fun cell hCell hOther => ?_
      only := ?_ }
  · rw [hOwn k hk, if_neg (Nat.not_lt.2 hAbove)]
  · rw [hOwn k hk, if_pos hBelow]
  · simp only [Cpu.cellAt]
    rw [hExecute, ← Memory.protectedIn_eq]
    rfl
  · rw [hMemory]
    apply Memory.read_storeAll_other
    intro k hk hSame
    have hVal : c.machine.cpu.cellAt k = cell % memorySize := congrArg Fin.val hSame
    rw [Nat.mod_eq_of_lt hCell] at hVal
    exact hOther k hk hVal
  · rw [hExecute]
    rfl

theorem execute_storeRegisters (x : Fin 16) (c : Console δ) :
    c.execute (Word.ofNibbles 15 x 5 5) =
      (c.mapCpu Cpu.advance).storeBlock (c.machine.cpu.firstRegisters x) :=
  execute_of_instr (Instr.ofWord?_transfer x 5 5) c

private theorem execute_storeDecimal (x : Fin 16) (c : Console δ) :
    c.execute (Word.ofNibbles 15 x 3 3) =
      (c.mapCpu Cpu.advance).storeBlock (decimalDigits (c.machine.cpu.reg x)) :=
  execute_of_instr (Instr.ofWord?_transfer x 3 3) c

theorem storesBlock_registers (x : Fin 16) (c : Console δ) :
    c.StoresBlock (Word.ofNibbles 15 x 5 5) (c.machine.cpu.firstRegisters x) := by
  refine storesBlock_of_execute (c.execute_storeRegisters x) ?_
  have hx := x.isLt
  rw [Cpu.firstRegisters_eq, List.length_ofFn, memorySize]
  omega

theorem storesBlock_decimal (x : Fin 16) (c : Console δ) :
    c.StoresBlock (Word.ofNibbles 15 x 3 3) (decimalDigits (c.machine.cpu.reg x)) := by
  refine storesBlock_of_execute (c.execute_storeDecimal x) ?_
  show 3 ≤ 4096
  omega

/-- No word but the two that store blocks reaches memory. -/
theorem execute_memory_kept {word : Word} (hRegisters : ∀ x, word ≠ Word.ofNibbles 15 x 5 5)
    (hDecimal : ∀ x, word ≠ Word.ofNibbles 15 x 3 3) (c : Console δ) :
    (c.execute word).state.machine.cpu.memory = c.machine.cpu.memory := by
  cases hWord : Instr.ofWord? word with
  | none =>
      rw [execute_of_none hWord, refuse_machine]
      rfl
  | some instr =>
      rw [execute_of_instr hWord, Instr.perform_memory]
      cases instr
      case storeDecimal x => exact absurd (Instr.word_of_storeDecimal hWord) (hDecimal x)
      case storeRegisters x => exact absurd (Instr.word_of_storeRegisters hWord) (hRegisters x)
      all_goals rfl

end Console

/-- **Blocks are stored around the end of memory and above the font.**  `Fx55` stores the registers
up to `Vx` and `Fx33` the decimal digits of `Vx`, as `Console.StoresBlock` says. No other word
changes a cell. -/
theorem blocks_are_stored {δ : Type} [Devices δ] (c : Console δ) :
    (∀ x : Fin 16, c.StoresBlock (Word.ofNibbles 15 x 5 5)
      (List.ofFn fun k : Fin (x.val + 1) => c.machine.cpu.reg (k.castLE x.isLt))) ∧
    (∀ x : Fin 16, ∃ hundreds tens ones : UInt8, hundreds ≤ 9 ∧ tens ≤ 9 ∧ ones ≤ 9 ∧
      100 * hundreds.toNat + 10 * tens.toNat + ones.toNat = (c.machine.cpu.reg x).toNat ∧
      c.StoresBlock (Word.ofNibbles 15 x 3 3) [hundreds, tens, ones]) ∧
    ∀ word : Word, (∀ x, word ≠ Word.ofNibbles 15 x 5 5) →
      (∀ x, word ≠ Word.ofNibbles 15 x 3 3) →
      (c.execute word).state.machine.cpu.memory = c.machine.cpu.memory := by
  refine ⟨fun x => ?_, fun x => ?_, fun word hRegisters hDecimal => ?_⟩
  · rw [← Cpu.firstRegisters_eq]
    exact c.storesBlock_registers x
  · obtain ⟨hundreds, tens, ones, hDigits, hLe⟩ := exists_decimalDigits (c.machine.cpu.reg x)
    have hStores := c.storesBlock_decimal x
    rw [hDigits] at hStores
    exact ⟨hundreds, tens, ones, hLe.1, hLe.2.1, hLe.2.2.1, hLe.2.2.2, hStores⟩
  · exact c.execute_memory_kept hRegisters hDecimal

/-- Four registers stored from the last but one cell on: two of them meet the glyph of zero. A word
that is not one of the two leaves memory alone there. -/
theorem blocks_are_stored_around_end :
    let c := (⟨Machine.new {} (.cycling [1]), {}⟩ : Console Headless).afterAll
      [.execute 0x6007, .execute 0x6209, .execute 0xAFFE]
    let stored := c.execute (Word.ofNibbles 15 3 5 5)
    stored.state.machine.cpu.memory.read 0xFFE = 7 ∧
      stored.state.machine.cpu.memory.read 0 = c.machine.cpu.memory.read 0 ∧
      stored.records.toList = [.dropped 9 0, .dropped 0 1] ∧
      (∀ x, (0xF365 : Word) ≠ Word.ofNibbles 15 x 5 5) ∧
      (∀ x, (0xF365 : Word) ≠ Word.ofNibbles 15 x 3 3) ∧
      (c.execute 0xF365).state.machine.cpu.memory = c.machine.cpu.memory := by
  intro c stored
  have hRegisters : ∀ x, (0xF365 : Word) ≠ Word.ofNibbles 15 x 5 5 := by decide
  have hDecimal : ∀ x, (0xF365 : Word) ≠ Word.ofNibbles 15 x 3 3 := by decide
  obtain ⟨hBlock, -, hOther⟩ := blocks_are_stored c
  have hValues : (List.ofFn fun k : Fin ((3 : Fin 16).val + 1) =>
      c.machine.cpu.reg (k.castLE (3 : Fin 16).isLt)) = [7, 0, 9, 0] := by decide
  have hStores := hBlock 3
  rw [hValues] at hStores
  have hIndex : c.machine.cpu.index.toNat = 0xFFE := by decide
  have hHeld := hStores.held 0 (by decide) (by decide)
  have hKept := hStores.kept 2 (by decide) (by decide)
  have hReported := hStores.reported
  simp only [Cpu.cellAt, hIndex] at hHeld hKept hReported
  exact ⟨hHeld, hKept, hReported, hRegisters, hDecimal, hOther _ hRegisters hDecimal⟩

end Chip8
