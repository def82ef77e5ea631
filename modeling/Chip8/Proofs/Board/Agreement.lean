import Chip8.Proofs.Board.Interpreter
import Mathlib.Data.Nat.Bitwise

/-!
# The bare interpreter agrees with the machine

Every machine is laid out in arrays by `Board.ofMachine`, and every `Headless`
display and keypad by `Panel.ofHeadless`. On what is laid out so, each piece of
the bare interpreter goes through without a crash and comes to the layout of
what the machine does: `Carries` says this of the pieces that act on the board
alone, `Agrees` of those that also end with an answer or a fault.

The checks pass for different reasons. Registers, stack slots and pixels are
numbered within bounds because nibbles are below sixteen, because a call looks
at the depth first and because coordinates are masked; the sums stay small
because a word is at most 65535 and what is added to it at most a byte.
-/

namespace Chip8

open Checked

/-! ## Fields of a word -/

namespace Field

/-- A run of bits of a word, cut out by a mask and moved to the right. -/
private theorem toNat_masked {mask shift : UInt16} {low width : Nat} (hLow : shift.toNat % 16 = low)
    (hMask : mask.toNat >>> low = 2 ^ width - 1) (w : Word) :
    ((w &&& mask) >>> shift).toNat = w.toNat / 2 ^ low % 2 ^ width := by
  rw [UInt16.toNat_shiftRight, UInt16.toNat_and, hLow, Nat.shiftRight_and_distrib, hMask,
    Nat.and_two_pow_sub_one_eq_mod, Nat.shiftRight_eq_div_pow]

theorem family_eq (w : Word) : family w = w.family.val := by
  have hLt := w.toNat_lt
  have hMasked : family w = w.toNat / 2 ^ 12 % 2 ^ 4 := toNat_masked rfl rfl w
  simp only [hMasked, Word.family]
  omega

theorem x_eq (w : Word) : x w = w.x.val := by
  have hMasked : x w = w.toNat / 2 ^ 8 % 2 ^ 4 := toNat_masked rfl rfl w
  exact hMasked

theorem y_eq (w : Word) : y w = w.y.val := by
  have hMasked : y w = w.toNat / 2 ^ 4 % 2 ^ 4 := toNat_masked rfl rfl w
  exact hMasked

theorem n_eq (w : Word) : n w = w.n.val := by
  rw [n, UInt16.toNat_and]
  exact Nat.and_two_pow_sub_one_eq_mod w.toNat 4

theorem kk_eq (w : Word) : kk w = w.kk := by
  apply UInt8.toNat_inj.1
  rw [kk, Word.toNat_kk, UInt16.toNat_toUInt8, UInt16.toNat_and]
  have hMasked : w.toNat &&& (255 : UInt16).toNat = w.toNat % 256 :=
    Nat.and_two_pow_sub_one_eq_mod w.toNat 8
  omega

theorem nnn_eq (w : Word) : nnn w = w.nnn := by
  apply UInt16.toNat_inj.1
  rw [nnn, Word.toNat_nnn, UInt16.toNat_and]
  exact Nat.and_two_pow_sub_one_eq_mod w.toNat 12

end Field

/-! ## Devices -/

/-- Checked devices that show what other devices are at, and never crash on it. -/
structure Shows {δ ε : Type} [Devices δ] [CheckedDevices ε] (shown : δ → ε) : Prop where
  toggle : ∀ x y d, CheckedDevices.toggle x y (shown d) =
    .ok ((Devices.toggle x y d).1, shown (Devices.toggle x y d).2)
  clear : ∀ d, CheckedDevices.clear (shown d) = shown (Devices.clear d)
  pressed : ∀ key d, CheckedDevices.pressed key (shown d) =
    .ok ((Devices.pressed key d).1, shown (Devices.pressed key d).2)
  toneOn : ∀ frequency d, CheckedDevices.toneOn frequency (shown d) =
    shown (Devices.toneOn frequency d)
  toneOff : ∀ d, CheckedDevices.toneOff (shown d) = shown (Devices.toneOff d)

theorem Devices.shows_self {δ : Type} [Devices δ] : Shows (fun d : δ => d) :=
  ⟨fun _ _ _ => rfl, fun _ => rfl, fun _ _ => rfl, fun _ _ => rfl, fun _ => rfl⟩

namespace Panel

/-- The devices in memory laid out in arrays. -/
def ofHeadless (h : Headless) : Panel :=
  { pixels := h.display.pixels.toArray, keys := UInt16.ofNat h.keys.mask, tone := h.tone }

private theorem position_ok (x y : Nat) : position x y = .ok (Framebuffer.index x y).val := by
  have hX : x &&& 63 = x % 64 := Nat.and_two_pow_sub_one_eq_mod x 6
  have hY : y &&& 31 = y % 32 := Nat.and_two_pow_sub_one_eq_mod y 5
  have hRow : mulSize (y % 32) 64 = .ok (y % 32 * 64) :=
    mulSize_ok (by unfold sizeLimit; omega)
  have hSum : addSize (x % 64) (y % 32 * 64) = .ok (x % 64 + y % 32 * 64) :=
    addSize_small (by omega) (by omega)
  rw [position, hX, hY, hRow, ok_bind, hSum, Framebuffer.index, Nat.mul_comm]

private theorem toggle_ofHeadless (x y : Nat) (h : Headless) :
    toggle x y (ofHeadless h) =
      .ok ((Devices.toggle x y h).1, ofHeadless (Devices.toggle x y h).2) := by
  have hIndex := (Framebuffer.index x y).isLt
  have hRead : read (ofHeadless h).pixels (Framebuffer.index x y).val =
      .ok (h.display.pixel x y) := read_ok h.display.pixels _ hIndex
  have hWrite : write (ofHeadless h).pixels (Framebuffer.index x y).val (!h.display.pixel x y) =
      .ok (h.display.toggle x y).2.pixels.toArray := write_ok h.display.pixels _ hIndex _
  rw [toggle, position_ok, ok_bind, hRead, ok_bind, hWrite]
  rfl

theorem testBit_keys (key : Key) (h : Headless) :
    (ofHeadless h).keys.toNat.testBit key.val = h.keys.isPressed key := by
  have hLt := h.keys.mask_lt
  have hMask : (ofHeadless h).keys.toNat = h.keys.mask := by
    simp only [ofHeadless, UInt16.toNat_ofNat']
    omega
  rw [hMask, Keypad.testBit_mask]

private theorem toNat_keyBit (key : Key) :
    (1 <<< UInt16.ofNat key.val : UInt16).toNat = 2 ^ key.val := by
  revert key
  decide

private theorem testBit_keyBit (key other : Key) :
    (1 <<< UInt16.ofNat key.val : UInt16).toNat.testBit other.val = decide (key = other) := by
  rw [toNat_keyBit, Nat.testBit_two_pow]
  simp only [Fin.ext_iff]

private theorem testBit_not_keyBit (key other : Key) :
    (~~~(1 <<< UInt16.ofNat key.val : UInt16)).toNat.testBit other.val = !decide (key = other) := by
  have hLt : 2 ^ key.val < 2 ^ 16 := Nat.pow_lt_pow_right (by decide) key.isLt
  have hNot : (~~~(1 <<< UInt16.ofNat key.val : UInt16)).toNat = 2 ^ 16 - (2 ^ key.val + 1) := by
    rw [UInt16.toNat_not, toNat_keyBit]
    show 65536 - 1 - 2 ^ key.val = _
    omega
  rw [hNot, Nat.testBit_two_pow_sub_succ hLt, decide_eq_true other.isLt, Bool.true_and,
    Nat.testBit_two_pow]
  simp only [Fin.ext_iff]

private theorem isPressed_ofHeadless (key : Key) (h : Headless) :
    isPressed key (ofHeadless h) = .ok (h.keys.isPressed key) := by
  have hPos : 0 < 2 ^ key.val := Nat.two_pow_pos key.val
  have hBit : (ofHeadless h).keys &&& 1 <<< UInt16.ofNat key.val > 0 ↔
      h.keys.isPressed key = true := by
    rw [← testBit_keys, gt_iff_lt, UInt16.lt_iff_toNat_lt, UInt16.toNat_and, toNat_keyBit,
      Nat.and_two_pow]
    cases (ofHeadless h).keys.toNat.testBit key.val <;> simp [hPos]
  rw [isPressed, shiftLeft16_ok 1 key.isLt, ok_bind, pure_eq_ok]
  simp only [hBit, Bool.decide_eq_true]

theorem keys_ext {a b : UInt16}
    (hBits : ∀ key : Key, a.toNat.testBit key.val = b.toNat.testBit key.val) : a = b := by
  apply UInt16.toNat_inj.1
  apply Nat.eq_of_testBit_eq
  intro i
  by_cases hKey : i < 16
  · exact hBits ⟨i, hKey⟩
  · have hWide : 2 ^ 16 ≤ 2 ^ i := Nat.pow_le_pow_right (by decide) (by omega)
    have hA : a.toNat < 2 ^ i := Nat.lt_of_lt_of_le a.toNat_lt hWide
    have hB : b.toNat < 2 ^ i := Nat.lt_of_lt_of_le b.toNat_lt hWide
    rw [Nat.testBit_lt_two_pow hA, Nat.testBit_lt_two_pow hB]

theorem setKey_ofHeadless (key : Key) (pressed : Bool) (h : Headless) :
    setKey key pressed (ofHeadless h) =
      .ok (ofHeadless { h with keys := h.keys.set key pressed }) := by
  have hBits : (if pressed then (ofHeadless h).keys ||| 1 <<< UInt16.ofNat key.val
      else (ofHeadless h).keys &&& ~~~(1 <<< UInt16.ofNat key.val)) =
      (ofHeadless { h with keys := h.keys.set key pressed }).keys := by
    apply keys_ext
    intro other
    rw [testBit_keys]
    by_cases hSame : key = other
    · subst hSame
      rw [Keypad.isPressed_set_self]
      cases pressed <;> simp [UInt16.toNat_or, UInt16.toNat_and, testBit_keyBit,
        testBit_not_keyBit, -UInt16.toNat_not, -UInt16.toNat_shiftLeft]
    · rw [Keypad.isPressed_set_ne hSame, ← testBit_keys]
      cases pressed <;> simp [UInt16.toNat_or, UInt16.toNat_and, testBit_keyBit,
        testBit_not_keyBit, hSame, -UInt16.toNat_not, -UInt16.toNat_shiftLeft]
  rw [setKey, shiftLeft16_ok 1 key.isLt, ok_bind, pure_eq_ok, hBits]
  rfl

theorem shows_headless : Shows ofHeadless where
  toggle := toggle_ofHeadless
  clear h := by
    show { ofHeadless h with pixels := Array.replicate (ofHeadless h).pixels.size false } = _
    simp [ofHeadless, Devices.clear, Framebuffer.blank]
  pressed key h := by
    show (do return (← isPressed key (ofHeadless h), ofHeadless h)) = _
    rw [isPressed_ofHeadless]
    rfl
  toneOn _ _ := rfl
  toneOff _ := rfl

end Panel

/-! ## The board -/

namespace Board

/-- A machine laid out in arrays. -/
def ofMachine (m : Machine) : Board :=
  { pc := m.cpu.pc
    registers := m.cpu.registers.toArray
    index := m.cpu.index
    delay := m.cpu.delay
    sound := m.cpu.sound
    wait := m.cpu.wait.map Fin.val
    memory := m.cpu.memory.cells.toArray
    slots := m.cpu.stack.slots.toArray
    depth := m.cpu.stack.depth
    random := m.random
    conf := m.conf
    hasProgram := m.hasProgram
    trap := m.trap }

theorem getReg_ofMachine (r : Reg) (m : Machine) :
    (ofMachine m).getReg r.val = .ok (m.cpu.reg r) :=
  read_ok m.cpu.registers r.val r.isLt

theorem setReg_ofMachine (r : Reg) (value : UInt8) (m : Machine) :
    (ofMachine m).setReg r.val value = .ok (ofMachine { m with cpu := m.cpu.setReg r value }) := by
  have hWrite : write (ofMachine m).registers r.val value =
      .ok (m.cpu.setReg r value).registers.toArray := write_ok m.cpu.registers r.val r.isLt value
  rw [setReg, hWrite]
  rfl

private theorem and_cellMask (address : Nat) : address &&& 4095 = (Memory.cell address).val :=
  Nat.and_two_pow_sub_one_eq_mod address 12

theorem loadByte_ofMachine (address : Nat) (m : Machine) :
    (ofMachine m).loadByte address = .ok (m.cpu.memory.read address) := by
  rw [loadByte, and_cellMask]
  exact read_ok m.cpu.memory.cells _ (Memory.cell address).isLt

private theorem storeByte_ofMachine (address : Nat) (value : UInt8) (m : Machine) :
    (ofMachine m).storeByte address value =
      .ok (ofMachine { m with cpu.memory := m.cpu.memory.store address value }) := by
  have hWrite : write (ofMachine m).memory (Memory.cell address).val value =
      .ok (m.cpu.memory.write address value).cells.toArray :=
    write_ok m.cpu.memory.cells _ (Memory.cell address).isLt value
  rw [storeByte, and_cellMask]
  by_cases hGlyph : (Memory.cell address).val < Font.size
  · have hProtected : Memory.isProtected address = true := decide_eq_true hGlyph
    rw [Memory.store_of_protected hProtected]
    exact if_pos hGlyph
  · have hFree : Memory.isProtected address = false := decide_eq_false hGlyph
    rw [Memory.store_of_not_protected hFree]
    simp only [if_neg hGlyph, hWrite]
    rfl

theorem fetch_ofMachine (m : Machine) :
    (ofMachine m).fetch = .ok (m.cpu.memory.fetch m.cpu.pc.toNat) := by
  have hNext : addSize (ofMachine m).pc.toNat 1 = .ok (m.cpu.pc.toNat + 1) :=
    addSize_small m.cpu.pc.toNat_lt (by decide)
  rw [fetch, loadByte_ofMachine, ok_bind, hNext, ok_bind, loadByte_ofMachine]
  rfl

/-! ### The call stack -/

theorem push_ofMachine (address : UInt16) (m : Machine) :
    (ofMachine m).push address = .ok ((m.cpu.stack.push address).map fun stack =>
      ofMachine { m with cpu.stack := stack }) := by
  have hDepth := m.cpu.stack.depth_le
  by_cases hFull : m.cpu.stack.depth = stackSize
  · have hPush : m.cpu.stack.push address = .error .stackOverflow := by
      simp [CallStack.push, hFull]
    rw [hPush]
    exact if_pos hFull
  · have hRoom : m.cpu.stack.depth < stackSize := by omega
    have hWrite : write (ofMachine m).slots (ofMachine m).depth address =
        .ok (m.cpu.stack.slots.set m.cpu.stack.depth address).toArray :=
      write_ok m.cpu.stack.slots _ hRoom address
    have hSmall : m.cpu.stack.depth < 65536 := Nat.lt_trans hRoom (by decide)
    have hNext : addSize (ofMachine m).depth 1 = .ok (m.cpu.stack.depth + 1) :=
      addSize_small hSmall (by decide)
    have hPush : m.cpu.stack.push address =
        .ok ⟨m.cpu.stack.slots.set m.cpu.stack.depth address, m.cpu.stack.depth + 1, hRoom⟩ :=
      dif_pos hRoom
    have hNotFull : ¬ (ofMachine m).depth = stackSize := hFull
    rw [push, if_neg hNotFull, hWrite, ok_bind, hNext, hPush]
    rfl

theorem pop_ofMachine (m : Machine) :
    (ofMachine m).pop = .ok (m.cpu.stack.pop.map fun (address, stack) =>
      (address, ofMachine { m with cpu.stack := stack })) := by
  have hDepth := m.cpu.stack.depth_le
  by_cases hNone : m.cpu.stack.depth = 0
  · have hPop : m.cpu.stack.pop = .error .stackUnderflow := by simp [CallStack.pop, hNone]
    rw [hPop]
    exact if_pos hNone
  · have hHeld : 0 < m.cpu.stack.depth := by omega
    have hSlot : m.cpu.stack.depth - 1 < stackSize := by omega
    have hNext : subSize (ofMachine m).depth 1 = .ok (m.cpu.stack.depth - 1) := subSize_ok hHeld
    have hRead : read (ofMachine m).slots (m.cpu.stack.depth - 1) =
        .ok m.cpu.stack.slots[m.cpu.stack.depth - 1] := read_ok m.cpu.stack.slots _ hSlot
    have hPop : m.cpu.stack.pop = .ok (m.cpu.stack.slots[m.cpu.stack.depth - 1],
        ⟨m.cpu.stack.slots, m.cpu.stack.depth - 1, Nat.le_of_lt hSlot⟩) := dif_pos hHeld
    have hSome : ¬ (ofMachine m).depth = 0 := hNone
    rw [pop, if_neg hSome, hNext, ok_bind, hRead, ok_bind, hPop]
    rfl

/-! ### Loading -/

private theorem loadFont_blank {b : Board} (hBlank : b.memory = Array.replicate 4096 0) :
    b.loadFont = .ok { b with memory := Memory.powerOn.cells.toArray } := by
  have hStop : addSize 0 Font.size = .ok Font.size := addSize_ok (by decide)
  have hCopy : copyRange (Vector.replicate 4096 (0 : UInt8)).toArray 0 Font.size
      Font.glyphs.toArray = .ok Memory.powerOn.cells.toArray := by
    apply copyRange_ok (Nat.zero_le Font.size) (by decide) rfl
    · intro i hi h
      have hGlyph : i < 80 := h.2
      simp [Memory.powerOn, Memory.ofProgram, hGlyph]
    · intro i hi h
      have hGlyph : ¬ i < 80 := fun hLt => h ⟨Nat.zero_le i, hLt⟩
      simp [Memory.powerOn, Memory.ofProgram, hGlyph]
  rw [loadFont, hStop, ok_bind, hBlank, ← Vector.toArray_replicate, hCopy]
  rfl

theorem powerOn_eq (conf : Conf) (random : RandomSource) :
    powerOn conf random = .ok (ofMachine (Machine.new conf random)) :=
  loadFont_blank rfl

private theorem reset_ofMachine (m : Machine) :
    (ofMachine m).reset = .ok (ofMachine { m with cpu := .powerOn }) := by
  have hSize : (ofMachine m).memory.size = 4096 := m.cpu.memory.cells.size_toArray
  rw [reset, loadFont_blank (by rw [hSize])]
  simp [ofMachine, Cpu.powerOn, CallStack.empty, stackSize, programStart]

private theorem copyRange_program {program : List UInt8} (hLength : program.length ≤ 3583) :
    copyRange Memory.powerOn.cells.toArray programStart (programStart + program.length)
      program.toArray = .ok (Memory.ofProgram program).cells.toArray := by
  apply copyRange_ok (Nat.le_add_right _ _) (by unfold programStart; omega) (by simp)
  · intro i hi h
    unfold programStart at h
    have hEnd : i - 512 < program.length := by omega
    simp [Memory.ofProgram, programStart, hEnd, show ¬ i < 80 by omega, Nat.not_lt.2 h.1]
  · intro i hi h
    unfold programStart at h
    by_cases hLow : i < 512
    · simp [Memory.powerOn, Memory.ofProgram, programStart, hLow]
    · have hOutside : program.length ≤ i - 512 := by omega
      simp [Memory.powerOn, Memory.ofProgram, programStart, hLow, hOutside,
        show ¬ i < 80 by omega]

theorem load_ofMachine (program : List UInt8) (m : Machine) :
    (ofMachine m).load program =
      .ok ((m.load program).result, ofMachine (m.load program).state) := by
  by_cases hSize : isProgramSize program.length = true
  · have hLength : program.length ≤ 3583 := by
      simp only [isProgramSize, Bool.and_eq_true, decide_eq_true_eq] at hSize
      exact hSize.2
    have hStop : addSize programStart program.length = .ok (programStart + program.length) :=
      addSize_small (by decide) (by omega)
    rw [load, hSize, Machine.load_of_accepted hSize, reset_ofMachine]
    simp only [Bool.not_true, Bool.false_eq_true, if_false, ok_bind, hStop, pure_eq_ok, ofMachine,
      Cpu.powerOn, copyRange_program hLength, Cpu.loaded]
  · rw [Machine.load_of_refused hSize, load]
    simp [hSize]

theorem keyDown_ofMachine (key : Key) (m : Machine) :
    ∃ resolved, (m.keyDown key).result = .ok resolved ∧
      (ofMachine m).keyDown key = .ok (resolved, ofMachine (m.keyDown key).state) := by
  cases hWait : m.cpu.wait with
  | none =>
      have hDown : m.keyDown key = { result := .ok false, state := m } := by
        simp only [Machine.keyDown, hWait]
      have hNone : (ofMachine m).wait = none := congrArg (Option.map Fin.val) hWait
      refine ⟨false, by rw [hDown], ?_⟩
      rw [hDown, keyDown, hNone]
      rfl
  | some x =>
      have hDown : m.keyDown key =
          { result := .ok true
            state := { m with cpu := { m.cpu.setReg x (UInt8.ofNat key.val) with wait := none } }
            records := #[.resolved key x] } := by
        simp only [Machine.keyDown, hWait]
      have hSome : (ofMachine m).wait = some x.val := congrArg (Option.map Fin.val) hWait
      have hSet := setReg_ofMachine x (UInt8.ofNat key.val) { m with cpu.wait := none }
      refine ⟨true, by rw [hDown], ?_⟩
      rw [hDown, keyDown, hSome]
      show (setReg x.val _ (ofMachine { m with cpu.wait := none }) >>= _) = _
      rw [hSet]
      rfl

/-! ### Arithmetic -/

private theorem and_lowBit (a : UInt8) : a &&& 0x01 = a % 2 := by
  apply UInt8.toNat_inj.1
  rw [UInt8.toNat_and, UInt8.toNat_mod]
  exact Nat.and_two_pow_sub_one_eq_mod a.toNat 1

private theorem shiftRight_one (a : UInt8) : a >>> 1 = a / 2 := by
  apply UInt8.toNat_inj.1
  rw [UInt8.toNat_shiftRight, UInt8.toNat_div]
  exact Nat.shiftRight_eq_div_pow a.toNat 1

private theorem shiftLeft_one (a : UInt8) : a <<< 1 = a * 2 := by
  apply UInt8.toNat_inj.1
  rw [UInt8.toNat_shiftLeft, UInt8.toNat_mul]
  exact congrArg (· % 256) (Nat.shiftLeft_eq a.toNat 1)

private theorem and_highBit (a : UInt8) : a &&& 0x80 = a / 128 * 128 := by
  have hLt := a.toNat_lt
  have hBit : a.toNat &&& 2 ^ 7 = (a.toNat.testBit 7).toNat * 2 ^ 7 := Nat.and_two_pow a.toNat 7
  have hTop : (a.toNat.testBit 7).toNat = a.toNat / 2 ^ 7 % 2 := Nat.toNat_testBit a.toNat 7
  apply UInt8.toNat_inj.1
  rw [UInt8.toNat_and, UInt8.toNat_mul, UInt8.toNat_div]
  show a.toNat &&& 2 ^ 7 = a.toNat / 128 * 128 % 256
  omega

theorem combined?_none {x y : Reg} {selector : Fin 16}
    (h : Instr.ofSelector? x y selector = none) (a b : UInt8) :
    combined? selector.val a b = none := by
  unfold Instr.ofSelector? at h
  split at h <;> cases h
  unfold combined?
  split <;> first | rfl | contradiction

/-- The processor with a flag, if there is one, in `VF`, and then a result in a register. -/
def flagged (x : Reg) (flag : Option UInt8) (result : UInt8) (cpu : Cpu) : Cpu :=
  match flag with
  | some flag => cpu.setFlagged x flag result
  | none => cpu.setReg x result

theorem combined?_some {δ : Type} [Devices δ] {x y : Reg} {selector : Fin 16} {instr : Instr}
    (h : Instr.ofSelector? x y selector = some instr) (c : Console δ) :
    ∃ flag result,
      combined? selector.val (c.machine.cpu.reg x) (c.machine.cpu.reg y) = some (flag, result) ∧
      instr.perform c = Console.done .proceed (c.withMachine
        { c.machine with cpu := flagged x flag result c.machine.cpu }) := by
  unfold Instr.ofSelector? at h
  split at h <;> cases h <;> rename_i hSelector <;> rw [hSelector]
  case h_7 =>
    refine ⟨_, _, rfl, ?_⟩
    rw [and_lowBit, shiftRight_one]
    rfl
  case h_9 =>
    refine ⟨_, _, rfl, ?_⟩
    rw [and_highBit, shiftLeft_one]
    rfl
  all_goals exact ⟨_, _, rfl, rfl⟩

/-! ### Operations on the processor alone -/

/-- The board operation does not crash, and does to the processor what a function does. -/
def Carries (f : Board → Checked Board) (g : Cpu → Cpu) : Prop :=
  ∀ m, f (ofMachine m) = .ok (ofMachine { m with cpu := g m.cpu })

private theorem skipIf_ofMachine (condition : Bool) (m : Machine) :
    (ofMachine m).skipIf condition = ofMachine { m with cpu := m.cpu.skipIf condition } := by
  cases condition <;> rfl

theorem carries_skipIf (condition : Bool) :
    Carries (fun b => return b.skipIf condition) (Cpu.skipIf condition) :=
  fun m => congrArg Except.ok (skipIf_ofMachine condition m)

theorem carries_skipOn (x : Reg) (test : UInt8 → Bool) :
    Carries (fun b => do return b.skipIf (test (← b.getReg x.val)))
      (fun cpu => cpu.skipIf (test (cpu.reg x))) := by
  intro m
  simp only [getReg_ofMachine, ok_bind, skipIf_ofMachine, pure_eq_ok]

theorem carries_skipOnBoth (x y : Reg) (test : UInt8 → UInt8 → Bool) :
    Carries (fun b => do return b.skipIf (test (← b.getReg x.val) (← b.getReg y.val)))
      (fun cpu => cpu.skipIf (test (cpu.reg x) (cpu.reg y))) := by
  intro m
  simp only [getReg_ofMachine, ok_bind, skipIf_ofMachine, pure_eq_ok]

theorem carries_increase (x : Reg) (value : UInt8) :
    Carries (fun b => do b.setReg x.val ((← b.getReg x.val) + value))
      (fun cpu => cpu.setReg x (cpu.reg x + value)) := by
  intro m
  simp only [getReg_ofMachine, ok_bind, setReg_ofMachine]

theorem carries_setFlagged (x : Reg) (flag : Option UInt8) (result : UInt8) :
    Carries (·.setFlagged x.val flag result) (flagged x flag result) := by
  intro m
  cases flag with
  | none => simp only [setFlagged, pure_eq_ok, ok_bind, setReg_ofMachine, flagged]
  | some value =>
      have hFlag := setReg_ofMachine Reg.flag value m
      have hValue : Reg.flag.val = 15 := rfl
      rw [hValue] at hFlag
      simp only [setFlagged, hFlag, ok_bind, setReg_ofMachine, flagged, Cpu.setFlagged]

theorem carries_pointGlyph (x : Reg) :
    Carries (fun b => do
      let offset ← mul16 (← b.getReg x.val).toUInt16 5
      return { b with index := ← add16 0 offset })
      (fun cpu => { cpu with index := UInt16.ofNat (Font.glyphHeight * (cpu.reg x).toNat) }) := by
  intro m
  have hLt := (m.cpu.reg x).toNat_lt
  have hFive : (5 : UInt16).toNat = 5 := rfl
  have hZero : (0 : UInt16).toNat = 0 := rfl
  have hFits : (m.cpu.reg x).toUInt16.toNat * (5 : UInt16).toNat < 65536 := by
    rw [UInt8.toNat_toUInt16, hFive]
    omega
  have hOffset : ((m.cpu.reg x).toUInt16 * 5).toNat = 5 * (m.cpu.reg x).toNat := by
    rw [UInt16.toNat_mul, UInt8.toNat_toUInt16, hFive]
    omega
  have hIndex : 0 + (m.cpu.reg x).toUInt16 * 5 =
      UInt16.ofNat (Font.glyphHeight * (m.cpu.reg x).toNat) := by
    apply UInt16.toNat_inj.1
    rw [UInt16.zero_add, hOffset, UInt16.toNat_ofNat']
    unfold Font.glyphHeight
    omega
  have hSum : add16 0 ((m.cpu.reg x).toUInt16 * 5) =
      .ok (UInt16.ofNat (Font.glyphHeight * (m.cpu.reg x).toNat)) := by
    rw [add16_ok (by rw [hOffset, hZero]; omega), hIndex]
  simp only [getReg_ofMachine, ok_bind, mul16_ok hFits, hSum, pure_eq_ok]
  rfl

theorem carries_jumpOffset {base : UInt16} (hBase : base.toNat < 4096) :
    Carries (fun b => do
      let target ← add16 base (← b.getReg 0).toUInt16
      return { b with pc := target &&& 0x0FFF })
      (fun cpu => cpu.jump
        (UInt16.ofNat ((base.toNat + (cpu.reg Reg.offset).toNat) % memorySize))) := by
  intro m
  have hReg := getReg_ofMachine Reg.offset m
  have hLt := (m.cpu.reg Reg.offset).toNat_lt
  have hWide : (m.cpu.reg Reg.offset).toUInt16.toNat = (m.cpu.reg Reg.offset).toNat :=
    UInt8.toNat_toUInt16 _
  have hSum : add16 base (m.cpu.reg Reg.offset).toUInt16 =
      .ok (base + (m.cpu.reg Reg.offset).toUInt16) := add16_ok (by omega)
  have hTarget : (base + (m.cpu.reg Reg.offset).toUInt16) &&& 0x0FFF =
      UInt16.ofNat ((base.toNat + (m.cpu.reg Reg.offset).toNat) % memorySize) := by
    apply UInt16.toNat_inj.1
    have hMask (a : Nat) : a &&& (0x0FFF : UInt16).toNat = a % 4096 :=
      Nat.and_two_pow_sub_one_eq_mod a 12
    rw [UInt16.toNat_and, hMask, UInt16.toNat_add, hWide, UInt16.toNat_ofNat']
    unfold memorySize
    omega
  have hZero : Reg.offset.val = 0 := rfl
  rw [hZero] at hReg
  simp only [hReg, ok_bind, hSum, pure_eq_ok, hTarget]
  rfl

theorem carries_storeDecimal (r : Reg) :
    Carries (·.storeDecimal r.val) (fun cpu => cpu.storeIndexed (decimalDigits (cpu.reg r))) := by
  intro m
  have hNext (k : Nat) (hk : k < 3) :
      addSize (ofMachine m).index.toNat k = .ok (m.cpu.index.toNat + k) :=
    addSize_small m.cpu.index.toNat_lt (by omega)
  simp only [storeDecimal, getReg_ofMachine, ok_bind, storeByte_ofMachine, hNext 1 (by decide),
    hNext 2 (by decide)]
  rfl

theorem carries_storeRegisters (r : Reg) :
    Carries (·.storeRegisters r.val) (fun cpu => cpu.storeIndexed (cpu.firstRegisters r)) := by
  intro m
  have hr := r.isLt
  let state (v : Nat) : Board :=
    ofMachine { m with cpu := m.cpu.storeIndexed (m.cpu.registers.toList.take v) }
  refine forCount_ok state ?_
  intro v hv
  have hReg : v < 16 := by omega
  have hAddress : addSize (ofMachine m).index.toNat v = .ok (m.cpu.index.toNat + v) :=
    addSize_small m.cpu.index.toNat_lt (by omega)
  have hTake : m.cpu.registers.toList.take (v + 1) =
      m.cpu.registers.toList.take v ++ [m.cpu.reg ⟨v, hReg⟩] := by
    rw [List.take_add_one, List.getElem?_eq_getElem (by simpa using hReg)]
    rfl
  have hStored : m.cpu.storeIndexed (m.cpu.registers.toList.take (v + 1)) =
      { m.cpu.storeIndexed (m.cpu.registers.toList.take v) with
        memory := (m.cpu.storeIndexed (m.cpu.registers.toList.take v)).memory.store
          (m.cpu.index.toNat + v) (m.cpu.reg ⟨v, hReg⟩) } := by
    rw [Cpu.storeIndexed, hTake, Memory.storeAll_append]
    simp [Cpu.storeIndexed, Memory.storeAll, Nat.min_eq_left (Nat.le_of_lt hReg)]
  have hValue := getReg_ofMachine ⟨v, hReg⟩
    { m with cpu := m.cpu.storeIndexed (m.cpu.registers.toList.take v) }
  simp only [hAddress, ok_bind, state, hValue, hStored, storeByte_ofMachine]
  rfl

/-- The address is fixed before the loop, so its states differ in the registers alone. -/
theorem carries_loadRegisters (r : Reg) : Carries (·.loadRegisters r.val) (Cpu.loadIndexed r) := by
  intro m
  have hr := r.isLt
  let filled (v : Nat) : Vector UInt8 16 := Vector.ofFn fun k =>
    if k.val < v then m.cpu.memory.read (m.cpu.index.toNat + k.val) else m.cpu.reg k
  let state (v : Nat) : Board := ofMachine { m with cpu.registers := filled v }
  have hNone : filled 0 = m.cpu.registers := by
    apply Vector.ext
    intro i hi
    simp [filled, Cpu.reg]
  have hAll : filled (r.val + 1) = (m.cpu.loadIndexed r).registers := by
    simp only [filled, Cpu.loadIndexed, Nat.lt_succ_iff]
  have hStart : ofMachine m = state 0 := by simp only [state, hNone]
  have hEnd : ofMachine { m with cpu := m.cpu.loadIndexed r } = state (r.val + 1) := by
    simp only [state, hAll]
    rfl
  rw [hEnd]
  refine (congrArg (forCount _ (r.val + 1)) hStart).trans (forCount_ok state ?_)
  intro v hv
  have hReg : v < 16 := by omega
  have hAddress : addSize (ofMachine m).index.toNat v = .ok (m.cpu.index.toNat + v) :=
    addSize_small m.cpu.index.toNat_lt (by omega)
  have hNext : (filled v).set v (m.cpu.memory.read (m.cpu.index.toNat + v)) = filled (v + 1) := by
    apply Vector.ext
    intro i hi
    simp only [filled, Vector.getElem_set, Vector.getElem_ofFn]
    by_cases hHere : v = i
    · simp [hHere]
    · have hBound : i < v ↔ i < v + 1 := by omega
      simp [hHere, hBound]
  have hSet := setReg_ofMachine ⟨v, hReg⟩ (m.cpu.memory.read (m.cpu.index.toNat + v))
    { m with cpu.registers := filled v }
  simp only [Cpu.setReg, hNext] at hSet
  simp only [hAddress, ok_bind, state, loadByte_ofMachine, hSet]

end Board
end Chip8
