import Chip8.Console.Operation
import Chip8.Instr.Encode
import Chip8.Proofs.Execution

/-!
# Arithmetic between registers

The words `8xyn` read both operands, then write the flag, then the result. What
they leave is stated here in numbers: the result from the two operands, and the
relation in which the flag stands to them as carry, as comparison, or as the bit
that a shift moved out. It holds whichever of the registers coincide, also with
the flag register: an operand in it is read before it is overwritten, and a
result in it is what remains there.

## Main results

* `Arithmetic.ofSelector?` — the nine operations, in numbers.
* `Console.execute_selected` — every one of them acts on the processor alone, as its numbers say.
* `arithmetic_with_aliasing` — all the words of the family.
-/

namespace Chip8

/-- An operation on two registers, in numbers. -/
structure Arithmetic where
  /-- What the first register holds afterwards, from the two operands. -/
  result : (a b : Nat) → Nat
  /-- What holds of the two operands, the result, and the flag before and after. -/
  flag : (a b result old new : Nat) → Prop

namespace Arithmetic

/-- The flag is left alone. -/
def flagKept (_ _ _ old new : Nat) : Prop := new = old

/-- The operation that the last nibble of an arithmetic word selects. Sums, differences and doubles
are taken modulo 256. -/
def ofSelector? (selector : Nat) : Option Arithmetic :=
  match selector with
  | 0x0 => some { result := fun _ b => b, flag := flagKept }
  | 0x1 => some { result := fun a b => a ||| b, flag := flagKept }
  | 0x2 => some { result := fun a b => a &&& b, flag := flagKept }
  | 0x3 => some { result := fun a b => a ^^^ b, flag := flagKept }
  | 0x4 => some {
      result := fun a b => (a + b) % 256
      flag := fun a b result _ carry => result + 256 * carry = a + b }
  | 0x5 => some {
      result := fun a b => (a + 256 - b) % 256
      flag := fun a b _ _ greater => greater = if b < a then 1 else 0 }
  | 0x6 => some {
      result := fun a _ => a / 2
      flag := fun a _ result _ low => 2 * result + low = a }
  | 0x7 => some {
      result := fun a b => (b + 256 - a) % 256
      flag := fun a b _ _ less => less = if a < b then 1 else 0 }
  | 0xE => some {
      result := fun a _ => 2 * a % 256
      flag := fun a _ result _ top => result + 2 * top = 2 * a ∧ (top = 0 ∨ top = 0x80) }
  | _ => none

private theorem ofSelector?_unused {n : Nat} (h : 8 ≤ n ∧ n ≤ 13 ∨ n = 15) :
    ofSelector? n = none := by
  unfold ofSelector?
  split
  case h_10 => rfl
  all_goals omega

/-- A processor and what it becomes by an operation on two registers: the result is in the first of
them and the flag in `VF`, where a result has precedence, and nothing else has changed. -/
structure Done (op : Arithmetic) (x y : Reg) (before after : Cpu) : Prop where
  result : (after.reg x).toNat = op.result (before.reg x).toNat (before.reg y).toNat
  flag : x ≠ Reg.flag → op.flag (before.reg x).toNat (before.reg y).toNat (after.reg x).toNat
    (before.reg Reg.flag).toNat (after.reg Reg.flag).toNat
  others : ∀ k, k ≠ x → k ≠ Reg.flag → after.reg k = before.reg k
  only : after = { before with registers := after.registers }

variable {op : Arithmetic} {x y : Reg} {cpu : Cpu}

/-- A result without a flag. -/
theorem done_setReg {result : UInt8}
    (hResult : result.toNat = op.result (cpu.reg x).toNat (cpu.reg y).toNat)
    (hFlag : ∀ old, op.flag (cpu.reg x).toNat (cpu.reg y).toNat result.toNat old old) :
    op.Done x y cpu (cpu.setReg x result) where
  result := by rw [Cpu.reg_setReg_self, hResult]
  flag hx := by
    rw [Cpu.reg_setReg_self, Cpu.reg_setReg_ne hx]
    exact hFlag _
  others k hk _ := Cpu.reg_setReg_ne hk.symm _ _
  only := rfl

/-- A result with a flag, which is written first. -/
theorem done_setFlagged {flag result : UInt8}
    (hResult : result.toNat = op.result (cpu.reg x).toNat (cpu.reg y).toNat)
    (hFlag : ∀ old,
      op.flag (cpu.reg x).toNat (cpu.reg y).toNat result.toNat old flag.toNat) :
    op.Done x y cpu (cpu.setFlagged x flag result) where
  result := by rw [Cpu.setFlagged, Cpu.reg_setReg_self, hResult]
  flag hx := by
    rw [Cpu.setFlagged, Cpu.reg_setReg_self, Cpu.reg_setReg_ne hx, Cpu.reg_setReg_self]
    exact hFlag _
  others k hk hFlagReg := by
    rw [Cpu.setFlagged, Cpu.reg_setReg_ne hk.symm, Cpu.reg_setReg_ne hFlagReg.symm]
  only := rfl

/-! ## Bytes as numbers -/

private theorem toNat_difference (a b : UInt8) :
    (a - b).toNat = (a.toNat + 256 - b.toNat) % 256 := by
  have hb := b.toNat_lt
  rw [UInt8.toNat_sub]
  omega

private theorem toNat_flagValue (flag : Bool) : (flagValue flag).toNat = if flag then 1 else 0 := by
  cases flag <;> rfl

private theorem sum_with_carry (a b : UInt8) :
    (a + b).toNat + 256 * (flagValue (256 ≤ a.toNat + b.toNat)).toNat = a.toNat + b.toNat := by
  have ha := a.toNat_lt
  have hb := b.toNat_lt
  rw [toNat_flagValue, UInt8.toNat_add]
  simp only [decide_eq_true_eq]
  split <;> omega

private theorem toNat_greater (a b : UInt8) :
    (flagValue (b < a)).toNat = if b.toNat < a.toNat then 1 else 0 := by
  rw [toNat_flagValue]
  simp only [decide_eq_true_eq, UInt8.lt_iff_toNat_lt]

private theorem half_with_low_bit (a : UInt8) : 2 * (a / 2).toNat + (a % 2).toNat = a.toNat := by
  rw [UInt8.toNat_div, UInt8.toNat_mod]
  exact Nat.div_add_mod a.toNat 2

private theorem toNat_double (a : UInt8) : (a * 2).toNat = 2 * a.toNat % 256 := by
  rw [UInt8.toNat_mul, Nat.mul_comm]
  rfl

/-- The top bit, left in place, is half of what doubling loses. -/
theorem double_with_top_bit (a : UInt8) :
    (a * 2).toNat + 2 * (a / 128 * 128).toNat = 2 * a.toNat ∧
      ((a / 128 * 128).toNat = 0 ∨ (a / 128 * 128).toNat = 0x80) := by
  have ha := a.toNat_lt
  have hTop : (a / 128 * 128).toNat = a.toNat / 128 * 128 := by
    rw [UInt8.toNat_mul, UInt8.toNat_div]
    simp only [UInt8.reduceToNat]
    omega
  rw [toNat_double, hTop]
  omega

/-! ## The operations -/

private theorem done_combine {op : AluOp} {rule : Arithmetic}
    (h : ofSelector? op.selector = some rule)
    (x y : Reg) (cpu : Cpu) : rule.Done x y cpu (cpu.combine op x y) := by
  cases op <;> cases h
  case copy => exact done_setReg rfl fun _ => rfl
  case or => exact done_setReg (UInt8.toNat_or _ _) fun _ => rfl
  case and => exact done_setReg (UInt8.toNat_and _ _) fun _ => rfl
  case xor => exact done_setReg (UInt8.toNat_xor _ _) fun _ => rfl
  case add => exact done_setFlagged (UInt8.toNat_add _ _) fun _ => sum_with_carry _ _
  case sub => exact done_setFlagged (toNat_difference _ _) fun _ => toNat_greater _ _
  case subFrom => exact done_setFlagged (toNat_difference _ _) fun _ => toNat_greater _ _

private theorem done_shiftRight {rule : Arithmetic} (h : ofSelector? 0x6 = some rule) (x y : Reg)
    (cpu : Cpu) : rule.Done x y cpu (cpu.setFlagged x (cpu.reg x % 2) (cpu.reg x / 2)) := by
  cases h
  exact done_setFlagged (UInt8.toNat_div _ _) fun _ => half_with_low_bit _

private theorem done_shiftLeft {rule : Arithmetic} (h : ofSelector? 0xE = some rule) (x y : Reg)
    (cpu : Cpu) :
    rule.Done x y cpu (cpu.setFlagged x (cpu.reg x / 128 * 128) (cpu.reg x * 2)) := by
  cases h
  exact done_setFlagged (toNat_double _) fun _ => double_with_top_bit _

end Arithmetic

/-! ## The words -/

namespace Instr

/-- What the selector of an arithmetic word selects. -/
theorem ofSelector?_cases (x y n : Fin 16) :
    (∃ op : AluOp, n.val = op.selector ∧ ofSelector? x y n = some (.alu op x y)) ∨
      (n.val = 0x6 ∧ ofSelector? x y n = some (.shiftRight x)) ∨
      (n.val = 0xE ∧ ofSelector? x y n = some (.shiftLeft x)) ∨
      ((8 ≤ n.val ∧ n.val ≤ 13 ∨ n.val = 15) ∧ ofSelector? x y n = none) := by
  have hBound := n.isLt
  unfold ofSelector?
  split
  case h_1 hCopy => exact Or.inl ⟨.copy, hCopy, rfl⟩
  case h_2 hOr => exact Or.inl ⟨.or, hOr, rfl⟩
  case h_3 hAnd => exact Or.inl ⟨.and, hAnd, rfl⟩
  case h_4 hXor => exact Or.inl ⟨.xor, hXor, rfl⟩
  case h_5 hAdd => exact Or.inl ⟨.add, hAdd, rfl⟩
  case h_6 hSub => exact Or.inl ⟨.sub, hSub, rfl⟩
  case h_7 hRight => exact Or.inr (Or.inl ⟨hRight, rfl⟩)
  case h_8 hSubFrom => exact Or.inl ⟨.subFrom, hSubFrom, rfl⟩
  case h_9 hLeft => exact Or.inr (Or.inr (Or.inl ⟨hLeft, rfl⟩))
  case h_10 => exact Or.inr (Or.inr (Or.inr ⟨by grind, rfl⟩))

end Instr

namespace Console

variable {δ : Type} [Devices δ] {x y n : Fin 16}

private theorem execute_of_selector {instr : Instr} (h : Instr.ofSelector? x y n = some instr)
    (c : Console δ) :
    c.execute (Word.ofNibbles 8 x y n) = instr.perform (c.mapCpu Cpu.advance) :=
  execute_of_instr ((Instr.ofWord?_arithmetic x y n).trans h) c

/-- **A word that selects an operation acts on the processor alone**, as the operation says. -/
theorem execute_selected {rule : Arithmetic} (h : Arithmetic.ofSelector? n.val = some rule)
    (x y : Fin 16) (c : Console δ) :
    ∃ f : Cpu → Cpu,
      c.execute (Word.ofNibbles 8 x y n) = (c.mapCpu Cpu.advance).update .proceed f ∧
      ∀ cpu, rule.Done x y cpu (f cpu) := by
  rcases Instr.ofSelector?_cases x y n with ⟨op, hSelector, hInstr⟩ | ⟨hSelector, hInstr⟩ |
    ⟨hSelector, hInstr⟩ | ⟨hSelector, -⟩
  · rw [hSelector] at h
    exact ⟨_, execute_of_selector hInstr c, Arithmetic.done_combine h x y⟩
  · rw [hSelector] at h
    exact ⟨_, execute_of_selector hInstr c, Arithmetic.done_shiftRight h x y⟩
  · rw [hSelector] at h
    exact ⟨_, execute_of_selector hInstr c, Arithmetic.done_shiftLeft h x y⟩
  · rw [Arithmetic.ofSelector?_unused hSelector] at h
    cases h

/-- A selector without an operation makes a word that is refused. -/
theorem execute_unselected (h : 8 ≤ n.val ∧ n.val ≤ 13 ∨ n.val = 15) (x y : Fin 16)
    (c : Console δ) :
    (c.execute (Word.ofNibbles 8 x y n)).result =
      .error (.unknownOpcode (Word.ofNibbles 8 x y n) c.machine.cpu.pc) := by
  have hNone : Instr.ofSelector? x y n = none := by
    rcases Instr.ofSelector?_cases x y n with ⟨op, hSelector, -⟩ | ⟨hSelector, -⟩ |
      ⟨hSelector, -⟩ | ⟨-, hNone⟩
    · have hUsed : op.selector ≤ 7 := by cases op <;> decide
      omega
    · omega
    · omega
    · exact hNone
  rw [execute_of_none ((Instr.ofWord?_arithmetic x y n).trans hNone)]
  rfl

end Console

/-- **Arithmetic between registers, whichever of them coincide.**  A word `8xyn` with an operation
leaves its result in `Vx`; unless `x` is the flag register, `VF` then is what the operation says it
is. No other register changes, and of the rest of the machine only the program counter. The other
selectors are refused. -/
theorem arithmetic_with_aliasing {δ : Type} [Devices δ] (c : Console δ) (x y n : Fin 16) :
    let word := Word.ofNibbles 8 x y n
    let before := c.machine.cpu
    let after := (c.execute word).state.machine.cpu
    let a := (before.reg x).toNat
    let b := (before.reg y).toNat
    (∀ op, Arithmetic.ofSelector? n.val = some op →
      (c.execute word).result = .ok .proceed ∧
      (after.reg x).toNat = op.result a b ∧
      (x ≠ 15 →
        op.flag a b (after.reg x).toNat (before.reg 15).toNat (after.reg 15).toNat) ∧
      (∀ k, k ≠ x → k ≠ 15 → after.reg k = before.reg k) ∧
      (c.execute word).state = { c with machine := { c.machine with
        cpu := { before with pc := before.pc + 2, registers := after.registers } } }) ∧
    (8 ≤ n.val ∧ n.val ≤ 13 ∨ n.val = 15 →
      (c.execute word).result = .error (.unknownOpcode word before.pc)) := by
  intro word before after a b
  refine ⟨fun op hOp => ?_, fun hUnused => c.execute_unselected hUnused x y⟩
  obtain ⟨f, hExecute, hDone⟩ := c.execute_selected hOp x y
  have hAfter : after = f before.advance := by
    simp only [after, word, hExecute]
    rfl
  have hState : (c.execute word).state = c.mapCpu fun cpu => f cpu.advance := by
    simp only [word, hExecute]
    rfl
  obtain ⟨hResult, hFlag, hOthers, hOnly⟩ := hDone before.advance
  rw [hState, hAfter]
  refine ⟨?_, hResult, hFlag, hOthers, ?_⟩
  · simp only [word, hExecute]
    rfl
  · rw [Console.mapCpu, hOnly]
    rfl

/-- A sum past a byte: with an operand in the flag register, and with the result there. -/
theorem arithmetic_with_aliasing_of_flag :
    let c := (⟨Machine.new {} (.cycling [1]), {}⟩ : Console Headless).afterAll
      [.execute 0x60C8, .execute 0x6F64]
    let operand := (c.execute (Word.ofNibbles 8 0 15 4)).state.machine.cpu
    let inFlag := (c.execute (Word.ofNibbles 8 15 0 4)).state.machine.cpu
    (operand.reg 0).toNat = 44 ∧ (operand.reg 0).toNat + 256 * (operand.reg 15).toNat = 300 ∧
      (inFlag.reg 15).toNat = 44 ∧
      (c.execute (Word.ofNibbles 8 0 15 13)).result = .error (.unknownOpcode 0x80FD 0x204) := by
  intro c operand inFlag
  have hOperand := (arithmetic_with_aliasing c 0 15 4).1 _ rfl
  have hInFlag := (arithmetic_with_aliasing c 15 0 4).1 _ rfl
  have hRefused := (arithmetic_with_aliasing c 0 15 13).2 (by decide)
  have hSum : (operand.reg 0).toNat = 44 := hOperand.2.1.trans (by decide)
  have hWins : (inFlag.reg 15).toNat = 44 := hInFlag.2.1.trans (by decide)
  exact ⟨hSum, hOperand.2.2.1 (by decide), hWins, hRefused⟩

end Chip8
