import Chip8.Instr.Encode
import Chip8.Proofs.Assembly
import Chip8.Proofs.CrashFreedom
import Mathlib.Tactic.IntervalCases

/-!
# Printing and executing agree on every word

Which words are instructions can be asked of the text of a word and of what
happens when it is executed. Both are written down here a second time, without
`Instr.ofWord?`: the text by one look at the first and the last nibble
(`Word.shown`), and execution by the nested looks of the bare interpreter
(`Wired.execute`).

They agree: a word is shown as data just when executing it ends in an unknown
opcode. And the text of a word says all there is to executing it. Two words
with the same text are the same instruction, for the text is read back
(`Instr.mnemonic_injective`), and an instruction is one word
(`Instr.code_of_word`), but for the shifts, which leave a nibble open.

## Main results

* `Word.shown_eq_mnemonic` — the text of a word found in either way.
* `Word.data_iff` — the words shown as data.
* `Word.eq_or_instr_of_mnemonic`, `Word.eq_or_sameShift` — the words with the same text.
* `decoders_agree` — what text and execution say of each other.
-/

namespace Chip8

namespace Word

/-! ## The text of a word in one look -/

/-- The text of a word, looked up by its first and its last nibble. -/
def shown (w : Word) : String :=
  let x := "V" ++ Numeral.hex 1 (Field.x w)
  let y := "V" ++ Numeral.hex 1 (Field.y w)
  let byte := "0x" ++ Numeral.hex 2 (Field.kk w).toNat
  let address := "0x" ++ Numeral.hex 3 (Field.nnn w).toNat
  let data := "DW 0x" ++ Numeral.hex 4 w.toNat
  match Field.family w, Field.n w with
  | 0x0, _ => if w = 0x00E0 then "CLS" else if w = 0x00EE then "RET" else data
  | 0x1, _ => "JP " ++ address
  | 0x2, _ => "CALL " ++ address
  | 0x3, _ => "SE " ++ x ++ ", " ++ byte
  | 0x4, _ => "SNE " ++ x ++ ", " ++ byte
  | 0x5, 0x0 => "SE " ++ x ++ ", " ++ y
  | 0x6, _ => "LD " ++ x ++ ", " ++ byte
  | 0x7, _ => "ADD " ++ x ++ ", " ++ byte
  | 0x8, 0x0 => "LD " ++ x ++ ", " ++ y
  | 0x8, 0x1 => "OR " ++ x ++ ", " ++ y
  | 0x8, 0x2 => "AND " ++ x ++ ", " ++ y
  | 0x8, 0x3 => "XOR " ++ x ++ ", " ++ y
  | 0x8, 0x4 => "ADD " ++ x ++ ", " ++ y
  | 0x8, 0x5 => "SUB " ++ x ++ ", " ++ y
  | 0x8, 0x6 => "SHR " ++ x
  | 0x8, 0x7 => "SUBN " ++ x ++ ", " ++ y
  | 0x8, 0xE => "SHL " ++ x
  | 0x9, 0x0 => "SNE " ++ x ++ ", " ++ y
  | 0xA, _ => "LD I, " ++ address
  | 0xB, _ => "JP V0, " ++ address
  | 0xC, _ => "RND " ++ x ++ ", " ++ byte
  | 0xD, _ => "DRW " ++ x ++ ", " ++ y ++ ", " ++ Numeral.decimal (Field.n w)
  | 0xE, _ =>
      match (Field.kk w).toNat with
      | 0x9E => "SKP " ++ x
      | 0xA1 => "SKNP " ++ x
      | _ => data
  | 0xF, _ =>
      match (Field.kk w).toNat with
      | 0x07 => "LD " ++ x ++ ", DT"
      | 0x0A => "LD " ++ x ++ ", K"
      | 0x15 => "LD DT, " ++ x
      | 0x18 => "LD ST, " ++ x
      | 0x1E => "ADD I, " ++ x
      | 0x29 => "LD F, " ++ x
      | 0x33 => "LD B, " ++ x
      | 0x55 => "LD [I], " ++ x
      | 0x65 => "LD " ++ x ++ ", [I]"
      | _ => data
  | _, _ => data

/-- The text of a word is that of its instruction, or data. -/
theorem mnemonic_eq (w : Word) :
    w.mnemonic = ((Instr.ofWord? w).map Instr.mnemonic).getD ("DW 0x" ++ w.hex) := by
  unfold mnemonic
  cases Instr.ofWord? w <;> rfl

private theorem keyTest_text (x : Reg) (low : UInt8) (data : String) :
    (match low.toNat with
      | 0x9E => "SKP " ++ x.text
      | 0xA1 => "SKNP " ++ x.text
      | _ => data) = ((Instr.ofKeyTest? x low).map Instr.mnemonic).getD data := by
  fun_cases Instr.ofKeyTest? x low <;> simp_all [Instr.mnemonic]

private theorem transfer_text (x : Reg) (low : UInt8) (data : String) :
    (match low.toNat with
      | 0x07 => "LD " ++ x.text ++ ", DT"
      | 0x0A => "LD " ++ x.text ++ ", K"
      | 0x15 => "LD DT, " ++ x.text
      | 0x18 => "LD ST, " ++ x.text
      | 0x1E => "ADD I, " ++ x.text
      | 0x29 => "LD F, " ++ x.text
      | 0x33 => "LD B, " ++ x.text
      | 0x55 => "LD [I], " ++ x.text
      | 0x65 => "LD " ++ x.text ++ ", [I]"
      | _ => data) = ((Instr.ofTransfer? x low).map Instr.mnemonic).getD data := by
  fun_cases Instr.ofTransfer? x low <;> simp_all [Instr.mnemonic]

private theorem system_text (w : Word) (data : String) :
    (if w = 0x00E0 then "CLS" else if w = 0x00EE then "RET" else data) =
      ((if w = 0x00E0 then some Instr.clear else if w = 0x00EE then some .ret
        else none).map Instr.mnemonic).getD data := by
  split
  · rfl
  · split <;> rfl

/-- **Both ways to find the text of a word agree.**  Its family decides, in three families together
with the last nibble and in two with the low byte. -/
theorem shown_eq_mnemonic (w : Word) : w.shown = w.mnemonic := by
  have hFamily := w.family.isLt
  have hLast := w.n.isLt
  rw [shown, mnemonic_eq, Instr.ofWord?, Field.family_eq, Field.x_eq, Field.y_eq, Field.n_eq,
    Field.kk_eq, Field.nnn_eq]
  generalize w.family.val = family at hFamily ⊢
  interval_cases family
  case «0» => exact system_text w _
  case «5» =>
    generalize w.n.val = last at hLast ⊢
    interval_cases last <;> rfl
  case «8» =>
    rw [Instr.ofSelector?]
    generalize w.n.val = last at hLast ⊢
    interval_cases last <;> rfl
  case «9» =>
    generalize w.n.val = last at hLast ⊢
    interval_cases last <;> rfl
  case «14» => exact keyTest_text w.x w.kk _
  case «15» => exact transfer_text w.x w.kk _
  all_goals rfl

/-! ## Words shown as data -/

private theorem mnemonic_of_instr {w : Word} {instr : Instr} (h : Instr.ofWord? w = some instr) :
    w.mnemonic = instr.mnemonic := by
  rw [mnemonic, h]

private theorem mnemonic_of_none {w : Word} (h : Instr.ofWord? w = none) :
    w.mnemonic = "DW 0x" ++ w.hex := by
  rw [mnemonic, h]

theorem not_data (instr : Instr) : ¬ "DW ".toList <+: instr.mnemonic.toList := by
  cases instr
  case alu op x y => cases op <;> simp [Instr.mnemonic, AluOp.text]
  all_goals simp [Instr.mnemonic]

/-- **The words shown as data are those that are no instructions.** -/
theorem data_iff (w : Word) : "DW ".toList <+: w.mnemonic.toList ↔ Instr.ofWord? w = none := by
  cases hWord : Instr.ofWord? w with
  | some instr =>
      rw [mnemonic_of_instr hWord]
      exact iff_of_false (not_data instr) (Option.some_ne_none instr)
  | none =>
      rw [mnemonic_of_none hWord]
      refine iff_of_true ?_ rfl
      simp

/-- The digits of a word determine it. -/
theorem hex_injective {v w : Word} (h : v.hex = w.hex) : v = w := by
  have hRead (u : Word) : Numeral.value? 16 u.hex.toList = some u.toNat := by
    rw [hex, Numeral.hex, String.toList_ofList]
    exact Numeral.value?_padded (by decide) (by decide) 4 u.toNat
  have hBoth := hRead v
  rw [h, hRead w] at hBoth
  exact UInt16.toNat_inj.1 (Option.some.inj hBoth).symm

end Word

/-! ## Words with the same text -/

namespace Word

/-- Two words that shift the same register the same way. -/
def SameShift (v w : Word) : Prop :=
  v.family.val = 0x8 ∧ w.family.val = 0x8 ∧ v.x = w.x ∧
    (v.n.val = 0x6 ∧ w.n.val = 0x6 ∨ v.n.val = 0xE ∧ w.n.val = 0xE)

/-- The nibbles of a word that is written as an arithmetic word is. -/
theorem nibbles_of_toNat {w : Word} {x y n : Fin 16}
    (h : w.toNat = 0x8000 + x.val * 0x100 + y.val * 0x10 + n.val) :
    w.family.val = 0x8 ∧ w.x = x ∧ w.n = n := by
  refine ⟨?_, Fin.ext ?_, Fin.ext ?_⟩ <;> simp only [family, Word.x, Word.n] <;> omega

/-- **An instruction is one word**, but for the shifts. -/
theorem eq_or_sameShift {v w : Word} {instr : Instr}
    (hv : Instr.ofWord? v = some instr) (hw : Instr.ofWord? w = some instr) :
    v = w ∨ v.SameShift w := by
  have hvCode := Instr.code_of_word hv
  have hwCode := Instr.code_of_word hw
  cases instr
  case shiftRight x =>
    obtain ⟨hvFamily, hvx, hvn⟩ := nibbles_of_toNat (n := 6) hvCode
    obtain ⟨hwFamily, hwx, hwn⟩ := nibbles_of_toNat (n := 6) hwCode
    exact Or.inr ⟨hvFamily, hwFamily, hvx.trans hwx.symm,
      Or.inl ⟨congrArg Fin.val hvn, congrArg Fin.val hwn⟩⟩
  case shiftLeft x =>
    obtain ⟨hvFamily, hvx, hvn⟩ := nibbles_of_toNat (n := 14) hvCode
    obtain ⟨hwFamily, hwx, hwn⟩ := nibbles_of_toNat (n := 14) hwCode
    exact Or.inr ⟨hvFamily, hwFamily, hvx.trans hwx.symm,
      Or.inr ⟨congrArg Fin.val hvn, congrArg Fin.val hwn⟩⟩
  all_goals exact Or.inl (UInt16.toNat_inj.1 (hvCode.trans hwCode.symm))

/-- **Words with the same text** are one word or one instruction. -/
theorem eq_or_instr_of_mnemonic {v w : Word} (h : v.mnemonic = w.mnemonic) :
    v = w ∨ ∃ instr, Instr.ofWord? v = some instr ∧ Instr.ofWord? w = some instr := by
  have hData : Instr.ofWord? v = none ↔ Instr.ofWord? w = none := by
    rw [← data_iff v, ← data_iff w, h]
  cases hv : Instr.ofWord? v with
  | none =>
      rw [mnemonic_of_none hv, mnemonic_of_none (hData.1 hv)] at h
      have hHex : v.hex = w.hex := by simpa using h
      exact Or.inl (hex_injective hHex)
  | some instr =>
      cases hw : Instr.ofWord? w with
      | none => cases (hData.2 hw).symm.trans hv
      | some other =>
          rw [mnemonic_of_instr hv, mnemonic_of_instr hw] at h
          cases Instr.mnemonic_injective h
          exact Or.inr ⟨instr, rfl, rfl⟩

end Word

/-! ## Executing -/

/-- An unknown opcode is reported of a word that is no instruction, and says which it was and where
it stood. -/
theorem Console.execute_unknown {δ : Type} [Devices δ] {w v : Word} {a : UInt16} {c : Console δ}
    (h : (c.execute w).result = .error (.unknownOpcode v a)) :
    Instr.ofWord? w = none ∧ v = w ∧ a = c.machine.cpu.pc := by
  cases (execute_error h).2 with
  | unknownOpcode hWord => exact ⟨hWord, rfl, rfl⟩

/-- **Printing and executing agree.**  The text and the execution of a word are the ones that are
found without `Instr.ofWord?`. A word is shown as data just when executing it ends in an unknown
opcode, which is then that word at the place the program counter was. Two words with the same text
are one word, or shift the same register the same way, and executing either comes to the same:
result, state, records and calls to the devices. -/
theorem decoders_agree {δ : Type} [Devices δ] (c : Console (Recorded δ)) :
    (∀ w : Word, w.shown = w.mnemonic ∧
      (Wired.mk (.ofMachine c.machine) c.devices).execute w =
        .ok ((c.execute w).result,
          ⟨.ofMachine (c.execute w).state.machine, (c.execute w).state.devices⟩)) ∧
    (∀ w : Word, "DW ".toList <+: w.mnemonic.toList ↔
      ∃ v a, (c.execute w).result = .error (.unknownOpcode v a)) ∧
    (∀ (w v : Word) (a : UInt16), (c.execute w).result = .error (.unknownOpcode v a) →
      v = w ∧ a = c.machine.cpu.pc) ∧
    ∀ v w : Word, v.mnemonic = w.mnemonic →
      (v = w ∨ v.SameShift w) ∧ c.execute v = c.execute w := by
  refine ⟨?_, ?_, ?_, ?_⟩
  · intro w
    exact ⟨w.shown_eq_mnemonic, Wired.execute_agrees Devices.shows_self w c⟩
  · intro w
    rw [w.data_iff]
    constructor
    · intro hWord
      rw [Console.execute_of_none hWord]
      exact ⟨w, c.machine.cpu.pc, rfl⟩
    · rintro ⟨v, a, hUnknown⟩
      exact (Console.execute_unknown hUnknown).1
  · intro w v a hUnknown
    exact (Console.execute_unknown hUnknown).2
  · intro v w hText
    rcases Word.eq_or_instr_of_mnemonic hText with rfl | ⟨instr, hv, hw⟩
    · exact ⟨Or.inl rfl, rfl⟩
    · exact ⟨Word.eq_or_sameShift hv hw,
        by rw [Console.execute_of_instr hv, Console.execute_of_instr hw]⟩

/-- Two words for halving `V1`, and beside them one that is no instruction. -/
theorem decoders_agree_on_shifts :
    let c : Console (Recorded Headless) := ⟨.new {} (.cycling [1]), { devices := {} }⟩
    (0x8126 : Word).mnemonic = (0x8136 : Word).mnemonic ∧ (0x8126 : Word) ≠ 0x8136 ∧
    Word.SameShift 0x8126 0x8136 ∧ c.execute 0x8126 = c.execute 0x8136 ∧
    (c.execute 0x8128).result = .error (.unknownOpcode 0x8128 0x200) ∧
    "DW ".toList <+: (0x8128 : Word).mnemonic.toList := by
  intro c
  have hText : (0x8126 : Word).mnemonic = (0x8136 : Word).mnemonic := rfl
  have hUnknown : (c.execute 0x8128).result = .error (.unknownOpcode 0x8128 0x200) := rfl
  obtain ⟨-, hData, -, hSame⟩ := decoders_agree c
  obtain ⟨hWords, hExecute⟩ := hSame _ _ hText
  have hNe : (0x8126 : Word) ≠ 0x8136 := by decide
  exact ⟨hText, hNe, hWords.resolve_left hNe, hExecute, hUnknown, (hData 0x8128).2 ⟨_, _, hUnknown⟩⟩

end Chip8
