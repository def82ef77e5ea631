import Chip8.Instr.Decode

/-!
# Encoding

The word that an instruction was decoded from. The shifts alone leave something
of it open, the third nibble, which is therefore taken from outside.

`Instr.code_of_word` says that this is the way back: what a word decodes to has
that word.
-/

namespace Chip8

/-- The last nibble of the arithmetic words with an operation. -/
def AluOp.selector : AluOp → Nat
  | .copy => 0x0
  | .or => 0x1
  | .and => 0x2
  | .xor => 0x3
  | .add => 0x4
  | .sub => 0x5
  | .subFrom => 0x7

namespace Instr

/-- The word of an instruction as a number. A shift does not say what the third nibble is. -/
def code (third : Nat) : Instr → Nat
  | .clear => 0x00E0
  | .ret => 0x00EE
  | .jump target => 0x1000 + target.toNat
  | .call target => 0x2000 + target.toNat
  | .skipEqual x value => 0x3000 + x.val * 0x100 + value.toNat
  | .skipNotEqual x value => 0x4000 + x.val * 0x100 + value.toNat
  | .skipSame x y => 0x5000 + x.val * 0x100 + y.val * 0x10
  | .set x value => 0x6000 + x.val * 0x100 + value.toNat
  | .increase x value => 0x7000 + x.val * 0x100 + value.toNat
  | .alu op x y => 0x8000 + x.val * 0x100 + y.val * 0x10 + op.selector
  | .shiftRight x => 0x8000 + x.val * 0x100 + third * 0x10 + 0x6
  | .shiftLeft x => 0x8000 + x.val * 0x100 + third * 0x10 + 0xE
  | .skipDifferent x y => 0x9000 + x.val * 0x100 + y.val * 0x10
  | .setIndex address => 0xA000 + address.toNat
  | .jumpOffset base => 0xB000 + base.toNat
  | .random x mask => 0xC000 + x.val * 0x100 + mask.toNat
  | .draw x y height => 0xD000 + x.val * 0x100 + y.val * 0x10 + height.val
  | .skipPressed x => 0xE09E + x.val * 0x100
  | .skipReleased x => 0xE0A1 + x.val * 0x100
  | .readDelay x => 0xF007 + x.val * 0x100
  | .awaitKey x => 0xF00A + x.val * 0x100
  | .setDelay x => 0xF015 + x.val * 0x100
  | .setSound x => 0xF018 + x.val * 0x100
  | .addIndex x => 0xF01E + x.val * 0x100
  | .pointGlyph x => 0xF029 + x.val * 0x100
  | .storeDecimal x => 0xF033 + x.val * 0x100
  | .storeRegisters x => 0xF055 + x.val * 0x100
  | .loadRegisters x => 0xF065 + x.val * 0x100

private theorem code_of_selector {x y selector : Fin 16} {instr : Instr}
    (h : ofSelector? x y selector = some instr) :
    instr.code y.val = 0x8000 + x.val * 0x100 + y.val * 0x10 + selector.val := by
  unfold ofSelector? at h
  split at h <;> cases h <;> simp_all [code, AluOp.selector]

private theorem code_of_keyTest {x : Reg} {low : UInt8} {instr : Instr}
    (h : ofKeyTest? x low = some instr) (third : Nat) :
    instr.code third = 0xE000 + x.val * 0x100 + low.toNat := by
  unfold ofKeyTest? at h
  split at h <;> cases h <;> simp only [code] <;> omega

private theorem code_of_transfer {x : Reg} {low : UInt8} {instr : Instr}
    (h : ofTransfer? x low = some instr) (third : Nat) :
    instr.code third = 0xF000 + x.val * 0x100 + low.toNat := by
  unfold ofTransfer? at h
  split at h <;> cases h <;> simp only [code] <;> omega

/-- **An instruction determines its word**, but for the third nibble of a shift. -/
theorem code_of_word {w : Word} {instr : Instr} (h : ofWord? w = some instr) :
    w.toNat = instr.code w.y.val := by
  have hNibbles := w.toNat_eq_nibbles
  have hByte := w.toNat_kk
  have hAddress := w.toNat_nnn
  have hx := w.x.isLt
  have hy := w.y.isLt
  have hn := w.n.isLt
  have hFamily := w.family.isLt
  unfold ofWord? at h
  split at h
  case h_1 =>
    split at h
    · cases h
      subst w
      rfl
    · split at h
      · cases h
        subst w
        rfl
      · cases h
  case h_6 =>
    split at h <;> cases h
    simp only [code]
    omega
  case h_9 =>
    rw [code_of_selector h]
    omega
  case h_10 =>
    split at h <;> cases h
    simp only [code]
    omega
  case h_15 =>
    rw [code_of_keyTest h]
    omega
  case h_16 =>
    rw [code_of_transfer h]
    have hLast : w.family.val = 15 := by grind
    omega
  all_goals
    cases h
    simp only [code]
    omega

end Instr

end Chip8
