import Chip8.Instr

/-!
# Decoding

`Instr.ofWord?` is the only place that knows which words are instructions.
Running, printing and listing all go through it, so they cannot disagree
about a word.
-/

namespace Chip8

/-- The operation that the last nibble of an arithmetic word selects. -/
def Instr.ofSelector? (x y : Reg) (selector : Fin 16) : Option Instr :=
  match selector.val with
  | 0x0 => some (.alu .copy x y)
  | 0x1 => some (.alu .or x y)
  | 0x2 => some (.alu .and x y)
  | 0x3 => some (.alu .xor x y)
  | 0x4 => some (.alu .add x y)
  | 0x5 => some (.alu .sub x y)
  | 0x6 => some (.shiftRight x)
  | 0x7 => some (.alu .subFrom x y)
  | 0xE => some (.shiftLeft x)
  | _ => none

/-- The keypad test that the low byte of a word selects. -/
def Instr.ofKeyTest? (x : Reg) (low : UInt8) : Option Instr :=
  match low.toNat with
  | 0x9E => some (.skipPressed x)
  | 0xA1 => some (.skipReleased x)
  | _ => none

/-- The timer, index or memory operation that the low byte of a word selects. -/
def Instr.ofTransfer? (x : Reg) (low : UInt8) : Option Instr :=
  match low.toNat with
  | 0x07 => some (.readDelay x)
  | 0x0A => some (.awaitKey x)
  | 0x15 => some (.setDelay x)
  | 0x18 => some (.setSound x)
  | 0x1E => some (.addIndex x)
  | 0x29 => some (.pointGlyph x)
  | 0x33 => some (.storeDecimal x)
  | 0x55 => some (.storeRegisters x)
  | 0x65 => some (.loadRegisters x)
  | _ => none

/-- The instruction a word stands for, if it stands for one. -/
def Instr.ofWord? (w : Word) : Option Instr :=
  match w.family.val with
  | 0x0 =>
      if w = 0x00E0 then some .clear
      else if w = 0x00EE then some .ret
      else none
  | 0x1 => some (.jump w.nnn)
  | 0x2 => some (.call w.nnn)
  | 0x3 => some (.skipEqual w.x w.kk)
  | 0x4 => some (.skipNotEqual w.x w.kk)
  | 0x5 => if w.n.val = 0 then some (.skipSame w.x w.y) else none
  | 0x6 => some (.set w.x w.kk)
  | 0x7 => some (.increase w.x w.kk)
  | 0x8 => ofSelector? w.x w.y w.n
  | 0x9 => if w.n.val = 0 then some (.skipDifferent w.x w.y) else none
  | 0xA => some (.setIndex w.nnn)
  | 0xB => some (.jumpOffset w.nnn)
  | 0xC => some (.random w.x w.kk)
  | 0xD => some (.draw w.x w.y w.n)
  | 0xE => ofKeyTest? w.x w.kk
  | _ => ofTransfer? w.x w.kk

/-! ## Words that are given by their nibbles -/

theorem Instr.ofWord?_arithmetic (x y n : Fin 16) :
    ofWord? (Word.ofNibbles 8 x y n) = ofSelector? x y n := by
  simp only [ofWord?, Word.family_ofNibbles, Word.x_ofNibbles, Word.y_ofNibbles,
    Word.n_ofNibbles]
  rfl

theorem Instr.ofWord?_draw (x y height : Fin 16) :
    ofWord? (Word.ofNibbles 13 x y height) = some (.draw x y height) := by
  simp only [ofWord?, Word.family_ofNibbles, Word.x_ofNibbles, Word.y_ofNibbles,
    Word.n_ofNibbles]
  rfl

theorem Instr.ofWord?_transfer (x y n : Fin 16) :
    ofWord? (Word.ofNibbles 15 x y n) = ofTransfer? x (UInt8.ofNat (y.val * 16 + n.val)) := by
  simp only [ofWord?, Word.family_ofNibbles, Word.x_ofNibbles, Word.kk_ofNibbles]

end Chip8
