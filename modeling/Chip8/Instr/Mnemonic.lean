import Chip8.Instr.Decode

/-!
# Mnemonics

The conventional assembly text of an instruction. Registers are written `V`
and a digit, bytes and addresses with two and three hexadecimal digits, the
height of a sprite in decimal. A word that is no instruction is shown as data.
-/

namespace Chip8

/-- A register in assembly text. -/
def Reg.text (x : Reg) : String := "V" ++ Numeral.hex 1 x.val

/-- A byte in assembly text. -/
def byteText (value : UInt8) : String := "0x" ++ Numeral.hex 2 value.toNat

/-- An address in assembly text. -/
def addressText (address : UInt16) : String := "0x" ++ Numeral.hex 3 address.toNat

/-- The name of an operation on two registers. -/
def AluOp.text : AluOp → String
  | .copy => "LD"
  | .or => "OR"
  | .and => "AND"
  | .xor => "XOR"
  | .add => "ADD"
  | .sub => "SUB"
  | .subFrom => "SUBN"

/-- The assembly text of an instruction. -/
def Instr.mnemonic : Instr → String
  | .clear => "CLS"
  | .ret => "RET"
  | .jump target => "JP " ++ addressText target
  | .call target => "CALL " ++ addressText target
  | .skipEqual x value => "SE " ++ x.text ++ ", " ++ byteText value
  | .skipNotEqual x value => "SNE " ++ x.text ++ ", " ++ byteText value
  | .skipSame x y => "SE " ++ x.text ++ ", " ++ y.text
  | .skipDifferent x y => "SNE " ++ x.text ++ ", " ++ y.text
  | .set x value => "LD " ++ x.text ++ ", " ++ byteText value
  | .increase x value => "ADD " ++ x.text ++ ", " ++ byteText value
  | .alu op x y => op.text ++ " " ++ x.text ++ ", " ++ y.text
  | .shiftRight x => "SHR " ++ x.text
  | .shiftLeft x => "SHL " ++ x.text
  | .setIndex address => "LD I, " ++ addressText address
  | .jumpOffset base => "JP V0, " ++ addressText base
  | .random x mask => "RND " ++ x.text ++ ", " ++ byteText mask
  | .draw x y height =>
      "DRW " ++ Reg.text x ++ ", " ++ Reg.text y ++ ", " ++ Numeral.decimal height.val
  | .skipPressed x => "SKP " ++ x.text
  | .skipReleased x => "SKNP " ++ x.text
  | .readDelay x => "LD " ++ x.text ++ ", DT"
  | .awaitKey x => "LD " ++ x.text ++ ", K"
  | .setDelay x => "LD DT, " ++ x.text
  | .setSound x => "LD ST, " ++ x.text
  | .addIndex x => "ADD I, " ++ x.text
  | .pointGlyph x => "LD F, " ++ x.text
  | .storeDecimal x => "LD B, " ++ x.text
  | .storeRegisters x => "LD [I], " ++ x.text
  | .loadRegisters x => "LD " ++ x.text ++ ", [I]"

/-- The assembly text of a word, as data when it is no instruction. -/
def Word.mnemonic (w : Word) : String :=
  match Instr.ofWord? w with
  | some instr => instr.mnemonic
  | none => "DW 0x" ++ w.hex

end Chip8
