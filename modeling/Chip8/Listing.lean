import Chip8.Instr.Mnemonic
import Chip8.Memory

/-!
# Program listings

A listing shows a program two bytes at a time: the address each word has once
loaded, its digits, and its mnemonic. A lone last byte is shown as data.
-/

namespace Chip8

namespace Listing

/-- The line of a full word. -/
def wordLine (address : Nat) (w : Word) : String :=
  Numeral.hex 4 address ++ ": " ++ w.hex ++ "  " ++ w.mnemonic ++ "\n"

/-- The line of a byte that has no partner. -/
def byteLine (address : Nat) (value : UInt8) : String :=
  Numeral.hex 4 address ++ ": " ++ Numeral.hex 2 value.toNat ++ "    DB " ++ byteText value ++ "\n"

/-- The line at the head of the remaining bytes, empty when none remain. -/
def headLine (address : Nat) : List UInt8 → String
  | [] => ""
  | [value] => byteLine address value
  | high :: low :: _ => wordLine address (Word.ofBytes high low)

/-- The line at a byte offset into the program, empty past its end. An offset is any natural number
here. In 64 bits the address `programStart + offset` overflows from an offset of `2 ^ 64 - 512` on,
a panic where overflow is checked; no program is so long. -/
def lineAt (program : List UInt8) (offset : Nat) : String :=
  headLine (programStart + offset) (program.drop offset)

/-- The lines of the bytes from an address on, a word at a time. -/
def linesFrom (address : Nat) : List UInt8 → List String
  | [] => []
  | [value] => [byteLine address value]
  | high :: low :: rest =>
      wordLine address (Word.ofBytes high low) :: linesFrom (address + 2) rest

/-- The listing of a whole program. -/
def ofProgram (program : List UInt8) : String :=
  String.join (linesFrom programStart program)

end Listing

end Chip8
