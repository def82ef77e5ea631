import Chip8.Instr.Mnemonic

/-!
# Reading assembly text

The text of an instruction says what the instruction is: `Instr.ofText?` reads
it back. A text falls into parts at its blanks, a name and then the operands.
`Operand.ofPart?` reads these one by one, and their kinds tell apart the
instructions that share a name.

## Main results

* `Instr.parts_mnemonic` — the parts of an instruction's text.
* `Instr.ofText?_mnemonic` — the text is read back as the instruction.
* `Instr.mnemonic_injective` — different instructions have different texts.
-/

namespace Chip8

/-! ## Operands -/

/-- An operand as it is written: a register, a number in hexadecimal, the height of a sprite in
decimal, or anything else by its name. -/
inductive Operand where
  | register (x : Reg)
  | number (value : Nat)
  | height (rows : Fin 16)
  | named (name : String)
  deriving DecidableEq

namespace Operand

/-- The operand that some text is. -/
def ofPlain? : List Char → Option Operand
  | 'V' :: digits =>
      match Numeral.value? 16 digits with
      | some x => if h : x < 16 then some (.register ⟨x, h⟩) else none
      | none => none
  | '0' :: 'x' :: digits => (Numeral.value? 16 digits).map .number
  | text =>
      match Numeral.value? 10 text with
      | some rows => if h : rows < 16 then some (.height ⟨rows, h⟩) else none
      | none => some (.named (String.ofList text))

/-- The operand in a part of a text, which may have a comma behind it. -/
def ofPart? (part : List Char) : Option Operand := ofPlain? (part.filter (· ≠ ','))

/-- The only characters of a number in hexadecimal are its digits, so there is no blank and no
comma in it. -/
theorem ne_of_mem_padded {width n : Nat} {c : Char} (hc : c ∈ Numeral.padded 16 width n) :
    c ≠ ' ' ∧ c ≠ ',' := by
  obtain ⟨d, hd, rfl⟩ := Numeral.mem_padded (by decide) (by decide) hc
  have hAll : ∀ k : Fin 16, Numeral.digitChar k ≠ ' ' ∧ Numeral.digitChar k ≠ ',' := by decide
  exact hAll ⟨d, hd⟩

private theorem filter_padded (width n : Nat) :
    (Numeral.padded 16 width n).filter (· ≠ ',') = Numeral.padded 16 width n := by
  rw [List.filter_eq_self]
  intro c hc
  exact decide_eq_true (ne_of_mem_padded hc).2

/-- A number in hexadecimal is read back. -/
theorem ofPart?_padded (width n : Nat) :
    ofPart? ('0' :: 'x' :: Numeral.padded 16 width n) = some (.number n) := by
  have hFilter : ('0' :: 'x' :: Numeral.padded 16 width n).filter (· ≠ ',') =
      '0' :: 'x' :: Numeral.padded 16 width n := congrArg (['0', 'x'] ++ ·) (filter_padded width n)
  rw [ofPart?, hFilter, ofPlain?, Numeral.value?_padded (by decide) (by decide)]
  rfl

private theorem ofPart?_register (x : Reg) : ofPart? x.text.toList = some (.register x) := by
  revert x
  decide

private theorem ofPart?_register_comma (x : Reg) :
    ofPart? (x.text.toList ++ [',']) = some (.register x) := by
  revert x
  decide

private theorem ofPart?_height (height : Fin 16) :
    ofPart? (Numeral.decimal height.val).toList = some (.height height) := by
  revert height
  decide

private theorem ofPart?_byte (value : UInt8) :
    ofPart? (byteText value).toList = some (.number value.toNat) := by
  have hText : (byteText value).toList = '0' :: 'x' :: Numeral.padded 16 2 value.toNat := by
    simp [byteText, Numeral.hex]
  rw [hText, ofPart?_padded]

private theorem ofPart?_address (address : UInt16) :
    ofPart? (addressText address).toList = some (.number address.toNat) := by
  have hText : (addressText address).toList = '0' :: 'x' :: Numeral.padded 16 3 address.toNat := by
    simp [addressText, Numeral.hex]
  rw [hText, ofPart?_padded]

end Operand

/-! ## Instructions -/

namespace Instr

/-- The instruction with a name and operands. -/
def ofOperands? : String → List Operand → Option Instr
  | "CLS", [] => some .clear
  | "RET", [] => some .ret
  | "JP", [.number a] => some (.jump (UInt16.ofNat a))
  | "CALL", [.number a] => some (.call (UInt16.ofNat a))
  | "SE", [.register x, .number v] => some (.skipEqual x (UInt8.ofNat v))
  | "SNE", [.register x, .number v] => some (.skipNotEqual x (UInt8.ofNat v))
  | "SE", [.register x, .register y] => some (.skipSame x y)
  | "SNE", [.register x, .register y] => some (.skipDifferent x y)
  | "LD", [.register x, .number v] => some (.set x (UInt8.ofNat v))
  | "ADD", [.register x, .number v] => some (.increase x (UInt8.ofNat v))
  | "LD", [.register x, .register y] => some (.alu .copy x y)
  | "OR", [.register x, .register y] => some (.alu .or x y)
  | "AND", [.register x, .register y] => some (.alu .and x y)
  | "XOR", [.register x, .register y] => some (.alu .xor x y)
  | "ADD", [.register x, .register y] => some (.alu .add x y)
  | "SUB", [.register x, .register y] => some (.alu .sub x y)
  | "SUBN", [.register x, .register y] => some (.alu .subFrom x y)
  | "SHR", [.register x] => some (.shiftRight x)
  | "SHL", [.register x] => some (.shiftLeft x)
  | "LD", [.named "I", .number a] => some (.setIndex (UInt16.ofNat a))
  | "JP", [.register _, .number a] => some (.jumpOffset (UInt16.ofNat a))
  | "RND", [.register x, .number v] => some (.random x (UInt8.ofNat v))
  | "DRW", [.register x, .register y, .height h] => some (.draw x y h)
  | "SKP", [.register x] => some (.skipPressed x)
  | "SKNP", [.register x] => some (.skipReleased x)
  | "LD", [.register x, .named "DT"] => some (.readDelay x)
  | "LD", [.register x, .named "K"] => some (.awaitKey x)
  | "LD", [.named "DT", .register x] => some (.setDelay x)
  | "LD", [.named "ST", .register x] => some (.setSound x)
  | "ADD", [.named "I", .register x] => some (.addIndex x)
  | "LD", [.named "F", .register x] => some (.pointGlyph x)
  | "LD", [.named "B", .register x] => some (.storeDecimal x)
  | "LD", [.named "[I]", .register x] => some (.storeRegisters x)
  | "LD", [.register x, .named "[I]"] => some (.loadRegisters x)
  | _, _ => none

/-- The instruction whose name and operands are the parts of a text. -/
def ofParts? : List (List Char) → Option Instr
  | [] => none
  | name :: operands => (operands.mapM Operand.ofPart?).bind (ofOperands? (String.ofList name))

/-- The instruction that a text stands for. -/
def ofText? (text : String) : Option Instr := ofParts? (text.toList.splitOn ' ')

/-- A part with a comma behind it. -/
def comma (part : String) : List Char := part.toList ++ [',']

/-- The name and the operands in the text of an instruction, as they are written. -/
def parts : Instr → List (List Char)
  | .clear => ["CLS".toList]
  | .ret => ["RET".toList]
  | .jump target => ["JP".toList, (addressText target).toList]
  | .call target => ["CALL".toList, (addressText target).toList]
  | .skipEqual x value => ["SE".toList, comma x.text, (byteText value).toList]
  | .skipNotEqual x value => ["SNE".toList, comma x.text, (byteText value).toList]
  | .skipSame x y => ["SE".toList, comma x.text, y.text.toList]
  | .skipDifferent x y => ["SNE".toList, comma x.text, y.text.toList]
  | .set x value => ["LD".toList, comma x.text, (byteText value).toList]
  | .increase x value => ["ADD".toList, comma x.text, (byteText value).toList]
  | .alu op x y => [op.text.toList, comma x.text, y.text.toList]
  | .shiftRight x => ["SHR".toList, x.text.toList]
  | .shiftLeft x => ["SHL".toList, x.text.toList]
  | .setIndex address => ["LD".toList, comma "I", (addressText address).toList]
  | .jumpOffset base => ["JP".toList, comma "V0", (addressText base).toList]
  | .random x mask => ["RND".toList, comma x.text, (byteText mask).toList]
  | .draw x y height =>
      ["DRW".toList, comma (Reg.text x), comma (Reg.text y), (Numeral.decimal height.val).toList]
  | .skipPressed x => ["SKP".toList, x.text.toList]
  | .skipReleased x => ["SKNP".toList, x.text.toList]
  | .readDelay x => ["LD".toList, comma x.text, "DT".toList]
  | .awaitKey x => ["LD".toList, comma x.text, "K".toList]
  | .setDelay x => ["LD".toList, comma "DT", x.text.toList]
  | .setSound x => ["LD".toList, comma "ST", x.text.toList]
  | .addIndex x => ["ADD".toList, comma "I", x.text.toList]
  | .pointGlyph x => ["LD".toList, comma "F", x.text.toList]
  | .storeDecimal x => ["LD".toList, comma "B", x.text.toList]
  | .storeRegisters x => ["LD".toList, comma "[I]", x.text.toList]
  | .loadRegisters x => ["LD".toList, comma x.text, "[I]".toList]

private theorem toList_mnemonic (instr : Instr) :
    instr.mnemonic.toList = [' '].intercalate instr.parts := by
  cases instr <;> simp [mnemonic, parts, comma, List.intercalate]

private theorem blank_notMem_parts (instr : Instr) : ∀ part ∈ instr.parts, ' ' ∉ part := by
  have hRegister (x : Reg) : ' ' ∉ x.text.toList := by
    revert x
    decide
  have hHeight (height : Fin 16) : ' ' ∉ (Numeral.decimal height.val).toList := by
    revert height
    decide
  have hName (op : AluOp) : ' ' ∉ op.text.toList := by cases op <;> decide
  have hPadded (width n : Nat) : ' ' ∉ Numeral.padded 16 width n :=
    fun h => (Operand.ne_of_mem_padded h).1 rfl
  cases instr <;>
    simp [parts, comma, byteText, addressText, Numeral.hex, hRegister, hHeight, hName, hPadded]

/-- The text of an instruction falls into its parts. -/
theorem parts_mnemonic (instr : Instr) : instr.mnemonic.toList.splitOn ' ' = instr.parts := by
  have hSome : instr.parts ≠ [] := by cases instr <;> simp [parts]
  rw [toList_mnemonic]
  exact List.splitOn_intercalate ' ' instr.blank_notMem_parts hSome

section Parts

open Operand

variable {name : String} {p q r : List Char} {a b c : Operand}

private theorem ofParts?_one (ha : ofPart? p = some a) :
    ofParts? [name.toList, p] = ofOperands? name [a] := by
  simp [ofParts?, ha]

private theorem ofParts?_two (ha : ofPart? p = some a) (hb : ofPart? q = some b) :
    ofParts? [name.toList, p, q] = ofOperands? name [a, b] := by
  simp [ofParts?, ha, hb]

private theorem ofParts?_three (ha : ofPart? p = some a) (hb : ofPart? q = some b)
    (hc : ofPart? r = some c) : ofParts? [name.toList, p, q, r] = ofOperands? name [a, b, c] := by
  simp [ofParts?, ha, hb, hc]

private theorem ofParts?_parts (instr : Instr) : ofParts? instr.parts = some instr := by
  have hAddress (a : UInt16) : UInt16.ofNat a.toNat = a := UInt16.ofNat_toNat
  have hByte (v : UInt8) : UInt8.ofNat v.toNat = v := UInt8.ofNat_toNat
  have hBoth {name : String} (x y : Reg) : ofParts? [name.toList, comma x.text, y.text.toList] =
      ofOperands? name [.register x, .register y] :=
    ofParts?_two (ofPart?_register_comma x) (ofPart?_register y)
  have hMixed {name : String} (x : Reg) (v : UInt8) :
      ofParts? [name.toList, comma x.text, (byteText v).toList] =
        ofOperands? name [.register x, .number v.toNat] :=
    ofParts?_two (ofPart?_register_comma x) (ofPart?_byte v)
  cases instr with
  | clear => rfl
  | ret => rfl
  | jump a => exact (ofParts?_one (ofPart?_address a)).trans (congrArg (some ∘ jump) (hAddress a))
  | call a => exact (ofParts?_one (ofPart?_address a)).trans (congrArg (some ∘ call) (hAddress a))
  | skipEqual x v => exact (hMixed x v).trans (congrArg (some ∘ skipEqual x) (hByte v))
  | skipNotEqual x v => exact (hMixed x v).trans (congrArg (some ∘ skipNotEqual x) (hByte v))
  | skipSame x y => exact hBoth x y
  | skipDifferent x y => exact hBoth x y
  | set x v => exact (hMixed x v).trans (congrArg (some ∘ set x) (hByte v))
  | increase x v => exact (hMixed x v).trans (congrArg (some ∘ increase x) (hByte v))
  | alu op x y => cases op <;> exact hBoth x y
  | shiftRight x => exact ofParts?_one (ofPart?_register x)
  | shiftLeft x => exact ofParts?_one (ofPart?_register x)
  | setIndex a =>
      exact (ofParts?_two (a := .named "I") (by decide) (ofPart?_address a)).trans
        (congrArg (some ∘ setIndex) (hAddress a))
  | jumpOffset a =>
      exact (ofParts?_two (ofPart?_register_comma 0) (ofPart?_address a)).trans
        (congrArg (some ∘ jumpOffset) (hAddress a))
  | random x v => exact (hMixed x v).trans (congrArg (some ∘ random x) (hByte v))
  | draw x y h =>
      exact ofParts?_three (ofPart?_register_comma x) (ofPart?_register_comma y) (ofPart?_height h)
  | skipPressed x => exact ofParts?_one (ofPart?_register x)
  | skipReleased x => exact ofParts?_one (ofPart?_register x)
  | readDelay x => exact ofParts?_two (b := .named "DT") (ofPart?_register_comma x) (by decide)
  | awaitKey x => exact ofParts?_two (b := .named "K") (ofPart?_register_comma x) (by decide)
  | setDelay x => exact ofParts?_two (a := .named "DT") (by decide) (ofPart?_register x)
  | setSound x => exact ofParts?_two (a := .named "ST") (by decide) (ofPart?_register x)
  | addIndex x => exact ofParts?_two (a := .named "I") (by decide) (ofPart?_register x)
  | pointGlyph x => exact ofParts?_two (a := .named "F") (by decide) (ofPart?_register x)
  | storeDecimal x => exact ofParts?_two (a := .named "B") (by decide) (ofPart?_register x)
  | storeRegisters x => exact ofParts?_two (a := .named "[I]") (by decide) (ofPart?_register x)
  | loadRegisters x => exact ofParts?_two (b := .named "[I]") (ofPart?_register_comma x) (by decide)

end Parts

/-- **The text of an instruction is read back.** -/
theorem ofText?_mnemonic (instr : Instr) : ofText? instr.mnemonic = some instr := by
  rw [ofText?, parts_mnemonic, ofParts?_parts]

theorem mnemonic_injective {i j : Instr} (h : i.mnemonic = j.mnemonic) : i = j := by
  have hBoth := ofText?_mnemonic i
  rw [h, ofText?_mnemonic] at hBoth
  exact (Option.some.inj hBoth).symm

end Instr

end Chip8
