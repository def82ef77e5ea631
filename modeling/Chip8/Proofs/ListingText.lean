import Chip8.Listing
import Chip8.Machine
import Chip8.Proofs.Assembly

/-!
# Reading listings

A listing is text in rows, and each row has an address, a column with the digits
of one or two bytes, and what the bytes mean. The digits are enough to have the
program back: `Listing.columns` cuts them out of the text and
`Listing.ofColumns?` reads them.

Listings look at the bytes of a program, and the machine looks at its memory.
They agree about every word of a program that can be loaded, also about those
at odd offsets. Past the end memory has zeros, so the last byte of a program is
the high byte of a word there, and a listing shows it alone.

## Main results

* `Listing.linesFrom_eq_map` — the lines of a listing by their offsets.
* `Listing.rows_ofProgram` — the rows of the text are these lines.
* `Listing.ofColumns?_columns` — the digits are read back as the program.
* `listing_faithful` — what a listing says about a program and about memory.
-/

namespace Chip8

namespace Listing

/-! ## Plain text -/

/-- There are no control characters in a text, and so it stays on one line. -/
def Plain (text : List Char) : Prop := ∀ c ∈ text, ' ' ≤ c

namespace Plain

@[simp] theorem nil : Plain [] := fun _ hc => absurd hc List.not_mem_nil

@[simp] theorem cons {c : Char} {text : List Char} : Plain (c :: text) ↔ ' ' ≤ c ∧ Plain text :=
  List.forall_mem_cons

@[simp] theorem append {first later : List Char} :
    Plain (first ++ later) ↔ Plain first ∧ Plain later :=
  List.forall_mem_append

private theorem newline_notMem {text : List Char} (h : Plain text) : '\n' ∉ text :=
  fun hMem => absurd (h '\n' hMem) (by decide)

private theorem of_digits {text : List Char}
    (hDigits : ∀ c ∈ text, ∃ d, d < 16 ∧ c = Numeral.digitChar d) : Plain text := by
  intro c hc
  obtain ⟨d, hd, rfl⟩ := hDigits c hc
  have hAll : ∀ k : Fin 16, ' ' ≤ Numeral.digitChar k := by decide
  exact hAll ⟨d, hd⟩

@[simp] theorem padded (width n : Nat) : Plain (Numeral.padded 16 width n) :=
  of_digits fun _ hc => Numeral.mem_padded (by decide) (by decide) hc

@[simp] theorem decimal (n : Nat) : Plain (Numeral.digits 10 n) :=
  of_digits fun _ hc => Numeral.mem_digits (by decide) (by decide) hc

theorem instr (instr : Instr) : Plain instr.mnemonic.toList := by
  have hRegister (x : Reg) : Plain x.text.toList := by
    simp [Reg.text, Numeral.hex]
  have hName (op : AluOp) : Plain op.text.toList := by cases op <;> simp [AluOp.text]
  cases instr <;>
    simp [Instr.mnemonic, byteText, addressText, Numeral.hex, Numeral.decimal, hRegister, hName]

theorem mnemonic (w : Word) : Plain w.mnemonic.toList := by
  unfold Word.mnemonic
  split
  · exact instr _
  · simp [Word.hex, Numeral.hex]

end Plain

/-! ## Digits of bytes -/

/-- Bytes in hexadecimal, two digits each. -/
def digitsOf (bytes : List UInt8) : List Char := bytes.flatMap fun b => Numeral.padded 16 2 b.toNat

/-- The bytes that digits denote, two digits each. -/
def ofDigits? : List Char → Option (List UInt8)
  | [] => some []
  | [_] => none
  | high :: low :: rest =>
      match Numeral.value? 16 [high, low], ofDigits? rest with
      | some value, some bytes => some (UInt8.ofNat value :: bytes)
      | _, _ => none

private theorem padded_byte (value : UInt8) :
    Numeral.padded 16 2 value.toNat =
      [Numeral.digitChar (value.toNat / 16), Numeral.digitChar (value.toNat % 16)] := by
  have hHigh : value.toNat / 16 < 16 := by have := value.toNat_lt; omega
  rw [Numeral.padded_succ (by decide) (by decide), Numeral.padded_of_lt hHigh]
  rfl

/-- The digits of a word are those of its bytes. -/
theorem padded_word (high low : UInt8) :
    Numeral.padded 16 4 (Word.ofBytes high low).toNat = digitsOf [high, low] := by
  have hLow := low.toNat_lt
  have hWord := Word.toNat_ofBytes high low
  generalize (Word.ofBytes high low).toNat = word at hWord ⊢
  have hFront : word / 16 / 16 = high.toNat := by omega
  have hThird : word / 16 % 16 = low.toNat / 16 := by omega
  have hLast : word % 16 = low.toNat % 16 := by omega
  rw [Numeral.padded_succ (by decide) (by decide), Numeral.padded_succ (by decide) (by decide),
    hFront, hThird, hLast]
  simp [digitsOf, padded_byte low]

/-- **Bytes are read back from their digits.** -/
theorem ofDigits?_digitsOf (bytes : List UInt8) : ofDigits? (digitsOf bytes) = some bytes := by
  induction bytes with
  | nil => rfl
  | cons b rest ih =>
      have hValue := Numeral.value?_padded (by decide) (by decide : 16 ≤ 16) 2 b.toNat
      rw [padded_byte] at hValue
      show ofDigits? (Numeral.padded 16 2 b.toNat ++ digitsOf rest) = some (b :: rest)
      rw [padded_byte]
      simp only [List.cons_append, List.nil_append, ofDigits?, hValue, ih, UInt8.ofNat_toNat]

/-! ## Rows -/

/-- The rows of a text, without the ends of the lines. -/
def rows (text : String) : List (List Char) := (text.toList.splitOn '\n').dropLast

/-- What stands in a row between the blank behind the colon and the next blank. -/
def hexColumn (row : List Char) : List Char :=
  ((row.dropWhile (· ≠ ':')).drop 2).takeWhile (· ≠ ' ')

/-- The columns of digits in a text. -/
def columns (text : String) : List (List Char) := (rows text).map hexColumn

/-- The bytes that columns of digits denote together. -/
def ofColumns? (columns : List (List Char)) : Option (List UInt8) := ofDigits? columns.flatten

/-- An address, the digits of the bytes there, and what they mean. -/
def rowText (address : Nat) (bytes : List UInt8) (meaning : List Char) : List Char :=
  Numeral.padded 16 4 address ++ ':' :: ' ' :: (digitsOf bytes ++ ' ' :: ' ' :: meaning)

private theorem hexColumn_rowText (address : Nat) (bytes : List UInt8) (meaning : List Char) :
    hexColumn (rowText address bytes meaning) = digitsOf bytes := by
  have hColon : ∀ c ∈ Numeral.padded 16 4 address, decide (c ≠ ':') = true := by
    rintro c hc
    refine decide_eq_true ?_
    rintro rfl
    exact Numeral.notMem_padded (by decide) (by decide) (by decide) _ _ hc
  have hBlank : ∀ c ∈ digitsOf bytes, decide (c ≠ ' ') = true := by
    intro c hc
    obtain ⟨b, -, hMem⟩ := List.mem_flatMap.1 hc
    exact decide_eq_true (Operand.ne_of_mem_padded hMem).1
  rw [hexColumn, rowText, List.dropWhile_append_of_pos hColon]
  show (digitsOf bytes ++ _).takeWhile _ = _
  rw [List.takeWhile_append_of_pos hBlank]
  simp

private theorem toList_wordLine (address : Nat) (high low : UInt8) :
    (wordLine address (Word.ofBytes high low)).toList =
      rowText address [high, low] (Word.ofBytes high low).mnemonic.toList ++ ['\n'] := by
  simp [wordLine, rowText, Word.hex, Numeral.hex, padded_word]

private theorem toList_byteLine (address : Nat) (value : UInt8) :
    (byteLine address value).toList =
      rowText address [value] ("  DB ".toList ++ (byteText value).toList) ++ ['\n'] := by
  simp [byteLine, rowText, digitsOf, Numeral.hex]

/-- The line at the head of some bytes shows the first two of them, in one row. -/
theorem toList_headLine (address : Nat) {bytes : List UInt8} (hSome : bytes ≠ []) :
    ∃ meaning, Plain meaning ∧
      (headLine address bytes).toList = rowText address (bytes.take 2) meaning ++ ['\n'] := by
  match bytes with
  | [] => contradiction
  | [value] => exact ⟨_, by simp [byteText, Numeral.hex], toList_byteLine address value⟩
  | high :: low :: rest => exact ⟨_, Plain.mnemonic _, toList_wordLine address high low⟩

private theorem plain_rowText {address : Nat} {bytes : List UInt8} {meaning : List Char}
    (hPlain : Plain meaning) : Plain (rowText address bytes meaning) := by
  have hDigits : Plain (digitsOf bytes) := by
    intro c hc
    obtain ⟨b, -, hMem⟩ := List.mem_flatMap.1 hc
    exact Plain.padded 2 b.toNat c hMem
  simp [rowText, hDigits, hPlain]

/-! ## Lines -/

/-- Parts with a separator behind each are split off what comes after them. -/
theorem splitOn_ended {separator : Char} {parts : List (List Char)}
    (hParts : ∀ part ∈ parts, separator ∉ part) (rest : List Char) :
    (parts.flatMap (· ++ [separator]) ++ rest).splitOn separator =
      parts ++ rest.splitOn separator := by
  induction parts with
  | nil => rfl
  | cons part parts ih =>
      rw [List.flatMap_cons, List.append_assoc, List.append_assoc, List.singleton_append,
        List.splitOn_append_cons_self_of_not_mem (hParts part List.mem_cons_self),
        ih fun next hNext => hParts next (List.mem_cons_of_mem _ hNext), List.cons_append]

/-- Rows with the end of a line behind each are read as these rows. -/
theorem rows_ofList {lines : List (List Char)} (hLines : ∀ line ∈ lines, '\n' ∉ line) :
    rows (String.ofList (lines.flatMap (· ++ ['\n']))) = lines := by
  have hSplit := splitOn_ended hLines []
  rw [List.append_nil, List.splitOn_nil] at hSplit
  rw [rows, String.toList_ofList, hSplit, List.dropLast_concat]

/-- Text put together from lines falls into these lines again. -/
theorem rows_join {lines : List String}
    (hLines : ∀ line ∈ lines, ∃ row, Plain row ∧ line.toList = row ++ ['\n']) :
    rows (String.join lines) = lines.map fun line => line.toList.dropLast := by
  have hEach : ∀ line ∈ lines, line.toList.dropLast ++ ['\n'] = line.toList := by
    intro line hMem
    obtain ⟨row, _, hLine⟩ := hLines line hMem
    rw [hLine, List.dropLast_concat]
  have hText : String.join lines =
      String.ofList ((lines.map fun line => line.toList.dropLast).flatMap (· ++ ['\n'])) := by
    apply String.toList_injective
    have hTexts : (lines.map fun line => line.toList.dropLast).map (· ++ ['\n']) =
        lines.map String.toList := by
      rw [List.map_map]
      exact List.map_congr_left hEach
    rw [String.toList_ofList, List.flatMap_def, hTexts, String.toList_join, List.flatMap_def]
  rw [hText]
  refine rows_ofList fun row hMem => ?_
  obtain ⟨line, hLine, rfl⟩ := List.mem_map.1 hMem
  obtain ⟨row, hPlain, hText⟩ := hLines line hLine
  rw [hText, List.dropLast_concat]
  exact hPlain.newline_notMem

/-- **The lines of a listing are those at every other offset.** -/
theorem linesFrom_eq_map (address : Nat) (bytes : List UInt8) :
    linesFrom address bytes = (List.range ((bytes.length + 1) / 2)).map fun k =>
      headLine (address + 2 * k) (bytes.drop (2 * k)) := by
  fun_induction linesFrom address bytes with
  | case1 address => rfl
  | case2 address value => simp [headLine]
  | case3 address high low rest ih =>
      have hCount : ((high :: low :: rest).length + 1) / 2 = (rest.length + 1) / 2 + 1 := by
        simp only [List.length_cons]
        omega
      rw [hCount, List.range_succ_eq_map, List.map_cons, List.map_map, ih]
      refine List.cons_eq_cons.2 ⟨rfl, List.map_congr_left fun k _ => ?_⟩
      show headLine (address + 2 + 2 * k) (rest.drop (2 * k)) =
        headLine (address + 2 * (k + 1)) ((high :: low :: rest).drop (2 * k + 2))
      rw [List.drop_succ_cons, List.drop_succ_cons, Nat.mul_add, Nat.add_assoc, Nat.add_comm 2]

variable (program : List UInt8)

private theorem ofProgram_eq_join : ofProgram program =
    String.join ((List.range ((program.length + 1) / 2)).map fun k => lineAt program (2 * k)) :=
  congrArg String.join (linesFrom_eq_map programStart program)

private theorem exists_row_of_mem {address : Nat} {bytes : List UInt8} {line : String}
    (hLine : line ∈ linesFrom address bytes) :
    ∃ row, Plain row ∧ line.toList = row ++ ['\n'] := by
  rw [linesFrom_eq_map, List.mem_map] at hLine
  obtain ⟨k, hk, rfl⟩ := hLine
  have hSome : bytes.drop (2 * k) ≠ [] := by
    rw [Ne, List.drop_eq_nil_iff, Nat.not_le]
    have := List.mem_range.1 hk
    omega
  obtain ⟨meaning, hPlain, hHead⟩ := toList_headLine (address + 2 * k) hSome
  exact ⟨_, plain_rowText hPlain, hHead⟩

theorem rows_ofProgram : rows (ofProgram program) =
    (linesFrom programStart program).map fun line => line.toList.dropLast :=
  rows_join fun _ hLine => exists_row_of_mem hLine

theorem length_rows : (rows (ofProgram program)).length = (program.length + 1) / 2 := by
  rw [rows_ofProgram, linesFrom_eq_map, List.length_map, List.length_map, List.length_range]

/-- Each row has its address in front. -/
theorem address_of_row {k : Nat} {row : List Char}
    (hRow : (rows (ofProgram program))[k]? = some row) :
    (Numeral.hex 4 (programStart + 2 * k) ++ ":").toList <+: row := by
  have hk : k < (program.length + 1) / 2 :=
    length_rows program ▸ (List.getElem?_eq_some_iff.1 hRow).1
  have hSome : program.drop (2 * k) ≠ [] := by
    rw [Ne, List.drop_eq_nil_iff, Nat.not_le]
    omega
  obtain ⟨meaning, -, hHead⟩ := toList_headLine (programStart + 2 * k) hSome
  have hSame : row = rowText (programStart + 2 * k) ((program.drop (2 * k)).take 2) meaning := by
    rw [rows_ofProgram, linesFrom_eq_map, List.map_map, List.getElem?_map,
      List.getElem?_range hk] at hRow
    rw [← Option.some.inj hRow, Function.comp, hHead, List.dropLast_concat]
  rw [hSame, String.toList_append, Numeral.hex, String.toList_ofList]
  exact ⟨_, List.append_assoc ..⟩

private theorem flatten_columns (address : Nat) (bytes : List UInt8) :
    ((linesFrom address bytes).map fun line => hexColumn line.toList.dropLast).flatten =
      digitsOf bytes := by
  fun_induction linesFrom address bytes with
  | case1 address => rfl
  | case2 address value =>
      rw [List.map_singleton, toList_byteLine, List.dropLast_concat, hexColumn_rowText]
      simp
  | case3 address high low rest ih =>
      rw [List.map_cons, List.flatten_cons, ih, toList_wordLine, List.dropLast_concat,
        hexColumn_rowText]
      exact List.flatMap_append.symm

/-- **A program is read back** from the digits in its listing. -/
theorem ofColumns?_columns : ofColumns? (columns (ofProgram program)) = some program := by
  rw [ofColumns?, columns, rows_ofProgram, List.map_map]
  exact (congrArg ofDigits? (flatten_columns programStart program)).trans
    (ofDigits?_digitsOf program)

theorem columns_injective {other : List UInt8}
    (h : columns (ofProgram other) = columns (ofProgram program)) : other = program := by
  have hOther := ofColumns?_columns other
  rw [h, ofColumns?_columns] at hOther
  exact (Option.some.inj hOther).symm

/-! ## Listings and memory -/

variable {program} {m : Machine} {offset : Nat}

/-- The line at an offset shows the word that memory has there. -/
theorem lineAt_of_word (hLoad : (m.load program).result = .ok ())
    (hWord : offset + 2 ≤ program.length) :
    lineAt program offset = wordLine (programStart + offset)
      ((m.load program).state.cpu.memory.fetch (programStart + offset)) := by
  have hSize := Machine.size_of_loaded hLoad
  have hFetch := Memory.fetch_ofProgram_add (k := offset) hWord
    (Nat.lt_of_lt_of_le (Nat.add_lt_add_left hWord _) (Memory.fits_of_isProgramSize hSize))
  rw [Machine.load_of_accepted hSize]
  show _ = wordLine _ ((Memory.ofProgram program).fetch _)
  rw [hFetch, lineAt, List.drop_eq_getElem_cons (by omega), List.drop_eq_getElem_cons hWord]
  rfl

/-- The line at the last byte shows it alone, and it is the high byte of the word there. -/
theorem lineAt_of_byte (hLoad : (m.load program).result = .ok ())
    (hLast : offset + 1 = program.length) :
    ∃ byte, program[offset]? = some byte ∧
      byte.toNat =
        ((m.load program).state.cpu.memory.fetch (programStart + offset)).toNat / 256 ∧
      lineAt program offset = byteLine (programStart + offset) byte := by
  have hSize := Machine.size_of_loaded hLoad
  have hOffset : offset < program.length := by omega
  refine ⟨program[offset], List.getElem?_eq_getElem hOffset, ?_, ?_⟩
  · rw [Memory.toNat_fetch_high, Machine.load_of_accepted hSize]
    show _ = ((Memory.ofProgram program).read _).toNat
    rw [Memory.read_ofProgram hOffset
      (Nat.lt_of_lt_of_le (Nat.add_lt_add_left hOffset _) (Memory.fits_of_isProgramSize hSize))]
  · rw [lineAt, List.drop_eq_getElem_cons hOffset, List.drop_eq_nil_of_le (by omega)]
    rfl

private theorem lineAt_of_past (hPast : program.length ≤ offset) : lineAt program offset = "" := by
  rw [lineAt, List.drop_eq_nil_of_le hPast]
  rfl

end Listing

/-- **What a listing says.**  Of any program it has a row for every two bytes, with the address in
front, and the digits in it are enough to have the program back; it is made of the lines at the even
offsets. Of a program that was loaded, the line at any offset has the word that is in memory there.
The last byte alone is the high byte of such a word, and there are no lines behind it. -/
theorem listing_faithful (program : List UInt8) :
    (Listing.rows (Listing.ofProgram program)).length = (program.length + 1) / 2 ∧
    (∀ k row, (Listing.rows (Listing.ofProgram program))[k]? = some row →
      (Numeral.hex 4 (0x200 + 2 * k) ++ ":").toList <+: row) ∧
    Listing.ofColumns? (Listing.columns (Listing.ofProgram program)) = some program ∧
    (∀ other, other ≠ program → Listing.ofProgram other ≠ Listing.ofProgram program) ∧
    Listing.ofProgram program = String.join
      ((List.range ((program.length + 1) / 2)).map fun k => Listing.lineAt program (2 * k)) ∧
    ∀ m : Machine, (m.load program).result = .ok () → ∀ offset,
      let word := (m.load program).state.cpu.memory.fetch (0x200 + offset)
      (offset + 2 ≤ program.length →
        Listing.lineAt program offset = Listing.wordLine (0x200 + offset) word) ∧
      (offset + 1 = program.length → ∃ byte, program[offset]? = some byte ∧
        byte.toNat = word.toNat / 256 ∧
        Listing.lineAt program offset = Listing.byteLine (0x200 + offset) byte) ∧
      (program.length ≤ offset → Listing.lineAt program offset = "") := by
  refine ⟨Listing.length_rows program, fun _ _ => Listing.address_of_row program,
    Listing.ofColumns?_columns program, ?_, Listing.ofProgram_eq_join program, ?_⟩
  · intro other hOther hSame
    exact hOther (Listing.columns_injective program (congrArg Listing.columns hSame))
  · intro m hLoad offset
    exact ⟨Listing.lineAt_of_word hLoad, Listing.lineAt_of_byte hLoad, Listing.lineAt_of_past⟩

/-- A word and a byte. -/
theorem listing_faithful_odd :
    let program : List UInt8 := [0x60, 0x05, 0xFF]
    let m := Machine.new {} (.cycling [1])
    (m.load program).result = .ok () ∧
    Listing.rows (Listing.ofProgram program) =
      ["0200: 6005  LD V0, 0x05".toList, "0202: FF    DB 0xFF".toList] ∧
    Listing.lineAt program 1 =
      Listing.wordLine 0x201 ((m.load program).state.cpu.memory.fetch 0x201) ∧
    Listing.lineAt program 2 = Listing.byteLine 0x202 0xFF ∧
    Listing.lineAt program 3 = "" := by
  intro program m
  have hLoad : (m.load program).result = .ok () := rfl
  obtain ⟨-, -, -, -, -, hMemory⟩ := listing_faithful program
  obtain ⟨byte, hByte, -, hLast⟩ := (hMemory m hLoad 2).2.1 rfl
  obtain rfl : 0xFF = byte := Option.some.inj hByte
  exact ⟨hLoad, by decide, (hMemory m hLoad 1).1 (by decide), hLast,
    (hMemory m hLoad 3).2.2 (by decide)⟩

end Chip8
