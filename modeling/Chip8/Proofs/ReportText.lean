import Chip8.Player
import Chip8.Console.Operation
import Chip8.Instr.Mnemonic
import Chip8.Proofs.Bitmap

/-!
# Reading reports

A report is text in lines: a line for each row of the display, a line with the
general registers, and a line with the rest that is shown of the processor. Only
the rows of the display are as wide as they look; a register line is made of cells
with a blank between them, each a label and a number behind an equals sign.
There is neither a blank nor the end of a line in a cell. So the lines can be cut
at their ends and the cells at the blanks, whatever the numbers are, and the
depth of the stack, which alone is not padded, ends where the text does.

## Main results

* `Console.splitOn_report` — the lines of a report.
* `Report.ofText?_report` — a report is read as what it was made of.
* `report_faithful` — both, for a player.
-/

namespace Chip8

/-- What a report shows. -/
structure Report where
  display : Framebuffer
  registers : Vector UInt8 16
  index : UInt16
  pc : UInt16
  delay : UInt8
  sound : UInt8
  /-- How many return addresses are held. -/
  depth : Nat
  deriving DecidableEq

/-- What a report of a console shows. -/
def Console.shown (c : Console Headless) : Report where
  display := c.devices.display
  registers := c.machine.cpu.registers
  index := c.machine.cpu.index
  pc := c.machine.cpu.pc
  delay := c.machine.cpu.delay
  sound := c.machine.cpu.sound
  depth := c.machine.cpu.stack.depth

namespace Report

/-! ## Cells -/

/-- A number behind its label. -/
def cell (label : String) (digits : List Char) : List Char := label.toList ++ '=' :: digits

/-- The number in a cell with the given label. -/
def cellValue? (label : String) (base : Nat) (text : List Char) : Option Nat :=
  if (label.toList ++ ['=']).isPrefixOf text then
    Numeral.value? base (text.drop (label.toList.length + 1))
  else none

private theorem cellValue?_cell (label : String) (base : Nat) (digits : List Char) :
    cellValue? label base (cell label digits) = Numeral.value? base digits := by
  have hCell : cell label digits = (label.toList ++ ['=']) ++ digits := by simp [cell]
  have hFront : (label.toList ++ ['=']).isPrefixOf (cell label digits) = true := by
    rw [List.isPrefixOf_iff_prefix, hCell]
    exact List.prefix_append _ _
  have hDigits : (cell label digits).drop (label.toList.length + 1) = digits := by
    rw [hCell]
    exact List.drop_left' (by simp)
  rw [cellValue?, if_pos hFront, hDigits]

private theorem cellValue?_padded (label : String) (width n : Nat) :
    cellValue? label 16 (cell label (Numeral.padded 16 width n)) = some n :=
  (cellValue?_cell ..).trans (Numeral.value?_padded (by decide) (by decide) width n)

private theorem cellValue?_decimal (label : String) (n : Nat) :
    cellValue? label 10 (cell label (Numeral.digits 10 n)) = some n :=
  (cellValue?_cell ..).trans (Numeral.value?_digits (by decide) (by decide) n)

/-- There is no blank and no end of a line in a text. -/
def Unbroken (text : List Char) : Prop := ' ' ∉ text ∧ '\n' ∉ text

instance (text : List Char) : Decidable (Unbroken text) := inferInstanceAs (Decidable (_ ∧ _))

private theorem notMem_cell {c : Char} {label : String} {digits : List Char}
    (hLabel : c ∉ label.toList)
    (hEquals : c ≠ '=') (hDigits : c ∉ digits) : c ∉ cell label digits := by
  rw [cell, List.mem_append, List.mem_cons, not_or, not_or]
  exact ⟨hLabel, hEquals, hDigits⟩

private theorem unbroken_cell {label : String} {digits : List Char} (hLabel : Unbroken label.toList)
    (hDigits : Unbroken digits) : Unbroken (cell label digits) :=
  ⟨notMem_cell hLabel.1 (by decide) hDigits.1, notMem_cell hLabel.2 (by decide) hDigits.2⟩

private theorem unbroken_padded {base : Nat} (hLow : 2 ≤ base) (hHigh : base ≤ 16) (width n : Nat) :
    Unbroken (Numeral.padded base width n) :=
  ⟨Numeral.notMem_padded hLow hHigh (by decide) width n,
    Numeral.notMem_padded hLow hHigh (by decide) width n⟩

private theorem unbroken_decimal (n : Nat) : Unbroken (Numeral.digits 10 n) := by
  have hPadded := unbroken_padded (by decide) (by decide : 10 ≤ 16) 0 n
  rwa [Numeral.padded_zero] at hPadded

/-- Cells with a blank behind each stay on one line. -/
theorem newline_notMem_cells {cells : List (List Char)} (hCells : ∀ text ∈ cells, Unbroken text) :
    '\n' ∉ cells.flatMap (· ++ [' ']) := by
  intro hMem
  obtain ⟨text, hText, hChar⟩ := List.mem_flatMap.1 hMem
  rcases List.mem_append.1 hChar with hCell | hBlank
  · exact (hCells text hText).2 hCell
  · simp at hBlank

/-! ## Lines -/

variable (r : Report)

/-- The cell of a general register. -/
def registerCell (x : Reg) : List Char :=
  cell x.text (Numeral.padded 16 2 (r.registers.get x).toNat)

/-- The line of the general registers, with a blank behind each cell. -/
def generalLine : List Char := ((List.finRange 16).map r.registerCell).flatMap (· ++ [' '])

/-- The cells of the last line, without the last one. -/
def specialCells : List (List Char) :=
  [cell "I" (Numeral.padded 16 4 r.index.toNat), cell "PC" (Numeral.padded 16 4 r.pc.toNat),
    cell "DT" (Numeral.padded 16 2 r.delay.toNat), cell "ST" (Numeral.padded 16 2 r.sound.toNat)]

/-- The cell of the stack. -/
def depthCell : List Char := cell "SP" (Numeral.digits 10 r.depth)

/-- The last line, with a blank between the cells. -/
def specialLine : List Char := r.specialCells.flatMap (· ++ [' ']) ++ r.depthCell

private theorem unbroken_registerCells :
    ∀ text ∈ (List.finRange 16).map r.registerCell, Unbroken text := by
  intro text hText
  obtain ⟨x, -, rfl⟩ := List.mem_map.1 hText
  have hLabel : ∀ x : Reg, Unbroken x.text.toList := by decide
  exact unbroken_cell (hLabel x) (unbroken_padded (by decide) (by decide) 2 _)

private theorem unbroken_specialCells : ∀ text ∈ r.specialCells, Unbroken text := by
  intro text hText
  simp only [specialCells, List.mem_cons, List.not_mem_nil, or_false] at hText
  rcases hText with rfl | rfl | rfl | rfl <;>
    exact unbroken_cell (by decide) (unbroken_padded (by decide) (by decide) _ _)

private theorem unbroken_depthCell : Unbroken r.depthCell :=
  unbroken_cell (by decide) (unbroken_decimal r.depth)

private theorem splitOn_generalLine :
    r.generalLine.splitOn ' ' = (List.finRange 16).map r.registerCell ++ [[]] := by
  have hSplit := Listing.splitOn_ended (fun text h => (r.unbroken_registerCells text h).1) []
  rwa [List.append_nil, List.splitOn_nil] at hSplit

private theorem splitOn_specialLine :
    r.specialLine.splitOn ' ' = r.specialCells ++ [r.depthCell] := by
  rw [specialLine, Listing.splitOn_ended fun text h => (r.unbroken_specialCells text h).1,
    List.splitOn_eq_singleton r.unbroken_depthCell.1]

private theorem newline_notMem_generalLine : '\n' ∉ r.generalLine :=
  newline_notMem_cells r.unbroken_registerCells

private theorem newline_notMem_specialLine : '\n' ∉ r.specialLine := by
  rw [specialLine, List.mem_append, not_or]
  exact ⟨newline_notMem_cells r.unbroken_specialCells, r.unbroken_depthCell.2⟩

/-! ## Reading -/

/-- The value of a general register in the cells of its line. -/
def register? (cells : List (List Char)) (x : Reg) : Option UInt8 := do
  let text ← cells[x.val]?
  let value ← cellValue? x.text 16 text
  return UInt8.ofNat value

/-- The general registers in their line. -/
def registers? (line : List Char) : Option (Vector UInt8 16) := do
  let values ← (List.finRange 16).mapM (register? (line.splitOn ' '))
  if h : values.length = 16 then some ⟨⟨values⟩, h⟩ else none

/-- What a text shows, if it is a report. -/
def ofText? (text : String) : Option Report :=
  let lines := text.toList.splitOn '\n'
  match lines.drop Framebuffer.height with
  | [general, special] =>
      match special.splitOn ' ' with
      | [index, pc, delay, sound, depth] => do
        let rows := (lines.take Framebuffer.height).flatMap (· ++ ['\n'])
        return {
          display := ← Framebuffer.ofDump? (String.ofList rows)
          registers := ← registers? general
          index := UInt16.ofNat (← cellValue? "I" 16 index)
          pc := UInt16.ofNat (← cellValue? "PC" 16 pc)
          delay := UInt8.ofNat (← cellValue? "DT" 16 delay)
          sound := UInt8.ofNat (← cellValue? "ST" 16 sound)
          depth := ← cellValue? "SP" 10 depth }
      | _ => none
  | _ => none

private theorem register?_generalLine (x : Reg) :
    register? (r.generalLine.splitOn ' ') x = some (r.registers.get x) := by
  have hCell : ((List.finRange 16).map r.registerCell ++ [[]])[x.val]? =
      some (r.registerCell x) := by
    rw [List.getElem?_append_left (by simp)]
    simp
  rw [register?, splitOn_generalLine, hCell]
  simp [registerCell, cellValue?_padded]

private theorem registers?_generalLine : registers? r.generalLine = some r.registers := by
  have hValues : (List.finRange 16).map r.registers.get = r.registers.toList := by
    apply List.ext_getElem <;> simp [Vector.get]
  have hLength : r.registers.toList.length = 16 := Vector.length_toList
  have hEach : register? (r.generalLine.splitOn ' ') = fun x => pure (r.registers.get x) :=
    funext r.register?_generalLine
  rw [registers?, hEach, List.mapM_pure, hValues]
  show (if h : r.registers.toList.length = 16 then
    some (⟨⟨r.registers.toList⟩, h⟩ : Vector UInt8 16) else none) = some r.registers
  rw [dif_pos hLength]
  rfl

end Report

namespace Console

variable (c : Console Headless)

/-- The first line of the registers, as it is printed. -/
theorem generalLine_shown : c.shown.generalLine =
    (String.join ((List.finRange 16).map fun x =>
      "V" ++ Numeral.hex 1 x.val ++ "=" ++ Numeral.hex 2 (c.machine.cpu.reg x).toNat ++
        " ")).toList := by
  simp [Report.generalLine, Report.registerCell, Report.cell, Reg.text, Numeral.hex,
    List.flatMap_map, String.toList_join]
  rfl

/-- The second line of the registers, as it is printed. -/
theorem specialLine_shown : c.shown.specialLine =
    ("I=" ++ Numeral.hex 4 c.machine.cpu.index.toNat ++
      " PC=" ++ Numeral.hex 4 c.machine.cpu.pc.toNat ++
      " DT=" ++ Numeral.hex 2 c.machine.cpu.delay.toNat ++
      " ST=" ++ Numeral.hex 2 c.machine.cpu.sound.toNat ++
      " SP=" ++ Numeral.decimal c.machine.cpu.stack.depth).toList := by
  simp [Report.specialLine, Report.specialCells, Report.depthCell, Report.cell, Numeral.hex,
    Numeral.decimal, shown]

private theorem toList_dump : c.machine.cpu.dump.toList =
    c.shown.generalLine ++ '\n' :: c.shown.specialLine := by
  rw [generalLine_shown, specialLine_shown]
  simp [Cpu.dump, List.map_map, Function.comp_def, String.append_assoc]

private theorem toList_report : c.report.toList =
    ((List.range Framebuffer.height).map fun y => c.devices.display.rowText y).flatMap
      (· ++ ['\n']) ++ (c.shown.generalLine ++ '\n' :: c.shown.specialLine) := by
  rw [report, String.toList_append, Framebuffer.dump_eq_rows, String.toList_ofList, toList_dump]

/-- **The lines of a report**: the rows of the display and the two lines of the registers. -/
theorem splitOn_report : c.report.toList.splitOn '\n' =
    ((List.range Framebuffer.height).map fun y => c.devices.display.rowText y) ++
      [c.shown.generalLine, c.shown.specialLine] := by
  have hRows : ∀ row ∈ (List.range Framebuffer.height).map fun y => c.devices.display.rowText y,
      '\n' ∉ row := by
    intro row hRow
    obtain ⟨y, -, rfl⟩ := List.mem_map.1 hRow
    exact c.devices.display.newline_notMem_rowText y
  rw [toList_report, Listing.splitOn_ended hRows,
    List.splitOn_append_cons_self_of_not_mem c.shown.newline_notMem_generalLine,
    List.splitOn_eq_singleton c.shown.newline_notMem_specialLine]

/-- A report does not end with the end of a line. -/
theorem getLast?_report : c.report.toList.getLast? ≠ some '\n' := by
  have hSome : c.shown.specialLine ≠ [] := by
    simp [Report.specialLine, Report.depthCell, Report.cell]
  have hEnd : c.report.toList.getLast? = some (c.shown.specialLine.getLast hSome) := by
    rw [toList_report]
    simp [List.getLast?_append, List.getLast?_cons, List.getLast?_eq_some_getLast hSome]
  intro hLast
  rw [hEnd, Option.some.injEq] at hLast
  exact c.shown.newline_notMem_specialLine (hLast ▸ List.getLast_mem hSome)

/-- **A report is read as what it was made of.** -/
theorem ofText?_report : Report.ofText? c.report = some c.shown := by
  have hLength :
      ((List.range Framebuffer.height).map fun y => c.devices.display.rowText y).length =
        Framebuffer.height := by simp
  have hDisplay := c.devices.display.ofDump?_dump
  rw [Framebuffer.dump_eq_rows] at hDisplay
  simp only [Report.ofText?, splitOn_report, List.drop_left' hLength, List.take_left' hLength,
    Report.splitOn_specialLine, Report.specialCells, List.cons_append, List.nil_append, hDisplay,
    Report.registers?_generalLine, Report.depthCell, Report.cellValue?_padded,
    Report.cellValue?_decimal]
  simp [shown]

end Console

/-- **A report is a faithful encoding.**  Its lines are the 32 rows of the display, a sign for each
of their 64 pixels, and then the general registers and what else is shown of the processor; there is
no end of a line behind the last one. A reader has the display, the registers, the index, the
program counter, the timers and the depth of the stack back from it, and so players with the same
report agree on all of them. -/
theorem report_faithful (p : Player) :
    let cpu := p.console.machine.cpu
    let display := p.console.devices.display
    let rows := (List.range 32).map fun y => (List.range 64).map fun x =>
      if display.pixel x y then '#' else '.'
    let general := String.join ((List.finRange 16).map fun x =>
      "V" ++ Numeral.hex 1 x.val ++ "=" ++ Numeral.hex 2 (cpu.reg x).toNat ++ " ")
    let special := "I=" ++ Numeral.hex 4 cpu.index.toNat ++ " PC=" ++ Numeral.hex 4 cpu.pc.toNat ++
      " DT=" ++ Numeral.hex 2 cpu.delay.toNat ++ " ST=" ++ Numeral.hex 2 cpu.sound.toNat ++
      " SP=" ++ Numeral.decimal cpu.stack.depth
    p.report.toList.splitOn '\n' = rows ++ [general.toList, special.toList] ∧
    p.report.toList.getLast? ≠ some '\n' ∧
    Report.ofText? p.report = some
      { display, registers := cpu.registers, index := cpu.index, pc := cpu.pc, delay := cpu.delay
        sound := cpu.sound, depth := cpu.stack.depth } ∧
    ∀ q : Player, q.report = p.report → q.console.shown = p.console.shown := by
  intro cpu display rows general special
  have hLines := p.console.splitOn_report
  rw [p.console.generalLine_shown, p.console.specialLine_shown] at hLines
  refine ⟨hLines, p.console.getLast?_report, p.console.ofText?_report, fun q hSame => ?_⟩
  have hRead := q.console.ofText?_report
  rw [show q.console.report = p.console.report from hSame, p.console.ofText?_report] at hRead
  exact (Option.some.inj hRead).symm

/-- After a call and with the buzzer set, and the same with a key down and some frames later. -/
theorem report_faithful_of_call :
    let c := (⟨.new {} (.cycling [1]), {}⟩ : Console Headless).afterAll
      [.execute 0xAABC, .execute 0x6AFF, .execute 0xFA18, .execute 0x2300]
    let pressed : Headless := { c.devices with keys := Keypad.released.set 5 true }
    let p : Player := { console := c }
    let q : Player := { console := { c with devices := pressed }, frame := 7 }
    q.report = p.report ∧ q.console.shown = p.console.shown ∧
    (Report.ofText? p.report).map (fun r => (r.index, r.pc, r.sound, r.depth)) =
      some (0xABC, 0x300, 0xFF, 1) := by
  intro c pressed p q
  obtain ⟨-, -, hRead, hAgree⟩ := report_faithful p
  refine ⟨rfl, hAgree q rfl, ?_⟩
  rw [hRead]
  rfl

end Chip8
