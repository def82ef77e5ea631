import Chip8.Proofs.Board.Agreement
import Chip8.Proofs.Execution
import Chip8.Proofs.Run

/-!
# No crash is reachable

The bare interpreter is carried through a word, a step, the loops and every
sequence of operations: on the layout of a console it never crashes, answers
what the console answers and ends in the layout of where the console ends
(`Wired.applyAll_agrees`). Since switching on is not a crash either and every
machine has a layout, no check of the interpreter fails in any state that is
reached, whatever was done before and on whatever devices.
-/

namespace Chip8

open Checked

namespace Wired

variable {δ ε : Type}

/-- A console laid out in arrays, with devices that show its own. -/
def ofConsole (shown : δ → ε) (c : Console δ) : Wired ε :=
  { board := .ofMachine c.machine, devices := shown c.devices }

/-- The bare operation does not crash, and comes to the layout of an outcome. -/
def Agrees {α : Type} (shown : δ → ε) (r : Checked (Reached ε α)) (o : Outcome (Console δ) α) :
    Prop :=
  r = .ok (o.result, ofConsole shown o.state)

private theorem ofConsole_board (shown : δ → ε) (c : Console δ) :
    (ofConsole shown c).board = .ofMachine c.machine := rfl

private theorem ofConsole_devices (shown : δ → ε) (c : Console δ) :
    (ofConsole shown c).devices = shown c.devices := rfl

private theorem update_agrees {shown : δ → ε} {f : Board → Checked Board} {c : Console δ}
    {m : Machine} (h : f (.ofMachine c.machine) = .ok (.ofMachine m)) (flow : Flow) :
    Agrees shown ((ofConsole shown c).update flow f)
      (Console.done flow (c.withMachine m)) := by
  rw [Agrees, update, ofConsole_board, h]
  rfl

private theorem fail_agrees (shown : δ → ε) (w : Word) {address : UInt16} {c : Console δ}
    (hPast : c.machine.cpu.pc = address + 2) :
    Agrees shown ((ofConsole shown c).unknown w)
      (Console.fail (.unknownOpcode w address) c) := by
  have hAddress : (ofConsole shown c).board.pc - 2 = address := by
    show c.machine.cpu.pc - 2 = address
    rw [hPast, UInt16.add_sub_cancel]
  rw [Agrees, unknown, hAddress]
  rfl

private theorem unknown_agrees [Devices δ] {w : Word} (hWord : Instr.ofWord? w = none)
    (hFamily : w.family.val ≠ 0xE) (shown : δ → ε) (c : Console δ) :
    Agrees shown ((ofConsole shown (c.mapCpu Cpu.advance)).unknown w) (c.execute w) := by
  rw [Console.execute_of_none hWord, Console.refuse, if_neg hFamily]
  exact fail_agrees shown w rfl

private theorem call_agrees (shown : δ → ε) (target : UInt16) (c : Console δ) :
    Agrees shown ((ofConsole shown c).call target) (c.transfer (Cpu.call target)) := by
  have hPush := Board.push_ofMachine c.machine.cpu.pc c.machine
  cases hStack : c.machine.cpu.stack.push c.machine.cpu.pc with
  | ok stack =>
      have hCall : Cpu.call target c.machine.cpu =
          .ok { c.machine.cpu with pc := target, stack } := by
        rw [Cpu.call, hStack]
      rw [hStack] at hPush
      rw [Console.transfer, hCall]
      show (Board.push c.machine.cpu.pc (.ofMachine c.machine) >>= _) = _
      rw [hPush]
      rfl
  | error fault =>
      have hCall : Cpu.call target c.machine.cpu = .error fault := by rw [Cpu.call, hStack]
      rw [hStack] at hPush
      rw [Console.transfer, hCall]
      show (Board.push c.machine.cpu.pc (.ofMachine c.machine) >>= _) = _
      rw [hPush]
      rfl

private theorem ret_agrees (shown : δ → ε) (c : Console δ) :
    Agrees shown (ofConsole shown c).ret (c.transfer Cpu.ret) := by
  have hPop := Board.pop_ofMachine c.machine
  cases hStack : c.machine.cpu.stack.pop with
  | ok popped =>
      obtain ⟨address, stack⟩ := popped
      have hRet : Cpu.ret c.machine.cpu = .ok { c.machine.cpu with pc := address, stack } := by
        rw [Cpu.ret, hStack]
      rw [hStack] at hPop
      rw [Console.transfer, hRet]
      show (Board.pop (.ofMachine c.machine) >>= _) = _
      rw [hPop]
      rfl
  | error fault =>
      have hRet : Cpu.ret c.machine.cpu = .error fault := by rw [Cpu.ret, hStack]
      rw [hStack] at hPop
      rw [Console.transfer, hRet]
      show (Board.pop (.ofMachine c.machine) >>= _) = _
      rw [hPop]
      rfl

private theorem system_agrees [Devices δ] [CheckedDevices ε] {shown : δ → ε} (hShown : Shows shown)
    {w : Word} (hFamily : w.family.val = 0x0) (c : Console δ) :
    Agrees shown ((ofConsole shown (c.mapCpu Cpu.advance)).system w) (c.execute w) := by
  by_cases hClear : w = 0x00E0
  · have hInstr : Instr.ofWord? w = some .clear := by
      rw [hClear]
      rfl
    rw [Agrees, Console.execute_of_instr hInstr, system, if_pos hClear, ofConsole_devices,
      hShown.clear]
    rfl
  · rw [system, if_neg hClear]
    by_cases hRet : w = 0x00EE
    · have hInstr : Instr.ofWord? w = some .ret := by
        rw [hRet]
        rfl
      rw [Console.execute_of_instr hInstr, if_pos hRet]
      exact ret_agrees shown (c.mapCpu Cpu.advance)
    · have hNone : Instr.ofWord? w = none := by simp [Instr.ofWord?, hFamily, hClear, hRet]
      rw [if_neg hRet]
      exact unknown_agrees hNone (by omega) shown c

private theorem Carries.agrees {f : Board → Checked Board} {g : Cpu → Cpu} (h : Board.Carries f g)
    (shown : δ → ε) (flow : Flow) (c : Console δ) :
    Agrees shown ((ofConsole shown c).update flow f) (c.update flow g) :=
  update_agrees (h c.machine) flow

/-- Records are left out of the comparison, so a block store counts as an update. -/
theorem storeBlock_agrees {f : Board → Checked Board} {values : Cpu → List UInt8}
    (h : Board.Carries f fun cpu => cpu.storeIndexed (values cpu)) (shown : δ → ε)
    (c : Console δ) :
    Agrees shown ((ofConsole shown c).update .proceed f)
      (c.storeBlock (values c.machine.cpu)) := by
  rw [Agrees, update, ofConsole_board, h]
  rfl

private theorem math_agrees [Devices δ] (shown : δ → ε) {w : Word} (hFamily : w.family.val = 0x8)
    (c : Console δ) :
    Agrees shown ((ofConsole shown (c.mapCpu Cpu.advance)).math w) (c.execute w) := by
  have hWord : Instr.ofWord? w = Instr.ofSelector? w.x w.y w.n := by simp [Instr.ofWord?, hFamily]
  have hX := Board.getReg_ofMachine w.x (c.mapCpu Cpu.advance).machine
  have hY := Board.getReg_ofMachine w.y (c.mapCpu Cpu.advance).machine
  rw [math, ofConsole_board, Field.x_eq, Field.y_eq, Field.n_eq, hX, ok_bind, hY, ok_bind]
  cases hSelector : Instr.ofSelector? w.x w.y w.n with
  | none =>
      rw [Board.combined?_none hSelector]
      exact unknown_agrees (hWord.trans hSelector) (by omega) shown c
  | some instr =>
      obtain ⟨flag, result, hCombined, hPerform⟩ :=
        Board.combined?_some hSelector (c.mapCpu Cpu.advance)
      rw [hCombined, Console.execute_of_instr (hWord.trans hSelector), hPerform]
      exact update_agrees (Board.carries_setFlagged w.x flag result _) .proceed

private theorem misc_agrees [Devices δ] (shown : δ → ε) {w : Word} (hFamily : w.family.val = 0xF)
    (c : Console δ) :
    Agrees shown ((ofConsole shown (c.mapCpu Cpu.advance)).misc w) (c.execute w) := by
  have hWord : Instr.ofWord? w = Instr.ofTransfer? w.x w.kk := by simp [Instr.ofWord?, hFamily]
  unfold Instr.ofTransfer? at hWord
  rw [misc, Field.x_eq, Field.kk_eq]
  split <;> rename_i hLow <;> simp only [hLow] at hWord
  case h_1 =>
    rw [Console.execute_of_instr hWord]
    exact Carries.agrees (fun m => Board.setReg_ofMachine w.x m.cpu.delay m) shown .proceed _
  case h_2 =>
    rw [Console.execute_of_instr hWord]
    exact Carries.agrees (g := fun cpu => { cpu with wait := some w.x }) (fun m => rfl)
      shown .keyWait _
  case h_3 =>
    rw [Console.execute_of_instr hWord]
    exact Carries.agrees (g := fun cpu => { cpu with delay := cpu.reg w.x })
      (fun m => by rw [Board.getReg_ofMachine]; rfl) shown .proceed _
  case h_4 =>
    rw [Console.execute_of_instr hWord]
    exact Carries.agrees (g := fun cpu => { cpu with sound := cpu.reg w.x })
      (fun m => by rw [Board.getReg_ofMachine]; rfl) shown .sound _
  case h_5 =>
    rw [Console.execute_of_instr hWord]
    exact Carries.agrees
      (g := fun cpu => { cpu with index := cpu.index + (cpu.reg w.x).toUInt16 })
      (fun m => by rw [Board.getReg_ofMachine]; rfl) shown .proceed _
  case h_6 =>
    rw [Console.execute_of_instr hWord]
    exact Carries.agrees (Board.carries_pointGlyph w.x) shown .proceed _
  case h_7 =>
    rw [Console.execute_of_instr hWord]
    exact storeBlock_agrees (Board.carries_storeDecimal w.x) shown _
  case h_8 =>
    rw [Console.execute_of_instr hWord]
    exact storeBlock_agrees (Board.carries_storeRegisters w.x) shown _
  case h_9 =>
    rw [Console.execute_of_instr hWord]
    exact Carries.agrees (Board.carries_loadRegisters w.x) shown .proceed _
  case h_10 => exact unknown_agrees hWord (by omega) shown c

/-! ## Sprites -/

private theorem and_columnBit (row : UInt8) {column : Nat} (hColumn : column < 8) :
    row &&& 0x80 >>> UInt8.ofNat column ≠ 0 ↔ row.toNat.testBit (7 - column) = true := by
  have hBits : ∀ k : Fin 8, (0x80 >>> UInt8.ofNat k.val : UInt8).toNat = 2 ^ (7 - k.val) := by
    decide
  have hBit : (0x80 >>> UInt8.ofNat column : UInt8).toNat = 2 ^ (7 - column) :=
    hBits ⟨column, hColumn⟩
  have hZero : (0 : UInt8).toNat = 0 := rfl
  rw [ne_eq, ← UInt8.toNat_inj, UInt8.toNat_and, hBit, hZero, Nat.and_two_pow]
  cases row.toNat.testBit (7 - column) <;> simp

private theorem drawRow_agrees [Devices δ] [CheckedDevices ε] {shown : δ → ε} (hShown : Shows shown)
    {x y r : Nat} (hx : x < 256) (hy : y < 256) (hr : r < 16) (row : UInt8) (erased : Bool)
    (d : δ) :
    let flipped := Devices.toggleAll ((Sprite.rowColumns row).map fun c => (x + c, y + r)) d
    drawRow x y r row (erased, shown d) = .ok (erased || flipped.1, shown flipped.2) := by
  let pixels (column : Nat) : List (Nat × Nat) :=
    ((List.range column).filter fun c => row.toNat.testBit (7 - c)).map fun c => (x + c, y + r)
  let state (column : Nat) : Bool × ε :=
    (erased || (Devices.toggleAll (pixels column) d).1,
      shown (Devices.toggleAll (pixels column) d).2)
  have hStart : (erased, shown d) = state 0 := by simp [state, pixels, Devices.toggleAll]
  refine (congrArg (drawRow x y r row) hStart).trans (forCount_ok state ?_)
  intro column hColumn
  have hX : addSize x column = .ok (x + column) := addSize_small (by omega) (by omega)
  have hY : addSize y r = .ok (y + r) := addSize_small (by omega) (by omega)
  cases hBit : row.toNat.testBit (7 - column) with
  | true =>
      have hSet := (and_columnBit row hColumn).2 hBit
      have hPixels : pixels (column + 1) = pixels column ++ [(x + column, y + r)] := by
        simp [pixels, List.range_succ, hBit]
      simp only [shiftRight8_ok _ hColumn, ok_bind, state, if_pos hSet, hX, hY, hShown.toggle,
        hPixels, Devices.toggleAll_append, Devices.toggleAll, Bool.or_false, Bool.or_assoc,
        pure_eq_ok]
  | false =>
      have hUnset : ¬ (row &&& 0x80 >>> UInt8.ofNat column ≠ 0) := by
        rw [and_columnBit row hColumn, hBit]
        exact Bool.false_ne_true
      have hPixels : pixels (column + 1) = pixels column := by
        simp [pixels, List.range_succ, hBit]
      simp only [shiftRight8_ok _ hColumn, ok_bind, state, if_neg hUnset, hPixels, pure_eq_ok]

private theorem draw_agrees [Devices δ] [CheckedDevices ε] {shown : δ → ε} (hShown : Shows shown)
    (w : Word) (c : Console δ) :
    Agrees shown ((ofConsole shown c).draw w) (c.drawSprite w.x w.y w.n) := by
  have hX := Board.getReg_ofMachine w.x c.machine
  have hY := Board.getReg_ofMachine w.y c.machine
  have hn := w.n.isLt
  let pixels (r : Nat) : List (Nat × Nat) :=
    Sprite.pixelsAt (c.machine.cpu.reg w.x).toNat (c.machine.cpu.reg w.y).toNat
      (c.machine.cpu.indexed r)
  let state (r : Nat) : Bool × ε :=
    ((Devices.toggleAll (pixels r) c.devices).1, shown (Devices.toggleAll (pixels r) c.devices).2)
  have hRows : forCount (fun r drawn => do
      let row ← (Board.ofMachine c.machine).loadByte
        (← addSize (Board.ofMachine c.machine).index.toNat r)
      drawRow (c.machine.cpu.reg w.x).toNat (c.machine.cpu.reg w.y).toNat r row drawn) w.n.val
      (false, shown c.devices) = .ok (state w.n.val) := by
    refine forCount_ok state ?_
    intro r hr
    have hAddress : addSize (Board.ofMachine c.machine).index.toNat r =
        .ok (c.machine.cpu.index.toNat + r) :=
      addSize_small c.machine.cpu.index.toNat_lt (by omega)
    have hPixels : pixels (r + 1) = pixels r ++
        (Sprite.rowColumns (c.machine.cpu.memory.read (c.machine.cpu.index.toNat + r))).map
          fun column => ((c.machine.cpu.reg w.x).toNat + column,
            (c.machine.cpu.reg w.y).toNat + r) := by
      have hLength : (c.machine.cpu.indexed r).length = r := by simp [Cpu.indexed, Memory.slice]
      have hNext : c.machine.cpu.indexed (r + 1) = c.machine.cpu.indexed r ++
          [c.machine.cpu.memory.read (c.machine.cpu.index.toNat + r)] :=
        Memory.slice_succ _ _ _
      simp only [pixels, hNext, Sprite.pixelsAt_append, hLength, Sprite.pixelsAt, List.append_nil]
    have hRow := drawRow_agrees hShown (c.machine.cpu.reg w.x).toNat_lt
      (c.machine.cpu.reg w.y).toNat_lt (show r < 16 by omega)
      (c.machine.cpu.memory.read (c.machine.cpu.index.toNat + r))
      (Devices.toggleAll (pixels r) c.devices).1 (Devices.toggleAll (pixels r) c.devices).2
    simp only [hAddress, ok_bind, Board.loadByte_ofMachine, state, hRow, hPixels,
      Devices.toggleAll_append]
  have hFlag := Board.setReg_ofMachine Reg.flag (flagValue (state w.n.val).1) c.machine
  have hFifteen : Reg.flag.val = 15 := rfl
  rw [hFifteen] at hFlag
  rw [Agrees, draw, ofConsole_board, ofConsole_devices, Field.x_eq, Field.y_eq, Field.n_eq, hX,
    ok_bind, hY, ok_bind, hRows, ok_bind]
  show (Board.setReg 15 (flagValue (state w.n.val).1) (.ofMachine c.machine) >>= _) = _
  rw [hFlag]
  rfl

/-! ## Keys -/

private theorem poll_agrees [Devices δ] [CheckedDevices ε] {shown : δ → ε} (hShown : Shows shown)
    (x : Reg) (c : Console δ) :
    poll (c.machine.cpu.reg x) (shown c.devices) =
      .ok ((c.poll x).1, shown (c.poll x).2.devices) := by
  by_cases hKey : (c.machine.cpu.reg x).toNat < 16
  · rw [poll, Key.ofNat?, dif_pos hKey, Console.poll, dif_pos hKey]
    exact hShown.pressed _ c.devices
  · rw [poll, Key.ofNat?, dif_neg hKey, Console.poll, dif_neg hKey]
    rfl

private theorem keys_agrees [Devices δ] [CheckedDevices ε] {shown : δ → ε} (hShown : Shows shown)
    {w : Word} (hFamily : w.family.val = 0xE) (c : Console δ) :
    Agrees shown ((ofConsole shown (c.mapCpu Cpu.advance)).keys w) (c.execute w) := by
  have hWord : Instr.ofWord? w = Instr.ofKeyTest? w.x w.kk := by simp [Instr.ofWord?, hFamily]
  unfold Instr.ofKeyTest? at hWord
  have hX := Board.getReg_ofMachine w.x (c.mapCpu Cpu.advance).machine
  have hPoll := poll_agrees hShown w.x (c.mapCpu Cpu.advance)
  have hAsked : (⟨.ofMachine (c.mapCpu Cpu.advance).machine,
      shown ((c.mapCpu Cpu.advance).poll w.x).2.devices⟩ : Wired ε) =
      ofConsole shown ((c.mapCpu Cpu.advance).poll w.x).2 := by
    rw [ofConsole, Console.poll_machine]
  rw [keys, ofConsole_board, ofConsole_devices, Field.x_eq, Field.kk_eq, hX, ok_bind, hPoll,
    ok_bind]
  dsimp only
  rw [hAsked]
  split <;> rename_i hLow <;> simp only [hLow] at hWord
  case h_1 =>
    simp only [Console.execute_of_instr hWord, Instr.perform, Console.skipOnKey, beq_true]
    exact Carries.agrees (Board.carries_skipIf _) shown .proceed _
  case h_2 =>
    simp only [Console.execute_of_instr hWord, Instr.perform, Console.skipOnKey, beq_false]
    exact Carries.agrees (Board.carries_skipIf _) shown .proceed _
  case h_3 =>
    rw [Console.execute_of_none hWord, Console.refuse, if_pos hFamily]
    apply fail_agrees
    rw [Console.poll_machine]
    rfl

/-! ## Words -/

private theorem random_agrees (shown : δ → ε) (x : Reg) (mask : UInt8) (c : Console δ) :
    Agrees shown
      ((ofConsole shown c).update .proceed fun b =>
        Board.setReg x.val (mask &&& b.random.next.1) { b with random := b.random.next.2 })
      (Console.done .proceed (c.drawRandom x mask)) :=
  update_agrees (Board.setReg_ofMachine x (mask &&& c.machine.random.next.1)
    { c.machine with random := c.machine.random.next.2 }) .proceed

theorem execute_agrees [Devices δ] [CheckedDevices ε] {shown : δ → ε} (hShown : Shows shown)
    (w : Word) (c : Console δ) :
    Agrees shown ((ofConsole shown c).execute w) (c.execute w) := by
  have hPast : (⟨(ofConsole shown c).board.skip, (ofConsole shown c).devices⟩ : Wired ε) =
      ofConsole shown (c.mapCpu Cpu.advance) := rfl
  rw [execute, Field.family_eq, Field.x_eq, Field.y_eq, Field.n_eq, Field.kk_eq, Field.nnn_eq]
  dsimp only
  rw [hPast]
  split <;> rename_i hFamily
  case h_1 => exact system_agrees hShown hFamily c
  case h_2 =>
    have hWord : Instr.ofWord? w = some (.jump w.nnn) := by simp [Instr.ofWord?, hFamily]
    rw [Console.execute_of_instr hWord]
    exact Carries.agrees (g := Cpu.jump w.nnn) (fun m => rfl) shown .jump _
  case h_3 =>
    have hWord : Instr.ofWord? w = some (.call w.nnn) := by simp [Instr.ofWord?, hFamily]
    rw [Console.execute_of_instr hWord]
    exact call_agrees shown w.nnn _
  case h_4 =>
    have hWord : Instr.ofWord? w = some (.skipEqual w.x w.kk) := by simp [Instr.ofWord?, hFamily]
    rw [Console.execute_of_instr hWord]
    exact Carries.agrees (Board.carries_skipOn w.x (· == w.kk)) shown .proceed _
  case h_5 =>
    have hWord : Instr.ofWord? w = some (.skipNotEqual w.x w.kk) := by
      simp [Instr.ofWord?, hFamily]
    rw [Console.execute_of_instr hWord]
    exact Carries.agrees (Board.carries_skipOn w.x (· != w.kk)) shown .proceed _
  case h_6 =>
    by_cases hLast : w.n.val = 0
    · have hWord : Instr.ofWord? w = some (.skipSame w.x w.y) := by
        simp [Instr.ofWord?, hFamily, hLast]
      rw [if_neg (not_not.2 hLast), Console.execute_of_instr hWord]
      exact Carries.agrees (Board.carries_skipOnBoth w.x w.y (· == ·)) shown .proceed _
    · have hWord : Instr.ofWord? w = none := by simp [Instr.ofWord?, hFamily, hLast]
      rw [if_pos hLast]
      exact unknown_agrees hWord (by omega) shown c
  case h_7 =>
    have hWord : Instr.ofWord? w = some (.set w.x w.kk) := by simp [Instr.ofWord?, hFamily]
    rw [Console.execute_of_instr hWord]
    exact Carries.agrees (g := Cpu.setReg w.x w.kk) (Board.setReg_ofMachine w.x w.kk)
      shown .proceed _
  case h_8 =>
    have hWord : Instr.ofWord? w = some (.increase w.x w.kk) := by simp [Instr.ofWord?, hFamily]
    rw [Console.execute_of_instr hWord]
    exact Carries.agrees (Board.carries_increase w.x w.kk) shown .proceed _
  case h_9 => exact math_agrees shown hFamily c
  case h_10 =>
    by_cases hLast : w.n.val = 0
    · have hWord : Instr.ofWord? w = some (.skipDifferent w.x w.y) := by
        simp [Instr.ofWord?, hFamily, hLast]
      rw [if_neg (not_not.2 hLast), Console.execute_of_instr hWord]
      exact Carries.agrees (Board.carries_skipOnBoth w.x w.y (· != ·)) shown .proceed _
    · have hWord : Instr.ofWord? w = none := by simp [Instr.ofWord?, hFamily, hLast]
      rw [if_pos hLast]
      exact unknown_agrees hWord (by omega) shown c
  case h_11 =>
    have hWord : Instr.ofWord? w = some (.setIndex w.nnn) := by simp [Instr.ofWord?, hFamily]
    rw [Console.execute_of_instr hWord]
    exact Carries.agrees (g := fun cpu => { cpu with index := w.nnn }) (fun m => rfl)
      shown .proceed _
  case h_12 =>
    have hWord : Instr.ofWord? w = some (.jumpOffset w.nnn) := by simp [Instr.ofWord?, hFamily]
    have hBase : w.nnn.toNat < 4096 := by
      rw [Word.toNat_nnn]
      omega
    rw [Console.execute_of_instr hWord]
    exact Carries.agrees (Board.carries_jumpOffset hBase) shown .jump _
  case h_13 =>
    have hWord : Instr.ofWord? w = some (.random w.x w.kk) := by simp [Instr.ofWord?, hFamily]
    rw [Console.execute_of_instr hWord]
    exact random_agrees shown w.x w.kk _
  case h_14 =>
    have hWord : Instr.ofWord? w = some (.draw w.x w.y w.n) := by simp [Instr.ofWord?, hFamily]
    rw [Console.execute_of_instr hWord]
    exact draw_agrees hShown w _
  case h_15 => exact keys_agrees hShown hFamily c
  case h_16 => exact misc_agrees shown hFamily c
  case h_17 =>
    exfalso
    have hLt : w.family.val < 16 := w.family.isLt
    simp only [imp_false] at *
    omega

/-! ## Steps and loops -/

private theorem fetchExecute_agrees [Devices δ] [CheckedDevices ε] {shown : δ → ε}
    (hShown : Shows shown) (c : Console δ) :
    Agrees shown (ofConsole shown c).fetchExecute c.fetchExecute := by
  have hFetch : (ofConsole shown c).board.fetch = .ok c.nextWord :=
    Board.fetch_ofMachine c.machine
  have hExecute : (ofConsole shown c).execute c.nextWord =
      .ok ((c.execute c.nextWord).result, ofConsole shown (c.execute c.nextWord).state) :=
    execute_agrees hShown c.nextWord c
  rw [Agrees, fetchExecute, hFetch, ok_bind, hExecute, ok_bind]
  cases hResult : (c.execute c.nextWord).result with
  | ok flow =>
      rw [Console.fetchExecute_of_ok hResult]
      simp only [Outcome.after, hResult, pure_eq_ok]
  | error fault =>
      rw [Console.fetchExecute_of_error hResult]
      rfl

private theorem step_agrees [Devices δ] [CheckedDevices ε] {shown : δ → ε} (hShown : Shows shown)
    (c : Console δ) : Agrees shown (ofConsole shown c).step c.step := by
  have hTrap : (ofConsole shown c).board.trap = c.machine.trap := rfl
  have hProgram : (ofConsole shown c).board.hasProgram = c.machine.hasProgram := rfl
  have hWait : (ofConsole shown c).board.wait.isSome = c.machine.isWaiting := Option.isSome_map
  rcases c.step_cases with ⟨fault, hFault, hStep⟩ | ⟨hNone, hLoaded, hStep⟩ |
    ⟨hNone, hLoaded, hWaiting, hStep⟩ | ⟨hNone, hLoaded, hWaiting, hStep⟩
  · simp only [step, hTrap, hFault, hStep]
    rfl
  · simp only [step, hTrap, hNone, hProgram, hLoaded, hStep]
    rfl
  · simp only [step, hTrap, hNone, hProgram, hLoaded, hWait, hWaiting, hStep]
    rfl
  · simp only [step, hTrap, hNone, hProgram, hLoaded, hWait, hWaiting, hStep]
    exact fetchExecute_agrees hShown c

private theorem steps_agrees [Devices δ] [CheckedDevices ε] {shown : δ → ε} (hShown : Shows shown)
    (stop : Flow → Bool) (count : Nat) {o : Outcome (Console δ) Flow} {last : Flow}
    (hLast : o.result = .ok last) (hOn : stop last = false) :
    Agrees shown (steps stop count last (ofConsole shown o.state))
      (Outcome.repeatUntil stop Console.step count o) := by
  have hGoesOn : o.goesOn stop = true := by simp [Outcome.goesOn, hLast, hOn]
  induction count generalizing o last with
  | zero =>
      rw [Agrees, steps, Outcome.repeatUntil, hLast]
      rfl
  | succ n ih =>
      have hStep : (ofConsole shown o.state).step =
          .ok (o.state.step.result, ofConsole shown o.state.step.state) :=
        step_agrees hShown o.state
      let next := o.state.step.after o.records
      rw [Agrees, steps, hStep, ok_bind, Outcome.repeatUntil_of_goesOn hGoesOn]
      cases hResult : o.state.step.result with
      | error fault =>
          have hNext : next.result = .error fault := hResult
          have hOff : next.goesOn stop = false := by simp [Outcome.goesOn, hNext]
          rw [Outcome.repeatUntil_of_stopped hOff, hNext]
          rfl
      | ok flow =>
          have hNext : next.result = .ok flow := hResult
          cases hStop : stop flow with
          | true =>
              have hOff : next.goesOn stop = false := by simp [Outcome.goesOn, hNext, hStop]
              rw [Outcome.repeatUntil_of_stopped hOff, hNext]
              simp only [hStop, if_true]
              rfl
          | false =>
              have hAgain : next.goesOn stop = true := by simp [Outcome.goesOn, hNext, hStop]
              simp only [hStop, Bool.false_eq_true, if_false]
              exact ih hNext hStop hAgain

private theorem setTone_agrees [Devices δ] [CheckedDevices ε] {shown : δ → ε} (hShown : Shows shown)
    (c : Console δ) : (ofConsole shown c).setTone = ofConsole shown c.updateTone := by
  by_cases hSound : 0 < c.machine.cpu.sound
  · have hBoard : 0 < (ofConsole shown c).board.sound := hSound
    rw [setTone, if_pos hBoard, Console.updateTone, if_pos hSound]
    exact congrArg (Wired.mk (.ofMachine c.machine))
      (hShown.toneOn c.machine.conf.tone c.devices)
  · have hBoard : ¬ 0 < (ofConsole shown c).board.sound := hSound
    rw [setTone, if_neg hBoard, Console.updateTone, if_neg hSound]
    exact congrArg (Wired.mk (.ofMachine c.machine)) (hShown.toneOff c.devices)

private theorem finishBatch_agrees [Devices δ] [CheckedDevices ε] {shown : δ → ε}
    (hShown : Shows shown) (c : Console δ) :
    (ofConsole shown c).finishBatch = ofConsole shown c.finishBatch := by
  have hWait : (ofConsole shown c).board.wait.isSome = c.machine.isWaiting := Option.isSome_map
  rw [finishBatch, Console.finishBatch, hWait]
  cases c.machine.isWaiting with
  | true => exact setTone_agrees hShown c
  | false => exact setTone_agrees hShown (c.mapCpu Cpu.tick)

private theorem cycle_agrees [Devices δ] [CheckedDevices ε] {shown : δ → ε} (hShown : Shows shown)
    (c : Console δ) : Agrees shown (ofConsole shown c).cycle c.cycle := by
  let batch := Outcome.repeatUntil (fun _ => false) Console.step c.machine.conf.speed
    (Console.done .proceed c)
  have hSteps : steps (fun _ => false) c.machine.conf.speed .proceed (ofConsole shown c) =
      .ok (batch.result, ofConsole shown batch.state) :=
    steps_agrees hShown (fun _ => false) c.machine.conf.speed (o := Console.done .proceed c)
      rfl rfl
  have hSpeed : (ofConsole shown c).board.conf.speed = c.machine.conf.speed := rfl
  rw [Agrees, cycle, hSpeed, hSteps, ok_bind]
  cases hResult : batch.result with
  | ok flow =>
      have hCycle : c.cycle =
          { result := .ok (), state := batch.state.finishBatch, records := batch.records } := by
        simp only [Console.cycle, batch] at hResult ⊢
        rw [hResult]
      rw [hCycle, ← finishBatch_agrees hShown]
      rfl
  | error fault =>
      have hCycle : c.cycle =
          { result := .error fault, state := batch.state, records := batch.records } := by
        simp only [Console.cycle, batch] at hResult ⊢
        rw [hResult]
      rw [hCycle]
      rfl

/-! ## Operations -/

theorem Agrees.map {α β : Type} {shown : δ → ε} {r : Checked (Reached ε α)}
    {o : Outcome (Console δ) α} (h : Agrees shown r o) (f : α → β) :
    Agrees shown (do
      let (result, s) ← r
      return (result.map f, s)) (o.map f) := by
  rw [Agrees] at h
  rw [h]
  rfl

private theorem apply_agrees [Devices δ] [CheckedDevices ε] {shown : δ → ε} (hShown : Shows shown)
    (op : Operation) (c : Console δ) :
    Agrees shown ((ofConsole shown c).apply op) (c.apply op) := by
  cases op with
  | load program =>
      have hLoad := Board.load_ofMachine program c.machine
      rw [Agrees, apply, ofConsole_board, hLoad]
      rfl
  | execute word => exact (execute_agrees hShown word c).map Answer.flow
  | step => exact (step_agrees hShown c).map Answer.flow
  | runSteps count =>
      have hSteps := steps_agrees hShown (· == .keyWait) count (o := Console.done .proceed c)
        rfl rfl
      exact hSteps.map Answer.flow
  | cycle => exact (cycle_agrees hShown c).map fun _ => Answer.done
  | keyDown key =>
      obtain ⟨resolved, hResult, hDown⟩ := Board.keyDown_ofMachine key c.machine
      rw [Agrees, apply, ofConsole_board, hDown]
      show Except.ok (Except.ok (Answer.resolved resolved), _) = .ok
        ((c.machine.keyDown key).result.map .resolved, _)
      rw [hResult]
      rfl

/-- **The bare interpreter agrees with the machine along runs**, and so never crashes. -/
theorem applyAll_agrees [Devices δ] [CheckedDevices ε] {shown : δ → ε} (hShown : Shows shown)
    (ops : List Operation) (c : Console δ) :
    (ofConsole shown c).applyAll ops =
      .ok ((c.applyAll ops).map (·.result), ofConsole shown (c.afterAll ops)) := by
  induction ops generalizing c with
  | nil => rfl
  | cons op ops ih =>
      have hApply : (ofConsole shown c).apply op =
          .ok ((c.apply op).result, ofConsole shown (c.apply op).state) :=
        apply_agrees hShown op c
      rw [applyAll, hApply, ok_bind]
      show (applyAll ops (ofConsole shown (c.apply op).state) >>= _) = _
      rw [ih]
      rfl

end Wired

/-! ## The invariant -/

/-- What the checks of the interpreter rest on: arrays of the right sizes, at most sixteen
return addresses, and a key awaited, if any, for a register that there is. -/
structure Board.WellFormed (b : Board) : Prop where
  registers : b.registers.size = 16
  memory : b.memory.size = memorySize
  slots : b.slots.size = stackSize
  depth : b.depth ≤ stackSize
  wait : ∀ r, b.wait = some r → r < 16

theorem Board.wellFormed_ofMachine (m : Machine) : (Board.ofMachine m).WellFormed where
  registers := m.cpu.registers.size_toArray
  memory := m.cpu.memory.cells.size_toArray
  slots := m.cpu.stack.slots.size_toArray
  depth := m.cpu.stack.depth_le
  wait r hWait := by
    obtain ⟨x, -, hx⟩ := Option.map_eq_some_iff.1 hWait
    have hLt := x.isLt
    omega

/-- Without the bound on the register awaited, a key going down crashes. -/
theorem Board.keyDown_crash {b : Board} {r : Nat} (hWait : b.wait = some r)
    (hOutside : b.registers.size ≤ r) (key : Key) : b.keyDown key = .error .index := by
  have hWrite : write b.registers r (UInt8.ofNat key.val) = .error .index :=
    dif_neg (Nat.not_lt.2 hOutside)
  rw [keyDown, hWait]
  simp only [setReg, hWrite]
  rfl

/-- Without the bound on the depth, a return crashes. -/
theorem Board.pop_crash {b : Board} (hDepth : b.slots.size < b.depth) : b.pop = .error .index := by
  have hSome : ¬ b.depth = 0 := by omega
  have hNext : subSize b.depth 1 = .ok (b.depth - 1) := subSize_ok (by omega)
  have hRead : read b.slots (b.depth - 1) = .error .index := dif_neg (by omega)
  rw [pop, if_neg hSome, hNext, ok_bind, hRead]
  rfl

private theorem Board.WellFormed.exists_machine {b : Board} (h : b.WellFormed) :
    ∃ m, b = Board.ofMachine m := by
  have hAwaited : ∃ awaited : Option Reg, b.wait = awaited.map Fin.val := by
    cases hWait : b.wait with
    | none => exact ⟨none, rfl⟩
    | some r => exact ⟨some ⟨r, h.wait r hWait⟩, rfl⟩
  obtain ⟨wait, hWait⟩ := hAwaited
  let cpu : Cpu :=
    { pc := b.pc, registers := ⟨b.registers, h.registers⟩, index := b.index, delay := b.delay,
      sound := b.sound, wait, memory := ⟨⟨b.memory, h.memory⟩⟩,
      stack := ⟨⟨b.slots, h.slots⟩, b.depth, h.depth⟩ }
  let m : Machine :=
    { cpu, random := b.random, conf := b.conf, hasProgram := b.hasProgram, trap := b.trap }
  refine ⟨m, ?_⟩
  rw [Board.ofMachine, ← hWait]

private theorem Panel.exists_headless {p : Panel} (hPixels : p.pixels.size = 2048) :
    ∃ h, p = Panel.ofHeadless h := by
  let keys : Keypad := ⟨Vector.ofFn fun key : Key => p.keys.toNat.testBit key.val⟩
  refine ⟨{ display := ⟨⟨p.pixels, hPixels⟩⟩, keys, tone := p.tone }, ?_⟩
  have hKeys : UInt16.ofNat keys.mask = p.keys := by
    apply Panel.keys_ext
    intro key
    have hBit := Panel.testBit_keys key { keys }
    rw [Panel.ofHeadless] at hBit
    rw [hBit]
    simp [Keypad.isPressed, keys]
  rw [Panel.ofHeadless, hKeys]

/-- **Well-formed boards never crash** and stay well formed, whatever is done to them. -/
theorem Board.WellFormed.safe {b : Board} (h : b.WellFormed) {p : Panel}
    (hPixels : p.pixels.size = 2048) (ops : List Operation) :
    ∃ answers s, Wired.applyAll ops ⟨b, p⟩ = .ok (answers, s) ∧ s.board.WellFormed ∧
      s.devices.pixels.size = 2048 := by
  obtain ⟨m, rfl⟩ := h.exists_machine
  obtain ⟨d, rfl⟩ := Panel.exists_headless hPixels
  have hRun := Wired.applyAll_agrees Panel.shows_headless ops ⟨m, d⟩
  exact ⟨_, _, hRun, Board.wellFormed_ofMachine _, Vector.size_toArray _⟩

/-- **No crash is reachable.** Switching on does not crash, nor does any sequence of operations on
any devices, and the board that is reached is well formed. From there no further sequence of
operations crashes on devices in memory, whatever these show; neither does the keypad when its
owner moves a key. Throughout, the answers and states are those of the machine. -/
theorem no_crash_reachable {δ : Type} [Devices δ] (conf : Conf) (random : RandomSource)
    (devices : δ) (before later : List Operation) (panel : Headless) :
    let start : Console δ := ⟨.new conf random, devices⟩
    let reached := start.afterAll before
    let next : Console Headless := ⟨reached.machine, panel⟩
    Board.powerOn conf random = .ok (.ofMachine start.machine) ∧
    Wired.applyAll before ⟨.ofMachine start.machine, devices⟩ =
      .ok ((start.applyAll before).map (·.result), ⟨.ofMachine reached.machine, reached.devices⟩) ∧
    (Board.ofMachine reached.machine).WellFormed ∧
    Wired.applyAll later ⟨.ofMachine reached.machine, Panel.ofHeadless panel⟩ =
      .ok ((next.applyAll later).map (·.result),
        Wired.ofConsole Panel.ofHeadless (next.afterAll later)) ∧
    ∀ key pressed, Panel.setKey key pressed (.ofHeadless panel) =
      .ok (.ofHeadless { panel with keys := panel.keys.set key pressed }) := by
  intro start reached next
  have hBefore := Wired.applyAll_agrees Devices.shows_self before start
  have hLater := Wired.applyAll_agrees Panel.shows_headless later next
  refine ⟨Board.powerOn_eq conf random, hBefore, Board.wellFormed_ofMachine reached.machine,
    hLater, ?_⟩
  intro key pressed
  exact Panel.setKey_ofHeadless key pressed panel

end Chip8
