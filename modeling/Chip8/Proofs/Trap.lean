import Chip8.Proofs.Execution
import Chip8.Proofs.Run

/-!
# Traps

A machine that is only driven, never made to execute a word of the host's
choice, halts for a reason that can still be read off it: the trap describes
the word before the program counter (`Machine.Trapped`). That this stays so
however long the machine is driven on is because a halted machine does nothing
but count its timers (`Console.Still`), until a program is loaded.

The last part counts records: an operation reports a halt once if the machine
halts in it, and not at all otherwise (`halts_apply`).
-/

namespace Chip8

/-- Whether an operation drives the machine, as all do but executing a given word. -/
def Operation.drives : Operation → Bool
  | .execute _ => false
  | _ => true

/-- Whether an operation drives the machine without loading a program into it. -/
def Operation.drivesOn : Operation → Bool
  | .execute _ => false
  | .load program => !isProgramSize program.length
  | _ => true

/-! ## The trap describes the word it halted on -/

/-- A machine that halted on a fault, and still shows it: the fault describes the word before the
program counter and the stack as it is. -/
structure Machine.Trapped (e : Fault) (m : Machine) : Prop where
  hasProgram : m.hasProgram = true
  wait : m.cpu.wait = none
  describes : e.Describes (m.cpu.memory.fetch (m.cpu.pc - 2).toNat) (m.cpu.pc - 2)
    m.cpu.stack.depth

private theorem Fault.Describes.ne_invalidProgram {w : Word} {address : UInt16} {depth : Nat}
    {e : Fault} (h : e.Describes w address depth) (size : Nat) : e ≠ .invalidProgram size := by
  rintro rfl
  cases h

variable {δ : Type} [Devices δ]

theorem Machine.load_trap {program : List UInt8} {m : Machine}
    (hSize : isProgramSize program.length = true) : (m.load program).state.trap = none := by
  rw [load_of_accepted hSize]

theorem Machine.load_rejected {program : List UInt8} {m : Machine}
    (hSize : ¬ isProgramSize program.length = true) : (m.load program).state = m := by
  rw [load_of_refused hSize]

theorem Machine.keyDown_idle {m : Machine} (hWait : m.cpu.wait = none) (key : Key) :
    (m.keyDown key).state = m := by
  simp only [keyDown, hWait]

theorem Machine.keyDown_trap (key : Key) (m : Machine) : (m.keyDown key).state.trap = m.trap := by
  unfold keyDown
  split <;> rfl

namespace Console

theorem finishBatch_machine (c : Console δ) :
    c.finishBatch.machine = c.machine ∨ c.finishBatch.machine = (c.mapCpu Cpu.tick).machine := by
  have hTone (d : Console δ) : d.updateTone.machine = d.machine := by
    unfold updateTone
    split <;> rfl
  unfold finishBatch
  rw [hTone]
  cases c.machine.isWaiting with
  | true => exact Or.inl rfl
  | false => exact Or.inr rfl

/-- The step that halts a machine leaves it trapped. -/
theorem fetchExecute_trapped {c : Console δ} (hProgram : c.machine.hasProgram = true)
    (hWait : c.machine.cpu.wait = none) (hTrap : c.machine.trap = none) {e : Fault}
    (h : c.fetchExecute.state.machine.trap = some e) : c.fetchExecute.state.machine.Trapped e := by
  cases hResult : (c.execute c.nextWord).result with
  | ok flow =>
      rw [fetchExecute_of_ok hResult] at h
      have hSame : (c.execute c.nextWord).state.machine.trap = none :=
        (c.execute_sameHost c.nextWord).trap.trans hTrap
      cases hSame.symm.trans h
  | error fault =>
      rw [fetchExecute_of_error hResult] at h ⊢
      obtain ⟨hMachine, hDescribes⟩ := execute_error hResult
      have hSame : fault = e := Option.some.inj h
      have hBack : c.machine.cpu.pc + 2 - 2 = c.machine.cpu.pc := UInt16.add_sub_cancel _ _
      subst hSame
      rw [halt, hMachine]
      refine ⟨hProgram, hWait, ?_⟩
      show fault.Describes (c.machine.cpu.memory.fetch (c.machine.cpu.pc + 2 - 2).toNat)
        (c.machine.cpu.pc + 2 - 2) c.machine.cpu.stack.depth
      rw [hBack]
      exact hDescribes

/-- Driving keeps every trap describing what the machine halted on. -/
theorem trapped_kept :
    Invariant (δ := δ) (fun op => op.drives = true)
      (fun c => ∀ e, c.machine.trap = some e → c.machine.Trapped e) where
  load c program _ h e hTrap := by
    by_cases hSize : isProgramSize program.length = true
    · have hNone : (c.machine.load program).state.trap = none := Machine.load_trap hSize
      cases hNone.symm.trans hTrap
    · rw [Machine.load_rejected hSize] at hTrap ⊢
      exact h e hTrap
  execute c word hDrives := by cases hDrives
  keyDown c key _ h e hTrap := by
    have hBefore : c.machine.trap = some e := (c.machine.keyDown_trap key).symm.trans hTrap
    have hIdle : (c.machine.keyDown key).state = c.machine :=
      Machine.keyDown_idle (h e hBefore).wait key
    rw [hIdle]
    exact h e hBefore
  step c h e hTrap := by
    rcases c.step_cases with ⟨_, _, hStep⟩ | ⟨_, _, hStep⟩ | ⟨_, _, _, hStep⟩ |
      ⟨hNone, hProgram, hWaiting, hStep⟩
    · rw [hStep] at hTrap ⊢
      exact h e hTrap
    · rw [hStep] at hTrap ⊢
      exact h e hTrap
    · rw [hStep] at hTrap ⊢
      exact h e hTrap
    · have hWait : c.machine.cpu.wait = none := by
        simpa [Machine.isWaiting] using hWaiting
      rw [hStep] at hTrap ⊢
      exact fetchExecute_trapped hProgram hWait hNone hTrap
  finishBatch c h e hTrap := by
    rcases c.finishBatch_machine with hSame | hTick
    · rw [hSame] at hTrap ⊢
      exact h e hTrap
    · rw [hTick] at hTrap ⊢
      have hTrapped : c.machine.Trapped e := h e hTrap
      exact ⟨hTrapped.hasProgram, hTrapped.wait, hTrapped.describes⟩

end Console

/-! ## A halted machine stays as it is -/

/-- A view of devices that does not show the buzzer. -/
structure Devices.ToneBlind {β : Type} (view : δ → β) : Prop where
  toneOn : ∀ frequency d, view (Devices.toneOn frequency d) = view d
  toneOff : ∀ d, view (Devices.toneOff d) = view d

theorem Headless.toneBlind_display : Devices.ToneBlind Headless.display :=
  ⟨fun _ _ => rfl, fun _ => rfl⟩

namespace Console

/-- Nothing came between two states but timers counting and the buzzer. -/
structure Still (start c : Console δ) : Prop where
  machine : ∃ delay sound,
    c.machine = { start.machine with cpu := { start.machine.cpu with delay, sound } }
  view : ∀ {β : Type} (view : δ → β), Devices.ToneBlind view →
    view c.devices = view start.devices

theorem Still.refl (c : Console δ) : c.Still c :=
  ⟨⟨c.machine.cpu.delay, c.machine.cpu.sound, rfl⟩, fun _ _ => rfl⟩

theorem Still.trap {start c : Console δ} (h : start.Still c) :
    c.machine.trap = start.machine.trap := by
  obtain ⟨delay, sound, hMachine⟩ := h.machine
  rw [hMachine]

theorem Still.wait {start c : Console δ} (h : start.Still c) :
    c.machine.cpu.wait = start.machine.cpu.wait := by
  obtain ⟨delay, sound, hMachine⟩ := h.machine
  rw [hMachine]

theorem Still.finishBatch {start c : Console δ} (h : start.Still c) :
    start.Still c.finishBatch := by
  obtain ⟨delay, sound, hMachine⟩ := h.machine
  constructor
  · rcases c.finishBatch_machine with hSame | hTick
    · exact ⟨delay, sound, hSame.trans hMachine⟩
    · refine ⟨Cpu.countDown delay, Cpu.countDown sound, hTick.trans ?_⟩
      rw [mapCpu, hMachine]
      rfl
  · intro β view hBlind
    rcases c.finishBatch_devices with hOn | hOff
    · rw [hOn, hBlind.toneOn, h.view view hBlind]
    · rw [hOff, hBlind.toneOff, h.view view hBlind]

theorem step_trapped {c : Console δ} {e : Fault} (hTrap : c.machine.trap = some e) :
    c.step = fail e c := by
  simp only [step, hTrap]

/-- Driving a halted machine on, without loading a program, leaves it still. -/
theorem still_kept {start : Console δ} {e : Fault} (hTrap : start.machine.trap = some e)
    (hWait : start.machine.cpu.wait = none) :
    Invariant (δ := δ) (fun op => op.drivesOn = true) start.Still where
  load c program hOn h := by
    have hSize : ¬ isProgramSize program.length = true := by simpa [Operation.drivesOn] using hOn
    rw [Machine.load_rejected hSize]
    exact h
  execute c word hOn := by cases hOn
  keyDown c key _ h := by
    rw [Machine.keyDown_idle (h.wait.trans hWait)]
    exact h
  step c h := by
    rw [step_trapped (h.trap.trans hTrap)]
    exact h
  finishBatch c h := h.finishBatch

private theorem runSteps_trapped {c : Console δ} {e : Fault} (hTrap : c.machine.trap = some e)
    {n : Nat} (hn : 0 < n) : c.runSteps n = fail e c :=
  steps_refused (step_trapped hTrap) rfl hn

end Console

/-! ## Halts are reported once -/

/-- The fault that a record says the machine halted on. -/
def Record.haltedFault? : Record → Option Fault
  | .halted fault => some fault
  | _ => none

/-- The faults that records say the machine halted on, in order. -/
def haltsIn (records : Array Record) : List Fault := records.toList.filterMap Record.haltedFault?

theorem haltsIn_append (earlier later : Array Record) :
    haltsIn (earlier ++ later) = haltsIn earlier ++ haltsIn later := by
  simp [haltsIn]

/-- The fault to report when the trap of a machine was one thing before and another after:
none, unless there was no trap before. -/
def newHalts (before now : Option Fault) : List Fault := if before.isNone then now.toList else []

private theorem newHalts_self (trap : Option Fault) : newHalts trap trap = [] := by
  cases trap <;> rfl

namespace Console

private theorem execute_halts (word : Word) (c : Console δ) :
    haltsIn (c.execute word).records = [] :=
  Record.filterMap_eq_nil (c.execute_records (fun _ _ => rfl) (fun _ => rfl) word)

/-- Steps of a machine that had not halted report a halt once, if one came, and end with a fault
if so. -/
structure Reported (o : Outcome (Console δ) Flow) : Prop where
  halts : haltsIn o.records = o.state.machine.trap.toList
  free : ∀ flow, o.result = .ok flow → o.state.machine.trap = none

omit [Devices δ] in
private theorem Reported.of_free {o : Outcome (Console δ) Flow} (hRecords : haltsIn o.records = [])
    (hTrap : o.state.machine.trap = none) : Reported o :=
  ⟨hRecords.trans (congrArg Option.toList hTrap).symm, fun _ _ => hTrap⟩

private theorem step_reported {c : Console δ} (hTrap : c.machine.trap = none) :
    Reported c.step := by
  rcases c.step_cases with ⟨_, hSome, _⟩ | ⟨_, _, hStep⟩ | ⟨_, _, _, hStep⟩ | ⟨_, _, _, hStep⟩
  · cases hTrap.symm.trans hSome
  · rw [hStep]
    exact .of_free rfl hTrap
  · rw [hStep]
    exact .of_free rfl hTrap
  · rw [hStep]
    cases hResult : (c.execute c.nextWord).result with
    | ok flow =>
        rw [fetchExecute_of_ok hResult]
        apply Reported.of_free
        · show haltsIn (#[Record.fetched _ _] ++ (c.execute c.nextWord).records) = []
          rw [haltsIn_append, execute_halts]
          rfl
        · exact (c.execute_sameHost c.nextWord).trap.trans hTrap
    | error fault =>
        rw [fetchExecute_of_error hResult]
        constructor
        · rw [Array.push_eq_append, haltsIn_append, haltsIn_append, execute_halts]
          rfl
        · intro flow hOk
          cases hOk

/-- One more step after steps that ended well. -/
theorem Reported.after {o : Outcome (Console δ) Flow} (h : Reported o) {stop : Flow → Bool}
    (hOn : o.goesOn stop = true) : Reported (o.state.step.after o.records) := by
  have hFree : o.state.machine.trap = none := by
    cases hResult : o.result with
    | ok flow => exact h.free flow hResult
    | error fault => simp [Outcome.goesOn, hResult] at hOn
  have hStep : Reported o.state.step := step_reported hFree
  refine ⟨?_, hStep.free⟩
  show haltsIn (o.records ++ o.state.step.records) = o.state.step.state.machine.trap.toList
  rw [haltsIn_append, h.halts, hFree, hStep.halts]
  rfl

/-- A loop of steps reports a halt once if the machine halts in it. A machine that has halted before
refuses every step. -/
theorem steps_halts (stop : Flow → Bool) (n : Nat) (c : Console δ) :
    let o := Outcome.repeatUntil stop step n (done .proceed c)
    haltsIn o.records = newHalts c.machine.trap o.state.machine.trap := by
  intro o
  cases hTrap : c.machine.trap with
  | some e =>
      refine Outcome.repeatUntil_kept (P := fun o => haltsIn o.records = [] ∧
        o.state.machine.trap = some e) ?_ n ⟨rfl, hTrap⟩ |>.1
      intro o ⟨hNone, hSome⟩ _
      rw [step_trapped hSome]
      refine ⟨?_, hSome⟩
      show haltsIn (o.records ++ #[]) = []
      rw [Array.append_empty, hNone]
  | none =>
      have hKept : Reported o :=
        Outcome.repeatUntil_kept (fun _ h hOn => h.after hOn) n (.of_free rfl hTrap)
      exact hKept.halts

private theorem finishBatch_trap (c : Console δ) : c.finishBatch.machine.trap = c.machine.trap := by
  rcases c.finishBatch_machine with hSame | hTick
  · rw [hSame]
  · rw [hTick]
    rfl

private theorem cycle_halts (c : Console δ) :
    haltsIn c.cycle.records = newHalts c.machine.trap c.cycle.state.machine.trap := by
  have hSteps := steps_halts (fun _ => false) c.machine.conf.speed c
  unfold cycle
  dsimp only
  split
  · rw [finishBatch_trap]
    exact hSteps
  · exact hSteps

/-- **An operation reports a halt once** if the machine halts in it, and not at all otherwise. -/
theorem halts_apply (op : Operation) (c : Console δ) :
    haltsIn (c.apply op).records = newHalts c.machine.trap (c.apply op).state.machine.trap := by
  cases op with
  | load program =>
      by_cases hSize : isProgramSize program.length = true
      · show haltsIn (c.machine.load program).records =
          newHalts c.machine.trap (c.machine.load program).state.trap
        rw [Machine.load_of_accepted hSize]
        cases c.machine.trap <;> rfl
      · show haltsIn (c.machine.load program).records =
          newHalts c.machine.trap (c.machine.load program).state.trap
        rw [Machine.load_of_refused hSize]
        exact (newHalts_self c.machine.trap).symm
  | execute word =>
      show haltsIn (c.execute word).records =
        newHalts c.machine.trap (c.execute word).state.machine.trap
      rw [execute_halts, (c.execute_sameHost word).trap, newHalts_self]
  | step =>
      show haltsIn c.step.records = newHalts c.machine.trap c.step.state.machine.trap
      cases hTrap : c.machine.trap with
      | some e =>
          rw [step_trapped hTrap]
          rfl
      | none => exact (step_reported hTrap).halts
  | runSteps count => exact steps_halts _ count c
  | cycle => exact cycle_halts c
  | keyDown key =>
      have hRecords : haltsIn (c.machine.keyDown key).records = [] := by
        unfold Machine.keyDown
        split <;> rfl
      show haltsIn (c.machine.keyDown key).records =
        newHalts c.machine.trap (c.machine.keyDown key).state.trap
      rw [hRecords, Machine.keyDown_trap, newHalts_self]

end Console

/-! ## Every state a host can drive a machine to -/

/-- **A trap is faithful, sticky and reported once.** In every state that driving leads to, a trap
says what is wrong with the word before the program counter; driving the machine on from there
leaves it still and every step ends in the trap again, until a program is loaded; and an
operation reports a halt just when the machine halts in it. -/
theorem trap_faithful_and_sticky {δ : Type} [Devices δ] (conf : Conf) (random : RandomSource)
    (devices : δ) {ops : List Operation} (hOps : ∀ op ∈ ops, op.drives = true) :
    let c := (⟨.new conf random, devices⟩ : Console δ).afterAll ops
    (∀ e, c.machine.trap = some e →
      c.machine.hasProgram = true ∧ c.machine.cpu.wait = none ∧
      (∀ size, e ≠ .invalidProgram size) ∧
      e.Describes (c.machine.cpu.memory.fetch (c.machine.cpu.pc - 2).toNat)
        (c.machine.cpu.pc - 2) c.machine.cpu.stack.depth ∧
      ∀ later : List Operation, (∀ op ∈ later, op.drivesOn = true) →
        let d := c.afterAll later
        c.Still d ∧ d.step.result = .error e ∧
          ∀ n, 0 < n → (d.runSteps n).result = .error e) ∧
    ∀ op, haltsIn (c.apply op).records =
      newHalts c.machine.trap (c.apply op).state.machine.trap := by
  intro c
  have hTrapped : ∀ e, c.machine.trap = some e → c.machine.Trapped e := by
    apply Console.trapped_kept.afterAll hOps
    intro e hNew
    cases hNew
  refine ⟨?_, fun op => Console.halts_apply op c⟩
  intro e hTrap
  have h := hTrapped e hTrap
  refine ⟨h.hasProgram, h.wait, h.describes.ne_invalidProgram, h.describes, ?_⟩
  intro later hLater d
  have hStill : c.Still d :=
    (Console.still_kept hTrap h.wait).afterAll hLater (Console.Still.refl c)
  have hSame : d.machine.trap = some e := hStill.trap.trans hTrap
  refine ⟨hStill, ?_, ?_⟩
  · rw [Console.step_trapped hSame]
    rfl
  · intro n hn
    rw [Console.runSteps_trapped hSame hn]
    rfl

private theorem Console.step_unmatched_return {c : Console δ} (hReady : c.step = c.fetchExecute)
    (hWord : c.nextWord = 0x00EE) (hNone : c.machine.cpu.stack.depth = 0) :
    c.step.state.machine.trap = some .stackUnderflow := by
  have hRet : Cpu.ret (c.mapCpu Cpu.advance).machine.cpu = .error .stackUnderflow := by
    have hPop : (c.mapCpu Cpu.advance).machine.cpu.stack.pop = .error .stackUnderflow := by
      show c.machine.cpu.stack.pop = _
      simp [CallStack.pop, hNone]
    rw [Cpu.ret, hPop]
  have hInstr : Instr.ofWord? c.nextWord = some .ret := by
    rw [hWord]
    rfl
  have hResult : (c.execute c.nextWord).result = .error .stackUnderflow := by
    rw [Console.execute_of_instr hInstr, Instr.perform, Console.transfer, hRet]
    rfl
  rw [hReady, Console.fetchExecute_of_error hResult]
  rfl

theorem Console.apply_step (c : Console δ) : (c.apply .step).state = c.step.state := rfl

theorem Console.apply_load {program : List UInt8} (hSize : isProgramSize program.length = true)
    (c : Console δ) :
    (c.apply (.load program)).state =
      c.withMachine
        { c.machine with cpu := .loaded program, hasProgram := true, trap := none } := by
  rw [apply, Machine.load_of_accepted hSize]
  rfl

/-- A program that begins with a return halts at once. -/
theorem unmatched_return_halts (c : Console δ) {rest : List UInt8} (hSize : rest.length < 3582) :
    (c.afterAll [.load (0x00 :: 0xEE :: rest), .step]).machine.trap = some .stackUnderflow := by
  have hFits : isProgramSize (0x00 :: 0xEE :: rest : List UInt8).length = true := by
    have hMax : rest.length + 1 + 1 ≤ maxProgramSize := by
      unfold maxProgramSize
      omega
    simp [isProgramSize, hMax]
  let loaded := c.withMachine
    { c.machine with cpu := .loaded (0x00 :: 0xEE :: rest), hasProgram := true, trap := none }
  have hTaken : loaded.step = loaded.fetchExecute := Console.step_taken rfl rfl rfl
  have hNone : loaded.machine.cpu.stack.depth = 0 := rfl
  have hPc : loaded.machine.cpu.pc.toNat = programStart := rfl
  have hWord : loaded.nextWord = 0x00EE := by
    have hFetch := Memory.fetch_ofProgram 0x00 0xEE rest
    rw [Console.nextWord, hPc]
    exact hFetch
  rw [Console.afterAll, Console.apply_load hFits, Console.afterAll, Console.apply_step,
    Console.afterAll]
  exact Console.step_unmatched_return hTaken hWord hNone

/-- Such a program, driven on by a key, a batch and a load that is refused. -/
theorem trap_of_unmatched_return :
    let c := (⟨.new {} (.cycling [1]), {}⟩ : Console Headless).afterAll
      [.load [0x00, 0xEE], .step]
    let d := c.afterAll [.keyDown 3, .cycle, .load []]
    c.machine.trap = some .stackUnderflow ∧ d.step.result = .error .stackUnderflow ∧
      d.devices.display = c.devices.display := by
  have hDrives : ∀ op ∈ [Operation.load [0x00, 0xEE], .step], op.drives = true := by decide
  have hTrap := unmatched_return_halts (⟨.new {} (.cycling [1]), {}⟩ : Console Headless)
    (show ([] : List UInt8).length < 3582 by decide)
  obtain ⟨-, -, -, -, hOn⟩ :=
    (trap_faithful_and_sticky {} (.cycling [1]) ({} : Headless) hDrives).1 _ hTrap
  obtain ⟨hStill, hStep, -⟩ := hOn [.keyDown 3, .cycle, .load []] (by decide)
  exact ⟨hTrap, hStep, hStill.view Headless.display Headless.toneBlind_display⟩

end Chip8
