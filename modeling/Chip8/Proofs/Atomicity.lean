import Chip8.Proofs.Execution
import Chip8.Proofs.Run

/-!
# Faults are atomic

A word that cannot be executed has done nothing by the time its fault is
found, although the fault may be found late: after operands were read, inside
a call or a return, or after the keypad was asked. All that is left of it is
the program counter, which had gone past the word already, and that question.

A step that runs into the fault leaves the same behind, and halts. A step that
was refused before anything was fetched leaves nothing behind at all.

## Main results

* `Console.execute_error_state` — the two states that a fault can leave.
* `Console.step_error` — what a step that fails leaves.
* `fault_atomic` — both, as seen by devices that record their calls.
-/

namespace Chip8

/-- Whether a call only asks something of the devices. -/
def Call.asks : Call → Bool
  | .pressed _ _ => true
  | _ => false

namespace Console

/-- All that was done to the devices between two states was to ask them. -/
def OnlyAsked {δ : Type} (before after : Console (Recorded δ)) : Prop :=
  ∃ asked : Array Call, after.devices.calls = before.devices.calls ++ asked ∧
    ∀ call ∈ asked, call.asks = true

variable {δ : Type} [Devices δ]

/-! ## A word on its own -/

private theorem refuse_state (word : Word) (address : UInt16) (c : Console δ) :
    (c.refuse word address).state = c ∨ (c.refuse word address).state = (c.poll word.x).2 := by
  unfold refuse
  split
  · exact Or.inr rfl
  · exact Or.inl rfl

/-- A fault leaves the state with the program counter past the word, in which the keypad may have
been asked. Of the instructions only a return and a call can end in one. -/
theorem execute_error_state {word : Word} {c : Console δ} {e : Fault}
    (h : (c.execute word).result = .error e) :
    (c.execute word).state = c.mapCpu Cpu.advance ∨
      (c.execute word).state = ((c.mapCpu Cpu.advance).poll word.x).2 := by
  cases hWord : Instr.ofWord? word with
  | none =>
      rw [execute_of_none hWord]
      exact refuse_state word _ _
  | some instr =>
      left
      rw [execute_of_instr hWord] at h ⊢
      cases instr
      case ret => exact (transfer_error (f := Cpu.ret) h).2
      case call target => exact (transfer_error (f := Cpu.call target) h).2
      all_goals cases h

omit [Devices δ] in
theorem OnlyAsked.refl (c : Console (Recorded δ)) : c.OnlyAsked c :=
  ⟨#[], by simp, by simp⟩

private theorem poll_onlyAsked (x : Reg) (c : Console (Recorded δ)) : c.OnlyAsked (c.poll x).2 := by
  unfold poll
  split
  · rename_i hKey
    let key : Key := ⟨(c.machine.cpu.reg x).toNat, hKey⟩
    let answer := Devices.pressed key c.devices.devices
    refine ⟨#[.pressed key answer.1], ?_, ?_⟩
    · exact Array.push_eq_append
    · intro call hCall
      have hSame : call = .pressed key answer.1 := by simpa using hCall
      rw [hSame]
      rfl
  · exact .refl c

private theorem execute_error_onlyAsked {word : Word} {c : Console (Recorded δ)} {e : Fault}
    (h : (c.execute word).result = .error e) : c.OnlyAsked (c.execute word).state := by
  rcases execute_error_state h with hState | hState
  · rw [hState]
    exact .refl (c.mapCpu Cpu.advance)
  · rw [hState]
    exact poll_onlyAsked word.x (c.mapCpu Cpu.advance)

/-! ## A step -/

/-- **What a step that fails leaves**: the state it was refused in, or the halted state that the
word at the program counter left with its fault. -/
theorem step_error {c : Console δ} {e : Fault} (h : c.step.result = .error e) :
    ((c.machine.trap ≠ none ∨ c.machine.hasProgram = false) ∧ c.step.state = c) ∨
      (c.machine.trap = none ∧ c.machine.hasProgram = true ∧ c.machine.isWaiting = false ∧
        (c.execute c.nextWord).result = .error e ∧
        c.step.state = (c.execute c.nextWord).state.halt e) := by
  rcases c.step_cases with ⟨fault, hTrap, hStep⟩ | ⟨_, hProgram, hStep⟩ | ⟨_, _, _, hStep⟩ |
    ⟨hTrap, hProgram, hWait, hStep⟩
  · left
    refine ⟨Or.inl ?_, by rw [hStep]; rfl⟩
    rw [hTrap]
    exact Option.some_ne_none fault
  · left
    exact ⟨Or.inr hProgram, by rw [hStep]; rfl⟩
  · rw [hStep] at h
    cases h
  · right
    rw [hStep] at h ⊢
    cases hResult : (c.execute c.nextWord).result with
    | ok flow =>
        rw [fetchExecute_of_ok hResult] at h
        cases hResult.symm.trans h
    | error fault =>
        rw [fetchExecute_of_error hResult] at h ⊢
        cases h
        exact ⟨hTrap, hProgram, hWait, rfl, rfl⟩

end Console

/-! ## Both, on devices that record their calls -/

/-- **A fault is atomic.**  Executing a word that ends in a fault moves the program counter past
the word and changes nothing else of the machine, and all it did to the devices was to ask for
a key. A step of a running machine that fails does the same and sets the trap to its fault; a
step that fails because there is no program or a trap changes nothing at all. -/
theorem fault_atomic {δ : Type} [Devices δ] (c : Console (Recorded δ)) :
    (∀ word e, (c.execute word).result = .error e →
      (c.execute word).state.machine =
        { c.machine with cpu := { c.machine.cpu with pc := c.machine.cpu.pc + 2 } } ∧
      c.OnlyAsked (c.execute word).state) ∧
    ∀ e, c.step.result = .error e →
      (c.machine.hasProgram = true → c.machine.trap = none → c.machine.cpu.wait = none →
        c.step.state.machine =
          { c.machine with
            cpu := { c.machine.cpu with pc := c.machine.cpu.pc + 2 }, trap := some e } ∧
        c.OnlyAsked c.step.state) ∧
      (c.machine.hasProgram = false ∨ c.machine.trap ≠ none → c.step.state = c) := by
  constructor
  · intro word e h
    exact ⟨(Console.execute_error h).1, Console.execute_error_onlyAsked h⟩
  · intro e h
    rcases Console.step_error h with ⟨hRefused, hState⟩ | ⟨hTrap, hProgram, _, hError, hState⟩
    · refine ⟨?_, fun _ => hState⟩
      intro hProgram hTrap
      rcases hRefused with hSome | hNone
      · exact absurd hTrap hSome
      · cases hNone.symm.trans hProgram
    · constructor
      · intro _ _ _
        rw [hState]
        constructor
        · rw [Console.halt, (Console.execute_error hError).1]
          rfl
        · exact Console.execute_error_onlyAsked hError
      · rintro (hNone | hSome)
        · cases hProgram.symm.trans hNone
        · exact absurd hTrap hSome

/-- A keypad test that does not exist, met before and after a program with it is loaded: the
keypad is asked for the key in `V0`, and still nothing but the program counter moves. -/
theorem fault_atomic_after_question :
    let c : Console (Recorded Headless) := ⟨.new {} (.cycling [1]), { devices := {} }⟩
    let loaded := c.afterAll [.load [0xE0, 0xA0]]
    let fault : Fault := .unknownOpcode 0xE0A0 0x200
    (c.execute 0xE0A0).result = .error fault ∧
    (c.execute 0xE0A0).state.devices.calls = #[.pressed 0 false] ∧
    c.OnlyAsked (c.execute 0xE0A0).state ∧
    c.step.result = .error (.invalidProgram 0) ∧ c.step.state = c ∧
    loaded.step.result = .error fault ∧
    loaded.step.state.machine = { loaded.machine with
      cpu := { loaded.machine.cpu with pc := 0x202 }, trap := some fault } := by
  intro c loaded fault
  have hExecute : (c.execute 0xE0A0).result = .error fault := rfl
  have hEmpty : c.step.result = .error (.invalidProgram 0) := rfl
  have hWord : loaded.nextWord = 0xE0A0 := Memory.fetch_ofProgram 0xE0 0xA0 []
  have hLoaded : loaded.step.result = .error fault := by
    have hFault : (loaded.execute loaded.nextWord).result = .error fault := by
      rw [hWord]
      rfl
    rw [Console.step_taken rfl rfl rfl, Console.fetchExecute_of_error hFault]
  obtain ⟨_, hAsked⟩ := (fault_atomic c).1 _ _ hExecute
  have hRefused := ((fault_atomic c).2 _ hEmpty).2 (Or.inl rfl)
  obtain ⟨hMachine, _⟩ := ((fault_atomic loaded).2 _ hLoaded).1 rfl rfl rfl
  exact ⟨hExecute, rfl, hAsked, hEmpty, hRefused, hLoaded, hMachine⟩

end Chip8
