import Chip8.Proofs.Trap

/-!
# Batches that are refused

A machine without a program, and one that has halted, refuses every step, and
with its first step a batch is refused too: before the timers and the buzzer,
so that nothing at all happens. The check is made by the steps alone. A batch
of no steps is therefore never refused (`Console.cycle_of_speed_zero`), not
even by a machine that has nothing to run.

Which fault a step names first matters on no machine that can be reached: only
a machine with a program halts (`Console.haltedOnProgram_kept`).
-/

namespace Chip8

/-- A machine that has a program if it has halted. -/
def Machine.HaltedOnProgram (m : Machine) : Prop := m.trap ≠ none → m.hasProgram = true

namespace Console

variable {δ : Type} [Devices δ]

/-! ## The check -/

private theorem step_empty {c : Console δ} (hTrap : c.machine.trap = none)
    (hEmpty : c.machine.hasProgram = false) : c.step = fail (.invalidProgram 0) c := by
  simp [step, hTrap, hEmpty]

/-- A batch of at least one step is refused with its first step, and nothing comes of it. -/
theorem cycle_refused {c : Console δ} {e : Fault} (hStep : c.step = fail e c)
    (hSpeed : 0 < c.machine.conf.speed) : c.cycle = { result := .error e, state := c } := by
  have hBatch : Outcome.repeatUntil (fun _ => false) step c.machine.conf.speed
      (done .proceed c) = fail e c := steps_refused hStep rfl hSpeed
  rw [cycle, hBatch]
  rfl

/-- A batch of no steps ends well whatever the machine has halted on. -/
theorem cycle_of_speed_zero {c : Console δ} (hSpeed : c.machine.conf.speed = 0) :
    c.cycle = { result := .ok (), state := c.finishBatch } := by
  rw [cycle, hSpeed]
  rfl

/-! ## What halts has a program -/

private theorem fetchExecute_hasProgram (c : Console δ) :
    c.fetchExecute.state.machine.hasProgram = c.machine.hasProgram := by
  have hSame := (c.execute_sameHost c.nextWord).hasProgram
  cases hResult : (c.execute c.nextWord).result with
  | ok flow =>
      rw [fetchExecute_of_ok hResult]
      exact hSame
  | error fault =>
      rw [fetchExecute_of_error hResult]
      exact hSame

/-- Whatever a host does, only a machine with a program halts. -/
theorem haltedOnProgram_kept :
    Invariant (δ := δ) (fun _ => True) (fun c => c.machine.HaltedOnProgram) where
  load c program _ h := by
    by_cases hSize : isProgramSize program.length = true
    · intro hSome
      exact absurd (Machine.load_trap hSize) hSome
    · rw [Machine.load_rejected hSize]
      exact h
  execute c word _ h := by
    have hSame := c.execute_sameHost word
    intro hSome
    rw [hSame.hasProgram]
    exact h (hSame.trap ▸ hSome)
  keyDown c key _ h := by
    have hProgram : (c.machine.keyDown key).state.hasProgram = c.machine.hasProgram := by
      unfold Machine.keyDown
      split <;> rfl
    intro hSome
    exact hProgram.trans (h (c.machine.keyDown_trap key ▸ hSome))
  step c h := by
    rcases c.step_cases with ⟨_, _, hStep⟩ | ⟨_, _, hStep⟩ | ⟨_, _, _, hStep⟩ |
      ⟨_, hProgram, _, hStep⟩
    · rw [hStep]
      exact h
    · rw [hStep]
      exact h
    · rw [hStep]
      exact h
    · intro _
      rw [hStep, fetchExecute_hasProgram, hProgram]
  finishBatch c h := by
    rcases c.finishBatch_machine with hSame | hTick
    · rw [hSame]
      exact h
    · rw [hTick]
      exact h

end Console

/-- Only a machine with a program is ever found halted. -/
theorem haltedOnProgram_reached {δ : Type} [Devices δ] (conf : Conf) (random : RandomSource)
    (devices : δ) (ops : List Operation) :
    ((⟨.new conf random, devices⟩ : Console δ).afterAll ops).machine.HaltedOnProgram := by
  refine Console.haltedOnProgram_kept.afterAll (c := ⟨.new conf random, devices⟩)
    (fun _ _ => trivial) ?_
  intro hSome
  exact absurd rfl hSome

/-! ## Batches -/

/-- **A halted or empty machine refuses every batch of at least one step.**  The batch is refused
with the trap, or with the fault that no program is loaded; the machine stays as it is, timers
included, and no call is made. Of the machines a host can reach none has both a trap and no
program. At speed zero there is no step to refuse, and the batch ends well. -/
theorem batch_refused {δ : Type} [Devices δ] (c : Console (Recorded δ)) :
    (0 < c.machine.conf.speed →
      (c.machine.trap = none → c.machine.hasProgram = false →
        c.cycle = { result := .error (.invalidProgram 0), state := c }) ∧
      ∀ e, c.machine.trap = some e → c.cycle = { result := .error e, state := c }) ∧
    (c.machine.conf.speed = 0 → c.cycle = { result := .ok (), state := c.finishBatch }) ∧
    ∀ conf random ops,
      let m := ((⟨.new conf random, c.devices⟩ : Console (Recorded δ)).afterAll ops).machine
      m.hasProgram = false → m.trap = none := by
  refine ⟨fun hSpeed => ⟨?_, ?_⟩, Console.cycle_of_speed_zero, ?_⟩
  · intro hTrap hEmpty
    exact Console.cycle_refused (Console.step_empty hTrap hEmpty) hSpeed
  · intro e hTrap
    exact Console.cycle_refused (Console.step_trapped hTrap) hSpeed
  · intro conf random ops m hEmpty
    have hHalted : m.HaltedOnProgram := haltedOnProgram_reached conf random c.devices ops
    cases hTrap : m.trap with
    | none => rfl
    | some e =>
        have hSome : m.trap ≠ none := by
          rw [hTrap]
          exact Option.some_ne_none e
        cases hEmpty.symm.trans (hHalted hSome)

/-- A machine that halted on a return, and an empty one, each with its timers running. -/
theorem batch_refused_after_return :
    let m : Machine := { Machine.new {} (.cycling [1]) with cpu := { delay := 2, sound := 3 } }
    let empty : Console (Recorded Headless) := ⟨m, { devices := {} }⟩
    let halted : Console (Recorded Headless) :=
      ⟨{ m with hasProgram := true, trap := some .stackUnderflow }, { devices := {} }⟩
    empty.machine.hasProgram = false ∧
    empty.cycle = { result := .error (.invalidProgram 0), state := empty } ∧
    halted.machine.trap = some .stackUnderflow ∧
    halted.cycle = { result := .error .stackUnderflow, state := halted } := by
  intro m empty halted
  have hEmpty := ((batch_refused empty).1 (by decide)).1 rfl rfl
  have hHalted := ((batch_refused halted).1 (by decide)).2 .stackUnderflow rfl
  exact ⟨rfl, hEmpty, rfl, hHalted⟩

/-- **At speed zero an empty machine does not refuse**: with no program loaded and the delay timer
at five, a batch ends well, counts the timer down and silences the buzzer. -/
theorem batch_accepted_at_speed_zero :
    let start : Console (Recorded Headless) :=
      ⟨.new { speed := 0 } (.cycling [0]), { devices := {} }⟩
    let c := start.afterAll [.execute 0x6005, .execute 0xF015]
    c.machine.hasProgram = false ∧ (∀ e, c.cycle.result ≠ .error e) ∧
      c.machine.cpu.delay = 5 ∧ c.cycle.state.machine.cpu.delay = 4 ∧
      c.devices.calls = #[] ∧ c.cycle.state.devices.calls = #[.toneOff] := by
  intro start c
  have hAccepted : c.cycle.result = .ok () := rfl
  refine ⟨rfl, ?_, rfl, by decide, rfl, rfl⟩
  intro e hRefused
  rw [hAccepted] at hRefused
  cases hRefused

end Chip8
