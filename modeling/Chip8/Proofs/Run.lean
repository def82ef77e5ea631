import Chip8.Console.Operation
import Chip8.Proofs.Execution

/-!
# Invariants of runs

What every piece of an operation keeps, every operation keeps, and so does
every sequence of operations. `Invariant` lists the pieces: a load, a word
executed on its own, a key going down, one step, and the end of a batch. The
loops of `runSteps` and `cycle` are dealt with here once, by `repeatUntil_kept`.

Some invariants survive only part of what a host can do; `allowed` says which
operations are meant.
-/

namespace Chip8

/-- What one more round keeps, the loop keeps. The round may rely on the loop going on. -/
theorem Outcome.repeatUntil_kept {σ α : Type} {stop : α → Bool} {act : σ → Outcome σ α}
    {P : Outcome σ α → Prop}
    (hRound : ∀ o, P o → o.goesOn stop = true → P ((act o.state).after o.records)) (n : Nat)
    {o : Outcome σ α} (h : P o) : P (repeatUntil stop act n o) := by
  induction n generalizing o with
  | zero => exact h
  | succ n ih =>
      cases hOn : o.goesOn stop with
      | true =>
          rw [repeatUntil_of_goesOn hOn]
          exact ih (hRound o h hOn)
      | false =>
          rw [repeatUntil_of_stopped hOn]
          exact h

/-! ## What a step does -/

namespace Console

variable {δ : Type} [Devices δ]

/-- The word at the program counter. -/
def nextWord (c : Console δ) : Word := c.machine.cpu.memory.fetch c.machine.cpu.pc.toNat

theorem fetchExecute_of_ok {c : Console δ} {flow : Flow}
    (h : (c.execute c.nextWord).result = .ok flow) :
    c.fetchExecute = (c.execute c.nextWord).after #[.fetched c.machine.cpu.pc c.nextWord] := by
  simp only [nextWord] at h
  simp only [fetchExecute, Outcome.after, nextWord, h]

theorem fetchExecute_of_error {c : Console δ} {fault : Fault}
    (h : (c.execute c.nextWord).result = .error fault) :
    c.fetchExecute =
      { result := .error fault
        state := (c.execute c.nextWord).state.halt fault
        records := (#[Record.fetched c.machine.cpu.pc c.nextWord] ++
          (c.execute c.nextWord).records).push (.halted fault) } := by
  simp only [nextWord] at h
  simp only [fetchExecute, Outcome.after, nextWord, h]

/-- **The four things a step can be**: refused by a trap, refused for want of a program, spent
waiting, or taken. -/
theorem step_cases (c : Console δ) :
    (∃ fault, c.machine.trap = some fault ∧ c.step = fail fault c) ∨
    (c.machine.trap = none ∧ c.machine.hasProgram = false ∧
      c.step = fail (.invalidProgram 0) c) ∨
    (c.machine.trap = none ∧ c.machine.hasProgram = true ∧ c.machine.isWaiting = true ∧
      c.step = done .keyWait c) ∨
    (c.machine.trap = none ∧ c.machine.hasProgram = true ∧ c.machine.isWaiting = false ∧
      c.step = c.fetchExecute) := by
  unfold step
  cases hTrap : c.machine.trap with
  | some fault => exact Or.inl ⟨fault, rfl, rfl⟩
  | none =>
      cases hProgram : c.machine.hasProgram with
      | false => exact Or.inr (Or.inl ⟨rfl, rfl, rfl⟩)
      | true =>
          cases hWait : c.machine.isWaiting with
          | true => exact Or.inr (Or.inr (Or.inl ⟨rfl, rfl, rfl, rfl⟩))
          | false => exact Or.inr (Or.inr (Or.inr ⟨rfl, rfl, rfl, rfl⟩))

theorem step_taken {c : Console δ} (hTrap : c.machine.trap = none)
    (hProgram : c.machine.hasProgram = true) (hWait : c.machine.cpu.wait = none) :
    c.step = c.fetchExecute := by
  simp [step, Machine.isWaiting, hTrap, hProgram, hWait]

/-- A step whose word acts on the processor alone. -/
theorem step_of_update {c : Console δ} {instr : Instr} {flow : Flow} {f : Cpu → Cpu}
    (hTaken : c.step = c.fetchExecute) (hWord : Instr.ofWord? c.nextWord = some instr)
    (hPerform : ∀ d : Console δ, instr.perform d = d.update flow f) :
    c.step.result = .ok flow ∧ c.step.state = c.mapCpu fun cpu => f cpu.advance := by
  have hExecute : c.execute c.nextWord = (c.mapCpu Cpu.advance).update flow f := by
    rw [execute_of_instr hWord, hPerform]
  have hOk : (c.execute c.nextWord).result = .ok flow := by
    rw [hExecute]
    rfl
  rw [hTaken, fetchExecute_of_ok hOk, hExecute]
  exact ⟨rfl, rfl⟩

/-- A loop of steps whose first one is refused ends there. -/
theorem steps_refused {c : Console δ} {e : Fault} (hStep : c.step = fail e c) {stop : Flow → Bool}
    (hStop : stop .proceed = false) {n : Nat} (hn : 0 < n) :
    Outcome.repeatUntil stop step n (done .proceed c) = fail e c := by
  obtain ⟨n, rfl⟩ : ∃ k, n = k + 1 := ⟨n - 1, by omega⟩
  have hOn : (done .proceed c).goesOn stop = true := by
    simp [Outcome.goesOn, done, hStop]
  have hOff : (fail e c).goesOn stop = false := rfl
  rw [Outcome.repeatUntil_of_goesOn hOn]
  show Outcome.repeatUntil _ _ n (c.step.after #[]) = _
  rw [hStep]
  exact Outcome.repeatUntil_of_stopped hOff _ n

/-- The steps of a batch. -/
def batch (c : Console δ) : Outcome (Console δ) Flow :=
  Outcome.repeatUntil (fun _ => false) step c.machine.conf.speed (done .proceed c)

/-- **The two ends of a batch**: its steps end well and the timers and the buzzer follow, or they
end in a fault and nothing does. -/
theorem cycle_cases (c : Console δ) :
    (∃ flow, c.batch.result = .ok flow ∧
      c.cycle = { result := .ok (), state := c.batch.state.finishBatch,
                  records := c.batch.records }) ∨
    ∃ e, c.batch.result = .error e ∧
      c.cycle = { result := .error e, state := c.batch.state, records := c.batch.records } := by
  cases hBatch : c.batch.result with
  | ok flow =>
      left
      refine ⟨flow, rfl, ?_⟩
      simp only [batch] at hBatch
      simp only [cycle, hBatch, batch]
  | error e =>
      right
      refine ⟨e, rfl, ?_⟩
      simp only [batch] at hBatch
      simp only [cycle, hBatch, batch]

theorem cycle_records (c : Console δ) : c.cycle.records = c.batch.records := by
  rcases c.cycle_cases with ⟨_, _, hCycle⟩ | ⟨_, _, hCycle⟩
  · rw [hCycle]
  · rw [hCycle]

/-- Of the devices, the end of a batch drives the buzzer alone. -/
theorem finishBatch_devices (c : Console δ) :
    c.finishBatch.devices = Devices.toneOn c.machine.conf.tone c.devices ∨
      c.finishBatch.devices = Devices.toneOff c.devices := by
  have hTone (d : Console δ) : d.updateTone.devices = Devices.toneOn d.machine.conf.tone d.devices ∨
      d.updateTone.devices = Devices.toneOff d.devices := by
    unfold updateTone
    split
    · exact Or.inl rfl
    · exact Or.inr rfl
  unfold finishBatch
  cases c.machine.isWaiting with
  | true => exact hTone c
  | false => exact hTone (c.mapCpu Cpu.tick)

/-- What executing and halting keep, a step keeps. -/
theorem step_kept {P : Console δ → Prop}
    (hExecute : ∀ c word, P c → P (c.execute word).state)
    (hHalt : ∀ c fault, P c → P (c.halt fault)) (c : Console δ) (h : P c) : P c.step.state := by
  have hNext := hExecute c c.nextWord h
  rcases c.step_cases with ⟨_, _, hStep⟩ | ⟨_, _, hStep⟩ | ⟨_, _, _, hStep⟩ | ⟨_, _, _, hStep⟩
  · rw [hStep]
    exact h
  · rw [hStep]
    exact h
  · rw [hStep]
    exact h
  · rw [hStep]
    cases hResult : (c.execute c.nextWord).result with
    | ok flow =>
        rw [fetchExecute_of_ok hResult]
        exact hNext
    | error fault =>
        rw [fetchExecute_of_error hResult]
        exact hHalt _ fault hNext

end Console

/-- What no word breaks, the steps of a batch do not break. -/
theorem Devices.KeptByWords.batch {δ : Type} [Devices δ] {P : δ → Prop}
    (hKept : Devices.KeptByWords P) {c : Console δ} (h : P c.devices) : P c.batch.state.devices :=
  Outcome.repeatUntil_kept (P := fun o : Outcome (Console δ) Flow => P o.state.devices)
    (fun o ho _ => Console.step_kept (P := fun d : Console δ => P d.devices)
      (fun _ word hd => hKept.execute word hd) (fun _ _ hd => hd) o.state ho) _ h

/-! ## Runs in parts, and the words they execute -/

namespace Console

variable {δ : Type} [Devices δ]

theorem afterAll_append (first later : List Operation) (c : Console δ) :
    c.afterAll (first ++ later) = (c.afterAll first).afterAll later := by
  induction first generalizing c with
  | nil => rfl
  | cons op ops ih => exact ih (c.apply op).state

/-- The words executed by a sequence of operations, in order. -/
def executed : List Operation → Console δ → List Word
  | [], _ => []
  | op :: ops, c => op.executedBy (c.apply op).records ++ executed ops (c.apply op).state

theorem executed_append (first later : List Operation) (c : Console δ) :
    c.executed (first ++ later) = c.executed first ++ (c.afterAll first).executed later := by
  induction first generalizing c with
  | nil => rfl
  | cons op ops ih => simp only [List.cons_append, executed, afterAll, ih, List.append_assoc]

/-- The state that a number of single steps lead to, also after faults. -/
def afterSteps (n : Nat) (c : Console δ) : Console δ := c.afterAll (List.replicate n .step)

theorem afterSteps_succ (n : Nat) (c : Console δ) :
    c.afterSteps (n + 1) = (c.afterSteps n).step.state := by
  rw [afterSteps, List.replicate_succ', afterAll_append]
  rfl

theorem afterSteps_add (m n : Nat) (c : Console δ) :
    c.afterSteps (m + n) = (c.afterSteps m).afterSteps n := by
  rw [afterSteps, ← List.replicate_append_replicate, afterAll_append]
  rfl

/-- The words executed by a number of single steps, in order. -/
def stepped (n : Nat) (c : Console δ) : List Word := c.executed (List.replicate n .step)

theorem stepped_succ (n : Nat) (c : Console δ) :
    c.stepped (n + 1) =
      c.stepped n ++ Operation.executedBy .step (c.afterSteps n).step.records := by
  rw [stepped, List.replicate_succ', executed_append]
  simp only [executed, List.append_nil]
  rfl

theorem stepped_add (m n : Nat) (c : Console δ) :
    c.stepped (m + n) = c.stepped m ++ (c.afterSteps m).stepped n := by
  rw [stepped, ← List.replicate_append_replicate, executed_append]
  rfl

end Console

/-! ## Invariants -/

/-- A property of consoles that the pieces of the allowed operations keep. -/
structure Invariant {δ : Type} [Devices δ] (allowed : Operation → Prop)
    (P : Console δ → Prop) : Prop where
  load : ∀ c program, allowed (.load program) → P c →
    P (c.withMachine (c.machine.load program).state)
  execute : ∀ c word, allowed (.execute word) → P c → P (c.execute word).state
  keyDown : ∀ c key, allowed (.keyDown key) → P c →
    P (c.withMachine (c.machine.keyDown key).state)
  step : ∀ c, P c → P c.step.state
  finishBatch : ∀ c, P c → P c.finishBatch

namespace Invariant

variable {δ : Type} [Devices δ] {allowed : Operation → Prop} {P : Console δ → Prop}
variable {c : Console δ}

/-- A loop of steps keeps what a step keeps. -/
theorem steps (inv : Invariant allowed P) (stop : Flow → Bool) (n : Nat) (h : P c) :
    P (Outcome.repeatUntil stop Console.step n (Console.done .proceed c)).state :=
  Outcome.repeatUntil_kept (P := fun o => P o.state) (fun o ho _ => inv.step o.state ho) n h

theorem cycle (inv : Invariant allowed P) (h : P c) : P c.cycle.state := by
  have hSteps := inv.steps (fun _ => false) c.machine.conf.speed h
  unfold Console.cycle
  dsimp only
  split
  · exact inv.finishBatch _ hSteps
  · exact hSteps

theorem apply (inv : Invariant allowed P) {op : Operation} (hOp : allowed op) (h : P c) :
    P (c.apply op).state := by
  cases op with
  | load program => exact inv.load c program hOp h
  | execute word => exact inv.execute c word hOp h
  | step => exact inv.step c h
  | runSteps count => exact inv.steps _ count h
  | cycle => exact inv.cycle h
  | keyDown key => exact inv.keyDown c key hOp h

/-- **Invariants hold along runs.** -/
theorem afterAll (inv : Invariant allowed P) {ops : List Operation}
    (hOps : ∀ op ∈ ops, allowed op) (h : P c) : P (c.afterAll ops) := by
  induction ops generalizing c with
  | nil => exact h
  | cons op ops ih =>
      have hOp : allowed op := hOps op (by simp)
      exact ih (fun next hNext => hOps next (by simp [hNext])) (inv.apply hOp h)

end Invariant

/-- What no operation of the devices breaks, no operation of a host breaks. -/
theorem Devices.Kept.invariant {δ : Type} [Devices δ] {P : δ → Prop} (hKept : Devices.Kept P) :
    Invariant (fun _ => True) (fun c : Console δ => P c.devices) where
  load _ _ _ h := h
  execute _ word _ h := hKept.byWords.execute word h
  keyDown _ _ _ h := h
  step c h :=
    Console.step_kept (P := fun c => P c.devices) (fun _ word hd => hKept.byWords.execute word hd)
      (fun _ _ hd => hd) c h
  finishBatch c h := by
    rcases c.finishBatch_devices with hOn | hOff
    · rw [hOn]
      exact hKept.toneOn _ _ h
    · rw [hOff]
      exact hKept.toneOff _ h

end Chip8
