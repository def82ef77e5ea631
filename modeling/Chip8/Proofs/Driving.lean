import Chip8.Proofs.Wakeup

/-!
# Three ways to run a program

Single steps, a counted run and a batch differ in when they stop: single steps
never do, a counted run stops at a fault or at a wait, and a batch at a fault
alone. Still they are one machine. A step that ends in a fault or in a wait
leaves a state in which the next step has the same end and does nothing
(`Console.step_repeats`), so the steps that a loop leaves out would have changed
nothing (`Console.steps_eq_everyStep`).

## Main results

* `Console.runSteps_state`, `Console.runSteps_succ_result` — a counted run in
  terms of single steps.
* `Console.batch_eq_runSteps` — the steps of a batch are a counted run.
* `Console.cycle_waiting` — a batch in a wait.
* `driving_modes_agree` — all three, with what a batch does after its steps.
-/

namespace Chip8

variable {δ : Type} [Devices δ]

/-- Only `Fx0A` answers that the machine now waits. -/
theorem Instr.eq_awaitKey {instr : Instr} {c : Console δ}
    (h : (instr.perform c).result = .ok .keyWait) : ∃ x, instr = .awaitKey x := by
  have hTransfer (f : Cpu → Except Fault Cpu) : (c.transfer f).result ≠ .ok .keyWait := by
    unfold Console.transfer
    split <;> simp [Console.done, Console.fail]
  cases instr
  case awaitKey x => exact ⟨x, rfl⟩
  case ret => exact absurd h (hTransfer _)
  case call => exact absurd h (hTransfer _)
  all_goals cases h

namespace Console

private theorem execute_keyWait {word : Word} {c : Console δ}
    (h : (c.execute word).result = .ok .keyWait) :
    (c.execute word).state.machine.isWaiting = true := by
  cases hWord : Instr.ofWord? word with
  | none =>
      rw [execute_of_none hWord] at h
      cases h
  | some instr =>
      rw [execute_of_instr hWord] at h ⊢
      obtain ⟨x, rfl⟩ := Instr.eq_awaitKey h
      rfl

theorem step_keyWait {c : Console δ} (hTrap : c.machine.trap = none)
    (hProgram : c.machine.hasProgram = true) (hWaiting : c.machine.isWaiting = true) :
    c.step = done .keyWait c := by
  simp [step, hTrap, hProgram, hWaiting]

/-! ## Steps that repeat themselves -/

/-- An outcome that the next step comes to again, without doing anything. -/
def Repeats (o : Outcome (Console δ) Flow) : Prop :=
  o.state.step = { result := o.result, state := o.state }

/-- A step that ends in a fault or in a wait repeats itself. -/
theorem step_repeats {c : Console δ} (h : c.step.goesOn (· == .keyWait) = false) :
    Repeats c.step := by
  rcases c.step_cases with ⟨e, _, hStep⟩ | ⟨_, _, hStep⟩ | ⟨_, _, _, hStep⟩ |
    ⟨hTrap, hProgram, _, hStep⟩
  · rw [Repeats, hStep]
    exact hStep
  · rw [Repeats, hStep]
    exact hStep
  · rw [Repeats, hStep]
    exact hStep
  · cases hResult : (c.execute c.nextWord).result with
    | error fault =>
        rw [Repeats, hStep, fetchExecute_of_error hResult]
        exact step_trapped rfl
    | ok flow =>
        rw [fetchExecute_of_ok hResult] at hStep
        rw [hStep, Outcome.goesOn] at h
        simp only [Outcome.after, hResult, Bool.not_eq_false', beq_iff_eq] at h
        subst h
        have hSame := c.execute_sameHost c.nextWord
        rw [Repeats, hStep]
        show (c.execute c.nextWord).state.step = _
        rw [step_keyWait (hSame.trap.trans hTrap) (hSame.hasProgram.trans hProgram)
          (execute_keyWait hResult)]
        simp only [done, Outcome.after, hResult]

/-- An outcome that a loop of steps goes on from, or that the next step comes to again. -/
def Settled (o : Outcome (Console δ) Flow) : Prop :=
  o.goesOn (· == .keyWait) = false → Repeats o

theorem settled_done (c : Console δ) : Settled (done .proceed c) := fun h => nomatch h

theorem settled_step_after (c : Console δ) (records : Array Record) :
    Settled (c.step.after records) :=
  step_repeats

/-! ## Loops that leave no step out -/

/-- Take a number of steps whatever they come to. The answer is that of the last one. -/
def everyStep : Nat → Outcome (Console δ) Flow → Outcome (Console δ) Flow
  | 0, o => o
  | n + 1, o => everyStep n (o.state.step.after o.records)

private theorem everyStep_of_repeats {o : Outcome (Console δ) Flow} (h : Repeats o) (n : Nat) :
    everyStep n o = o := by
  induction n with
  | zero => rfl
  | succ n ih =>
      have hSame : o.state.step.after o.records = o := by
        rw [h]
        simp only [Outcome.after, Array.append_empty]
      rw [everyStep, hSame, ih]

/-- **A loop of steps that stops early leaves nothing out**, if no answer but that of a wait makes
it stop. -/
theorem steps_eq_everyStep {stop : Flow → Bool}
    (hStop : ∀ flow, stop flow = true → flow = .keyWait) (n : Nat)
    {o : Outcome (Console δ) Flow} (h : Settled o) :
    Outcome.repeatUntil stop step n o = everyStep n o := by
  induction n generalizing o with
  | zero => rfl
  | succ n ih =>
      cases hOn : o.goesOn stop with
      | true =>
          rw [Outcome.repeatUntil_of_goesOn hOn, everyStep]
          exact ih (settled_step_after o.state o.records)
      | false =>
          have hOff : o.goesOn (· == .keyWait) = false := by
            unfold Outcome.goesOn at hOn ⊢
            cases hResult : o.result with
            | error e => rfl
            | ok flow =>
                have hFlow : flow = .keyWait := hStop flow (by simpa [hResult] using hOn)
                rw [hFlow]
                rfl
          rw [Outcome.repeatUntil_of_stopped hOn, everyStep_of_repeats (h hOff)]

private theorem everyStep_state (n : Nat) (o : Outcome (Console δ) Flow) :
    (everyStep n o).state = o.state.afterSteps n := by
  induction n generalizing o with
  | zero => rfl
  | succ n ih => exact ih (o.state.step.after o.records)

private theorem everyStep_result (n : Nat) (o : Outcome (Console δ) Flow) :
    (everyStep (n + 1) o).result = (o.state.afterSteps n).step.result := by
  induction n generalizing o with
  | zero => rfl
  | succ n ih => exact ih (o.state.step.after o.records)

private theorem everyStep_fetched (n : Nat) (o : Outcome (Console δ) Flow) :
    fetchedIn (everyStep n o).records = fetchedIn o.records ++ o.state.stepped n := by
  induction n generalizing o with
  | zero => exact (List.append_nil _).symm
  | succ n ih =>
      rw [everyStep, ih]
      show fetchedIn (o.records ++ o.state.step.records) ++ _ = _
      rw [fetchedIn_append, List.append_assoc]
      rfl

/-! ## Counted runs and batches -/

theorem runSteps_eq_everyStep (n : Nat) (c : Console δ) :
    c.runSteps n = everyStep n (done .proceed c) :=
  steps_eq_everyStep (fun _ => eq_of_beq) n (settled_done c)

theorem runSteps_state (n : Nat) (c : Console δ) : (c.runSteps n).state = c.afterSteps n := by
  rw [runSteps_eq_everyStep]
  exact everyStep_state n (done .proceed c)

/-- The answer of a counted run is that of its last single step. -/
theorem runSteps_succ_result (n : Nat) (c : Console δ) :
    (c.runSteps (n + 1)).result = (c.afterSteps n).step.result := by
  rw [runSteps_eq_everyStep]
  exact everyStep_result n (done .proceed c)

theorem runSteps_fetched (n : Nat) (c : Console δ) :
    fetchedIn (c.runSteps n).records = c.stepped n := by
  rw [runSteps_eq_everyStep]
  exact everyStep_fetched n (done .proceed c)

/-- A run whose first step fails or finds the machine waiting is that step. -/
theorem runSteps_of_stopped {c : Console δ}
    (h : ∀ flow, c.step.result = .ok flow → flow = .keyWait) {n : Nat} (hn : 0 < n) :
    c.runSteps n = c.step := by
  obtain ⟨n, rfl⟩ : ∃ k, n = k + 1 := ⟨n - 1, by omega⟩
  have hOff : c.step.goesOn (· == .keyWait) = false := by
    unfold Outcome.goesOn
    cases hResult : c.step.result with
    | error e => rfl
    | ok flow =>
        rw [h flow hResult]
        rfl
  have hFirst : (done .proceed c).state.step.after (done .proceed c).records = c.step := by
    show c.step.after #[] = c.step
    rw [Outcome.after, Array.empty_append]
  rw [runSteps_eq_everyStep, everyStep, hFirst]
  exact everyStep_of_repeats (step_repeats hOff) n

/-- A run whose first step comes back to where it was comes back there as often as it is told. -/
theorem runSteps_of_kept {c : Console δ} (h : c.step.state = c) {n : Nat} (hn : 0 < n) :
    (c.runSteps n).state = c ∧ (c.runSteps n).result = c.step.result := by
  have hKept (k : Nat) : c.afterSteps k = c := by
    induction k with
    | zero => rfl
    | succ k ih => rw [afterSteps_succ, ih, h]
  obtain ⟨n, rfl⟩ : ∃ k, n = k + 1 := ⟨n - 1, by omega⟩
  constructor
  · rw [runSteps_state, hKept]
  · rw [runSteps_succ_result, hKept]

theorem stepped_cons (n : Nat) (c : Console δ) :
    c.stepped (n + 1) = fetchedIn c.step.records ++ c.step.state.stepped n := rfl

theorem stepped_of_stopped {c : Console δ}
    (h : ∀ flow, c.step.result = .ok flow → flow = .keyWait) {n : Nat} (hn : 0 < n) :
    c.stepped n = fetchedIn c.step.records := by
  rw [← runSteps_fetched, runSteps_of_stopped h hn]

/-- A counted run and then another are one run of all their steps, unless the second has none. -/
theorem runSteps_runSteps {a b : Nat} (hb : 0 < b) (c : Console δ) :
    ((c.runSteps a).state.runSteps b).state = (c.runSteps (a + b)).state ∧
      ((c.runSteps a).state.runSteps b).result = (c.runSteps (a + b)).result := by
  obtain ⟨b, rfl⟩ : ∃ k, b = k + 1 := ⟨b - 1, by omega⟩
  constructor
  · rw [runSteps_state, runSteps_state, runSteps_state]
    exact (afterSteps_add a (b + 1) c).symm
  · rw [runSteps_succ_result, ← Nat.add_assoc, runSteps_succ_result, runSteps_state,
      afterSteps_add]

/-- The steps of a batch are a counted run at the configured speed. -/
theorem batch_eq_runSteps (c : Console δ) : c.batch = c.runSteps c.machine.conf.speed := by
  have hNever : ∀ flow, (fun _ : Flow => false) flow = true → flow = .keyWait :=
    fun _ h => absurd h Bool.false_ne_true
  rw [runSteps_eq_everyStep]
  exact steps_eq_everyStep hNever _ (settled_done c)

theorem cycle_of_error {c : Console δ} {e : Fault}
    (h : (c.runSteps c.machine.conf.speed).result = .error e) :
    c.cycle.result = .error e ∧ c.cycle.state = (c.runSteps c.machine.conf.speed).state := by
  rw [← batch_eq_runSteps] at h ⊢
  rcases c.cycle_cases with ⟨flow, hOk, _⟩ | ⟨fault, hError, hCycle⟩
  · cases hOk.symm.trans h
  · cases hError.symm.trans h
    rw [hCycle]
    exact ⟨rfl, rfl⟩

theorem cycle_of_ok {c : Console δ} {flow : Flow}
    (h : (c.runSteps c.machine.conf.speed).result = .ok flow) :
    c.cycle.result = .ok () ∧
      c.cycle.state = (c.runSteps c.machine.conf.speed).state.finishBatch := by
  rw [← batch_eq_runSteps] at h ⊢
  rcases c.cycle_cases with ⟨_, _, hCycle⟩ | ⟨fault, hError, _⟩
  · rw [hCycle]
    exact ⟨rfl, rfl⟩
  · cases hError.symm.trans h

/-- A batch of one step. -/
theorem cycle_of_speed_one {c : Console δ} (hSpeed : c.machine.conf.speed = 1) :
    (∀ flow, c.step.result = .ok flow →
      c.cycle.result = .ok () ∧ c.cycle.state = c.step.state.finishBatch) ∧
    ∀ e, c.step.result = .error e → c.cycle.result = .error e := by
  have hState : (c.runSteps c.machine.conf.speed).state = c.step.state := by
    rw [hSpeed, runSteps_state]
    rfl
  have hResult : (c.runSteps c.machine.conf.speed).result = c.step.result := by
    rw [hSpeed]
    exact runSteps_succ_result 0 c
  constructor
  · intro flow hOk
    obtain ⟨hEnd, hLeft⟩ := cycle_of_ok (hResult.trans hOk)
    exact ⟨hEnd, hLeft.trans (congrArg finishBatch hState)⟩
  · intro e hError
    exact (cycle_of_error (hResult.trans hError)).1

theorem cycle_fetched_of_speed_one {c : Console δ} (hSpeed : c.machine.conf.speed = 1) :
    fetchedIn c.cycle.records = fetchedIn c.step.records := by
  rw [cycle_records, batch_eq_runSteps, runSteps_fetched, hSpeed]
  exact List.append_nil _

/-- A batch in a wait ends well and moves nothing but the buzzer. -/
theorem cycle_waiting {c : Console δ} (hTrap : c.machine.trap = none)
    (hProgram : c.machine.hasProgram = true) (hWaiting : c.machine.isWaiting = true) :
    c.cycle.result = .ok () ∧ c.Paused c.cycle.state := by
  have hStep : c.step = done .keyWait c := step_keyWait hTrap hProgram hWaiting
  obtain ⟨hState, flow, hFlow⟩ : c.batch.state = c ∧ ∃ flow, c.batch.result = .ok flow := by
    refine Outcome.repeatUntil_kept (P := fun o : Outcome (Console δ) Flow =>
      o.state = c ∧ ∃ flow, o.result = .ok flow) ?_ _ ⟨rfl, _, rfl⟩
    rintro o ⟨hSame, -⟩ -
    rw [hSame, hStep]
    exact ⟨rfl, _, rfl⟩
  rcases c.cycle_cases with ⟨_, _, hCycle⟩ | ⟨e, hError, _⟩
  · rw [hCycle, hState]
    exact ⟨rfl, paused_finishBatch hWaiting⟩
  · cases hFlow.symm.trans hError

/-- What the settings of a machine say, and whether it has a program, is changed by loads alone. -/
theorem host_kept {P : Conf → Bool → Prop} (hLoad : ∀ conf had, P conf had → P conf true) :
    Invariant (δ := δ) (fun _ => True) fun c => P c.machine.conf c.machine.hasProgram where
  load c program _ h := by
    show P (c.machine.load program).state.conf (c.machine.load program).state.hasProgram
    unfold Machine.load
    split
    · exact hLoad _ _ h
    · exact h
  execute c word _ h := by
    have hSame := c.execute_sameHost word
    rwa [hSame.conf, hSame.hasProgram]
  keyDown c key _ h := by
    show P (c.machine.keyDown key).state.conf (c.machine.keyDown key).state.hasProgram
    unfold Machine.keyDown
    split <;> exact h
  step c h := by
    refine step_kept (P := fun c : Console δ => P c.machine.conf c.machine.hasProgram)
      (fun c word h => ?_) (fun _ _ h => h) c h
    have hSame := c.execute_sameHost word
    rwa [hSame.conf, hSame.hasProgram]
  finishBatch c h := by
    rcases c.finishBatch_machine with hSame | hTick
    · rw [hSame]
      exact h
    · rw [hTick]
      exact h

/-- Nothing that a host does changes the configuration. -/
theorem conf_kept (conf : Conf) :
    Invariant (δ := δ) (fun _ => True) (fun c => c.machine.conf = conf) :=
  host_kept (P := fun c _ => c = conf) fun _ _ h => h

/-- Nothing that a host does takes a program away. -/
theorem hasProgram_kept :
    Invariant (δ := δ) (fun _ => True) (fun c => c.machine.hasProgram = true) :=
  host_kept (P := fun _ has => has = true) fun _ _ _ => rfl

private theorem afterSteps_conf (n : Nat) (c : Console δ) :
    (c.afterSteps n).machine.conf = c.machine.conf :=
  (conf_kept c.machine.conf).afterAll (fun _ _ => trivial) rfl

theorem runSteps_conf (n : Nat) (c : Console δ) :
    (c.runSteps n).state.machine.conf = c.machine.conf := by
  rw [runSteps_state]
  exact afterSteps_conf n c

end Console

/-! ## The end of a batch -/

/-- What is left of a machine at the end of a batch: its timers count down unless it waits. -/
def Machine.afterBatch (m : Machine) : Machine :=
  if m.isWaiting then m else { m with cpu := m.cpu.tick }

theorem Console.finishBatch_eq (c : Console δ) :
    c.finishBatch =
      { machine := c.machine.afterBatch
        devices :=
          if 0 < c.machine.afterBatch.cpu.sound then
            Devices.toneOn c.machine.conf.tone c.devices
          else Devices.toneOff c.devices } := by
  have hTone (d : Console δ) : d.updateTone =
      { machine := d.machine
        devices :=
          if 0 < d.machine.cpu.sound then Devices.toneOn d.machine.conf.tone d.devices
          else Devices.toneOff d.devices } := by
    unfold updateTone
    split <;> rfl
  unfold finishBatch Machine.afterBatch
  rw [hTone]
  cases c.machine.isWaiting <;> rfl

/-! ## All three -/

/-- **The three ways to run a program agree.**  A counted run ends where as many single steps end,
although it stops early. Two runs one after the other end as one run of all their steps does. A
batch ends as a counted run at its speed if that fails; otherwise the timers count down once,
unless the machine now waits, and then the buzzer is set: with a single call, the last one of the
batch, which sounds it at the configured pitch just when the sound timer still runs. -/
theorem driving_modes_agree (c : Console (Recorded δ)) :
    let ran := c.runSteps c.machine.conf.speed
    (∀ n, (c.runSteps n).state = c.afterSteps n) ∧
    (∀ a b, 0 < b →
      ((c.runSteps a).state.runSteps b).state = (c.runSteps (a + b)).state ∧
        ((c.runSteps a).state.runSteps b).result = (c.runSteps (a + b)).result) ∧
    (∀ e, ran.result = .error e → c.cycle.result = .error e ∧ c.cycle.state = ran.state) ∧
    ∀ flow, ran.result = .ok flow →
      c.cycle.result = .ok () ∧
      c.cycle.state.machine =
        (if ran.state.machine.isWaiting then ran.state.machine
          else { ran.state.machine with cpu := ran.state.machine.cpu.tick }) ∧
      c.cycle.state.devices =
        (if 0 < c.cycle.state.machine.cpu.sound then
          { devices := Devices.toneOn c.machine.conf.tone ran.state.devices.devices
            calls := ran.state.devices.calls.push (.toneOn c.machine.conf.tone) }
        else
          { devices := Devices.toneOff ran.state.devices.devices
            calls := ran.state.devices.calls.push .toneOff }) := by
  intro ran
  refine ⟨fun n => c.runSteps_state n, fun a b hb => Console.runSteps_runSteps hb c,
    fun e => Console.cycle_of_error, ?_⟩
  intro flow hOk
  obtain ⟨hResult, hState⟩ := Console.cycle_of_ok hOk
  rw [hState, Console.finishBatch_eq, Console.runSteps_conf]
  exact ⟨hResult, rfl, rfl⟩

/-- A step that executes `Fx0A` begins a wait. -/
theorem Console.step_of_awaited {c : Console δ} {x : Reg} (hTaken : c.step = c.fetchExecute)
    (h : c.nextWord.awaited? = some x) :
    c.step.result = .ok .keyWait ∧
      c.step.state = c.mapCpu fun cpu => { cpu with pc := cpu.pc + 2, wait := some x } := by
  have hResult : (c.execute c.nextWord).result = .ok .keyWait := by
    rw [execute_of_instr (Instr.ofWord?_of_awaited h)]
    rfl
  rw [hTaken, fetchExecute_of_awaited h, fetchExecute_of_ok hResult]
  exact ⟨hResult, rfl⟩

/-- A step that meets a word that is no instruction. -/
theorem Console.step_of_unknown {c : Console δ} (hTaken : c.step = c.fetchExecute)
    (hWord : Instr.ofWord? c.nextWord = none) :
    c.step.result = .error (.unknownOpcode c.nextWord c.machine.cpu.pc) ∧
      fetchedIn c.step.records = [c.nextWord] := by
  have hError : (c.execute c.nextWord).result =
      .error (.unknownOpcode c.nextWord c.machine.cpu.pc) := by
    rw [execute_of_none hWord]
    rfl
  exact ⟨by rw [hTaken, fetchExecute_of_error hError], by rw [hTaken, fetchExecute_fetched]⟩

/-- Programs that wait at their first word, fail there and jump back to it, in batches of four steps
with both timers running. -/
theorem driving_modes_agree_at_first_word :
    let start (program : List UInt8) (sound : UInt8) : Console (Recorded Headless) :=
      ⟨{ Machine.new { speed := 4 } (.cycling [0]) with
          cpu := { Cpu.loaded program with delay := 5, sound := sound }, hasProgram := true },
        { devices := {} }⟩
    let waits := start [0xF3, 0x0A] 2
    let fails := start [0x00, 0x00] 2
    let jumps := start [0x12, 0x00] 1
    0 < 3 ∧ ((waits.runSteps 1).state.runSteps 3).result = (waits.runSteps (1 + 3)).result ∧
    (waits.runSteps 4).result = .ok .keyWait ∧ waits.cycle.result = .ok () ∧
    waits.cycle.state.machine.cpu.delay = 5 ∧ waits.cycle.state.machine.cpu.sound = 2 ∧
    waits.cycle.state.devices.calls = #[.toneOn 440] ∧
    (fails.runSteps 4).result = .error (.unknownOpcode 0 0x200) ∧
    fails.cycle.result = .error (.unknownOpcode 0 0x200) ∧
    fails.cycle.state = fails.step.state ∧
    (jumps.runSteps 4).result = .ok .jump ∧ jumps.cycle.result = .ok () ∧
    jumps.cycle.state.machine.cpu.delay = 4 ∧ jumps.cycle.state.machine.cpu.sound = 0 ∧
    jumps.cycle.state.devices.calls = #[.toneOff] := by
  intro start waits fails jumps
  have hWord : waits.nextWord.awaited? = some 3 := by
    have hBytes : waits.nextWord = Word.ofBytes 0xF3 0x0A := Memory.fetch_ofProgram 0xF3 0x0A []
    rw [hBytes]
    rfl
  obtain ⟨hWait, hState⟩ := Console.step_of_awaited (Console.step_taken rfl rfl rfl) hWord
  have hZero : fails.nextWord = 0 := Memory.fetch_ofProgram 0x00 0x00 []
  have hFail : fails.step.result = .error (.unknownOpcode 0 0x200) := by
    have hUnknown : Instr.ofWord? fails.nextWord = none := by
      rw [hZero]
      rfl
    rw [(Console.step_of_unknown (Console.step_taken rfl rfl rfl) hUnknown).1, hZero]
    rfl
  have hJump : Instr.ofWord? jumps.nextWord = some (.jump 0x200) := by
    have hBytes : jumps.nextWord = 0x1200 := Memory.fetch_ofProgram 0x12 0x00 []
    rw [hBytes]
    rfl
  obtain ⟨hBack, hThere⟩ :=
    Console.step_of_update (Console.step_taken rfl rfl rfl) hJump fun _ => rfl
  have hWaited : waits.runSteps 4 = waits.step :=
    Console.runSteps_of_stopped (fun flow h => by cases hWait.symm.trans h; rfl) (by decide)
  have hFailed : fails.runSteps 4 = fails.step :=
    Console.runSteps_of_stopped (fun flow h => by cases hFail.symm.trans h) (by decide)
  obtain ⟨hJumpedTo, hJumped⟩ : (jumps.runSteps 4).state = jumps ∧
      (jumps.runSteps 4).result = jumps.step.result :=
    Console.runSteps_of_kept hThere (by decide)
  have hRan : (waits.runSteps 4).result = .ok .keyWait := by rw [hWaited, hWait]
  have hRanTo : (waits.runSteps 4).state =
      waits.mapCpu fun cpu => { cpu with pc := cpu.pc + 2, wait := some 3 } := by
    rw [hWaited, hState]
  have hFailedIn : (fails.runSteps 4).result = .error (.unknownOpcode 0 0x200) := by
    rw [hFailed, hFail]
  have hJumpedIn : (jumps.runSteps 4).result = .ok .jump := hJumped.trans hBack
  obtain ⟨-, hParts, -, hOk⟩ := driving_modes_agree waits
  obtain ⟨hResult, hMachine, hDevices⟩ := hOk _ hRan
  obtain ⟨-, -, hError, -⟩ := driving_modes_agree fails
  obtain ⟨hRefused, hLeft⟩ := hError _ hFailedIn
  obtain ⟨-, -, -, hGoesOn⟩ := driving_modes_agree jumps
  obtain ⟨hEnded, hTicked, hSilenced⟩ := hGoesOn _ hJumpedIn
  have hSpeed : waits.machine.conf.speed = 4 := rfl
  have hPace : jumps.machine.conf.speed = 4 := rfl
  have hDelay : waits.cycle.state.machine.cpu.delay = 5 := by
    rw [hMachine, hSpeed, hRanTo]
    rfl
  have hSound : waits.cycle.state.machine.cpu.sound = 2 := by
    rw [hMachine, hSpeed, hRanTo]
    rfl
  have hCalls : waits.cycle.state.devices.calls = #[.toneOn 440] := by
    rw [hDevices, hSound, hSpeed, hRanTo]
    rfl
  have hCpu : jumps.cycle.state.machine.cpu = jumps.machine.cpu.tick := by
    rw [hTicked, hPace, hJumpedTo]
    rfl
  have hDelayLeft : jumps.cycle.state.machine.cpu.delay = 4 := by
    rw [hCpu]
    show Cpu.countDown 5 = 4
    decide
  have hSoundLeft : jumps.cycle.state.machine.cpu.sound = 0 := by
    rw [hCpu]
    show Cpu.countDown 1 = 0
    decide
  have hQuiet : jumps.cycle.state.devices.calls = #[.toneOff] := by
    rw [hSilenced, hSoundLeft, hPace, hJumpedTo]
    rfl
  exact ⟨by decide, (hParts 1 3 (by decide)).2, hRan, hResult, hDelay, hSound, hCalls, hFailedIn,
    hRefused, hLeft.trans (congrArg Outcome.state hFailed), hJumpedIn, hEnded, hDelayLeft,
    hSoundLeft, hQuiet⟩

end Chip8
