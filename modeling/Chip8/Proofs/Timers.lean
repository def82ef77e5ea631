import Chip8.Proofs.Driving
import Chip8.Proofs.Effects

/-!
# Timers over runs

The timers count down together, once at the end of every batch that ends well in
a machine that does not wait. Words set them, each with a word of its own, and
nothing else reaches them, so over a run a timer has lost as much as there were
such batches, unless a word has set it on the way.

With the timers the end of a batch sets the buzzer, by what the sound timer has
come to. A batch that fails has no such end: it leaves what its steps left.

## Main results

* `Console.timer_cycle` — a timer over one batch.
* `Console.timer_afterAll` — a timer over a run.
* `Console.toneCalls_cycle` — the one call to the buzzer.
* `timers_count_batches` — runs of batches and keys.
-/

namespace Chip8

/-- The two timers. -/
inductive Timer where
  | delay
  | sound
  deriving DecidableEq, Repr

namespace Timer

/-- What a timer stands at. -/
def value : Timer → Cpu → UInt8
  | .delay, c => c.delay
  | .sound, c => c.sound

/-- The instruction that sets a timer from a register. -/
def setFrom : Timer → Reg → Instr
  | .delay, x => .setDelay x
  | .sound, x => .setSound x

/-- The low byte of the words that set a timer, which are `Fx15` and `Fx18`. -/
def code : Timer → Nat
  | .delay => 0x15
  | .sound => 0x18

/-- Whether a word sets a timer. -/
def SetBy (t : Timer) (w : Word) : Prop := w.family.val = 0xF ∧ w.kk.toNat = t.code

private theorem setBy_of_word {t : Timer} {w : Word} {x : Reg}
    (h : Instr.ofWord? w = some (t.setFrom x)) : t.SetBy w := by
  have hCode := Instr.code_of_word h
  have hByte := w.toNat_kk
  have hx := x.isLt
  cases t <;> simp only [setFrom, Instr.code] at hCode
  all_goals
    constructor
    · simp only [Word.family]
      omega
    · simp only [code]
      omega

theorem toNat_countDown (n : UInt8) : (Cpu.countDown n).toNat = n.toNat - 1 := by
  unfold Cpu.countDown
  by_cases hn : n = 0
  · rw [if_pos hn, hn]
    rfl
  · have hPos : n.toNat ≠ 0 := fun hZero => hn (UInt8.toNat_inj.1 hZero)
    have hLess := n.toNat_lt
    rw [if_neg hn, UInt8.toNat_sub]
    show (256 - 1 + n.toNat) % 256 = n.toNat - 1
    omega

/-- Counting down stops at zero. -/
theorem toNat_tick (t : Timer) (c : Cpu) : (t.value c.tick).toNat = (t.value c).toNat - 1 := by
  cases t <;> exact toNat_countDown _

end Timer

/-! ## Words -/

private theorem Instr.Moves.timer_eq (t : Timer) {instr : Instr} {flow : Flow} {c next : Cpu}
    (h : instr.Moves c flow next) : t.value next = t.value c ∨ ∃ x, instr = t.setFrom x := by
  cases t with
  | delay =>
      rcases h.delay_eq with hSame | ⟨-, hSet⟩
      · exact Or.inl hSame
      · exact Or.inr hSet
  | sound =>
      rcases h.sound_eq with hSame | ⟨-, hSet⟩
      · exact Or.inl hSame
      · exact Or.inr hSet

namespace Console

variable {δ : Type} [Devices δ]

/-- A word that does not set a timer leaves it alone. -/
theorem timer_execute {t : Timer} {word : Word} (h : ¬ t.SetBy word) (c : Console δ) :
    t.value (c.execute word).state.machine.cpu = t.value c.machine.cpu := by
  cases hResult : (c.execute word).result with
  | error fault =>
      rw [(execute_error hResult).1]
      cases t <;> rfl
  | ok flow =>
      obtain ⟨instr, hWord, hMoves⟩ := execute_moves hResult
      rcases hMoves.timer_eq t with hSame | ⟨x, rfl⟩
      · rw [hSame]
        cases t <;> rfl
      · exact absurd (Timer.setBy_of_word hWord) h

/-- So does a step that fetches no such word. -/
theorem timer_step {t : Timer} {c : Console δ}
    (h : ∀ w ∈ fetchedIn c.step.records, ¬ t.SetBy w) :
    t.value c.step.state.machine.cpu = t.value c.machine.cpu := by
  rcases c.step_cases with ⟨_, _, hStep⟩ | ⟨_, _, hStep⟩ | ⟨_, _, _, hStep⟩ | ⟨_, _, _, hStep⟩
  · rw [hStep]
    rfl
  · rw [hStep]
    rfl
  · rw [hStep]
    rfl
  · rw [hStep, fetchExecute_fetched] at h
    have hWord := timer_execute (h c.nextWord (by simp)) c
    rw [hStep]
    cases hResult : (c.execute c.nextWord).result with
    | ok flow =>
        rw [fetchExecute_of_ok hResult]
        exact hWord
    | error fault =>
        rw [fetchExecute_of_error hResult]
        exact hWord

private theorem timer_batch {t : Timer} {c : Console δ}
    (h : ∀ w ∈ fetchedIn c.batch.records, ¬ t.SetBy w) :
    t.value c.batch.state.machine.cpu = t.value c.machine.cpu := by
  refine Outcome.repeatUntil_kept (P := fun o : Outcome (Console δ) Flow =>
    (∀ w ∈ fetchedIn o.records, ¬ t.SetBy w) →
      t.value o.state.machine.cpu = t.value c.machine.cpu) ?_ _ (fun _ => rfl) h
  intro o hSame _ hWords
  have hBoth : ∀ w ∈ fetchedIn o.records ++ fetchedIn o.state.step.records, ¬ t.SetBy w := by
    rw [← fetchedIn_append]
    exact hWords
  have hStep : t.value o.state.step.state.machine.cpu = t.value o.state.machine.cpu :=
    timer_step fun w hMem => hBoth w (List.mem_append_right _ hMem)
  exact hStep.trans (hSame fun w hMem => hBoth w (List.mem_append_left _ hMem))

/-! ## Batches -/

private theorem isWaiting_afterBatch (m : Machine) : m.afterBatch.isWaiting = m.isWaiting := by
  unfold Machine.afterBatch
  split <;> rfl

/-- **A timer over one batch** that does not set it: it counts down if the batch ends well and the
machine does not wait then. -/
theorem timer_cycle {t : Timer} {c : Console δ}
    (h : ∀ w ∈ fetchedIn c.cycle.records, ¬ t.SetBy w) :
    (t.value c.cycle.state.machine.cpu).toNat =
      (t.value c.machine.cpu).toNat -
        if c.cycle.result.isOk && !c.cycle.state.machine.isWaiting then 1 else 0 := by
  rw [cycle_records] at h
  have hBatch := timer_batch h
  rcases c.cycle_cases with ⟨flow, _, hCycle⟩ | ⟨e, _, hCycle⟩
  · rw [hCycle, finishBatch_eq]
    show (t.value c.batch.state.machine.afterBatch.cpu).toNat =
      _ - if !c.batch.state.machine.afterBatch.isWaiting then 1 else 0
    rw [isWaiting_afterBatch, ← hBatch, Machine.afterBatch]
    cases c.batch.state.machine.isWaiting with
    | true => rfl
    | false => exact t.toNat_tick c.batch.state.machine.cpu
  · rw [hCycle]
    exact congrArg UInt8.toNat hBatch

end Console

/-- Whether an operation is a batch or a key. -/
def Operation.plays : Operation → Bool
  | .cycle => true
  | .keyDown _ => true
  | _ => false

/-- Whether an operation was a batch that ended well in a machine that does not wait then. -/
def Operation.countsDown {δ : Type} (op : Operation) (o : Outcome (Console δ) Answer) : Bool :=
  op == .cycle && o.result.isOk && !o.state.machine.isWaiting

namespace Console

variable {δ : Type} [Devices δ]

private theorem countsDown_cycle (c : Console δ) : Operation.countsDown .cycle (c.apply .cycle) =
    (c.cycle.result.isOk && !c.cycle.state.machine.isWaiting) := by
  simp only [Operation.countsDown, apply, Outcome.map, BEq.rfl, Bool.true_and]
  cases c.cycle.result <;> rfl

/-- A batch of one step that ends well. -/
theorem countsDown_of_speed_one {c : Console δ} {flow : Flow} (hSpeed : c.machine.conf.speed = 1)
    (hStep : c.step.result = .ok flow) :
    Operation.countsDown .cycle (c.apply .cycle) = !c.step.state.machine.isWaiting := by
  obtain ⟨hOk, hLeft⟩ := (cycle_of_speed_one hSpeed).1 flow hStep
  rw [countsDown_cycle, hOk, hLeft, finishBatch_eq]
  show (true && !c.step.state.machine.afterBatch.isWaiting) = _
  rw [isWaiting_afterBatch, Bool.true_and]

private theorem timer_apply {t : Timer} {op : Operation} (hPlays : op.plays = true) {c : Console δ}
    (h : ∀ w ∈ op.executedBy (c.apply op).records, ¬ t.SetBy w) :
    (t.value (c.apply op).state.machine.cpu).toNat =
      (t.value c.machine.cpu).toNat - if op.countsDown (c.apply op) then 1 else 0 := by
  cases op with
  | load program => cases hPlays
  | execute word => cases hPlays
  | step => cases hPlays
  | runSteps count => cases hPlays
  | keyDown key =>
      show (t.value (c.machine.keyDown key).state.cpu).toNat = _
      unfold Machine.keyDown
      cases t <;> split <;> rfl
  | cycle =>
      rw [countsDown_cycle]
      exact timer_cycle h

/-- **A timer over a run** that does not set it: it has lost as much as there were batches that
count down, but not more than it had. -/
theorem timer_afterAll {t : Timer} {ops : List Operation} (hPlays : ∀ op ∈ ops, op.plays = true)
    {c : Console δ} (h : ∀ w ∈ c.executed ops, ¬ t.SetBy w) :
    (t.value (c.afterAll ops).machine.cpu).toNat =
      (t.value c.machine.cpu).toNat -
        (ops.zip (c.applyAll ops)).countP fun (op, o) => op.countsDown o := by
  induction ops generalizing c with
  | nil => rfl
  | cons op ops ih =>
      have hFirst := timer_apply (t := t) (hPlays op (by simp)) (c := c)
        fun w hMem => h w (List.mem_append_left _ hMem)
      have hRest := ih (fun next hNext => hPlays next (by simp [hNext]))
        (c := (c.apply op).state) fun w hMem => h w (List.mem_append_right _ hMem)
      rw [afterAll, hRest, hFirst, applyAll, List.zip_cons_cons, List.countP_cons, Nat.sub_sub,
        Nat.add_comm]

end Console

/-! ## The buzzer -/

/-- Whether a call sets the buzzer. -/
def Call.setsBuzzer : Call → Bool
  | .toneOn _ => true
  | .toneOff => true
  | _ => false

/-- The calls that set the buzzer, oldest first. -/
def Recorded.toneCalls {δ : Type} (r : Recorded δ) : List Call :=
  r.calls.toList.filter Call.setsBuzzer

variable {δ : Type} [Devices δ]

/-- No word sets the buzzer. -/
theorem Recorded.toneCalls_keptByWords (tones : List Call) :
    Devices.KeptByWords fun r : Recorded δ => r.toneCalls = tones := by
  have hPush (r : Recorded δ) {call : Call} (hOther : call.setsBuzzer = false) :
      (r.calls.push call).toList.filter Call.setsBuzzer = r.toneCalls := by
    rw [Array.toList_push, List.filter_append, List.filter_cons_of_neg (by simp [hOther]),
      List.filter_nil, List.append_nil]
    rfl
  constructor
  · exact fun x y r h => (hPush r rfl).trans h
  · exact fun r h => (hPush r rfl).trans h
  · exact fun key r h => (hPush r rfl).trans h

/-- **The one call to the buzzer**: at the end of a batch that ends well, by what the sound timer
has come to. -/
theorem Console.toneCalls_cycle (c : Console (Recorded δ)) :
    c.cycle.state.devices.toneCalls = c.devices.toneCalls ++
      if c.cycle.result.isOk then
        [if 0 < c.cycle.state.machine.cpu.sound then .toneOn c.machine.conf.tone else .toneOff]
      else [] := by
  have hSteps : c.batch.state.devices.toneCalls = c.devices.toneCalls :=
    (Recorded.toneCalls_keptByWords c.devices.toneCalls).batch rfl
  have hConf : c.batch.state.machine.conf = c.machine.conf := by
    rw [batch_eq_runSteps, runSteps_conf]
  have hPush (call : Call) (hTone : call.setsBuzzer = true) :
      (c.batch.state.devices.calls.push call).toList.filter Call.setsBuzzer =
        c.devices.toneCalls ++ [call] := by
    rw [Array.toList_push, List.filter_append, List.filter_cons_of_pos hTone, List.filter_nil,
      ← hSteps]
    rfl
  rcases c.cycle_cases with ⟨flow, _, hCycle⟩ | ⟨e, _, hCycle⟩
  · rw [hCycle, finishBatch_eq, hConf]
    simp only [Except.isOk, Except.toBool, if_true]
    split
    · exact hPush _ rfl
    · exact hPush _ rfl
  · rw [hCycle]
    exact hSteps.trans (List.append_nil _).symm

/-- A batch that fails leaves what its steps left. -/
theorem Console.state_of_failed {c : Console δ} {e : Fault} (h : c.cycle.result = .error e) :
    c.cycle.state = c.afterSteps c.machine.conf.speed := by
  rcases c.cycle_cases with ⟨flow, _, hCycle⟩ | ⟨fault, _, hCycle⟩
  · rw [hCycle] at h
    cases h
  · rw [hCycle, batch_eq_runSteps]
    exact c.runSteps_state c.machine.conf.speed

private theorem Console.timer_of_failed {t : Timer} {c : Console δ} {e : Fault}
    (h : c.cycle.result = .error e) (hWords : ∀ w ∈ fetchedIn c.cycle.records, ¬ t.SetBy w) :
    t.value c.cycle.state.machine.cpu = t.value c.machine.cpu := by
  have hCycle := timer_cycle hWords
  rw [h] at hCycle
  exact UInt8.toNat_inj.1 hCycle

/-! ## Runs of batches and keys -/

/-- **Timers count batches.**  Over any run of batches and keys a timer that no word has set on the
way has lost one for each batch that ended well in a machine that did not wait then, down to zero.
Of the batches of the run, each that ended well has called the buzzer once, to sound it at the
configured pitch if the sound timer then runs and to silence it otherwise; each that failed has not
called it, and left the state that its steps alone lead to, with the timers as they were unless a
word has set them. -/
theorem timers_count_batches (c : Console (Recorded δ)) {ops : List Operation}
    (hPlays : ∀ op ∈ ops, op = .cycle ∨ ∃ key, op = .keyDown key) :
    let count := (ops.zip (c.applyAll ops)).countP fun (op, o) =>
      op == .cycle && o.result.isOk && !o.state.machine.isWaiting
    let now := (c.afterAll ops).machine.cpu
    ((∀ w ∈ c.executed ops, ¬ (w.family.val = 0xF ∧ w.kk.toNat = 0x15)) →
      now.delay.toNat = c.machine.cpu.delay.toNat - count) ∧
    ((∀ w ∈ c.executed ops, ¬ (w.family.val = 0xF ∧ w.kk.toNat = 0x18)) →
      now.sound.toNat = c.machine.cpu.sound.toNat - count) ∧
    ∀ earlier later, ops = earlier ++ .cycle :: later →
      let before := c.afterAll earlier
      let o := before.cycle
      (o.result = .ok () → o.state.devices.toneCalls = before.devices.toneCalls ++
        [if 0 < o.state.machine.cpu.sound then .toneOn c.machine.conf.tone else .toneOff]) ∧
      ∀ e, o.result = .error e →
        o.state.devices.toneCalls = before.devices.toneCalls ∧
        o.state = before.afterSteps c.machine.conf.speed ∧
        ∀ t : Timer, (∀ w ∈ fetchedIn o.records, ¬ t.SetBy w) →
          t.value o.state.machine.cpu = t.value before.machine.cpu := by
  intro count now
  have hAll : ∀ op ∈ ops, op.plays = true := by
    intro op hMem
    rcases hPlays op hMem with rfl | ⟨key, rfl⟩
    · rfl
    · rfl
  refine ⟨fun h => ?_, fun h => ?_, fun earlier later _ => ?_⟩
  · exact Console.timer_afterAll (t := .delay) hAll h
  · exact Console.timer_afterAll (t := .sound) hAll h
  · intro before o
    have hConf : before.machine.conf = c.machine.conf :=
      (Console.conf_kept c.machine.conf).afterAll (fun _ _ => trivial) rfl
    have hTone := before.toneCalls_cycle
    rw [hConf] at hTone
    constructor
    · intro hOk
      rw [hOk] at hTone
      exact hTone
    · intro e hError
      rw [hError] at hTone
      refine ⟨hTone.trans (List.append_nil _), ?_, fun t hWords => ?_⟩
      · rw [← hConf]
        exact Console.state_of_failed hError
      · exact Console.timer_of_failed hError hWords

/-- A machine that waits for `V3` in its first batch and is given a key before the second, in which
it jumps to where it is: only the second batch counts the timers down, and it silences the buzzer.
-/
theorem timers_count_batches_after_wait :
    let start : Console (Recorded Headless) :=
      ⟨{ Machine.new { speed := 1 } (.cycling [0]) with
          cpu := { Cpu.loaded [0x12, 0x00] with wait := some 3, delay := 5, sound := 1 }
          hasProgram := true }, { devices := {} }⟩
    let ops : List Operation := [.cycle, .keyDown 9, .cycle]
    let last := start.afterAll [.cycle, .keyDown 9]
    start.executed ops = [0x1200] ∧
    (start.afterAll ops).machine.cpu.delay.toNat = 5 - 1 ∧
    (start.afterAll ops).machine.cpu.sound.toNat = 1 - 1 ∧
    last.cycle.result = .ok () ∧
    last.cycle.state.devices.toneCalls = last.devices.toneCalls ++ [.toneOff] := by
  intro start ops last
  have hWaits : start.step = Console.done .keyWait start := Console.step_keyWait rfl rfl rfl
  have hWaited : start.cycle.state.machine = start.machine :=
    (Console.cycle_waiting (c := start) rfl rfl rfl).2.machine
  have hLast : last.machine = (start.machine.keyDown 9).state := by
    rw [← hWaited]
    rfl
  have hTaken : last.step = last.fetchExecute :=
    Console.step_taken (by rw [hLast]; rfl) (by rw [hLast]; rfl) (by rw [hLast]; rfl)
  have hWord : last.nextWord = 0x1200 := by
    rw [Console.nextWord, hLast]
    exact Memory.fetch_ofProgram 0x12 0x00 []
  have hJump : Instr.ofWord? last.nextWord = some (.jump 0x200) := by
    rw [hWord]
    rfl
  obtain ⟨hStep, hState⟩ := Console.step_of_update hTaken hJump fun _ => rfl
  have hSpeed : last.machine.conf.speed = 1 := by rw [hLast]; rfl
  obtain ⟨hOk, -⟩ := (Console.cycle_of_speed_one hSpeed).1 .jump hStep
  have hWords : start.executed ops = [0x1200] := by
    have hNone := Console.cycle_fetched_of_speed_one (c := start) rfl
    have hOne := Console.cycle_fetched_of_speed_one hSpeed
    rw [hWaits] at hNone
    rw [hTaken, Console.fetchExecute_fetched, hWord] at hOne
    have hAll (c : Console (Recorded Headless)) : c.executed ops =
        fetchedIn c.cycle.records ++ (fetchedIn (c.cycle.state.machine.keyDown 9).records ++
          fetchedIn (c.afterAll [.cycle, .keyDown 9]).cycle.records) := by
      simp only [ops, Console.executed, List.append_nil]
      rfl
    rw [hAll, hNone, Machine.keyDown_fetched, hOne]
    rfl
  let count := (ops.zip (start.applyAll ops)).countP fun p => p.1.countsDown p.2
  have hCount : count = 1 := by
    have hAll (c : Console (Recorded Headless)) : ops.zip (c.applyAll ops) =
        [(.cycle, c.apply .cycle), (.keyDown 9, c.cycle.state.apply (.keyDown 9)),
          (.cycle, (c.afterAll [.cycle, .keyDown 9]).apply .cycle)] := rfl
    have hFirstCount : Operation.countsDown .cycle (start.apply .cycle) = false := by
      rw [Console.countsDown_of_speed_one rfl (by rw [hWaits]; rfl), hWaits]
      rfl
    have hLastCount : Operation.countsDown .cycle (last.apply .cycle) = true := by
      rw [Console.countsDown_of_speed_one hSpeed hStep, hState]
      show (!last.machine.isWaiting) = true
      rw [hLast]
      rfl
    simp only [count]
    rw [hAll, List.countP_cons_of_neg (by simp [hFirstCount]),
      List.countP_cons_of_neg (by simp [Operation.countsDown]),
      List.countP_cons_of_pos (by exact hLastCount)]
    rfl
  have hPlays : ∀ op ∈ ops, op = .cycle ∨ ∃ key, op = .keyDown key := by simp [ops]
  obtain ⟨hDelay, hSound, hCycles⟩ := timers_count_batches start hPlays
  have hDelayLeft : (start.afterAll ops).machine.cpu.delay.toNat = 5 - count :=
    hDelay (hWords ▸ List.forall_mem_singleton.2 (by decide))
  have hSoundLeft : (start.afterAll ops).machine.cpu.sound.toNat = 1 - count :=
    hSound (hWords ▸ List.forall_mem_singleton.2 (by decide))
  rw [hCount] at hDelayLeft hSoundLeft
  obtain ⟨hTone, -⟩ := hCycles [.cycle, .keyDown 9] [] rfl
  have hSilent : ¬ 0 < last.cycle.state.machine.cpu.sound := by
    have hAll (c : Console (Recorded Headless)) :
        (c.afterAll [.cycle, .keyDown 9]).cycle.state = c.afterAll ops := rfl
    rw [UInt8.lt_iff_toNat_lt, hAll, hSoundLeft]
    exact Nat.lt_irrefl 0
  have hOff := hTone hOk
  rw [if_neg hSilent] at hOff
  exact ⟨hWords, hDelayLeft, hSoundLeft, hOk, hOff⟩

end Chip8
