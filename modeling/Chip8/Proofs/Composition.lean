import Chip8.CommandLine
import Chip8.Proofs.Driving
import Chip8.Proofs.Playback
import Chip8.Proofs.Refusal

/-!
# Runs of frames in parts

Playing some frames and then some more is playing all of them at once. This
holds for runs that fail as well, since a failure is final: a frame that failed
has spent its key events and is not counted, so that the next call finds no
event that is due, and its batch is refused at once with the same fault
(`Player.playFrame_repeats`). A run that goes on after a failure, as
`Player.afterFrames` does, and one that stops there are then in the same state.

The frame in which a program fails is settled by the program and the settings
when these fix the seed. What the command line prints does not depend on how
many more frames were asked for.

## Main results

* `Player.play_state`, `Player.play_result` — a run in terms of single frames.
* `Player.play_error` — a run that fails, and what becomes of it.
* `CommandLine.run_frames` — a run that is started from the command line.
* `runs_compose` — runs in parts, failed runs, and what they print.
-/

namespace Chip8

/-! ## Failed batches -/

/-- A batch that failed fails again in the same way, and does nothing: it ended with a step that
failed, and one more step fails as that one did. -/
theorem Console.cycle_repeats {δ : Type} [Devices δ] {c : Console δ} {e : Fault}
    (h : c.cycle.result = .error e) :
    c.cycle.state.cycle = { result := .error e, state := c.cycle.state } := by
  rcases c.cycle_cases with ⟨flow, _, hCycle⟩ | ⟨fault, hFault, hCycle⟩
  · rw [hCycle] at h
    cases h
  · obtain rfl : fault = e := by
      rw [hCycle] at h
      exact Except.error.inj h
    have hConf : c.batch.state.machine.conf = c.machine.conf := by
      rw [batch_eq_runSteps]
      exact runSteps_conf _ c
    have hSpeed : 0 < c.machine.conf.speed := by
      refine Nat.pos_of_ne_zero fun hZero => ?_
      rw [batch, hZero] at hFault
      cases hFault
    have hSettled : Settled c.batch :=
      Outcome.repeatUntil_kept (P := Settled)
        (fun o _ _ => settled_step_after o.state o.records) _ (settled_done c)
    have hStep : c.batch.state.step = fail fault c.batch.state := by
      have hRepeats : Repeats c.batch := hSettled (by simp [Outcome.goesOn, hFault])
      rw [Repeats, hFault] at hRepeats
      exact hRepeats
    rw [hCycle]
    exact cycle_refused hStep (hConf ▸ hSpeed)

namespace Player

/-! ## Failed frames -/

private theorem applyScript_of_due {p : Player} (hDue : p.due = []) : p.applyScript = (p, #[]) := by
  have hScript : p.script.dropWhile (isDue p.frame) = p.script := by
    have hSplit : p.due ++ p.script.dropWhile (isDue p.frame) = p.script :=
      List.takeWhile_append_dropWhile
    rwa [hDue] at hSplit
  rw [due] at hDue
  rw [applyScript, hScript, hDue]
  rfl

/-- The events of a frame that failed are spent. -/
theorem due_of_failed {p : Player} {e : Fault} (h : p.playFrame.result = .error e) :
    p.playFrame.state.due = [] := by
  apply due_of_sameFrame
  rw [p.played_due.frame, h]
  rfl

/-- **A frame that failed fails again in the same way**, and does nothing. -/
theorem playFrame_repeats {p : Player} {e : Fault} (h : p.playFrame.result = .error e) :
    p.playFrame.state.playFrame = { result := .error e, state := p.playFrame.state } := by
  have hBatch : (press p.due p.console).cycle.result = .error e := p.playFrame_result.symm.trans h
  have hDue := due_of_failed h
  have hCycle : p.playFrame.state.console.cycle =
      { result := .error e, state := p.playFrame.state.console } := by
    rw [p.played_due.console]
    exact Console.cycle_repeats hBatch
  generalize p.playFrame.state = q at hDue hCycle ⊢
  rw [playFrame, applyScript_of_due hDue]
  simp only [Outcome.after, hCycle]
  rfl

/-! ## Runs of frames -/

/-- An outcome that the next frame comes to again if it is a fault. -/
def Final (o : Outcome Player Unit) : Prop :=
  ∀ e, o.result = .error e → o.state.playFrame = { result := .error e, state := o.state }

theorem final_playFrame_after (p : Player) (worth : Record → Bool) (records : Array Record) :
    Final ((p.playFrame.keeping worth).after records) :=
  fun _ => playFrame_repeats

theorem afterFrames_add (m n : Nat) (p : Player) :
    p.afterFrames (m + n) = (p.afterFrames m).afterFrames n := by
  induction n with
  | zero => rfl
  | succ n ih => rw [← Nat.add_assoc, afterFrames, afterFrames, ih]

theorem afterFrames_of_fixed {p : Player} (h : p.playFrame.state = p) (n : Nat) :
    p.afterFrames n = p := by
  induction n with
  | zero => rfl
  | succ n ih => rw [afterFrames, ih, h]

variable (worth : Record → Bool)

/-- The loop of a run, from the outcome of what was played before. -/
def playOn (n : Nat) (o : Outcome Player Unit) : Outcome Player Unit :=
  Outcome.repeatUntil (fun _ => false) (fun p => p.playFrame.keeping worth) n o

theorem playOn_of_ok {o : Outcome Player Unit} (hOk : o.result = .ok ()) (n : Nat) :
    playOn worth (n + 1) o = playOn worth n ((o.state.playFrame.keeping worth).after o.records) :=
  Outcome.repeatUntil_of_goesOn (by simp [Outcome.goesOn, hOk]) _ n

theorem playOn_of_error {o : Outcome Player Unit} {e : Fault} (hError : o.result = .error e)
    (n : Nat) : playOn worth n o = o :=
  Outcome.repeatUntil_of_stopped (by simp [Outcome.goesOn, hError]) _ n

theorem Final.stays {o : Outcome Player Unit} (hFinal : Final o) {e : Fault}
    (hError : o.result = .error e) (n : Nat) :
    o.state.afterFrames n = o.state ∧ (o.state.afterFrames n).playFrame.result = .error e := by
  have hNext := hFinal e hError
  have hSame : o.state.afterFrames n = o.state := afterFrames_of_fixed (by rw [hNext]) n
  exact ⟨hSame, by rw [hSame, hNext]⟩

/-- A run that stops at a failure is in the state of one that goes on. -/
theorem playOn_state (n : Nat) {o : Outcome Player Unit} (hFinal : Final o) :
    (playOn worth n o).state = o.state.afterFrames n := by
  induction n generalizing o with
  | zero => rfl
  | succ n ih =>
      cases hResult : o.result with
      | ok answer =>
          rw [playOn_of_ok worth hResult, ih (final_playFrame_after o.state worth o.records),
            Nat.add_comm, afterFrames_add]
          rfl
      | error e => rw [playOn_of_error worth hResult, (hFinal.stays hResult _).1]

/-- A run that stops at a failure answers as the last frame of one that goes on. -/
theorem playOn_result (n : Nat) {o : Outcome Player Unit} (hFinal : Final o) :
    (playOn worth (n + 1) o).result = (o.state.afterFrames n).playFrame.result := by
  induction n generalizing o with
  | zero =>
      cases hResult : o.result with
      | ok answer =>
          rw [playOn_of_ok worth hResult]
          rfl
      | error e => rw [playOn_of_error worth hResult, (hFinal.stays hResult _).2, hResult]
  | succ n ih =>
      cases hResult : o.result with
      | ok answer =>
          rw [playOn_of_ok worth hResult, ih (final_playFrame_after o.state worth o.records),
            Nat.add_comm n 1, afterFrames_add]
          rfl
      | error e => rw [playOn_of_error worth hResult, (hFinal.stays hResult _).2, hResult]

/-- What a run starts from. -/
def playStart (frames : Nat) (p : Player) : Outcome Player Unit :=
  { result := .ok (), state := p, records := #[.running frames p.console.machine.conf.speed] }

theorem final_playStart (frames : Nat) (p : Player) : Final (playStart frames p) :=
  fun _ h => nomatch h

/-- Only the records of a run say how it was started and that it stopped. -/
theorem play_eq_playOn (n : Nat) (p : Player) :
    (p.play n worth).state = (playOn worth n (playStart n p)).state ∧
      (p.play n worth).result = (playOn worth n (playStart n p)).result := by
  cases hLoop : (playOn worth n (playStart n p)).result with
  | ok answer =>
      simp only [playOn, playStart] at hLoop
      simp only [play, hLoop]
      exact ⟨rfl, trivial⟩
  | error e =>
      simp only [playOn, playStart] at hLoop
      simp only [play, hLoop]
      exact ⟨rfl, trivial⟩

variable {worth}

/-- **The state that a run leaves** is that after as many frames. -/
theorem play_state (n : Nat) (p : Player) : (p.play n worth).state = p.afterFrames n := by
  rw [(play_eq_playOn worth n p).1, playOn_state worth n (final_playStart n p)]
  rfl

/-- **A run answers as its last frame.** -/
theorem play_succ_result (n : Nat) (p : Player) :
    (p.play (n + 1) worth).result = (p.afterFrames n).playFrame.result := by
  rw [(play_eq_playOn worth (n + 1) p).2, playOn_result worth n (final_playStart (n + 1) p)]
  rfl

/-- Runs that follow each other are one run. -/
theorem play_play (a b : Nat) (p : Player) :
    ((p.play a worth).state.play b worth).state = (p.play (a + b) worth).state ∧
      (0 < b → ((p.play a worth).state.play b worth).result = (p.play (a + b) worth).result) := by
  constructor
  · rw [play_state, play_state, play_state, afterFrames_add]
  · intro hb
    obtain ⟨b, rfl⟩ : ∃ k, b = k + 1 := ⟨b - 1, by omega⟩
    rw [play_succ_result, ← Nat.add_assoc, play_succ_result, play_state, afterFrames_add]

/-! ## Runs that fail -/

/-- The frame after `k` others is the first that fails, and this is its fault. -/
structure FailsIn (p : Player) (k : Nat) (e : Fault) : Prop where
  before : ∀ i < k, (p.afterFrames i).playFrame.result = .ok ()
  fails : (p.afterFrames k).playFrame.result = .error e

/-- After a frame that failed every other fails. -/
theorem failed_later {p : Player} {k : Nat} {e : Fault}
    (hFails : (p.afterFrames k).playFrame.result = .error e) {n : Nat} (hn : k ≤ n) :
    (p.afterFrames n).playFrame.result = .error e ∧
      (p.afterFrames n).playFrame.state = (p.afterFrames k).playFrame.state := by
  obtain ⟨more, rfl⟩ := Nat.exists_eq_add_of_le hn
  have hRepeats := playFrame_repeats hFails
  have hFixed : (p.afterFrames k).playFrame.state.playFrame.state =
      (p.afterFrames k).playFrame.state := by
    rw [hRepeats]
  cases more with
  | zero => exact ⟨hFails, rfl⟩
  | succ more =>
      have hSame : p.afterFrames (k + (more + 1)) = (p.afterFrames k).playFrame.state := by
        rw [Nat.add_comm more, ← Nat.add_assoc, afterFrames_add]
        exact afterFrames_of_fixed hFixed more
      rw [hSame, hRepeats]
      exact ⟨rfl, rfl⟩

/-- Before a frame that ends well all frames ended well. -/
theorem ok_before {p : Player} {n : Nat} {answer : Unit}
    (hOk : (p.afterFrames n).playFrame.result = .ok answer) {i : Nat} (hi : i ≤ n) :
    (p.afterFrames i).playFrame.result = .ok () := by
  cases hEarlier : (p.afterFrames i).playFrame.result with
  | ok answer => rfl
  | error fault =>
      have hLater := (failed_later hEarlier hi).1
      cases hOk.symm.trans hLater

/-- Of the frames up to one that failed, there is a first that failed, and it failed alike. -/
theorem exists_failsIn {p : Player} {n : Nat} {e : Fault}
    (hFails : (p.afterFrames n).playFrame.result = .error e) : ∃ k ≤ n, p.FailsIn k e := by
  induction n with
  | zero => exact ⟨0, Nat.le_refl 0, fun i hi => absurd hi (Nat.not_lt_zero i), hFails⟩
  | succ n ih =>
      cases hBefore : (p.afterFrames n).playFrame.result with
      | error fault =>
          obtain rfl : fault = e := by
            have hLater := (failed_later hBefore (Nat.le_succ n)).1
            exact Except.error.inj (hLater.symm.trans hFails)
          obtain ⟨k, hk, hFirst⟩ := ih hBefore
          exact ⟨k, Nat.le_succ_of_le hk, hFirst⟩
      | ok answer =>
          exact ⟨n + 1, Nat.le_refl _, fun i hi => ok_before hBefore (Nat.le_of_lt_succ hi), hFails⟩

/-- Frames that end well are counted. -/
theorem frame_afterFrames {p : Player} {n : Nat}
    (hOk : ∀ i < n, (p.afterFrames i).playFrame.result = .ok ()) :
    (p.afterFrames n).frame = p.frame + n := by
  induction n with
  | zero => rfl
  | succ n ih =>
      have hLast := hOk n (Nat.lt_succ_self n)
      rw [afterFrames, (p.afterFrames n).played_due.frame, hLast]
      exact congrArg (· + 1) (ih fun i hi => hOk i (Nat.lt_succ_of_lt hi))

/-- **What is left of a run that failed.**  It stopped in its first failing frame, which was not
counted, and every further frame or run fails alike and does nothing. -/
theorem play_error {n : Nat} {p : Player} {worth : Record → Bool} {e : Fault}
    (hError : (p.play n worth).result = .error e) :
    ∃ k < n, p.FailsIn k e ∧
      (p.play n worth).state = (p.afterFrames k).playFrame.state ∧
      (p.play n worth).state.frame = p.frame + k ∧
      (p.play n worth).state.playFrame = { result := .error e, state := (p.play n worth).state } ∧
      ∀ m, 0 < m → ((p.play n worth).state.play m worth).result = .error e ∧
        ((p.play n worth).state.play m worth).state = (p.play n worth).state := by
  cases n with
  | zero => cases hError
  | succ n =>
      rw [play_succ_result] at hError
      obtain ⟨k, hk, hFirst⟩ := exists_failsIn hError
      have hState : (p.play (n + 1) worth).state = (p.afterFrames k).playFrame.state := by
        rw [play_state]
        exact (failed_later hFirst.fails hk).2
      have hRepeats := playFrame_repeats hFirst.fails
      rw [hState]
      refine ⟨k, Nat.lt_succ_of_le hk, hFirst, rfl, ?_, hRepeats, ?_⟩
      · rw [(p.afterFrames k).played_due.frame, hFirst.fails]
        exact frame_afterFrames hFirst.before
      · intro m hm
        obtain ⟨m, rfl⟩ : ∃ j, m = j + 1 := ⟨m - 1, by omega⟩
        generalize (p.afterFrames k).playFrame.state = q at hRepeats ⊢
        have hFixed : q.playFrame.state = q := by rw [hRepeats]
        rw [play_succ_result, play_state, afterFrames_of_fixed hFixed, afterFrames_of_fixed hFixed,
          hRepeats]
        exact ⟨rfl, rfl⟩

/-- A run that ends well counts all its frames. -/
theorem play_ok {n : Nat} {p : Player} {worth : Record → Bool}
    (hOk : (p.play n worth).result = .ok ()) : (p.play n worth).state.frame = p.frame + n := by
  rw [play_state]
  refine frame_afterFrames fun i hi => ?_
  obtain ⟨n, rfl⟩ : ∃ k, n = k + 1 := ⟨n - 1, by omega⟩
  rw [play_succ_result] at hOk
  exact ok_before hOk (Nat.le_of_lt_succ hi)

/-- Whether a run fails depends on whether it reaches the first frame that does. -/
theorem FailsIn.play_result {p : Player} {k : Nat} {e : Fault} (h : p.FailsIn k e)
    (worth : Record → Bool) (n : Nat) :
    (k < n → (p.play n worth).result = .error e ∧
      (p.play n worth).state = (p.afterFrames k).playFrame.state) ∧
    (n ≤ k → (p.play n worth).result = .ok ()) := by
  cases n with
  | zero => exact ⟨fun hk => absurd hk (Nat.not_lt_zero k), fun _ => rfl⟩
  | succ n =>
      rw [play_succ_result, play_state]
      exact ⟨fun hk => failed_later h.fails (Nat.le_of_lt_succ hk), h.before n⟩

end Player

/-! ## The command line -/

namespace CommandLine

variable {files : Files} {options : RunOptions} {settings : Settings} {program : List UInt8}

/-- The number of frames on the command line changes nothing else in the settings. -/
theorem settingsOf_frames (hSettings : settingsOf files options = .ok settings) (n : Nat) :
    settingsOf files { options with frames := some n } =
      .ok { settings with frames := some n } := by
  unfold settingsOf at hSettings ⊢
  cases hConfig : options.config with
  | none =>
      simp only [hConfig] at hSettings ⊢
      cases hSettings
      rfl
  | some path =>
      simp only [hConfig] at hSettings ⊢
      cases hRead : readSettings files path with
      | error failure =>
          rw [hRead] at hSettings
          cases hSettings
      | ok read =>
          rw [hRead] at hSettings
          cases hSettings
          rfl

/-- The player of a program under settings. -/
def player (settings : Settings) (entropy : UInt64) : Player :=
  Player.new (Machine.seeded settings.conf entropy) settings.keys

/-- A player whose settings fix the seed does not depend on anything else. -/
theorem player_of_seed {seed : UInt64} (hSeed : settings.conf.seed = some seed)
    (entropy : UInt64) : player settings entropy = player settings 0 := by
  simp [player, Machine.seeded, hSeed]

/-- **A run that is started from the command line** plays as many frames as it says. -/
theorem run_frames (hSettings : settingsOf files options = .ok settings)
    (hProgram : readProgram files options.rom = .ok program) {entropy : UInt64}
    (hLoad : ((player settings entropy).load program).result = .ok ()) {n : Nat}
    {words : List String}
    (hWords : Request.ofWords words = .ok (.run { options with frames := some n })) :
    run files entropy words = finishRun options.realtime
      (((player settings entropy).load program).state.play n Record.isNotable) := by
  have hRun : runProgram files entropy { options with frames := some n } =
      .ok (finishRun options.realtime
        (((player settings entropy).load program).state.play n Record.isNotable)) := by
    simp only [runProgram, settingsOf_frames hSettings n, hProgram, player] at hLoad ⊢
    simp only [bind, Except.bind, hLoad]
    rfl
  rw [run, hWords]
  show Request.meet files entropy _ = _
  rw [Request.meet, hRun]

end CommandLine

/-! ## Runs in parts -/

/-- **Runs compose, and failures are final.**  Of any player: to play some frames and then others
leaves the state and gives the answer of playing all of them. A run that ends well counts its
frames. One that fails stopped in its first failing frame, without counting it, and whatever is
played later gives the same fault and changes nothing. So when a program under settings with a fixed
seed fails in some frame, the command line prints the same for all larger numbers of frames, with
exit code one, and up to that number the exit code is zero. -/
theorem runs_compose :
    (∀ (p : Player) (worth : Record → Bool),
      (∀ a b,
        ((p.play a worth).state.play b worth).state = (p.play (a + b) worth).state ∧
        (0 < b →
          ((p.play a worth).state.play b worth).result = (p.play (a + b) worth).result)) ∧
      ∀ n,
        ((p.play n worth).result = .ok () → (p.play n worth).state.frame = p.frame + n) ∧
        ∀ e, (p.play n worth).result = .error e → ∃ k < n, p.FailsIn k e ∧
          (p.play n worth).state = (p.afterFrames k).playFrame.state ∧
          (p.play n worth).state.frame = p.frame + k ∧
          (p.play n worth).state.playFrame =
            { result := .error e, state := (p.play n worth).state } ∧
          ∀ m, 0 < m → ((p.play n worth).state.play m worth).result = .error e ∧
            ((p.play n worth).state.play m worth).state = (p.play n worth).state) ∧
    ∀ files options settings program seed k e,
      CommandLine.settingsOf files options = .ok settings →
      CommandLine.readProgram files options.rom = .ok program →
      settings.conf.seed = some seed →
      let loaded := (CommandLine.player settings 0).load program
      loaded.result = .ok () → loaded.state.FailsIn k e →
      ∀ n words entropy,
        CommandLine.Request.ofWords words = .ok (.run { options with frames := some n }) →
        let finished := CommandLine.run files entropy words
        (k < n → finished.exitCode = 1 ∧
          finished.output = (loaded.state.afterFrames k).playFrame.state.report ++ "\n") ∧
        (n ≤ k → finished.exitCode = 0) := by
  constructor
  · intro p worth
    exact ⟨fun a b => p.play_play a b, fun n => ⟨Player.play_ok, fun e => Player.play_error⟩⟩
  · intro files options settings program seed k e hSettings hProgram hSeed loaded hLoad hFails
      n words entropy hWords finished
    have hPlayer := CommandLine.player_of_seed hSeed entropy
    have hAny : ((CommandLine.player settings entropy).load program).result = .ok () := by
      rw [hPlayer]
      exact hLoad
    have hFinished : finished = CommandLine.finishRun options.realtime
        (loaded.state.play n Record.isNotable) := by
      rw [← show (CommandLine.player settings entropy).load program = loaded by rw [hPlayer]]
      exact CommandLine.run_frames hSettings hProgram hAny hWords
    obtain ⟨hFailed, hEnded⟩ := hFails.play_result Record.isNotable n
    rw [hFinished]
    constructor
    · intro hk
      obtain ⟨hResult, hState⟩ := hFailed hk
      simp only [CommandLine.finishRun, hResult, hState, and_self]
    · intro hk
      simp only [CommandLine.finishRun, hEnded hk]

/-- A program whose second word is no instruction fails in the second frame at speed one. -/
theorem Player.failsIn_second_word {p : Player} (hSpeed : p.console.machine.conf.speed = 1)
    (hScript : p.script = []) (hProgram : p.console.machine.hasProgram = true)
    (hTrap : p.console.machine.trap = none)
    (hLoaded : p.console.machine.cpu = .loaded [0x60, 0x01, 0x00, 0x00]) :
    p.FailsIn 1 (.unknownOpcode 0x0000 0x202) := by
  obtain ⟨⟨⟨cpu, random, conf, hasProgram, trap⟩, devices⟩, script, frame⟩ := p
  obtain ⟨rfl, rfl, rfl, rfl⟩ : script = [] ∧ hasProgram = true ∧ trap = none ∧ cpu = _ :=
    ⟨hScript, hProgram, hTrap, hLoaded⟩
  let first : Console Headless :=
    ⟨{ cpu := .loaded [0x60, 0x01, 0x00, 0x00], random, conf, hasProgram := true }, devices⟩
  let second : Console Headless := first.cycle.state
  have hWord : first.nextWord = 0x6001 := Memory.fetch_ofProgram 0x60 0x01 [0x00, 0x00]
  have hOk : (first.execute first.nextWord).result = .ok .proceed := by
    rw [hWord]
    rfl
  have hStep : first.step = (first.execute 0x6001).after #[.fetched 0x200 0x6001] := by
    rw [Console.step_taken rfl rfl rfl, Console.fetchExecute_of_ok hOk, hWord]
    rfl
  obtain ⟨hEnd, hState⟩ := (Console.cycle_of_speed_one (c := first) hSpeed).1 .proceed
    (by rw [hStep]; rfl)
  have hSecond : second.machine = { first.machine with
      cpu := { first.machine.cpu with
        pc := 0x202, registers := second.machine.cpu.registers } } := by
    simp only [second, hState, hStep]
    rfl
  have hZero : second.nextWord = 0x0000 := by
    have hMemory : second.machine.cpu.memory = .ofProgram [0x60, 0x01, 0x00, 0x00] := by
      rw [hSecond]
      rfl
    have hPc : second.machine.cpu.pc.toNat = programStart + 2 := by
      rw [hSecond]
      rfl
    rw [Console.nextWord, hMemory, hPc, Memory.fetch_ofProgram_add (by decide) (by decide)]
    rfl
  have hTaken : second.step = second.fetchExecute :=
    Console.step_taken (by rw [hSecond]) (by rw [hSecond]) (by rw [hSecond]; rfl)
  obtain ⟨hHalts, -⟩ := Console.step_of_unknown hTaken (by rw [hZero]; rfl)
  have hFault := (Console.cycle_of_speed_one (c := second) (by rw [hSecond]; exact hSpeed)).2 _
    hHalts
  have hPc : second.machine.cpu.pc = 0x202 := by rw [hSecond]
  rw [hZero, hPc] at hFault
  refine ⟨fun i hi => ?_, ?_⟩
  · obtain rfl : i = 0 := by omega
    rw [playFrame_result]
    exact hEnd
  · rw [playFrame_result, afterFrames, afterFrames, playFrame_state]
    exact hFault

/-- A program that fails in the second frame, run for one frame, for two and for five. -/
theorem runs_compose_halted :
    let files : CommandLine.Files := fun _ => some ⟨#[0x60, 0x01, 0x00, 0x00]⟩
    let words (frames : String) : List String :=
      ["run", "rom", "--speed", "1", "--seed=7", "--frames", frames]
    let p := ((CommandLine.player { conf := { speed := 1, seed := some 7 } } 0).load
      [0x60, 0x01, 0x00, 0x00]).state
    p.FailsIn 1 (.unknownOpcode 0x0000 0x202) ∧
    ((p.play 2).state.play 3).state = (p.play 5).state ∧
    (CommandLine.run files 3 (words "1")).exitCode = 0 ∧
    (CommandLine.run files 4 (words "2")).exitCode = 1 ∧
    (CommandLine.run files 5 (words "5")).exitCode = 1 ∧
    (CommandLine.run files 5 (words "5")).output =
      (CommandLine.run files 4 (words "2")).output := by
  intro files words p
  let options : CommandLine.RunOptions := { rom := "rom", speed := some 1, seed := some 7 }
  have hProgram : CommandLine.readProgram files "rom" = .ok [0x60, 0x01, 0x00, 0x00] := by cbv
  have hFails : p.FailsIn 1 (.unknownOpcode 0x0000 0x202) :=
    Player.failsIn_second_word rfl rfl rfl rfl rfl
  obtain ⟨hPlayers, hRuns⟩ := runs_compose
  have hRun := hRuns files options (CommandLine.override options {}) _ 7 1 _ rfl hProgram rfl rfl
    hFails
  obtain ⟨-, hOne⟩ := hRun 1 (words "1") 3 rfl
  obtain ⟨hTwo, -⟩ := hRun 2 (words "2") 4 rfl
  obtain ⟨hFive, -⟩ := hRun 5 (words "5") 5 rfl
  refine ⟨hFails, ((hPlayers p _).1 2 3).1, hOne (Nat.le_refl 1), (hTwo (by decide)).1,
    (hFive (by decide)).1, ?_⟩
  rw [(hFive (by decide)).2, (hTwo (by decide)).2]

end Chip8
