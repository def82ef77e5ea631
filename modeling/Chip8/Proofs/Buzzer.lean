import Chip8.Proofs.FrameWait
import Chip8.Proofs.Journal

/-!
# The buzzer and its log

A batch that ends well sets the buzzer by the sound timer, and nothing else sets
it: no word, no key, and no batch that fails. So after each frame that was
played well the buzzer sounds just when the sound timer runs (`Player.InTune`),
and a frame that fails leaves it as it was.

A frame writes a change of the buzzer down if there is one, with its own number.
Changes from silence to the one pitch of the settings and back alternate, and
no number comes twice, since a frame that was played well is not played again
(`ToneHistory`).

## Main results

* `Console.tone_cycle` — the buzzer after a batch.
* `Player.toneHistory` — the log after any number of frames.
* `Player.afterTurns_eq`, `Player.toneLog_turnRecords` — single frames and runs of
  them, in any order.
* `buzzer_follows_sound` — the buzzer and its log from a load on.
-/

namespace Chip8

/-! ## The log of the buzzer -/

/-- The change of the buzzer that a record tells of: its frame, and what sounds afterwards. -/
def Record.toneSwitch? : Record → Option (Nat × Option Float)
  | .toneOn frame frequency => some (frame, some frequency)
  | .toneOff frame => some (frame, none)
  | _ => none

/-- The changes of the buzzer that records tell of, in order. -/
def toneLog (records : Array Record) : List (Nat × Option Float) :=
  records.toList.filterMap Record.toneSwitch?

theorem toneLog_append (earlier later : Array Record) :
    toneLog (earlier ++ later) = toneLog earlier ++ toneLog later := by
  simp [toneLog]

private theorem Record.toneSwitch?_of_step {r : Record} (h : r.ofStep = true) :
    r.toneSwitch? = none := by
  cases r <;> first | rfl | cases h

private theorem Record.toneSwitch?_of_key {r : Record} (h : r.ofKey = true) :
    r.toneSwitch? = none := by
  cases r <;> first | rfl | cases h

/-- The change from one state of the buzzer to another, as the log has it. -/
theorem toneLog_toneChange (frame : Nat) (before now : Option Float) :
    toneLog (Player.toneChange frame before now) =
      if before.isSome = now.isSome then [] else [(frame, now)] := by
  cases before <;> cases now <;> rfl

/-! ## Batches -/

/-- What the buzzer sounds when it is set by the sound timer. -/
def Machine.pitch? (m : Machine) : Option Float :=
  if 0 < m.cpu.sound then some m.conf.tone else none

theorem Machine.pitch?_isSome (m : Machine) : m.pitch?.isSome = decide (0 < m.cpu.sound) := by
  unfold pitch?
  split
  next h => simp [h]
  next h => simp [h]

private theorem Headless.tone_keptByWords (tone : Option Float) :
    Devices.KeptByWords fun d : Headless => d.tone = tone :=
  ⟨fun _ _ _ h => h, fun _ h => h, fun _ _ h => h⟩

namespace Console

/-- No step sets the buzzer. -/
theorem tone_batch (c : Console Headless) : c.batch.state.devices.tone = c.devices.tone :=
  (Headless.tone_keptByWords c.devices.tone).batch rfl

private theorem conf_cycle {δ : Type} [Devices δ] (c : Console δ) :
    c.cycle.state.machine.conf = c.machine.conf :=
  (conf_kept c.machine.conf).cycle rfl

/-- **The buzzer after a batch**: set by the sound timer, or as it was if the batch failed. -/
theorem tone_cycle (c : Console Headless) :
    c.cycle.state.devices.tone =
      if c.cycle.result.isOk then c.cycle.state.machine.pitch? else c.devices.tone := by
  have hConf := c.conf_cycle
  rcases c.cycle_cases with ⟨flow, _, hCycle⟩ | ⟨e, _, hCycle⟩
  · rw [hCycle, finishBatch_eq] at hConf
    have hPitch : c.batch.state.machine.afterBatch.conf.tone = c.batch.state.machine.conf.tone := by
      unfold Machine.afterBatch
      split <;> rfl
    rw [hCycle, finishBatch_eq]
    simp only [Except.isOk, Except.toBool, Machine.pitch?, if_true, hPitch]
    split <;> rfl
  · rw [hCycle]
    exact c.tone_batch

end Console

/-! ## Frames -/

namespace Player

/-- The buzzer sounds just when the sound timer runs. -/
def InTune (p : Player) : Prop := p.console.devices.tone = p.console.machine.pitch?

private theorem conf_afterFrames (p : Player) (n : Nat) :
    (p.afterFrames n).console.machine.conf = p.console.machine.conf :=
  machine_afterFrames (P := fun m => m.conf = p.console.machine.conf)
    (Console.conf_kept p.console.machine.conf) (fun _ => trivial) rfl n

/-- **The buzzer after a frame.** -/
theorem tone_playFrame (p : Player) :
    p.playFrame.state.console.devices.tone =
      if p.playFrame.result.isOk then p.playFrame.state.console.machine.pitch?
      else p.console.devices.tone := by
  rw [p.played_due.console, p.played_due.result, Console.tone_cycle, tone_press]

/-- What a frame writes down of the buzzer. -/
theorem toneLog_playFrame (p : Player) :
    toneLog p.playFrame.records =
      if p.playFrame.result.isOk then
        toneLog (toneChange p.frame p.console.devices.tone p.playFrame.state.console.devices.tone)
      else [] := by
  have hKeys : toneLog p.applyScript.2 = [] :=
    Record.filterMap_eq_nil fun r hMem => Record.toneSwitch?_of_key (p.applyScript_ofKey r hMem)
  have hSteps : toneLog (press p.due p.console).cycle.records = [] :=
    Record.filterMap_eq_nil fun r hMem =>
      Record.toneSwitch?_of_step (Console.cycle_ofStep _ r hMem)
  rw [playFrame_records, toneLog_append, toneLog_append, hKeys, hSteps]
  split <;> rfl

/-- A frame that begins with a buzzer in tune and ends well writes a change down if the sound timer
has come to run, or to stop. -/
theorem toneLog_of_ok {p : Player} (hTune : p.InTune) (hOk : p.playFrame.result = .ok ()) :
    let before := p.console.machine.cpu.sound
    let now := p.playFrame.state.console.machine.cpu.sound
    toneLog p.playFrame.records =
      if before = 0 ∧ 0 < now then
        [(p.frame, some p.playFrame.state.console.machine.conf.tone)]
      else if 0 < before ∧ now = 0 then [(p.frame, none)] else [] := by
  intro before now
  have hPitch : p.playFrame.state.console.devices.tone =
      p.playFrame.state.console.machine.pitch? := by
    rw [tone_playFrame, hOk]
    rfl
  rw [toneLog_playFrame, hOk, toneLog_toneChange, hPitch, hTune, Machine.pitch?_isSome,
    Machine.pitch?_isSome]
  show (if decide (0 < before) = decide (0 < now) then [] else [(p.frame, Machine.pitch? _)]) = _
  rw [Machine.pitch?]
  show (if decide (0 < before) = decide (0 < now) then []
    else [(p.frame, if 0 < now then some _ else none)]) = _
  have hZero (t : UInt8) : t = 0 ↔ ¬ 0 < t := by
    rw [UInt8.not_lt, UInt8.le_zero_iff]
  by_cases hBefore : 0 < before <;> by_cases hNow : 0 < now <;> simp [hZero, hBefore, hNow]

/-- A frame that ends well begins with a buzzer in tune, if the first one does. -/
theorem inTune_afterFrames {p : Player} (hStart : p.InTune) {n : Nat}
    (hOk : ∀ i < n, (p.afterFrames i).playFrame.result = .ok ()) : (p.afterFrames n).InTune := by
  cases n with
  | zero => exact hStart
  | succ n =>
      rw [InTune, afterFrames, tone_playFrame, hOk n (Nat.lt_succ_self n)]
      rfl

end Player

/-! ## Changes that alternate -/

/-- What a log of the buzzer tells that goes up to a frame: the changes alternate between the pitch
and silence, beginning with the pitch, their frames ascend and are before that frame, and the last
change is to what sounds now. -/
structure ToneHistory (pitch : Float) (log : List (Nat × Option Float)) (frame : Nat)
    (tone : Option Float) : Prop where
  alternates : ∀ i entry, log[i]? = some entry → entry.2 = if i % 2 = 0 then some pitch else none
  ascends : log.Pairwise fun a b => a.1 < b.1
  past : ∀ entry ∈ log, entry.1 < frame
  now : tone = if log.length % 2 = 0 then none else some pitch

namespace ToneHistory

variable {pitch : Float} {log : List (Nat × Option Float)} {frame : Nat} {tone : Option Float}

theorem start (pitch : Float) (frame : Nat) : ToneHistory pitch [] frame none :=
  ⟨fun i entry h => by simp at h, .nil, fun entry h => by simp at h, rfl⟩

/-- One more change. -/
theorem push (h : ToneHistory pitch log frame tone) {next : Option Float}
    (hNext : next = if log.length % 2 = 0 then some pitch else none) :
    ToneHistory pitch (log ++ [(frame, next)]) (frame + 1) next where
  alternates i entry hEntry := by
    rcases Nat.lt_or_ge i log.length with hOld | hNew
    · rw [List.getElem?_append_left hOld] at hEntry
      exact h.alternates i entry hEntry
    · rw [List.getElem?_append_right hNew, List.getElem?_singleton] at hEntry
      split at hEntry
      next hLast =>
        obtain rfl : i = log.length := by omega
        cases hEntry
        exact hNext
      next => cases hEntry
  ascends := by
    rw [List.pairwise_append]
    refine ⟨h.ascends, List.pairwise_singleton _ _, ?_⟩
    intro entry hMem last hLast
    rw [List.mem_singleton.1 hLast]
    exact h.past entry hMem
  past entry hMem := by
    rcases List.mem_append.1 hMem with hOld | hLast
    · exact Nat.lt_succ_of_lt (h.past entry hOld)
    · rw [List.mem_singleton.1 hLast]
      exact Nat.lt_succ_self frame
  now := by
    rw [hNext, List.length_append, List.length_singleton]
    by_cases hEven : log.length % 2 = 0
    · rw [if_pos hEven, if_neg (by omega)]
    · rw [if_neg hEven, if_pos (by omega)]

/-- A frame that was played well, and left the buzzer silent or at the pitch. -/
theorem played (h : ToneHistory pitch log frame tone) {next : Option Float}
    (hNext : next = none ∨ next = some pitch) :
    ToneHistory pitch (log ++ toneLog (Player.toneChange frame tone next)) (frame + 1) next := by
  have hNow := h.now
  rw [toneLog_toneChange]
  by_cases hSame : tone.isSome = next.isSome
  · have hStill : next = tone := by
      rcases hNext with rfl | rfl
      · cases tone with
        | none => rfl
        | some f => cases hSame
      · split at hNow
        · rw [hNow] at hSame
          cases hSame
        · exact hNow.symm
    rw [if_pos hSame, List.append_nil, hStill]
    exact ⟨h.alternates, h.ascends, fun entry hMem => Nat.lt_succ_of_lt (h.past entry hMem), h.now⟩
  · rw [if_neg hSame]
    refine h.push ?_
    by_cases hEven : log.length % 2 = 0
    · rw [if_pos hEven] at hNow ⊢
      rcases hNext with rfl | rfl
      · rw [hNow] at hSame
        exact absurd rfl hSame
      · rfl
    · rw [if_neg hEven] at hNow ⊢
      rcases hNext with rfl | rfl
      · rfl
      · rw [hNow] at hSame
        exact absurd rfl hSame

end ToneHistory

namespace Player

/-- **The log of any number of frames**, of a player that was silent. -/
theorem toneHistory {p : Player} (hSilent : p.console.devices.tone = none) (n : Nat) :
    ToneHistory p.console.machine.conf.tone (toneLog (p.frameRecords n)) (p.frameAt n)
      (p.afterFrames n).console.devices.tone := by
  induction n with
  | zero =>
      show ToneHistory _ [] _ p.console.devices.tone
      rw [hSilent]
      exact .start _ _
  | succ n ih =>
      have hTone := (p.afterFrames n).tone_playFrame
      have hFrame := (p.afterFrames n).played_due.frame
      rw [frameRecords, toneLog_append, toneLog_playFrame, frameAt, afterFrames]
      cases hResult : (p.afterFrames n).playFrame.result with
      | ok answer =>
          rw [hResult] at hTone hFrame
          rw [hFrame]
          refine ih.played ?_
          have hPitch : (p.afterFrames n).playFrame.state.console.machine.conf.tone =
              p.console.machine.conf.tone := congrArg Conf.tone (p.conf_afterFrames (n + 1))
          rw [hTone]
          show Machine.pitch? _ = none ∨ Machine.pitch? _ = some _
          rw [Machine.pitch?, hPitch]
          split
          · exact Or.inr rfl
          · exact Or.inl rfl
      | error e =>
          rw [hResult] at hTone hFrame
          rw [hFrame, hTone]
          show ToneHistory _ (_ ++ []) _ _
          rw [List.append_nil]
          exact ih

end Player

/-! ## Single frames and runs -/

/-- What can be asked of a player that has a program: to play one frame, or a run of them. -/
inductive Turn where
  | frame
  | run (count : Nat)

/-- The number of frames that are asked for. -/
def Turn.frames : Turn → Nat
  | .frame => 1
  | .run count => count

namespace Player

/-- Do what is asked. -/
def take (turn : Turn) (p : Player) : Outcome Player Unit :=
  match turn with
  | .frame => p.playFrame
  | .run count => p.play count

/-- The state after turns were taken, failed ones among them. -/
def afterTurns : List Turn → Player → Player
  | [], p => p
  | turn :: rest, p => afterTurns rest (p.take turn).state

/-- The records of turns, in order. -/
def turnRecords : List Turn → Player → Array Record
  | [], _ => #[]
  | turn :: rest, p => (p.take turn).records ++ turnRecords rest (p.take turn).state

private theorem take_state (turn : Turn) (p : Player) :
    (p.take turn).state = p.afterFrames turn.frames := by
  cases turn with
  | frame => rfl
  | run count => exact p.play_state count

private theorem toneLog_take (turn : Turn) (p : Player) :
    toneLog (p.take turn).records = toneLog (p.frameRecords turn.frames) := by
  cases turn with
  | frame => exact congrArg toneLog Array.empty_append.symm
  | run count =>
      have hEnd : toneLog
          (if (p.play count).result.isOk then #[.stopped (p.play count).state.frame] else #[]) =
            [] := by
        split <;> rfl
      show toneLog (p.play count).records = _
      rw [play_records, toneLog_append, toneLog_append, hEnd, List.append_nil]
      rfl

/-- Turns come to as many frames as they ask for. -/
theorem afterTurns_eq (turns : List Turn) (p : Player) :
    p.afterTurns turns = p.afterFrames (turns.map Turn.frames).sum := by
  induction turns generalizing p with
  | nil => rfl
  | cons turn rest ih =>
      rw [afterTurns, ih, take_state, List.map_cons, List.sum_cons, afterFrames_add]

/-- Turns write down of the buzzer what their frames do. -/
theorem toneLog_turnRecords (turns : List Turn) (p : Player) :
    toneLog (p.turnRecords turns) = toneLog (p.frameRecords (turns.map Turn.frames).sum) := by
  induction turns generalizing p with
  | nil => rfl
  | cons turn rest ih =>
      rw [turnRecords, toneLog_append, ih, toneLog_take, take_state, List.map_cons, List.sum_cons,
        frameRecords_add, toneLog_append]

private theorem toneLog_frameRecords (n : Nat) (p : Player) :
    toneLog (p.frameRecords n) =
      (List.range n).flatMap fun i => toneLog (p.afterFrames i).playFrame.records := by
  induction n with
  | zero => rfl
  | succ n ih =>
      rw [frameRecords, toneLog_append, ih, List.range_succ, List.flatMap_append,
        List.flatMap_singleton]

end Player

/-! ## From a load on -/

/-- A player is in tune when a program was just loaded, for nothing sounds then. -/
theorem Player.silent_of_loaded {before : Player} {program : List UInt8}
    (hAccepted : (before.load program).result = .ok ()) :
    (before.load program).state.console.machine.cpu.sound = 0 ∧
      (before.load program).state.console.devices.tone = none ∧
      (before.load program).state.InTune := by
  have hDevices : (before.load program).state.console.devices.tone = none := by
    rw [(load_of_accepted (size_of_loaded hAccepted) before).2]
  refine ⟨by rw [machine_of_loaded hAccepted]; rfl, hDevices, ?_⟩
  rw [InTune, hDevices, machine_of_loaded hAccepted]
  rfl

/-- **The buzzer follows the sound timer, and its log alternates.**  After a program was loaded, a
frame that is played well leaves the buzzer sounding at the pitch of the settings if the sound timer
runs, and silent otherwise, and it writes a change down just when the sound timer has come to run or
to stop since the frame before, or since the load. All frames before it were played well too, so
the number it gives is the count of these. A frame that fails leaves the buzzer alone and writes
nothing of it. Single frames and runs, in any order, come to as many frames one after the other; the
changes that they write down go on and off in turn, and the numbers of their frames ascend. -/
theorem buzzer_follows_sound {before : Player} {program : List UInt8}
    (hAccepted : (before.load program).result = .ok ()) :
    let start := (before.load program).state
    let pitch := before.console.machine.conf.tone
    let played (n : Nat) := (start.afterFrames n).playFrame
    let sound (n : Nat) := (start.afterFrames n).console.machine.cpu.sound
    let tone (n : Nat) := (start.afterFrames n).console.devices.tone
    (sound 0 = 0 ∧ tone 0 = none) ∧
    (∀ n, (played n).result = .ok () →
      ((∀ i < n, (played i).result = .ok ()) ∧ start.frameAt n = n) ∧
      tone (n + 1) = (if 0 < sound (n + 1) then some pitch else none) ∧
      toneLog (played n).records =
        if sound n = 0 ∧ 0 < sound (n + 1) then [(n, some pitch)]
        else if 0 < sound n ∧ sound (n + 1) = 0 then [(n, none)]
        else []) ∧
    (∀ n e, (played n).result = .error e →
      tone (n + 1) = tone n ∧ toneLog (played n).records = []) ∧
    ∀ turns : List Turn,
      let count := (turns.map Turn.frames).sum
      let log := toneLog (start.turnRecords turns)
      start.afterTurns turns = start.afterFrames count ∧
      log = (List.range count).flatMap (fun n => toneLog (played n).records) ∧
      log.Pairwise (fun a b => a.1 < b.1) ∧
      ∀ i entry, log[i]? = some entry → entry.2 = if i % 2 = 0 then some pitch else none := by
  intro start pitch played sound tone
  obtain ⟨hSound, hSilent, hTune⟩ := Player.silent_of_loaded hAccepted
  have hConf : start.console.machine.conf = before.console.machine.conf := by
    rw [Player.machine_of_loaded hAccepted]
  have hFrame : start.frame = 0 := (Player.load_accepted hAccepted).2.1
  refine ⟨⟨hSound, hSilent⟩, ?_, ?_, ?_⟩
  · intro n hOk
    have hBefore : ∀ i < n, (played i).result = .ok () :=
      fun i hi => Player.ok_before hOk (Nat.le_of_lt hi)
    have hCount : start.frameAt n = n := by
      rw [Player.frameAt, Player.frame_afterFrames hBefore, hFrame, Nat.zero_add]
    have hPitch : (played n).state.console.machine.conf.tone = pitch := by
      show (start.afterFrames (n + 1)).console.machine.conf.tone = pitch
      rw [Player.conf_afterFrames, hConf]
    refine ⟨⟨hBefore, hCount⟩, ?_, ?_⟩
    · show (played n).state.console.devices.tone = _
      rw [Player.tone_playFrame, hOk, ← hPitch]
      rfl
    · rw [← hPitch, Player.toneLog_of_ok (Player.inTune_afterFrames hTune hBefore) hOk]
      show _ = if sound n = 0 ∧ _ then _ else _
      rw [show (start.afterFrames n).frame = n from hCount]
      rfl
  · intro n e hError
    constructor
    · show (played n).state.console.devices.tone = _
      rw [Player.tone_playFrame, hError]
      rfl
    · rw [Player.toneLog_playFrame, hError]
      rfl
  · intro turns count log
    have hLog : log = toneLog (start.frameRecords count) := start.toneLog_turnRecords turns
    have hHistory := Player.toneHistory hSilent count
    rw [← hLog, hConf] at hHistory
    exact ⟨start.afterTurns_eq turns, hLog.trans (start.toneLog_frameRecords count),
      hHistory.ascends, hHistory.alternates⟩

/-- A program that sets the sound timer to two with its second word, in a batch of two. -/
theorem Player.sounds_after_first {p : Player}
    (hCpu : p.console.machine.cpu = .loaded [0x60, 0x02, 0xF0, 0x18])
    (hTrap : p.console.machine.trap = none) (hProgram : p.console.machine.hasProgram = true)
    (hSpeed : p.console.machine.conf.speed = 2) :
    p.playFrame.result = .ok () ∧ p.playFrame.state.console.machine.cpu.sound = 1 := by
  have hPress := press_asleep (c := p.console) (by rw [hCpu]; rfl) p.due
  rw [p.played_due.result, p.played_due.console, hPress]
  let c : Console Headless :=
    ⟨p.console.machine, withKeys (p.console.devices.keys.replay p.due) p.console.devices⟩
  have hFirst : c.nextWord = 0x6002 := by
    show p.console.machine.cpu.memory.fetch p.console.machine.cpu.pc.toNat = _
    rw [hCpu]
    exact Memory.fetch_ofProgram 0x60 0x02 [0xF0, 0x18]
  have hSetWord : Instr.ofWord? c.nextWord = some (.set 0 2) := by
    rw [hFirst]
    rfl
  have hTaken : c.step = c.fetchExecute := by
    refine Console.step_taken hTrap hProgram ?_
    show p.console.machine.cpu.wait = none
    rw [hCpu]
    rfl
  obtain ⟨-, hSet⟩ := Console.step_of_update hTaken hSetWord fun _ => rfl
  have hCpuSet : c.step.state.machine.cpu =
      (Cpu.loaded [0x60, 0x02, 0xF0, 0x18]).advance.setReg 0 2 := by
    rw [hSet, ← hCpu]
    rfl
  have hSecond : c.step.state.nextWord = 0xF018 := by
    have hMemory : c.step.state.machine.cpu.memory = .ofProgram [0x60, 0x02, 0xF0, 0x18] := by
      rw [hCpuSet]
      rfl
    have hPc : c.step.state.machine.cpu.pc.toNat = programStart + 2 := by
      rw [hCpuSet]
      rfl
    rw [Console.nextWord, hMemory, hPc, Memory.fetch_ofProgram_add (by decide) (by decide)]
    rfl
  have hSoundWord : Instr.ofWord? c.step.state.nextWord = some (.setSound 0) := by
    rw [hSecond]
    rfl
  have hNext : c.step.state.step = c.step.state.fetchExecute := by
    refine Console.step_taken ?_ ?_ ?_
    · rw [hSet]
      exact hTrap
    · rw [hSet]
      exact hProgram
    · rw [hCpuSet]
      rfl
  obtain ⟨hOk, hSound⟩ := Console.step_of_update hNext hSoundWord fun _ => rfl
  have hState : (c.runSteps c.machine.conf.speed).state = c.step.state.step.state := by
    show (c.runSteps p.console.machine.conf.speed).state = _
    rw [hSpeed, Console.runSteps_state]
    rfl
  have hResult : (c.runSteps c.machine.conf.speed).result = .ok .sound := by
    show (c.runSteps p.console.machine.conf.speed).result = _
    rw [hSpeed, Console.runSteps_succ_result]
    exact hOk
  have hTimer : c.step.state.step.state.machine.cpu.sound = 2 := by
    rw [hSound]
    show c.step.state.machine.cpu.advance.reg 0 = 2
    rw [hCpuSet]
    exact Cpu.reg_setReg_self 0 2 _
  have hAwake : c.step.state.step.state.machine.isWaiting = false := by
    rw [hSound]
    show c.step.state.machine.isWaiting = false
    rw [Machine.isWaiting, hCpuSet]
    rfl
  obtain ⟨hEnd, hLeft⟩ := Console.cycle_of_ok hResult
  refine ⟨hEnd, ?_⟩
  rw [hLeft, hState, Console.finishBatch_eq, Machine.afterBatch, if_neg (by simp [hAwake])]
  show Cpu.countDown c.step.state.step.state.machine.cpu.sound = 1
  rw [hTimer]
  rfl

/-- A program that sets the sound timer to two in its first frame. -/
theorem buzzer_follows_sound_on :
    let before := Player.new (.new { speed := 2, tone := 220.0 } (.cycling [1])) []
    let start := (before.load [0x60, 0x02, 0xF0, 0x18]).state
    (before.load [0x60, 0x02, 0xF0, 0x18]).result = .ok () ∧
    start.playFrame.result = .ok () ∧
    start.playFrame.state.console.devices.tone = some 220.0 ∧
    toneLog (start.turnRecords [.frame]) = [(0, some 220.0)] := by
  obtain ⟨before, hBefore⟩ : ∃ before,
      before = Player.new (.new { speed := 2, tone := 220.0 } (.cycling [1])) [] := ⟨_, rfl⟩
  have hAccepted : (before.load [0x60, 0x02, 0xF0, 0x18]).result = .ok () := by
    rw [hBefore]
    rfl
  have hPitch : before.console.machine.conf.tone = 220.0 := by
    rw [hBefore]
    rfl
  have hSpeed : before.console.machine.conf.speed = 2 := by
    rw [hBefore]
    rfl
  rw [← hBefore]
  intro _ start
  obtain ⟨⟨hStill, -⟩, hPlayed, -, hTurns⟩ := buzzer_follows_sound hAccepted
  have hLoaded := Player.machine_of_loaded hAccepted
  obtain ⟨hOk, hSound⟩ := Player.sounds_after_first (p := start) (by rw [hLoaded])
    (by rw [hLoaded]) (by rw [hLoaded]) (by rw [hLoaded]; exact hSpeed)
  obtain ⟨-, hTone, hFrame⟩ := hPlayed 0 hOk
  obtain ⟨-, hLog, -⟩ := hTurns [.frame]
  have hRuns : 0 < start.playFrame.state.console.machine.cpu.sound := by
    rw [hSound]
    decide
  refine ⟨hAccepted, hOk, hTone.trans ((if_pos hRuns).trans (by rw [hPitch])), hLog.trans ?_⟩
  show _ ++ [] = _
  rw [List.append_nil]
  exact hFrame.trans ((if_pos ⟨hStill, hRuns⟩).trans (by rw [hPitch]))

end Chip8
