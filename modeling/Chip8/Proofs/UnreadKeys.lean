import Chip8.Proofs.Exchange
import Chip8.Proofs.FrameWait
import Chip8.Proofs.Journal

/-!
# Keys that are not read

Key events reach a program through three kinds of words: `Ex9E` and `ExA1` ask
whether a key is down, and `Fx0A` waits for one to go down. While a program
executes none of them, it runs the same under every script. The keypad may still
be asked: an undefined word of the family `E` asks for its key before it fails, and
does not go by the answer.

Two players that differ in their keys and scripts alone stay so from frame to
frame (`Player.SameButKeys.playFrame`). A frame moves keys first, which the
machine does not notice while it does not wait, and then the batch goes as it
would with other keys (`Console.cycle_exchanged`).

## Main results

* `Console.cycle_withKeys` — a batch with other keys.
* `Player.SameButKeys.playFrame` — a frame with another script.
* `unread_keys_do_not_matter` — whole runs.
-/

namespace Chip8

/-- Whether a word is `Ex9E`, `ExA1` or `Fx0A`, by which keys reach a program. -/
def Word.ReadsKeys (w : Word) : Prop :=
  w.TestsKey ∨ w.family.val = 0xF ∧ w.kk.toNat = 0x0A

private theorem Word.awaited?_of_unread {w : Word} (h : ¬ w.ReadsKeys) : w.awaited? = none :=
  if_neg fun hAwaits => h (Or.inr hAwaits)

/-! ## Batches with other keys -/

/-- All operations of the devices pass through a change of keys, but for what is answered. -/
theorem Player.carried_withKeys (keys : Keypad) : Devices.Carried (withKeys keys) :=
  ⟨fun _ _ _ => rfl, fun _ => rfl, fun _ _ => rfl, fun _ _ => rfl, fun _ => rfl⟩

namespace Console

variable {δ : Type} [Devices δ]

/-- A batch that fetches no `Fx0A` begins no wait. -/
theorem cycle_asleep {c : Console δ} (hWait : c.machine.cpu.wait = none)
    (hAwaits : ∀ word ∈ fetchedIn c.cycle.records, word.awaited? = none) :
    c.cycle.state.machine.cpu.wait = none := by
  have hLedger := c.cycle_ledger
  rw [List.filterMap_eq_nil_iff.2 hAwaits, pending, pending, hWait] at hLedger
  exact Option.toList_eq_nil_iff.1 hLedger.symm

/-- **A batch that reads no key** goes the same with other keys. -/
theorem cycle_withKeys (keys : Keypad) {c : Console Headless}
    (hUnread : ∀ word ∈ fetchedIn c.cycle.records, ¬ word.ReadsKeys) :
    (Console.mk c.machine (Player.withKeys keys c.devices)).cycle =
      c.cycle.within fun d => ⟨d.machine, Player.withKeys keys d.devices⟩ := by
  have hCycle := cycle_exchanged (Player.carried_withKeys keys) (c := c)
    (fun word hMem hTests => absurd (Or.inl hTests) (hUnread word hMem)) (.refl _ c.machine.random)
  have hRandom : c.cycle.state.machine.random =
      c.machine.random.skip ((fetchedIn c.cycle.records).countP Word.isRandom) :=
    c.apply_random .cycle
  rw [← hRandom] at hCycle
  exact hCycle

end Console

/-! ## Frames with another script -/

namespace Player

/-- Players that differ in nothing but the keys that are down and the script. -/
structure SameButKeys (p q : Player) : Prop where
  machine : q.console.machine = p.console.machine
  display : q.console.devices.display = p.console.devices.display
  tone : q.console.devices.tone = p.console.devices.tone
  frame : q.frame = p.frame

namespace SameButKeys

variable {p q : Player}

/-- What a player reports does not show keys. -/
theorem report (h : SameButKeys p q) : q.report = p.report := by
  simp only [Player.report, Console.report, h.machine, h.display]

theorem devices (h : SameButKeys p q) :
    q.console.devices = withKeys q.console.devices.keys p.console.devices := by
  rw [withKeys, ← h.display, ← h.tone]

/-- **A frame that reads no key** ends the same under another script. -/
theorem playFrame (h : SameButKeys p q) (hWait : p.console.machine.cpu.wait = none)
    (hUnread : ∀ word ∈ fetchedIn p.playFrame.records, ¬ word.ReadsKeys) :
    q.playFrame.result = p.playFrame.result ∧ SameButKeys p.playFrame.state q.playFrame.state ∧
      p.playFrame.state.console.machine.cpu.wait = none := by
  rw [playFrame_fetched] at hUnread
  have hFirst := press_asleep hWait p.due
  have hSecond : press q.due q.console =
      ⟨(press p.due p.console).machine, withKeys (q.console.devices.keys.replay q.due)
        (press p.due p.console).devices⟩ := by
    rw [press_asleep (h.machine ▸ hWait), h.machine, hFirst, h.devices]
    rfl
  have hBatch := Console.cycle_withKeys (q.console.devices.keys.replay q.due) hUnread
  rw [← hSecond] at hBatch
  have hResult : q.playFrame.result = p.playFrame.result := by
    rw [playFrame_result, playFrame_result, hBatch]
    rfl
  refine ⟨hResult, ⟨?_, ?_, ?_, ?_⟩, ?_⟩
  · rw [q.played_due.console, p.played_due.console, hBatch]
    rfl
  · rw [q.played_due.console, p.played_due.console, hBatch]
    rfl
  · rw [q.played_due.console, p.played_due.console, hBatch]
    rfl
  · rw [q.played_due.frame, p.played_due.frame, hResult, h.frame]
  · rw [p.played_due.console]
    exact Console.cycle_asleep (by rw [hFirst]; exact hWait)
      fun word hMem => Word.awaited?_of_unread (hUnread word hMem)

/-- Frames that read no key, so many of them. -/
theorem afterFrames (h : SameButKeys p q) (hWait : p.console.machine.cpu.wait = none) {n : Nat}
    (hUnread : ∀ i < n, ∀ word ∈ fetchedIn (p.afterFrames i).playFrame.records,
      ¬ word.ReadsKeys) :
    SameButKeys (p.afterFrames n) (q.afterFrames n) ∧
      (p.afterFrames n).console.machine.cpu.wait = none := by
  induction n with
  | zero => exact ⟨h, hWait⟩
  | succ n ih =>
      obtain ⟨hSame, hAsleep⟩ := ih fun i hi => hUnread i (Nat.lt_succ_of_lt hi)
      exact (hSame.playFrame hAsleep (hUnread n (Nat.lt_succ_self n))).2

/-- **A run that reads no key** goes the same under another script. -/
theorem play (h : SameButKeys p q) (hWait : p.console.machine.cpu.wait = none) {n : Nat}
    (hUnread : ∀ word ∈ fetchedIn (p.play n).records, ¬ word.ReadsKeys) :
    (q.play n).result = (p.play n).result ∧
    (∀ i < n, (q.afterFrames i).playFrame.result = (p.afterFrames i).playFrame.result) ∧
    ∀ i ≤ n, SameButKeys (p.afterFrames i) (q.afterFrames i) ∧
      (q.afterFrames i).report = (p.afterFrames i).report := by
  have hFrames : ∀ i < n, ∀ word ∈ fetchedIn (p.afterFrames i).playFrame.records,
      ¬ word.ReadsKeys :=
    fun i hi word hMem => hUnread word (mem_fetched_play.2 ⟨i, hi, hMem⟩)
  have hSame : ∀ i ≤ n, SameButKeys (p.afterFrames i) (q.afterFrames i) ∧
      (p.afterFrames i).console.machine.cpu.wait = none :=
    fun i hi => h.afterFrames hWait fun j hj => hFrames j (Nat.lt_of_lt_of_le hj hi)
  have hResults : ∀ i < n,
      (q.afterFrames i).playFrame.result = (p.afterFrames i).playFrame.result := by
    intro i hi
    obtain ⟨hBefore, hAsleep⟩ := hSame i (Nat.le_of_lt hi)
    exact (hBefore.playFrame hAsleep (hFrames i hi)).1
  refine ⟨?_, hResults, fun i hi => ⟨(hSame i hi).1, (hSame i hi).1.report⟩⟩
  cases n with
  | zero => rfl
  | succ n =>
      rw [play_succ_result, play_succ_result]
      exact hResults n (Nat.lt_succ_self n)

end SameButKeys

/-! ## Loads with another script -/

/-- A player that was made with another script, after the same load. -/
theorem sameButKeys_load (machine : Machine) (script other : List KeyEvent) (program : List UInt8) :
    SameButKeys ((new machine script).load program).state
      ((new machine other).load program).state := by
  by_cases hSize : isProgramSize program.length = true
  · simp only [load, new, Machine.load_of_accepted hSize]
    exact ⟨rfl, rfl, rfl, rfl⟩
  · simp only [load, new, Machine.load_of_refused hSize]
    exact ⟨rfl, rfl, rfl, rfl⟩

/-- A machine that does not wait does not wait after a load. -/
theorem load_asleep {p : Player} (hWait : p.console.machine.cpu.wait = none)
    (program : List UInt8) : (p.load program).state.console.machine.cpu.wait = none := by
  by_cases hSize : isProgramSize program.length = true
  · simp only [load, Machine.load_of_accepted hSize]
    rfl
  · simp only [load, Machine.load_of_refused hSize]
    exact hWait

end Player

/-! ## Runs with another script -/

/-- **Keys that are not read do not matter.**  Under settings that fix the seed, let a program be
loaded and run for some frames under a script, and let the run fetch none of the words `Ex9E`,
`ExA1` and `Fx0A`. Then a run of as many frames under any other script gives the same answer. So
does each of its frames, and before each of them and at the end the machine, the display, the
buzzer, the number of the frame and the report are the same. -/
theorem unread_keys_do_not_matter {conf : Conf} {seed : UInt64} (hSeed : conf.seed = some seed)
    (entropy other : UInt64) (program : List UInt8) (script script' : List KeyEvent) (n : Nat) :
    let first := ((Player.new (.seeded conf entropy) script).load program).state
    let second := ((Player.new (.seeded conf other) script').load program).state
    (∀ word ∈ fetchedIn (first.play n).records, ¬ word.ReadsKeys) →
    (second.play n).result = (first.play n).result ∧
    (∀ i < n, (second.afterFrames i).playFrame.result = (first.afterFrames i).playFrame.result) ∧
    ∀ i ≤ n, Player.SameButKeys (first.afterFrames i) (second.afterFrames i) ∧
      (second.afterFrames i).report = (first.afterFrames i).report := by
  intro first second hUnread
  have hMachine : Machine.seeded conf other = Machine.seeded conf entropy := by
    rw [Machine.seeded, Machine.seeded, hSeed]
    rfl
  have hStart : Player.SameButKeys first second := by
    rw [show second = ((Player.new (.seeded conf entropy) script').load program).state by
      rw [← hMachine]]
    exact Player.sameButKeys_load _ script script' program
  have hWait : first.console.machine.cpu.wait = none := Player.load_asleep rfl program
  exact hStart.play hWait hUnread

/-- A frame whose first word is no instruction ends there. -/
theorem Player.playFrame_of_unknown {p : Player} (hTrap : p.console.machine.trap = none)
    (hProgram : p.console.machine.hasProgram = true) (hWait : p.console.machine.cpu.wait = none)
    (hSpeed : 0 < p.console.machine.conf.speed) (hWord : Instr.ofWord? p.console.nextWord = none) :
    p.playFrame.result =
        .error (.unknownOpcode p.console.nextWord p.console.machine.cpu.pc) ∧
      fetchedIn p.playFrame.records = [p.console.nextWord] := by
  have hPress := press_asleep hWait p.due
  rw [playFrame_result, playFrame_fetched, Console.cycle_records, Console.batch_eq_runSteps,
    Console.runSteps_fetched, hPress]
  obtain ⟨hFault, hFetched⟩ := Console.step_of_unknown
    (c := ⟨p.console.machine, withKeys (p.console.devices.keys.replay p.due) p.console.devices⟩)
    (Console.step_taken hTrap hProgram hWait) hWord
  have hStopped := Console.runSteps_of_stopped
    (fun flow hOk => by cases hFault.symm.trans hOk) hSpeed
  constructor
  · exact (Console.cycle_of_error (by rw [hStopped]; exact hFault)).1
  · rw [Console.stepped_of_stopped (fun flow hOk => by cases hFault.symm.trans hOk) hSpeed]
    exact hFetched

/-- A program that begins with an undefined word of the family `E`, which asks for key zero before
it fails, under a script that holds that key down and under an empty one. -/
theorem unread_keys_do_not_matter_undefined :
    let conf : Conf := { seed := some 7 }
    let first := ((Player.new (.seeded conf 1) [⟨0, 0, true⟩]).load [0xE0, 0x12]).state
    let second := ((Player.new (.seeded conf 2) []).load [0xE0, 0x12]).state
    (∀ word ∈ fetchedIn (first.play 1).records, ¬ word.ReadsKeys) ∧
    (second.play 1).result = .error (.unknownOpcode 0xE012 0x200) ∧
    Player.SameButKeys (first.afterFrames 1) (second.afterFrames 1) ∧
    (second.afterFrames 1).report = (first.afterFrames 1).report := by
  intro conf first second
  have hNext : first.console.nextWord = 0xE012 := Memory.fetch_ofProgram 0xE0 0x12 []
  obtain ⟨hFault, hFetched⟩ := Player.playFrame_of_unknown (p := first) rfl rfl rfl (by decide)
    (by rw [hNext]; rfl)
  rw [hNext] at hFault hFetched
  have hUnread : ∀ word ∈ fetchedIn (first.play 1).records, ¬ word.ReadsKeys := by
    intro word hMem
    obtain ⟨i, hi, hWord⟩ := Player.mem_fetched_play.1 hMem
    obtain rfl : i = 0 := Nat.lt_one_iff.1 hi
    obtain rfl : word = 0xE012 := by
      rw [Player.afterFrames, hFetched] at hWord
      exact List.mem_singleton.1 hWord
    rw [Word.ReadsKeys, Word.TestsKey]
    decide
  have hSeed : conf.seed = some 7 := rfl
  obtain ⟨hResult, -, hSame⟩ := unread_keys_do_not_matter hSeed 1 2 [0xE0, 0x12] [⟨0, 0, true⟩] [] 1
    hUnread
  refine ⟨hUnread, ?_, hSame 1 (Nat.le_refl 1)⟩
  rw [hResult, Player.play_succ_result]
  exact hFault

end Chip8
