import Chip8.Proofs.Composition
import Chip8.Proofs.Loading
import Chip8.Proofs.Wakeup
import Mathlib.Data.List.TakeWhile

/-!
# Waiting for a scripted key

When a machine waits for a key, the frames go by without it: a batch in a wait
executes nothing and stops the timers, and of the events that are applied
before it only a press is reported to the machine. So the machine is the same
at the start of the frame that has the next press in the script
(`Player.nextPress?`), and if there is no such frame it is the same for ever. In
that frame the first press puts its key into the register, and those behind it
find no wait any more.

The script has to be sorted by frame, as settings files give it. An event that
stands behind a later one comes too late, in another frame than its own.

## Main results

* `Player.press_waiting` — the events of a frame in a wait.
* `Player.Waits.quiet` — the frames up to the next press.
* `wait_over_frames` — a wait from any frame on to its end.
-/

namespace Chip8

/-! ## What is kept from frame to frame -/

namespace Player

variable {allowed : Operation → Prop} {P : Machine → Prop}

private theorem machine_press (inv : Invariant (δ := Headless) allowed fun c => P c.machine)
    (hKeys : ∀ key, allowed (.keyDown key)) (events : List KeyEvent) {c : Console Headless}
    (h : P c.machine) : P (press events c).machine := by
  induction events generalizing c with
  | nil => exact h
  | cons event rest ih =>
      refine ih (c := (applyEvent event c).1) ?_
      rw [applyEvent_eq]
      show P (if event.pressed then (c.machine.keyDown event.key).state else c.machine)
      split
      · exact inv.keyDown c event.key (hKeys event.key) h
      · exact h

/-- What key presses and batches keep of the machine, frames keep. -/
theorem machine_afterFrames (inv : Invariant (δ := Headless) allowed fun c => P c.machine)
    (hKeys : ∀ key, allowed (.keyDown key)) {p : Player} (h : P p.console.machine) (n : Nat) :
    P (p.afterFrames n).console.machine := by
  induction n with
  | zero => exact h
  | succ n ih =>
      rw [afterFrames, (p.afterFrames n).played_due.console]
      exact inv.cycle (machine_press inv hKeys _ ih)

/-- A player whose machine has a program, has not halted, and waits for a key into a register. -/
structure Waits (x : Reg) (p : Player) : Prop where
  wait : p.console.machine.cpu.wait = some x
  trap : p.console.machine.trap = none
  hasProgram : p.console.machine.hasProgram = true

theorem Waits.of_machine {x : Reg} {p q : Player} (h : p.Waits x)
    (hSame : q.console.machine = p.console.machine) : q.Waits x :=
  ⟨hSame ▸ h.wait, hSame ▸ h.trap, hSame ▸ h.hasProgram⟩

/-- A machine that waits after a load has not halted since. -/
theorem waits_of_loaded {before : Player} {program : List UInt8}
    (hAccepted : (before.load program).result = .ok ()) {n : Nat} {x : Reg}
    (hWait : ((before.load program).state.afterFrames n).console.machine.cpu.wait = some x) :
    ((before.load program).state.afterFrames n).Waits x := by
  have hLoaded := machine_of_loaded hAccepted
  have hProgram := machine_afterFrames (P := fun m => m.hasProgram = true) Console.hasProgram_kept
    (fun _ => trivial) (by rw [hLoaded]) n
  have hTrapped := machine_afterFrames (P := fun m => ∀ e, m.trap = some e → m.Trapped e)
    Console.trapped_kept (fun _ => rfl) (by rw [hLoaded]; intro e hNew; cases hNew) n
  refine ⟨hWait, ?_, hProgram⟩
  cases hTrap : ((before.load program).state.afterFrames n).console.machine.trap with
  | none => rfl
  | some e => cases hWait.symm.trans (hTrapped e hTrap).wait

end Player

/-! ## Events in a wait -/

namespace Player

/-- The machine after events in a wait: the first press among them ends it. -/
def wakeUp (events : List KeyEvent) (m : Machine) : Machine :=
  match events.find? (·.pressed) with
  | some event => (m.keyDown event.key).state
  | none => m

/-- The same devices with other keys down. -/
def withKeys (keys : Keypad) (d : Headless) : Headless := { d with keys }

private theorem applyEvent_asleep {c : Console Headless} {event : KeyEvent}
    (h : event.pressed = false ∨ c.machine.cpu.wait = none) :
    (applyEvent event c).1 =
      ⟨c.machine, withKeys (c.devices.keys.set event.key event.pressed) c.devices⟩ := by
  rw [applyEvent_eq]
  rcases h with hReleased | hWait
  · rw [hReleased]
    rfl
  · rw [(Machine.keyDown_asleep hWait event.key).2, ite_self]
    rfl

/-- Events move keys and nothing else when the machine does not wait. -/
theorem press_asleep {c : Console Headless} (hWait : c.machine.cpu.wait = none)
    (events : List KeyEvent) :
    press events c = ⟨c.machine, withKeys (c.devices.keys.replay events) c.devices⟩ := by
  induction events generalizing c with
  | nil => rfl
  | cons event rest ih =>
      show press rest (applyEvent event c).1 = _
      rw [applyEvent_asleep (Or.inr hWait)]
      exact ih (c := ⟨c.machine, withKeys _ c.devices⟩) hWait

/-- **Events in a wait**: each moves its key, and the first press ends the wait. -/
theorem press_waiting {c : Console Headless} {x : Reg} (hWait : c.machine.cpu.wait = some x)
    (events : List KeyEvent) :
    press events c =
      ⟨wakeUp events c.machine, withKeys (c.devices.keys.replay events) c.devices⟩ := by
  induction events generalizing c with
  | nil => rfl
  | cons event rest ih =>
      show press rest (applyEvent event c).1 = _
      cases hPressed : event.pressed with
      | true =>
          have hWoken := (Machine.keyDown_woken hWait event.key).2
          have hFirst : (applyEvent event c).1 = ⟨(c.machine.keyDown event.key).state,
              withKeys (c.devices.keys.set event.key event.pressed) c.devices⟩ := by
            rw [applyEvent_eq, if_pos hPressed]
            rfl
          rw [hFirst, press_asleep hWoken.wait, wakeUp, List.find?_cons_of_pos hPressed]
          rfl
      | false =>
          rw [applyEvent_asleep (Or.inl hPressed), wakeUp,
            List.find?_cons_of_neg (by simp [hPressed])]
          exact ih (c := ⟨c.machine, withKeys _ c.devices⟩) hWait

private theorem wakeUp_of_released {events : List KeyEvent}
    (hNone : ∀ event ∈ events, event.pressed = false) (m : Machine) : wakeUp events m = m := by
  have hFind : events.find? (·.pressed) = none := by
    rw [List.find?_eq_none]
    intro event hMem
    simp [hNone event hMem]
  rw [wakeUp, hFind]

/-! ## Frames in a wait -/

/-- A frame in a wait with no press among its events. -/
theorem Waits.playFrame {x : Reg} {p : Player} (h : p.Waits x)
    (hNone : ∀ event ∈ p.due, event.pressed = false) :
    p.playFrame.result = .ok () ∧ p.playFrame.state.frame = p.frame + 1 ∧
      p.playFrame.state.console.machine = p.console.machine ∧
      p.playFrame.state.console.devices.display = p.console.devices.display := by
  have hPress : press p.due p.console =
      ⟨p.console.machine, withKeys (p.console.devices.keys.replay p.due) p.console.devices⟩ := by
    rw [press_waiting h.wait, wakeUp_of_released hNone]
  have hWaiting : p.console.machine.isWaiting = true := by simp [Machine.isWaiting, h.wait]
  obtain ⟨hResult, hPaused⟩ := Console.cycle_waiting
    (c := ⟨p.console.machine, withKeys (p.console.devices.keys.replay p.due) p.console.devices⟩)
    h.trap h.hasProgram hWaiting
  have hPlayed := p.played_due
  have hOk : p.playFrame.result = .ok () := by rw [hPlayed.result, hPress, hResult]
  refine ⟨hOk, by rw [hPlayed.frame, hOk]; rfl, ?_, ?_⟩
  · rw [hPlayed.console, hPress]
    exact hPaused.machine
  · rw [hPlayed.console, hPress]
    exact hPaused.view Headless.display Headless.toneBlind_display

private theorem script_suffix (p : Player) (n : Nat) : (p.afterFrames n).script <:+ p.script :=
  ⟨_, p.applied_append_script n⟩

/-- An event that a frame applies has stood in the script all along, for no later frame. -/
theorem mem_due {p : Player} {n : Nat} {event : KeyEvent} (h : event ∈ (p.afterFrames n).due) :
    event ∈ p.script ∧ event.frame ≤ (p.afterFrames n).frame := by
  refine ⟨(p.script_suffix n).subset ((List.takeWhile_prefix _).subset h), ?_⟩
  have hDue : isDue (p.afterFrames n).frame event = true := List.mem_takeWhile_imp h
  simpa [isDue] using hDue

/-- What is left of a sorted script is not for frames that were played. -/
theorem frame_le_of_mem {p : Player} (hStart : p.frame = 0) (hSorted : SortedByFrame p.script)
    {n : Nat} {event : KeyEvent} (h : event ∈ (p.afterFrames n).script) :
    (p.afterFrames n).frame ≤ event.frame := by
  cases n with
  | zero =>
      have hZero : (p.afterFrames 0).frame = 0 := hStart
      omega
  | succ n =>
      rw [script_afterFrames_succ, dropWhile_isDue hSorted] at h
      have hLater : ¬ event.frame ≤ p.frameAt n := by simpa [isDue] using (List.mem_filter.1 h).2
      have hNext := p.frameAt_succ n
      show p.frameAt (n + 1) ≤ event.frame
      omega

/-! ## The next press -/

/-- The frame of the next press: the least, from the present frame on, of which a press is still in
the script. -/
def nextPress? (p : Player) : Option Nat :=
  ((p.script.filter fun event => event.pressed && p.frame ≤ event.frame).map (·.frame)).min?

private theorem nextPress?_eq_some {p : Player} {g : Nat} (h : p.nextPress? = some g) :
    p.frame ≤ g ∧ ∃ event ∈ p.script, event.pressed = true ∧ event.frame = g := by
  obtain ⟨event, hEvent, rfl⟩ := List.mem_map.1 (List.min?_eq_some_iff.1 h).1
  obtain ⟨hMem, hPress⟩ := List.mem_filter.1 hEvent
  rw [Bool.and_eq_true, decide_eq_true_iff] at hPress
  exact ⟨hPress.2, event, hMem, hPress.1, rfl⟩

/-- A press in the script is not before the next one. -/
theorem le_of_nextPress? {p : Player} {bound : Nat} (hNext : ∀ g, p.nextPress? = some g → bound ≤ g)
    {event : KeyEvent} (hMem : event ∈ p.script) (hPressed : event.pressed = true)
    (hFrame : p.frame ≤ event.frame) : bound ≤ event.frame := by
  have hListed : event.frame ∈
      (p.script.filter fun event => event.pressed && p.frame ≤ event.frame).map (·.frame) := by
    refine List.mem_map.2 ⟨event, List.mem_filter.2 ⟨hMem, ?_⟩, rfl⟩
    simp [hPressed, hFrame]
  cases hMin : p.nextPress? with
  | none =>
      rw [nextPress?, List.min?_eq_none_iff] at hMin
      rw [hMin] at hListed
      cases hListed
  | some g => exact Nat.le_trans (hNext g hMin) ((List.min?_eq_some_iff.1 hMin).2 _ hListed)

/-- The script has no event for a frame that was played, as a sorted script has none. -/
def Upcoming (p : Player) : Prop := ∀ event ∈ p.script, p.frame ≤ event.frame

/-- No press is applied before the frame of the next one. -/
theorem released_of_due {p : Player} (hUpcoming : p.Upcoming) {k : Nat}
    (hFrame : (p.afterFrames k).frame = p.frame + k)
    (hNext : ∀ g, p.nextPress? = some g → p.frame + (k + 1) ≤ g) :
    ∀ event ∈ (p.afterFrames k).due, event.pressed = false := by
  intro event hDue
  obtain ⟨hMem, hLe⟩ := mem_due hDue
  cases hPressed : event.pressed with
  | false => rfl
  | true =>
      have hLater := le_of_nextPress? hNext hMem hPressed (hUpcoming event hMem)
      omega

/-- **The frames up to the next press** leave the machine and the display as they are. -/
theorem Waits.quiet {x : Reg} {p : Player} (h : p.Waits x) (hUpcoming : p.Upcoming) (k : Nat)
    (hNext : ∀ g, p.nextPress? = some g → p.frame + k ≤ g) :
    (p.afterFrames k).frame = p.frame + k ∧
      (p.afterFrames k).console.machine = p.console.machine ∧
      (p.afterFrames k).console.devices.display = p.console.devices.display := by
  induction k with
  | zero => exact ⟨rfl, rfl, rfl⟩
  | succ k ih =>
      obtain ⟨hFrame, hMachine, hDisplay⟩ := ih fun g hg => by have := hNext g hg; omega
      obtain ⟨-, hCounted, hSame, hShown⟩ :=
        (h.of_machine hMachine).playFrame (released_of_due hUpcoming hFrame hNext)
      refine ⟨?_, hSame.trans hMachine, hShown.trans hDisplay⟩
      rw [afterFrames, hCounted, hFrame]
      rfl

/-- The frame before one that begins in a wait ended well: a frame that fails makes the next one
fail, which has no events left, and in a wait such a frame ends well. -/
theorem Waits.playsFirst {x : Reg} {p : Player} {n : Nat} (h : (p.afterFrames n).Waits x) :
    p.PlaysFirst (p.frameAt n) n := by
  rw [playsFirst_iff]
  rintro m rfl
  cases hBefore : (p.afterFrames m).playFrame.result with
  | ok answer =>
      rw [frameAt, afterFrames, (p.afterFrames m).played_due.frame, hBefore]
      rfl
  | error e =>
      have hNone : ∀ event ∈ (p.afterFrames (m + 1)).due, event.pressed = false := by
        rw [afterFrames, due_of_failed hBefore]
        exact fun event hMem => absurd hMem List.not_mem_nil
      have hOk := (h.playFrame hNone).1
      rw [afterFrames, playFrame_repeats hBefore] at hOk
      cases hOk

/-- What is applied before the first press of a frame, and after it. -/
theorem wakeUp_of_prefix {events done later : List KeyEvent} (hSplit : events = done ++ later)
    (m : Machine) :
    wakeUp done m = if done.any (·.pressed) then wakeUp events m else m := by
  cases hFind : done.find? (·.pressed) with
  | none =>
      have hNone : done.any (·.pressed) = false := by
        rw [List.any_eq_false]
        simpa using hFind
      rw [wakeUp, hFind, hNone]
      rfl
  | some event =>
      have hSome : done.any (·.pressed) = true :=
        List.any_eq_true.2 ⟨event, List.mem_of_find?_eq_some hFind, by
          simpa using List.find?_some hFind⟩
      have hFirst : events.find? (·.pressed) = some event := by
        rw [hSplit, List.find?_append, hFind]
        rfl
      rw [wakeUp, wakeUp, hFind, hFirst, if_pos hSome]

end Player

/-! ## A wait from its frame to its end -/

/-- **A wait over frames.**  After a program was loaded and some frames were played from a script
that is sorted, let the machine wait for a key into a register. The frames before that of the next
press in the script end well and leave the machine and the display as they are, and so do all frames
if there is no such press. The frame of the next press begins in the same state, its first press
puts the key into the register and ends the wait, and all its other events move keys and nothing
else before the batch. -/
theorem wait_over_frames {before : Player} {program : List UInt8}
    (hAccepted : (before.load program).result = .ok ()) (hSorted : SortedByFrame before.script)
    (n : Nat) {x : Reg}
    (hWait : ((before.load program).state.afterFrames n).console.machine.cpu.wait = some x) :
    let p := (before.load program).state.afterFrames n
    (∀ k, (∀ g, p.nextPress? = some g → p.frame + k < g) →
      (p.afterFrames k).frame = p.frame + k ∧ (p.afterFrames k).playFrame.result = .ok () ∧
      (p.afterFrames (k + 1)).console.machine = p.console.machine ∧
      (p.afterFrames (k + 1)).console.devices.display = p.console.devices.display) ∧
    ∀ g, p.nextPress? = some g →
      let q := p.afterFrames (g - p.frame)
      let pressed := Player.press q.due q.console
      q.frame = g ∧ q.console.machine = p.console.machine ∧
      q.console.devices.display = p.console.devices.display ∧
      q.due = before.script.filter (·.frame == g) ∧ q.Played q.due ∧
      (∃ event, q.due.find? (·.pressed) = some event ∧
        p.console.machine.Woken x event.key pressed.machine) ∧
      ∀ done later, q.due = done ++ later →
        Player.press done q.console =
          { machine := if done.any (·.pressed) then pressed.machine else q.console.machine
            devices := { q.console.devices with keys := q.console.devices.keys.replay done } } := by
  intro p
  obtain ⟨hScript, hFrame, -⟩ := Player.load_accepted hAccepted
  have hWaits : p.Waits x := Player.waits_of_loaded hAccepted hWait
  rw [← hScript] at hSorted
  have hUpcoming : p.Upcoming := fun _ hMem => Player.frame_le_of_mem hFrame hSorted hMem
  constructor
  · intro k hNext
    obtain ⟨hCount, hMachine, -⟩ := hWaits.quiet hUpcoming k fun g hg => Nat.le_of_lt (hNext g hg)
    obtain ⟨-, hLater⟩ := hWaits.quiet hUpcoming (k + 1) hNext
    have hOk := ((hWaits.of_machine hMachine).playFrame
      (Player.released_of_due hUpcoming hCount hNext)).1
    exact ⟨hCount, hOk, hLater⟩
  · intro g hg q pressed
    obtain ⟨hLe, event, hMem, hPressed, rfl⟩ := Player.nextPress?_eq_some hg
    have hNext : ∀ h, p.nextPress? = some h → p.frame + (event.frame - p.frame) ≤ h := by
      intro h hh
      cases hg.symm.trans hh
      omega
    obtain ⟨hCount, hMachine, hDisplay⟩ := hWaits.quiet hUpcoming _ hNext
    have hFrameQ : q.frame = event.frame := by
      rw [hCount]
      omega
    have hWaitsQ : q.Waits x := hWaits.of_machine hMachine
    have hQ : (before.load program).state.afterFrames (n + (event.frame - p.frame)) = q :=
      Player.afterFrames_add n _ _
    have hDue : q.due = before.script.filter (·.frame == event.frame) := by
      have hFirst := Player.Waits.playsFirst (hQ.symm ▸ hWaitsQ)
      rw [← hQ, Player.due_of_sorted hFrame hSorted hFirst, Player.frameAt, hQ, hFrameQ, hScript]
    have hListed : event ∈ q.due := by
      rw [hDue, ← hScript]
      exact List.mem_filter.2 ⟨(Player.script_suffix _ n).subset hMem, beq_self_eq_true _⟩
    obtain ⟨first, hFind⟩ : ∃ first, q.due.find? (·.pressed) = some first :=
      Option.isSome_iff_exists.1 (List.find?_isSome.2 ⟨event, hListed, hPressed⟩)
    have hEvents : pressed = _ := Player.press_waiting hWaitsQ.wait q.due
    refine ⟨hFrameQ, hMachine, hDisplay, hDue, q.played_due, ⟨first, hFind, ?_⟩, ?_⟩
    · rw [hEvents, Player.wakeUp, hFind, ← hMachine]
      exact (Machine.keyDown_woken hWaitsQ.wait first.key).2
    · intro done later hSplit
      rw [hEvents, Player.press_waiting hWaitsQ.wait, Player.wakeUp_of_prefix hSplit]
      rfl

/-- A program that begins with `Fx0A` waits after its first frame, whatever events it has. -/
theorem Player.waits_after_first {before : Player} {high low : UInt8} {rest : List UInt8} {x : Reg}
    (hAccepted : (before.load (high :: low :: rest)).result = .ok ())
    (hWord : (Word.ofBytes high low).awaited? = some x)
    (hSpeed : 0 < before.console.machine.conf.speed) :
    ((before.load (high :: low :: rest)).state.afterFrames 1).console.machine.cpu.wait =
      some x := by
  have hLoaded := machine_of_loaded hAccepted
  generalize (before.load (high :: low :: rest)).state = start at hLoaded ⊢
  have hPress := press_asleep (c := start.console) (by rw [hLoaded]; rfl) start.due
  rw [hLoaded] at hPress
  rw [afterFrames, afterFrames, start.played_due.console, hPress]
  generalize withKeys (start.console.devices.keys.replay start.due) start.console.devices = devices
  let c : Console Headless := ⟨{ before.console.machine with
    cpu := .loaded (high :: low :: rest), hasProgram := true, trap := none }, devices⟩
  have hNext : c.nextWord.awaited? = some x := by
    rw [← hWord, ← Memory.fetch_ofProgram high low rest]
    rfl
  obtain ⟨hStep, hState⟩ := Console.step_of_awaited (Console.step_taken rfl rfl rfl) hNext
  have hRan : c.runSteps c.machine.conf.speed = c.step :=
    Console.runSteps_of_stopped (fun flow h => by cases hStep.symm.trans h; rfl) hSpeed
  rw [(Console.cycle_of_ok (hRan ▸ hStep)).2, Console.finishBatch_wait, hRan, hState]
  rfl

/-- A program that waits for `V3` at once. Key nine, let go in frame two, is pressed in frame four
together with key two. -/
theorem wait_over_frames_to_press :
    let script : List KeyEvent := [⟨2, 9, false⟩, ⟨4, 7, false⟩, ⟨4, 9, true⟩, ⟨4, 2, true⟩]
    let start := ((Player.new (.new {} (.cycling [1])) script).load [0xF3, 0x0A]).state
    let p := start.afterFrames 1
    let q := p.afterFrames 3
    p.console.machine.cpu.wait = some 3 ∧ p.nextPress? = some 4 ∧
    (p.afterFrames 2).playFrame.result = .ok () ∧
    q.frame = 4 ∧ q.console.machine = p.console.machine ∧
    q.due = [⟨4, 7, false⟩, ⟨4, 9, true⟩, ⟨4, 2, true⟩] ∧
    p.console.machine.Woken 3 9 (Player.press q.due q.console).machine := by
  intro script
  obtain ⟨before, hBefore⟩ : ∃ before, before = Player.new (.new {} (.cycling [1])) script :=
    ⟨_, rfl⟩
  have hAccepted : (before.load [0xF3, 0x0A]).result = .ok () := by
    rw [hBefore]
    rfl
  have hSorted : SortedByFrame before.script := by
    rw [hBefore]
    simp [SortedByFrame, script, Player.new]
  have hWait : ((before.load [0xF3, 0x0A]).state.afterFrames 1).console.machine.cpu.wait = some 3 :=
    Player.waits_after_first hAccepted rfl (by rw [hBefore]; decide)
  have hListed : before.script = script := by rw [hBefore]; rfl
  rw [← hBefore]
  intro start p q
  have hFrame : p.frame = 1 :=
    (start.playsFirst_iff 1).1 (Player.waits_of_loaded hAccepted hWait).playsFirst 0 rfl
  have hScript : p.script = script := by
    obtain ⟨hKept, hZero, -⟩ := Player.load_accepted hAccepted
    rw [start.script_afterFrames_succ 0]
    show start.script.dropWhile (Player.isDue start.frame) = script
    rw [hKept, hZero, hListed]
    rfl
  have hPress : p.nextPress? = some 4 := by
    rw [Player.nextPress?, hScript, hFrame]
    rfl
  obtain ⟨hQuiet, hEnd⟩ := wait_over_frames hAccepted hSorted 1 hWait
  have hThird := hQuiet 2 fun g hg => by
    cases hPress.symm.trans hg
    rw [hFrame]
    decide
  have hFourth : p.afterFrames (4 - p.frame) = q := by rw [hFrame]
  obtain ⟨hPlayed, hMachine, -, hDue, -, ⟨event, hFind, hWoken⟩, -⟩ := hEnd 4 hPress
  rw [hFourth] at hPlayed hMachine hDue hFind hWoken
  have hList : q.due = [⟨4, 7, false⟩, ⟨4, 9, true⟩, ⟨4, 2, true⟩] := by
    rw [hListed] at hDue
    exact hDue
  rw [hList] at hFind
  cases hFind
  exact ⟨hWait, hPress, hThird.2.1, hPlayed, hMachine, hList, hWoken⟩

end Chip8
