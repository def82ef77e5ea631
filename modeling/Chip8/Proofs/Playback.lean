import Chip8.Proofs.Run
import Chip8.Settings
import Mathlib.Data.List.Basic

/-!
# Playing back a script of key events

A player takes events off the front of its script, in each frame those that
are due, and applies them before the batch. So an event waits for all that
stand before it: it is applied in the first frame whose number has reached the
largest among its own and theirs (`Player.dueFrame`), and since the number of
the frame grows by one at a time, or not at all after a failed frame, it is
that number exactly.

The log (`Player.applied`) lists the events applied so far, each with the call
that applied it. For a script sorted by frame, as settings files give it, the
calls of one frame number apply the events of that frame, in the order of the
file, and every key is where the last event for it has put it.

## Main results

* `Player.played_due` — what a call does.
* `Player.applied_getElem?` — which call applies which event.
* `Player.due_of_sorted` — what is applied when the script is sorted.
* `Player.isPressed_of_sorted` — where the keys are then.
* `script_playback` — all of it, from the loading of a program on.
-/

namespace Chip8

/-! ## Lists -/

section Lists

variable {α : Type}

private theorem dropWhile_dropWhile {p q : α → Bool} (hImp : ∀ a, p a = true → q a = true)
    (l : List α) : (l.dropWhile p).dropWhile q = l.dropWhile q := by
  induction l with
  | nil => rfl
  | cons a rest ih =>
      cases hp : p a with
      | true => rw [List.dropWhile_cons_of_pos hp, List.dropWhile_cons_of_pos (hImp a hp), ih]
      | false => rw [List.dropWhile_cons_of_neg (by simp [hp])]

private theorem takeWhile_dropWhile_self (p : α → Bool) (l : List α) :
    (l.dropWhile p).takeWhile p = [] := by
  induction l with
  | nil => rfl
  | cons a rest ih =>
      cases hp : p a with
      | true => rw [List.dropWhile_cons_of_pos hp, ih]
      | false =>
          have hNot : ¬ p a = true := by simp [hp]
          rw [List.dropWhile_cons_of_neg hNot, List.takeWhile_cons_of_neg hNot]

private theorem lt_length_takeWhile_iff (p : α → Bool) (l : List α) (i : Nat) :
    i < (l.takeWhile p).length ↔ i < l.length ∧ ∀ a ∈ l.take (i + 1), p a = true := by
  induction l generalizing i with
  | nil => simp
  | cons a rest ih =>
      cases hp : p a with
      | false => simp [hp]
      | true =>
          cases i with
          | zero => simp [hp]
          | succ i => simp [hp, ih]

private theorem foldr_max_le_iff (l : List Nat) (bound : Nat) :
    l.foldr max 0 ≤ bound ↔ ∀ n ∈ l, n ≤ bound := by
  induction l with
  | nil => simp
  | cons n rest ih => rw [List.foldr_cons, Nat.max_le, ih, List.forall_mem_cons]

end Lists

/-! ## Keys -/

/-- Where the keys are after events. -/
def Keypad.replay (events : List KeyEvent) (keys : Keypad) : Keypad :=
  events.foldl (fun keys event => keys.set event.key event.pressed) keys

/-- The last event for a key. -/
def KeyEvent.lastFor? (key : Key) (events : List KeyEvent) : Option KeyEvent :=
  (events.filter (·.key == key)).getLast?

/-- **The last event for a key decides** where it is, and without one it stays. -/
theorem Keypad.isPressed_replay (key : Key) (events : List KeyEvent) (keys : Keypad) :
    (keys.replay events).isPressed key =
      ((KeyEvent.lastFor? key events).map (·.pressed)).getD (keys.isPressed key) := by
  induction events generalizing keys with
  | nil => rfl
  | cons event rest ih =>
      rw [replay, List.foldl_cons, ← replay, ih]
      by_cases hKey : event.key = key
      · simp only [KeyEvent.lastFor?, List.filter_cons, hKey, BEq.rfl, if_true, List.getLast?_cons,
          isPressed_set_self]
        cases (rest.filter (·.key == key)).getLast? <;> rfl
      · have hOther : (event.key == key) = false := by simp [hKey]
        simp only [KeyEvent.lastFor?, List.filter_cons, hOther, isPressed_set_ne hKey]
        rfl

namespace Player

/-! ## One frame -/

/-- The events that the next frame applies. -/
def due (p : Player) : List KeyEvent := p.script.takeWhile (isDue p.frame)

/-- The console after events were applied to it. -/
def press (events : List KeyEvent) (c : Console Headless) : Console Headless :=
  events.foldl (fun c event => (applyEvent event c).1) c

theorem applyEvent_eq (event : KeyEvent) (c : Console Headless) :
    (applyEvent event c).1 =
      { machine := if event.pressed then (c.machine.keyDown event.key).state else c.machine
        devices := { c.devices with keys := c.devices.keys.set event.key event.pressed } } := by
  unfold applyEvent
  split
  · rfl
  · rfl

private theorem applyEvents_console (frame : Nat) (events : List KeyEvent) (c : Console Headless)
    (records : Array Record) : (applyEvents frame events c records).1 = press events c := by
  induction events generalizing c records with
  | nil => rfl
  | cons event rest ih => exact ih (applyEvent event c).1 _

private theorem keys_press (events : List KeyEvent) (c : Console Headless) :
    (press events c).devices.keys = c.devices.keys.replay events := by
  induction events generalizing c with
  | nil => rfl
  | cons event rest ih =>
      rw [press, List.foldl_cons, ← press, ih, applyEvent_eq]
      rfl

/-- A frame applied events, in their order and before its batch, and took them off the script. It
answers as the batch does, and it is counted if the batch ended well. -/
structure Played (p : Player) (events : List KeyEvent) : Prop where
  script : events ++ p.playFrame.state.script = p.script
  console : p.playFrame.state.console = (press events p.console).cycle.state
  result : p.playFrame.result = (press events p.console).cycle.result
  frame : p.playFrame.state.frame = if p.playFrame.result.isOk then p.frame + 1 else p.frame

theorem applyScript_player (p : Player) :
    p.applyScript.1 =
      { p with
        console := press p.due p.console, script := p.script.dropWhile (isDue p.frame) } := by
  rw [applyScript, applyEvents_console]
  rfl

theorem playFrame_result (p : Player) :
    p.playFrame.result = (press p.due p.console).cycle.result := by
  cases hBatch : (press p.due p.console).cycle.result with
  | ok answer => simp only [playFrame, applyScript_player, Outcome.after, hBatch]
  | error e => simp only [playFrame, applyScript_player, Outcome.after, hBatch]

theorem playFrame_state (p : Player) :
    p.playFrame.state =
      { console := (press p.due p.console).cycle.state
        script := p.script.dropWhile (isDue p.frame)
        frame := if p.playFrame.result.isOk then p.frame + 1 else p.frame } := by
  rw [playFrame_result]
  cases hBatch : (press p.due p.console).cycle.result with
  | ok answer =>
      simp only [playFrame, applyScript_player, Outcome.after, hBatch]
      rfl
  | error e =>
      simp only [playFrame, applyScript_player, Outcome.after, hBatch]
      rfl

/-- **What a frame does**: it plays the events that are due. -/
theorem played_due (p : Player) : p.Played p.due := by
  refine ⟨?_, ?_, p.playFrame_result, ?_⟩
  · rw [playFrame_state]
    exact List.takeWhile_append_dropWhile
  · rw [playFrame_state]
  · rw [playFrame_state]

private theorem playFrame_script (p : Player) :
    p.playFrame.state.script = p.script.dropWhile (isDue p.frame) := by
  rw [playFrame_state]

private theorem playFrame_frame (p : Player) :
    p.playFrame.state.frame = p.frame ∨ p.playFrame.state.frame = p.frame + 1 := by
  rw [p.played_due.frame]
  split
  · exact Or.inr rfl
  · exact Or.inl rfl

/-- A call that stays in its frame has spent the events that were due in it. -/
theorem due_of_sameFrame {p : Player} (h : p.playFrame.state.frame = p.frame) :
    p.playFrame.state.due = [] := by
  rw [due, playFrame_script, h]
  exact takeWhile_dropWhile_self _ p.script

/-! ## Many frames -/

/-- The state after a number of frames were played, failed ones among them. -/
def afterFrames : Nat → Player → Player
  | 0, p => p
  | n + 1, p => (afterFrames n p).playFrame.state

/-- The number of the frame that a call plays. -/
def frameAt (p : Player) (n : Nat) : Nat := (p.afterFrames n).frame

/-- A call is the first that plays a frame of some number. -/
structure PlaysFirst (p : Player) (frame n : Nat) : Prop where
  plays : p.frameAt n = frame
  first : ∀ m < n, p.frameAt m ≠ frame

theorem frameAt_succ (p : Player) (n : Nat) :
    p.frameAt (n + 1) = p.frameAt n ∨ p.frameAt (n + 1) = p.frameAt n + 1 :=
  (p.afterFrames n).playFrame_frame

theorem frameAt_mono (p : Player) {m n : Nat} (h : m ≤ n) : p.frameAt m ≤ p.frameAt n := by
  induction h with
  | refl => exact Nat.le_refl _
  | @step n _ ih =>
      rcases p.frameAt_succ n with hSame | hNext
      · rw [hSame]
        exact ih
      · rw [hNext]
        exact Nat.le_succ_of_le ih

/-- A call is the first of its number if it is the first of all, or the one before played the number
before. -/
theorem playsFirst_iff (p : Player) (n : Nat) :
    p.PlaysFirst (p.frameAt n) n ↔ ∀ m, n = m + 1 → p.frameAt n = p.frameAt m + 1 := by
  constructor
  · rintro ⟨_, hFirst⟩ m rfl
    rcases p.frameAt_succ m with hSame | hNext
    · exact absurd hSame.symm (hFirst m (Nat.lt_succ_self m))
    · exact hNext
  · intro hNext
    refine ⟨rfl, fun m hm => ?_⟩
    obtain ⟨k, rfl⟩ : ∃ k, n = k + 1 := ⟨n - 1, by omega⟩
    have hStep := hNext k rfl
    have hBefore : p.frameAt m ≤ p.frameAt k := p.frameAt_mono (Nat.le_of_lt_succ hm)
    omega

private theorem isDue_mono {frame later : Nat} (h : frame ≤ later) (event : KeyEvent)
    (hDue : isDue frame event = true) : isDue later event = true := by
  simp only [isDue, decide_eq_true_eq] at hDue ⊢
  exact Nat.le_trans hDue h

/-- What is left of the script depends on the last frame alone. -/
theorem script_afterFrames_succ (p : Player) (n : Nat) :
    (p.afterFrames (n + 1)).script = p.script.dropWhile (isDue (p.frameAt n)) := by
  induction n with
  | zero => exact p.playFrame_script
  | succ n ih =>
      rw [afterFrames, playFrame_script, ih]
      exact dropWhile_dropWhile (isDue_mono (p.frameAt_mono (Nat.le_succ n))) p.script

/-! ## The log -/

/-- The events that a number of frames applied, in order, each with the call that applied it. -/
def applied : Nat → Player → List (Nat × KeyEvent)
  | 0, _ => []
  | n + 1, p => applied n p ++ (p.afterFrames n).due.map fun event => (n, event)

private theorem due_append_script (p : Player) (n : Nat) :
    (p.afterFrames n).due ++ (p.afterFrames (n + 1)).script = (p.afterFrames n).script := by
  exact (p.afterFrames n).played_due.script

private theorem map_snd_logged (n : Nat) (events : List KeyEvent) :
    (events.map fun event => (n, event)).map Prod.snd = events := by
  rw [List.map_map]
  exact List.map_id _

/-- The log and what is left make up the script. -/
theorem applied_append_script (p : Player) (n : Nat) :
    (p.applied n).map Prod.snd ++ (p.afterFrames n).script = p.script := by
  induction n with
  | zero => rfl
  | succ n ih =>
      rw [applied, List.map_append, map_snd_logged, List.append_assoc, due_append_script, ih]

private theorem applied_succ_eq_takeWhile (p : Player) (n : Nat) :
    (p.applied (n + 1)).map Prod.snd = p.script.takeWhile (isDue (p.frameAt n)) := by
  have hSplit := p.applied_append_script (n + 1)
  rw [script_afterFrames_succ] at hSplit
  exact List.append_cancel_right (hSplit.trans List.takeWhile_append_dropWhile.symm)

/-- The largest frame of the events up to one: the frame that this event is applied in. -/
def dueFrame (script : List KeyEvent) (i : Nat) : Nat :=
  ((script.take (i + 1)).map (·.frame)).foldr max 0

/-- An event is applied by the first calls when their last frame has reached it and all before it.
-/
theorem lt_length_applied_iff (p : Player) {i : Nat} (hi : i < p.script.length) (n : Nat) :
    i < (p.applied (n + 1)).length ↔ dueFrame p.script i ≤ p.frameAt n := by
  rw [← List.length_map Prod.snd, applied_succ_eq_takeWhile, lt_length_takeWhile_iff, dueFrame,
    foldr_max_le_iff]
  simp only [hi, true_and, List.forall_mem_map, isDue, decide_eq_true_eq]

/-- An event is applied by a call that has reached it, when no call before had. -/
theorem playsFirst_dueFrame_iff {p : Player} (hStart : p.frame = 0) {i : Nat}
    (hi : i < p.script.length) (m : Nat) :
    p.PlaysFirst (dueFrame p.script i) m ↔
      (p.applied m).length ≤ i ∧ i < (p.applied (m + 1)).length := by
  rw [lt_length_applied_iff p hi]
  cases m with
  | zero =>
      have hZero : p.frameAt 0 = 0 := hStart
      constructor
      · rintro ⟨hPlays, _⟩
        exact ⟨Nat.zero_le i, Nat.le_of_eq hPlays.symm⟩
      · rintro ⟨_, hReached⟩
        refine ⟨by omega, fun m hm => absurd hm (Nat.not_lt_zero m)⟩
  | succ k =>
      have hBefore : (p.applied (k + 1)).length ≤ i ↔ p.frameAt k < dueFrame p.script i := by
        have h := lt_length_applied_iff p hi k
        omega
      rw [hBefore]
      have hNext := p.frameAt_succ k
      constructor
      · rintro ⟨hPlays, hFirst⟩
        have hOther := hFirst k (Nat.lt_succ_self k)
        omega
      · rintro ⟨hLater, hReached⟩
        refine ⟨by omega, fun m hm => ?_⟩
        have hEarlier := p.frameAt_mono (Nat.le_of_lt_succ hm)
        omega

/-- An event that the next frame applies is found among the events that are due. -/
theorem due_getElem? {p : Player} {i : Nat} {event : KeyEvent}
    (hEvent : p.script[i]? = some event) {n : Nat} (hAge : (p.applied n).length ≤ i)
    (hi : i < (p.applied (n + 1)).length) :
    (p.afterFrames n).due[i - (p.applied n).length]? = some event := by
  have hSplit : p.script = (p.applied n).map Prod.snd ++
      ((p.afterFrames n).due ++ (p.afterFrames (n + 1)).script) := by
    rw [due_append_script, applied_append_script]
  have hLength : (p.applied (n + 1)).length =
      (p.applied n).length + (p.afterFrames n).due.length := by
    rw [applied, List.length_append, List.length_map]
  rw [hSplit, List.getElem?_append_right (by rwa [List.length_map]), List.length_map,
    List.getElem?_append_left (by omega)] at hEvent
  exact hEvent

/-- **Which call applies which event**: the first that plays the frame the event is due in. -/
theorem applied_getElem? {p : Player} (hStart : p.frame = 0) {i : Nat} {event : KeyEvent}
    (hEvent : p.script[i]? = some event) (n m : Nat) :
    (p.applied n)[i]? = some (m, event) ↔ m < n ∧ p.PlaysFirst (dueFrame p.script i) m := by
  obtain ⟨hi, _⟩ := List.getElem?_eq_some_iff.1 hEvent
  induction n with
  | zero => simp [applied]
  | succ n ih =>
      by_cases hOld : i < (p.applied n).length
      · have hNot : ¬ p.PlaysFirst (dueFrame p.script i) n := by
          rw [playsFirst_dueFrame_iff hStart hi]
          omega
        rw [applied, List.getElem?_append_left hOld, ih]
        constructor
        · rintro ⟨hm, hFirst⟩
          exact ⟨Nat.lt_succ_of_lt hm, hFirst⟩
        · rintro ⟨hm, hFirst⟩
          have hNe : m ≠ n := by
            rintro rfl
            exact hNot hFirst
          exact ⟨by omega, hFirst⟩
      · have hAge : (p.applied n).length ≤ i := Nat.le_of_not_lt hOld
        constructor
        · intro hApplied
          obtain ⟨hLt, _⟩ := List.getElem?_eq_some_iff.1 hApplied
          rw [applied, List.getElem?_append_right hAge, List.getElem?_map,
            Option.map_eq_some_iff] at hApplied
          obtain ⟨_, _, hPair⟩ := hApplied
          cases hPair
          exact ⟨Nat.lt_succ_self _, (playsFirst_dueFrame_iff hStart hi _).2 ⟨hAge, hLt⟩⟩
        · rintro ⟨hm, hFirst⟩
          have hLast : m = n := by
            rcases Nat.lt_succ_iff_lt_or_eq.1 hm with hEarlier | hLast
            · obtain ⟨hLt, _⟩ := List.getElem?_eq_some_iff.1 (ih.2 ⟨hEarlier, hFirst⟩)
              exact absurd hLt hOld
            · exact hLast
          subst hLast
          have hLt := ((playsFirst_dueFrame_iff hStart hi m).1 hFirst).2
          rw [applied, List.getElem?_append_right hAge, List.getElem?_map,
            due_getElem? hEvent hAge hLt]
          rfl

/-! ## Where the keys are -/

private theorem keys_kept (keys : Keypad) : Devices.Kept fun d : Headless => d.keys = keys :=
  ⟨fun _ _ _ h => h, fun _ h => h, fun _ _ h => h, fun _ _ h => h, fun _ h => h⟩

/-- A batch moves no key. -/
theorem keys_cycle (c : Console Headless) : c.cycle.state.devices.keys = c.devices.keys :=
  (keys_kept c.devices.keys).invariant.cycle rfl

private theorem keys_afterFrames (p : Player) (n : Nat) :
    (p.afterFrames n).console.devices.keys =
      p.console.devices.keys.replay ((p.applied n).map Prod.snd) := by
  induction n with
  | zero => rfl
  | succ n ih =>
      rw [afterFrames, (p.afterFrames n).played_due.console, keys_cycle, keys_press, ih, applied,
        List.map_append, map_snd_logged]
      simp only [Keypad.replay, List.foldl_append]

/-- The keys stand in a frame as the script up to it has put them. -/
theorem keys_after (p : Player) (n : Nat) :
    (press (p.afterFrames n).due (p.afterFrames n).console).devices.keys =
      p.console.devices.keys.replay (p.script.takeWhile (isDue (p.frameAt n))) := by
  rw [← applied_succ_eq_takeWhile, ← keys_afterFrames, afterFrames,
    (p.afterFrames n).played_due.console, keys_cycle]

end Player

/-! ## Sorted scripts -/

/-- Events in the order of their frames. -/
def SortedByFrame (script : List KeyEvent) : Prop :=
  script.Pairwise fun a b => a.frame ≤ b.frame

namespace Player

private theorem takeWhile_isDue {script : List KeyEvent} (hSorted : SortedByFrame script)
    (frame : Nat) : script.takeWhile (isDue frame) = script.filter (isDue frame) := by
  induction script with
  | nil => rfl
  | cons event rest ih =>
      obtain ⟨hLe, hRest⟩ := List.pairwise_cons.1 hSorted
      cases hDue : isDue frame event with
      | true => rw [List.takeWhile_cons_of_pos hDue, List.filter_cons_of_pos hDue, ih hRest]
      | false =>
          rw [List.takeWhile_cons_of_neg (by simp [hDue]), List.filter_cons_of_neg (by simp [hDue])]
          symm
          rw [List.filter_eq_nil_iff]
          intro later hLater
          have hFrames := hLe later hLater
          simp only [isDue, decide_eq_true_eq, decide_eq_false_iff_not] at hDue ⊢
          omega

theorem dropWhile_isDue {script : List KeyEvent} (hSorted : SortedByFrame script) (frame : Nat) :
    script.dropWhile (isDue frame) = script.filter fun event => !isDue frame event := by
  induction script with
  | nil => rfl
  | cons event rest ih =>
      obtain ⟨hLe, hRest⟩ := List.pairwise_cons.1 hSorted
      cases hDue : isDue frame event with
      | true =>
          rw [List.dropWhile_cons_of_pos hDue, List.filter_cons_of_neg (by simp [hDue]), ih hRest]
      | false =>
          rw [List.dropWhile_cons_of_neg (by simp [hDue])]
          symm
          rw [List.filter_eq_self]
          intro later hLater
          have hFrames : event.frame ≤ later.frame := by
            rcases List.mem_cons.1 hLater with rfl | hMember
            · exact Nat.le_refl _
            · exact hLe later hMember
          simp only [isDue, Bool.not_eq_true', decide_eq_false_iff_not] at hDue ⊢
          omega

/-- A call that plays a frame again finds nothing due. -/
theorem due_of_repeated {p : Player} {n : Nat} (hRepeated : ¬ p.PlaysFirst (p.frameAt n) n) :
    (p.afterFrames n).due = [] := by
  rw [playsFirst_iff] at hRepeated
  cases n with
  | zero => exact absurd (fun m hm => absurd hm (Nat.succ_ne_zero m).symm) hRepeated
  | succ k =>
      have hSame : p.frameAt (k + 1) = p.frameAt k := by
        rcases p.frameAt_succ k with hSame | hNext
        · exact hSame
        · refine absurd ?_ hRepeated
          intro m hm
          obtain rfl : k = m := by omega
          exact hNext
      exact due_of_sameFrame hSame

/-- **What is applied when the script is sorted**: in the first call of a frame, its events. -/
theorem due_of_sorted {p : Player} (hStart : p.frame = 0) (hSorted : SortedByFrame p.script)
    {n : Nat} (hFirst : p.PlaysFirst (p.frameAt n) n) :
    (p.afterFrames n).due = p.script.filter (·.frame == p.frameAt n) := by
  cases n with
  | zero =>
      have hZero : p.frameAt 0 = 0 := hStart
      rw [afterFrames, due, hStart, takeWhile_isDue hSorted, hZero]
      apply List.filter_congr
      intro event _
      rw [isDue, Bool.eq_iff_iff]
      simp
  | succ k =>
      have hNext : p.frameAt (k + 1) = p.frameAt k + 1 := (p.playsFirst_iff (k + 1)).1 hFirst k rfl
      have hFrame : (p.afterFrames (k + 1)).frame = p.frameAt k + 1 := hNext
      rw [due, script_afterFrames_succ, hFrame, dropWhile_isDue hSorted,
        takeWhile_isDue (hSorted.filter _), List.filter_filter, hNext]
      apply List.filter_congr
      intro event _
      rw [isDue, isDue, Bool.eq_iff_iff]
      simp only [Bool.and_eq_true, Bool.not_eq_true', decide_eq_true_eq, decide_eq_false_iff_not,
        beq_iff_eq]
      omega

/-- The last event for a key decides where it is, once those up to a frame were applied. -/
theorem isPressed_of_sorted {p : Player} (hReleased : p.console.devices.keys = .released)
    (hSorted : SortedByFrame p.script) (n : Nat) (key : Key) :
    (press (p.afterFrames n).due (p.afterFrames n).console).devices.keys.isPressed key = true ↔
      ∃ event, KeyEvent.lastFor? key (p.script.filter (isDue (p.frameAt n))) = some event ∧
        event.pressed = true := by
  rw [keys_after, takeWhile_isDue hSorted, Keypad.isPressed_replay, hReleased,
    Keypad.isPressed_released]
  cases KeyEvent.lastFor? key (p.script.filter (isDue (p.frameAt n))) with
  | none => simp
  | some event => simp

end Player

namespace Settings

open Yaml (Node field?)

/-- The key events of a settings text as it lists them. -/
def listed? (text : String) : Option (List KeyEvent) := do
  let node ← Node.ofText? text
  let fields ← node.fields?
  let keys ← field? "keys" events? fields
  return keys.getD []

theorem keys_eq_sortByFrame {text : String} {settings : Settings}
    (h : ofText? text = some settings) :
    ∃ events, listed? text = some events ∧ settings.keys = sortByFrame events := by
  obtain ⟨node, hNode, h⟩ := Option.bind_eq_some_iff.1 h
  obtain ⟨fields, hFields, h⟩ := Option.bind_eq_some_iff.1 h
  obtain ⟨conf, _, h⟩ := Option.bind_eq_some_iff.1 h
  obtain ⟨frames, _, h⟩ := Option.bind_eq_some_iff.1 h
  obtain ⟨keys, hKeys, h⟩ := Option.bind_eq_some_iff.1 h
  refine ⟨keys.getD [], ?_, ?_⟩
  · simp [listed?, hNode, hFields, hKeys]
  · cases h
    rfl

private theorem frame_le_trans (a b c : KeyEvent) (hab : decide (a.frame ≤ b.frame) = true)
    (hbc : decide (b.frame ≤ c.frame) = true) : decide (a.frame ≤ c.frame) = true := by
  simp only [decide_eq_true_eq] at hab hbc ⊢
  exact Nat.le_trans hab hbc

private theorem frame_le_total (a b : KeyEvent) :
    (decide (a.frame ≤ b.frame) || decide (b.frame ≤ a.frame)) = true := by
  simp only [Bool.or_eq_true, decide_eq_true_eq]
  exact Nat.le_total _ _

theorem sorted_sortByFrame (events : List KeyEvent) : SortedByFrame (sortByFrame events) := by
  have hSorted := List.pairwise_mergeSort frame_le_trans frame_le_total events
  exact hSorted.imp fun h => of_decide_eq_true h

/-- Sorting keeps the order of the events of one frame: they are sorted as they are, and so they
stand in this order in what sorting gives. -/
theorem filter_sortByFrame (events : List KeyEvent) (frame : Nat) :
    (sortByFrame events).filter (·.frame == frame) = events.filter (·.frame == frame) := by
  have hFrame : (events.filter (·.frame == frame)).Pairwise
      fun a b => decide (a.frame ≤ b.frame) = true := by
    rw [List.pairwise_filter]
    refine List.pairwise_of_forall ?_
    intro a b ha hb
    simp only [beq_iff_eq] at ha hb
    simp [ha, hb]
  have hPart : (events.filter (·.frame == frame)).Sublist (sortByFrame events) :=
    List.sublist_mergeSort frame_le_trans frame_le_total hFrame List.filter_sublist
  have hFiltered := hPart.filter (·.frame == frame)
  rw [List.filter_filter] at hFiltered
  simp only [Bool.and_self] at hFiltered
  have hPerm := (List.mergeSort_perm events fun a b => a.frame ≤ b.frame).filter (·.frame == frame)
  exact (hFiltered.eq_of_length hPerm.length_eq.symm).symm

end Settings

/-! ## Playback -/

/-- A load that is accepted leaves the script alone and starts the frames and the keys over. -/
theorem Player.load_accepted {before : Player} {program : List UInt8}
    (h : (before.load program).result = .ok ()) :
    (before.load program).state.script = before.script ∧
      (before.load program).state.frame = 0 ∧
      (before.load program).state.console.devices.keys = .released := by
  by_cases hSize : isProgramSize program.length = true
  · simp only [load, Machine.load, hSize, if_true, true_and]
  · simp only [load, Machine.load, hSize] at h
    cases h

/-- **Playback of a script.**  After a program was loaded, every call applies the events that are
due before its batch, taking them off the front of the script, so that the log and what is left
make up the script. An event is applied by the first call that plays the largest frame among its
own and those before it. Applying it moves the key, and reports it to the machine if it went
down. When the script is that of a settings text, the calls of one frame apply the events that the
text lists for it, all in the first of them, and then a key is down if the last event for it so
far is a press. -/
theorem script_playback (before : Player) {program : List UInt8}
    (hAccepted : (before.load program).result = .ok ()) :
    let start := (before.load program).state
    (start.frame = 0 ∧ ∀ n, (start.afterFrames n).Played (start.afterFrames n).due) ∧
    (∀ n, (start.applied n).map Prod.snd ++ (start.afterFrames n).script = before.script) ∧
    (∀ i event, before.script[i]? = some event → ∀ n m,
      (start.applied n)[i]? = some (m, event) ↔
        m < n ∧ start.PlaysFirst (Player.dueFrame before.script i) m) ∧
    (∀ event c, (Player.applyEvent event c).1 =
      { machine := if event.pressed then (c.machine.keyDown event.key).state else c.machine
        devices := { c.devices with keys := c.devices.keys.set event.key event.pressed } }) ∧
    ∀ text settings, Settings.ofText? text = some settings → settings.keys = before.script →
      ∃ listed, Settings.listed? text = some listed ∧ ∀ n,
        (start.PlaysFirst (start.frameAt n) n →
          (start.afterFrames n).due = listed.filter (·.frame == start.frameAt n)) ∧
        (¬ start.PlaysFirst (start.frameAt n) n → (start.afterFrames n).due = []) ∧
        ∀ key,
          (Player.press (start.afterFrames n).due
              (start.afterFrames n).console).devices.keys.isPressed key = true ↔
            ∃ event, KeyEvent.lastFor? key
                (before.script.filter fun event => event.frame ≤ start.frameAt n) = some event ∧
              event.pressed = true := by
  intro start
  obtain ⟨hScript, hFrame, hKeys⟩ := Player.load_accepted hAccepted
  refine ⟨⟨hFrame, fun n => (start.afterFrames n).played_due⟩, ?_, ?_, Player.applyEvent_eq, ?_⟩
  · intro n
    rw [← hScript]
    exact start.applied_append_script n
  · intro i event hEvent n m
    rw [← hScript] at hEvent ⊢
    exact Player.applied_getElem? hFrame hEvent n m
  · intro text settings hText hSettings
    obtain ⟨listed, hListed, hSort⟩ := Settings.keys_eq_sortByFrame hText
    have hSorting : start.script = Settings.sortByFrame listed := by
      rw [hScript, ← hSettings, hSort]
    have hSorted : SortedByFrame start.script := by
      rw [hSorting]
      exact Settings.sorted_sortByFrame listed
    refine ⟨listed, hListed, fun n => ⟨?_, Player.due_of_repeated, ?_⟩⟩
    · intro hFirst
      rw [Player.due_of_sorted hFrame hSorted hFirst, hSorting, Settings.filter_sortByFrame]
    · intro key
      rw [Player.isPressed_of_sorted hKeys hSorted n key, hScript]
      rfl

/-- A settings text that lists a later event first. -/
theorem Settings.ofText?_twoKeys :
    ∃ settings, ofText? "keys:\n- frame: 4\n  key: 5\n- frame: 0\n  key: 3\n" = some settings ∧
      settings.keys = [⟨0, 3, true⟩, ⟨4, 5, true⟩] := by
  have hNode : Yaml.Node.ofText? "keys:\n- frame: 4\n  key: 5\n- frame: 0\n  key: 3\n" =
      some (.mapping [(.scalar true "keys".toList, .sequence [
        .mapping [(.scalar true "frame".toList, .scalar true ['4']),
          (.scalar true "key".toList, .scalar true ['5'])],
        .mapping [(.scalar true "frame".toList, .scalar true ['0']),
          (.scalar true "key".toList, .scalar true ['3'])]])]) := by
    cbv
  have hSort : sortByFrame [⟨4, 5, true⟩, ⟨0, 3, true⟩] = [⟨0, 3, true⟩, ⟨4, 5, true⟩] := by
    simp [sortByFrame, List.mergeSort]
  rw [ofText?, hNode]
  exact ⟨_, rfl, hSort⟩

/-- Key three goes down at once, and key five in frame four. -/
theorem script_playback_of_text :
    let text := "keys:\n- frame: 4\n  key: 5\n- frame: 0\n  key: 3\n"
    let script : List KeyEvent := [⟨0, 3, true⟩, ⟨4, 5, true⟩]
    let start := ((Player.new (.new {} (.cycling [1])) script).load [0x12, 0x00]).state
    let pressed := Player.press (start.afterFrames 0).due (start.afterFrames 0).console
    (∃ settings, Settings.ofText? text = some settings ∧ settings.keys = script) ∧
    (start.applied 1)[0]? = some (0, ⟨0, 3, true⟩) ∧
    (∀ n m, (start.applied n)[1]? = some (m, ⟨4, 5, true⟩) ↔ m < n ∧ start.PlaysFirst 4 m) ∧
    (∃ listed, Settings.listed? text = some listed ∧
      (start.afterFrames 0).due = listed.filter (·.frame == 0)) ∧
    pressed.devices.keys.isPressed 3 = true ∧ ¬ pressed.devices.keys.isPressed 5 = true := by
  intro text script start pressed
  have hAccepted : ((Player.new (.new {} (.cycling [1])) script).load [0x12, 0x00]).result =
      .ok () := rfl
  obtain ⟨⟨hFrame, -⟩, -, hApplied, -, hListed⟩ := script_playback _ hAccepted
  obtain ⟨settings, hText, hKeys⟩ := Settings.ofText?_twoKeys
  obtain ⟨listed, hList, hCalls⟩ := hListed text settings hText hKeys
  obtain ⟨hDue, -, hPressed⟩ := hCalls 0
  have hFirst : start.PlaysFirst 0 0 := ⟨hFrame, fun m hm => absurd hm (Nat.not_lt_zero m)⟩
  refine ⟨⟨settings, hText, hKeys⟩, ?_, ?_, ⟨listed, hList, ?_⟩, ?_, ?_⟩
  · exact (hApplied 0 ⟨0, 3, true⟩ rfl 1 0).2 ⟨Nat.zero_lt_one, hFirst⟩
  · exact hApplied 1 ⟨4, 5, true⟩ rfl
  · exact hDue hFirst
  · exact (hPressed 3).2 ⟨⟨0, 3, true⟩, rfl, rfl⟩
  · rw [hPressed 5]
    rintro ⟨event, hLast, -⟩
    cases hLast

end Chip8
