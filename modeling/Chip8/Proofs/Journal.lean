import Chip8.Proofs.Composition

/-!
# What a player writes down

A frame makes three kinds of records, one after the other: those of the key
events that were due, those of the steps of its batch, and the change of the
buzzer if the batch ended well. A run makes those of its frames, between one
that says how it was started and, if it ended well, one that says that it
stopped. Since a frame that failed has nothing to write down when it is played
again, this is true of runs that stop early too.

## Main results

* `Player.playFrame_records` — the records of a frame.
* `Player.play_records` — the records of a run.
* `Player.mem_fetched_play` — the words that a run fetches.
-/

namespace Chip8

namespace Record

/-- Whether a record is about a step. -/
def ofStep : Record → Bool
  | .fetched .. => true
  | .waiting _ => true
  | .dropped .. => true
  | .halted _ => true
  | _ => false

/-- Whether a record is about a key event. -/
def ofKey : Record → Bool
  | .keyEvent .. => true
  | .resolved .. => true
  | _ => false

private theorem fetchedWord?_of_key {r : Record} (h : r.ofKey = true) : r.fetchedWord? = none := by
  cases r <;> first | rfl | cases h

end Record

/-! ## Steps -/

namespace Console

variable {δ : Type} [Devices δ]

private theorem step_ofStep (c : Console δ) : ∀ r ∈ c.step.records, r.ofStep = true := by
  have hExecute : ∀ r ∈ (c.execute c.nextWord).records, r.ofStep = true :=
    c.execute_records (fun _ _ => rfl) (fun _ => rfl) c.nextWord
  rcases c.step_cases with ⟨_, _, hStep⟩ | ⟨_, _, hStep⟩ | ⟨_, _, _, hStep⟩ | ⟨_, _, _, hStep⟩
  · simp [hStep, fail]
  · simp [hStep, fail]
  · simp [hStep, done]
  · rw [hStep]
    cases hResult : (c.execute c.nextWord).result with
    | ok flow =>
        rw [fetchExecute_of_ok hResult]
        simpa [Outcome.after, Record.ofStep] using hExecute
    | error fault =>
        rw [fetchExecute_of_error hResult]
        simpa [Record.ofStep, or_imp, forall_and] using hExecute

/-- The records of a batch are those of its steps. -/
theorem cycle_ofStep (c : Console δ) : ∀ r ∈ c.cycle.records, r.ofStep = true := by
  rw [cycle_records]
  refine Outcome.repeatUntil_kept (P := fun o : Outcome (Console δ) Flow =>
    ∀ r ∈ o.records, r.ofStep = true) ?_ _ (fun r h => by simp [done] at h)
  intro o hRecords _ r hMem
  rcases Array.mem_append.1 hMem with hOld | hNew
  · exact hRecords r hOld
  · exact o.state.step_ofStep r hNew

end Console

namespace Player

/-! ## Key events -/

private theorem applyEvent_ofKey (event : KeyEvent) (c : Console Headless) :
    ∀ r ∈ (applyEvent event c).2, r.ofKey = true := by
  have hDown : ∀ r ∈ (c.machine.keyDown event.key).records, r.ofKey = true := by
    unfold Machine.keyDown
    split
    · simp [Record.ofKey]
    · simp
  unfold applyEvent
  split
  · exact hDown
  · simp

private theorem applyEvents_ofKey (frame : Nat) (events : List KeyEvent) (c : Console Headless)
    {records : Array Record} (h : ∀ r ∈ records, r.ofKey = true) :
    ∀ r ∈ (applyEvents frame events c records).2, r.ofKey = true := by
  induction events generalizing c records with
  | nil => exact h
  | cons event rest ih =>
      refine ih (applyEvent event c).1 fun r hMem => ?_
      rcases Array.mem_append.1 hMem with hOld | hNew
      · rcases Array.mem_push.1 hOld with hEarlier | rfl
        · exact h r hEarlier
        · rfl
      · exact applyEvent_ofKey event c r hNew

/-- The records of the events that are due. -/
theorem applyScript_ofKey (p : Player) : ∀ r ∈ p.applyScript.2, r.ofKey = true :=
  applyEvents_ofKey p.frame _ p.console fun r h => by simp at h

/-- Keys move no buzzer. -/
theorem tone_press (events : List KeyEvent) (c : Console Headless) :
    (press events c).devices.tone = c.devices.tone := by
  induction events generalizing c with
  | nil => rfl
  | cons event rest ih =>
      rw [press, List.foldl_cons, ← press, ih, applyEvent_eq]

/-! ## Frames -/

/-- **The records of a frame**: of its events, of its batch, and of the buzzer. -/
theorem playFrame_records (p : Player) :
    p.playFrame.records = p.applyScript.2 ++ (press p.due p.console).cycle.records ++
      if p.playFrame.result.isOk then
        toneChange p.frame p.console.devices.tone p.playFrame.state.console.devices.tone
      else #[] := by
  rw [playFrame_result]
  have hTone := tone_press p.due p.console
  cases hBatch : (press p.due p.console).cycle.result with
  | ok answer =>
      simp only [playFrame, applyScript_player, Outcome.after, hBatch, hTone]
      rfl
  | error e =>
      simp only [playFrame, applyScript_player, Outcome.after, hBatch]
      exact (Array.append_empty).symm

/-- The records of the first frames, so many of them. -/
def frameRecords : Nat → Player → Array Record
  | 0, _ => #[]
  | n + 1, p => frameRecords n p ++ (p.afterFrames n).playFrame.records

theorem frameRecords_add (m n : Nat) (p : Player) :
    p.frameRecords (m + n) = p.frameRecords m ++ (p.afterFrames m).frameRecords n := by
  induction n with
  | zero => simp [frameRecords]
  | succ n ih =>
      rw [← Nat.add_assoc, frameRecords, frameRecords, ih, afterFrames_add, Array.append_assoc]

private theorem frameRecords_of_final {p : Player} {e : Fault}
    (h : p.playFrame = { result := .error e, state := p }) (n : Nat) : p.frameRecords n = #[] := by
  induction n with
  | zero => rfl
  | succ n ih =>
      have hFixed : p.afterFrames n = p := afterFrames_of_fixed (by rw [h]) n
      rw [frameRecords, ih, hFixed, h]
      rfl

/-! ## Runs -/

private theorem playOn_records (n : Nat) {o : Outcome Player Unit} (hFinal : Final o) :
    (playOn (fun _ => true) n o).records = o.records ++ o.state.frameRecords n := by
  induction n generalizing o with
  | zero => exact (Array.append_empty).symm
  | succ n ih =>
      cases hResult : o.result with
      | ok answer =>
          have hFirst : o.state.frameRecords 1 = o.state.playFrame.records := Array.empty_append
          rw [playOn_of_ok _ hResult, ih (final_playFrame_after o.state _ o.records),
            Nat.add_comm n, frameRecords_add, hFirst, Outcome.keeping_true, ← Array.append_assoc]
          rfl
      | error e =>
          rw [playOn_of_error _ hResult, frameRecords_of_final (hFinal e hResult)]
          exact (Array.append_empty).symm

/-- **The records of a run**, which are those of its frames but for the first and the last. -/
theorem play_records (n : Nat) (p : Player) :
    (p.play n).records = #[.running n p.console.machine.conf.speed] ++ p.frameRecords n ++
      if (p.play n).result.isOk then #[.stopped (p.play n).state.frame] else #[] := by
  have hLoop := playOn_records n (final_playStart n p)
  obtain ⟨hState, hResult⟩ := play_eq_playOn (fun _ => true) n p
  rw [hState, hResult]
  cases hEnd : (playOn (fun _ => true) n (playStart n p)).result with
  | ok answer =>
      have hRun : (p.play n).records = (playOn (fun _ => true) n (playStart n p)).records.push
          (.stopped (playOn (fun _ => true) n (playStart n p)).state.frame) := by
        simp only [playOn, playStart] at hEnd
        simp only [play, playOn, playStart, hEnd]
      rw [hRun, Array.push_eq_append, hLoop]
      rfl
  | error e =>
      have hRun : (p.play n).records = (playOn (fun _ => true) n (playStart n p)).records := by
        simp only [playOn, playStart] at hEnd
        simp only [play, playOn, playStart, hEnd]
      rw [hRun, hLoop]
      exact (Array.append_empty).symm

/-! ## Words that were fetched -/

/-- The words that a frame fetches are those of its batch. -/
theorem playFrame_fetched (p : Player) :
    fetchedIn p.playFrame.records = fetchedIn (press p.due p.console).cycle.records := by
  have hKeys : fetchedIn p.applyScript.2 = [] :=
    Record.filterMap_eq_nil fun r hMem => Record.fetchedWord?_of_key (p.applyScript_ofKey r hMem)
  have hTone (frame : Nat) (before now : Option Float) :
      fetchedIn (toneChange frame before now) = [] := by
    cases before <;> cases now <;> rfl
  rw [playFrame_records, fetchedIn_append, fetchedIn_append, hKeys, List.nil_append]
  split
  · rw [hTone, List.append_nil]
  · exact List.append_nil _

private theorem mem_fetched_frameRecords {word : Word} {n : Nat} {p : Player} :
    word ∈ fetchedIn (p.frameRecords n) ↔
      ∃ i < n, word ∈ fetchedIn (p.afterFrames i).playFrame.records := by
  induction n with
  | zero => simp [frameRecords, fetchedIn]
  | succ n ih =>
      rw [frameRecords, fetchedIn_append, List.mem_append, ih]
      constructor
      · rintro (⟨i, hi, hMem⟩ | hMem)
        · exact ⟨i, Nat.lt_succ_of_lt hi, hMem⟩
        · exact ⟨n, Nat.lt_succ_self n, hMem⟩
      · rintro ⟨i, hi, hMem⟩
        rcases Nat.lt_succ_iff_lt_or_eq.1 hi with hBefore | rfl
        · exact Or.inl ⟨i, hBefore, hMem⟩
        · exact Or.inr hMem

/-- The words that a run fetches are those of its frames. -/
theorem mem_fetched_play {word : Word} {n : Nat} {p : Player} :
    word ∈ fetchedIn (p.play n).records ↔
      ∃ i < n, word ∈ fetchedIn (p.afterFrames i).playFrame.records := by
  rw [← mem_fetched_frameRecords, play_records, fetchedIn_append, fetchedIn_append]
  have hStart : fetchedIn #[.running n p.console.machine.conf.speed] = [] := rfl
  have hEnd : fetchedIn
      (if (p.play n).result.isOk then #[.stopped (p.play n).state.frame] else #[]) = [] := by
    split <;> rfl
  rw [hStart, hEnd, List.nil_append, List.append_nil]

end Player

end Chip8
