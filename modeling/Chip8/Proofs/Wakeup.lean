import Chip8.Proofs.Trap

/-!
# Waits and the keys that end them

`Fx0A` starts a wait, and the next key that goes down ends it. The ledger of a
run sets the registers that were awaited, in order, against the registers that
keys were put into, in order: they are the same but for the one that may still
be awaited at the end (`Console.ledger`). So no key is lost to a wait, and no
wait takes two.

In between the machine stands still: a step that is taken while it waits does
nothing, and a batch neither counts the timers down nor executes a word
(`Console.Paused`). A batch in which a wait begins stands still from the word
that began it (`Console.apply_enters`).

## Main results

* `Console.ledger` — waits begun and waits ended, over any run.
* `Console.apply_enters` — what an operation leaves that a wait begins in.
* `Console.paused_afterAll` — what operations leave that are done in a wait.
* `wakeups_balanced` — all of it, for the runs of a program.
-/

namespace Chip8

/-- Whether an operation runs the program, as loading, executing a given word and pressing a key
do not. -/
def Operation.runs : Operation → Bool
  | .step => true
  | .runSteps _ => true
  | .cycle => true
  | _ => false

/-! ## Words that wait -/

/-- The register that a word awaits a key for, if the word is `Fx0A`. -/
def Word.awaited? (w : Word) : Option Reg :=
  if w.family.val = 0xF ∧ w.kk.toNat = 0x0A then some w.x else none

/-- The register that an instruction awaits a key for. -/
def Instr.awaited? : Instr → Option Reg
  | .awaitKey x => some x
  | _ => none

private theorem Instr.awaited?_ofTransfer (x : Reg) (low : UInt8) :
    (ofTransfer? x low).bind awaited? = if low.toNat = 0x0A then some x else none := by
  unfold ofTransfer?
  split <;> simp_all [awaited?]

private theorem Instr.awaited?_ofSelector (x y : Reg) (selector : Fin 16) :
    (ofSelector? x y selector).bind awaited? = none := by
  unfold ofSelector?
  split <;> rfl

private theorem Instr.awaited?_ofKeyTest (x : Reg) (low : UInt8) :
    (ofKeyTest? x low).bind awaited? = none := by
  unfold ofKeyTest?
  split <;> rfl

private theorem Word.awaited?_of_family {w : Word} (h : w.family.val ≠ 0xF) : w.awaited? = none :=
  if_neg fun hWaits => h hWaits.1

/-- The words that wait are those whose instruction does. -/
theorem Instr.awaited?_ofWord (w : Word) : (ofWord? w).bind awaited? = w.awaited? := by
  have hLt := w.family.isLt
  by_cases hLast : w.family.val = 0xF
  · simp only [ofWord?, hLast, awaited?_ofTransfer, Word.awaited?, true_and]
  · rw [Word.awaited?_of_family hLast]
    unfold ofWord?
    split
    case h_1 =>
      split
      · rfl
      · split <;> rfl
    case h_6 => split <;> rfl
    case h_9 => exact awaited?_ofSelector ..
    case h_10 => split <;> rfl
    case h_15 => exact awaited?_ofKeyTest ..
    case h_16 => grind
    all_goals rfl

theorem Instr.ofWord?_of_awaited {w : Word} {x : Reg} (h : w.awaited? = some x) :
    ofWord? w = some (.awaitKey x) := by
  rw [← awaited?_ofWord, Option.bind_eq_some_iff] at h
  obtain ⟨instr, hWord, hAwaits⟩ := h
  cases instr
  case awaitKey y =>
    cases hAwaits
    exact hWord
  all_goals cases hAwaits

variable {δ : Type} [Devices δ]

private theorem Instr.perform_wait (instr : Instr) (c : Console δ) :
    (instr.perform c).state.machine.cpu.wait = instr.awaited?.or c.machine.cpu.wait := by
  have hSkip (condition : Bool) :
      (c.machine.cpu.skipIf condition).wait = c.machine.cpu.wait := by
    cases condition <;> rfl
  have hKey (x : Reg) (wanted : Bool) :
      (c.skipOnKey x wanted).state.machine.cpu.wait = c.machine.cpu.wait := by
    rw [Console.skipOnKey_machine]
    exact hSkip _
  cases instr
  case ret =>
    refine Console.transfer_kept (P := fun m => m.cpu.wait = c.machine.cpu.wait) rfl ?_
    intro cpu h
    obtain ⟨address, stack, _, rfl⟩ := Cpu.ret_ok h
    rfl
  case call target =>
    refine Console.transfer_kept (P := fun m => m.cpu.wait = c.machine.cpu.wait) rfl ?_
    intro cpu h
    obtain ⟨stack, _, rfl⟩ := Cpu.call_ok h
    rfl
  case skipEqual => exact hSkip _
  case skipNotEqual => exact hSkip _
  case skipSame => exact hSkip _
  case skipDifferent => exact hSkip _
  case alu op x y => cases op <;> rfl
  case skipPressed x => exact hKey x true
  case skipReleased x => exact hKey x false
  case loadRegisters x =>
    simp only [Instr.perform, Console.update, Console.done, Console.mapCpu, Cpu.loadIndexed]
    rfl
  all_goals rfl

namespace Console

/-- Executing a word starts a wait if the word waits, and leaves the wait alone otherwise. -/
theorem execute_wait (word : Word) (c : Console δ) :
    (c.execute word).state.machine.cpu.wait = word.awaited?.or c.machine.cpu.wait := by
  rw [← Instr.awaited?_ofWord]
  cases hWord : Instr.ofWord? word with
  | none =>
      rw [execute_of_none hWord, refuse_machine]
      rfl
  | some instr =>
      rw [execute_of_instr hWord]
      exact instr.perform_wait _

end Console

/-! ## Words that were fetched -/

/-- The words that records say were fetched, in order. -/
def fetchedIn (records : Array Record) : List Word :=
  records.toList.filterMap Record.fetchedWord?

theorem fetchedIn_append (earlier later : Array Record) :
    fetchedIn (earlier ++ later) = fetchedIn earlier ++ fetchedIn later := by
  simp [fetchedIn]

theorem Machine.keyDown_fetched (key : Key) (m : Machine) :
    fetchedIn (m.keyDown key).records = [] := by
  unfold Machine.keyDown
  split <;> rfl

namespace Console

private theorem execute_fetched (word : Word) (c : Console δ) :
    fetchedIn (c.execute word).records = [] :=
  Record.filterMap_eq_nil (c.execute_records (fun _ _ => rfl) (fun _ => rfl) word)

theorem fetchExecute_fetched (c : Console δ) :
    fetchedIn c.fetchExecute.records = [c.nextWord] := by
  have hExecute := execute_fetched c.nextWord c
  cases hResult : (c.execute c.nextWord).result with
  | ok flow =>
      rw [fetchExecute_of_ok hResult]
      show fetchedIn (#[Record.fetched _ _] ++ (c.execute c.nextWord).records) = _
      rw [fetchedIn_append, hExecute]
      rfl
  | error fault =>
      rw [fetchExecute_of_error hResult, Array.push_eq_append, fetchedIn_append, fetchedIn_append,
        hExecute]
      rfl

private theorem fetchExecute_wait (c : Console δ) :
    c.fetchExecute.state.machine.cpu.wait = c.nextWord.awaited?.or c.machine.cpu.wait := by
  rw [← c.execute_wait c.nextWord]
  cases hResult : (c.execute c.nextWord).result with
  | ok flow =>
      rw [fetchExecute_of_ok hResult]
      rfl
  | error fault =>
      rw [fetchExecute_of_error hResult]
      rfl

/-- A word that waits leaves all but the program counter and the wait as it was. -/
theorem fetchExecute_of_awaited {c : Console δ} {x : Reg} (h : c.nextWord.awaited? = some x) :
    c.fetchExecute.state =
      c.mapCpu fun cpu => { cpu with pc := cpu.pc + 2, wait := some x } := by
  have hState : (c.execute c.nextWord).state =
      c.mapCpu fun cpu => { cpu with pc := cpu.pc + 2, wait := some x } := by
    rw [execute_of_instr (Instr.ofWord?_of_awaited h)]
    rfl
  have hResult : (c.execute c.nextWord).result = .ok .keyWait := by
    rw [execute_of_instr (Instr.ofWord?_of_awaited h)]
    rfl
  rw [fetchExecute_of_ok hResult]
  exact hState

end Console

/-! ## The ledger -/

/-- Whether an operation ended a wait. -/
def Outcome.resolves {σ : Type} (o : Outcome σ Answer) : Bool :=
  match o.result with
  | .ok (.resolved wasWaiting) => wasWaiting
  | _ => false

private theorem Outcome.resolves_map {σ α : Type} (f : α → Answer)
    (hNot : ∀ a wasWaiting, f a ≠ .resolved wasWaiting) (o : Outcome σ α) :
    (o.map f).resolves = false := by
  unfold resolves map
  cases o.result with
  | error fault => rfl
  | ok a =>
      cases hAnswer : f a with
      | resolved wasWaiting => exact absurd hAnswer (hNot a wasWaiting)
      | done => simp [Except.map, hAnswer]
      | flow flow => simp [Except.map, hAnswer]

namespace Console

/-- The register a key is awaited for, if the machine waits. -/
def pending (c : Console δ) : List Reg := c.machine.cpu.wait.toList

/-- The registers that were awaited in a sequence of operations, in order. -/
def awaited (ops : List Operation) (c : Console δ) : List Reg :=
  (c.executed ops).filterMap Word.awaited?

/-- A step that begins a wait has fetched the word that did. -/
theorem step_ledger (c : Console δ) :
    c.pending ++ (fetchedIn c.step.records).filterMap Word.awaited? = c.step.state.pending := by
  rcases c.step_cases with ⟨_, _, hStep⟩ | ⟨_, _, hStep⟩ | ⟨_, _, _, hStep⟩ |
    ⟨_, _, hWaiting, hStep⟩
  · rw [hStep]
    exact List.append_nil _
  · rw [hStep]
    exact List.append_nil _
  · rw [hStep]
    exact List.append_nil _
  · have hWait : c.machine.cpu.wait = none := by
      simpa [Machine.isWaiting] using hWaiting
    rw [hStep, fetchExecute_fetched, pending, pending, fetchExecute_wait, hWait, Option.or_none]
    cases hWord : c.nextWord.awaited? with
    | none => simp [hWord]
    | some x => simp [hWord]

private theorem steps_ledger (stop : Flow → Bool) (n : Nat) (c : Console δ) :
    let o : Outcome (Console δ) Flow := Outcome.repeatUntil stop step n (done .proceed c)
    c.pending ++ (fetchedIn o.records).filterMap Word.awaited? = o.state.pending := by
  refine Outcome.repeatUntil_kept (P := fun o : Outcome (Console δ) Flow =>
    c.pending ++ (fetchedIn o.records).filterMap Word.awaited? = o.state.pending) ?_ n ?_
  · intro o h _
    show c.pending ++ (fetchedIn (o.records ++ o.state.step.records)).filterMap Word.awaited? =
      o.state.step.state.pending
    rw [fetchedIn_append, List.filterMap_append, ← List.append_assoc, h, step_ledger]
  · exact List.append_nil _

theorem finishBatch_wait (c : Console δ) :
    c.finishBatch.machine.cpu.wait = c.machine.cpu.wait := by
  rcases c.finishBatch_machine with hSame | hTick
  · rw [hSame]
  · rw [hTick]
    rfl

theorem cycle_ledger (c : Console δ) :
    c.pending ++ (fetchedIn c.cycle.records).filterMap Word.awaited? = c.cycle.state.pending := by
  have hSteps := steps_ledger (fun _ => false) c.machine.conf.speed c
  rw [cycle_records]
  rcases c.cycle_cases with ⟨_, _, hCycle⟩ | ⟨_, _, hCycle⟩
  · rw [hCycle, pending, pending, finishBatch_wait]
    exact hSteps
  · rw [hCycle]
    exact hSteps

/-- A key that goes down is put into the register that is awaited, if one is. -/
theorem keyDown_ledger (key : Key) (c : Console δ) :
    let o := c.apply (.keyDown key)
    c.pending.length = (if o.resolves then 1 else 0) ∧
      c.pending ++ ((Operation.keyDown key).executedBy o.records).filterMap Word.awaited? =
        c.pending ++ o.state.pending := by
  intro o
  cases hWait : c.machine.cpu.wait with
  | none =>
      have hDown : o = { result := .ok (.resolved false), state := c } := by
        simp [o, apply, Machine.keyDown, hWait, Outcome.map, Outcome.within, withMachine,
          Except.map]
      rw [hDown, pending, hWait]
      exact ⟨rfl, rfl⟩
  | some x =>
      have hDown : o =
          { result := .ok (.resolved true)
            state := c.mapCpu fun cpu => { cpu.setReg x (UInt8.ofNat key.val) with wait := none }
            records := #[.resolved key x] } := by
        simp [o, apply, Machine.keyDown, hWait, Outcome.map, Outcome.within, withMachine, mapCpu,
          Except.map]
      rw [hDown, pending, hWait]
      exact ⟨rfl, rfl⟩

/-- The ledger of one operation: the register that a key was put into, if one was. -/
theorem apply_ledger {op : Operation} (hOn : op.drivesOn = true) (c : Console δ) :
    let o := c.apply op
    ∃ served : List Reg, served.length = (if o.resolves then 1 else 0) ∧
      c.pending ++ (op.executedBy o.records).filterMap Word.awaited? =
        served ++ o.state.pending := by
  intro o
  cases op with
  | load program =>
      have hSize : ¬ isProgramSize program.length = true := by
        simpa [Operation.drivesOn] using hOn
      refine ⟨[], ?_, ?_⟩
      · simp only [o, apply, Machine.load_of_refused hSize]
        rfl
      · simp only [o, apply, Machine.load_of_refused hSize]
        exact List.append_nil _
  | execute word => cases hOn
  | step =>
      have hNot : o.resolves = false := Outcome.resolves_map Answer.flow (by simp) c.step
      exact ⟨[], by simp [hNot], c.step_ledger⟩
  | runSteps count =>
      have hNot : o.resolves = false :=
        Outcome.resolves_map Answer.flow (by simp) (c.runSteps count)
      exact ⟨[], by simp [hNot], c.steps_ledger _ count⟩
  | cycle =>
      have hNot : o.resolves = false :=
        Outcome.resolves_map (fun _ : Unit => Answer.done) (by simp) c.cycle
      exact ⟨[], by simp [hNot], c.cycle_ledger⟩
  | keyDown key => exact ⟨c.pending, c.keyDown_ledger key⟩

/-- **The ledger of a run**: what was awaited before and on the way is what keys were put into, and
then what is still awaited. -/
theorem ledger {ops : List Operation} (hOps : ∀ op ∈ ops, op.drivesOn = true) (c : Console δ) :
    ∃ served : List Reg, served.length = (c.applyAll ops).countP Outcome.resolves ∧
      c.pending ++ c.awaited ops = served ++ (c.afterAll ops).pending := by
  induction ops generalizing c with
  | nil => exact ⟨[], rfl, List.append_nil _⟩
  | cons op ops ih =>
      obtain ⟨first, hFirst, hOp⟩ := apply_ledger (hOps op (by simp)) c
      obtain ⟨later, hLater, hRun⟩ := ih (fun next h => hOps next (by simp [h])) (c.apply op).state
      refine ⟨first ++ later, ?_, ?_⟩
      · rw [List.length_append, applyAll, List.countP_cons, hFirst, hLater, Nat.add_comm]
      · rw [awaited, executed, List.filterMap_append, ← List.append_assoc, hOp, List.append_assoc,
          List.append_assoc, afterAll, ← hRun, awaited]

/-! ## Standing still -/

/-- Nothing came between two states but the buzzer. -/
structure Paused (start c : Console δ) : Prop where
  machine : c.machine = start.machine
  view : ∀ {β : Type} (view : δ → β), Devices.ToneBlind view →
    view c.devices = view start.devices

theorem Paused.refl (c : Console δ) : c.Paused c := ⟨rfl, fun _ _ => rfl⟩

theorem Paused.trans {a b c : Console δ} (h : a.Paused b) (hNext : b.Paused c) : a.Paused c :=
  ⟨hNext.machine.trans h.machine,
    fun view hBlind => (hNext.view view hBlind).trans (h.view view hBlind)⟩

private theorem paused_updateTone (c : Console δ) : c.Paused c.updateTone := by
  unfold updateTone
  split
  · exact ⟨rfl, fun _ hBlind => hBlind.toneOn _ _⟩
  · exact ⟨rfl, fun _ hBlind => hBlind.toneOff _⟩

theorem paused_finishBatch {c : Console δ} (hWaiting : c.machine.isWaiting = true) :
    c.Paused c.finishBatch := by
  rw [finishBatch, if_pos hWaiting]
  exact c.paused_updateTone

/-- A step taken in a wait does nothing. -/
theorem step_waiting {c : Console δ} (hWaiting : c.machine.isWaiting = true) :
    c.step.state = c ∧ c.step.records = #[] := by
  rcases c.step_cases with ⟨_, _, hStep⟩ | ⟨_, _, hStep⟩ | ⟨_, _, _, hStep⟩ | ⟨_, _, hRunning, _⟩
  · rw [hStep]
    exact ⟨rfl, rfl⟩
  · rw [hStep]
    exact ⟨rfl, rfl⟩
  · rw [hStep]
    exact ⟨rfl, rfl⟩
  · cases hWaiting.symm.trans hRunning

private theorem steps_waiting {c : Console δ} (hWaiting : c.machine.isWaiting = true)
    (stop : Flow → Bool) (n : Nat) :
    (Outcome.repeatUntil stop step n (done .proceed c)).state = c ∧
      (Outcome.repeatUntil stop step n (done .proceed c)).records = #[] := by
  refine Outcome.repeatUntil_kept (P := fun o : Outcome (Console δ) Flow =>
    o.state = c ∧ o.records = #[]) ?_ n ⟨rfl, rfl⟩
  rintro o ⟨hState, hRecords⟩ _
  obtain ⟨hStep, hNone⟩ := step_waiting hWaiting
  rw [hState, hRecords]
  refine ⟨hStep, ?_⟩
  show #[] ++ c.step.records = #[]
  rw [hNone]
  rfl

/-- Running the program in a wait executes nothing and moves nothing but the buzzer. -/
theorem apply_waiting {c : Console δ} (hWaiting : c.machine.isWaiting = true) {op : Operation}
    (hRuns : op.runs = true) :
    c.Paused (c.apply op).state ∧ op.executedBy (c.apply op).records = [] := by
  cases op with
  | load program => cases hRuns
  | execute word => cases hRuns
  | keyDown key => cases hRuns
  | step =>
      obtain ⟨hState, hRecords⟩ := step_waiting hWaiting
      refine ⟨?_, ?_⟩
      · show c.Paused c.step.state
        rw [hState]
        exact .refl c
      · show fetchedIn c.step.records = []
        rw [hRecords]
        rfl
  | runSteps count =>
      obtain ⟨hState, hRecords⟩ := steps_waiting hWaiting (· == .keyWait) count
      refine ⟨?_, ?_⟩
      · show c.Paused (c.runSteps count).state
        rw [runSteps, hState]
        exact .refl c
      · show fetchedIn (c.runSteps count).records = []
        rw [runSteps, hRecords]
        rfl
  | cycle =>
      obtain ⟨hState, hRecords⟩ : c.batch.state = c ∧ c.batch.records = #[] :=
        steps_waiting hWaiting (fun _ => false) c.machine.conf.speed
      refine ⟨?_, ?_⟩
      · show c.Paused c.cycle.state
        rcases c.cycle_cases with ⟨_, _, hCycle⟩ | ⟨_, _, hCycle⟩
        · rw [hCycle, hState]
          exact paused_finishBatch hWaiting
        · rw [hCycle, hState]
          exact .refl c
      · show fetchedIn c.cycle.records = []
        rw [cycle_records, hRecords]
        rfl

/-- **A wait stands still** however long the program is run on in it. -/
theorem paused_afterAll {ops : List Operation} (hRuns : ∀ op ∈ ops, op.runs = true)
    {c : Console δ} (hWaiting : c.machine.isWaiting = true) :
    c.Paused (c.afterAll ops) ∧ c.executed ops = [] := by
  induction ops generalizing c with
  | nil => exact ⟨.refl c, rfl⟩
  | cons op ops ih =>
      obtain ⟨hFirst, hNone⟩ := apply_waiting hWaiting (hRuns op (by simp))
      have hNext : (c.apply op).state.machine.isWaiting = true := by
        rw [hFirst.machine]
        exact hWaiting
      obtain ⟨hLater, hRest⟩ := ih (fun next h => hRuns next (by simp [h])) hNext
      refine ⟨hFirst.trans hLater, ?_⟩
      rw [executed, hNone, hRest]
      rfl

/-! ## Beginning to wait -/

/-- A loop of steps comes to where some single steps lead, none of them taken in a wait. -/
theorem steps_reach (stop : Flow → Bool) (n : Nat) (c : Console δ) :
    let o : Outcome (Console δ) Flow := Outcome.repeatUntil stop step n (done .proceed c)
    ∃ k, o.state = c.afterSteps k ∧ fetchedIn o.records = c.stepped k ∧
      ∀ j < k, (c.afterSteps j).machine.isWaiting = false := by
  refine Outcome.repeatUntil_kept (P := fun o : Outcome (Console δ) Flow =>
    ∃ k, o.state = c.afterSteps k ∧ fetchedIn o.records = c.stepped k ∧
      ∀ j < k, (c.afterSteps j).machine.isWaiting = false) ?_ n ?_
  · rintro o ⟨k, hState, hWords, hRunning⟩ _
    cases hWaiting : (c.afterSteps k).machine.isWaiting with
    | true =>
        obtain ⟨hStep, hRecords⟩ := step_waiting hWaiting
        refine ⟨k, ?_, ?_, hRunning⟩
        · show o.state.step.state = _
          rw [hState, hStep]
        · show fetchedIn (o.records ++ o.state.step.records) = _
          rw [hState, hRecords, Array.append_empty, hWords]
    | false =>
        refine ⟨k + 1, ?_, ?_, ?_⟩
        · show o.state.step.state = _
          rw [hState, afterSteps_succ]
        · show fetchedIn (o.records ++ o.state.step.records) = _
          rw [fetchedIn_append, hWords, hState, stepped_succ]
          rfl
        · intro j hj
          by_cases hLast : j = k
          · rw [hLast]
            exact hWaiting
          · exact hRunning j (by omega)
  · exact ⟨0, rfl, rfl, fun j hj => absurd hj (Nat.not_lt_zero j)⟩

/-- Running the program comes to where some single steps lead, none of them taken in a wait; if the
last of them begins a wait, nothing follows it but the buzzer. -/
theorem apply_reach {op : Operation} (hRuns : op.runs = true) {c : Console δ}
    (hBefore : c.machine.isWaiting = false) (hAfter : (c.apply op).state.machine.isWaiting = true) :
    ∃ k, (c.afterSteps k).Paused (c.apply op).state ∧
      op.executedBy (c.apply op).records = c.stepped k ∧
      ∀ j < k, (c.afterSteps j).machine.isWaiting = false := by
  cases op with
  | load program => cases hRuns
  | execute word => cases hRuns
  | keyDown key => cases hRuns
  | step =>
      refine ⟨1, ?_, ?_, ?_⟩
      · exact .refl c.step.state
      · exact (List.append_nil _).symm
      · intro j hj
        obtain rfl : j = 0 := by omega
        exact hBefore
  | runSteps count =>
      obtain ⟨k, hState, hWords, hRunning⟩ := c.steps_reach (· == .keyWait) count
      refine ⟨k, ?_, hWords, hRunning⟩
      rw [← hState]
      exact .refl _
  | cycle =>
      obtain ⟨k, hState, hWords, hRunning⟩ :
          ∃ k, c.batch.state = c.afterSteps k ∧ fetchedIn c.batch.records = c.stepped k ∧
            ∀ j < k, (c.afterSteps j).machine.isWaiting = false :=
        c.steps_reach (fun _ => false) c.machine.conf.speed
      refine ⟨k, ?_, ?_, hRunning⟩
      · show (c.afterSteps k).Paused c.cycle.state
        change c.cycle.state.machine.isWaiting = true at hAfter
        rw [← hState]
        rcases c.cycle_cases with ⟨_, _, hCycle⟩ | ⟨_, _, hCycle⟩
        · rw [hCycle] at hAfter ⊢
          rw [Machine.isWaiting, finishBatch_wait] at hAfter
          exact paused_finishBatch hAfter
        · rw [hCycle]
          exact .refl _
      · show fetchedIn c.cycle.records = c.stepped k
        rw [cycle_records]
        exact hWords

/-- A step that begins a wait executes `Fx0A`. -/
theorem step_enters {c : Console δ} (hBefore : c.machine.isWaiting = false) {x : Reg}
    (hAfter : c.step.state.machine.cpu.wait = some x) :
    c.nextWord.awaited? = some x ∧
      c.step.state = (c.mapCpu fun cpu => { cpu with pc := cpu.pc + 2, wait := some x }) ∧
      fetchedIn c.step.records = [c.nextWord] := by
  have hWait : c.machine.cpu.wait = none := by simpa [Machine.isWaiting] using hBefore
  rcases c.step_cases with ⟨_, _, hStep⟩ | ⟨_, _, hStep⟩ | ⟨_, _, _, hStep⟩ | ⟨_, _, _, hStep⟩
  · rw [hStep] at hAfter
    cases hWait.symm.trans hAfter
  · rw [hStep] at hAfter
    cases hWait.symm.trans hAfter
  · rw [hStep] at hAfter
    cases hWait.symm.trans hAfter
  · rw [hStep] at hAfter ⊢
    have hWord : c.nextWord.awaited? = some x := by
      rw [fetchExecute_wait, hWait, Option.or_none] at hAfter
      exact hAfter
    exact ⟨hWord, fetchExecute_of_awaited hWord, c.fetchExecute_fetched⟩

/-- **What an operation leaves that a wait begins in**: the state that its last word, `Fx0A`, made
of the state before, and nothing more but the buzzer. -/
theorem apply_enters {op : Operation} (hRuns : op.runs = true) {c : Console δ}
    (hBefore : c.machine.cpu.wait = none) {x : Reg}
    (hAfter : (c.apply op).state.machine.cpu.wait = some x) :
    ∃ k, (c.afterSteps k).nextWord.awaited? = some x ∧
      ((c.afterSteps k).mapCpu fun cpu => { cpu with pc := cpu.pc + 2, wait := some x }).Paused
        (c.apply op).state ∧
      op.executedBy (c.apply op).records = c.stepped k ++ [(c.afterSteps k).nextWord] := by
  have hStart : c.machine.isWaiting = false := by simp [Machine.isWaiting, hBefore]
  have hEnd : (c.apply op).state.machine.isWaiting = true := by simp [Machine.isWaiting, hAfter]
  obtain ⟨n, hPaused, hWords, hRunning⟩ := apply_reach hRuns hStart hEnd
  have hWaits : (c.afterSteps n).machine.cpu.wait = some x := by
    rw [← hPaused.machine]
    exact hAfter
  cases n with
  | zero => cases hBefore.symm.trans hWaits
  | succ k =>
      rw [afterSteps_succ] at hWaits hPaused
      obtain ⟨hWord, hState, hFetched⟩ := step_enters (hRunning k (Nat.lt_succ_self k)) hWaits
      rw [hState] at hPaused
      refine ⟨k, hWord, hPaused, ?_⟩
      rw [hWords, stepped_succ]
      exact congrArg (c.stepped k ++ ·) hFetched

end Console

/-! ## Ending a wait -/

/-- A key was put into a register, which ended the wait; all else is as it was. -/
structure Machine.Woken (x : Reg) (key : Key) (m n : Machine) : Prop where
  value : n.cpu.reg x = UInt8.ofNat key.val
  others : ∀ y, y ≠ x → n.cpu.reg y = m.cpu.reg y
  wait : n.cpu.wait = none
  rest : n = { m with cpu := { m.cpu with registers := n.cpu.registers, wait := none } }

theorem Machine.keyDown_woken {m : Machine} {x : Reg} (hWait : m.cpu.wait = some x) (key : Key) :
    (m.keyDown key).result = .ok true ∧ m.Woken x key (m.keyDown key).state := by
  have hDown : m.keyDown key =
      { result := .ok true
        state := { m with cpu := { m.cpu.setReg x (UInt8.ofNat key.val) with wait := none } }
        records := #[.resolved key x] } := by
    simp only [keyDown, hWait]
  rw [hDown]
  refine ⟨rfl, Cpu.reg_setReg_self x _ m.cpu, ?_, rfl, rfl⟩
  intro y hy
  exact Cpu.reg_setReg_ne (Ne.symm hy) _ m.cpu

theorem Machine.keyDown_asleep {m : Machine} (hWait : m.cpu.wait = none) (key : Key) :
    (m.keyDown key).result = .ok false ∧ (m.keyDown key).state = m := by
  simp only [keyDown, hWait, and_self]

/-! ## The runs of a program -/

private theorem Console.loaded_of_accepted {before : Console δ} {program : List UInt8}
    (h : (before.apply (.load program)).result = .ok .done) :
    (before.apply (.load program)).state = before.withMachine
      { before.machine with cpu := .loaded program, hasProgram := true, trap := none } := by
  by_cases hSize : isProgramSize program.length = true
  · exact Console.apply_load hSize before
  · rw [apply, Machine.load_of_refused hSize] at h
    cases h

/-- **No wake-up is lost or doubled.**  After a program was loaded, in every state that running it
and pressing keys lead to: the keys that ended a wait are as many as the `Fx0A` executed, less
the one still awaited. A key that goes down ends a wait just when there is one to end. A key that
ends a wait goes into the register that the last `Fx0A` named and into no other, and one that ends
none changes nothing. A wait begins as its `Fx0A` left it, and stands still for as long as the
program is run on without a key. -/
theorem wakeups_balanced (before : Console δ) {program : List UInt8}
    (hAccepted : (before.apply (.load program)).result = .ok .done) {ops : List Operation}
    (hOps : ∀ op ∈ ops, op.drivesOn = true) :
    let start := (before.apply (.load program)).state
    let c := start.afterAll ops
    ((start.applyAll ops).countP Outcome.resolves + (if c.machine.isWaiting then 1 else 0) =
      (start.awaited ops).length) ∧
    (∀ key,
      ((c.machine.keyDown key).result = .ok true ↔ c.machine.isWaiting = true) ∧
      ((c.machine.keyDown key).result = .ok true → ∃ x, (start.awaited ops).getLast? = some x ∧
        c.machine.Woken x key (c.machine.keyDown key).state) ∧
      ((c.machine.keyDown key).result ≠ .ok true →
        (c.machine.keyDown key).result = .ok false ∧ (c.machine.keyDown key).state = c.machine)) ∧
    (∀ op x, op.runs = true → c.machine.cpu.wait = none →
      (c.apply op).state.machine.cpu.wait = some x →
      ∃ k, (c.afterSteps k).nextWord.awaited? = some x ∧
        ((c.afterSteps k).mapCpu fun cpu => { cpu with pc := cpu.pc + 2, wait := some x }).Paused
          (c.apply op).state ∧
        op.executedBy (c.apply op).records = c.stepped k ++ [(c.afterSteps k).nextWord]) ∧
    ∀ later : List Operation, (∀ op ∈ later, op.runs = true) → c.machine.isWaiting = true →
      c.Paused (c.afterAll later) ∧ c.executed later = [] := by
  intro start c
  have hStart : start.pending = [] := by
    show (before.apply (.load program)).state.machine.cpu.wait.toList = []
    rw [Console.loaded_of_accepted hAccepted]
    rfl
  obtain ⟨served, hServed, hLedger⟩ := Console.ledger hOps start
  rw [hStart, List.nil_append] at hLedger
  refine ⟨?_, ?_, ?_, ?_⟩
  · rw [hLedger, List.length_append, hServed]
    congr 1
    show _ = c.machine.cpu.wait.toList.length
    rw [Machine.isWaiting]
    cases c.machine.cpu.wait <;> rfl
  · intro key
    cases hWait : c.machine.cpu.wait with
    | none =>
        obtain ⟨hResult, hState⟩ := Machine.keyDown_asleep hWait key
        rw [hResult, Machine.isWaiting, hWait]
        refine ⟨by simp, fun hTrue => ?_, fun _ => ⟨rfl, hState⟩⟩
        cases hTrue
    | some x =>
        obtain ⟨hResult, hWoken⟩ := Machine.keyDown_woken hWait key
        refine ⟨?_, fun _ => ⟨x, ?_, hWoken⟩, fun hNot => absurd hResult hNot⟩
        · rw [hResult, Machine.isWaiting, hWait]
          simp
        have hPending : c.pending = [x] := by rw [Console.pending, hWait]; rfl
        have hLast : start.awaited ops = served ++ [x] := by rw [hLedger, ← hPending]
        rw [hLast, List.getLast?_append]
        rfl
  · intro op x hRuns hBefore hAfter
    exact Console.apply_enters hRuns hBefore hAfter
  · intro later hRuns hWaiting
    exact Console.paused_afterAll hRuns hWaiting

/-- A program that begins with `Fx0A` waits after its first step. -/
theorem program_waits (before : Console δ) {high low : UInt8} {rest : List UInt8} {x : Reg}
    (hAccepted : (before.apply (.load (high :: low :: rest))).result = .ok .done)
    (hWord : (Word.ofBytes high low).awaited? = some x) :
    ((before.apply (.load (high :: low :: rest))).state.afterAll [.step]).machine.cpu.wait =
      some x := by
  have hLoaded := Console.loaded_of_accepted hAccepted
  generalize (before.apply (.load (high :: low :: rest))).state = start at hLoaded ⊢
  have hTaken : start.step = start.fetchExecute := by
    rw [hLoaded]
    exact Console.step_taken rfl rfl rfl
  have hNext : start.nextWord.awaited? = some x := by
    rw [← hWord, ← Memory.fetch_ofProgram high low rest, hLoaded]
    rfl
  rw [Console.afterAll, Console.apply_step, hTaken, Console.fetchExecute_of_awaited hNext]
  rfl

/-- A program that waits for `V3` at once. A key that goes down before its first step changes
nothing; the program is run on for a while in its wait, and then key nine ends it. -/
theorem wakeups_balanced_in_wait :
    let start := ((⟨.new {} (.cycling [1]), {}⟩ : Console Headless).apply
      (.load [0xF3, 0x0A, 0x12, 0x00])).state
    let c := start.afterAll [.step]
    start.machine.cpu.wait = none ∧ c.machine.cpu.wait = some 3 ∧
      (start.applyAll [.step]).countP Outcome.resolves + 1 = (start.awaited [.step]).length ∧
      (start.machine.keyDown 9).result = .ok false ∧
      (start.machine.keyDown 9).state = start.machine ∧
      (c.machine.keyDown 9).result = .ok true ∧
      (∃ x, (start.awaited [.step]).getLast? = some x ∧
        c.machine.Woken x 9 (c.machine.keyDown 9).state) ∧
      (∃ k, (start.afterSteps k).nextWord.awaited? = some 3 ∧
        c.machine = ((start.afterSteps k).mapCpu fun cpu =>
          { cpu with pc := cpu.pc + 2, wait := some 3 }).machine) ∧
      (c.afterAll [.cycle, .runSteps 4]).machine = c.machine ∧
      c.executed [.cycle, .runSteps 4] = [] := by
  have hAccepted : ((⟨.new {} (.cycling [1]), {}⟩ : Console Headless).apply
      (.load [0xF3, 0x0A, 0x12, 0x00])).result = .ok .done := rfl
  have hNoOps : ∀ op ∈ ([] : List Operation), op.drivesOn = true := by decide
  have hOps : ∀ op ∈ [Operation.step], op.drivesOn = true := by decide
  have hRuns : ∀ op ∈ [Operation.cycle, .runSteps 4], op.runs = true := by decide
  have hWord : (Word.ofBytes 0xF3 0x0A).awaited? = some 3 := rfl
  have hAtStart := wakeups_balanced _ hAccepted hNoOps
  have hBalanced := wakeups_balanced _ hAccepted hOps
  have hStep := program_waits _ hAccepted hWord
  have hLoaded := Console.loaded_of_accepted hAccepted
  obtain ⟨loaded, hName⟩ : ∃ loaded, loaded = ((⟨.new {} (.cycling [1]), {}⟩ :
    Console Headless).apply (.load [0xF3, 0x0A, 0x12, 0x00])).state := ⟨_, rfl⟩
  rw [← hName] at hAtStart hBalanced hStep hLoaded ⊢
  intro start c
  have hNone : start.machine.cpu.wait = none := by
    show loaded.machine.cpu.wait = none
    rw [hLoaded]
    rfl
  have hWait : c.machine.cpu.wait = some 3 := hStep
  have hAwake : start.machine.isWaiting = false := by simp [Machine.isWaiting, hNone]
  have hWaiting : c.machine.isWaiting = true := by simp [Machine.isWaiting, hWait]
  obtain ⟨-, hKeysAtStart, hBegins, -⟩ := hAtStart
  obtain ⟨hEndsAtStart, -, hLost⟩ := hKeysAtStart 9
  obtain ⟨hFalse, hUntouched⟩ := hLost fun h => by
    cases hAwake.symm.trans (hEndsAtStart.1 h)
  obtain ⟨k, hAwaited, hEntered, -⟩ := hBegins .step 3 rfl hNone hWait
  obtain ⟨hCount, hKeys, -, hStill⟩ := hBalanced
  obtain ⟨hEnds, hWoken, -⟩ := hKeys 9
  have hDown : (c.machine.keyDown 9).result = .ok true := hEnds.2 hWaiting
  obtain ⟨hPaused, hFetched⟩ := hStill _ hRuns hWaiting
  refine ⟨hNone, hWait, ?_, hFalse, hUntouched, hDown, hWoken hDown,
    ⟨k, hAwaited, hEntered.machine⟩, hPaused.machine, hFetched⟩
  rw [← hCount, if_pos hWaiting]

end Chip8
