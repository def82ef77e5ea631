import Chip8.Proofs.Driving

/-!
# Subroutines return to their callers

A call keeps the place behind it on the stack, and nothing that runs before the
matching return can reach it there: words push on top of it or pop what was
pushed above it (`Console.execute_stack`), and whatever else a host does leaves
the stack alone. So as long as the stack is never as low as it was before the
call, the place and all that was below it stay where they are, and the return
that finds the stack that deep goes back there.

A run is looked at one word at a time. `Console.executions` lists the words that
a sequence of operations executes, each with the state it is executed in, and
`Console.Thread` says that between them nothing happens but keys, timers and
halts.

## Main results

* `Console.thread_executions` — the words of a run are one thread of execution.
* `Console.Thread.suffix` — what stays on the stack along a thread.
* `calls_match_returns` — a return goes back behind its call.
-/

namespace Chip8

variable {δ : Type} [Devices δ]

/-! ## What a word does to the stack -/

/-- The return addresses that are held, newest first. -/
def Machine.held (m : Machine) : List UInt16 := m.cpu.stack.toList

/-- An operation of the processor did nothing to the stack, or pushed the program counter as a call
does, or went on at the address it popped as a return does. -/
inductive Machine.Stacked (m n : Machine) : Prop
  | same (h : n.held = m.held)
  | called (h : n.held = m.cpu.pc :: m.held)
  | returned (h : m.held = n.cpu.pc :: n.held)

private theorem Instr.perform_stack (instr : Instr) (c : Console δ) :
    c.machine.Stacked (instr.perform c).state.machine := by
  have hSkip (condition : Bool) :
      c.machine.Stacked { c.machine with cpu := c.machine.cpu.skipIf condition } := by
    cases condition <;> exact .same rfl
  have hKey (x : Reg) (wanted : Bool) :
      c.machine.Stacked (c.skipOnKey x wanted).state.machine := by
    rw [Console.skipOnKey_machine]
    exact hSkip _
  cases instr
  case ret =>
    refine Console.transfer_kept (.same rfl) ?_
    intro cpu h
    obtain ⟨address, stack, hPop, rfl⟩ := Cpu.ret_ok h
    exact .returned (CallStack.toList_of_pop hPop)
  case call target =>
    refine Console.transfer_kept (.same rfl) ?_
    intro cpu h
    obtain ⟨stack, hPush, rfl⟩ := Cpu.call_ok h
    exact .called (CallStack.toList_of_push hPush)
  case skipEqual => exact hSkip _
  case skipNotEqual => exact hSkip _
  case skipSame => exact hSkip _
  case skipDifferent => exact hSkip _
  case alu op x y => cases op <;> exact .same rfl
  case skipPressed x => exact hKey x true
  case skipReleased x => exact hKey x false
  case loadRegisters x =>
    apply Machine.Stacked.same
    simp only [Instr.perform, Console.update, Console.done, Console.mapCpu, Cpu.loadIndexed,
      Machine.held]
  all_goals exact .same rfl

namespace Console

/-- **What a word does to the stack**: nothing, or it pushes the place behind itself, or it goes on
at the place it pops. -/
theorem execute_stack (word : Word) (c : Console δ) :
    (c.mapCpu Cpu.advance).machine.Stacked (c.execute word).state.machine := by
  cases hWord : Instr.ofWord? word with
  | none =>
      rw [execute_of_none hWord, refuse_machine]
      exact .same rfl
  | some instr =>
      rw [execute_of_instr hWord]
      exact instr.perform_stack _

/-- A call that is taken goes on at its target, with the place behind it on the stack. -/
theorem execute_call {word : Word} (hFamily : word.family.val = 2) {c : Console δ} {flow : Flow}
    (h : (c.execute word).result = .ok flow) :
    (c.execute word).state.machine.held = (c.machine.cpu.pc + 2) :: c.machine.held := by
  have hWord : Instr.ofWord? word = some (.call word.nnn) := by
    simp only [Instr.ofWord?, hFamily]
  rw [execute_of_instr hWord] at h ⊢
  simp only [Instr.perform, transfer] at h ⊢
  cases hCall : Cpu.call word.nnn (c.mapCpu Cpu.advance).machine.cpu with
  | error fault => simp [hCall, fail] at h
  | ok next =>
      obtain ⟨stack, hPush, rfl⟩ := Cpu.call_ok hCall
      exact CallStack.toList_of_push hPush

/-- A return with a place to go back to goes there. -/
theorem execute_ret {c : Console δ} {address : UInt16} {older : List UInt16}
    (hHeld : c.machine.held = address :: older) :
    (c.execute 0x00EE).result = .ok .jump ∧
      (c.execute 0x00EE).state.machine.cpu.pc = address ∧
      (c.execute 0x00EE).state.machine.held = older := by
  have hWord : Instr.ofWord? 0x00EE = some .ret := rfl
  obtain ⟨stack, hPop, hOlder⟩ := CallStack.pop_eq hHeld
  have hRet : Cpu.ret (c.mapCpu Cpu.advance).machine.cpu =
      .ok { c.machine.cpu with pc := address, stack } := by
    have hSame : (c.mapCpu Cpu.advance).machine.cpu.stack.pop = .ok (address, stack) := hPop
    rw [Cpu.ret, hSame]
    rfl
  rw [execute_of_instr hWord, Instr.perform, transfer, hRet]
  exact ⟨rfl, rfl, hOlder⟩

end Console

/-! ## Threads -/

/-- A word that is executed, and the state it is executed in. -/
structure Execution (δ : Type) where
  before : Console δ
  word : Word

/-- What executing the word comes to. -/
def Execution.outcome (e : Execution δ) : Outcome (Console δ) Flow := e.before.execute e.word

namespace Console

/-- Nothing came between two states but keys, timers and halts. -/
def Idles (c d : Console δ) : Prop :=
  ∃ registers delay sound wait trap, d.machine =
    { c.machine with cpu := { c.machine.cpu with registers, delay, sound, wait }, trap }

omit [Devices δ] in
theorem Idles.of_machine {c d : Console δ} (h : d.machine = c.machine) : c.Idles d :=
  ⟨c.machine.cpu.registers, c.machine.cpu.delay, c.machine.cpu.sound, c.machine.cpu.wait,
    c.machine.trap, h⟩

omit [Devices δ] in
theorem Idles.trans {c d e : Console δ} (h : c.Idles d) (hNext : d.Idles e) : c.Idles e := by
  obtain ⟨_, _, _, _, _, hMachine⟩ := h
  obtain ⟨registers, delay, sound, wait, trap, hLast⟩ := hNext
  rw [hMachine] at hLast
  exact ⟨registers, delay, sound, wait, trap, hLast⟩

omit [Devices δ] in
theorem Idles.held {c d : Console δ} (h : c.Idles d) : d.machine.held = c.machine.held := by
  obtain ⟨_, _, _, _, _, hMachine⟩ := h
  rw [hMachine]
  rfl

/-- Words lead from one state to another: each is executed where the one before it left off, and in
between nothing happens but keys, timers and halts. -/
def Thread : List (Execution δ) → Console δ → Console δ → Prop
  | [], c, d => c.Idles d
  | e :: rest, c, d => c.Idles e.before ∧ Thread rest e.outcome.state d

namespace Thread

variable {es fs : List (Execution δ)} {b c d : Console δ}

private theorem idles (h : c.Idles d) (hThread : Thread es d b) : Thread es c b := by
  cases es with
  | nil => exact h.trans hThread
  | cons e rest => exact ⟨h.trans hThread.1, hThread.2⟩

theorem append (h : Thread es c d) (hNext : Thread fs d b) : Thread (es ++ fs) c b := by
  induction es generalizing c with
  | nil => exact hNext.idles h
  | cons e rest ih => exact ⟨h.1, ih h.2⟩

/-- A thread falls apart at each of its words. -/
theorem split {e : Execution δ} (h : Thread (es ++ e :: fs) c d) :
    Thread es c e.before ∧ Thread fs e.outcome.state d := by
  induction es generalizing c with
  | nil => exact h
  | cons first rest ih =>
      obtain ⟨hBefore, hAfter⟩ := ih h.2
      exact ⟨⟨h.1, hBefore⟩, hAfter⟩

/-- The stack is as high as where the thread goes on. -/
theorem length_held (h : Thread es c d) {bound : Nat}
    (hDeep : ∀ e ∈ es, bound ≤ e.before.machine.held.length)
    (hEnd : bound ≤ d.machine.held.length) : bound ≤ c.machine.held.length := by
  cases es with
  | nil =>
      rw [← Idles.held h]
      exact hEnd
  | cons e rest =>
      rw [← h.1.held]
      exact hDeep e (by simp)

/-- **What stays on the stack**: the bottom of it, while the stack is nowhere lower than that. -/
theorem suffix (h : Thread es c d) {bottom : List UInt16} (hHeld : bottom <:+ c.machine.held)
    (hDeep : ∀ e ∈ es, bottom.length ≤ e.before.machine.held.length)
    (hEnd : bottom.length ≤ d.machine.held.length) : bottom <:+ d.machine.held := by
  induction es generalizing c with
  | nil =>
      rw [Idles.held h]
      exact hHeld
  | cons e rest ih =>
      obtain ⟨hIdle, hRest⟩ := h
      have hLater : ∀ e ∈ rest, bottom.length ≤ e.before.machine.held.length :=
        fun e he => hDeep e (by simp [he])
      have hBefore : bottom <:+ e.before.machine.held := by
        rw [hIdle.held]
        exact hHeld
      have hAfter : bottom.length ≤ e.outcome.state.machine.held.length :=
        hRest.length_held hLater hEnd
      refine ih hRest ?_ hLater
      rcases e.before.execute_stack e.word with hSame | hCalled | hReturned
      · exact hSame ▸ hBefore
      · exact hCalled ▸ hBefore.trans (List.suffix_cons _ _)
      · have hPopped : bottom <:+ _ :: e.outcome.state.machine.held := hReturned ▸ hBefore
        rcases List.suffix_cons_iff.1 hPopped with hAll | hBelow
        · rw [hAll, List.length_cons] at hAfter
          omega
        · exact hBelow

end Thread

/-! ## The words of a run -/

/-- The words that a number of single steps execute, each with the state it is executed in. -/
def executionsOf : Nat → Console δ → List (Execution δ)
  | 0, _ => []
  | n + 1, c => (fetchedIn c.step.records).map (Execution.mk c) ++ executionsOf n c.step.state

/-- The words that an operation executes. A counted run and a batch are single steps. -/
def executionsIn (op : Operation) (c : Console δ) : List (Execution δ) :=
  match op with
  | .load _ => []
  | .execute word => [⟨c, word⟩]
  | .step => c.executionsOf 1
  | .runSteps count => c.executionsOf count
  | .cycle => c.executionsOf c.machine.conf.speed
  | .keyDown _ => []

/-- The words that a sequence of operations executes, in order, each with the state it is executed
in. -/
def executions : List Operation → Console δ → List (Execution δ)
  | [], _ => []
  | op :: ops, c => c.executionsIn op ++ executions ops (c.apply op).state

theorem thread_step (c : Console δ) :
    Thread ((fetchedIn c.step.records).map (Execution.mk c)) c c.step.state := by
  have hStay : Thread [] c c := Idles.of_machine rfl
  rcases c.step_cases with ⟨_, _, hStep⟩ | ⟨_, _, hStep⟩ | ⟨_, _, _, hStep⟩ | ⟨_, _, _, hStep⟩
  · rw [hStep]
    exact hStay
  · rw [hStep]
    exact hStay
  · rw [hStep]
    exact hStay
  · rw [hStep, fetchExecute_fetched]
    refine ⟨Idles.of_machine rfl, ?_⟩
    show (c.execute c.nextWord).state.Idles c.fetchExecute.state
    cases hResult : (c.execute c.nextWord).result with
    | ok flow =>
        rw [fetchExecute_of_ok hResult]
        exact Idles.of_machine rfl
    | error fault =>
        rw [fetchExecute_of_error hResult]
        exact ⟨_, _, _, _, some fault, rfl⟩

private theorem thread_steps (n : Nat) (c : Console δ) :
    Thread (c.executionsOf n) c (c.afterSteps n) := by
  induction n generalizing c with
  | zero => exact Idles.of_machine rfl
  | succ n ih => exact c.thread_step.append (ih c.step.state)

theorem Idles.finishBatch {c d : Console δ} (h : c.Idles d) : c.Idles d.finishBatch := by
  obtain ⟨registers, delay, sound, wait, trap, hMachine⟩ := h
  rcases d.finishBatch_machine with hSame | hTick
  · exact ⟨registers, delay, sound, wait, trap, hSame.trans hMachine⟩
  · refine ⟨registers, Cpu.countDown delay, Cpu.countDown sound, wait, trap, hTick.trans ?_⟩
    rw [mapCpu, hMachine]
    rfl

theorem Thread.finishBatch {es : List (Execution δ)} {c d : Console δ} (h : Thread es c d) :
    Thread es c d.finishBatch := by
  induction es generalizing c with
  | nil => exact Idles.finishBatch h
  | cons e rest ih => exact ⟨h.1, ih h.2⟩

omit [Devices δ] in
private theorem idles_keyDown (key : Key) (c : Console δ) :
    c.Idles (c.withMachine (c.machine.keyDown key).state) := by
  cases hWait : c.machine.cpu.wait with
  | none => exact Idles.of_machine (Machine.keyDown_idle hWait key)
  | some x =>
      refine ⟨(c.machine.cpu.setReg x (UInt8.ofNat key.val)).registers, c.machine.cpu.delay,
        c.machine.cpu.sound, none, c.machine.trap, ?_⟩
      simp only [withMachine, Machine.keyDown, hWait]
      rfl

theorem thread_apply {op : Operation} (hOp : ∀ program, op ≠ .load program) (c : Console δ) :
    Thread (c.executionsIn op) c (c.apply op).state := by
  cases op with
  | load program => exact absurd rfl (hOp program)
  | execute word => exact ⟨Idles.of_machine rfl, Idles.of_machine rfl⟩
  | step => exact c.thread_steps 1
  | runSteps count =>
      show Thread (c.executionsOf count) c (c.runSteps count).state
      rw [runSteps_state]
      exact c.thread_steps count
  | cycle =>
      have hSteps := c.thread_steps c.machine.conf.speed
      rw [← runSteps_state] at hSteps
      show Thread (c.executionsOf c.machine.conf.speed) c c.cycle.state
      cases hRan : (c.runSteps c.machine.conf.speed).result with
      | ok flow =>
          rw [(cycle_of_ok hRan).2]
          exact hSteps.finishBatch
      | error e =>
          rw [(cycle_of_error hRan).2]
          exact hSteps
  | keyDown key => exact c.idles_keyDown key

/-- **The words of a run are one thread of execution**, as long as no program is loaded in it. -/
theorem thread_executions {ops : List Operation} (hOps : ∀ program, .load program ∉ ops)
    (c : Console δ) : Thread (c.executions ops) c (c.afterAll ops) := by
  induction ops generalizing c with
  | nil => exact Idles.of_machine rfl
  | cons op ops ih =>
      have hFirst : ∀ program, op ≠ .load program :=
        fun program h => hOps program (by simp [h])
      have hRest : ∀ program, .load program ∉ ops :=
        fun program h => hOps program (by simp [h])
      exact (thread_apply hFirst c).append (ih hRest (c.apply op).state)

private theorem executionsOf_words (n : Nat) (c : Console δ) :
    (c.executionsOf n).map Execution.word = c.stepped n := by
  induction n generalizing c with
  | zero => rfl
  | succ n ih =>
      rw [executionsOf, List.map_append, ih, List.map_map]
      show (fetchedIn c.step.records).map id ++ _ = _
      rw [List.map_id, stepped_cons]

theorem executionsIn_words (op : Operation) (c : Console δ) :
    (c.executionsIn op).map Execution.word = op.executedBy (c.apply op).records := by
  cases op with
  | load program =>
      show [] = fetchedIn (c.machine.load program).records
      unfold Machine.load
      split <;> rfl
  | execute word => rfl
  | step =>
      rw [executionsIn, executionsOf_words]
      exact List.append_nil _
  | runSteps count =>
      rw [executionsIn, executionsOf_words, ← runSteps_fetched]
      rfl
  | cycle =>
      rw [executionsIn, executionsOf_words, ← runSteps_fetched, ← batch_eq_runSteps,
        ← cycle_records]
      rfl
  | keyDown key =>
      exact (c.machine.keyDown_fetched key).symm

/-- The words are those that were executed. -/
theorem executions_words (ops : List Operation) (c : Console δ) :
    (c.executions ops).map Execution.word = c.executed ops := by
  induction ops generalizing c with
  | nil => rfl
  | cons op ops ih => rw [executions, List.map_append, executionsIn_words, ih, executed]

theorem executions_append (ops more : List Operation) (c : Console δ) :
    c.executions (ops ++ more) = c.executions ops ++ (c.afterAll ops).executions more := by
  induction ops generalizing c with
  | nil => rfl
  | cons op ops ih =>
      show c.executionsIn op ++ (c.apply op).state.executions (ops ++ more) = _
      rw [ih, ← List.append_assoc]
      rfl

end Console

/-! ## Calls and returns -/

/-- **Calls and returns match.**  Let a call be executed in a run without loads, and later a return,
and let the stack be higher than before the call in every state up to the return, and just one
higher where the return is executed. Then the return goes on behind the call, and leaves on the
stack what was there before the call. -/
theorem calls_match_returns (c : Console δ) {ops : List Operation}
    (hOps : ∀ program, .load program ∉ ops) :
    (c.executions ops).map Execution.word = c.executed ops ∧
    Console.Thread (c.executions ops) c (c.afterAll ops) ∧
    ∀ earlier call between ret later,
      c.executions ops = earlier ++ call :: (between ++ ret :: later) →
      call.word.family.val = 2 → (∃ flow, call.outcome.result = .ok flow) → ret.word = 0x00EE →
      (∀ e ∈ between, call.before.machine.cpu.stack.depth + 1 ≤ e.before.machine.cpu.stack.depth) →
      ret.before.machine.cpu.stack.depth = call.before.machine.cpu.stack.depth + 1 →
      ret.outcome.result = .ok .jump ∧
      ret.outcome.state.machine.cpu.pc = call.before.machine.cpu.pc + 2 ∧
      ret.outcome.state.machine.cpu.stack.depth = call.before.machine.cpu.stack.depth ∧
      ret.outcome.state.machine.cpu.stack.toList = call.before.machine.cpu.stack.toList := by
  have hThread := Console.thread_executions hOps c
  refine ⟨c.executions_words ops, hThread, ?_⟩
  rintro earlier call between ret later hRun hCall ⟨flow, hTaken⟩ hRet hDeep hDepth
  rw [hRun] at hThread
  have hBetween : Console.Thread between call.outcome.state ret.before := hThread.split.2.split.1
  have hPushed : call.outcome.state.machine.held =
      (call.before.machine.cpu.pc + 2) :: call.before.machine.held :=
    Console.execute_call hCall hTaken
  simp only [← CallStack.length_toList] at hDeep hDepth ⊢
  have hKept : (call.before.machine.cpu.pc + 2) :: call.before.machine.held <:+
      ret.before.machine.held :=
    hBetween.suffix (hPushed ▸ List.suffix_rfl) hDeep (Nat.le_of_eq hDepth.symm)
  have hTop : ret.before.machine.held =
      (call.before.machine.cpu.pc + 2) :: call.before.machine.held :=
    (hKept.eq_of_length hDepth.symm).symm
  obtain ⟨hResult, hPc, hHeld⟩ := Console.execute_ret hTop
  rw [Execution.outcome, hRet]
  exact ⟨hResult, hPc, congrArg List.length hHeld, hHeld⟩

/-- A call with another one in it, which waits for a key before it returns. -/
theorem calls_match_returns_nested :
    let c : Console Headless := ⟨.new {} (.cycling [1]), {}⟩
    let enter : List Operation := [.execute 0x2300, .step]
    let work : List Operation := [.execute 0x2400, .execute 0xF30A, .keyDown 5, .execute 0x00EE]
    let call : Execution Headless := ⟨c, 0x2300⟩
    let ret : Execution Headless := ⟨c.afterAll (enter ++ work), 0x00EE⟩
    let between := (c.afterAll enter).executions work
    c.executions (enter ++ work ++ [.execute 0x00EE]) = [] ++ call :: (between ++ ret :: []) ∧
    between.map (·.before.machine.cpu.stack.depth) = [1, 2, 2] ∧
    call.outcome.result = .ok .jump ∧ ret.before.machine.cpu.stack.depth = 1 ∧
    ret.outcome.result = .ok .jump ∧ ret.outcome.state.machine.cpu.pc = 0x202 ∧
    ret.outcome.state.machine.cpu.stack.toList = [] := by
  intro c enter work call ret between
  have hOps : ∀ program, Operation.load program ∉ enter ++ work ++ [.execute 0x00EE] := by
    simp [enter, work]
  have hRun : c.executions (enter ++ work ++ [.execute 0x00EE]) =
      [] ++ call :: (between ++ ret :: []) := by
    rw [Console.executions_append, Console.executions_append]
    rfl
  have hDepths : between.map (·.before.machine.cpu.stack.depth) = [1, 2, 2] := rfl
  have hDeep : ∀ e ∈ between,
      call.before.machine.cpu.stack.depth + 1 ≤ e.before.machine.cpu.stack.depth := by
    intro e he
    have hDepth : e.before.machine.cpu.stack.depth ∈ [1, 2, 2] := hDepths ▸ List.mem_map_of_mem he
    show 1 ≤ e.before.machine.cpu.stack.depth
    simp at hDepth
    omega
  have hFamily : (Word.family 0x2300).val = 2 := rfl
  have hCarried : c.execute 0x2300 = (c.mapCpu Cpu.advance).transfer (Cpu.call 0x300) := rfl
  have hTaken : call.outcome.result = .ok .jump := congrArg Outcome.result hCarried
  have hDepth : ret.before.machine.cpu.stack.depth = 1 := rfl
  obtain ⟨-, -, hMatch⟩ := calls_match_returns c hOps
  obtain ⟨hResult, hPc, -, hHeld⟩ :=
    hMatch [] call between ret [] hRun hFamily ⟨.jump, hTaken⟩ rfl hDeep hDepth
  exact ⟨hRun, hDepths, hTaken, hDepth, hResult, hPc, hHeld⟩

end Chip8
