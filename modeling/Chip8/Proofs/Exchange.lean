import Chip8.Proofs.Randomness
import Mathlib.Data.List.Forall2

/-!
# Runs with parts exchanged

A program learns of its random source through the bytes it draws, and of its
devices through their answers. So a run goes the same way with another source
in place, as long as the bytes that it draws are the same, and with other
devices that give the same answers. Whether a key is down is asked for by two
words alone, so without them that answer may differ.

`Console.exchanged` puts another source and other devices into a console, and
`Console.apply_exchanged` says that this can be done after an operation as well as
before it. Where it is done before, the source has to be told how many bytes
were taken: as many as there were words that draw one.

## Main results

* `Console.execute_exchanged`, `Console.step_exchanged` — one word, one step.
* `Console.apply_exchanged` — whatever a host does.
-/

namespace Chip8

/-! ## Sources that agree -/

namespace RandomSource

/-- The next bytes of two sources are the same, so many of them. -/
def AgreeOn (n : Nat) (s t : RandomSource) : Prop :=
  ∀ i < n, s.byte (s.drawn + i) = t.byte (t.drawn + i)

variable {s t : RandomSource} {m n : Nat}

theorem AgreeOn.refl (n : Nat) (s : RandomSource) : s.AgreeOn n s := fun _ _ => rfl

theorem AgreeOn.mono (h : AgreeOn n s t) (hLe : m ≤ n) : AgreeOn m s t :=
  fun i hi => h i (Nat.lt_of_lt_of_le hi hLe)

theorem AgreeOn.skip (h : AgreeOn (m + n) s t) : AgreeOn n (s.skip m) (t.skip m) := by
  intro i hi
  have hByte := h (m + i) (Nat.add_lt_add_left hi m)
  rwa [← Nat.add_assoc, ← Nat.add_assoc] at hByte

end RandomSource

/-! ## Words that test a key -/

/-- Whether a word is `Ex9E` or `ExA1`, which go by whether a key is down. -/
def Word.TestsKey (w : Word) : Prop :=
  w.family.val = 0xE ∧ (w.kk.toNat = 0x9E ∨ w.kk.toNat = 0xA1)

/-- The only words that test a key are of the forms `Ex9E` and `ExA1`. -/
theorem Instr.testsKey_of_word {w : Word} {instr : Instr} (h : ofWord? w = some instr) {x : Reg}
    (hKey : instr = .skipPressed x ∨ instr = .skipReleased x) : w.TestsKey := by
  have hCode := code_of_word h
  have hByte := w.toNat_kk
  have hx := x.isLt
  rcases hKey with rfl | rfl
  · simp only [code] at hCode
    refine ⟨?_, Or.inl (by omega)⟩
    simp only [Word.family]
    omega
  · simp only [code] at hCode
    refine ⟨?_, Or.inr (by omega)⟩
    simp only [Word.family]
    omega

/-! ## Exchanged devices -/

namespace Devices

variable {δ ε : Type} [Devices δ] [Devices ε]

/-- A map of devices that all their operations pass through, but for what is answered about keys. -/
structure Carried (f : δ → ε) : Prop where
  toggle : ∀ x y d,
    Devices.toggle x y (f d) = ((Devices.toggle x y d).1, f (Devices.toggle x y d).2)
  clear : ∀ d, Devices.clear (f d) = f (Devices.clear d)
  pressed : ∀ key d, (Devices.pressed key (f d)).2 = f (Devices.pressed key d).2
  toneOn : ∀ frequency d, Devices.toneOn frequency (f d) = f (Devices.toneOn frequency d)
  toneOff : ∀ d, Devices.toneOff (f d) = f (Devices.toneOff d)

/-- What is answered about keys is the same after a map. -/
def KeepsKeys (f : δ → ε) : Prop :=
  ∀ key d, (Devices.pressed key (f d)).1 = (Devices.pressed key d).1

private theorem carried_id (δ : Type) [Devices δ] : Carried (id : δ → δ) :=
  ⟨fun _ _ _ => rfl, fun _ => rfl, fun _ _ => rfl, fun _ _ => rfl, fun _ => rfl⟩

private theorem keepsKeys_id (δ : Type) [Devices δ] : KeepsKeys (id : δ → δ) := fun _ _ => rfl

theorem Carried.toggleAll {f : δ → ε} (hMap : Carried f) (pixels : List (Nat × Nat)) (d : δ) :
    Devices.toggleAll pixels (f d) =
      ((Devices.toggleAll pixels d).1, f (Devices.toggleAll pixels d).2) := by
  induction pixels generalizing d with
  | nil => rfl
  | cons pixel rest ih =>
      obtain ⟨x, y⟩ := pixel
      simp only [Devices.toggleAll, hMap.toggle, ih]

end Devices

/-! ## Exchanged consoles -/

namespace Console

variable {δ ε : Type}

/-- The console with another random source and with its devices exchanged. -/
def exchanged (source : RandomSource) (f : δ → ε) (c : Console δ) : Console ε :=
  { machine := { c.machine with random := source }, devices := f c.devices }

variable {source : RandomSource} {f : δ → ε}

private theorem transfer_exchanged (g : Cpu → Except Fault Cpu) (c : Console δ) :
    (c.exchanged source f).transfer g = (c.transfer g).within (·.exchanged source f) := by
  have hCpu : g (c.exchanged source f).machine.cpu = g c.machine.cpu := rfl
  unfold transfer
  rw [hCpu]
  cases g c.machine.cpu <;> rfl

/-- A byte is drawn alike from sources that agree on it. -/
theorem drawRandom_exchanged {c : Console δ} (h : source.AgreeOn 1 c.machine.random) (x : Reg)
    (mask : UInt8) :
    (c.exchanged source f).drawRandom x mask =
      (c.drawRandom x mask).exchanged (source.skip 1) f := by
  have hByte : source.next.1 = c.machine.random.next.1 := h 0 Nat.one_pos
  simp only [drawRandom, exchanged, hByte]
  rfl

variable [Devices δ] [Devices ε]

private theorem poll_exchanged (hMap : Devices.Carried f) (x : Reg) (c : Console δ) :
    ((c.exchanged source f).poll x).2 = (c.poll x).2.exchanged source f := by
  have hReg : (c.exchanged source f).machine.cpu.reg x = c.machine.cpu.reg x := rfl
  unfold poll
  simp only [hReg]
  split
  · simp only [exchanged, hMap.pressed]
  · rfl

private theorem poll_answer_exchanged (hKeys : Devices.KeepsKeys f) (x : Reg) (c : Console δ) :
    ((c.exchanged source f).poll x).1 = (c.poll x).1 := by
  have hReg : (c.exchanged source f).machine.cpu.reg x = c.machine.cpu.reg x := rfl
  unfold poll
  simp only [hReg]
  split
  · exact hKeys _ c.devices
  · rfl

private theorem skipOnKey_exchanged (hMap : Devices.Carried f) (hKeys : Devices.KeepsKeys f)
    (x : Reg) (wanted : Bool) (c : Console δ) :
    (c.exchanged source f).skipOnKey x wanted =
      (c.skipOnKey x wanted).within (·.exchanged source f) := by
  unfold skipOnKey
  simp only [poll_exchanged hMap, poll_answer_exchanged hKeys]
  rfl

private theorem drawSprite_exchanged (hMap : Devices.Carried f) (x y height : Fin 16)
    (c : Console δ) : (c.exchanged source f).drawSprite x y height =
      (c.drawSprite x y height).within (·.exchanged source f) := by
  simp only [drawSprite, exchanged, hMap.toggleAll]
  rfl

/-- An instruction that draws no byte, and tests no key unless the answers are the same, does the
same after the exchange. -/
theorem perform_exchanged (hMap : Devices.Carried f) {instr : Instr}
    (hRandom : ∀ x mask, instr ≠ .random x mask)
    (hKeys : ∀ x, instr = .skipPressed x ∨ instr = .skipReleased x → Devices.KeepsKeys f)
    (c : Console δ) :
    instr.perform (c.exchanged source f) = (instr.perform c).within (·.exchanged source f) := by
  cases instr
  case clear => simp only [Instr.perform, exchanged, hMap.clear]; rfl
  case ret => exact transfer_exchanged _ c
  case call => exact transfer_exchanged _ c
  case random x mask => exact absurd rfl (hRandom x mask)
  case draw x y height => exact drawSprite_exchanged hMap x y height c
  case skipPressed x => exact skipOnKey_exchanged hMap (hKeys x (Or.inl rfl)) x true c
  case skipReleased x => exact skipOnKey_exchanged hMap (hKeys x (Or.inr rfl)) x false c
  all_goals rfl

/-- **One word after an exchange**, that tests no key unless the answers are the same. -/
theorem execute_exchanged (hMap : Devices.Carried f) {word : Word} {c : Console δ}
    (hKeys : word.TestsKey → Devices.KeepsKeys f)
    (hAgree : source.AgreeOn ([word].countP Word.isRandom) c.machine.random) :
    (c.exchanged source f).execute word =
      (c.execute word).within (·.exchanged (source.skip ([word].countP Word.isRandom)) f) := by
  cases hRandom : word.isRandom with
  | true =>
      have hCount : [word].countP Word.isRandom = 1 := by simp [hRandom]
      rw [hCount] at hAgree ⊢
      have hDrawn := drawRandom_exchanged (f := f) (c := c.mapCpu Cpu.advance) hAgree word.x word.kk
      rw [execute_of_instr (Instr.ofWord?_random hRandom),
        execute_of_instr (Instr.ofWord?_random hRandom)]
      exact congrArg (done .proceed) hDrawn
  | false =>
      have hCount : [word].countP Word.isRandom = 0 := by simp [hRandom]
      rw [hCount, RandomSource.skip_zero]
      cases hWord : Instr.ofWord? word with
      | some instr =>
          rw [execute_of_instr hWord, execute_of_instr hWord]
          refine perform_exchanged hMap ?_ ?_ (c.mapCpu Cpu.advance)
          · rintro x mask rfl
            cases hRandom.symm.trans (Instr.isRandom_of_word hWord)
          · intro x hKey
            exact hKeys (Instr.testsKey_of_word hWord hKey)
      | none =>
          rw [execute_of_none hWord, execute_of_none hWord]
          unfold refuse
          split
          · show fail _ ((c.mapCpu Cpu.advance).exchanged source f |>.poll word.x).2 = _
            rw [poll_exchanged hMap]
            rfl
          · rfl

/-! ## Steps -/

/-- Words that test no key unless the answers about keys are the same after a map. -/
def Answered (f : δ → ε) (words : List Word) : Prop :=
  ∀ word ∈ words, word.TestsKey → Devices.KeepsKeys f

theorem Answered.of_append {f : δ → ε} {first later : List Word} (h : Answered f (first ++ later)) :
    Answered f first ∧ Answered f later :=
  ⟨fun word hMem => h word (List.mem_append_left _ hMem),
    fun word hMem => h word (List.mem_append_right _ hMem)⟩

/-- **One step after an exchange.** -/
theorem step_exchanged (hMap : Devices.Carried f) {c : Console δ} {source : RandomSource}
    (hKeys : Answered f (fetchedIn c.step.records))
    (hAgree : source.AgreeOn ((fetchedIn c.step.records).countP Word.isRandom) c.machine.random) :
    (c.exchanged source f).step =
      c.step.within
        (·.exchanged (source.skip ((fetchedIn c.step.records).countP Word.isRandom)) f) := by
  rcases c.step_cases with ⟨fault, hTrap, hStep⟩ | ⟨hTrap, hProgram, hStep⟩ |
    ⟨hTrap, hProgram, hWaiting, hStep⟩ | ⟨hTrap, hProgram, hWaiting, hStep⟩
  · rw [hStep, step_trapped (c := c.exchanged source f) hTrap]
    rfl
  · have hRefused : (c.exchanged source f).step =
        fail (.invalidProgram 0) (c.exchanged source f) := by
      simp only [step, exchanged, hTrap, hProgram]
      rfl
    rw [hStep, hRefused]
    rfl
  · rw [hStep, step_keyWait (c := c.exchanged source f) hTrap hProgram hWaiting]
    rfl
  · have hWait : c.machine.cpu.wait = none := by simpa [Machine.isWaiting] using hWaiting
    rw [hStep, fetchExecute_fetched] at hKeys hAgree
    have hExecute := execute_exchanged (f := f) hMap (hKeys c.nextWord (by simp)) hAgree
    rw [hStep, fetchExecute_fetched, step_taken (c := c.exchanged source f) hTrap hProgram hWait]
    have hNext : (c.exchanged source f).nextWord = c.nextWord := rfl
    cases hResult : (c.execute c.nextWord).result with
    | ok flow =>
        have hOther : ((c.exchanged source f).execute (c.exchanged source f).nextWord).result =
            .ok flow := by
          rw [hNext, hExecute]
          exact hResult
        rw [fetchExecute_of_ok hResult, fetchExecute_of_ok hOther, hNext, hExecute]
        rfl
    | error fault =>
        have hOther : ((c.exchanged source f).execute (c.exchanged source f).nextWord).result =
            .error fault := by
          rw [hNext, hExecute]
          exact hResult
        rw [fetchExecute_of_error hResult, fetchExecute_of_error hOther, hNext, hExecute]
        rfl

private theorem everyStep_exchanged (hMap : Devices.Carried f) (n : Nat)
    {o : Outcome (Console δ) Flow} {source : RandomSource} (hKeys : Answered f (o.state.stepped n))
    (hAgree : source.AgreeOn ((o.state.stepped n).countP Word.isRandom) o.state.machine.random) :
    everyStep n (o.within (·.exchanged source f)) =
      (everyStep n o).within
        (·.exchanged (source.skip ((o.state.stepped n).countP Word.isRandom)) f) := by
  induction n generalizing o source with
  | zero => rfl
  | succ n ih =>
      rw [stepped_cons] at hKeys hAgree
      rw [stepped_cons, List.countP_append, ← RandomSource.skip_skip]
      rw [List.countP_append] at hAgree
      obtain ⟨hFirst, hLater⟩ := hKeys.of_append
      have hStep := step_exchanged hMap hFirst (hAgree.mono (Nat.le_add_right _ _))
      have hNext := hAgree.skip
      rw [← step_random] at hNext
      have hRest := ih (o := o.state.step.after o.records) hLater hNext
      rw [everyStep, everyStep]
      show everyStep n (((o.state.exchanged source f).step).after o.records) = _
      rw [hStep]
      exact hRest

private theorem runSteps_exchanged (hMap : Devices.Carried f) (n : Nat) {c : Console δ}
    {source : RandomSource} (hKeys : Answered f (c.stepped n))
    (hAgree : source.AgreeOn ((c.stepped n).countP Word.isRandom) c.machine.random) :
    (c.exchanged source f).runSteps n =
      (c.runSteps n).within
        (·.exchanged (source.skip ((c.stepped n).countP Word.isRandom)) f) := by
  rw [runSteps_eq_everyStep, runSteps_eq_everyStep]
  exact everyStep_exchanged hMap n (o := done .proceed c) hKeys hAgree

/-! ## Batches, loads and keys -/

private theorem finishBatch_exchanged (hMap : Devices.Carried f) (c : Console δ) :
    (c.exchanged source f).finishBatch = c.finishBatch.exchanged source f := by
  have hMachine : (c.exchanged source f).machine.afterBatch =
      { c.machine.afterBatch with random := source } := by
    have hWaiting : (c.exchanged source f).machine.isWaiting = c.machine.isWaiting := rfl
    unfold Machine.afterBatch
    rw [hWaiting]
    split <;> rfl
  rw [finishBatch_eq, finishBatch_eq, hMachine]
  simp only [exchanged, hMap.toneOn, hMap.toneOff]
  split <;> rfl

/-- **One batch after an exchange.** -/
theorem cycle_exchanged (hMap : Devices.Carried f) {c : Console δ} {source : RandomSource}
    (hKeys : Answered f (fetchedIn c.cycle.records))
    (hAgree : source.AgreeOn ((fetchedIn c.cycle.records).countP Word.isRandom) c.machine.random) :
    (c.exchanged source f).cycle =
      c.cycle.within
        (·.exchanged (source.skip ((fetchedIn c.cycle.records).countP Word.isRandom)) f) := by
  rw [cycle_records, batch_eq_runSteps, runSteps_fetched] at hKeys hAgree ⊢
  have hBatch : (c.exchanged source f).batch = c.batch.within
      (·.exchanged (source.skip ((c.stepped c.machine.conf.speed).countP Word.isRandom)) f) := by
    rw [batch_eq_runSteps, batch_eq_runSteps]
    exact runSteps_exchanged hMap _ hKeys hAgree
  have hResult : (c.exchanged source f).batch.result = c.batch.result := by
    rw [hBatch]
    rfl
  rcases c.cycle_cases with ⟨flow, hOk, hCycle⟩ | ⟨e, hError, hCycle⟩
  · rcases (c.exchanged source f).cycle_cases with ⟨_, _, hOther⟩ | ⟨_, hFault, _⟩
    · rw [hCycle, hOther, hBatch]
      simp only [Outcome.within, finishBatch_exchanged hMap]
    · cases hFault.symm.trans (hResult.trans hOk)
  · rcases (c.exchanged source f).cycle_cases with ⟨_, hFine, _⟩ | ⟨fault, hFault, hOther⟩
    · cases hFine.symm.trans (hResult.trans hError)
    · obtain rfl : fault = e := by
        rw [hResult, hError] at hFault
        exact (Except.error.inj hFault).symm
      rw [hCycle, hOther, hBatch]
      rfl

omit [Devices δ] [Devices ε] in
private theorem load_exchanged (program : List UInt8) (c : Console δ) :
    ((c.exchanged source f).machine.load program).within (c.exchanged source f).withMachine =
      ((c.machine.load program).within c.withMachine).within (·.exchanged source f) := by
  unfold Machine.load
  split <;> rfl

omit [Devices δ] [Devices ε] in
private theorem keyDown_exchanged (key : Key) (c : Console δ) :
    ((c.exchanged source f).machine.keyDown key).within (c.exchanged source f).withMachine =
      ((c.machine.keyDown key).within c.withMachine).within (·.exchanged source f) := by
  have hWait : (c.exchanged source f).machine.cpu.wait = c.machine.cpu.wait := rfl
  unfold Machine.keyDown
  rw [hWait]
  split <;> rfl

/-- **Whatever a host does after an exchange**: it comes to the same, with the exchange done
afterwards. -/
theorem apply_exchanged (hMap : Devices.Carried f) (op : Operation) {c : Console δ}
    {source : RandomSource} (hKeys : Answered f (op.executedBy (c.apply op).records))
    (hAgree : source.AgreeOn ((op.executedBy (c.apply op).records).countP Word.isRandom)
      c.machine.random) :
    (c.exchanged source f).apply op =
      (c.apply op).within (·.exchanged
        (source.skip ((op.executedBy (c.apply op).records).countP Word.isRandom)) f) := by
  cases op with
  | load program =>
      have hNone : Operation.executedBy (.load program) (c.apply (.load program)).records = [] :=
        (executionsIn_words (.load program) c).symm
      rw [hNone]
      exact congrArg (Outcome.map fun _ => Answer.done) (load_exchanged program c)
  | execute word =>
      exact congrArg (Outcome.map Answer.flow)
        (execute_exchanged hMap (hKeys word (List.mem_singleton_self word)) hAgree)
  | step => exact congrArg (Outcome.map Answer.flow) (step_exchanged hMap hKeys hAgree)
  | runSteps count =>
      have hWords : Operation.executedBy (.runSteps count) (c.apply (.runSteps count)).records =
          c.stepped count := runSteps_fetched count c
      rw [hWords] at hKeys hAgree ⊢
      exact congrArg (Outcome.map Answer.flow) (runSteps_exchanged hMap count hKeys hAgree)
  | cycle => exact congrArg (Outcome.map fun _ => Answer.done) (cycle_exchanged hMap hKeys hAgree)
  | keyDown key =>
      have hNone : Operation.executedBy (.keyDown key) (c.apply (.keyDown key)).records = [] :=
        (executionsIn_words (.keyDown key) c).symm
      rw [hNone]
      exact congrArg (Outcome.map Answer.resolved) (keyDown_exchanged key c)

end Console

/-! ## Runs on another source -/

/-- Outcomes that are the same but for the random source that the machine is left with. -/
structure Outcome.SameButSource {δ α : Type} (o p : Outcome (Console δ) α) : Prop where
  result : p.result = o.result
  records : p.records = o.records
  devices : p.state.devices = o.state.devices
  machine : p.state.machine = { o.state.machine with random := p.state.machine.random }

namespace Console

variable {δ : Type} [Devices δ]

/-- A run on another source, if it agrees on the bytes that are drawn. -/
theorem applyAll_exchanged (ops : List Operation) {c : Console δ} {source : RandomSource}
    (hAgree : source.AgreeOn ((c.executed ops).countP Word.isRandom) c.machine.random) :
    List.Forall₂ Outcome.SameButSource (c.applyAll ops) ((c.exchanged source id).applyAll ops) := by
  induction ops generalizing c source with
  | nil => exact .nil
  | cons op ops ih =>
      rw [executed, List.countP_append] at hAgree
      have hOp := apply_exchanged (f := id) (Devices.carried_id δ) op
        (fun _ _ _ => Devices.keepsKeys_id δ) (hAgree.mono (Nat.le_add_right _ _))
      have hNext := hAgree.skip
      rw [← apply_random] at hNext
      rw [applyAll, applyAll, hOp]
      exact .cons ⟨rfl, rfl, rfl, rfl⟩ (ih hNext)

end Console

/-- **Randomness is accounted for.**  In every run, whatever faults, waits and loads there are in
it, as many bytes are taken from the random source as there are `Cxkk` executed, and the one with
the number `i` among these masks the byte with the number `i` and puts it into its register. So a
run that executes at most `k` of them is the same on every source that agrees on the next `k` bytes:
all results, records and calls to the devices are the same, and all states but for the source. -/
theorem randomness_accounted {δ : Type} [Devices δ] (c : Console (Recorded δ))
    (ops : List Operation) :
    let words := c.executed ops
    let bytes (i : Nat) := c.machine.random.byte (c.machine.random.drawn + i)
    ((c.afterAll ops).machine.random =
      { c.machine.random with
        drawn := c.machine.random.drawn + words.countP Word.isRandom }) ∧
    ((c.executions ops).map Execution.word = words ∧
      ∀ (i : Nat) (e : Execution (Recorded δ)),
        ((c.executions ops).filter (·.word.isRandom))[i]? = some e →
        e.outcome.result = .ok .proceed ∧
        e.outcome.state.machine.cpu =
          e.before.machine.cpu.advance.setReg e.word.x (e.word.kk &&& bytes i)) ∧
    ∀ (k : Nat) (source : RandomSource), (∀ i < k, source.byte (source.drawn + i) = bytes i) →
      words.countP Word.isRandom ≤ k →
      List.Forall₂ Outcome.SameButSource (c.applyAll ops)
        (Console.applyAll ops ⟨{ c.machine with random := source }, c.devices⟩) := by
  intro words bytes
  refine ⟨Console.afterAll_random ops c, ⟨Console.executions_words ops c, ?_⟩, ?_⟩
  · intro i e hWord
    have hRandom : e.word.isRandom = true := by
      simpa using (List.mem_filter.1 (List.mem_of_getElem? hWord)).2
    have hSource := (c.draws_executions ops).getElem? hWord
    rw [Execution.outcome, Console.execute_of_isRandom hRandom]
    refine ⟨rfl, ?_⟩
    show e.before.machine.cpu.advance.setReg e.word.x
      (e.word.kk &&& e.before.machine.random.byte e.before.machine.random.drawn) = _
    rw [hSource]
    rfl
  · intro k source hSame hFew
    exact Console.applyAll_exchanged ops (RandomSource.AgreeOn.mono hSame hFew)

/-- A byte that is drawn and thrown away, a word that fails and a load, on two sources that agree on
their first two bytes. -/
theorem randomness_accounted_over_load :
    let c : Console (Recorded Headless) := ⟨.new {} (.cycling [7, 9]), { devices := {} }⟩
    let other : RandomSource := .cycling [7, 9, 1]
    let ops : List Operation :=
      [.execute 0xC000, .execute 0x5121, .load [0x12, 0x00], .execute 0xC1F8]
    let last : Execution (Recorded Headless) := ⟨c.afterAll (ops.take 3), 0xC1F8⟩
    c.executed ops = [0xC000, 0x5121, 0xC1F8] ∧
    (c.afterAll ops).machine.random.drawn = 2 ∧
    ((c.executions ops).filter (·.word.isRandom))[1]? = some last ∧
    last.outcome.state.machine.cpu.reg 1 = 8 ∧
    (∀ i < 2, other.byte (other.drawn + i) = c.machine.random.byte (c.machine.random.drawn + i)) ∧
    (c.executed ops).countP Word.isRandom ≤ 2 ∧
    List.Forall₂ Outcome.SameButSource (c.applyAll ops)
      (Console.applyAll ops ⟨{ c.machine with random := other }, c.devices⟩) := by
  intro c other ops last
  obtain ⟨hDrawn, ⟨-, hBytes⟩, hSame⟩ := randomness_accounted c ops
  have hWords : c.executed ops = [0xC000, 0x5121, 0xC1F8] := rfl
  have hList : c.executions ops =
      [⟨c, 0xC000⟩, ⟨c.afterAll (ops.take 1), 0x5121⟩, last] := rfl
  have hLast : ((c.executions ops).filter (·.word.isRandom))[1]? = some last := by
    have hDraw : Word.isRandom 0xC000 = true := by decide
    have hFault : Word.isRandom 0x5121 = false := by decide
    have hLater : Word.isRandom last.word = true := by decide
    simp only [hList, List.filter, hDraw, hFault, hLater]
    rfl
  have hFew : (c.executed ops).countP Word.isRandom ≤ 2 := by
    rw [hWords]
    decide
  have hAgree : ∀ i < 2,
      other.byte (other.drawn + i) = c.machine.random.byte (c.machine.random.drawn + i) := by
    decide
  refine ⟨hWords, ?_, hLast, ?_, hAgree, hFew, hSame 2 other hAgree hFew⟩
  · rw [hDrawn, hWords]
    rfl
  · rw [(hBytes 1 last hLast).2]
    have hRegister : last.word.x = 1 := by decide
    have hByte : last.word.kk &&& c.machine.random.byte (c.machine.random.drawn + 1) = 8 := by
      decide
    simp only [hRegister, hByte, Cpu.reg_setReg_self]

end Chip8
