import Chip8.Instr.Encode
import Chip8.Proofs.Driving
import Chip8.Proofs.Simulation

/-!
# The size of a batch does not matter

How many instructions go into a batch decides when the timers count down and
when the buzzer is set. A program learns of that through `Fx07` alone, which
reads the delay timer. Two runs that put the same number of instructions into
batches of different sizes therefore end alike but for the timers and the
buzzer, as long as the first of them executes no such word.

Both runs are compared with single steps. A batch is as many steps, after which
the timers may count down (`Console.Repaced.cycle`), and machines that differ in
their timers alone take the same steps (`StepSimulation.afterSteps`).

## Main results

* `Console.Repaced.stepwise` — the timers have no say in any word but `Fx07`.
* `Console.Repaced.cycles` — batches against single steps.
* `batching_transparent` — batches of two sizes.
-/

namespace Chip8

/-! ## Words that read a timer -/

/-- Whether a word is `Fx07`. -/
def Word.ReadsDelay (w : Word) : Prop := w.family.val = 0xF ∧ w.kk.toNat = 0x07

instance (w : Word) : Decidable w.ReadsDelay := by
  unfold Word.ReadsDelay
  infer_instance

/-- The only words that read the delay timer are of the form `Fx07`. -/
theorem Instr.readsDelay_of_word {w : Word} {x : Reg} (h : ofWord? w = some (.readDelay x)) :
    w.ReadsDelay := by
  have hCode := code_of_word h
  have hByte := w.toNat_kk
  have hx := x.isLt
  simp only [code] at hCode
  constructor
  · simp only [Word.family]
    omega
  · omega

/-! ## Processors with other timers -/

namespace Cpu

/-- The processor with other timers. -/
def timed (delay sound : UInt8) (c : Cpu) : Cpu := { c with delay, sound }

/-- The timers have no say in an operation: the rest of the processor comes out the same whatever
they are. -/
def Timeless (f : Cpu → Cpu) : Prop :=
  ∀ delay sound c, ∃ delay' sound', f (c.timed delay sound) = (f c).timed delay' sound'

theorem Timeless.skip {test : Cpu → Bool}
    (hTest : ∀ delay sound c, test (c.timed delay sound) = test c) :
    Timeless fun c => c.skipIf (test c) := by
  intro delay sound c
  refine ⟨delay, sound, ?_⟩
  simp only [hTest]
  cases test c <;> rfl

private theorem timeless_combine (op : AluOp) (x y : Reg) : Timeless (combine op x y) := by
  intro delay sound c
  refine ⟨delay, sound, ?_⟩
  cases op <;> rfl

private theorem timeless_loadIndexed (x : Reg) : Timeless (loadIndexed x) := by
  intro delay sound c
  refine ⟨delay, sound, ?_⟩
  simp only [loadIndexed, timed]
  rfl

private theorem ret_timed (delay sound : UInt8) (c : Cpu) :
    ret (c.timed delay sound) = (ret c).map (timed delay sound) := by
  have hStack : (c.timed delay sound).stack = c.stack := rfl
  unfold ret
  rw [hStack]
  cases c.stack.pop <;> rfl

private theorem call_timed (target : UInt16) (delay sound : UInt8) (c : Cpu) :
    call target (c.timed delay sound) = (call target c).map (timed delay sound) := by
  have hStack : (c.timed delay sound).stack.push (c.timed delay sound).pc = c.stack.push c.pc := rfl
  unfold call
  rw [hStack]
  cases c.stack.push c.pc <;> rfl

end Cpu

/-! ## Machines with another pace -/

/-- The machine with another speed and other timers. -/
def Machine.paced (speed : Nat) (delay sound : UInt8) (m : Machine) : Machine :=
  { m with cpu := m.cpu.timed delay sound, conf := { m.conf with speed } }

/-- Machines that differ in their speed and their timers only. -/
def Machine.Repaced (m n : Machine) : Prop := ∃ speed delay sound, n = m.paced speed delay sound

namespace Machine.Repaced

variable {m n o : Machine}

theorem refl (m : Machine) : m.Repaced m := ⟨m.conf.speed, m.cpu.delay, m.cpu.sound, rfl⟩

theorem symm (h : m.Repaced n) : n.Repaced m := by
  obtain ⟨speed, delay, sound, rfl⟩ := h
  exact ⟨m.conf.speed, m.cpu.delay, m.cpu.sound, rfl⟩

theorem trans (h : m.Repaced n) (hNext : n.Repaced o) : m.Repaced o := by
  obtain ⟨_, _, _, rfl⟩ := h
  obtain ⟨speed, delay, sound, rfl⟩ := hNext
  exact ⟨speed, delay, sound, rfl⟩

/-- The speed and the timers that make the difference are those of the second machine. -/
theorem eq_paced (h : m.Repaced n) : n = m.paced n.conf.speed n.cpu.delay n.cpu.sound := by
  obtain ⟨speed, delay, sound, rfl⟩ := h
  rfl

theorem afterBatch (m : Machine) : m.Repaced m.afterBatch := by
  unfold Machine.afterBatch
  split
  · exact .refl m
  · exact ⟨m.conf.speed, m.cpu.tick.delay, m.cpu.tick.sound, rfl⟩

end Machine.Repaced

/-! ## Devices seen without their buzzer -/

/-- A view of devices that decides all their answers and does not show the buzzer. -/
structure Devices.SilentView {δ β : Type} [Devices δ] (view : δ → β) : Prop extends
    Devices.ToneBlind view where
  alike : Devices.Alike fun d e : δ => view d = view e

/-- What is left of devices in memory without the buzzer. -/
def Headless.silent (d : Headless) : Headless := { d with tone := none }

private theorem Headless.silentView : Devices.SilentView Headless.silent where
  toneOn _ _ := rfl
  toneOff _ := rfl
  alike :=
    { toggle := by
        rintro ⟨display, keys, _⟩ ⟨_, _, _⟩ h x y
        cases h
        exact ⟨rfl, rfl⟩
      clear := by
        rintro ⟨display, keys, _⟩ ⟨_, _, _⟩ h
        cases h
        rfl
      pressed := by
        rintro ⟨display, keys, _⟩ ⟨_, _, _⟩ h key
        cases h
        exact ⟨rfl, rfl⟩
      toneOn := by
        rintro d e h frequency
        exact h
      toneOff := by
        rintro d e h
        exact h }

/-! ## Consoles with another pace -/

/-- Consoles that differ in the speed, the timers and the buzzer only. -/
structure Console.Repaced {δ β : Type} (view : δ → β) (c d : Console δ) : Prop where
  machine : c.machine.Repaced d.machine
  devices : view c.devices = view d.devices

namespace Console.Repaced

variable {δ β : Type} {view : δ → β} {c d e : Console δ}

theorem symm (h : Console.Repaced view c d) : Console.Repaced view d c :=
  ⟨h.machine.symm, h.devices.symm⟩

theorem trans (h : Console.Repaced view c d) (hNext : Console.Repaced view d e) :
    Console.Repaced view c e :=
  ⟨h.machine.trans hNext.machine, h.devices.trans hNext.devices⟩

/-- Outcomes that differ in the speed, the timers and the buzzer only. -/
abbrev Match (view : δ → β) (o p : Outcome (Console δ) Flow) : Prop :=
  Outcome.Matches Eq (Console.Repaced view) o p

theorem mapCpu (h : Console.Repaced view c d) {f : Cpu → Cpu} (hf : Cpu.Timeless f) :
    Console.Repaced view (c.mapCpu f) (d.mapCpu f) := by
  obtain ⟨m, devices⟩ := c
  obtain ⟨n, devices'⟩ := d
  obtain ⟨⟨speed, delay, sound, rfl⟩, hView⟩ := h
  obtain ⟨delay', sound', hTimed⟩ := hf delay sound m.cpu
  exact ⟨⟨speed, delay', sound', by simp only [Console.mapCpu, Machine.paced, hTimed]⟩, hView⟩

theorem update (h : Console.Repaced view c d) (flow : Flow) {f : Cpu → Cpu}
    (hf : Cpu.Timeless f) : Match view (c.update flow f) (d.update flow f) :=
  ⟨.ok flow, h.mapCpu hf⟩

theorem transfer (h : Console.Repaced view c d) {f : Cpu → Except Fault Cpu}
    (hf : ∀ delay sound c, f (c.timed delay sound) = (f c).map (Cpu.timed delay sound)) :
    Match view (c.transfer f) (d.transfer f) := by
  obtain ⟨m, devices⟩ := c
  obtain ⟨n, devices'⟩ := d
  obtain ⟨⟨speed, delay, sound, rfl⟩, hView⟩ := h
  have hTimed : f (m.paced speed delay sound).cpu = (f m.cpu).map (Cpu.timed delay sound) :=
    hf delay sound m.cpu
  unfold Console.transfer
  rw [hTimed]
  dsimp only
  cases f m.cpu with
  | ok cpu => exact ⟨.ok Flow.jump, ⟨speed, delay, sound, rfl⟩, hView⟩
  | error fault => exact ⟨.error rfl, ⟨speed, delay, sound, rfl⟩, hView⟩

/-- What the timers have no say in is read alike on both sides. -/
theorem read {α : Type} (h : Console.Repaced view c d) {f : Cpu → α}
    (hf : ∀ delay sound c, f (c.timed delay sound) = f c) :
    f d.machine.cpu = f c.machine.cpu := by
  obtain ⟨speed, delay, sound, hMachine⟩ := h.machine
  rw [hMachine]
  exact hf delay sound c.machine.cpu

theorem storeBlock (h : Console.Repaced view c d) (values : List UInt8) :
    Match view (c.storeBlock values) (d.storeBlock values) :=
  ⟨.ok Flow.proceed, h.mapCpu fun delay sound _ => ⟨delay, sound, rfl⟩⟩

theorem drawRandom (h : Console.Repaced view c d) (x : Reg) (mask : UInt8) :
    Console.Repaced view (c.drawRandom x mask) (d.drawRandom x mask) := by
  obtain ⟨m, devices⟩ := c
  obtain ⟨n, devices'⟩ := d
  obtain ⟨⟨speed, delay, sound, rfl⟩, hView⟩ := h
  exact ⟨⟨speed, delay, sound, rfl⟩, hView⟩

variable [Devices δ]

theorem poll (h : Console.Repaced view c d) (hView : Devices.SilentView view) (x : Reg) :
    (c.poll x).1 = (d.poll x).1 ∧ Console.Repaced view (c.poll x).2 (d.poll x).2 := by
  have hReg : d.machine.cpu.reg x = c.machine.cpu.reg x := h.read fun _ _ _ => rfl
  unfold Console.poll
  rw [hReg]
  split
  · rename_i hKey
    obtain ⟨hDown, hNext⟩ := hView.alike.pressed h.devices ⟨(c.machine.cpu.reg x).toNat, hKey⟩
    exact ⟨hDown, h.machine, hNext⟩
  · exact ⟨rfl, h⟩

theorem skipOnKey (h : Console.Repaced view c d) (hView : Devices.SilentView view) (x : Reg)
    (wanted : Bool) : Match view (c.skipOnKey x wanted) (d.skipOnKey x wanted) := by
  obtain ⟨hDown, hNext⟩ := h.poll hView x
  unfold Console.skipOnKey
  simp only [hDown]
  exact hNext.update .proceed (Cpu.Timeless.skip fun _ _ _ => rfl)

theorem drawSprite (h : Console.Repaced view c d) (hView : Devices.SilentView view)
    (x y height : Fin 16) :
    Match view (c.drawSprite x y height) (d.drawSprite x y height) := by
  have hPixels : d.machine.cpu.spritePixels x y height = c.machine.cpu.spritePixels x y height :=
    h.read fun _ _ _ => rfl
  obtain ⟨hErased, hNext⟩ :=
    hView.alike.toggleAll (c.machine.cpu.spritePixels x y height) h.devices
  unfold Console.drawSprite
  simp only [hPixels, hErased]
  refine Console.Repaced.update ?_ .draw fun delay sound _ => ⟨delay, sound, rfl⟩
  exact ⟨h.machine, hNext⟩

/-- An instruction that does not read the delay timer does the same on both sides, but for what it
may do to the timers. -/
theorem perform (h : Console.Repaced view c d) (hView : Devices.SilentView view) {instr : Instr}
    (hReads : ∀ x, instr ≠ .readDelay x) : Match view (instr.perform c) (instr.perform d) := by
  have hReg (x : Reg) : d.machine.cpu.reg x = c.machine.cpu.reg x := h.read fun _ _ _ => rfl
  cases instr
  case clear => exact ⟨.ok Flow.clear, h.machine, hView.alike.clear h.devices⟩
  case ret => exact h.transfer Cpu.ret_timed
  case call target => exact h.transfer (Cpu.call_timed target)
  case skipEqual => exact h.update .proceed (Cpu.Timeless.skip fun _ _ _ => rfl)
  case skipNotEqual => exact h.update .proceed (Cpu.Timeless.skip fun _ _ _ => rfl)
  case skipSame => exact h.update .proceed (Cpu.Timeless.skip fun _ _ _ => rfl)
  case skipDifferent => exact h.update .proceed (Cpu.Timeless.skip fun _ _ _ => rfl)
  case alu op x y => exact h.update .proceed (Cpu.timeless_combine op x y)
  case random x mask => exact ⟨.ok Flow.proceed, h.drawRandom x mask⟩
  case draw x y height => exact h.drawSprite hView x y height
  case skipPressed x => exact h.skipOnKey hView x true
  case skipReleased x => exact h.skipOnKey hView x false
  case readDelay x => exact absurd rfl (hReads x)
  case awaitKey x =>
    have hNext := h.update .keyWait (f := fun cpu => { cpu with wait := some x })
      fun delay sound _ => ⟨delay, sound, rfl⟩
    exact ⟨hNext.result, hNext.state⟩
  case setDelay x => exact h.update .proceed fun _ sound cpu => ⟨cpu.reg x, sound, rfl⟩
  case setSound x => exact h.update .sound fun delay _ cpu => ⟨delay, cpu.reg x, rfl⟩
  case storeDecimal x =>
    simp only [Instr.perform, hReg]
    exact h.storeBlock _
  case storeRegisters x =>
    have hFirst : d.machine.cpu.firstRegisters x = c.machine.cpu.firstRegisters x :=
      h.read fun _ _ _ => rfl
    simp only [Instr.perform, hFirst]
    exact h.storeBlock _
  case loadRegisters x => exact h.update .proceed (Cpu.timeless_loadIndexed x)
  case jump => exact h.update .jump fun delay sound _ => ⟨delay, sound, rfl⟩
  case jumpOffset => exact h.update .jump fun delay sound _ => ⟨delay, sound, rfl⟩
  all_goals exact h.update .proceed fun delay sound _ => ⟨delay, sound, rfl⟩

theorem execute (h : Console.Repaced view c d) (hView : Devices.SilentView view) {word : Word}
    (hReads : ¬ word.ReadsDelay) : Match view (c.execute word) (d.execute word) := by
  have hNext : Console.Repaced view (c.mapCpu Cpu.advance) (d.mapCpu Cpu.advance) :=
    h.mapCpu fun delay sound _ => ⟨delay, sound, rfl⟩
  cases hWord : Instr.ofWord? word with
  | some instr =>
      rw [execute_of_instr hWord, execute_of_instr hWord]
      refine hNext.perform hView ?_
      rintro x rfl
      exact hReads (Instr.readsDelay_of_word hWord)
  | none =>
      have hPc : d.machine.cpu.pc = c.machine.cpu.pc := h.read fun _ _ _ => rfl
      rw [execute_of_none hWord, execute_of_none hWord, hPc]
      unfold Console.refuse
      split
      · exact ⟨.error rfl, (hNext.poll hView word.x).2⟩
      · exact ⟨.error rfl, hNext⟩

omit [Devices δ] in
theorem halt (h : Console.Repaced view c d) (fault : Fault) :
    Console.Repaced view (c.halt fault) (d.halt fault) := by
  obtain ⟨m, devices⟩ := c
  obtain ⟨n, devices'⟩ := d
  obtain ⟨⟨speed, delay, sound, rfl⟩, hView⟩ := h
  exact ⟨⟨speed, delay, sound, rfl⟩, hView⟩

/-- **The timers have no say in a step**, unless it reads the delay timer. -/
theorem stepwise (hView : Devices.SilentView view) :
    StepSimulation Eq (Console.Repaced view) (fun word => ¬ word.ReadsDelay) where
  refused _ := rfl
  trap {c d} h := by
    obtain ⟨speed, delay, sound, hMachine⟩ := h.machine
    rw [hMachine]
    show Option.Rel Eq c.machine.trap c.machine.trap
    cases c.machine.trap with
    | none => exact .none
    | some fault => exact .some rfl
  hasProgram h := by
    obtain ⟨speed, delay, sound, hMachine⟩ := h.machine
    rw [hMachine]
    rfl
  waiting h := (h.read (f := fun cpu => cpu.wait.isSome) fun _ _ _ => rfl).symm
  fetch h := (h.read (f := fun cpu => cpu.memory.fetch cpu.pc.toNat) fun _ _ _ => rfl).symm
  execute h _ hReads := h.execute hView hReads
  halt h hFault := hFault ▸ h.halt _

end Console.Repaced

/-! ## Runs of single steps -/

namespace StepSimulation

variable {δ ε : Type} [Devices δ] [Devices ε] {F : Fault → Fault → Prop}
variable {R : Console δ → Console ε → Prop} {may : Word → Prop} {c : Console δ} {d : Console ε}

/-- Whatever the guard says, both sides fetch the same word in a step. -/
theorem step_fetched (sim : StepSimulation F R may) (h : R c d) :
    fetchedIn c.step.records = fetchedIn d.step.records := by
  rcases sim.step_cases h with ⟨hc, hd⟩ | ⟨_, hc, hd⟩
  · have hWord : c.nextWord = d.nextWord := sim.fetch h
    rw [hc, hd, Console.fetchExecute_fetched, Console.fetchExecute_fetched, hWord]
  · rw [hc, hd]

/-- **The relation is kept along single steps**, and both sides execute the same words, if none of
those that both execute is out of bounds. -/
theorem afterSteps (sim : StepSimulation F R may) (h : R c d) {n : Nat}
    (hMay : ∀ word ∈ c.stepped n, word ∈ d.stepped n → may word) :
    R (c.afterSteps n) (d.afterSteps n) ∧ c.stepped n = d.stepped n := by
  induction n with
  | zero => exact ⟨h, rfl⟩
  | succ n ih =>
      rw [Console.stepped_succ, Console.stepped_succ] at hMay ⊢
      rw [Console.afterSteps_succ, Console.afterSteps_succ]
      obtain ⟨hNext, hWords⟩ := ih fun word hc hd =>
        hMay word (List.mem_append_left _ hc) (List.mem_append_left _ hd)
      have hLast : Operation.executedBy .step (c.afterSteps n).step.records =
          Operation.executedBy .step (d.afterSteps n).step.records := sim.step_fetched hNext
      have hStep := sim.step hNext fun hc hd => by
        have hFetched : Operation.executedBy .step (c.afterSteps n).step.records =
            [(c.afterSteps n).nextWord] := by
          rw [hc]
          exact (c.afterSteps n).fetchExecute_fetched
        refine hMay _ (List.mem_append_right _ ?_) (List.mem_append_right _ ?_)
        · rw [hFetched]
          exact List.mem_singleton_self _
        · rw [← hLast, hFetched]
          exact List.mem_singleton_self _
      exact ⟨hStep.state, by rw [hWords, hLast]⟩

end StepSimulation

/-! ## Runs of batches -/

/-- The words of a batch are those of as many single steps. -/
theorem Console.executed_cycles_succ {δ : Type} [Devices δ] (k : Nat) (c : Console δ) :
    c.executed (List.replicate (k + 1) .cycle) =
      c.stepped c.machine.conf.speed ++ c.cycle.state.executed (List.replicate k .cycle) := by
  have hBatch : fetchedIn c.cycle.records = c.stepped c.machine.conf.speed := by
    rw [cycle_records, batch_eq_runSteps, runSteps_fetched]
  rw [← hBatch]
  rfl

namespace Console.Repaced

variable {δ β : Type} [Devices δ] {view : δ → β} {c d : Console δ}

/-- The end of a batch changes the timers and the buzzer alone. -/
theorem finishBatch (hView : Devices.SilentView view) (c : Console δ) :
    Console.Repaced view c c.finishBatch := by
  refine ⟨?_, ?_⟩
  · rw [Console.finishBatch_eq]
    exact .afterBatch c.machine
  · rcases c.finishBatch_devices with hOn | hOff
    · rw [hOn]
      exact (hView.toneOn _ _).symm
    · rw [hOff]
      exact (hView.toneOff _).symm

/-- A batch is as many single steps, but for the timers and the buzzer. -/
theorem cycle (hView : Devices.SilentView view) (c : Console δ) :
    Console.Repaced view c.cycle.state (c.afterSteps c.machine.conf.speed) := by
  rw [← Console.runSteps_state]
  cases hRan : (c.runSteps c.machine.conf.speed).result with
  | ok flow =>
      rw [(Console.cycle_of_ok hRan).2]
      exact (finishBatch hView _).symm
  | error e =>
      rw [(Console.cycle_of_error hRan).2]
      exact ⟨.refl _, rfl⟩

/-- **Batches and single steps come to the same**, but for the timers and the buzzer, and execute
the same words, if none of these reads the delay timer. -/
theorem cycles (hView : Devices.SilentView view) {speed k : Nat}
    (hSpeed : c.machine.conf.speed = speed) (h : Console.Repaced view c d)
    (hReads : ∀ word ∈ c.executed (List.replicate k .cycle), word ∈ d.stepped (k * speed) →
      ¬ word.ReadsDelay) :
    Console.Repaced view (c.afterAll (List.replicate k .cycle)) (d.afterSteps (k * speed)) ∧
      c.executed (List.replicate k .cycle) = d.stepped (k * speed) := by
  induction k generalizing c d with
  | zero =>
      rw [Nat.zero_mul]
      exact ⟨h, rfl⟩
  | succ k ih =>
      have hFirst := c.executed_cycles_succ k
      rw [hSpeed] at hFirst
      have hCount : (k + 1) * speed = speed + k * speed := by
        rw [Nat.succ_mul, Nat.add_comm]
      rw [hFirst, hCount, Console.stepped_add] at hReads ⊢
      rw [Console.afterSteps_add]
      obtain ⟨hSteps, hWords⟩ := (stepwise hView).afterSteps h fun word hc hd =>
        hReads word (List.mem_append_left _ hc) (List.mem_append_left _ hd)
      have hCycle := cycle hView c
      rw [hSpeed] at hCycle
      have hKept : c.cycle.state.machine.conf.speed = speed :=
        (congrArg Conf.speed ((Console.conf_kept c.machine.conf).cycle rfl)).trans hSpeed
      obtain ⟨hRest, hLater⟩ := ih hKept (hCycle.trans hSteps) fun word hc hd =>
        hReads word (List.mem_append_right _ hc) (List.mem_append_right _ hd)
      exact ⟨hRest, by rw [hWords, hLater]⟩

/-- Batches of two sizes come to the same, but for the timers and the buzzer: both come to what as
many single steps come to. -/
theorem batches (hView : Devices.SilentView view) (h : Console.Repaced view c d) {j k : Nat}
    (hSame : j * c.machine.conf.speed = k * d.machine.conf.speed)
    (hReads : ∀ word ∈ c.executed (List.replicate j .cycle), ¬ word.ReadsDelay) :
    Console.Repaced view (c.afterAll (List.replicate j .cycle))
      (d.afterAll (List.replicate k .cycle)) := by
  obtain ⟨hFirst, hWords⟩ := cycles hView rfl h fun word hc _ => hReads word hc
  rw [hSame] at hFirst hWords
  obtain ⟨hSecond, -⟩ := cycles (k := k) hView rfl ⟨.refl d.machine, rfl⟩ fun word _ hd =>
    hReads word (hWords ▸ hd)
  exact hFirst.trans hSecond.symm

end Console.Repaced

/-! ## Batches of two sizes -/

/-- **The size of a batch does not matter.**  Let two runs start from machines that differ in their
speed and their timers at most, on equal devices, and let them execute as many instructions in
batches of their own size. If the first executes no `Fx07`, they end in machines that differ in
their speed and their timers at most, with the same on the display. -/
theorem batching_transparent {c d : Console Headless} (hPace : c.machine.Repaced d.machine)
    (hDevices : c.devices = d.devices) {j k : Nat}
    (hSame : j * c.machine.conf.speed = k * d.machine.conf.speed)
    (hReads : ∀ word ∈ c.executed (List.replicate j .cycle), ¬ word.ReadsDelay) :
    let first := c.afterAll (List.replicate j .cycle)
    let second := d.afterAll (List.replicate k .cycle)
    second.machine =
        first.machine.paced d.machine.conf.speed second.machine.cpu.delay
          second.machine.cpu.sound ∧
      second.devices.display = first.devices.display ∧
      second.devices.keys = first.devices.keys := by
  intro first second
  have hStart : Console.Repaced Headless.silent c d := ⟨hPace, congrArg Headless.silent hDevices⟩
  have hEnd : Console.Repaced Headless.silent first second :=
    hStart.batches Headless.silentView hSame hReads
  have hConf : second.machine.conf = d.machine.conf :=
    (Console.conf_kept d.machine.conf).afterAll (fun _ _ => trivial) rfl
  have hMachine := hEnd.machine.eq_paced
  rw [hConf] at hMachine
  exact ⟨hMachine, (congrArg Headless.display hEnd.devices).symm,
    (congrArg Headless.keys hEnd.devices).symm⟩

/-- A step that puts a value into a register. -/
theorem Console.step_of_set {δ : Type} [Devices δ] {c : Console δ} {x : Reg} {value : UInt8}
    (hTaken : c.step = c.fetchExecute) (hWord : Instr.ofWord? c.nextWord = some (.set x value)) :
    c.step.state = c.mapCpu (fun cpu => cpu.advance.setReg x value) ∧
      fetchedIn c.step.records = [c.nextWord] := by
  obtain ⟨-, hState⟩ := step_of_update hTaken hWord fun _ => rfl
  exact ⟨hState, by rw [hTaken, fetchExecute_fetched]⟩

/-- A program that halts at its second word: in the middle of a batch of four, or in the second of
four batches of one step each. -/
theorem batching_transparent_halted :
    let m : Machine := { Machine.new {} (.cycling [0]) with
      cpu := .loaded [0x60, 0x01, 0x00, 0x00], hasProgram := true }
    let first : Console Headless := ⟨m.paced 4 9 2, {}⟩
    let second : Console Headless := ⟨m.paced 1 0 7, {}⟩
    first.machine.Repaced second.machine ∧
      first.executed (List.replicate 1 .cycle) = [0x6001, 0x0000] ∧
      (first.afterAll (List.replicate 1 .cycle)).machine.Repaced
        (second.afterAll (List.replicate 4 .cycle)).machine ∧
      (second.afterAll (List.replicate 4 .cycle)).devices.display =
        (first.afterAll (List.replicate 1 .cycle)).devices.display := by
  intro m first second
  have hFirst : first.nextWord = 0x6001 := Memory.fetch_ofProgram 0x60 0x01 [0x00, 0x00]
  have hInstr : Instr.ofWord? first.nextWord = some (.set 0 1) := by
    rw [hFirst]
    rfl
  obtain ⟨hState, hFetched⟩ := Console.step_of_set (Console.step_taken rfl rfl rfl) hInstr
  have hSecond : first.step.state.nextWord = 0x0000 := by
    have hMemory : first.step.state.machine.cpu.memory = .ofProgram [0x60, 0x01, 0x00, 0x00] := by
      rw [hState]
      rfl
    have hPc : first.step.state.machine.cpu.pc.toNat = programStart + 2 := by
      rw [hState]
      rfl
    rw [Console.nextWord, hMemory, hPc, Memory.fetch_ofProgram_add (by decide) (by decide)]
    rfl
  have hTaken : first.step.state.step = first.step.state.fetchExecute := by
    rw [hState]
    exact Console.step_taken rfl rfl rfl
  obtain ⟨hHalts, hLast⟩ := Console.step_of_unknown hTaken (by rw [hSecond]; rfl)
  have hRest : first.step.state.stepped 3 = [0x0000] := by
    rw [Console.stepped_of_stopped (fun flow h => by cases hHalts.symm.trans h) (by decide),
      hLast, hSecond]
  have hWords : first.executed (List.replicate 1 .cycle) = [0x6001, 0x0000] := by
    have hBatch : first.executed (List.replicate 1 .cycle) = first.stepped (3 + 1) := by
      rw [Console.executed_cycles_succ]
      exact List.append_nil _
    rw [hBatch, Console.stepped_cons, hFetched, hFirst, hRest]
    rfl
  have hReads : ∀ word ∈ first.executed (List.replicate 1 .cycle), ¬ word.ReadsDelay := by
    rw [hWords, List.forall_mem_cons, List.forall_mem_singleton]
    exact ⟨by decide, by decide⟩
  have hPace : first.machine.Repaced second.machine := ⟨1, 0, 7, rfl⟩
  obtain ⟨hMachine, hDisplay, -⟩ :=
    batching_transparent (j := 1) (k := 4) hPace rfl rfl hReads
  exact ⟨hPace, hWords, ⟨_, _, _, hMachine⟩, hDisplay⟩

end Chip8
