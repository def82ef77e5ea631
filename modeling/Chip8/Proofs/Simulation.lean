import Chip8.Console.Operation
import Mathlib.Data.List.Forall2

/-!
# Two runs side by side

Two consoles that correspond stay in correspondence, and answer alike, when
everything a host can do to them takes corresponding consoles to corresponding
consoles. `Simulation` lists what has to be shown for a relation of consoles:
what the relation says about the checks made before an instruction, and that
the pieces of an operation keep it. The loops are dealt with here once.
`StepSimulation` is the part of it that single steps need, for a relation that
only some words keep.

The devices of the two consoles may be of different kinds. `Devices.Alike`
says that they cannot be told apart by their answers; recording the calls made
to them keeps them alike and makes the calls equal.

## Main results

* `Outcome.Matches.repeatUntil` — a loop of matching operations matches.
* `StepSimulation.step` — a step matches if the word it executes may be executed.
* `Simulation.step`, `Simulation.runSteps`, `Simulation.cycle` — the three ways
  to run a program match.
* `Simulation.applyAll` — so does every sequence of operations.
-/

namespace Chip8

/-! ## Matching outcomes -/

/-- Two results that are the same answer, or faults that correspond. -/
inductive SameResult (F : Fault → Fault → Prop) {α : Type} :
    Except Fault α → Except Fault α → Prop
  | ok (answer : α) : SameResult F (.ok answer) (.ok answer)
  | error {f g : Fault} (hFault : F f g) : SameResult F (.error f) (.error g)

theorem SameResult.map {F : Fault → Fault → Prop} {α β : Type} {r s : Except Fault α}
    (h : SameResult F r s) (f : α → β) : SameResult F (r.map f) (s.map f) := by
  cases h with
  | ok answer => exact .ok (f answer)
  | error hFault => exact .error hFault

/-- Outcomes with the same result whose states correspond. -/
structure Outcome.Matches {σ τ α : Type} (F : Fault → Fault → Prop) (R : σ → τ → Prop)
    (o : Outcome σ α) (p : Outcome τ α) : Prop where
  result : SameResult F o.result p.result
  state : R o.state p.state

namespace Outcome.Matches

variable {σ τ α : Type} {F : Fault → Fault → Prop} {R : σ → τ → Prop}
variable {o : Outcome σ α} {p : Outcome τ α}

/-- Records do not enter into a match. -/
theorem after (h : Matches F R o p) (first second : Array Record) :
    Matches F R (o.after first) (p.after second) :=
  ⟨h.result, h.state⟩

theorem map {β : Type} (h : Matches F R o p) (f : α → β) : Matches F R (o.map f) (p.map f) :=
  ⟨h.result.map f, h.state⟩

/-- A match is one of two answers or one of two faults. -/
theorem cases (h : Matches F R o p) :
    (∃ answer, o.result = .ok answer ∧ p.result = .ok answer) ∨
      ∃ f g, o.result = .error f ∧ p.result = .error g ∧ F f g := by
  obtain ⟨result, state, records⟩ := o
  obtain ⟨result', state', records'⟩ := p
  obtain ⟨hResult, _⟩ := h
  cases hResult with
  | ok answer => exact Or.inl ⟨answer, rfl, rfl⟩
  | error hFault => exact Or.inr ⟨_, _, rfl, rfl, hFault⟩

private theorem goesOn_eq (h : Matches F R o p) (stop : α → Bool) :
    o.goesOn stop = p.goesOn stop := by
  unfold goesOn
  rcases h.cases with ⟨answer, ho, hp⟩ | ⟨f, g, ho, hp, _⟩
  · rw [ho, hp]
  · rw [ho, hp]

/-- A loop of matching operations matches: both runs go on together and stop together. -/
theorem repeatUntil (stop : α → Bool) {act : σ → Outcome σ α} {act' : τ → Outcome τ α}
    (hAct : ∀ s t, R s t → Matches F R (act s) (act' t)) (n : Nat) (h : Matches F R o p) :
    Matches F R (Outcome.repeatUntil stop act n o) (Outcome.repeatUntil stop act' n p) := by
  induction n generalizing o p with
  | zero => exact h
  | succ n ih =>
      have hOn := h.goesOn_eq stop
      cases hStop : p.goesOn stop with
      | true =>
          rw [repeatUntil_of_goesOn (hOn.trans hStop), repeatUntil_of_goesOn hStop]
          exact ih ((hAct _ _ h.state).after _ _)
      | false =>
          rw [repeatUntil_of_stopped (hOn.trans hStop), repeatUntil_of_stopped hStop]
          exact h

end Outcome.Matches

/-! ## Devices that behave alike -/

/-- A relation of devices that no operation can break and under which all answers agree. -/
structure Devices.Alike {δ ε : Type} [Devices δ] [Devices ε] (D : δ → ε → Prop) : Prop where
  toggle : ∀ {d e}, D d e → ∀ x y,
    (Devices.toggle x y d).1 = (Devices.toggle x y e).1 ∧
      D (Devices.toggle x y d).2 (Devices.toggle x y e).2
  clear : ∀ {d e}, D d e → D (Devices.clear d) (Devices.clear e)
  pressed : ∀ {d e}, D d e → ∀ k,
    (Devices.pressed k d).1 = (Devices.pressed k e).1 ∧
      D (Devices.pressed k d).2 (Devices.pressed k e).2
  toneOn : ∀ {d e}, D d e → ∀ frequency,
    D (Devices.toneOn frequency d) (Devices.toneOn frequency e)
  toneOff : ∀ {d e}, D d e → D (Devices.toneOff d) (Devices.toneOff e)

namespace Devices.Alike

variable {δ ε : Type} [Devices δ] [Devices ε] {D : δ → ε → Prop}

/-- Devices behave like themselves. -/
theorem eq (δ : Type) [Devices δ] : Devices.Alike (Eq : δ → δ → Prop) where
  toggle := by rintro d _ rfl x y; exact ⟨rfl, rfl⟩
  clear := by rintro d _ rfl; rfl
  pressed := by rintro d _ rfl k; exact ⟨rfl, rfl⟩
  toneOn := by rintro d _ rfl frequency; rfl
  toneOff := by rintro d _ rfl; rfl

theorem toggleAll (hAlike : Devices.Alike D) (pixels : List (Nat × Nat)) {d : δ} {e : ε}
    (h : D d e) :
    (Devices.toggleAll pixels d).1 = (Devices.toggleAll pixels e).1 ∧
      D (Devices.toggleAll pixels d).2 (Devices.toggleAll pixels e).2 := by
  induction pixels generalizing d e with
  | nil => exact ⟨rfl, h⟩
  | cons pixel rest ih =>
      obtain ⟨x, y⟩ := pixel
      obtain ⟨hErased, hNext⟩ := hAlike.toggle h x y
      obtain ⟨hRest, hLast⟩ := ih hNext
      refine ⟨?_, hLast⟩
      simp only [Devices.toggleAll]
      rw [hErased, hRest]

/-- **Recording keeps devices alike**, and the calls recorded are then the same. -/
theorem recorded (hAlike : Devices.Alike D) :
    Devices.Alike fun (r : Recorded δ) (s : Recorded ε) =>
      D r.devices s.devices ∧ r.calls = s.calls where
  toggle := by
    rintro r s ⟨h, hCalls⟩ x y
    obtain ⟨hErased, hNext⟩ := hAlike.toggle h x y
    refine ⟨hErased, hNext, ?_⟩
    simp only [Devices.toggle] at hErased ⊢
    rw [hCalls, hErased]
  clear := by
    rintro r s ⟨h, hCalls⟩
    exact ⟨hAlike.clear h, congrArg (·.push Call.clear) hCalls⟩
  pressed := by
    rintro r s ⟨h, hCalls⟩ k
    obtain ⟨hDown, hNext⟩ := hAlike.pressed h k
    refine ⟨hDown, hNext, ?_⟩
    simp only [Devices.pressed] at hDown ⊢
    rw [hCalls, hDown]
  toneOn := by
    rintro r s ⟨h, hCalls⟩ frequency
    exact ⟨hAlike.toneOn h frequency, congrArg (·.push (Call.toneOn frequency)) hCalls⟩
  toneOff := by
    rintro r s ⟨h, hCalls⟩
    exact ⟨hAlike.toneOff h, congrArg (·.push Call.toneOff) hCalls⟩

end Devices.Alike

/-! ## Simulations -/

/-- A relation of consoles that single steps keep, if the words they execute are among those that
`may` admits. -/
structure StepSimulation {δ ε : Type} [Devices δ] [Devices ε] (F : Fault → Fault → Prop)
    (R : Console δ → Console ε → Prop) (may : Word → Prop) : Prop where
  refused : ∀ size, F (.invalidProgram size) (.invalidProgram size)
  trap : ∀ {c d}, R c d → Option.Rel F c.machine.trap d.machine.trap
  hasProgram : ∀ {c d}, R c d → c.machine.hasProgram = d.machine.hasProgram
  waiting : ∀ {c d}, R c d → c.machine.isWaiting = d.machine.isWaiting
  fetch : ∀ {c d}, R c d →
    c.machine.cpu.memory.fetch c.machine.cpu.pc.toNat =
      d.machine.cpu.memory.fetch d.machine.cpu.pc.toNat
  execute : ∀ {c d}, R c d → ∀ word, may word →
    Outcome.Matches F R (c.execute word) (d.execute word)
  halt : ∀ {c d f g}, R c d → F f g → R (c.halt f) (d.halt g)

namespace StepSimulation

variable {δ ε : Type} [Devices δ] [Devices ε] {F : Fault → Fault → Prop}
variable {R : Console δ → Console ε → Prop} {may : Word → Prop} {c : Console δ} {d : Console ε}

theorem fetchExecute (sim : StepSimulation F R may) (h : R c d)
    (hMay : may (c.machine.cpu.memory.fetch c.machine.cpu.pc.toNat)) :
    Outcome.Matches F R c.fetchExecute d.fetchExecute := by
  have hExecute := sim.execute h _ hMay
  simp only [Console.fetchExecute, Outcome.after, ← sim.fetch h]
  rcases hExecute.cases with ⟨answer, hc, hd⟩ | ⟨f, g, hc, hd, hFault⟩
  · simp only [hc, hd]
    exact ⟨.ok answer, hExecute.state⟩
  · simp only [hc, hd]
    exact ⟨.error hFault, sim.halt hExecute.state hFault⟩

/-- Both sides take a step, or neither does and there is nothing to tell them apart. -/
theorem step_cases (sim : StepSimulation F R may) (h : R c d) :
    (c.step = c.fetchExecute ∧ d.step = d.fetchExecute) ∨
      (Outcome.Matches F R c.step d.step ∧ c.step.records = #[] ∧ d.step.records = #[]) := by
  unfold Console.step
  have hTrap := sim.trap h
  cases hFirst : c.machine.trap <;> cases hSecond : d.machine.trap <;>
    rw [hFirst, hSecond] at hTrap <;> cases hTrap
  case none.none =>
    dsimp only
    rw [← sim.hasProgram h, ← sim.waiting h]
    split
    · exact Or.inr ⟨⟨.error (sim.refused 0), h⟩, rfl, rfl⟩
    · split
      · exact Or.inr ⟨⟨.ok _, h⟩, rfl, rfl⟩
      · exact Or.inl ⟨rfl, rfl⟩
  case some.some hFault => exact Or.inr ⟨⟨.error hFault, h⟩, rfl, rfl⟩

/-- A step that is refused or spent waiting executes nothing, so the guard is asked for the others
alone. -/
theorem step (sim : StepSimulation F R may) (h : R c d)
    (hMay : c.step = c.fetchExecute → d.step = d.fetchExecute →
      may (c.machine.cpu.memory.fetch c.machine.cpu.pc.toNat)) :
    Outcome.Matches F R c.step d.step := by
  rcases sim.step_cases h with ⟨hc, hd⟩ | ⟨hMatch, _, _⟩
  · rw [hc, hd]
    exact sim.fetchExecute h (hMay hc hd)
  · exact hMatch

end StepSimulation

/-- A relation of consoles that everything a host can do keeps: the checks made before an
instruction come out alike, and the pieces that operations are made of match. -/
structure Simulation {δ ε : Type} [Devices δ] [Devices ε] (F : Fault → Fault → Prop)
    (R : Console δ → Console ε → Prop) : Prop where
  refused : ∀ size, F (.invalidProgram size) (.invalidProgram size)
  trap : ∀ {c d}, R c d → Option.Rel F c.machine.trap d.machine.trap
  hasProgram : ∀ {c d}, R c d → c.machine.hasProgram = d.machine.hasProgram
  waiting : ∀ {c d}, R c d → c.machine.isWaiting = d.machine.isWaiting
  speed : ∀ {c d}, R c d → c.machine.conf.speed = d.machine.conf.speed
  fetch : ∀ {c d}, R c d →
    c.machine.cpu.memory.fetch c.machine.cpu.pc.toNat =
      d.machine.cpu.memory.fetch d.machine.cpu.pc.toNat
  execute : ∀ {c d}, R c d → ∀ word, Outcome.Matches F R (c.execute word) (d.execute word)
  halt : ∀ {c d f g}, R c d → F f g → R (c.halt f) (d.halt g)
  finishBatch : ∀ {c d}, R c d → R c.finishBatch d.finishBatch
  load : ∀ {c d}, R c d → ∀ program,
    R (c.withMachine (c.machine.load program).state)
      (d.withMachine (d.machine.load program).state)
  keyDown : ∀ {c d}, R c d → ∀ key,
    Outcome.Matches F R ((c.machine.keyDown key).within c.withMachine)
      ((d.machine.keyDown key).within d.withMachine)

namespace Simulation

variable {δ ε : Type} [Devices δ] [Devices ε] {F : Fault → Fault → Prop}
variable {R : Console δ → Console ε → Prop} {c : Console δ} {d : Console ε}

theorem stepwise (sim : Simulation F R) : StepSimulation F R (fun _ => True) where
  refused := sim.refused
  trap := sim.trap
  hasProgram := sim.hasProgram
  waiting := sim.waiting
  fetch := sim.fetch
  execute h word _ := sim.execute h word
  halt := sim.halt

theorem step (sim : Simulation F R) (h : R c d) : Outcome.Matches F R c.step d.step :=
  sim.stepwise.step h fun _ _ => trivial

theorem runSteps (sim : Simulation F R) (h : R c d) (count : Nat) :
    Outcome.Matches F R (c.runSteps count) (d.runSteps count) :=
  Outcome.Matches.repeatUntil _ (fun _ _ => sim.step) count ⟨.ok _, h⟩

theorem cycle (sim : Simulation F R) (h : R c d) : Outcome.Matches F R c.cycle d.cycle := by
  have hLoop : Outcome.Matches F R
      (Outcome.repeatUntil (fun _ => false) Console.step c.machine.conf.speed
        (Console.done .proceed c))
      (Outcome.repeatUntil (fun _ => false) Console.step c.machine.conf.speed
        (Console.done .proceed d)) :=
    Outcome.Matches.repeatUntil _ (fun _ _ => sim.step) _ ⟨.ok _, h⟩
  simp only [Console.cycle, ← sim.speed h]
  rcases hLoop.cases with ⟨answer, hc, hd⟩ | ⟨f, g, hc, hd, hFault⟩
  · simp only [hc, hd]
    exact ⟨.ok (), sim.finishBatch hLoop.state⟩
  · simp only [hc, hd]
    exact ⟨.error hFault, hLoop.state⟩

/-- A load is accepted on both sides or on neither: its size alone decides. -/
theorem load_result (sim : Simulation F R) (program : List UInt8) (m n : Machine) :
    SameResult F (m.load program).result (n.load program).result := by
  unfold Machine.load
  split
  · exact .ok ()
  · exact .error (sim.refused _)

theorem apply (sim : Simulation F R) (h : R c d) (op : Operation) :
    Outcome.Matches F R (c.apply op) (d.apply op) := by
  cases op with
  | load program => exact ⟨(sim.load_result program _ _).map _, sim.load h program⟩
  | execute word => exact (sim.execute h word).map _
  | step => exact (sim.step h).map _
  | runSteps count => exact (sim.runSteps h count).map _
  | cycle => exact (sim.cycle h).map _
  | keyDown key => exact (sim.keyDown h key).map _

/-- **Simulations carry over to runs**: the outcomes of a sequence of operations match one
by one. -/
theorem applyAll (sim : Simulation F R) (h : R c d) (ops : List Operation) :
    List.Forall₂ (Outcome.Matches F R) (c.applyAll ops) (d.applyAll ops) := by
  induction ops generalizing c d with
  | nil => exact .nil
  | cons op ops ih =>
      have hOp := sim.apply h op
      exact .cons hOp (ih hOp.state)

theorem afterAll (sim : Simulation F R) (h : R c d) (ops : List Operation) :
    R (c.afterAll ops) (d.afterAll ops) := by
  induction ops generalizing c d with
  | nil => exact h
  | cons op ops ih => exact ih (sim.apply h op).state

end Simulation

end Chip8
