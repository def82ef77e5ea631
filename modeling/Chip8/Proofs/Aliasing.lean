import Chip8.Proofs.Simulation

/-!
# Address aliasing is invisible

The program counter and the index are 16-bit words, and the addresses kept on
the call stack are whatever the program counter was; memory has 4096 cells. A
machine may therefore hold addresses that differ and mean the same cell. This
file shows that nothing a host can observe tells such machines apart.

`Machine.Aliases` relates two machines that differ in the choice of addresses
only. Each operation of the processor keeps the relation, because an address
is used in two ways alone: to reach into memory, which takes it modulo 4096,
and to make another address from it, by an addition that wraps at `2 ^ 16`, a
multiple of 4096.
-/

namespace Chip8

/-! ## Addresses of the same cell -/

/-- Two addresses that mean the same cell of memory. -/
def SameCell (a b : UInt16) : Prop := a.toNat % memorySize = b.toNat % memorySize

instance (a b : UInt16) : Decidable (SameCell a b) := by
  unfold SameCell
  infer_instance

namespace SameCell

theorem refl (a : UInt16) : SameCell a a := rfl

/-- Wrapping at `2 ^ 16` does not disturb the cell: sums of congruent addresses are congruent. -/
theorem add {a b : UInt16} (h : SameCell a b) (k : UInt16) : SameCell (a + k) (b + k) := by
  unfold SameCell memorySize at *
  rw [UInt16.toNat_add, UInt16.toNat_add]
  omega

end SameCell

/-- Faults that agree up to the address of an unknown word. -/
inductive Fault.Aliases : Fault → Fault → Prop
  | refl (fault : Fault) : Aliases fault fault
  | unknownOpcode (word : Word) {a b : UInt16} (hCell : SameCell a b) :
      Aliases (.unknownOpcode word a) (.unknownOpcode word b)

/-! ## Processors -/

/-- Processors that differ in the choice of addresses only. -/
structure Cpu.Aliases (c d : Cpu) : Prop where
  pc : SameCell c.pc d.pc
  registers : c.registers = d.registers
  index : SameCell c.index d.index
  delay : c.delay = d.delay
  sound : c.sound = d.sound
  wait : c.wait = d.wait
  memory : c.memory = d.memory
  stack : List.Forall₂ SameCell c.stack.toList d.stack.toList

namespace Cpu.Aliases

variable {c d : Cpu}

theorem reg (h : Cpu.Aliases c d) (x : Reg) : c.reg x = d.reg x := by
  rw [Cpu.reg, Cpu.reg, h.registers]

private theorem withRegisters (h : Cpu.Aliases c d) (registers : Vector UInt8 16) :
    Cpu.Aliases { c with registers } { d with registers } :=
  { h with registers := rfl }

theorem setReg (h : Cpu.Aliases c d) (x : Reg) (value : UInt8) :
    Cpu.Aliases (c.setReg x value) (d.setReg x value) := by
  unfold Cpu.setReg
  rw [h.registers]
  exact h.withRegisters _

theorem setFlagged (h : Cpu.Aliases c d) (x : Reg) (flag result : UInt8) :
    Cpu.Aliases (c.setFlagged x flag result) (d.setFlagged x flag result) :=
  (h.setReg Reg.flag flag).setReg x result

theorem combine (h : Cpu.Aliases c d) (op : AluOp) (x y : Reg) :
    Cpu.Aliases (c.combine op x y) (d.combine op x y) := by
  unfold Cpu.combine
  rw [h.reg x, h.reg y]
  rcases op.eval (d.reg x) (d.reg y) with ⟨_ | flag, result⟩
  · exact h.setReg x result
  · exact h.setFlagged x (flagValue flag) result

/-! ### Control -/

theorem advance (h : Cpu.Aliases c d) : Cpu.Aliases c.advance d.advance :=
  { h with pc := h.pc.add 2 }

theorem skipIf (h : Cpu.Aliases c d) (condition : Bool) :
    Cpu.Aliases (c.skipIf condition) (d.skipIf condition) := by
  cases condition with
  | true => exact h.advance
  | false => exact h

theorem jump (h : Cpu.Aliases c d) (target : UInt16) :
    Cpu.Aliases (c.jump target) (d.jump target) :=
  { h with pc := .refl target }

private theorem length_stack (h : Cpu.Aliases c d) :
    c.stack.toList.length = d.stack.toList.length :=
  h.stack.length_eq

/-- Both calls succeed, and then keep their own return address, or both overflow. -/
theorem call (h : Cpu.Aliases c d) (target : UInt16) :
    (∃ c' d', Cpu.call target c = .ok c' ∧ Cpu.call target d = .ok d' ∧ Cpu.Aliases c' d') ∨
      (Cpu.call target c = .error .stackOverflow ∧
        Cpu.call target d = .error .stackOverflow) := by
  have hLength := h.length_stack
  by_cases hRoom : d.stack.toList.length < stackSize
  · obtain ⟨s, hs, hsList⟩ := CallStack.push_of_not_full (hLength ▸ hRoom) c.pc
    obtain ⟨t, ht, htList⟩ := CallStack.push_of_not_full hRoom d.pc
    refine Or.inl ⟨{ c with pc := target, stack := s }, { d with pc := target, stack := t },
      ?_, ?_, ?_⟩
    · simp [Cpu.call, hs]
    · simp [Cpu.call, ht]
    · refine { h with pc := .refl target, stack := ?_ }
      rw [hsList, htList]
      exact .cons h.pc h.stack
  · have hFull : d.stack.toList.length = stackSize := by
      have hDepth := d.stack.depth_le
      rw [CallStack.length_toList] at hRoom ⊢
      omega
    refine Or.inr ⟨?_, ?_⟩
    · simp [Cpu.call, CallStack.push_of_full (hLength.trans hFull)]
    · simp [Cpu.call, CallStack.push_of_full hFull]

/-- Both returns succeed, each to its own newest address, or both underflow. -/
theorem ret (h : Cpu.Aliases c d) :
    (∃ c' d', Cpu.ret c = .ok c' ∧ Cpu.ret d = .ok d' ∧ Cpu.Aliases c' d') ∨
      (Cpu.ret c = .error .stackUnderflow ∧ Cpu.ret d = .error .stackUnderflow) := by
  have hStack := h.stack
  cases hFirst : c.stack.toList with
  | nil =>
      rw [hFirst, List.forall₂_nil_left_iff] at hStack
      refine Or.inr ⟨?_, ?_⟩
      · simp [Cpu.ret, CallStack.pop_of_empty hFirst]
      · simp [Cpu.ret, CallStack.pop_of_empty hStack]
  | cons a older =>
      rw [hFirst, List.forall₂_cons_left_iff] at hStack
      obtain ⟨b, older', hCell, hOlder, hSecond⟩ := hStack
      obtain ⟨s, hs, hsList⟩ := CallStack.pop_eq hFirst
      obtain ⟨t, ht, htList⟩ := CallStack.pop_eq hSecond
      refine Or.inl ⟨{ c with pc := a, stack := s }, { d with pc := b, stack := t }, ?_, ?_, ?_⟩
      · simp [Cpu.ret, hs]
      · simp [Cpu.ret, ht]
      · refine { h with pc := hCell, stack := ?_ }
        rw [hsList, htList]
        exact hOlder

/-! ### Memory at the index -/

theorem fetch (h : Cpu.Aliases c d) :
    c.memory.fetch c.pc.toNat = d.memory.fetch d.pc.toNat := by
  rw [h.memory]
  exact Memory.fetch_congr h.pc d.memory

theorem indexed (h : Cpu.Aliases c d) (count : Nat) : c.indexed count = d.indexed count := by
  rw [Cpu.indexed, Cpu.indexed, h.memory]
  exact Memory.slice_congr h.index count d.memory

theorem spritePixels (h : Cpu.Aliases c d) (x y height : Fin 16) :
    c.spritePixels x y height = d.spritePixels x y height := by
  rw [Cpu.spritePixels, Cpu.spritePixels, h.reg x, h.reg y, h.indexed]

theorem storeIndexed (h : Cpu.Aliases c d) (values : List UInt8) :
    Cpu.Aliases (c.storeIndexed values) (d.storeIndexed values) := by
  refine { h with memory := ?_ }
  simp only [Cpu.storeIndexed]
  rw [h.memory]
  exact Memory.storeAll_congr h.index values d.memory

theorem firstRegisters (h : Cpu.Aliases c d) (x : Reg) :
    c.firstRegisters x = d.firstRegisters x := by
  rw [Cpu.firstRegisters, Cpu.firstRegisters, h.registers]

theorem loadIndexed (h : Cpu.Aliases c d) (x : Reg) :
    Cpu.Aliases (c.loadIndexed x) (d.loadIndexed x) := by
  have hRead (k : Nat) :
      c.memory.read (c.index.toNat + k) = d.memory.read (d.index.toNat + k) := by
    rw [h.memory]
    exact Memory.read_congr (by rw [Nat.add_mod, h.index, ← Nat.add_mod]) d.memory
  unfold Cpu.loadIndexed
  simp only [hRead, h.reg]
  exact h.withRegisters _

theorem tick (h : Cpu.Aliases c d) : Cpu.Aliases c.tick d.tick :=
  { h with
    delay := congrArg Cpu.countDown h.delay
    sound := congrArg Cpu.countDown h.sound }

end Cpu.Aliases

/-! ## Machines and consoles -/

/-- Machines that differ in the choice of addresses only. -/
structure Machine.Aliases (m n : Machine) : Prop where
  cpu : Cpu.Aliases m.cpu n.cpu
  random : m.random = n.random
  conf : m.conf = n.conf
  hasProgram : m.hasProgram = n.hasProgram
  trap : Option.Rel Fault.Aliases m.trap n.trap

theorem Machine.Aliases.mapCpu {m n : Machine} (h : m.Aliases n) {c d : Cpu}
    (hCpu : Cpu.Aliases c d) : Machine.Aliases { m with cpu := c } { n with cpu := d } :=
  { h with cpu := hCpu }

/-- Consoles whose machines differ in the choice of addresses only and whose devices
correspond. -/
structure Console.Aliases {δ ε : Type} (D : δ → ε → Prop) (c : Console δ) (d : Console ε) :
    Prop where
  machine : c.machine.Aliases d.machine
  devices : D c.devices d.devices

namespace Console.Aliases

variable {δ ε : Type} {D : δ → ε → Prop} {c : Console δ} {d : Console ε}

theorem cpu (h : Console.Aliases D c d) : Cpu.Aliases c.machine.cpu d.machine.cpu :=
  h.machine.cpu

theorem mapCpu (h : Console.Aliases D c d) {f g : Cpu → Cpu}
    (hCpu : Cpu.Aliases (f c.machine.cpu) (g d.machine.cpu)) :
    Console.Aliases D (c.mapCpu f) (d.mapCpu g) :=
  ⟨h.machine.mapCpu hCpu, h.devices⟩

/-- Outcomes that alike machines come to. -/
abbrev Match (D : δ → ε → Prop) (o : Outcome (Console δ) Flow) (p : Outcome (Console ε) Flow) :
    Prop :=
  Outcome.Matches Fault.Aliases (Console.Aliases D) o p

theorem update (h : Console.Aliases D c d) (flow : Flow) {f g : Cpu → Cpu}
    (hCpu : Cpu.Aliases (f c.machine.cpu) (g d.machine.cpu)) :
    Match D (c.update flow f) (d.update flow g) :=
  ⟨.ok flow, h.mapCpu hCpu⟩

/-- Skips decide alike: what they look at is no address. -/
theorem skip (h : Console.Aliases D c d) {test : Cpu → Bool}
    (hTest : test c.machine.cpu = test d.machine.cpu) :
    Match D (c.update .proceed fun cpu => cpu.skipIf (test cpu))
      (d.update .proceed fun cpu => cpu.skipIf (test cpu)) := by
  refine h.update .proceed ?_
  rw [hTest]
  exact h.cpu.skipIf _

theorem transfer (h : Console.Aliases D c d) {f : Cpu → Except Fault Cpu} {fault : Fault}
    (hCpu : (∃ c' d', f c.machine.cpu = .ok c' ∧ f d.machine.cpu = .ok d' ∧
        Cpu.Aliases c' d') ∨
      (f c.machine.cpu = .error fault ∧ f d.machine.cpu = .error fault)) :
    Match D (c.transfer f) (d.transfer f) := by
  unfold Console.transfer
  rcases hCpu with ⟨c', d', hc, hd, hNext⟩ | ⟨hc, hd⟩
  · rw [hc, hd]
    exact ⟨.ok Flow.jump, h.machine.mapCpu hNext, h.devices⟩
  · rw [hc, hd]
    exact ⟨.error (.refl fault), h⟩

theorem storeBlock (h : Console.Aliases D c d) (values : List UInt8) :
    Match D (c.storeBlock values) (d.storeBlock values) :=
  ⟨.ok Flow.proceed, h.mapCpu (h.cpu.storeIndexed values)⟩

theorem drawRandom (h : Console.Aliases D c d) (x : Reg) (mask : UInt8) :
    Console.Aliases D (c.drawRandom x mask) (d.drawRandom x mask) := by
  unfold Console.drawRandom
  rw [h.machine.random]
  exact ⟨{ h.machine with cpu := h.cpu.setReg x _, random := rfl }, h.devices⟩

theorem isWaiting_eq (h : Console.Aliases D c d) :
    c.machine.isWaiting = d.machine.isWaiting := by
  rw [Machine.isWaiting, Machine.isWaiting, h.cpu.wait]

theorem load (h : Console.Aliases D c d) (program : List UInt8) :
    Console.Aliases D (c.withMachine (c.machine.load program).state)
      (d.withMachine (d.machine.load program).state) := by
  unfold Machine.load
  split
  · refine ⟨?_, h.devices⟩
    exact { h.machine with
      cpu := ⟨.refl _, rfl, .refl _, rfl, rfl, rfl, rfl, .nil⟩
      hasProgram := rfl
      trap := .none }
  · exact h

theorem keyDown (h : Console.Aliases D c d) (key : Key) :
    Outcome.Matches Fault.Aliases (Console.Aliases D)
      ((c.machine.keyDown key).within c.withMachine)
      ((d.machine.keyDown key).within d.withMachine) := by
  unfold Machine.keyDown
  rw [h.cpu.wait]
  split
  · refine ⟨.ok true, ?_, h.devices⟩
    exact h.machine.mapCpu { h.cpu.setReg _ _ with wait := rfl }
  · exact ⟨.ok false, h⟩

variable [Devices δ] [Devices ε]

theorem poll (h : Console.Aliases D c d) (hAlike : Devices.Alike D) (x : Reg) :
    (c.poll x).1 = (d.poll x).1 ∧ Console.Aliases D (c.poll x).2 (d.poll x).2 := by
  unfold Console.poll
  rw [h.cpu.reg x]
  split
  · rename_i hKey
    obtain ⟨hDown, hNext⟩ := hAlike.pressed h.devices ⟨(d.machine.cpu.reg x).toNat, hKey⟩
    exact ⟨hDown, h.machine, hNext⟩
  · exact ⟨rfl, h⟩

theorem skipOnKey (h : Console.Aliases D c d) (hAlike : Devices.Alike D) (x : Reg)
    (wanted : Bool) : Match D (c.skipOnKey x wanted) (d.skipOnKey x wanted) := by
  obtain ⟨hDown, hNext⟩ := h.poll hAlike x
  unfold Console.skipOnKey
  simp only [hDown]
  exact hNext.update .proceed (hNext.cpu.skipIf _)

theorem drawSprite (h : Console.Aliases D c d) (hAlike : Devices.Alike D) (x y height : Fin 16) :
    Match D (c.drawSprite x y height) (d.drawSprite x y height) := by
  obtain ⟨hErased, hNext⟩ :=
    hAlike.toggleAll (d.machine.cpu.spritePixels x y height) h.devices
  unfold Console.drawSprite
  simp only [h.cpu.spritePixels, hErased]
  exact ⟨.ok Flow.draw, h.machine.mapCpu (h.cpu.setReg Reg.flag _), hNext⟩

/-! ### Instructions -/

/-- An instruction carried out on both sides has the same result. The operands of an
instruction are the same; only what it takes from the processor could differ. -/
theorem perform (h : Console.Aliases D c d) (hAlike : Devices.Alike D) (instr : Instr) :
    Match D (instr.perform c) (instr.perform d) := by
  cases instr with
  | clear => exact ⟨.ok Flow.clear, h.machine, hAlike.clear h.devices⟩
  | ret => exact h.transfer h.cpu.ret
  | jump target => exact h.update .jump (h.cpu.jump target)
  | call target => exact h.transfer (h.cpu.call target)
  | skipEqual x value => exact h.skip (by rw [h.cpu.reg x])
  | skipNotEqual x value => exact h.skip (by rw [h.cpu.reg x])
  | skipSame x y => exact h.skip (by rw [h.cpu.reg x, h.cpu.reg y])
  | skipDifferent x y => exact h.skip (by rw [h.cpu.reg x, h.cpu.reg y])
  | set x value => exact h.update .proceed (h.cpu.setReg x value)
  | increase x value =>
      refine h.update .proceed ?_
      rw [h.cpu.reg x]
      exact h.cpu.setReg x _
  | alu op x y => exact h.update .proceed (h.cpu.combine op x y)
  | shiftRight x =>
      refine h.update .proceed ?_
      rw [h.cpu.reg x]
      exact h.cpu.setFlagged x _ _
  | shiftLeft x =>
      refine h.update .proceed ?_
      rw [h.cpu.reg x]
      exact h.cpu.setFlagged x _ _
  | setIndex address => exact h.update .proceed { h.cpu with index := .refl address }
  | jumpOffset base =>
      refine h.update .jump ?_
      rw [h.cpu.reg Reg.offset]
      exact h.cpu.jump _
  | random x mask => exact ⟨.ok Flow.proceed, h.drawRandom x mask⟩
  | draw x y height => exact h.drawSprite hAlike x y height
  | skipPressed x => exact h.skipOnKey hAlike x true
  | skipReleased x => exact h.skipOnKey hAlike x false
  | readDelay x =>
      refine h.update .proceed ?_
      rw [h.cpu.delay]
      exact h.cpu.setReg x _
  | awaitKey x =>
      have hNext := h.update .keyWait (f := fun cpu => { cpu with wait := some x })
        (g := fun cpu => { cpu with wait := some x }) { h.cpu with wait := rfl }
      exact ⟨hNext.result, hNext.state⟩
  | setDelay x => exact h.update .proceed { h.cpu with delay := h.cpu.reg x }
  | setSound x => exact h.update .sound { h.cpu with sound := h.cpu.reg x }
  | addIndex x =>
      refine h.update .proceed ?_
      rw [h.cpu.reg x]
      exact { h.cpu with index := h.cpu.index.add _ }
  | pointGlyph x =>
      refine h.update .proceed ?_
      rw [h.cpu.reg x]
      exact { h.cpu with index := .refl _ }
  | storeDecimal x =>
      simp only [Instr.perform]
      rw [h.cpu.reg x]
      exact h.storeBlock _
  | storeRegisters x =>
      simp only [Instr.perform]
      rw [h.cpu.firstRegisters x]
      exact h.storeBlock _
  | loadRegisters x => exact h.update .proceed (h.cpu.loadIndexed x)

/-- A word that is no instruction is refused on both sides, each naming its own address. -/
theorem refuse (h : Console.Aliases D c d) (hAlike : Devices.Alike D) (word : Word)
    {a b : UInt16} (hCell : SameCell a b) : Match D (c.refuse word a) (d.refuse word b) := by
  unfold Console.refuse
  split
  · exact ⟨.error (.unknownOpcode word hCell), (h.poll hAlike word.x).2⟩
  · exact ⟨.error (.unknownOpcode word hCell), h⟩

theorem execute (h : Console.Aliases D c d) (hAlike : Devices.Alike D) (word : Word) :
    Match D (c.execute word) (d.execute word) := by
  have hNext : Console.Aliases D (c.mapCpu Cpu.advance) (d.mapCpu Cpu.advance) :=
    h.mapCpu h.cpu.advance
  unfold Console.execute
  split
  · exact hNext.perform hAlike _
  · exact hNext.refuse hAlike word h.cpu.pc

/-! ### What a host does beside executing -/

theorem updateTone (h : Console.Aliases D c d) (hAlike : Devices.Alike D) :
    Console.Aliases D c.updateTone d.updateTone := by
  unfold Console.updateTone
  rw [h.cpu.sound, h.machine.conf]
  split
  · exact ⟨h.machine, hAlike.toneOn h.devices _⟩
  · exact ⟨h.machine, hAlike.toneOff h.devices⟩

theorem finishBatch (h : Console.Aliases D c d) (hAlike : Devices.Alike D) :
    Console.Aliases D c.finishBatch d.finishBatch := by
  unfold Console.finishBatch
  rw [h.isWaiting_eq]
  split
  · exact h.updateTone hAlike
  · exact (h.mapCpu h.cpu.tick).updateTone hAlike

/-- **Machines that differ in the choice of addresses simulate each other.** -/
theorem simulation (hAlike : Devices.Alike D) :
    Simulation Fault.Aliases (Console.Aliases D) where
  refused _ := .refl _
  trap h := h.machine.trap
  hasProgram h := h.machine.hasProgram
  waiting h := h.isWaiting_eq
  speed h := congrArg Conf.speed h.machine.conf
  fetch h := h.cpu.fetch
  execute h word := h.execute hAlike word
  halt h hFault := ⟨{ h.machine with trap := .some hFault }, h.devices⟩
  finishBatch h := h.finishBatch hAlike
  load h program := h.load program
  keyDown h key := h.keyDown key

end Console.Aliases

/-! ## Runs -/

/-- What two consoles show on the way through a sequence of operations: after each of them the
results are the same, the calls made to the devices so far are the same, and the machines
still differ in the choice of addresses only. -/
def RunAlike {δ ε : Type} [Devices δ] [Devices ε] (ops : List Operation)
    (first : Console (Recorded δ)) (second : Console (Recorded ε)) : Prop :=
  List.Forall₂ (fun o p =>
      SameResult Fault.Aliases o.result p.result ∧
        o.state.devices.calls = p.state.devices.calls ∧
        o.state.machine.Aliases p.state.machine)
    (first.applyAll ops) (second.applyAll ops)

/-- **Aliasing is invisible.**  Machines that differ in the choice of addresses only, on devices
that behave alike, show the same under every sequence of operations and end in machines that
differ in the choice of addresses only. -/
theorem aliasing_invisible {δ ε : Type} [Devices δ] [Devices ε] {D : δ → ε → Prop}
    (hAlike : Devices.Alike D) {m n : Machine} (hMachine : m.Aliases n) {d : δ} {e : ε}
    (hDevices : D d e) (ops : List Operation) :
    RunAlike ops ⟨m, { devices := d }⟩ ⟨n, { devices := e }⟩ ∧
      ((⟨m, d⟩ : Console δ).afterAll ops).machine.Aliases
        ((⟨n, e⟩ : Console ε).afterAll ops).machine := by
  have sim := Console.Aliases.simulation hAlike.recorded
  have hStart : Console.Aliases
      (fun (r : Recorded δ) (s : Recorded ε) => D r.devices s.devices ∧ r.calls = s.calls)
      ⟨m, { devices := d }⟩ ⟨n, { devices := e }⟩ := ⟨hMachine, hDevices, rfl⟩
  constructor
  · refine (sim.applyAll hStart ops).imp ?_
    intro o p hMatch
    exact ⟨hMatch.result, hMatch.state.devices.2, hMatch.state.machine⟩
  · have hPlain : Console.Aliases D ⟨m, d⟩ ⟨n, e⟩ := ⟨hMachine, hDevices⟩
    exact ((Console.Aliases.simulation hAlike).afterAll hPlain ops).machine

/-- A subroutine called and left with the program counter past the end of memory and the index
wrapped around it, beside the same with both below 4096. -/
theorem aliasing_invisible_past_memory :
    let low : Machine := Machine.new {} (.cycling [7])
    let high : Machine := { low with cpu := { low.cpu with pc := 0x1200, index := 0xF000 } }
    let ops : List Operation := [.execute 0x2300, .execute 0xFF1E, .execute 0x00EE, .step]
    low.Aliases high ∧
      RunAlike ops ⟨low, { devices := ({} : Headless) }⟩
        ⟨high, { devices := ({} : Headless) }⟩ := by
  intro low high ops
  have hMachine : low.Aliases high :=
    ⟨⟨by decide, rfl, by decide, rfl, rfl, rfl, rfl, .nil⟩, rfl, rfl, rfl, .none⟩
  exact ⟨hMachine, (aliasing_invisible (Devices.Alike.eq Headless) hMachine rfl ops).1⟩

end Chip8
