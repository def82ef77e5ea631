import Chip8.Console.Execute

/-!
# What one word does

Facts about a single word that invariants of runs are built from: executing
reaches memory only through the bytes an instruction stores at the index,
leaves everything a machine has beside its processor and its random source
alone, and changes nothing but the program counter when it ends in a fault.

Where the instructions are gone through one after the other, `loadRegisters` is
set apart from those that `rfl` deals with: what it loads stays folded, since to
compare it with the registers before is to run the whole block.
-/

namespace Chip8

theorem Console.execute_of_instr {δ : Type} [Devices δ] {word : Word} {instr : Instr}
    (h : Instr.ofWord? word = some instr) (c : Console δ) :
    c.execute word = instr.perform (c.mapCpu Cpu.advance) := by
  rw [execute, h]

theorem Console.execute_of_none {δ : Type} [Devices δ] {word : Word}
    (h : Instr.ofWord? word = none) (c : Console δ) :
    c.execute word = refuse word c.machine.cpu.pc (c.mapCpu Cpu.advance) := by
  rw [execute, h]

/-- A call that is taken changes the stack and the program counter. -/
theorem Cpu.call_ok {target : UInt16} {c next : Cpu} (h : Cpu.call target c = .ok next) :
    ∃ stack, c.stack.push c.pc = .ok stack ∧ next = { c with pc := target, stack } := by
  unfold Cpu.call at h
  split at h
  · rename_i stack hPush
    cases h
    exact ⟨stack, hPush, rfl⟩
  · cases h

/-- A return that is taken changes the stack and the program counter. -/
theorem Cpu.ret_ok {c next : Cpu} (h : Cpu.ret c = .ok next) :
    ∃ address stack, c.stack.pop = .ok (address, stack) ∧
      next = { c with pc := address, stack } := by
  unfold Cpu.ret at h
  split at h
  · rename_i address stack hPop
    cases h
    exact ⟨address, stack, hPop, rfl⟩
  · cases h

/-- The bytes that an instruction stores at the index. -/
def Instr.stored (c : Cpu) : Instr → List UInt8
  | .storeDecimal x => decimalDigits (c.reg x)
  | .storeRegisters x => c.firstRegisters x
  | _ => []

/-! ## Parts of the machine that executing leaves alone -/

/-- Two machines that agree on all but the processor and the random source. -/
structure Machine.SameHost (m n : Machine) : Prop where
  conf : m.conf = n.conf
  hasProgram : m.hasProgram = n.hasProgram
  trap : m.trap = n.trap

namespace Console

variable {δ : Type}

private theorem update_sameHost (flow : Flow) (f : Cpu → Cpu) (c : Console δ) :
    (c.update flow f).state.machine.SameHost c.machine :=
  ⟨rfl, rfl, rfl⟩

theorem transfer_kept {f : Cpu → Except Fault Cpu} {P : Machine → Prop} {c : Console δ}
    (hStay : P c.machine)
    (hGo : ∀ cpu, f c.machine.cpu = .ok cpu → P { c.machine with cpu }) :
    P (c.transfer f).state.machine := by
  unfold transfer
  split
  · rename_i cpu hOk
    exact hGo cpu hOk
  · exact hStay

variable [Devices δ]

@[simp] theorem poll_machine (x : Reg) (c : Console δ) : (c.poll x).2.machine = c.machine := by
  unfold poll
  split <;> rfl

theorem skipOnKey_machine (x : Reg) (wanted : Bool) (c : Console δ) :
    (c.skipOnKey x wanted).state.machine =
      { c.machine with cpu := c.machine.cpu.skipIf ((c.poll x).1 == wanted) } := by
  unfold skipOnKey
  simp only [update, done, mapCpu, poll_machine]

theorem refuse_machine (word : Word) (address : UInt16) (c : Console δ) :
    (c.refuse word address).state.machine = c.machine := by
  unfold refuse
  split
  · exact poll_machine word.x c
  · rfl

end Console

variable {δ : Type} [Devices δ]

private theorem Instr.perform_sameHost (instr : Instr) (c : Console δ) :
    (instr.perform c).state.machine.SameHost c.machine := by
  have hTransfer (f : Cpu → Except Fault Cpu) :
      (c.transfer f).state.machine.SameHost c.machine :=
    Console.transfer_kept (P := fun m => m.SameHost c.machine) ⟨rfl, rfl, rfl⟩
      fun _ _ => ⟨rfl, rfl, rfl⟩
  have hKey (x : Reg) (wanted : Bool) :
      (c.skipOnKey x wanted).state.machine.SameHost c.machine := by
    rw [Console.skipOnKey_machine]
    exact ⟨rfl, rfl, rfl⟩
  cases instr
  case ret => exact hTransfer _
  case call => exact hTransfer _
  case skipPressed x => exact hKey x true
  case skipReleased x => exact hKey x false
  case loadRegisters x => exact Console.update_sameHost .proceed (Cpu.loadIndexed x) c
  all_goals exact ⟨rfl, rfl, rfl⟩

/-- Executing a word leaves the configuration, the trap and whether there is a program alone. -/
theorem Console.execute_sameHost (word : Word) (c : Console δ) :
    (c.execute word).state.machine.SameHost c.machine := by
  unfold execute
  split
  · rename_i instr _
    have h := instr.perform_sameHost (c.mapCpu Cpu.advance)
    exact ⟨h.conf, h.hasProgram, h.trap⟩
  · rw [refuse_machine]
    exact ⟨rfl, rfl, rfl⟩

/-! ## Memory -/

section Memory

private theorem Cpu.skipIf_memory (condition : Bool) (c : Cpu) :
    (c.skipIf condition).memory = c.memory := by
  cases condition <;> rfl

private theorem Cpu.combine_memory (op : AluOp) (x y : Reg) (c : Cpu) :
    (c.combine op x y).memory = c.memory := by
  cases op <;> rfl

/-- An instruction reaches memory only through the bytes it stores at the index. -/
theorem Instr.perform_memory (instr : Instr) (c : Console δ) :
    (instr.perform c).state.machine.cpu.memory =
      (c.machine.cpu.storeIndexed (instr.stored c.machine.cpu)).memory := by
  cases instr
  case ret =>
    exact Console.transfer_kept (P := fun m => m.cpu.memory = c.machine.cpu.memory) rfl
      fun _ h => by obtain ⟨_, _, _, rfl⟩ := Cpu.ret_ok h; rfl
  case call target =>
    exact Console.transfer_kept (P := fun m => m.cpu.memory = c.machine.cpu.memory) rfl
      fun _ h => by obtain ⟨_, _, rfl⟩ := Cpu.call_ok h; rfl
  case skipEqual x value => exact Cpu.skipIf_memory (c.machine.cpu.reg x == value) c.machine.cpu
  case skipNotEqual x value => exact Cpu.skipIf_memory (c.machine.cpu.reg x != value) c.machine.cpu
  case skipSame x y =>
    exact Cpu.skipIf_memory (c.machine.cpu.reg x == c.machine.cpu.reg y) c.machine.cpu
  case skipDifferent x y =>
    exact Cpu.skipIf_memory (c.machine.cpu.reg x != c.machine.cpu.reg y) c.machine.cpu
  case alu op x y => exact Cpu.combine_memory op x y c.machine.cpu
  case skipPressed x =>
    simp only [Instr.perform, Console.skipOnKey_machine]
    exact Cpu.skipIf_memory _ c.machine.cpu
  case skipReleased x =>
    simp only [Instr.perform, Console.skipOnKey_machine]
    exact Cpu.skipIf_memory _ c.machine.cpu
  all_goals rfl

/-- **Executing a word reaches memory only through the bytes stored at the index.** -/
theorem Console.execute_memory (word : Word) (c : Console δ) :
    ∃ values, (c.execute word).state.machine.cpu.memory =
      c.machine.cpu.memory.storeAll c.machine.cpu.index.toNat values := by
  unfold execute
  split
  · rename_i instr _
    refine ⟨instr.stored c.machine.cpu.advance, ?_⟩
    rw [instr.perform_memory]
    rfl
  · refine ⟨[], ?_⟩
    rw [refuse_machine]
    rfl

end Memory

/-! ## Devices -/

/-- A property of devices that no word breaks, whatever becomes of it when the buzzer is set. -/
structure Devices.KeptByWords (P : δ → Prop) : Prop where
  toggle : ∀ x y d, P d → P (Devices.toggle x y d).2
  clear : ∀ d, P d → P (Devices.clear d)
  pressed : ∀ key d, P d → P (Devices.pressed key d).2

namespace Devices.KeptByWords

variable {P : δ → Prop} {c : Console δ}

theorem toggleAll (hKept : Devices.KeptByWords P) (pixels : List (Nat × Nat)) {d : δ} (h : P d) :
    P (Devices.toggleAll pixels d).2 := by
  induction pixels generalizing d with
  | nil => exact h
  | cons pixel rest ih => exact ih (hKept.toggle pixel.1 pixel.2 d h)

theorem poll (hKept : Devices.KeptByWords P) (x : Reg) (h : P c.devices) :
    P (c.poll x).2.devices := by
  unfold Console.poll
  split
  · exact hKept.pressed _ _ h
  · exact h

theorem perform (hKept : Devices.KeptByWords P) (instr : Instr) (h : P c.devices) :
    P (instr.perform c).state.devices := by
  have hTransfer (f : Cpu → Except Fault Cpu) : P (c.transfer f).state.devices := by
    unfold Console.transfer
    split <;> exact h
  have hUpdate (f : Cpu → Cpu) : P (c.update .proceed f).state.devices := h
  cases instr
  case clear => exact hKept.clear _ h
  case ret => exact hTransfer _
  case call => exact hTransfer _
  case draw => exact hKept.toggleAll _ h
  case skipPressed x => exact hKept.poll x h
  case skipReleased x => exact hKept.poll x h
  case loadRegisters x => exact hUpdate (Cpu.loadIndexed x)
  all_goals exact h

theorem execute (hKept : Devices.KeptByWords P) (word : Word) (h : P c.devices) :
    P (c.execute word).state.devices := by
  unfold Console.execute
  split
  · exact hKept.perform (c := c.mapCpu Cpu.advance) _ h
  · unfold Console.refuse
    split
    · exact hKept.poll (c := c.mapCpu Cpu.advance) word.x h
    · exact h

end Devices.KeptByWords

/-- A property of devices that none of their operations breaks. -/
structure Devices.Kept (P : δ → Prop) : Prop where
  toggle : ∀ x y d, P d → P (Devices.toggle x y d).2
  clear : ∀ d, P d → P (Devices.clear d)
  pressed : ∀ key d, P d → P (Devices.pressed key d).2
  toneOn : ∀ frequency d, P d → P (Devices.toneOn frequency d)
  toneOff : ∀ d, P d → P (Devices.toneOff d)

theorem Devices.Kept.byWords {P : δ → Prop} (hKept : Devices.Kept P) : Devices.KeptByWords P :=
  ⟨hKept.toggle, hKept.clear, hKept.pressed⟩

/-! ## Records -/

/-- What is read off records one by one is nothing if none of them has any of it. -/
theorem Record.filterMap_eq_nil {α : Type} {f : Record → Option α} {records : Array Record}
    (h : ∀ r ∈ records, f r = none) : records.toList.filterMap f = [] :=
  List.filterMap_eq_nil_iff.2 fun r hMem => h r (Array.mem_toList_iff.1 hMem)

private theorem Instr.perform_records {P : Record → Prop}
    (hDropped : ∀ value address, P (.dropped value address)) (hWaiting : ∀ x, P (.waiting x))
    (instr : Instr) (c : Console δ) : ∀ r ∈ (instr.perform c).records, P r := by
  have hNone (r : Record) (h : r ∈ (#[] : Array Record)) : P r := by simp at h
  have hStore (values : List UInt8) : ∀ r ∈ (c.storeBlock values).records, P r := by
    intro r h
    simp only [Console.storeBlock, List.mem_toArray, List.mem_map] at h
    obtain ⟨⟨value, address⟩, _, rfl⟩ := h
    exact hDropped value address
  have hTransfer (f : Cpu → Except Fault Cpu) : ∀ r ∈ (c.transfer f).records, P r := by
    unfold Console.transfer
    split <;> exact hNone
  cases instr
  case ret => exact hTransfer _
  case call => exact hTransfer _
  case storeDecimal => exact hStore _
  case storeRegisters => exact hStore _
  case awaitKey x =>
    intro r h
    have hSame : r = .waiting x := by simpa [Instr.perform] using h
    rw [hSame]
    exact hWaiting x
  all_goals exact hNone

/-- Executing a word reports nothing but bytes that were dropped and the start of a wait. -/
theorem Console.execute_records {P : Record → Prop}
    (hDropped : ∀ value address, P (.dropped value address)) (hWaiting : ∀ x, P (.waiting x))
    (word : Word) (c : Console δ) : ∀ r ∈ (c.execute word).records, P r := by
  unfold execute
  split
  · exact Instr.perform_records hDropped hWaiting _ _
  · intro r h
    simp [refuse, fail] at h

/-! ## Faults -/

private theorem Instr.word_of_ret {w : Word} (h : ofWord? w = some .ret) : w = 0x00EE := by
  unfold ofWord? ofSelector? ofKeyTest? ofTransfer? at h
  split at h
  case h_1 =>
    split at h
    · cases h
    · split at h
      · assumption
      · cases h
  all_goals first | cases h | (split at h <;> cases h)

private theorem Instr.family_of_call {w : Word} {target : UInt16}
    (h : ofWord? w = some (.call target)) : w.family.val = 2 := by
  unfold ofWord? ofSelector? ofKeyTest? ofTransfer? at h
  split at h
  case h_1 =>
    split at h
    · cases h
    · split at h <;> cases h
  case h_3 => assumption
  all_goals first | cases h | (split at h <;> cases h)

/-- What a fault says of the word at an address, with so many return addresses held. -/
inductive Fault.Describes (w : Word) (address : UInt16) (depth : Nat) : Fault → Prop
  | unknownOpcode (hWord : Instr.ofWord? w = none) :
    Describes w address depth (.unknownOpcode w address)
  | stackOverflow (hCall : w.family.val = 2) (hFull : depth = stackSize) :
    Describes w address depth .stackOverflow
  | stackUnderflow (hReturn : w = 0x00EE) (hNone : depth = 0) :
    Describes w address depth .stackUnderflow

private theorem Cpu.call_error {target : UInt16} {c : Cpu} {e : Fault}
    (h : Cpu.call target c = .error e) : e = .stackOverflow ∧ c.stack.depth = stackSize := by
  have hDepth := c.stack.depth_le
  unfold Cpu.call CallStack.push at h
  by_cases hRoom : c.stack.depth < stackSize
  · simp only [dif_pos hRoom] at h
    cases h
  · simp only [dif_neg hRoom] at h
    cases h
    exact ⟨rfl, by omega⟩

private theorem Cpu.ret_error {c : Cpu} {e : Fault} (h : Cpu.ret c = .error e) :
    e = .stackUnderflow ∧ c.stack.depth = 0 := by
  unfold Cpu.ret CallStack.pop at h
  by_cases hHeld : 0 < c.stack.depth
  · simp only [dif_pos hHeld] at h
    cases h
  · simp only [dif_neg hHeld] at h
    cases h
    exact ⟨rfl, by omega⟩

theorem Console.transfer_error {δ : Type} {f : Cpu → Except Fault Cpu} {c : Console δ} {e : Fault}
    (h : (c.transfer f).result = .error e) :
    f c.machine.cpu = .error e ∧ (c.transfer f).state = c := by
  unfold transfer at h ⊢
  split at h
  · cases h
  · rename_i fault hFault
    cases h
    simp [hFault, fail]

/-- **A fault changes nothing but the program counter**, and says why the word could not be
executed. -/
theorem Console.execute_error {word : Word} {c : Console δ} {e : Fault}
    (h : (c.execute word).result = .error e) :
    (c.execute word).state.machine = (c.mapCpu Cpu.advance).machine ∧
      e.Describes word c.machine.cpu.pc c.machine.cpu.stack.depth := by
  cases hWord : Instr.ofWord? word with
  | none =>
      rw [execute_of_none hWord] at h ⊢
      refine ⟨refuse_machine word _ _, ?_⟩
      cases h
      exact .unknownOpcode hWord
  | some instr =>
      rw [execute_of_instr hWord] at h ⊢
      cases instr
      case ret =>
        obtain ⟨hRet, hState⟩ := transfer_error (f := Cpu.ret) h
        obtain ⟨rfl, hNone⟩ := Cpu.ret_error hRet
        exact ⟨congrArg machine hState, .stackUnderflow (Instr.word_of_ret hWord) hNone⟩
      case call target =>
        obtain ⟨hCall, hState⟩ := transfer_error (f := Cpu.call target) h
        obtain ⟨rfl, hFull⟩ := Cpu.call_error hCall
        exact ⟨congrArg machine hState, .stackOverflow (Instr.family_of_call hWord) hFull⟩
      all_goals cases h

end Chip8
