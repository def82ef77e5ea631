import Chip8.Instr.Encode
import Chip8.Proofs.Drawing

/-!
# What a flow announces

A host looks at nothing but the flow of a word when it decides whether to redraw,
to sound the buzzer, to yield or to wait. So whatever a word does beyond moving
on and working on the registers has to be announced: the flow bounds the
effect on the processor (`Flow.Bounds`) and the calls to the devices
(`Flow.Announces`).

There are few kinds of effect, and most instructions share one of them.
`Instr.Moves` lists them, each with the flow it comes with, and what is said here
of all words is read off that list.

## Main results

* `Instr.perform_moves` — every instruction that succeeds has one of these effects.
* `Instr.Moves.bounds` — what each flow leaves alone.
* `Instr.perform_announces` — the calls behind each flow.
* `flow_bounds_effect` — both, for a word on its own and for a step.
-/

namespace Chip8

/-! ## Kinds of effect -/

/-- **What an instruction can do to a processor** that is already past it, and the flow it answers
with when it succeeds. -/
inductive Instr.Moves (c : Cpu) : Instr → Flow → Cpu → Prop
  | registers (instr : Instr) (values : Vector UInt8 16) :
    Moves c instr .proceed { c with registers := values }
  | skip (instr : Instr) : Moves c instr .proceed c.advance
  | index (instr : Instr) (address : UInt16) : Moves c instr .proceed { c with index := address }
  | store (instr : Instr) (values : List UInt8) : Moves c instr .proceed (c.storeIndexed values)
  | delay (x : Reg) : Moves c (.setDelay x) .proceed { c with delay := c.reg x }
  | sound (x : Reg) : Moves c (.setSound x) .sound { c with sound := c.reg x }
  | wait (x : Reg) : Moves c (.awaitKey x) .keyWait { c with wait := some x }
  | clear : Moves c .clear .clear c
  | draw (x y height : Fin 16) (flag : UInt8) :
    Moves c (.draw x y height) .draw (c.setReg Reg.flag flag)
  | jump (target : UInt16) : Moves c (.jump target) .jump (c.jump target)
  | jumpOffset (base target : UInt16) (hTarget : target.toNat < memorySize) :
    Moves c (.jumpOffset base) .jump (c.jump target)
  | call (target : UInt16) (stack : CallStack) :
    Moves c (.call target) .jump { c with pc := target, stack }
  | ret (address : UInt16) (stack : CallStack) (hPop : c.stack.pop = .ok (address, stack)) :
    Moves c .ret .jump { c with pc := address, stack }

theorem Instr.Moves.skipIf (instr : Instr) (condition : Bool) (c : Cpu) :
    instr.Moves c .proceed (c.skipIf condition) := by
  cases condition with
  | true => exact .skip instr
  | false => exact .registers instr c.registers

theorem Instr.Moves.combine (instr : Instr) (op : AluOp) (x y : Reg) (c : Cpu) :
    instr.Moves c .proceed (c.combine op x y) := by
  cases op <;> exact .registers instr _

/-- A transfer that succeeds is a jump to where its operation leads. -/
theorem Console.transfer_ok {δ : Type} {f : Cpu → Except Fault Cpu} {c : Console δ} {flow : Flow}
    (h : (c.transfer f).result = .ok flow) :
    flow = .jump ∧ f c.machine.cpu = .ok (c.transfer f).state.machine.cpu := by
  unfold transfer at h ⊢
  split at h
  · rename_i cpu hOk
    cases h
    refine ⟨rfl, ?_⟩
    simp only [hOk, done]
  · cases h

variable {δ : Type} [Devices δ]

/-- Every instruction that succeeds has one of these effects. -/
theorem Instr.perform_moves {instr : Instr} {c : Console δ} {flow : Flow}
    (h : (instr.perform c).result = .ok flow) :
    instr.Moves c.machine.cpu flow (instr.perform c).state.machine.cpu := by
  cases instr
  case ret =>
    obtain ⟨rfl, hRet⟩ := Console.transfer_ok (f := Cpu.ret) h
    obtain ⟨address, stack, hPop, hNext⟩ := Cpu.ret_ok hRet
    exact hNext ▸ .ret address stack hPop
  case call target =>
    obtain ⟨rfl, hCall⟩ := Console.transfer_ok (f := Cpu.call target) h
    obtain ⟨stack, -, hNext⟩ := Cpu.call_ok hCall
    exact hNext ▸ .call target stack
  case skipPressed x =>
    cases h
    simp only [perform, Console.skipOnKey_machine]
    exact .skipIf _ _ _
  case skipReleased x =>
    cases h
    simp only [perform, Console.skipOnKey_machine]
    exact .skipIf _ _ _
  all_goals cases h
  case clear => exact .clear
  case jump target => exact .jump target
  case jumpOffset base =>
    refine .jumpOffset base _ ?_
    have hSmall : ∀ n, (UInt16.ofNat (n % memorySize)).toNat < memorySize := by
      intro n
      simp only [UInt16.toNat_ofNat', memorySize]
      omega
    exact hSmall _
  case skipEqual => exact .skipIf _ _ _
  case skipNotEqual => exact .skipIf _ _ _
  case skipSame => exact .skipIf _ _ _
  case skipDifferent => exact .skipIf _ _ _
  case alu op x y => exact .combine _ op x y _
  case draw x y height => exact .draw x y height _
  case setIndex => exact .index _ _
  case addIndex => exact .index _ _
  case pointGlyph => exact .index _ _
  case setDelay x => exact .delay x
  case setSound x => exact .sound x
  case awaitKey x => exact .wait x
  case storeDecimal => exact .store _ _
  case storeRegisters => exact .store _ _
  case loadRegisters x =>
    exact .registers _ (c.machine.cpu.loadIndexed x).registers
  all_goals exact .registers _ _

namespace Instr.Moves

variable {instr : Instr} {flow : Flow} {c next : Cpu}

/-- The delay timer is set by `Fx15` alone. -/
theorem delay_eq (h : instr.Moves c flow next) :
    next.delay = c.delay ∨ flow = .proceed ∧ ∃ x, instr = .setDelay x := by
  cases h
  case delay x => exact Or.inr ⟨rfl, x, rfl⟩
  all_goals exact Or.inl rfl

/-- The sound timer is set by `Fx18` alone. -/
theorem sound_eq (h : instr.Moves c flow next) :
    next.sound = c.sound ∨ flow = .sound ∧ ∃ x, instr = .setSound x := by
  cases h
  case sound x => exact Or.inr ⟨rfl, x, rfl⟩
  all_goals exact Or.inl rfl

private theorem wait_eq (h : instr.Moves c flow next) :
    flow ≠ .keyWait ∧ next.wait = c.wait ∨
      flow = .keyWait ∧ ∃ x, instr = .awaitKey x ∧ next.wait = some x := by
  cases h
  case wait x => exact Or.inr ⟨rfl, x, rfl, rfl⟩
  all_goals exact Or.inl ⟨by decide, rfl⟩

/-- Memory and the index are reached under no flow but one. -/
theorem memory_index_eq (h : instr.Moves c flow next) (hFlow : flow ≠ .proceed) :
    next.memory = c.memory ∧ next.index = c.index := by
  cases h
  case registers => exact absurd rfl hFlow
  case skip => exact absurd rfl hFlow
  case index => exact absurd rfl hFlow
  case store => exact absurd rfl hFlow
  all_goals exact ⟨rfl, rfl⟩

private theorem stack_eq (h : instr.Moves c flow next) (hFlow : flow ≠ .jump) :
    next.stack = c.stack := by
  cases h
  case call => exact absurd rfl hFlow
  case ret => exact absurd rfl hFlow
  all_goals rfl

/-- Without a jump the program counter stays behind the word, or skips one more. -/
theorem pc_eq (h : instr.Moves c flow next) (hFlow : flow ≠ .jump) :
    next.pc = c.pc ∨ flow = .proceed ∧ next.pc = c.pc + 2 := by
  cases h
  case skip => exact Or.inr ⟨rfl, rfl⟩
  case jump => exact absurd rfl hFlow
  case jumpOffset => exact absurd rfl hFlow
  case call => exact absurd rfl hFlow
  case ret => exact absurd rfl hFlow
  all_goals exact Or.inl rfl

end Instr.Moves

/-! ## The processor -/

/-- The address that an instruction goes on at, if it carries it. -/
def Instr.target? : Instr → Option UInt16
  | .jump target => some target
  | .call target => some target
  | _ => none

private theorem Instr.target?_of_word {w : Word} {instr : Instr} {target : UInt16}
    (h : ofWord? w = some instr) (hTarget : instr.target? = some target) : target = w.nnn := by
  unfold ofWord? ofSelector? ofKeyTest? ofTransfer? at h
  split at h
  case h_1 =>
    split at h
    · cases h
      cases hTarget
    · split at h <;> cases h
      cases hTarget
  all_goals first | cases h | (split at h <;> cases h)
  all_goals cases hTarget
  all_goals rfl

private theorem Instr.x_of_awaitKey {w : Word} {x : Reg} (h : ofWord? w = some (.awaitKey x)) :
    w.x = x := by
  have hCode := code_of_word h
  have hx := x.isLt
  simp only [code] at hCode
  apply Fin.ext
  simp only [Word.x]
  omega

/-- What a flow says of the processor before and after a word. -/
structure Flow.Bounds (flow : Flow) (word : Word) (before after : Cpu) : Prop where
  sound : flow ≠ .sound → after.sound = before.sound
  wait : after.wait = if flow = .keyWait then some word.x else before.wait
  stack : flow ≠ .jump → after.stack = before.stack
  /-- A jump goes to an address in memory, or to the one that it popped. -/
  target : flow = .jump →
    after.pc.toNat < 4096 ∨ before.stack.pop = .ok (after.pc, after.stack)
  next : flow ≠ .jump → after.pc = before.pc + 2 ∨ after.pc = before.pc + 4
  /-- Only a word that announces nothing may skip. -/
  noSkip : flow ≠ .jump → flow ≠ .proceed → after.pc = before.pc + 2
  delay : flow ≠ .proceed → after.delay = before.delay
  memory : flow ≠ .proceed → after.memory = before.memory
  index : flow ≠ .proceed → after.index = before.index

/-- Where an instruction of a word jumps to. -/
theorem Instr.Moves.target {word : Word} {instr : Instr} {flow : Flow} {c next : Cpu}
    (hWord : Instr.ofWord? word = some instr) (h : instr.Moves c flow next)
    (hFlow : flow = .jump) :
    next.pc.toNat < 4096 ∨ c.stack.pop = .ok (next.pc, next.stack) := by
  have hLess := word.toNat_nnn
  cases h
  case jump target =>
    left
    obtain rfl := Instr.target?_of_word hWord rfl
    show word.nnn.toNat < 4096
    omega
  case call target stack =>
    left
    obtain rfl := Instr.target?_of_word hWord rfl
    show word.nnn.toNat < 4096
    omega
  case jumpOffset hTarget => exact Or.inl hTarget
  case ret hPop => exact Or.inr hPop
  all_goals cases hFlow

/-- **What each flow leaves alone.** -/
theorem Instr.Moves.bounds {word : Word} {instr : Instr} {flow : Flow} {c next : Cpu}
    (hWord : Instr.ofWord? word = some instr) (h : instr.Moves c.advance flow next) :
    flow.Bounds word c next where
  sound hFlow := by
    rcases h.sound_eq with hSame | ⟨hSound, -⟩
    · exact hSame
    · exact absurd hSound hFlow
  wait := by
    rcases h.wait_eq with ⟨hFlow, hSame⟩ | ⟨hFlow, x, rfl, hWait⟩
    · rw [if_neg hFlow]
      exact hSame
    · rw [if_pos hFlow, hWait, Instr.x_of_awaitKey hWord]
  stack hFlow := h.stack_eq hFlow
  target hFlow := Instr.Moves.target (c := c.advance) hWord h hFlow
  next hFlow := by
    rcases h.pc_eq hFlow with hNext | ⟨-, hSkip⟩
    · exact Or.inl hNext
    · right
      rw [hSkip]
      exact UInt16.add_assoc c.pc 2 2
  noSkip hJump hFlow := by
    rcases h.pc_eq hJump with hNext | ⟨hProceed, -⟩
    · exact hNext
    · exact absurd hProceed hFlow
  delay hFlow := by
    rcases h.delay_eq with hSame | ⟨hProceed, -⟩
    · exact hSame
    · exact absurd hProceed hFlow
  memory hFlow := (h.memory_index_eq hFlow).1
  index hFlow := (h.memory_index_eq hFlow).2

/-! ## The devices -/

/-- Whether a call clears the display. -/
def Call.clears : Call → Bool
  | .clear => true
  | _ => false

/-- What a flow says of the calls that a word made. -/
structure Flow.Announces (flow : Flow) (made : List Call) : Prop where
  clears : made.countP Call.clears = if flow = .clear then 1 else 0
  toggles : ∀ x y erased, .toggle x y erased ∈ made → flow = .draw
  noToneOn : ∀ frequency, .toneOn frequency ∉ made
  noToneOff : .toneOff ∉ made

namespace Flow.Announces

theorem nil {flow : Flow} (hFlow : flow ≠ .clear) : flow.Announces [] where
  clears := by rw [if_neg hFlow, List.countP_nil]
  toggles x y erased hMem := absurd hMem List.not_mem_nil
  noToneOn _ := List.not_mem_nil
  noToneOff := List.not_mem_nil

theorem clear : Flow.clear.Announces [.clear] where
  clears := rfl
  toggles x y erased hMem := by simp at hMem
  noToneOn frequency := by simp
  noToneOff := by simp

theorem pressed (key : Key) (down : Bool) : Flow.proceed.Announces [.pressed key down] where
  clears := rfl
  toggles x y erased hMem := by simp at hMem
  noToneOn frequency := by simp
  noToneOff := by simp

theorem draw (pixels : List (Nat × Nat)) (replies : List Bool) :
    Flow.draw.Announces
      (List.zipWith (fun p erased => Call.toggle p.1 p.2 erased) pixels replies) := by
  have hToggle : ∀ call ∈ List.zipWith (fun p erased => Call.toggle p.1 p.2 erased) pixels replies,
      ∃ x y erased, call = .toggle x y erased := by
    intro call hMem
    rw [← List.map_uncurry_zip_eq_zipWith] at hMem
    obtain ⟨⟨p, erased⟩, -, rfl⟩ := List.mem_map.1 hMem
    exact ⟨p.1, p.2, erased, rfl⟩
  refine ⟨?_, fun _ _ _ _ => rfl, ?_, ?_⟩
  · rw [if_neg (by decide), List.countP_eq_zero]
    intro call hMem
    obtain ⟨x, y, erased, rfl⟩ := hToggle call hMem
    exact Bool.false_ne_true
  · intro frequency hMem
    obtain ⟨x, y, erased, hCall⟩ := hToggle _ hMem
    cases hCall
  · intro hMem
    obtain ⟨x, y, erased, hCall⟩ := hToggle _ hMem
    cases hCall

end Flow.Announces

/-- The calls that come behind those made before. -/
def Console.Calls (before after : Console (Recorded δ)) (made : List Call) : Prop :=
  after.devices.calls.toList = before.devices.calls.toList ++ made

private theorem Console.calls_poll (x : Reg) (c : Console (Recorded δ)) :
    ∃ made, c.Calls (c.poll x).2 made ∧ Flow.proceed.Announces made := by
  unfold poll
  split
  · exact ⟨_, Array.toList_push, .pressed _ _⟩
  · exact ⟨[], (List.append_nil _).symm, .nil (by decide)⟩

/-- **The calls behind each flow.** -/
theorem Instr.perform_announces {instr : Instr} {c : Console (Recorded δ)} {flow : Flow}
    (h : (instr.perform c).result = .ok flow) :
    ∃ made, c.Calls (instr.perform c).state made ∧ flow.Announces made := by
  have hTransfer (f : Cpu → Except Fault Cpu) : (c.transfer f).state.devices = c.devices := by
    unfold Console.transfer
    split <;> rfl
  have hNone {after : Console (Recorded δ)} (hSame : after.devices = c.devices) :
      c.Calls after [] := by
    rw [Console.Calls, hSame, List.append_nil]
  cases instr
  case ret =>
    obtain ⟨rfl, -⟩ := Console.transfer_ok (f := Cpu.ret) h
    exact ⟨[], hNone (hTransfer _), .nil (by decide)⟩
  case call target =>
    obtain ⟨rfl, -⟩ := Console.transfer_ok (f := Cpu.call target) h
    exact ⟨[], hNone (hTransfer _), .nil (by decide)⟩
  all_goals cases h
  case clear => exact ⟨_, Array.toList_push, .clear⟩
  case draw x y height => exact ⟨_, Devices.calls_toggleAll _ _, .draw _ _⟩
  case skipPressed x => exact c.calls_poll x
  case skipReleased x => exact c.calls_poll x
  case loadRegisters x =>
    have hLoad : (c.mapCpu (Cpu.loadIndexed x)).devices = c.devices := rfl
    exact ⟨[], hNone hLoad, .nil (by decide)⟩
  all_goals exact ⟨[], hNone rfl, .nil (by decide)⟩

/-! ## Words and steps -/

/-- A word that succeeds is an instruction with one of the effects. -/
theorem Console.execute_moves {word : Word} {c : Console δ} {flow : Flow}
    (h : (c.execute word).result = .ok flow) :
    ∃ instr, Instr.ofWord? word = some instr ∧
      instr.Moves c.machine.cpu.advance flow (c.execute word).state.machine.cpu := by
  cases hWord : Instr.ofWord? word with
  | none =>
      rw [execute_of_none hWord] at h
      cases h
  | some instr =>
      rw [execute_of_instr hWord] at h ⊢
      exact ⟨instr, rfl, instr.perform_moves h⟩

private theorem Console.execute_announces {word : Word} {c : Console (Recorded δ)} {flow : Flow}
    (h : (c.execute word).result = .ok flow) :
    ∃ made, c.Calls (c.execute word).state made ∧ flow.Announces made := by
  cases hWord : Instr.ofWord? word with
  | none =>
      rw [execute_of_none hWord] at h
      cases h
  | some instr =>
      rw [execute_of_instr hWord] at h ⊢
      exact Instr.perform_announces (c := c.mapCpu Cpu.advance) h

/-- A step that is taken answers as the word it fetches does. -/
theorem Console.fetchExecute_result (c : Console δ) :
    c.fetchExecute.result = (c.execute c.nextWord).result := by
  cases hResult : (c.execute c.nextWord).result with
  | ok flow =>
      rw [fetchExecute_of_ok hResult]
      exact hResult
  | error fault => rw [fetchExecute_of_error hResult]

/-- **A flow bounds the effect.**  A word that is executed with a flow clears the display once if
the flow says so and not otherwise, flips pixels only if it says that a sprite was drawn, and never
sets the buzzer. The sound timer, the wait and the stack change only under the flow that tells of
it, and a wait is for the register that the word names. The program counter goes past the word, and
past one more only if nothing is announced, or else it goes to an address in memory or back to the
one that was popped. The delay timer, memory and the index change only if nothing is announced. A
step that is taken has the flow of the word it fetches, and leaves what this word leaves. -/
theorem flow_bounds_effect (c : Console (Recorded δ)) :
    (∀ word flow, (c.execute word).result = .ok flow →
      flow.Bounds word c.machine.cpu (c.execute word).state.machine.cpu ∧
      ∃ made, (c.execute word).state.devices.calls.toList = c.devices.calls.toList ++ made ∧
        flow.Announces made) ∧
    (c.machine.hasProgram = true → c.machine.trap = none → c.machine.cpu.wait = none →
      let word := c.machine.cpu.memory.fetch c.machine.cpu.pc.toNat
      c.step.result = (c.execute word).result ∧
      ∀ flow, (c.execute word).result = .ok flow → c.step.state = (c.execute word).state) := by
  constructor
  · intro word flow h
    obtain ⟨instr, hWord, hMoves⟩ := Console.execute_moves h
    exact ⟨hMoves.bounds hWord, Console.execute_announces h⟩
  · intro hProgram hTrap hWait word
    have hTaken : c.step = c.fetchExecute := Console.step_taken hTrap hProgram hWait
    rw [hTaken]
    refine ⟨c.fetchExecute_result, ?_⟩
    intro flow hFlow
    rw [Console.fetchExecute_of_ok (show (c.execute c.nextWord).result = .ok flow from hFlow)]
    rfl

/-- A program that waits for a key in `V3`, and before it is stepped the display is cleared by a
word of the host. -/
theorem flow_bounds_effect_of_clear :
    let start : Console (Recorded Headless) :=
      ⟨{ Machine.new {} (.cycling [0]) with
          cpu := .loaded [0xF3, 0x0A], hasProgram := true }, { devices := {} }⟩
    (start.execute 0x00E0).result = .ok .clear ∧
    (start.execute 0x00E0).state.machine.cpu.pc = start.machine.cpu.pc + 2 ∧
    (∃ made, (start.execute 0x00E0).state.devices.calls.toList =
        start.devices.calls.toList ++ made ∧ made.countP Call.clears = 1) ∧
    start.step.result = .ok .keyWait ∧
    start.step.state.machine.cpu.wait = some 3 := by
  intro start
  have hClear : (start.execute 0x00E0).result = .ok .clear := rfl
  obtain ⟨hWords, hStep⟩ := flow_bounds_effect start
  obtain ⟨hBounds, made, hCalls, hMade⟩ := hWords _ _ hClear
  have hFetched : start.machine.cpu.memory.fetch start.machine.cpu.pc.toNat = 0xF30A :=
    Memory.fetch_ofProgram 0xF3 0x0A []
  obtain ⟨hResult, hState⟩ := hStep rfl rfl rfl
  rw [hFetched] at hResult hState
  have hWaits : (start.execute 0xF30A).result = .ok .keyWait := rfl
  obtain ⟨hWaiting, -⟩ := hWords _ _ hWaits
  refine ⟨hClear, hBounds.noSkip (by decide) (by decide), ⟨made, hCalls, hMade.clears⟩,
    hResult.trans hWaits, ?_⟩
  rw [hState _ hWaits, hWaiting.wait]
  rfl

end Chip8
