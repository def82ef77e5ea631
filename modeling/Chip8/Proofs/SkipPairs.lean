import Chip8.Proofs.Execution

/-!
# Skips come in pairs

For each condition there is a word that skips when it holds and another one that
skips when it does not: on a register and a value, on two registers, and on the
key whose number is in a register. A word goes two bytes on and a skip two more,
around the end of the sixteen bits if need be, so of a pair exactly one word
leads four bytes on and the other one two, and that is all they do
(`Console.Complements`).

The words of the last pair ask the keypad the same question, and only if the
register has the number of a key. If it has not, no key can be down: the word
that skips when it is up always skips.

## Main results

* `Console.done_skipIf` — a skip, by how far it leads.
* `Console.complements_of_polled` — the words of the last pair, by what the keypad answers.
* `skip_pairs_are_complements` — the three pairs.
-/

namespace Chip8

/-! ## The words -/

namespace Instr

private theorem ofWord?_skipEqual (x : Reg) (value : UInt8) :
    ofWord? (Word.ofByte 3 x value) = some (.skipEqual x value) := by
  simp only [ofWord?, Word.family_ofByte, Word.x_ofByte, Word.kk_ofByte]
  rfl

private theorem ofWord?_skipNotEqual (x : Reg) (value : UInt8) :
    ofWord? (Word.ofByte 4 x value) = some (.skipNotEqual x value) := by
  simp only [ofWord?, Word.family_ofByte, Word.x_ofByte, Word.kk_ofByte]
  rfl

private theorem ofWord?_skipSame (x y : Reg) :
    ofWord? (Word.ofNibbles 5 x y 0) = some (.skipSame x y) := by
  simp only [ofWord?, Word.family_ofNibbles, Word.x_ofNibbles, Word.y_ofNibbles,
    Word.n_ofNibbles]
  rfl

private theorem ofWord?_skipDifferent (x y : Reg) :
    ofWord? (Word.ofNibbles 9 x y 0) = some (.skipDifferent x y) := by
  simp only [ofWord?, Word.family_ofNibbles, Word.x_ofNibbles, Word.y_ofNibbles,
    Word.n_ofNibbles]
  rfl

private theorem ofWord?_keyTest (x : Reg) (low : UInt8) :
    ofWord? (Word.ofByte 14 x low) = ofKeyTest? x low := by
  simp only [ofWord?, Word.family_ofByte, Word.x_ofByte, Word.kk_ofByte]
  rfl

end Instr

namespace Console

variable {δ : Type}

/-! ## Going on -/

/-- Nothing is done but to go so many bytes on, with the devices in a given state. -/
def passed (bytes : UInt16) (devices : δ) (c : Console δ) : Outcome (Console δ) Flow :=
  done .proceed
    { machine := { c.machine with
        cpu := { c.machine.cpu with pc := c.machine.cpu.pc + bytes } }
      devices }

/-- How far a word leads that skips on a condition. -/
def skipLength (condition : Bool) : UInt16 := if condition then 4 else 2

theorem done_skipIf (condition : Bool) (devices : δ) (c : Console δ) :
    done .proceed ({ c with devices }.mapCpu fun cpu => cpu.advance.skipIf condition) =
      c.passed (skipLength condition) devices := by
  cases condition with
  | true =>
      have hTwice : c.machine.cpu.pc + 2 + 2 = c.machine.cpu.pc + 4 := UInt16.add_assoc ..
      simp only [passed, mapCpu, Cpu.skipIf, skipLength, Cpu.advance, if_true, hTwice]
  | false => rfl

private theorem update_skipIf (condition : Cpu → Bool)
    (hOperands : ∀ cpu : Cpu, condition cpu.advance = condition cpu) (c : Console δ) :
    (c.mapCpu Cpu.advance).update .proceed (fun cpu => cpu.skipIf (condition cpu)) =
      c.passed (skipLength (condition c.machine.cpu)) c.devices := by
  rw [← hOperands]
  exact done_skipIf (condition c.machine.cpu.advance) c.devices c

variable [Devices δ]

/-! ## Pairs -/

/-- **Two words that skip on opposite conditions**: from the same state one of them goes four bytes
on and the other one two, the first one four just when the condition holds. Both leave the devices
in the same state, and nothing else is done. -/
structure Complements (first second : Word) (condition : Prop) (devices : δ)
    (c : Console δ) : Prop where
  outcomes : c.execute first = c.passed 4 devices ∧ c.execute second = c.passed 2 devices ∨
    c.execute first = c.passed 2 devices ∧ c.execute second = c.passed 4 devices
  first_skips :
    (c.execute first).state.machine.cpu.pc = c.machine.cpu.pc + 4 ↔ condition
  second_skips :
    (c.execute second).state.machine.cpu.pc = c.machine.cpu.pc + 4 ↔ ¬ condition

/-- Either word leaves the devices as the other one does. -/
theorem Complements.devices_left {first second : Word} {condition : Prop} {devices : δ}
    {c : Console δ} (h : c.Complements first second condition devices) :
    (c.execute first).state.devices = devices ∧ (c.execute second).state.devices = devices := by
  rcases h.outcomes with ⟨hFirst, hSecond⟩ | ⟨hFirst, hSecond⟩
  · rw [hFirst, hSecond]
    exact ⟨rfl, rfl⟩
  · rw [hFirst, hSecond]
    exact ⟨rfl, rfl⟩

private theorem complements_of_skips {first second : Word} {condition : Prop} {devices : δ}
    {c : Console δ} (holds : Bool) (hFirst : c.execute first = c.passed (skipLength holds) devices)
    (hSecond : c.execute second = c.passed (skipLength (!holds)) devices)
    (hCondition : holds = true ↔ condition) : c.Complements first second condition devices := by
  have hApart : c.machine.cpu.pc + 2 ≠ c.machine.cpu.pc + 4 := by
    intro h
    exact absurd ((UInt16.add_right_inj _).1 h) (by decide)
  cases holds with
  | true =>
      have hHolds : condition := hCondition.1 rfl
      refine ⟨Or.inl ⟨hFirst, hSecond⟩, ?_, ?_⟩
      · rw [hFirst]
        exact iff_of_true rfl hHolds
      · rw [hSecond]
        exact iff_of_false hApart (not_not_intro hHolds)
  | false =>
      have hFails : ¬ condition := fun h => Bool.false_ne_true (hCondition.2 h)
      refine ⟨Or.inr ⟨hFirst, hSecond⟩, ?_, ?_⟩
      · rw [hFirst]
        exact iff_of_false hApart hFails
      · rw [hSecond]
        exact iff_of_true rfl hFails

private theorem complements_value (x : Reg) (value : UInt8) (c : Console δ) :
    c.Complements (Word.ofByte 3 x value) (Word.ofByte 4 x value)
      (c.machine.cpu.reg x = value) c.devices := by
  refine complements_of_skips (c.machine.cpu.reg x == value) ?_ ?_ beq_iff_eq
  · rw [execute_of_instr (Instr.ofWord?_skipEqual x value)]
    exact update_skipIf (fun cpu => cpu.reg x == value) (fun _ => rfl) c
  · rw [execute_of_instr (Instr.ofWord?_skipNotEqual x value)]
    exact update_skipIf (fun cpu => cpu.reg x != value) (fun _ => rfl) c

private theorem complements_registers (x y : Reg) (c : Console δ) :
    c.Complements (Word.ofNibbles 5 x y 0) (Word.ofNibbles 9 x y 0)
      (c.machine.cpu.reg x = c.machine.cpu.reg y) c.devices := by
  refine complements_of_skips (c.machine.cpu.reg x == c.machine.cpu.reg y) ?_ ?_ beq_iff_eq
  · rw [execute_of_instr (Instr.ofWord?_skipSame x y)]
    exact update_skipIf (fun cpu => cpu.reg x == cpu.reg y) (fun _ => rfl) c
  · rw [execute_of_instr (Instr.ofWord?_skipDifferent x y)]
    exact update_skipIf (fun cpu => cpu.reg x != cpu.reg y) (fun _ => rfl) c

/-! ## Keys -/

private theorem poll_of_key {x : Reg} {k : Key} {c : Console δ}
    (hKey : (c.machine.cpu.reg x).toNat = k.val) : c.poll x =
      ((Devices.pressed k c.devices).1, { c with devices := (Devices.pressed k c.devices).2 }) := by
  have hSmall : (c.machine.cpu.reg x).toNat < 16 := hKey ▸ k.isLt
  have hSame : (⟨(c.machine.cpu.reg x).toNat, hSmall⟩ : Key) = k := Fin.ext hKey
  rw [poll, dif_pos hSmall, hSame]

private theorem poll_of_no_key {x : Reg} {c : Console δ}
    (hNone : 16 ≤ (c.machine.cpu.reg x).toNat) : c.poll x = (false, c) := by
  rw [poll, dif_neg (Nat.not_lt.2 hNone)]

private theorem skipOnKey_of_polled {x : Reg} {pressed : Bool} {devices : δ} {c : Console δ}
    (hPoll : (c.mapCpu Cpu.advance).poll x = (pressed, { c.mapCpu Cpu.advance with devices }))
    (wanted : Bool) :
    (c.mapCpu Cpu.advance).skipOnKey x wanted =
      c.passed (skipLength (pressed == wanted)) devices := by
  rw [skipOnKey, hPoll]
  exact done_skipIf (pressed == wanted) devices c

/-- The words of the last pair, by what the keypad answers to their question. -/
theorem complements_of_polled {x : Reg} {pressed : Bool} {devices : δ} {c : Console δ}
    (hPoll : (c.mapCpu Cpu.advance).poll x = (pressed, { c.mapCpu Cpu.advance with devices })) :
    c.Complements (Word.ofByte 14 x 0x9E) (Word.ofByte 14 x 0xA1) (pressed = true) devices := by
  refine complements_of_skips pressed ?_ ?_ Iff.rfl
  · rw [execute_of_instr ((Instr.ofWord?_keyTest x 0x9E).trans rfl)]
    exact (skipOnKey_of_polled hPoll true).trans (by rw [beq_true])
  · rw [execute_of_instr ((Instr.ofWord?_keyTest x 0xA1).trans rfl)]
    exact (skipOnKey_of_polled hPoll false).trans (by rw [beq_false])

/-- A register that has the number of a key. -/
theorem complements_key {x : Reg} {k : Key} {c : Console δ}
    (hKey : (c.machine.cpu.reg x).toNat = k.val) :
    c.Complements (Word.ofByte 14 x 0x9E) (Word.ofByte 14 x 0xA1)
      ((Devices.pressed k c.devices).1 = true) (Devices.pressed k c.devices).2 :=
  complements_of_polled (poll_of_key (c := c.mapCpu Cpu.advance) hKey)

/-- A register that has not. -/
theorem complements_no_key {x : Reg} {c : Console δ} (hNone : 16 ≤ (c.machine.cpu.reg x).toNat) :
    c.Complements (Word.ofByte 14 x 0x9E) (Word.ofByte 14 x 0xA1) False c.devices := by
  have hPolled := complements_of_polled (poll_of_no_key (c := c.mapCpu Cpu.advance) hNone)
  rwa [Bool.false_eq_true] at hPolled

end Console

/-- **Skips come in exact complements.**  From the same state exactly one of `3xkk` and `4xkk` goes
four bytes on and the other one two, and nothing else changes; the first one skips just when `Vx` is
`kk`. So do `5xy0` and `9xy0`, the first one just when `Vx` is `Vy`. So do `Ex9E` and `ExA1`: if
`Vx` is the number of a key, both ask for that key and nothing else, and the first one skips just
when the answer is that it is pressed; if it is not, neither asks for any, and it is the second one
that skips. -/
theorem skip_pairs_are_complements {δ : Type} [Devices δ] :
    (∀ c : Console δ,
      let cpu := c.machine.cpu
      (∀ x value, c.Complements (Word.ofByte 0x3 x value) (Word.ofByte 0x4 x value)
        (cpu.reg x = value) c.devices) ∧
      (∀ x y, c.Complements (Word.ofNibbles 0x5 x y 0) (Word.ofNibbles 0x9 x y 0)
        (cpu.reg x = cpu.reg y) c.devices) ∧
      (∀ x (k : Key), (cpu.reg x).toNat = k.val →
        let asked := Devices.pressed k c.devices
        c.Complements (Word.ofByte 0xE x 0x9E) (Word.ofByte 0xE x 0xA1)
          (asked.1 = true) asked.2) ∧
      (∀ x, 16 ≤ (cpu.reg x).toNat →
        c.Complements (Word.ofByte 0xE x 0x9E) (Word.ofByte 0xE x 0xA1) False c.devices)) ∧
    ∀ (c : Console (Recorded δ)) x,
      let calls := c.devices.calls
      let first := (c.execute (Word.ofByte 0xE x 0x9E)).state.devices.calls
      let second := (c.execute (Word.ofByte 0xE x 0xA1)).state.devices.calls
      (∀ k : Key, (c.machine.cpu.reg x).toNat = k.val →
        let call := Call.pressed k (Devices.pressed k c.devices.devices).1
        first = calls.push call ∧ second = calls.push call) ∧
      (16 ≤ (c.machine.cpu.reg x).toNat → first = calls ∧ second = calls) := by
  constructor
  · intro c cpu
    exact ⟨c.complements_value, c.complements_registers, fun x k => Console.complements_key,
      fun x => Console.complements_no_key⟩
  · intro c x calls first second
    constructor
    · intro k hKey call
      have hLeft := (Console.complements_key hKey).devices_left
      exact ⟨congrArg Recorded.calls hLeft.1, congrArg Recorded.calls hLeft.2⟩
    · intro hNone
      have hLeft := (Console.complements_no_key hNone).devices_left
      exact ⟨congrArg Recorded.calls hLeft.1, congrArg Recorded.calls hLeft.2⟩

/-- Two bytes before the end of the sixteen bits, with a key down whose number is in `V0`, and with
no number of a key in `V1`. -/
theorem skip_pairs_are_complements_around_end :
    let registers : Vector UInt8 16 := (Vector.replicate 16 5).set 1 0x15
    let machine := Machine.new {} (.cycling [1])
    let devices : Headless := { keys := Keypad.released.set 5 true }
    let c : Console (Recorded Headless) :=
      ⟨{ machine with cpu := { machine.cpu with pc := 0xFFFE, registers } }, { devices }⟩
    let after (word : Word) := (c.execute word).state
    let skips (word : Word) := (after word).machine.cpu.pc = c.machine.cpu.pc + 4
    let calls (word : Word) := (after word).devices.calls
    c.machine.cpu.pc + 4 = 2 ∧
    (c.machine.cpu.reg 0).toNat = (5 : Key).val ∧ 16 ≤ (c.machine.cpu.reg 1).toNat ∧
    skips (Word.ofByte 0x3 0 5) ∧ ¬ skips (Word.ofByte 0x4 0 5) ∧
    ¬ skips (Word.ofNibbles 0x5 0 1 0) ∧ skips (Word.ofNibbles 0x9 0 1 0) ∧
    skips (Word.ofByte 0xE 0 0x9E) ∧ ¬ skips (Word.ofByte 0xE 0 0xA1) ∧
    calls (Word.ofByte 0xE 0 0x9E) = #[.pressed 5 true] ∧
    calls (Word.ofByte 0xE 0 0xA1) = #[.pressed 5 true] ∧
    ¬ skips (Word.ofByte 0xE 1 0x9E) ∧ skips (Word.ofByte 0xE 1 0xA1) ∧
    calls (Word.ofByte 0xE 1 0x9E) = #[] ∧ calls (Word.ofByte 0xE 1 0xA1) = #[] := by
  intro registers machine devices c after skips calls
  have hKey : (c.machine.cpu.reg 0).toNat = (5 : Key).val := rfl
  have hNone : 16 ≤ (c.machine.cpu.reg 1).toNat := by decide
  obtain ⟨hValue, hRegisters, hDown, hNever⟩ :=
    (skip_pairs_are_complements (δ := Recorded Headless)).1 c
  have hCalls := (skip_pairs_are_complements (δ := Headless)).2 c
  have hSame : c.machine.cpu.reg 0 = 5 := rfl
  have hOther : c.machine.cpu.reg 0 ≠ c.machine.cpu.reg 1 := by decide
  have hPressed : (Devices.pressed (5 : Key) c.devices).1 = true := rfl
  refine ⟨by decide, hKey, hNone, (hValue 0 5).first_skips.2 hSame, ?_, ?_,
    (hRegisters 0 1).second_skips.2 hOther, (hDown 0 5 hKey).first_skips.2 hPressed, ?_,
    ((hCalls 0).1 5 hKey).1, ((hCalls 0).1 5 hKey).2, (hNever 1 hNone).first_skips.1,
    (hNever 1 hNone).second_skips.2 id, ((hCalls 1).2 hNone).1, ((hCalls 1).2 hNone).2⟩
  · exact fun h => (hValue 0 5).second_skips.1 h hSame
  · exact fun h => hOther ((hRegisters 0 1).first_skips.1 h)
  · exact fun h => (hDown 0 5 hKey).second_skips.1 h hPressed

end Chip8
