import Chip8.Instr.Encode
import Chip8.Proofs.Subroutine

/-!
# Random bytes are drawn one by one

Each `Cxkk` takes the next byte of the random source, and nothing else takes
any: no other word, no wait, no fault and no load. So the place in the source
is the number of `Cxkk` executed so far, and each of them finds the byte of its
own number there (`Console.Draws`).

## Main results

* `Console.execute_random`, `Console.apply_random` — what a word draws, and an operation.
* `Console.draws_executions` — the words of a run draw one after the other.
* `Console.Draws.getElem?` — which byte a word finds.
-/

namespace Chip8

/-! ## Random sources -/

namespace RandomSource

/-- The source after so many more bytes were taken. -/
def skip (n : Nat) (s : RandomSource) : RandomSource := { s with drawn := s.drawn + n }

@[simp] theorem skip_zero (s : RandomSource) : s.skip 0 = s := rfl

theorem skip_skip (m n : Nat) (s : RandomSource) : (s.skip m).skip n = s.skip (m + n) := by
  simp only [skip, Nat.add_assoc]

end RandomSource

/-! ## Words that draw -/

/-- Whether a word is `Cxkk`, which draws a random byte. -/
def Word.isRandom (w : Word) : Bool := w.family.val == 0xC

namespace Instr

theorem ofWord?_random {w : Word} (h : w.isRandom = true) :
    ofWord? w = some (.random w.x w.kk) := by
  have hFamily : w.family.val = 0xC := eq_of_beq h
  simp only [ofWord?, hFamily]

/-- The only words that draw a byte are of the form `Cxkk`. -/
theorem isRandom_of_word {w : Word} {x : Reg} {mask : UInt8}
    (h : ofWord? w = some (.random x mask)) : w.isRandom = true := by
  have hCode := code_of_word h
  have hx := x.isLt
  have hMask := mask.toNat_lt
  simp only [code] at hCode
  simp only [Word.isRandom, Word.family, beq_iff_eq]
  omega

end Instr

variable {δ : Type} [Devices δ]

private theorem Instr.perform_random {instr : Instr} (hRandom : ∀ x mask, instr ≠ .random x mask)
    (c : Console δ) : (instr.perform c).state.machine.random = c.machine.random := by
  have hTransfer (g : Cpu → Except Fault Cpu) :
      (c.transfer g).state.machine.random = c.machine.random :=
    Console.transfer_kept (P := fun m => m.random = c.machine.random) rfl fun _ _ => rfl
  have hKey (x : Reg) (wanted : Bool) :
      (c.skipOnKey x wanted).state.machine.random = c.machine.random := by
    rw [Console.skipOnKey_machine]
  cases instr
  case ret => exact hTransfer _
  case call => exact hTransfer _
  case random x mask => exact absurd rfl (hRandom x mask)
  case skipPressed x => exact hKey x true
  case skipReleased x => exact hKey x false
  all_goals rfl

namespace Console

/-- A word that draws puts the next byte, masked, into its register. -/
theorem execute_of_isRandom {word : Word} (h : word.isRandom = true) (c : Console δ) :
    c.execute word = done .proceed ((c.mapCpu Cpu.advance).drawRandom word.x word.kk) := by
  rw [execute_of_instr (Instr.ofWord?_random h)]
  rfl

/-- **What a word draws**: one byte if it is `Cxkk`, and none otherwise. -/
theorem execute_random (word : Word) (c : Console δ) :
    (c.execute word).state.machine.random =
      c.machine.random.skip ([word].countP Word.isRandom) := by
  cases hRandom : word.isRandom with
  | true =>
      have hCount : [word].countP Word.isRandom = 1 := by simp [hRandom]
      rw [hCount, execute_of_isRandom hRandom]
      rfl
  | false =>
      have hCount : [word].countP Word.isRandom = 0 := by simp [hRandom]
      rw [hCount, RandomSource.skip_zero]
      cases hWord : Instr.ofWord? word with
      | none =>
          rw [execute_of_none hWord, refuse_machine]
          rfl
      | some instr =>
          rw [execute_of_instr hWord]
          refine (Instr.perform_random ?_ _).trans rfl
          rintro x mask rfl
          cases hRandom.symm.trans (Instr.isRandom_of_word hWord)

/-! ## Words that draw one after the other -/

private theorem outcome_random (e : Execution δ) :
    e.outcome.state.machine.random =
      e.before.machine.random.skip ([e.word].countP Word.isRandom) :=
  execute_random e.word e.before

/-- Words that find the random source as those before them left it, from one source to another. -/
def Draws : List (Execution δ) → RandomSource → RandomSource → Prop
  | [], s, t => t = s
  | e :: rest, s, t => e.before.machine.random = s ∧ Draws rest e.outcome.state.machine.random t

namespace Draws

variable {es fs : List (Execution δ)} {s t u : RandomSource}

theorem append (h : Draws es s t) (hNext : Draws fs t u) : Draws (es ++ fs) s u := by
  induction es generalizing s with
  | nil =>
      obtain rfl : t = s := h
      exact hNext
  | cons e rest ih => exact ⟨h.1, ih h.2⟩

/-- As many bytes are taken as there are words that draw one. -/
theorem eq_skip (h : Draws es s t) : t = s.skip ((es.map Execution.word).countP Word.isRandom) := by
  induction es generalizing s with
  | nil => exact h
  | cons e rest ih =>
      obtain ⟨hBefore, hRest⟩ := h
      rw [ih hRest, outcome_random, hBefore, RandomSource.skip_skip, ← List.countP_append]
      rfl

/-- **Which byte a word finds**: that of its own number among those that draw one. -/
theorem getElem? (h : Draws es s t) {i : Nat} {e : Execution δ}
    (hWord : (es.filter (·.word.isRandom))[i]? = some e) : e.before.machine.random = s.skip i := by
  induction es generalizing s i with
  | nil => simp at hWord
  | cons first rest ih =>
      obtain ⟨hBefore, hRest⟩ := h
      have hFirst := outcome_random first
      rw [hBefore] at hFirst
      cases hRandom : first.word.isRandom with
      | false =>
          rw [List.filter_cons_of_neg (by simp [hRandom])] at hWord
          have hSame : first.outcome.state.machine.random = s := by
            simpa [hRandom] using hFirst
          exact ih (hSame ▸ hRest) hWord
      | true =>
          rw [List.filter_cons_of_pos (by simp [hRandom])] at hWord
          have hTaken : first.outcome.state.machine.random = s.skip 1 := by
            simpa [hRandom] using hFirst
          cases i with
          | zero =>
              cases hWord
              exact hBefore
          | succ i =>
              rw [ih hRest hWord, hTaken, RandomSource.skip_skip, Nat.add_comm]

end Draws

/-- A thread of execution draws one byte after the other: what comes between its words takes none.
-/
theorem Thread.draws {es : List (Execution δ)} {c d : Console δ} (h : Thread es c d) :
    Draws es c.machine.random d.machine.random := by
  have hIdle {a b : Console δ} (hIdles : a.Idles b) : b.machine.random = a.machine.random := by
    obtain ⟨_, _, _, _, _, hMachine⟩ := hIdles
    rw [hMachine]
  induction es generalizing c with
  | nil => exact hIdle h
  | cons e rest ih => exact ⟨hIdle h.1, ih h.2⟩

/-! ## Runs -/

theorem step_random (c : Console δ) :
    c.step.state.machine.random =
      c.machine.random.skip ((fetchedIn c.step.records).countP Word.isRandom) := by
  have hDrawn := c.thread_step.draws.eq_skip
  rw [List.map_map] at hDrawn
  exact hDrawn.trans (by rw [show Execution.word ∘ Execution.mk c = id from rfl, List.map_id])

private theorem draws_executionsIn (op : Operation) (c : Console δ) :
    Draws (c.executionsIn op) c.machine.random (c.apply op).state.machine.random := by
  by_cases hLoad : ∃ program, op = .load program
  · obtain ⟨program, rfl⟩ := hLoad
    show (c.machine.load program).state.random = c.machine.random
    unfold Machine.load
    split <;> rfl
  · exact (thread_apply (fun program h => hLoad ⟨program, h⟩) c).draws

/-- **The words of a run draw one byte after the other**, and what a host does beside them takes
none, loading programs included. -/
theorem draws_executions (ops : List Operation) (c : Console δ) :
    Draws (c.executions ops) c.machine.random (c.afterAll ops).machine.random := by
  induction ops generalizing c with
  | nil => rfl
  | cons op ops ih => exact (c.draws_executionsIn op).append (ih (c.apply op).state)

/-- What an operation draws: a byte for each `Cxkk` that it executes. -/
theorem apply_random (op : Operation) (c : Console δ) :
    (c.apply op).state.machine.random =
      c.machine.random.skip ((op.executedBy (c.apply op).records).countP Word.isRandom) := by
  rw [(c.draws_executionsIn op).eq_skip, executionsIn_words]

theorem afterAll_random (ops : List Operation) (c : Console δ) :
    (c.afterAll ops).machine.random =
      c.machine.random.skip ((c.executed ops).countP Word.isRandom) := by
  rw [(c.draws_executions ops).eq_skip, executions_words]

end Console

end Chip8
