import Chip8.Record

/-!
# Outcomes

What an operation on some state comes to: an answer or a fault, the state it
left, and the records it made, oldest first. The state is there after a fault
too, because an operation that fails may have done part of its work.

`repeatUntil` is the one loop of the library: it repeats an operation from the
state the last one left, and stops at a fault or at an answer that asks for it.
-/

namespace Chip8

/-- An answer or a fault, the state left, and the records made. -/
structure Outcome (σ α : Type) where
  result : Except Fault α
  state : σ
  records : Array Record := #[]

namespace Outcome

variable {σ α : Type}

/-- The same outcome with records made earlier put in front. -/
def after (earlier : Array Record) (o : Outcome σ α) : Outcome σ α :=
  { o with records := earlier ++ o.records }

/-- The same outcome with only those records that are worth keeping. -/
def keeping (worth : Record → Bool) (o : Outcome σ α) : Outcome σ α :=
  { o with records := o.records.filter worth }

@[simp] theorem keeping_true (o : Outcome σ α) : o.keeping (fun _ => true) = o := by
  have hAll : o.records.filter (fun _ => true) = o.records := by
    rw [Array.filter_eq_self]
    intros
    rfl
  rw [keeping, hAll]

/-- Whether a loop goes on from here. -/
def goesOn (stop : α → Bool) (o : Outcome σ α) : Bool :=
  match o.result with
  | .ok a => !stop a
  | .error _ => false

/-- Repeat an operation up to a number of times from the state an outcome left. -/
def repeatUntil (stop : α → Bool) (act : σ → Outcome σ α) :
    Nat → Outcome σ α → Outcome σ α
  | 0, o => o
  | n + 1, o =>
      if o.goesOn stop then repeatUntil stop act n ((act o.state).after o.records) else o

theorem repeatUntil_of_goesOn {stop : α → Bool} {o : Outcome σ α} (hOn : o.goesOn stop = true)
    (act : σ → Outcome σ α) (n : Nat) :
    repeatUntil stop act (n + 1) o = repeatUntil stop act n ((act o.state).after o.records) := by
  simp [repeatUntil, hOn]

/-- A loop that has come to its end stays there. -/
theorem repeatUntil_of_stopped {stop : α → Bool} {o : Outcome σ α}
    (hOff : o.goesOn stop = false) (act : σ → Outcome σ α) (n : Nat) :
    repeatUntil stop act n o = o := by
  cases n with
  | zero => rfl
  | succ n => simp [repeatUntil, hOff]

end Outcome

end Chip8
