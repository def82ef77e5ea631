import Chip8.Console.Drive

/-!
# Operations of a host

Everything a host can do to a console, as data: `apply` does one operation and
`applyAll` a sequence of them. What is true of every use of a console is a
statement about all sequences.

The words that were executed on the way can be read off the operation and the
records it made (`executedBy`).
-/

namespace Chip8

/-- Something a host does to a console. -/
inductive Operation where
  | load (program : List UInt8)
  | execute (word : Word)
  | step
  | runSteps (count : Nat)
  | cycle
  | keyDown (key : Key)
  deriving DecidableEq, Repr

/-- The answer to an operation that succeeds. -/
inductive Answer where
  | done
  | flow (flow : Flow)
  /-- Whether a key ended a wait. -/
  | resolved (wasWaiting : Bool)
  deriving DecidableEq, Repr

namespace Outcome

/-- The same outcome with another answer, made from its own. -/
def map {σ α β : Type} (f : α → β) (o : Outcome σ α) : Outcome σ β :=
  { result := o.result.map f, state := o.state, records := o.records }

/-- The outcome of an operation on a part of the state. -/
def within {σ τ α : Type} (put : σ → τ) (o : Outcome σ α) : Outcome τ α :=
  { result := o.result, state := put o.state, records := o.records }

end Outcome

namespace Console

variable {δ : Type} [Devices δ]

/-- Do one operation. -/
def apply (op : Operation) (c : Console δ) : Outcome (Console δ) Answer :=
  match op with
  | .load program => ((c.machine.load program).within c.withMachine).map fun _ => .done
  | .execute word => (c.execute word).map .flow
  | .step => c.step.map .flow
  | .runSteps count => (c.runSteps count).map .flow
  | .cycle => c.cycle.map fun _ => .done
  | .keyDown key => ((c.machine.keyDown key).within c.withMachine).map .resolved

/-- Do operations one after the other, also after faults; the outcomes in order. -/
def applyAll : List Operation → Console δ → List (Outcome (Console δ) Answer)
  | [], _ => []
  | op :: ops, c =>
      let o := c.apply op
      o :: applyAll ops o.state

/-- The state that operations lead to. -/
def afterAll : List Operation → Console δ → Console δ
  | [], c => c
  | op :: ops, c => afterAll ops (c.apply op).state

end Console

/-- The word that a record says was fetched. -/
def Record.fetchedWord? : Record → Option Word
  | .fetched _ word => some word
  | _ => none

/-- The words executed by an operation that made the given records, in order. -/
def Operation.executedBy (op : Operation) (records : Array Record) : List Word :=
  match op with
  | .execute word => [word]
  | _ => records.toList.filterMap Record.fetchedWord?

end Chip8
