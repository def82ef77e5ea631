import Chip8.Console.Execute

/-!
# Driving the machine

Three ways to run a program. `step` takes one instruction; `runSteps` takes up
to a number of them and stops when the machine waits for a key; `cycle` runs
one batch at the configured speed, counts the timers down and sounds or
silences the buzzer.

A machine that has halted, or has no program, refuses every step; one that
waits for a key takes the step but does nothing in it.
-/

namespace Chip8.Console

variable {δ : Type} [Devices δ]

/-- Fetch the instruction at the program counter and execute it; a fault halts the machine. -/
def fetchExecute (c : Console δ) : Outcome (Console δ) Flow :=
  let pc := c.machine.cpu.pc
  let word := c.machine.cpu.memory.fetch pc.toNat
  let o := (c.execute word).after #[.fetched pc word]
  match o.result with
  | .ok _ => o
  | .error fault =>
      { o with state := o.state.halt fault, records := o.records.push (.halted fault) }

/-- Take one instruction. -/
def step (c : Console δ) : Outcome (Console δ) Flow :=
  match c.machine.trap with
  | some fault => fail fault c
  | none =>
      if !c.machine.hasProgram then fail (.invalidProgram 0) c
      else if c.machine.isWaiting then done .keyWait c
      else c.fetchExecute

/-- Take up to a number of instructions, stopping when the machine waits for a key.
The answer is that of the last one. -/
def runSteps (count : Nat) (c : Console δ) : Outcome (Console δ) Flow :=
  Outcome.repeatUntil (· == .keyWait) step count (done .proceed c)

/-- Sound the buzzer while the sound timer runs, and silence it otherwise. -/
def updateTone (c : Console δ) : Console δ :=
  if 0 < c.machine.cpu.sound then
    { c with devices := Devices.toneOn c.machine.conf.tone c.devices }
  else { c with devices := Devices.toneOff c.devices }

/-- What follows the instructions of a batch: the timers count down unless the machine waits
for a key, then the buzzer is set. -/
def finishBatch (c : Console δ) : Console δ :=
  updateTone (if c.machine.isWaiting then c else c.mapCpu Cpu.tick)

/-- Run one batch. A fault ends it at once, before the timers and the buzzer. -/
def cycle (c : Console δ) : Outcome (Console δ) Unit :=
  let batch := Outcome.repeatUntil (fun _ => false) step c.machine.conf.speed (done .proceed c)
  match batch.result with
  | .ok _ => { result := .ok (), state := batch.state.finishBatch, records := batch.records }
  | .error fault => { result := .error fault, state := batch.state, records := batch.records }

end Chip8.Console
