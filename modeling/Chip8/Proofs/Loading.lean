import Chip8.Player
import Chip8.Proofs.CrashFreedom
import Chip8.Proofs.FontIntegrity

/-!
# Loading erases history

A program that is accepted starts on a machine that is as good as new: of all
that ran before, only the settings and the place in the random numbers are left.
The size of a program alone decides whether it is accepted, and it is looked at
before anything is touched, so a program that is refused leaves everything as
it was.

The machine replaces its processor as a whole. The bare interpreter sets back one
field after the other and copies the glyphs and the program into place, and
comes to the same (`Board.load_ofMachine`).

## Main results

* `Machine.startsOn_of_accepted` — the state that an accepted load leaves.
* `Player.load_of_accepted`, `Player.load_of_refused` — the same for a player.
* `load_erases_history` — loads on two machines with different histories.
-/

namespace Chip8

/-- Programs of one up to 3583 bytes can be loaded. -/
theorem isProgramSize_iff {size : Nat} : isProgramSize size = true ↔ 1 ≤ size ∧ size ≤ 3583 := by
  rw [isProgramSize, Bool.and_eq_true, decide_eq_true_iff, decide_eq_true_iff]
  rfl

namespace Machine

/-- A machine as it was when switched on, but for the program in its memory, and with the settings
and the random source that another machine has. -/
structure StartsOn (program : List UInt8) (before start : Machine) : Prop where
  fresh : start = { Machine.new before.conf before.random with
    cpu := { Cpu.powerOn with memory := start.cpu.memory }, hasProgram := true }
  font : start.cpu.memory.HoldsFont
  cells : ∀ a, 0x050 ≤ a → a < 0x1000 → start.cpu.memory.read a =
    if 0x200 ≤ a then program.getD (a - 0x200) 0 else 0

variable {program : List UInt8} {m n : Machine}

theorem startsOn_of_accepted (hSize : isProgramSize program.length = true) (m : Machine) :
    m.StartsOn program (m.load program).state := by
  rw [load_of_accepted hSize]
  exact
    { fresh := rfl
      font := Memory.holdsFont_ofProgram program
      cells := fun a hAbove hCell => Memory.read_ofProgram_above hAbove hCell program }

/-- What is loaded over does not matter. -/
theorem load_congr (hSize : isProgramSize program.length = true) (hConf : m.conf = n.conf)
    (hRandom : m.random = n.random) : m.load program = n.load program := by
  rw [load_of_accepted hSize, load_of_accepted hSize, hConf, hRandom]

end Machine

namespace Player

variable {program : List UInt8}

/-- A player starts over with blank devices at frame zero, and goes on in its script. -/
theorem load_of_accepted (hSize : isProgramSize program.length = true) (p : Player) :
    (p.load program).result = .ok () ∧
      (p.load program).state =
        { console :=
            { machine := (p.console.machine.load program).state
              devices := { display := .blank, keys := .released, tone := none } }
          script := p.script
          frame := 0 } := by
  rw [load, Machine.load_of_accepted hSize]
  exact ⟨rfl, rfl⟩

theorem load_of_refused (hSize : ¬ isProgramSize program.length = true) (p : Player) :
    (p.load program).result = .error (.invalidProgram program.length) ∧
      (p.load program).state = p := by
  rw [load, Machine.load_of_refused hSize]
  exact ⟨rfl, rfl⟩

theorem size_of_loaded {p : Player} (hLoad : (p.load program).result = .ok ()) :
    isProgramSize program.length = true := by
  by_cases hSize : isProgramSize program.length = true
  · exact hSize
  · rw [(load_of_refused hSize p).1] at hLoad
    cases hLoad

theorem machine_of_loaded {p : Player} (hLoad : (p.load program).result = .ok ()) :
    (p.load program).state.console.machine =
      { p.console.machine with cpu := .loaded program, hasProgram := true, trap := none } := by
  have hSize := size_of_loaded hLoad
  rw [(load_of_accepted hSize p).2, Machine.load_of_accepted hSize]

end Player

/-- **Loading erases history, and is atomic.**  Of two machines with the same settings and the same
random source, whatever ran on them before: a program of one up to 3583 bytes is accepted and
starts on a machine as it was when switched on, and from then on both behave the same under all
that is done to them, also when the fields are set back one by one in place. Any other program is
refused and changes nothing. A player starts over with blank devices at frame zero and goes on in
its script; it too is left as it was by a program that is refused. -/
theorem load_erases_history {m n : Machine} (hConf : m.conf = n.conf)
    (hRandom : m.random = n.random) (program : List UInt8) :
    (1 ≤ program.length ∧ program.length ≤ 3583 →
      (m.load program).result = .ok () ∧
      m.StartsOn program (m.load program).state ∧
      (∀ {δ : Type} [Devices δ] (devices : δ) (later : List Operation),
        (Console.mk m devices).applyAll (.load program :: later) =
          (Console.mk n devices).applyAll (.load program :: later)) ∧
      (∀ {ε : Type} [CheckedDevices ε] (devices : ε) (later : List Operation),
        Wired.applyAll (.load program :: later) ⟨.ofMachine m, devices⟩ =
          Wired.applyAll (.load program :: later) ⟨.ofMachine n, devices⟩) ∧
      ∀ p : Player, p.console.machine = m →
        (p.load program).result = .ok () ∧
        (p.load program).state =
          { console :=
              { machine := (m.load program).state
                devices := { display := .blank, keys := .released, tone := none } }
            script := p.script
            frame := 0 }) ∧
    (¬ (1 ≤ program.length ∧ program.length ≤ 3583) →
      (m.load program).result = .error (.invalidProgram program.length) ∧
      (m.load program).state = m ∧
      (Board.ofMachine m).load program =
        .ok (.error (.invalidProgram program.length), .ofMachine m) ∧
      ∀ p : Player,
        (p.load program).result = .error (.invalidProgram program.length) ∧
        (p.load program).state = p) := by
  rw [← isProgramSize_iff]
  constructor
  · intro hSize
    have hLoad := Machine.load_congr hSize hConf hRandom
    refine ⟨by rw [Machine.load_of_accepted hSize], Machine.startsOn_of_accepted hSize m,
      ?_, ?_, ?_⟩
    · intro δ _ devices later
      simp only [Console.applyAll, Console.apply, hLoad]
      rfl
    · intro ε _ devices later
      have hBoard : (Board.ofMachine m).load program = (Board.ofMachine n).load program := by
        rw [Board.load_ofMachine, Board.load_ofMachine, hLoad]
      simp only [Wired.applyAll, Wired.apply, hBoard]
    · rintro p rfl
      exact Player.load_of_accepted hSize p
  · intro hSize
    refine ⟨by rw [Machine.load_of_refused hSize], by rw [Machine.load_of_refused hSize], ?_,
      Player.load_of_refused hSize⟩
    rw [Board.load_ofMachine, Machine.load_of_refused hSize]

/-- A machine that waits for a key in a subroutine, beside one that was just switched on. -/
theorem load_erases_history_of_wait :
    let used : Console Headless := (Console.mk (.new {} (.cycling [3])) {}).afterAll
      [.load [0x12, 0x00], .execute 0x2345, .execute 0x6A07, .execute 0xF50A]
    let new : Machine := .new {} (.cycling [3])
    used.machine.cpu.wait = some 5 ∧ used.machine.cpu.stack.depth = 1 ∧
    (used.machine.load [0x00, 0xE0]).result = .ok () ∧
    (∀ later : List Operation,
      (Console.mk used.machine ({} : Headless)).applyAll (.load [0x00, 0xE0] :: later) =
        (Console.mk new {}).applyAll (.load [0x00, 0xE0] :: later)) ∧
    (used.machine.load []).result = .error (.invalidProgram 0) ∧
    (used.machine.load []).state = used.machine := by
  intro used new
  have hHistory (program : List UInt8) :=
    load_erases_history (m := used.machine) (n := new) rfl rfl program
  obtain ⟨hAccepted, -, hLater, -⟩ := (hHistory [0x00, 0xE0]).1 (by decide)
  obtain ⟨hRefused, hSame, -⟩ := (hHistory []).2 (by decide)
  exact ⟨rfl, rfl, hAccepted, hLater ({} : Headless), hRefused, hSame⟩

end Chip8
