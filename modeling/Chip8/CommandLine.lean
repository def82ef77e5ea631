import Chip8.CommandLine.Help
import Chip8.Listing
import Chip8.Period
import Chip8.Settings

/-!
# The command line

From the words of a command line, and the contents of the files it names, to
what is printed and the exit code. Running a program prints its report also
when the machine halted on a fault; nothing is printed when the settings or
the program could not be loaded. What the command line says wins over the
settings file.
-/

namespace Chip8.CommandLine

/-- Frames to play when nothing says how many. -/
def defaultFrames : Nat := 600

/-- Frames in a second. -/
def frameFrequency : Nat := 60

/-- The contents of files by name. -/
abbrev Files := String → Option ByteArray

/-- Why a request could not be met. -/
inductive Failure where
  | unreadable (path : String)
  | invalidSettings (path : String)
  | fault (cause : Fault)

/-- The text shown for a failure. -/
def Failure.message : Failure → String
  | .unreadable path => "application error: cannot read " ++ path
  | .invalidSettings path => "application error: config: invalid settings in " ++ path
  | .fault cause => "application error: " ++ cause.message

/-- What a command line came to. -/
structure Finished where
  exitCode : Nat := 0
  /-- What is printed. -/
  output : String := ""
  /-- What is said about the run on the side, line by line. -/
  log : List String := []
  /-- How long the run is meant to take, in nanoseconds. -/
  duration : Nat := 0

/-- End with a failure. -/
def Finished.failed (failure : Failure) : Finished :=
  { exitCode := 1, log := [failure.message] }

/-- The files a request needs. -/
def Request.paths : Request → List String
  | .run options => options.config.toList ++ [options.rom]
  | .dis rom => [rom]
  | .help _ => []
  | .version => []

/-- The settings in a file. -/
def readSettings (files : Files) (path : String) : Except Failure Settings :=
  match (files path).bind String.fromUTF8? with
  | none => .error (.unreadable path)
  | some text =>
      match Settings.ofText? text with
      | none => .error (.invalidSettings path)
      | some settings => .ok settings

/-- The bytes of a program file. -/
def readProgram (files : Files) (path : String) : Except Failure (List UInt8) :=
  match files path with
  | none => .error (.unreadable path)
  | some bytes => .ok bytes.toList

/-- The settings with what the command line says put over them. -/
def override (options : RunOptions) (settings : Settings) : Settings :=
  { settings with
    conf := { settings.conf with
      speed := options.speed.getD settings.conf.speed
      seed := (options.seed.map UInt64.ofNat).or settings.conf.seed }
    frames := some ((options.frames.or settings.frames).getD defaultFrames) }

/-- The settings to run under. -/
def settingsOf (files : Files) (options : RunOptions) : Except Failure Settings :=
  match options.config with
  | none => .ok (override options {})
  | some path => (readSettings files path).map (override options)

/-- What a player that stopped leaves to be printed. -/
def finishRun (realtime : Bool) (o : Outcome Player Unit) : Finished :=
  let lines := o.records.toList.map Record.line
  let finished : Finished :=
    { output := o.state.report ++ "\n"
      duration :=
        if realtime then o.state.frame * (Period.ofHertz frameFrequency).toNanoseconds else 0 }
  match o.result with
  | .ok _ => { finished with log := lines }
  | .error fault =>
      { finished with exitCode := 1, log := lines ++ [(Failure.fault fault).message] }

/-- Run a program. -/
def runProgram (files : Files) (entropy : UInt64) (options : RunOptions) :
    Except Failure Finished := do
  let settings ← settingsOf files options
  let program ← readProgram files options.rom
  let player := Player.new (Machine.seeded settings.conf entropy) settings.keys
  let loaded := player.load program
  match loaded.result with
  | .error fault => throw (.fault fault)
  | .ok _ =>
      return finishRun options.realtime
        (loaded.state.play (settings.frames.getD defaultFrames) Record.isNotable)

/-- List a program. -/
def listProgram (files : Files) (path : String) : Except Failure Finished :=
  (readProgram files path).map fun program => { output := Listing.ofProgram program }

/-- Meet a request. The seed of the random source is `entropy` when nothing fixes it. -/
def Request.meet (files : Files) (entropy : UInt64) (request : Request) : Finished :=
  let finished : Except Failure Finished :=
    match request with
    | .run options => runProgram files entropy options
    | .dis rom => listProgram files rom
    | .help topic => .ok { output := topic.text }
    | .version => .ok { output := versionText }
  match finished with
  | .ok finished => finished
  | .error failure => .failed failure

/-- Do what the words of a command line ask for. -/
def run (files : Files) (entropy : UInt64) (words : List String) : Finished :=
  match Request.ofWords words with
  | .ok request => request.meet files entropy
  | .error e => { exitCode := 2, log := ["error: " ++ e.message] }

end Chip8.CommandLine
