import Chip8.Numeral

/-!
# Arguments

What the words on the command line ask for. A program is either run or listed;
options may stand before and after the program, with their values attached or
in the next word, and short ones without a value may be run together. After
`--` every word is an argument.

Words are read from left to right, and the first that is wrong, or that asks
for help, settles the matter.
-/

namespace Chip8.CommandLine

/-! ## Requests -/

/-- The options that take a value. -/
inductive Setting where
  | config
  | frames
  | speed
  | seed
  deriving DecidableEq, Repr

/-- How a program is to be run. -/
structure RunOptions where
  rom : String
  config : Option String := none
  frames : Option Nat := none
  speed : Option Nat := none
  seed : Option Nat := none
  realtime : Bool := false
  deriving DecidableEq, Repr

/-- What help can be asked for. -/
inductive Topic where
  | overview
  | run
  | dis
  | help
  deriving DecidableEq, Repr

/-- What a command line asks for. -/
inductive Request where
  | run (options : RunOptions)
  | dis (rom : String)
  | help (topic : Topic)
  | version
  deriving DecidableEq, Repr

/-- What can be wrong with a command line. -/
inductive UsageError where
  | missingCommand
  | unknownCommand (name : String)
  | unknownOption (word : String)
  | extraArgument (word : String)
  | missingValue (setting : Setting)
  | needlessValue (word : String)
  | invalidNumber (setting : Setting) (text : String)
  | repeatedSetting (setting : Setting)
  | repeatedRealtime
  | missingRom
  deriving DecidableEq, Repr

/-- The long name of an option that takes a value. -/
def Setting.name : Setting → String
  | .config => "--config"
  | .frames => "--frames"
  | .speed => "--speed"
  | .seed => "--seed"

/-- The text shown for a wrong command line. -/
def UsageError.message : UsageError → String
  | .missingCommand => "a command is required"
  | .unknownCommand name => "unrecognized command: " ++ name
  | .unknownOption word => "unexpected option: " ++ word
  | .extraArgument word => "unexpected argument: " ++ word
  | .missingValue setting => "a value is required for " ++ setting.name
  | .needlessValue word => "no value is expected: " ++ word
  | .invalidNumber setting text => "invalid number for " ++ setting.name ++ ": " ++ text
  | .repeatedSetting setting => setting.name ++ " cannot be used more than once"
  | .repeatedRealtime => "--realtime cannot be used more than once"
  | .missingRom => "a ROM file is required"

/-! ## Options -/

/-- What an option does. -/
inductive Effect where
  | takes (setting : Setting)
  | realtime
  | help
  deriving DecidableEq, Repr

/-- The options of a command, by long and by short name. -/
structure Grammar where
  long? : String → Option Effect
  short? : Char → Option Effect

/-- The options of running a program. -/
def runGrammar : Grammar where
  long? name :=
    match name with
    | "config" => some (.takes .config)
    | "frames" => some (.takes .frames)
    | "speed" => some (.takes .speed)
    | "seed" => some (.takes .seed)
    | "realtime" => some .realtime
    | "help" => some .help
    | _ => none
  short? c :=
    match c with
    | 'c' => some (.takes .config)
    | 'f' => some (.takes .frames)
    | 's' => some (.takes .speed)
    | 'r' => some .realtime
    | 'h' => some .help
    | _ => none

/-- The options of listing a program. -/
def disGrammar : Grammar where
  long? name := if name == "help" then some .help else none
  short? c := if c == 'h' then some .help else none

/-! ## Reading words -/

/-- What the words read so far come to. -/
structure Digest where
  rom : Option String := none
  config : Option String := none
  frames : Option Nat := none
  speed : Option Nat := none
  seed : Option Nat := none
  realtime : Bool := false
  /-- An option whose value is the next word. -/
  pending : Option Setting := none
  /-- Help was asked for. -/
  wantsHelp : Bool := false

namespace Digest

/-- A number that was given for an option. -/
def number (setting : Setting) (text : String) : Except UsageError Nat :=
  match Numeral.word? text.toList with
  | some n => .ok n
  | none => .error (.invalidNumber setting text)

/-- Whether an option was given already. -/
def has (setting : Setting) (d : Digest) : Bool :=
  match setting with
  | .config => d.config.isSome
  | .frames => d.frames.isSome
  | .speed => d.speed.isSome
  | .seed => d.seed.isSome

/-- Take the value of an option. -/
def put (setting : Setting) (text : String) (d : Digest) : Except UsageError Digest :=
  if d.has setting then .error (.repeatedSetting setting)
  else
    match setting with
    | .config => .ok { d with config := some text }
    | .frames => (number setting text).map fun n => { d with frames := some n }
    | .speed => (number setting text).map fun n => { d with speed := some n }
    | .seed => (number setting text).map fun n => { d with seed := some n }

/-- Take a word that is no option. -/
def putRom (word : String) (d : Digest) : Except UsageError Digest :=
  match d.rom with
  | none => .ok { d with rom := some word }
  | some _ => .error (.extraArgument word)

/-- Take an option that has no value. -/
def turnOnRealtime (d : Digest) : Except UsageError Digest :=
  if d.realtime then .error .repeatedRealtime else .ok { d with realtime := true }

end Digest

/-- The value attached to a short option: an equals sign in front does not belong to it. -/
def attachedValue : List Char → String
  | '=' :: cs => String.ofList cs
  | cs => String.ofList cs

/-- Read short options that are run together. -/
def readShort (g : Grammar) (word : String) : List Char → Digest → Except UsageError Digest
  | [], d => .ok d
  | c :: cs, d =>
      match g.short? c with
      | none => .error (.unknownOption word)
      | some .help => .ok { d with wantsHelp := true }
      | some .realtime =>
          match d.turnOnRealtime with
          | .ok d => readShort g word cs d
          | .error e => .error e
      | some (.takes setting) =>
          if cs.isEmpty then .ok { d with pending := some setting }
          else d.put setting (attachedValue cs)

/-- Read a long option, whose value may follow an equals sign. -/
def readLong (g : Grammar) (word : String) (cs : List Char) (d : Digest) :
    Except UsageError Digest :=
  let name := String.ofList (cs.takeWhile (· != '='))
  match g.long? name, cs.dropWhile (· != '=') with
  | none, _ => .error (.unknownOption word)
  | some (.takes setting), _ :: value => d.put setting (String.ofList value)
  | some (.takes setting), [] => .ok { d with pending := some setting }
  | some _, _ :: _ => .error (.needlessValue word)
  | some .realtime, [] => d.turnOnRealtime
  | some .help, [] => .ok { d with wantsHelp := true }

/-- Read a word that stands for itself, as the value that is awaited or as the program. -/
def readPlain (word : String) (d : Digest) : Except UsageError Digest :=
  match d.pending with
  | some setting => { d with pending := none }.put setting word
  | none => d.putRom word

/-- Read an option, which must not stand where a value is awaited. -/
def readOption (read : Digest → Except UsageError Digest) (d : Digest) : Except UsageError Digest :=
  match d.pending with
  | some setting => .error (.missingValue setting)
  | none => read d

/-- Read one word. -/
def readWord (g : Grammar) (word : String) (d : Digest) : Except UsageError Digest :=
  match word.toList with
  | '-' :: '-' :: cs => readOption (readLong g word cs) d
  | '-' :: c :: cs => readOption (readShort g word (c :: cs)) d
  | _ => readPlain word d

/-- Read words that all stand for themselves. -/
def readRest : List String → Digest → Except UsageError Digest
  | [], d => .ok d
  | word :: words, d =>
      match d.putRom word with
      | .ok d => readRest words d
      | .error e => .error e

/-- Read the words behind a command. -/
def readWords (g : Grammar) : List String → Digest → Except UsageError Digest
  | [], d =>
      match d.pending with
      | some setting => .error (.missingValue setting)
      | none => .ok d
  | word :: words, d =>
      if d.wantsHelp then .ok d
      else if word == "--" then readOption (readRest words) d
      else
        match readWord g word d with
        | .ok d => readWords g words d
        | .error e => .error e

/-! ## Commands -/

/-- A request to run a program, from the words behind the command. -/
def runRequest (words : List String) : Except UsageError Request :=
  match readWords runGrammar words {} with
  | .error e => .error e
  | .ok d =>
      if d.wantsHelp then .ok (.help .run)
      else
        match d.rom with
        | none => .error .missingRom
        | some rom =>
            .ok (.run {
              rom, config := d.config, frames := d.frames, speed := d.speed, seed := d.seed
              realtime := d.realtime })

/-- A request to list a program, from the words behind the command. -/
def disRequest (words : List String) : Except UsageError Request :=
  match readWords disGrammar words {} with
  | .error e => .error e
  | .ok d =>
      if d.wantsHelp then .ok (.help .dis)
      else
        match d.rom with
        | none => .error .missingRom
        | some rom => .ok (.dis rom)

/-- A request for help, from the words behind the command. -/
def helpRequest : List String → Except UsageError Request
  | [] => .ok (.help .overview)
  | ["run"] => .ok (.help .run)
  | ["dis"] => .ok (.help .dis)
  | ["help"] => .ok (.help .help)
  | "run" :: name :: _ => .error (.unknownCommand name)
  | "dis" :: name :: _ => .error (.unknownCommand name)
  | "help" :: name :: _ => .error (.unknownCommand name)
  | name :: _ => .error (.unknownCommand name)

/-- What the words of a command line ask for. -/
def Request.ofWords : List String → Except UsageError Request
  | [] => .error .missingCommand
  | "run" :: words => runRequest words
  | "dis" :: words => disRequest words
  | "help" :: words => helpRequest words
  | word :: _ =>
      match word.toList with
      | ['-', '-'] => .error .missingCommand
      | '-' :: 'h' :: _ => .ok (.help .overview)
      | '-' :: 'V' :: _ => .ok .version
      | '-' :: '-' :: _ =>
          if word == "--help" then .ok (.help .overview)
          else if word == "--version" then .ok .version
          else .error (.unknownOption word)
      | '-' :: _ :: _ => .error (.unknownOption word)
      | _ => .error (.unknownCommand word)

end Chip8.CommandLine
