import Chip8.CommandLine.Arguments

/-!
# Help texts

What the program says about itself when it is asked to.
-/

namespace Chip8.CommandLine

/-- The text on a topic. -/
def Topic.text : Topic → String
  | .overview =>
      "Headless Chip-8 interpreter\n\n" ++
      "Usage: chip8 <COMMAND>\n\n" ++
      "Commands:\n" ++
      "  run   Run the target ROM file\n" ++
      "  dis   Disassemble the target ROM into readable assembly\n" ++
      "  help  Print this message or the help of the given subcommand(s)\n\n" ++
      "Options:\n" ++
      "  -h, --help     Print help\n" ++
      "  -V, --version  Print version\n"
  | .run =>
      "Run the target ROM file\n\n" ++
      "Usage: chip8 run [OPTIONS] <ROM>\n\n" ++
      "Arguments:\n" ++
      "  <ROM>  Path to the ROM file\n\n" ++
      "Options:\n" ++
      "  -c, --config <CONFIG>  YAML file with VM settings and scripted key events\n" ++
      "  -f, --frames <FRAMES>  Number of 60 Hz frames to run\n" ++
      "  -s, --speed <SPEED>    Instructions executed per frame\n" ++
      "      --seed <SEED>      Seed for the random number generator\n" ++
      "  -r, --realtime         Pace frames to wall clock time\n" ++
      "  -h, --help             Print help\n"
  | .dis =>
      "Disassemble the target ROM into readable assembly\n\n" ++
      "Usage: chip8 dis <ROM>\n\n" ++
      "Arguments:\n" ++
      "  <ROM>  Path to the ROM file\n\n" ++
      "Options:\n" ++
      "  -h, --help  Print help\n"
  | .help =>
      "Print this message or the help of the given subcommand(s)\n\n" ++
      "Usage: chip8 help [COMMAND]...\n\n" ++
      "Arguments:\n" ++
      "  [COMMAND]...  Print help for the subcommand(s)\n"

/-- The name and the version of the program. -/
def versionText : String := "chip8-cpu-cli 0.1.0\n"

end Chip8.CommandLine
