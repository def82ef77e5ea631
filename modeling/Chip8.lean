import Chip8.Console.Operation
import Chip8.Main
import Chip8.Proofs.Aliasing
import Chip8.Proofs.Execution
import Chip8.Proofs.FontIntegrity
import Chip8.Proofs.Board.Checked
import Chip8.Proofs.Board.Interpreter
import Chip8.Proofs.Board.Agreement
import Chip8.Proofs.CrashFreedom
import Chip8.Proofs.Trap
import Chip8.Proofs.Atomicity
import Chip8.Proofs.Refusal
import Chip8.Proofs.Wakeup
import Chip8.Proofs.Playback
import Chip8.Proofs.Driving
import Chip8.Proofs.Pacing
import Chip8.Proofs.Loading
import Chip8.Proofs.Assembly
import Chip8.Proofs.Decoding
import Chip8.Proofs.Subroutine
import Chip8.Proofs.ListingText
import Chip8.Proofs.Composition
import Chip8.Proofs.FrameWait
import Chip8.Proofs.Randomness
import Chip8.Proofs.Exchange
import Chip8.Proofs.Journal
import Chip8.Proofs.UnreadKeys
import Chip8.Proofs.Buzzer
import Chip8.Proofs.Drawing
import Chip8.Proofs.BlockStore
import Chip8.Proofs.BlockRoundTrip
import Chip8.Proofs.Overlay
import Chip8.Proofs.Arithmetic
import Chip8.Proofs.Effects
import Chip8.Proofs.Timers
import Chip8.Proofs.Bitmap
import Chip8.Proofs.Layout.Sheet
import Chip8.Proofs.Layout.Lexing
import Chip8.Proofs.Layout.Parsing
import Chip8.Proofs.SettingsText
import Chip8.Proofs.BoundedList
import Chip8.Proofs.SkipPairs
import Chip8.Proofs.ReportText
