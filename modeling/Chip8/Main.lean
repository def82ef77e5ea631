import Chip8.CommandLine

/-!
# The program

Reads the files a command line names, does what it asks for, and prints the
result. All decisions are made in `Chip8.CommandLine`.
-/

namespace Chip8.CommandLine

/-- The contents of a file, if it can be read. -/
def readFile? (path : String) : IO (Option ByteArray) := do
  try
    return some (← IO.FS.readBinFile path)
  catch _ =>
    return none

/-- The contents of those of the files that can be read. -/
def readFiles : List String → IO (List (String × ByteArray))
  | [] => return []
  | path :: rest => do
    let files ← readFiles rest
    match ← readFile? path with
    | some bytes => return (path, bytes) :: files
    | none => return files

/-- A seed that nothing fixes. -/
def freshSeed : IO UInt64 := do
  let bytes ← IO.getRandomBytes 8
  return bytes.toList.foldl (fun acc byte => acc * 256 + byte.toUInt64) 0

end Chip8.CommandLine

open Chip8.CommandLine in
/-- Do what the command line asks for. -/
def main (args : List String) : IO UInt32 := do
  let start ← IO.monoNanosNow
  let paths :=
    match Request.ofWords args with
    | .ok request => request.paths
    | .error _ => []
  let files ← readFiles paths
  let finished := Chip8.CommandLine.run (fun path => files.lookup path) (← freshSeed) args
  let elapsed := (← IO.monoNanosNow) - start
  IO.sleep ((finished.duration - elapsed) / 1000000).toUInt32
  let err ← IO.getStderr
  for line in finished.log do
    err.putStrLn line
  IO.print finished.output
  return finished.exitCode.toUInt32
