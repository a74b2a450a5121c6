import SuiteOutline.CommandLine.Run
import SuiteOutline.Files.Snapshot
import SuiteOutline.Settings.Read

/-! The program: the working directory comes on standard input as a snapshot, settings from the
environment and from the directory's `.env` file. -/
open SuiteOutline

/-- All lines of a stream, without their line feeds. -/
partial def linesOf (stream : IO.FS.Stream) : IO (List String) := do
  let line ← stream.getLine
  if line.isEmpty then return []
  let rest ← linesOf stream
  return (if endsWith "\n" line then dropLast 1 line else line) :: rest

/-- The settings that the environment makes. -/
def environment : IO (List (String × String)) :=
  SettingSpec.all.filterMapM fun s => do return (← IO.getEnv s.name).map (s.name, ·)

def main (args : List String) : IO UInt32 := do
  match Snapshot.read? (← linesOf (← IO.getStdin)) with
  | none =>
    IO.eprintln "ERROR: standard input is no snapshot of a working directory"
    return 1
  | some disk =>
    let file := (disk.textOf ".env").toOption.getD []
    match Settings.read (← environment) (String.ofList file) with
    | .error e =>
      IO.eprintln s!"ERROR: {e.message}"
      return 1
    | .ok settings =>
      match CommandLine.run settings .worker disk args with
      | .error e =>
        IO.eprintln s!"ERROR: {e.describe}"
        return 1
      | .ok output =>
        IO.print output.stdout
        IO.eprint output.stderr
        return output.exit.toUInt32
