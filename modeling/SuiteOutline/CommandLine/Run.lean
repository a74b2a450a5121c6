import SuiteOutline.CommandLine.Invocation
import SuiteOutline.Document.Print
import SuiteOutline.Files.Disk
import SuiteOutline.Lookup
import SuiteOutline.Settings.Basic

/-! Running a command line: what is printed, and the exit code. -/
namespace SuiteOutline.CommandLine

structure Output where
  exit : Nat
  stdout : String
  stderr : String
deriving Repr, DecidableEq

def usage : String :=
  "usage: suite-outline [-h] [--verbose] [--workers N] (dump | find) ...\n\n" ++
  "  dump [--scenarios] [--no-nested] PATH ...   print the outlines of files as JSON\n" ++
  "  find COMMAND PATH ...                       show where a command is defined and used\n\n" ++
  "Directories stand for all scripts below them.\n"

/-- A syntax error with its line and a mark below the place. -/
def showFault (e : ParseFault) : String :=
  let arrow := String.ofList (List.replicate (e.column - 1).toNat ' ' ++ ['^'])
  let file := e.filename.getD "None"
  s!"Syntax Error : {e.message}\n\n{e.lineText}\n{arrow}\n\nat ({file}:{e.line}:{e.column})"

/-- Failures that are the input's are reported; others go on. -/
def report : Failure → Except Failure Output
  | .unparsed e => .ok ⟨1, "", showFault e ++ "\n"⟩
  | .commandName e =>
    let file := match e.filename with
      | none | some "" => "<unknown file>"
      | some name => name
    .ok ⟨1, "", s!"ERROR: {e.message} (at {file}, offset {e.location})\n"⟩
  | e => .error e

def printed (lines : List String) : Output := ⟨0, String.join (lines.map (· ++ "\n")), ""⟩

def dump (outlines : List (String × Outline)) : Except Failure Output := do
  let d : Document := .record (outlines.map fun (path, o) => (path, .ofOutline o))
  return printed [← d.print]

/-- Where a match stands, as path, line and column. -/
def showPlace (disk : Disk) (m : CommandMatch) : Except Failure String := do
  let text ← disk.textOf m.filename
  match Position.locate text m.span.start with
  | .ok p => return s!"{disk.fullPath m.filename}:{p.line}:{p.column}"
  | .error place => throw (.noPosition place)

def showDefinitions (disk : Disk) (name : String) (l : CommandLookup) :
    Except Failure (List String) :=
  match l.definitions with
  | [] => .ok [s!"Could not find where Cypress command \"{name}\" was defined!\n"]
  | ds => do
    let places ← ds.mapM (showPlace disk)
    let title := match ds with
      | [_] => s!"Found definition of Cypress command \"{name}\":"
      | _ => s!"Found MULTIPLE definitions of Cypress command \"{name}\":"
    return title :: places.map ("    at (" ++ · ++ ")") ++ [""]

def showUsages (disk : Disk) (v : Vocabulary) (name : String) (l : CommandLookup) :
    Except Failure (List String) :=
  match l.usages with
  | [] => .ok [s!"Cypress command \"{name}\" never used!\n"]
  | us => do
    let shown ← us.mapM fun u => do
      return ["  " ++ usageText v name u.chain, "        at (" ++ (← showPlace disk u) ++ ")"]
    return s!"Found {us.length} place(s) where {v.commandHead}{name} was used:" :: shown.flatten

/-- Where the command of that name is defined and used. -/
def find (disk : Disk) (v : Vocabulary) (name : String) (l : CommandLookup) :
    Except Failure Output :=
  match l.status with
  | .missing => .ok (printed ["", s!"Could not find definition or usage of \"{name}\".\n"])
  | _ => do
    return printed ("" :: (← showDefinitions disk name l) ++ (← showUsages disk v name l) ++ [""])

/-- The outlines of what the paths stand for, passed on to a printer. -/
def withOutlines (disk : Disk) (room : Room) (options : Options) (v : Vocabulary) (workers : Int)
    (paths : List String) (print : List (String × Outline) → Except Failure Output) :
    Except Failure Output :=
  match disk.resolve paths with
  | .error e => .ok ⟨1, "", s!"ERROR: {e.message}\n"⟩
  | .ok files =>
    match disk.outlines room options v workers files with
    | .error e => report e
    | .ok outlines => print outlines

/-- The parts of an outline in which commands are looked up. -/
def findingOptions : Options := { tests := false, hooks := false, inner := false }

/-- What a command line does, its workers outlining files with that room. -/
def run (settings : Settings) (room : Room) (disk : Disk) (args : List String) :
    Except Failure Output :=
  match Invocation.read args with
  | .error .help => .ok ⟨1, usage, ""⟩
  | .error .misused => .ok ⟨2, "", usage⟩
  | .ok none => .ok ⟨1, "", usage⟩
  | .ok (some i) =>
    let v := settings.vocabulary
    let workers := match i.workers with
      | none | some 0 => settings.maxWorkers
      | some n => n
    match i.command with
    | .dump scenarios noInner paths =>
      let options : Options :=
        { inner := settings.innerCalls && !noInner, scenarios := scenarios || settings.scenarios }
      withOutlines disk room options v workers paths dump
    | .find name paths =>
      withOutlines disk room findingOptions v workers paths fun outlines =>
        find disk v name (.ofOutlines (Text.ofString name) outlines)

end SuiteOutline.CommandLine
