import SuiteOutline.CommandLine.Arguments

/-! Invocations: what a command line asks for. -/
namespace SuiteOutline.CommandLine

inductive Command where
  | dump (scenarios noInner : Bool) (paths : List String)
  | find (name : String) (paths : List String)
deriving Repr, DecidableEq

structure Invocation where
  verbose : Bool
  workers : Option Int
  command : Command
deriving Repr, DecidableEq

inductive MainOption where
  | help | verbose | workers
deriving Repr, DecidableEq

def mainOptions : List (OptionSpec MainOption) :=
  [⟨["-h", "--help"], false, .help⟩, ⟨["--verbose", "-v"], false, .verbose⟩,
   ⟨["--workers"], true, .workers⟩]

inductive CommandOption where
  | help | scenarios | noNested
deriving Repr, DecidableEq

def helpOption : OptionSpec CommandOption := ⟨["-h", "--help"], false, .help⟩

def dumpOptions : List (OptionSpec CommandOption) :=
  [helpOption, ⟨["--scenarios"], false, .scenarios⟩, ⟨["--no-nested"], false, .noNested⟩]

def findOptions : List (OptionSpec CommandOption) := [helpOption]

/-- What has been read of a command's arguments. -/
structure Reading where
  /-- Whether a name comes in front of the paths. -/
  named : Bool
  name : Option String
  paths : Option (List String)
  scenarios : Bool
  noNested : Bool
  /-- Whether some argument found no place. -/
  surplus : Bool
deriving Repr

/-- A run of words, at most one of which is really the divider. -/
abbrev Run := List (Bool × String)

/-- The words of a run; the first that looks like the divider is taken for it. -/
def Run.words (run : Run) : List String := (run.map (·.2)).erase "--"

/-- Splits off the first word together with a divider right before or after it. -/
def Run.splitFirst (run : Run) : Run × Run :=
  let dividers := run.takeWhile (·.1)
  let rest := run.drop dividers.length
  let after := (rest.drop 1).takeWhile (·.1)
  (dividers ++ rest.take 1 ++ after, (rest.drop 1).drop after.length)

/-- Gives the words of a run to what is still to be read. -/
def Reading.take (r : Reading) (run : Run) : Reading :=
  if run.isEmpty then r
  else if r.paths.isSome || run.all (·.1) then { r with surplus := true }
  else if r.named && r.name.isNone then
    let (first, rest) := run.splitFirst
    let r := { r with name := first.words.head? }
    if rest.all (·.1) then r else { r with paths := some rest.words }
  else { r with paths := some run.words }

/-- Takes in the options that one argument stands for. -/
def Reading.apply (r : Reading) : List (OptionSpec CommandOption) → Except Refusal Reading
  | [] => .ok r
  | s :: ss =>
    match s.meaning with
    | .help => .error .help
    | .scenarios => { r with scenarios := true }.apply ss
    | .noNested => { r with noNested := true }.apply ss

/-- Reads a command's arguments from left to right; `run` holds the words since the last option. -/
def Reading.ofTokens (specs : List (OptionSpec CommandOption)) (r : Reading) (run : Run) :
    List (Token CommandOption) → Except Refusal Reading
  | [] => .ok (r.take run)
  | .word w :: ts => ofTokens specs r (run ++ [(false, w)]) ts
  | .divider :: ts => ofTokens specs r (run ++ [(true, "--")]) ts
  | .unknown _ :: ts => ofTokens specs { r.take run with surplus := true } [] ts
  | .option s long attached :: ts => do
    let meant ← bundle specs s long attached
    ofTokens specs (← (r.take run).apply meant.options) [] ts

/-- Reads a command and its arguments; also tells whether some argument found no place. -/
def readCommand (word : String) (args : List String) : Except Refusal (Command × Bool) := do
  let start (named : Bool) : Reading := ⟨named, none, none, false, false, false⟩
  if word = "dump" then
    let r ← Reading.ofTokens dumpOptions (start false) [] (← tokens dumpOptions args)
    match r.paths with
    | some paths => return (.dump r.scenarios r.noNested paths, r.surplus)
    | none => throw .misused
  else if word = "find" then
    let r ← Reading.ofTokens findOptions (start true) [] (← tokens findOptions args)
    match r.name, r.paths with
    | some name, some paths => return (.find name paths, r.surplus)
    | _, _ => throw .misused
  else throw .misused

/-- Settings made in front of the command. -/
structure Preamble where
  verbose : Bool
  workers : Option Int
  surplus : Bool
deriving Repr

/-- Takes in the options that one argument stands for, and the word that the last may need. -/
def Preamble.apply (p : Preamble) (word : Option String) :
    List (OptionSpec MainOption) → Except Refusal Preamble
  | [] => .ok p
  | s :: ss =>
    match s.meaning with
    | .help => .error .help
    | .verbose => { p with verbose := true }.apply word ss
    | .workers =>
      match word.bind fun w => readInteger? (.base 10) w.toList with
      | some n => { p with workers := some n }.apply word ss
      | none => .error .misused

/-- Reads arguments from left to right. The first word is the command, and takes all that follow. -/
def readFrom (p : Preamble) : List (String × Token MainOption) → Except Refusal (Option Invocation)
  | [] => if p.surplus then .error .misused else .ok none
  | (_, .word w) :: rest => do
    let (command, surplus) ← readCommand w (rest.map (·.1))
    if p.surplus || surplus then throw .misused
    return some ⟨p.verbose, p.workers, command⟩
  | (_, .divider) :: _ => .error .misused
  | (_, .unknown _) :: rest => readFrom { p with surplus := true } rest
  | (_, .option s long attached) :: rest => do
    let meant ← bundle mainOptions s long attached
    if meant.word.isNone && meant.options.any (·.takesWord) then
      match rest with
      | (_, .word w) :: rest => readFrom (← p.apply (some w) meant.options) rest
      | _ => throw .misused
    else readFrom (← p.apply meant.word meant.options) rest

/-- What a command line asks for; nothing, if it names no command. -/
def Invocation.read (args : List String) : Except Refusal (Option Invocation) := do
  readFrom ⟨false, none, false⟩ (args.zip (← tokens mainOptions args))

end SuiteOutline.CommandLine
