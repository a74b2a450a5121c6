import SuiteOutline.Number.Integer
import SuiteOutline.Text.Affix

/-! Command-line arguments: options of one or two dashes, words, and a divider after which all are
words. -/
namespace SuiteOutline.CommandLine

/-- An option, by its spellings, and whether a word belongs to it. -/
structure OptionSpec (α : Type) where
  names : List String
  takesWord : Bool
  meaning : α
deriving Repr

/-- An argument as a set of options reads it. -/
inductive Token (α : Type) where
  /-- An option, whether its spelling has two dashes, and the text attached to it. -/
  | option (spec : OptionSpec α) (long : Bool) (attached : Option (List Char))
  | unknown (text : String)
  | word (text : String)
  | divider
deriving Repr

/-- How a command line can fail to be one, or ask for help. -/
inductive Refusal where
  | help
  | misused
deriving Repr, DecidableEq

/-- Splits at the first equals sign. -/
def splitAttached (arg : String) : String × Option (List Char) :=
  match arg.toList.span (· != '=') with
  | (name, _ :: attached) => (String.ofList name, some attached)
  | (name, []) => (String.ofList name, none)

/-- Digits with an optional fraction after a minus sign. -/
def looksNegative (arg : String) : Bool :=
  match arg.toList with
  | '-' :: cs =>
    let isDigit (c : Char) : Bool := (decimalDigit? c).isSome
    match cs.dropWhile isDigit with
    | [] => !cs.isEmpty
    | '.' :: fraction => !fraction.isEmpty && fraction.all isDigit
    | _ => false
  | _ => false

section
variable {α : Type}

/-- The options under their spellings, in order. -/
def spellings (specs : List (OptionSpec α)) : List (String × OptionSpec α) :=
  specs.flatMap fun s => s.names.map (·, s)

/-- The options that an argument may abbreviate, or whose single letter it begins with. -/
def candidates (specs : List (OptionSpec α)) (arg : String) : List (Token α) :=
  if beginsWith "--" arg then
    let (head, attached) := splitAttached arg
    ((spellings specs).filter (beginsWith head ·.1)).map fun (_, s) => .option s true attached
  else
    let letter := String.ofList (arg.toList.take 2)
    (spellings specs).filterMap fun (n, s) =>
      if n = letter then some (.option s false (some (arg.toList.drop 2)))
      else if beginsWith arg n then some (.option s false none)
      else none

/-- Reads one argument in front of the divider. An ambiguous abbreviation is refused. -/
def token (specs : List (OptionSpec α)) (arg : String) : Except Refusal (Token α) :=
  if !beginsWith "-" arg || arg = "-" then .ok (.word arg)
  else
    let (name, attached) := splitAttached arg
    match (spellings specs).lookup name with
    | some s => .ok (.option s (beginsWith "--" name) attached)
    | none =>
      match candidates specs arg with
      | _ :: _ :: _ => .error .misused
      | [t] => .ok t
      | [] => .ok (if looksNegative arg || arg.toList.contains ' ' then .word arg else .unknown arg)

/-- Reads arguments; after the first divider all are words. -/
def tokens (specs : List (OptionSpec α)) : List String → Except Refusal (List (Token α))
  | [] => .ok []
  | arg :: args =>
    if arg = "--" then .ok (.divider :: args.map .word)
    else do return (← token specs arg) :: (← tokens specs args)

/-- What an argument that begins with an option stands for. -/
structure Bundle (α : Type) where
  options : List (OptionSpec α)
  /-- The word attached to the last option. -/
  word : Option String
deriving Repr

/-- Letters attached to a one-letter option are options as well, up to one that takes the rest for
its word. -/
def bundleLetters (specs : List (OptionSpec α)) (spec : OptionSpec α) :
    List Char → Except Refusal (Bundle α)
  | [] => .ok ⟨[spec], none⟩
  | c :: cs =>
    if spec.takesWord then .ok ⟨[spec], some (String.ofList (c :: cs))⟩
    else match (spellings specs).lookup (String.ofList ['-', c]) with
      | none => .error .misused
      | some s => do
        let rest ← bundleLetters specs s cs
        return { rest with options := spec :: rest.options }

/-- The options that one argument stands for. Only an option that takes a word may have an empty
text attached, or any text if it has two dashes. -/
def bundle (specs : List (OptionSpec α)) (spec : OptionSpec α) (long : Bool) :
    Option (List Char) → Except Refusal (Bundle α)
  | none => .ok ⟨[spec], none⟩
  | some text =>
    if spec.takesWord then .ok ⟨[spec], some (String.ofList text)⟩
    else if long || text.isEmpty then .error .misused
    else bundleLetters specs spec text

end
end SuiteOutline.CommandLine
