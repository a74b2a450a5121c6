import SuiteOutline.Text.Position

/-! Why a text, a file or a run of files could not be outlined. -/
namespace SuiteOutline

/-- A place where the text is not JavaScript. Lines and columns count from one. -/
structure ParseFault where
  message : String
  line : Int
  column : Int
  filename : Option String
  lineText : String
deriving Repr, DecidableEq

/-- The message with its place; no name, or an empty one, is left out. -/
def ParseFault.describe (e : ParseFault) : String :=
  let file := match e.filename with
    | none | some "" => ""
    | some name => name ++ ":"
  s!"{e.message} ({file}{e.line}:{e.column})"

/-- A command registered under a name that is no string literal. -/
structure CommandNameFault where
  message : String
  location : Nat
  filename : Option String
deriving Repr, DecidableEq

inductive Failure where
  | unparsed (fault : ParseFault)
  | commandName (fault : CommandNameFault)
  /-- An integer has too many decimal digits to be written. -/
  | tooManyDigits
  /-- An escape sequence does not spell a code point. -/
  | badEscape
  /-- An object member has no value. -/
  | valueMissing
  /-- The tree points outside the text. -/
  | outsideText
  /-- A place to be named by line and column is outside the text. -/
  | noPosition (place : OutsideText)
  /-- A run needs at least one worker. -/
  | noWorkers
  /-- There is no file to read at the path. -/
  | notAFile (path : String)
deriving Repr, DecidableEq

/-- What is said of a failure that ends the program. -/
def Failure.describe : Failure → String
  | unparsed e => e.describe
  | commandName e => e.message
  | tooManyDigits => "an integer has too many digits to be written"
  | badEscape => "an escape sequence spells no code point"
  | valueMissing => "an object member has no value"
  | outsideText => "a parse tree points outside its text"
  | noPosition place => place.message
  | noWorkers => "the number of workers must be positive"
  | notAFile path => s!"\"{path}\" is no file"

end SuiteOutline
