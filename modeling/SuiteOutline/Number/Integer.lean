import SuiteOutline.Text.Blank
import SuiteOutline.Text.Digit

/-! Integers as text: a sign, a radix mark, digits that single underscores may part; and the limit
on decimal digits. -/
namespace SuiteOutline

/-- Decimal integers of more digits are neither read nor written. -/
def digitLimit : Nat := 4300

/-- How the radix of a numeral is known. -/
inductive Radix where
  /-- A mark such as `0x` tells; without one it is ten, and then only zero begins with a zero. -/
  | marked
  /-- The base is given; its own mark may still stand in front. -/
  | base (b : Nat)
deriving Repr, DecidableEq

/-- White space that may stand around a number. -/
def isNumberBlank (c : Char) : Bool := isBlank c && !(0x1C ≤ c.toNat && c.toNat ≤ 0x1F)

def splitSign : List Char → Bool × List Char
  | '-' :: cs => (true, cs)
  | '+' :: cs => (false, cs)
  | cs => (false, cs)

/-- The base that a letter after a leading zero marks. -/
def markedBase? (c : Char) : Option Nat :=
  if c = 'x' || c = 'X' then some 16
  else if c = 'o' || c = 'O' then some 8
  else if c = 'b' || c = 'B' then some 2
  else none

/-- Digits with single underscores between them; `after` tells whether a digit or the mark came last. -/
def digitRun? (base : Nat) : (after : Bool) → List Char → Option (List Nat)
  | after, [] => if after then some [] else none
  | after, c :: cs =>
    if c = '_' then if after then digitRun? base false cs else none
    else do
      let d ← digit? base c
      let ds ← digitRun? base true cs
      return d :: ds

/-- Whether decimal text of so many digits is too long; other bases have no limit. -/
def tooLong (base digits : Nat) : Bool := base == 10 && digitLimit < digits

/-- The digits after sign and mark: the base, whether a mark stood in front, and the rest. -/
def splitRadix (radix : Radix) (cs : List Char) : Nat × Bool × List Char :=
  let given := match radix with
    | .marked => none
    | .base b => some b
  match cs with
  | zero :: mark :: rest =>
    match (decimalDigit? zero).filter (· = 0) |>.bind fun _ => markedBase? mark with
    | some b => if given.all (· = b) then (b, true, rest) else (given.getD 10, false, cs)
    | none => (given.getD 10, false, cs)
  | _ => (given.getD 10, false, cs)

/-- Reads an integer, white space around it aside. -/
def readInteger? (radix : Radix) (text : List Char) : Option Int := do
  let (negative, cs) := splitSign (trimBy isNumberBlank text)
  let (base, marked, rest) := splitRadix radix cs
  let digits ← digitRun? base marked rest
  let magnitude := ofDigits base digits
  if digits.isEmpty || tooLong base digits.length then none
  else if radix = .marked && !marked && digits.head? = some 0 && magnitude ≠ 0 then none
  else return if negative then -magnitude else magnitude

/-- The decimal text of an integer, if it is not too long. -/
def writeInteger? (n : Int) : Option String :=
  if n.natAbs < Nat.pow 10 digitLimit then some (toString n) else none

end SuiteOutline
