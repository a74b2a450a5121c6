import SuiteOutline.Number.Integer
import SuiteOutline.Number.Shortest
import SuiteOutline.Text.Affix

/-! Number literals and their values. -/
namespace SuiteOutline

/-- The value of a number literal: exact where it is an integer. -/
inductive Number where
  | integer (n : Int)
  | real (x : Binary64)
deriving Repr, DecidableEq

/-- A whole floating-point number counts as the integer it equals. -/
def Number.ofBinary64 (x : Binary64) : Number :=
  match x.toInt? with
  | some n => .integer n
  | none => .real x

/-- Splits off a maximal run of decimal digits, as values. -/
def decimalRun : List Char → List Nat × List Char
  | [] => ([], [])
  | c :: cs =>
    match decimalDigit? c with
    | some d =>
      let (ds, rest) := decimalRun cs
      (d :: ds, rest)
    | none => ([], c :: cs)

/-- The exponent part: nothing, or a mark, a sign and digits up to the end. -/
def readExponent? : List Char → Option Int
  | [] => some 0
  | mark :: cs =>
    let (negative, cs) := splitSign cs
    let (ds, rest) := decimalRun cs
    if (mark = 'e' || mark = 'E') && !ds.isEmpty && rest.isEmpty then
      some (if negative then -(ofDigits 10 ds) else ofDigits 10 ds)
    else none

/-- A decimal fraction with an optional exponent, or the name of infinity or of no number. -/
def readReal? (text : List Char) : Option Binary64 :=
  let (negative, cs) := splitSign (trimBy isNumberBlank text)
  let word := cs.map Char.toLower
  if word = "inf".toList || word = "infinity".toList then some (.infinite negative)
  else if word = "nan".toList then some .nan
  else
    let (whole, rest) := decimalRun cs
    let (fraction, rest) := match rest with
      | '.' :: rest => decimalRun rest
      | rest => ([], rest)
    if whole.isEmpty && fraction.isEmpty then none
    else (readExponent? rest).map fun e =>
      .ofDecimal negative (ofDigits 10 (whole ++ fraction)) (e - fraction.length)

def isOctal (c : Char) : Bool := '0' ≤ c && c ≤ '7'

namespace Number

/-- The value of a number literal; underscores count for nothing. An integer mark at the end or a
radix mark in front makes it an exact integer, a leading zero an octal one unless a digit forbids. -/
def read? (raw : List Char) : Option Number :=
  let text := raw.filter (· != '_')
  if text.getLast? = some 'n' then (readInteger? .marked text.dropLast).map integer
  else match text with
    | '0' :: mark :: rest =>
      if (markedBase? mark).isSome then (readInteger? .marked text).map integer
      else if text.all fun c => (decimalDigit? c).isSome then
        (readInteger? (if (mark :: rest).all isOctal then .base 8 else .base 10) text).map integer
      else (readReal? text).map ofBinary64
    | _ => (readReal? text).map ofBinary64

/-- The text of a number, if it is not too long. -/
def text? (layout : Layout) : Number → Option String
  | integer n => writeInteger? n
  | real x => some (layout.write x)

end Number
end SuiteOutline
