import SuiteOutline.Number.Basic
import SuiteOutline.Text.CodePoint

/-! Escape sequences in string literals. -/
namespace SuiteOutline

/-- The escapes of one letter. -/
def simpleEscape? : Char → Option Char
  | 'n' => some '\n'
  | 't' => some '\t'
  | 'r' => some '\r'
  | 'b' => some '\x08'
  | 'f' => some '\x0c'
  | 'v' => some '\x0b'
  | '0' => some '\x00'
  | _ => none

/-- A line break that the backslash in front of it takes away. -/
def isContinuation (body : List Char) : Bool :=
  body == ['\r', '\n'] || body == ['\n'] || body == ['\r'] || body == ['\u2028'] ||
    body == ['\u2029']

/-- The code point that digits of a base spell. -/
def codePoint? (base : Nat) (digits : List Char) : Option Text := do
  let n ← readInteger? (.base base) digits
  if n < 0 then none
  let p ← CodePoint.ofNat? n.toNat
  return [p]

/-- What an escape sequence stands for, the backslash being its first character. A character with
no meaning of its own stands for itself. -/
def decodeEscape? (raw : List Char) : Option Text :=
  let body := raw.drop 1
  match body with
  | 'u' :: '\x7b' :: digits => codePoint? 16 digits.dropLast
  | 'u' :: a :: b :: c :: d :: [] => codePoint? 16 [a, b, c, d]
  | 'x' :: a :: b :: [] => codePoint? 16 [a, b]
  | _ =>
    if isContinuation body then some []
    else match body with
      | [c] =>
        match simpleEscape? c with
        | some s => some [.ofChar s]
        | none => if isOctal c then codePoint? 8 [c] else some [.ofChar c]
      | _ =>
        if !body.isEmpty && body.all isOctal then codePoint? 8 body else some (Text.ofChars body)

end SuiteOutline
