import SuiteOutline.Value.Basic

/-! JSON text read as a value. -/
namespace SuiteOutline.Json

def isSpace (c : Char) : Bool := c = ' ' || c = '\t' || c = '\n' || c = '\r'

def skipSpace (cs : List Char) : List Char := cs.dropWhile isSpace

def escape? : Char → Option Char
  | '"' => some '"'
  | '\\' => some '\\'
  | '/' => some '/'
  | 'b' => some '\x08'
  | 'f' => some '\x0c'
  | 'n' => some '\n'
  | 'r' => some '\r'
  | 't' => some '\t'
  | _ => none

def hexDigit? (c : Char) : Option Nat := if c.toNat < 0x80 then digit? 16 c else none

def unit? (a b c d : Char) : Option CodePoint := do
  let ds ← [a, b, c, d].mapM hexDigit?
  CodePoint.ofNat? (ofDigits 16 ds)

/-- The rest of a string, its opening quote being gone; surrogates are not joined yet. -/
def readChars : List Char → Option (Text × List Char)
  | '"' :: cs => some ([], cs)
  | '\\' :: 'u' :: a :: b :: c :: d :: cs => do
    let p ← unit? a b c d
    let (ps, rest) ← readChars cs
    return (p :: ps, rest)
  | '\\' :: c :: cs => do
    let e ← escape? c
    let (ps, rest) ← readChars cs
    return (.ofChar e :: ps, rest)
  | c :: cs =>
    if c.toNat < 0x20 || c = '\\' then none
    else do
      let (ps, rest) ← readChars cs
      return (.ofChar c :: ps, rest)
  | [] => none

def readString (cs : List Char) : Option (Text × List Char) :=
  match cs with
  | '"' :: cs => (readChars cs).map fun (t, rest) => (t.joinSurrogates, rest)
  | _ => none

/-- Splits off ASCII digits. -/
def digitsOf (cs : List Char) : List Char × List Char := cs.span Char.isDigit

/-- A fraction or exponent that belongs to a number, if it is complete. -/
def readFraction (cs : List Char) : List Char × List Char :=
  match cs with
  | '.' :: rest =>
    match digitsOf rest with
    | ([], _) => ([], cs)
    | (ds, rest) => ('.' :: ds, rest)
  | _ => ([], cs)

def readPower (cs : List Char) : List Char × List Char :=
  match cs with
  | mark :: rest =>
    let (sign, rest) := match rest with
      | '+' :: rest => (['+'], rest)
      | '-' :: rest => (['-'], rest)
      | _ => ([], rest)
    match digitsOf rest with
    | ([], _) => ([], cs)
    | (ds, rest) => if mark = 'e' || mark = 'E' then (mark :: sign ++ ds, rest) else ([], cs)
  | [] => ([], cs)

/-- A number; without fraction and exponent it is an integer. -/
def readNumber (cs : List Char) : Option (Value × List Char) := do
  let (sign, rest) := match cs with
    | '-' :: rest => (['-'], rest)
    | _ => ([], cs)
  let (whole, rest) := match rest with
    | '0' :: rest => (['0'], rest)
    | _ => digitsOf rest
  if whole.isEmpty then none
  let (fraction, rest) := readFraction rest
  let (power, rest) := readPower rest
  if fraction.isEmpty && power.isEmpty then
    let n ← readInteger? (.base 10) (sign ++ whole)
    return (.number (.integer n), rest)
  else
    let x ← readReal? (sign ++ whole ++ fraction ++ power)
    return (.number (.real x), rest)

/-- The names that stand for values of their own. -/
def literals : List (String × Value) :=
  [("null", .null), ("true", .bool true), ("false", .bool false), ("NaN", .number (.real .nan)),
   ("Infinity", .number (.real (.infinite false))),
   ("-Infinity", .number (.real (.infinite true)))]

def readLiteral (cs : List Char) : Option (Value × List Char) :=
  (literals.find? fun (name, _) => name.toList.isPrefixOf cs).map fun (name, v) =>
    (v, cs.drop name.length)

mutual
/-- A value, with fuel for so many steps. -/
def readValue : Nat → List Char → Option (Value × List Char)
  | 0, _ => none
  | fuel + 1, cs =>
    match cs with
    | '"' :: _ => (readString cs).map fun (t, rest) => (.text t, rest)
    | '[' :: cs =>
      match skipSpace cs with
      | ']' :: rest => some (.list [], rest)
      | cs => (readItems fuel cs).map fun (vs, rest) => (.list vs, rest)
    | '\x7b' :: cs =>
      match skipSpace cs with
      | '\x7d' :: rest => some (.object [], rest)
      | cs => (readMembers fuel cs).map fun (ms, rest) => (.object (entriesOf ms), rest)
    | _ => (readLiteral cs).or (readNumber cs)

/-- Values up to the closing bracket. -/
def readItems : Nat → List Char → Option (List Value × List Char)
  | 0, _ => none
  | fuel + 1, cs => do
    let (v, rest) ← readValue fuel (skipSpace cs)
    match skipSpace rest with
    | ',' :: rest => (readItems fuel rest).map fun (vs, rest) => (v :: vs, rest)
    | ']' :: rest => some ([v], rest)
    | _ => none

/-- Members up to the closing brace. -/
def readMembers : Nat → List Char → Option (List (Text × Value) × List Char)
  | 0, _ => none
  | fuel + 1, cs => do
    let (k, rest) ← readString (skipSpace cs)
    match skipSpace rest with
    | ':' :: rest =>
      let (v, rest) ← readValue fuel (skipSpace rest)
      match skipSpace rest with
      | ',' :: rest => (readMembers fuel rest).map fun (ms, rest) => ((k, v) :: ms, rest)
      | '\x7d' :: rest => some ([(k, v)], rest)
      | _ => none
    | _ => none
end

/-- The value of a JSON text, with nothing but spaces around it. -/
def read? (text : List Char) : Option Value := do
  let (v, rest) ← readValue (text.length + 1) (skipSpace text)
  if (skipSpace rest).isEmpty then return v else none

end SuiteOutline.Json
