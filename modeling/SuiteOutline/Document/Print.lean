import SuiteOutline.Document.Basic
import SuiteOutline.Text.Quoted

/-! Documents as JSON text in ASCII, indented. -/
namespace SuiteOutline

/-- A document with every scalar written out. -/
inductive Written where
  | scalar (text : List Char)
  | list (items : List Written)
  | record (fields : List (List Char × Written))
deriving Repr

/-- Numbers in JSON text: infinity has a name there. -/
def Layout.json : Layout := { Layout.plain with infinity := "Infinity", nan := "NaN" }

/-- A sixteen-bit unit as an escape. -/
def unitEscape (n : Nat) : List Char := '\\' :: 'u' :: hexDigits 4 n

/-- A code point inside quotes: printable ASCII stands for itself, all else is escaped by its
units. -/
def jsonEscaped (p : CodePoint) : List Char :=
  let n := p.val
  if n = 0x22 then ['\\', '"']
  else if n = 0x5C then ['\\', '\\']
  else if n = 0x0A then ['\\', 'n']
  else if n = 0x0D then ['\\', 'r']
  else if n = 0x09 then ['\\', 't']
  else if n = 0x0C then ['\\', 'f']
  else if n = 0x08 then ['\\', 'b']
  else if 0x20 ≤ n && n < 0x7F then [Char.ofNat n]
  else if n < 0x10000 then unitEscape n
  else
    unitEscape (0xD800 + (n - 0x10000) / 0x400) ++ unitEscape (0xDC00 + (n - 0x10000) % 0x400)

def jsonText (t : Text) : List Char := '"' :: t.flatMap jsonEscaped ++ ['"']

namespace Written

mutual
def ofValue : Value → Except Failure Written
  | .null => .ok (scalar "null".toList)
  | .bool b => .ok (scalar (if b then "true" else "false").toList)
  | .number n =>
    match n.text? .json with
    | some s => .ok (scalar s.toList)
    | none => .error .tooManyDigits
  | .text t => .ok (scalar (jsonText t))
  | .list items => (ofValues items).map list
  | .object entries => (ofEntries entries).map record

def ofValues : List Value → Except Failure (List Written)
  | [] => .ok []
  | v :: vs => do return (← ofValue v) :: (← ofValues vs)

def ofEntries : List (Text × Value) → Except Failure (List (List Char × Written))
  | [] => .ok []
  | (k, v) :: rest => do return (jsonText k, ← ofValue v) :: (← ofEntries rest)
end

mutual
def ofDocument : Document → Except Failure Written
  | .int n =>
    match writeInteger? n with
    | some s => .ok (scalar s.toList)
    | none => .error .tooManyDigits
  | .bool b => .ok (scalar (if b then "true" else "false").toList)
  | .text t => .ok (scalar (jsonText t))
  | .value v => ofValue v
  | .list items => (ofDocuments items).map list
  | .record fields => (ofFields fields).map record

def ofDocuments : List Document → Except Failure (List Written)
  | [] => .ok []
  | d :: ds => do return (← ofDocument d) :: (← ofDocuments ds)

def ofFields : List (String × Document) → Except Failure (List (List Char × Written))
  | [] => .ok []
  | (k, d) :: rest => do return (jsonText (Text.ofString k), ← ofDocument d) :: (← ofFields rest)
end

/-- A new line, indented by two blanks for each level. -/
def newLine (level : Nat) : List Char := '\n' :: List.replicate (2 * level) ' '

/-- Brackets around items, each on a line of its own; nothing between them if there are none. -/
def bracketed (left right : Char) (level : Nat) (items : List (List Char)) : List Char :=
  if items.isEmpty then [left, right]
  else
    left :: List.intercalate [','] (items.map (newLine (level + 1) ++ ·)) ++ newLine level ++ [right]

mutual
def print (level : Nat) : Written → List Char
  | scalar t => t
  | list items => bracketed '[' ']' level (printItems (level + 1) items)
  | record fields => bracketed '\x7b' '\x7d' level (printFields (level + 1) fields)

def printItems (level : Nat) : List Written → List (List Char)
  | [] => []
  | w :: ws => print level w :: printItems level ws

def printFields (level : Nat) : List (List Char × Written) → List (List Char)
  | [] => []
  | (k, w) :: rest => (k ++ [':', ' '] ++ print level w) :: printFields level rest
end

end Written

/-- The text of a document. -/
def Document.print (d : Document) : Except Failure String := do
  return String.ofList ((← Written.ofDocument d).print 0)

end SuiteOutline
