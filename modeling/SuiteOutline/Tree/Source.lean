import SuiteOutline.Failure
import SuiteOutline.Number.Integer
import SuiteOutline.Text.Affix
import SuiteOutline.Text.CodePoint
import SuiteOutline.Text.Position
import SuiteOutline.Text.Quoted
import SuiteOutline.Tree.Walk

/-! Sources: a text with its parse tree, free of syntax errors. The tree counts in bytes and the
outline in code points; a place is converted when it is asked for. -/
namespace SuiteOutline

/-- For each byte of the UTF-8 encoding, and for its end, the index of the character there. -/
def offsetTable (index : Nat) : List Char → List Nat
  | [] => [index]
  | c :: cs => List.replicate c.utf8Size index ++ offsetTable (index + 1) cs

/-- From byte offsets to code point offsets; in an ASCII text they are the same. -/
inductive Offsets where
  | same
  | table (entries : Array Nat)
deriving Repr

namespace Offsets

def ofText (text : List Char) : Offsets :=
  if text.all (·.toNat < 0x80) then same else table (offsetTable 0 text).toArray

def get? : Offsets → Nat → Option Nat
  | same, byte => some byte
  | table entries, byte => entries[byte]?

end Offsets

/-- A text with its parse tree. -/
structure Source where
  filename : Option String
  text : Array Char
  offsets : Offsets
  root : Node
deriving Repr

namespace Source

/-- The offset in code points of an offset in bytes. -/
def offset (src : Source) (byte : Nat) : Except Failure Nat :=
  match src.offsets.get? byte with
  | some index => .ok index
  | none => .error .outsideText

def startOf (src : Source) (n : Node) : Except Failure Nat := src.offset n.start

def stopOf (src : Source) (n : Node) : Except Failure Nat := src.offset n.stop

/-- Where a node stands. -/
def spanOf (src : Source) (n : Node) : Except Failure Span := do
  let start ← src.startOf n
  let stop ← src.stopOf n
  return ⟨start, stop⟩

/-- The characters from one offset up to another. -/
def slice (src : Source) (start stop : Nat) : List Char := (src.text.extract start stop).toList

def charsOf (src : Source) (n : Node) : Except Failure (List Char) := do
  let span ← src.spanOf n
  return src.slice span.start span.stop

/-- The text that a node covers. -/
def textOf (src : Source) (n : Node) : Except Failure String := do
  return String.ofList (← src.charsOf n)

/-- What stands between a node's first and last character. For an empty node at the very front, the
last character is that of the whole text. -/
def inside (src : Source) (n : Node) : Except Failure Span := do
  let span ← src.spanOf n
  return ⟨span.start + 1, (if span.stop = 0 then src.text.size else span.stop) - 1⟩

/-- A fault at an offset, with the line that holds it. -/
def faultAt (src : Source) (offset : Nat) (message : String) : Failure :=
  let chars := src.text.toList
  match Position.locate chars offset with
  | .error place => .noPosition place
  | .ok p => .unparsed
    { message
      line := p.line
      column := p.column
      filename := src.filename
      lineText := String.ofList ((lines chars)[p.line - 1]?.getD []) }

/-- Tokens in messages are cut to this many characters. -/
def shownToken : Nat := 30

/-- What is said of a node that marks a syntax error. -/
def errorMessage (src : Source) (bad : Node) : Except Failure String :=
  if bad.missing then .ok ("Missing " ++ quoted bad.symbol.name.toList)
  else do
    match firstWord? (← src.charsOf bad) with
    | none => return "Unexpected token"
    | some word => return "Unexpected token " ++ quoted (word.take shownToken)

/-- How an escape begins that spells its code point in braces. -/
def bracedEscape : List Char := ['\\', 'u', '\x7b']

/-- Whether an escape such as `\u{1F600}` spells a number above every code point. -/
def isOutOfRange (raw : List Char) : Except Failure Bool :=
  if bracedEscape.isPrefixOf raw then
    match readInteger? (.base 16) (raw.drop 3).dropLast with
    | none => .error .badEscape
    | some value => .ok (0x10FFFF < value)
  else .ok false

/-- The first of the nodes that is an escape out of range. -/
def firstOutOfRange? (src : Source) : List Node → Except Failure (Option Node)
  | [] => .ok none
  | n :: ns =>
    if n.symbol = .escapeSequence then do
      if ← isOutOfRange (← src.charsOf n) then return some n
      else firstOutOfRange? src ns
    else firstOutOfRange? src ns

/-- The first escape of the source that is out of range, if it has any braced ones. -/
def outOfRange? (src : Source) : Except Failure (Option Node) :=
  if occursIn bracedEscape src.text.toList then src.firstOutOfRange? src.root.walk else .ok none

/-- A text with the tree that a parser made of it. A tree with syntax errors, or with an escape above
every code point, makes no source. -/
def ofTree (filename : Option String) (text : List Char) (tree : Node) : Except Failure Source := do
  let src : Source := ⟨filename, text.toArray, .ofText text, tree⟩
  if tree.hasError then
    let bad := tree.firstError?.getD tree
    let message ← src.errorMessage bad
    throw (src.faultAt (← src.startOf bad) message)
  else
    match ← src.outOfRange? with
    | some escape => throw (src.faultAt (← src.startOf escape) "Code point out of bounds")
    | none => return src

end Source
end SuiteOutline
