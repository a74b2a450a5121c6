import SuiteOutline.Files.Disk
import SuiteOutline.Number.Basic
import SuiteOutline.Tree.Preorder

/-! Snapshots: a working directory with its parse trees, written as lines.

    location /work/shop
    directory cypress/e2e
    file cypress/support/commands.js
    bytes 6379
    node program 0 2 1
    node expression_statement 0 2 1
    node identifier 0 2 0

A file's bytes are in hexadecimal. A node has its symbol, span and number of children, then its role
or a dash, then `a` if it is anonymous and `m` if it is missing. -/
namespace SuiteOutline.Snapshot

inductive Line where
  | location (path : String)
  | device (path : String)
  | directory (path : String)
  | file (path : String)
  | bytes (bs : List UInt8)
  | node (entry : Entry)
deriving Repr

/-- Pairs of hexadecimal digits as bytes. -/
def bytes? : List Char → Option (List UInt8)
  | [] => some []
  | [_] => none
  | a :: b :: rest => do
    let high ← digit? 16 a
    let low ← digit? 16 b
    let bs ← bytes? rest
    return UInt8.ofNat (high * 16 + low) :: bs

/-- The words of a line, parted by single blanks. -/
def words (line : String) : List String :=
  (line.toList.splitOn ' ').map String.ofList

def entry? (symbol start stop arity role flags : String) : Option Entry := do
  return { symbol := .ofName symbol
           span := ⟨← start.toNat?, ← stop.toNat?⟩
           role := Role.ofName? role
           named := !flags.toList.contains 'a'
           missing := flags.toList.contains 'm'
           arity := ← arity.toNat? }

def nodeLine? : List String → Option Entry
  | [symbol, start, stop, arity] => entry? symbol start stop arity "-" ""
  | [symbol, start, stop, arity, role] => entry? symbol start stop arity role ""
  | [symbol, start, stop, arity, role, flags] => entry? symbol start stop arity role flags
  | _ => none

def Line.read? (text : String) : Option Line :=
  let (head, rest) := text.toList.span (· != ' ')
  let content := String.ofList (rest.drop 1)
  match String.ofList head with
  | "location" => some (.location content)
  | "device" => some (.device content)
  | "directory" => some (.directory content)
  | "file" => some (.file content)
  | "bytes" => (bytes? content.toList).map .bytes
  | "node" => (nodeLine? (words content)).map .node
  | _ => none

/-- Whether a line belongs to the file above it. -/
def Line.isContent : Line → Bool
  | .bytes _ | .node _ => true
  | _ => false

def Line.bytesOf : Line → List UInt8
  | .bytes bs => bs
  | _ => []

def Line.entry? : Line → Option Entry
  | .node e => some e
  | _ => none

/-- The file that its lines make. -/
def contentOf (lines : List Line) : FileContent where
  bytes := ⟨(lines.flatMap Line.bytesOf).toArray⟩
  tree := (Node.ofEntries? (lines.filterMap Line.entry?)).getD .blank

/-- Takes in lines one by one. -/
def build (d : Disk) : List Line → Disk
  | [] => d
  | .location path :: ls => build { d with location := path } ls
  | .device path :: ls => build (d.insertAtRoot path (.device none)) ls
  | .directory path :: ls => build (d.insert path (.directory [])) ls
  | .file path :: ls => build (d.insert path (.file (contentOf (ls.takeWhile Line.isContent)))) ls
  | .bytes _ :: ls | .node _ :: ls => build d ls

/-- The disk that lines describe; none if one of them cannot be read. -/
def read? (lines : List String) : Option Disk :=
  (lines.mapM Line.read?).map (build (.blank ""))

end SuiteOutline.Snapshot
