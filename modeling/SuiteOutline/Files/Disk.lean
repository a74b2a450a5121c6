import SuiteOutline.Files.Tree
import SuiteOutline.Pool
import SuiteOutline.Text.Decode
import SuiteOutline.Tree.Preorder

/-! The files that paths on a command line name. -/
namespace SuiteOutline

structure Disk where
  /-- The path of the working directory. -/
  location : String
  work : FileTree
  /-- The directories around it, from the nearest to the outermost. -/
  outer : List FileTree

/-- A path that cannot be outlined. -/
inductive PathFault where
  | missing (path : String)
  | unsupported (path : String)
  | special (path : String)
deriving Repr, DecidableEq

def PathFault.message : PathFault → String
  | missing p => s!"\"{p}\" does not exist"
  | unsupported p => s!"unsupported file \"{p}\". Expecting *.js or *.ts"
  | special p => s!"\"{p}\" is neither a file nor a directory"

namespace Disk

/-- The devices of every system: the first is empty, the others have no end. -/
def systemDevices : List (String × FileTree) :=
  ("null", .device (some ⟨.empty, .blank⟩)) ::
    ["zero", "full", "random", "urandom", "tty"].map (·, .device none)

/-- The outermost directory of every system. -/
def systemRoot : FileTree := .directory [("dev", .directory systemDevices)]

/-- An empty working directory, two levels below the outermost. -/
def blank (location : String) : Disk := ⟨location, .directory [], [.directory [], systemRoot]⟩

/-- The outermost directory. -/
def root (d : Disk) : FileTree := d.outer.getLastD d.work

/-- Puts something at a path in the working directory. -/
def insert (d : Disk) (path : String) (item : FileTree) : Disk :=
  { d with work := .directory (FileTree.insertAlong item [] (pathParts path) d.work.entries) }

/-- Puts something at a path in the outermost directory. -/
def insertAtRoot (d : Disk) (path : String) (item : FileTree) : Disk :=
  let root := .directory (FileTree.insertAlong item [] (pathParts path) d.root.entries)
  { d with outer := d.outer.dropLast ++ [root] }

/-- Where the parts of a path start from. -/
def start (d : Disk) (path : String) : Spot :=
  if beginsWith "/" path then ⟨[], d.root⟩ else ⟨d.outer, d.work⟩

/-- What a path leads to. -/
def find? (d : Disk) (path : String) : Option FileTree :=
  if path = "" then none else ((d.start path).follow? (pathParts path)).map (·.here)

/-- The files that a path stands for: itself, or all scripts below a directory. -/
def expand (d : Disk) (path : String) : Except PathFault (List String) :=
  match d.find? path with
  | none => .error (.missing path)
  | some (.file _) =>
    if endsWith ".js" path || endsWith ".ts" path then .ok [path] else .error (.unsupported path)
  | some (.directory es) => .ok ((FileTree.allScriptPaths es).map (joinPath path))
  | some _ => .error (.special path)

def expandAll (d : Disk) : List String → Except PathFault (List String)
  | [] => .ok []
  | path :: paths => do
    let files ← d.expand path
    let rest ← expandAll d paths
    return files ++ rest

/-- The files that the paths stand for, in order, each once. -/
def resolve (d : Disk) (paths : List String) : Except PathFault (List String) := do
  return sortedNames (← d.expandAll (distinct paths))

def read (d : Disk) (path : String) : Except Failure FileContent :=
  match (d.find? path).bind FileTree.content? with
  | some content => .ok content
  | none => .error (.notAFile path)

/-- The text of a file. -/
def textOf (d : Disk) (path : String) : Except Failure (List Char) := do
  return (decodeSource (← d.read path).bytes).toList

def script (d : Disk) (path : String) : Except Failure Script := do
  let content ← d.read path
  return ⟨(decodeSource content.bytes).toList, content.tree⟩

/-- The outlines of files. -/
def outlines (d : Disk) (room : Room) (options : Options) (v : Vocabulary) (workers : Int)
    (paths : List String) : Except Failure (List (String × Outline)) :=
  runPool workers .inOrder paths fun path => do
    (outlineNamed room options v path (← d.script path)).outcome

/-- The full path of a file. -/
def fullPath (d : Disk) (path : String) : String :=
  let parts := normalParts (pathParts path)
  let tail := String.join (parts.map ("/" ++ ·))
  if beginsWith "/" path then tail else d.location ++ tail

end Disk
end SuiteOutline
