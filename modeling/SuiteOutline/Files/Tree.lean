import SuiteOutline.Sorted
import SuiteOutline.Text.Affix
import SuiteOutline.Tree.Node

/-! Directories and the files in them. -/
namespace SuiteOutline

/-- A file's bytes, with the tree that a parser made of its text. -/
structure FileContent where
  bytes : ByteArray
  tree : Node

/-- What a directory holds under a name. All of it may be looked at: permissions are left out. -/
inductive FileTree where
  | file (content : FileContent)
  /-- Neither a file nor a directory, with what can be read from it to the end. -/
  | device (content : Option FileContent)
  | directory (entries : List (String × FileTree))
  /-- A link to something, with the directories around that from the nearest to the outermost. Links
  come unfolded: a system follows only so many on one way, so circular ones too have an end. -/
  | link (outer : List FileTree) (target : FileTree)
  /-- A link that leads nowhere. -/
  | deadLink

/-- A place in a tree, with the directories around it from the nearest to the outermost. -/
structure Spot where
  outer : List FileTree
  here : FileTree

/-- The parts of a path between its slashes. -/
def pathParts (path : String) : List String :=
  let step (c : Char) (parts : List (List Char)) : List (List Char) :=
    if c = '/' then [] :: parts
    else match parts with
      | [] => [[c]]
      | p :: ps => (c :: p) :: ps
  (path.toList.foldr step [[]]).map String.ofList

/-- Goes one part further along a path. An empty part, or a single point, stays; two points go up. -/
def advance (done : List String) (part : String) : List String :=
  if part = "" || part = "." then done
  else if part = ".." then done.dropLast
  else done ++ [part]

/-- A path with its `.` and `..` parts worked off. -/
def normalParts (parts : List String) : List String := parts.foldl advance []

/-- A path below a directory; a slash at the directory's end counts. -/
def joinPath (directory name : String) : String :=
  if directory = "" || endsWith "/" directory then directory ++ name
  else directory ++ "/" ++ name

def setName {α : Type} (name : String) (a : α) : List (String × α) → List (String × α)
  | [] => [(name, a)]
  | (n, b) :: rest => if n = name then (n, a) :: rest else (n, b) :: setName name a rest

namespace FileTree

/-- What a directory holds, or one that a link leads to. -/
def entries : FileTree → List (String × FileTree)
  | file _ | device _ | deadLink => []
  | directory es => es
  | link _ target => target.entries

def child? (t : FileTree) (name : String) : Option FileTree := t.entries.lookup name

/-- What can be read. -/
def content? : FileTree → Option FileContent
  | file content => some content
  | device content => content
  | directory _ | deadLink => none
  | link _ target => target.content?

/-- Puts something at a path, with the directories that lead there. -/
def insert (item : FileTree) : List String → List (String × FileTree) → List (String × FileTree)
  | [], es => es
  | [name], es =>
    match item, es.lookup name with
    | directory [], some (directory _) => es
    | _, _ => setName name item es
  | name :: rest, es =>
    let below := ((es.lookup name).map entries).getD []
    setName name (directory (insert item rest below)) es

/-- Puts something at the end of a path, with every directory that the path leads through. -/
def insertAlong (item : FileTree) (done : List String) :
    List String → List (String × FileTree) → List (String × FileTree)
  | [], es => es
  | [part], es => insert item (advance done part) es
  | part :: parts, es =>
    insertAlong item (advance done part) parts (insert (directory []) (advance done part) es)

/-- Where one comes to at an entry of the nearest directory around it: links are followed. -/
def arrive? (outer : List FileTree) : FileTree → Option Spot
  | file content => some ⟨outer, file content⟩
  | device content => some ⟨outer, device content⟩
  | directory es => some ⟨outer, directory es⟩
  | link outer target => target.arrive? outer
  | deadLink => none

/-- Hidden names begin with a point. -/
def isHidden (name : String) : Bool := beginsWith "." name

mutual
/-- The paths below an entry of that name that end in `.js`, the entry's own included, whatever it
is. Hidden entries are passed over. -/
def scriptPaths (name : String) : FileTree → List String
  | file _ | device _ | deadLink =>
    if isHidden name then [] else if endsWith ".js" name then [name] else []
  | link _ target => scriptPaths name target
  | directory es =>
    if isHidden name then []
    else (if endsWith ".js" name then [name] else []) ++
      (allScriptPaths es).map (name ++ "/" ++ ·)

def allScriptPaths : List (String × FileTree) → List String
  | [] => []
  | (name, t) :: es => scriptPaths name t ++ allScriptPaths es
end

end FileTree

namespace Spot

/-- Goes one part further. Only in a directory is there anywhere to go, and there is nothing above
the outermost. -/
def step? (s : Spot) (part : String) : Option Spot :=
  match s.here with
  | .directory es =>
    if part = "" || part = "." then some s
    else if part = ".." then
      match s.outer with
      | [] => some s
      | t :: outer => t.arrive? outer
    else (es.lookup part).bind (FileTree.arrive? (s.here :: s.outer))
  | _ => none

/-- Where the parts of a path lead. -/
def follow? (s : Spot) (parts : List String) : Option Spot := parts.foldlM step? s

end Spot
end SuiteOutline
