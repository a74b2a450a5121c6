import SuiteOutline.Tree.Node

/-! Walks over the named nodes of a tree, each node before its children. -/
namespace SuiteOutline

/-- A node met on a walk, with the nodes around it, the nearest first. -/
structure Visit where
  node : Node
  enclosing : List Node
deriving Repr

/-- The nodes around a visited one, from the root down. -/
def Visit.ancestors (v : Visit) : List Node := v.enclosing.reverse

namespace Node

mutual
/-- The number of nodes of a tree. -/
def size : Node → Nat
  | ⟨_, _, _, _, _, children⟩ => sizeAll children + 1

def sizeAll : List Node → Nat
  | [] => 0
  | c :: cs => size c + sizeAll cs
end

/-- Walks from a stack of nodes, the next one on top, with fuel for so many of them. -/
def walkFrom : (fuel : Nat) → List Node → List Node
  | 0, _ | _ + 1, [] => []
  | fuel + 1, n :: stack => n :: walkFrom fuel (n.namedChildren ++ stack)

/-- The node and all named nodes below it, in the order of the text. -/
def walk (n : Node) : List Node := walkFrom n.size [n]

end Node

namespace Visit

/-- The visits to a node's named children. -/
def below (v : Visit) : List Visit := v.node.namedChildren.map (⟨·, v.node :: v.enclosing⟩)

/-- Visits from a stack, the next one on top, with fuel for so many of them. -/
def visitsFrom : (fuel : Nat) → List Visit → List Visit
  | 0, _ | _ + 1, [] => []
  | fuel + 1, v :: stack => v :: visitsFrom fuel (v.below ++ stack)

end Visit

namespace Node

/-- The walk, each node with those around it. -/
def visits (n : Node) : List Visit := Visit.visitsFrom n.size [⟨n, []⟩]

/-- What the parser could not read, or had to put in, marks a syntax error. -/
def isFault (n : Node) : Bool := n.symbol = .error || n.missing

mutual
/-- Whether a syntax error is marked in the tree, be it at an anonymous node. -/
def hasError : Node → Bool
  | n@⟨_, _, _, _, _, children⟩ => n.isFault || anyHasError children

def anyHasError : List Node → Bool
  | [] => false
  | c :: cs => hasError c || anyHasError cs
end

/-- Looks for a syntax error from a stack of nodes, the next one on top, with fuel for so many of
them. Where no error is marked below a node, nothing below it is looked at. -/
def firstErrorFrom : (fuel : Nat) → List Node → Option Node
  | 0, _ | _ + 1, [] => none
  | fuel + 1, n :: stack =>
    if n.isFault then some n
    else firstErrorFrom fuel (if n.hasError then n.children ++ stack else stack)

/-- The first node of the tree that marks a syntax error. -/
def firstError? (n : Node) : Option Node := firstErrorFrom n.size [n]

end Node
end SuiteOutline
