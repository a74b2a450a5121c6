import SuiteOutline.Tree.Symbol

/-! Parse trees: nodes with their spans, and the ways to look through and below them. -/
namespace SuiteOutline

/-- A half-open stretch of a text. -/
structure Span where
  start : Nat
  stop : Nat
deriving Repr, DecidableEq, Inhabited

/-- Earlier start first, then earlier stop. -/
def Span.precedes (a b : Span) : Bool :=
  a.start < b.start || (a.start == b.start && a.stop ≤ b.stop)

/-- A node of the parse tree, its span counted in bytes. An anonymous node is a mere token; a missing
one was put in where the text lacks it. -/
structure Node where
  symbol : Symbol
  span : Span
  role : Option Role
  named : Bool
  missing : Bool
  children : List Node
deriving Repr, Inhabited

namespace Node

def start (n : Node) : Nat := n.span.start

def stop (n : Node) : Nat := n.span.stop

/-- The first child that plays the role. -/
def child? (n : Node) (role : Role) : Option Node := n.children.find? (·.role == some role)

def namedChildren (n : Node) : List Node := n.children.filter (·.named)

/-- Named, and not a comment. -/
def isMember (n : Node) : Bool := n.named && n.symbol != .comment

/-- The named children without the comments. -/
def members (n : Node) : List Node := n.children.filter isMember

mutual
/-- What stands inside parentheses; empty parentheses stand for themselves. -/
def unwrap : Node → Node
  | n@⟨symbol, _, _, _, _, children⟩ =>
    if symbol = .parenthesizedExpression then (unwrapFirst children).getD n else n

def unwrapFirst : List Node → Option Node
  | [] => none
  | c :: cs => if c.isMember then some (unwrap c) else unwrapFirst cs
end

/-- A call with an argument list; a tagged template has none. -/
def isCall (n : Node) : Bool :=
  n.symbol = .callExpression &&
    (n.child? .arguments).any (·.symbol = .arguments)

def callArguments (n : Node) : List Node :=
  match n.child? .arguments with
  | some list => if list.symbol = .arguments then list.members else []
  | none => []

def callee? (n : Node) : Option Node := (n.child? .function).map unwrap

end Node
end SuiteOutline
