import SuiteOutline.Tree.Node

/-! Trees written as the list of their nodes, each in front of its children. -/
namespace SuiteOutline

/-- A node in the list. Its children follow it, each with its own; only their number is kept. -/
structure Entry where
  symbol : Symbol
  span : Span
  role : Option Role
  named : Bool
  missing : Bool
  arity : Nat
deriving Repr, DecidableEq

/-- Puts an entry in front of the trees after it, the first of which are its children. -/
def Entry.place (e : Entry) (trees : List Node) : List Node :=
  ⟨e.symbol, e.span, e.role, e.named, e.missing, trees.take e.arity⟩ :: trees.drop e.arity

/-- The trees that a list of entries spells, one after the other. -/
def Node.ofEntries (entries : List Entry) : List Node := entries.foldr Entry.place []

/-- The tree that a list of entries spells, if it spells one only. -/
def Node.ofEntries? (entries : List Entry) : Option Node :=
  match Node.ofEntries entries with
  | [root] => some root
  | _ => none

/-- The tree of a text that was not parsed. -/
def Node.blank : Node := ⟨.other "program", ⟨0, 0⟩, none, true, false, []⟩

end SuiteOutline
