import SuiteOutline.Tree.Kind
import SuiteOutline.Tree.Source

/-! Callees as chains of names: `cy.get(a).click(b)` calls `cy.get().click`. A chain is built from
an identifier by property access and calls; any other callee has none. -/
namespace SuiteOutline

/-- A name in a chain, and how many calls are made of it directly. -/
structure Link where
  name : Node
  calls : Nat
deriving Repr

/-- The property that a member expression names, if it is written as a plain name. -/
def Node.property? (n : Node) : Option Node :=
  (n.child? .property).filter fun p =>
    p.symbol = .propertyIdentifier || p.symbol = .privatePropertyIdentifier

/-- The names met on the way from a callee inwards, the last one met first. -/
structure Descent where
  links : List Link
  /-- Whether the way ends at an identifier. -/
  complete : Bool
deriving Repr

namespace Node

mutual
/-- The way into an expression that is called so many times directly, past the links of what is
built on it. -/
def descend (calls : Nat) (met : List Link) : Node → Descent
  | n@⟨symbol, _, _, _, _, children⟩ =>
    match symbol with
    | .parenthesizedExpression => descendFirst calls met children
    | .identifier | .undefined => ⟨⟨n, calls⟩ :: met, true⟩
    | .memberExpression =>
      match n.property? with
      | some p => descendAs .object 0 (⟨p, calls⟩ :: met) children
      | none => ⟨met, false⟩
    | .callExpression =>
      if n.isCall then descendAs .function (calls + 1) met children else ⟨met, false⟩
    | _ => ⟨met, false⟩

/-- The way into the first member. -/
def descendFirst (calls : Nat) (met : List Link) : List Node → Descent
  | [] => ⟨met, false⟩
  | c :: cs => if c.isMember then descend calls met c else descendFirst calls met cs

/-- The way into the first child that plays the role. -/
def descendAs (role : Role) (calls : Nat) (met : List Link) : List Node → Descent
  | [] => ⟨met, false⟩
  | c :: cs =>
    if c.role == some role then descend calls met c else descendAs role calls met cs
end

/-- The way into a call's callee. -/
def calleeDescent (call : Node) : Descent :=
  if call.isCall then ((call.child? .function).map (descend 0 [])).getD ⟨[], false⟩
  else ⟨[], false⟩

mutual
/-- The node that names what an expression calls: a property, or the innermost callee itself. -/
def nameNode? : Node → Option Node
  | n@⟨symbol, _, _, _, _, children⟩ =>
    match symbol with
    | .parenthesizedExpression => (firstNameNode? children).getD (some n)
    | .callExpression => if n.isCall then nameNodeAs? .function children else some n
    | .memberExpression => n.child? .property
    | _ => some n

def firstNameNode? : List Node → Option (Option Node)
  | [] => none
  | c :: cs => if c.isMember then some (nameNode? c) else firstNameNode? cs

def nameNodeAs? (role : Role) : List Node → Option Node
  | [] => none
  | c :: cs => if c.role == some role then nameNode? c else nameNodeAs? role cs
end

/-- Where the name of a call stands: `b` in `a.b()`, `a` in `a()()`. -/
def anchor? (call : Node) : Option Node := (call.child? .function).bind nameNode?

end Node

/-- Written after a name for each call of it. -/
def callMarker : String := "()"

def Link.text (src : Source) (l : Link) : Except Failure String := do
  return (← src.textOf l.name) ++ String.join (List.replicate l.calls callMarker)

/-- The names of a call's callee, call markers included. Names are read even if the way does not end
at an identifier. -/
def Source.segments? (src : Source) (call : Node) : Except Failure (Option (List String)) := do
  let d := call.calleeDescent
  let names ← d.links.mapM (·.text src)
  return if d.complete then some names else none

/-- The segments with a point between each two. -/
def dotted (segments : List String) : String :=
  String.ofList (List.intercalate ['.'] (segments.map String.toList))

def Source.dotted? (src : Source) (call : Node) : Except Failure (Option String) := do
  return (← src.segments? call).map dotted

/-- The segment without one call marker at its end. -/
def stripMarker (segment : String) : String :=
  if endsWith callMarker segment then dropLast callMarker.length segment else segment

end SuiteOutline
