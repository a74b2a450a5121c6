import SuiteOutline.Tree.Node

/-! Kinds of expressions and the names that records and messages give them. -/
namespace SuiteOutline

inductive Kind where
  | call | member | identifier | literal | template | object | array | function | arrow | other
deriving Repr, DecidableEq

namespace Kind

def name : Kind → String
  | call => "CallExpression"
  | member => "MemberExpression"
  | identifier => "Identifier"
  | literal => "Literal"
  | template => "TemplateLiteral"
  | object => "ObjectExpression"
  | array => "ArrayExpression"
  | function => "FunctionExpression"
  | arrow => "ArrowFunctionExpression"
  | other => "Other"

def ofSymbol : Symbol → Kind
  | .callExpression => call
  | .memberExpression => member
  | .identifier | .undefined => identifier
  | .string | .number | .trueLiteral | .falseLiteral | .nullLiteral | .regex => literal
  | .templateString => template
  | .object => object
  | .array => array
  | .function | .functionExpression | .generatorFunction => function
  | .arrowFunction => arrow
  | _ => other

end Kind

/-- Letters that begin a word are capital and the others small; underscores only part the words.
Symbol names are ASCII. -/
def titled (begins : Bool) : List Char → List Char
  | [] => []
  | '_' :: cs => titled true cs
  | c :: cs => (if begins then c.toUpper else c.toLower) :: titled false cs

def Symbol.title (s : Symbol) : String := String.ofList (titled true s.name.toList)

namespace Node

/-- The kind of what stands inside any parentheses. -/
def kind (n : Node) : Kind :=
  match Kind.ofSymbol n.unwrap.symbol with
  | .call => if n.unwrap.isCall then .call else .other
  | k => k

def kindName (n : Node) : String :=
  match n.kind with
  | .other => n.unwrap.symbol.title
  | k => k.name

def isFunction (n : Node) : Bool :=
  n.kind = .function || n.kind = .arrow

end Node
end SuiteOutline
