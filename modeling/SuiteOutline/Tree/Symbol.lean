/-! Grammar symbols of the JavaScript parse tree. -/
namespace SuiteOutline

/-- The symbols that the outline distinguishes; every other one is kept by its name. -/
inductive Symbol where
  | callExpression | memberExpression | parenthesizedExpression
  | identifier | undefined | propertyIdentifier | privatePropertyIdentifier
  | shorthandPropertyIdentifier
  | string | number | trueLiteral | falseLiteral | nullLiteral | regex
  | escapeSequence
  | templateString | templateSubstitution
  | object | pair | methodDefinition | spreadElement
  | array | leftBracket | rightBracket | comma
  | function | functionExpression | generatorFunction | arrowFunction
  | arguments
  | statementBlock | expressionStatement
  | comment | error
  | other (name : String)
deriving Repr, DecidableEq, Inhabited

namespace Symbol

/-- The symbols that have a meaning of their own, each with the grammar's name for it. -/
def known : List (Symbol × String) :=
  [(callExpression, "call_expression"), (memberExpression, "member_expression"),
   (parenthesizedExpression, "parenthesized_expression"),
   (identifier, "identifier"), (undefined, "undefined"),
   (propertyIdentifier, "property_identifier"),
   (privatePropertyIdentifier, "private_property_identifier"),
   (shorthandPropertyIdentifier, "shorthand_property_identifier"),
   (string, "string"), (number, "number"), (trueLiteral, "true"), (falseLiteral, "false"),
   (nullLiteral, "null"), (regex, "regex"), (escapeSequence, "escape_sequence"),
   (templateString, "template_string"), (templateSubstitution, "template_substitution"),
   (object, "object"), (pair, "pair"), (methodDefinition, "method_definition"),
   (spreadElement, "spread_element"), (array, "array"), (leftBracket, "["),
   (rightBracket, "]"), (comma, ","), (function, "function"),
   (functionExpression, "function_expression"), (generatorFunction, "generator_function"),
   (arrowFunction, "arrow_function"), (arguments, "arguments"),
   (statementBlock, "statement_block"), (expressionStatement, "expression_statement"),
   (comment, "comment"), (error, "ERROR")]

def name : Symbol → String
  | other name => name
  | s => ((known.find? (·.1 = s)).map (·.2)).getD ""

def ofName (name : String) : Symbol :=
  ((known.find? (·.2 = name)).map (·.1)).getD (other name)

end Symbol

/-- The part that a node plays in its parent. -/
inductive Role where
  | arguments | function | property | object | key | name | value | body
deriving Repr, DecidableEq

/-- The role that the grammar's field of that name stands for. -/
def Role.ofName? : String → Option Role
  | "arguments" => some .arguments
  | "function" => some .function
  | "property" => some .property
  | "object" => some .object
  | "key" => some .key
  | "name" => some .name
  | "value" => some .value
  | "body" => some .body
  | _ => none

end SuiteOutline
