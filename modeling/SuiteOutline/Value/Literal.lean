import SuiteOutline.Tree.Kind
import SuiteOutline.Tree.Source
import SuiteOutline.Value.Basic
import SuiteOutline.Value.Escape

/-! Values of literals and template strings, and the names of object members. -/
namespace SuiteOutline

/-- How an expression inside a template shows in its text. -/
def placeholder (inner : List Char) : List Char := '$' :: '\x7b' :: inner ++ ['\x7d']

namespace Source

/-- The text from `cursor` up to `stop` with the escape sequences among the nodes decoded. -/
def cookFrom (src : Source) (cursor stop : Nat) : List Node → Except Failure Text
  | [] => .ok (Text.ofChars (src.slice cursor stop))
  | c :: cs =>
    if c.symbol = .escapeSequence then do
      let place ← src.spanOf c
      match decodeEscape? (src.slice place.start place.stop) with
      | none => throw .badEscape
      | some decoded =>
        let rest ← cookFrom src place.stop stop cs
        return Text.ofChars (src.slice cursor place.start) ++ decoded ++ rest
    else cookFrom src cursor stop cs

/-- The value of a string literal. -/
def stringValue (src : Source) (n : Node) : Except Failure Text := do
  let place ← src.inside n
  return (← src.cookFrom place.start place.stop n.children).joinSurrogates

/-- The value of a literal, parentheses aside. A regular expression stands for its own text. -/
def literalValue (src : Source) (n : Node) : Except Failure (Option Value) :=
  let n := n.unwrap
  match n.symbol with
  | .string => (src.stringValue n).map fun t => some (.text t)
  | .number => (src.charsOf n).map fun cs => (Number.read? cs).map .number
  | .trueLiteral => .ok (some (.bool true))
  | .falseLiteral => .ok (some (.bool false))
  | .nullLiteral => .ok (some .null)
  | .regex => (src.charsOf n).map fun cs => some (.text (Text.ofChars cs))
  | _ => .ok none

/-- The raw text from `cursor` up to `stop` with a placeholder for each substitution among the
nodes. A strict template takes identifiers only. -/
def templateFrom (src : Source) (strict : Bool) (cursor stop : Nat) :
    List Node → Except Failure (Option (List Char))
  | [] => .ok (some (src.slice cursor stop))
  | c :: cs =>
    if c.named && c.symbol = .templateSubstitution then do
      let start ← src.startOf c
      match c.members.head?.map (·.unwrap) with
      | none => return none
      | some inner =>
        if strict && inner.kind ≠ .identifier then return none
        else
          let shown ← src.charsOf inner
          let next ← src.stopOf c
          let rest ← templateFrom src strict next stop cs
          return rest.map (src.slice cursor start ++ placeholder shown ++ ·)
    else templateFrom src strict cursor stop cs

/-- The text of a template string, parentheses aside. -/
def template (src : Source) (strict : Bool) (n : Node) : Except Failure (Option Text) := do
  let n := n.unwrap
  let place ← src.inside n
  return (← src.templateFrom strict place.start place.stop n.children).map Text.ofChars

/-- The text of a number, which must not be too long. -/
def numberText (n : Number) : Except Failure Text :=
  match n.text? .plain with
  | some s => .ok (Text.ofString s)
  | none => .error .tooManyDigits

/-- The name that a key spells. -/
def keyName (src : Source) (key : Node) : Except Failure (Option Text) :=
  match key.symbol with
  | .propertyIdentifier | .identifier | .privatePropertyIdentifier =>
    (src.charsOf key).map fun cs => some (Text.ofChars cs)
  | .string => (src.stringValue key).map some
  | .number => do
    match Number.read? (← src.charsOf key) with
    | some n => return some (← numberText n)
    | none => return none
  | _ => .ok none

/-- The name of an object member; a computed key or a spread has none. -/
def memberName (src : Source) (m : Node) : Except Failure (Option Text) :=
  match m.symbol with
  | .shorthandPropertyIdentifier => (src.charsOf m).map fun cs => some (Text.ofChars cs)
  | .pair => (m.child? .key).elim (.ok none) src.keyName
  | .methodDefinition => (m.child? .name).elim (.ok none) src.keyName
  | _ => .ok none

end Source
end SuiteOutline
