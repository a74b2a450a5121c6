import SuiteOutline.Callee
import SuiteOutline.Record
import SuiteOutline.Value.Literal
import SuiteOutline.Vocabulary

/-! Display names of tests and suites, and the frames around a node. -/
namespace SuiteOutline

/-- The name of a thing whose name cannot be told. -/
def unparseable (kind : String) : Text := Text.ofString s!"[Unparseable: {kind}]"

/-- How a literal value shows in a name. -/
def displayed : Value → Except Failure (Option Text)
  | .null => .ok (some (Text.ofString "null"))
  | .bool b => .ok (some (Text.ofString (if b then "true" else "false")))
  | .number n => (Source.numberText n).map some
  | .text t => .ok (some t)
  | .list _ | .object _ => .ok none

namespace Source

/-- The name that a first argument gives, if it gives one. -/
def nameFrom (src : Source) (arg : Node) : Except Failure (Option Text) :=
  match arg.kind with
  | .literal => do
    match ← src.literalValue arg with
    | some v => displayed v
    | none => return none
  | .template => src.template false arg
  | .identifier => do return some (Text.ofChars (placeholder (← src.charsOf arg.unwrap)))
  | _ => .ok none

/-- The display name of a test or suite, taken from the call's first argument. -/
def scopeName (src : Source) (call : Node) : Except Failure Text :=
  match call.callArguments with
  | [] => .ok (unparseable "NoArguments")
  | arg :: _ => do return (← src.nameFrom arg).getD (unparseable arg.kindName)

end Source

def Focus.ofName (name : String) : Focus :=
  if isSkip name then .skip else if isOnly name then .only else .plain

/-- The word for a frame's kind. -/
def Frame.kindWord (isTest : Bool) (focus : Focus) : String :=
  (if isTest then "test" else "suite") ++
    match focus with
    | .plain => ""
    | .skip => "-skip"
    | .only => "-only"

namespace Source

def frame (src : Source) (v : Vocabulary) (call : Node) (name : String) : Except Failure Frame := do
  let shown ← src.scopeName call
  return { name := shown, isTest := v.isTest name, focus := .ofName name, span := ← src.spanOf call }

/-- A frame for each node, in order, that is a call of a name the predicate holds of. -/
def scope (src : Source) (v : Vocabulary) (included : String → Bool) :
    List Node → Except Failure (List Frame)
  | [] => .ok []
  | n :: ns => do
    match (← src.dotted? n).filter included with
    | none => scope src v included ns
    | some name =>
      let f ← src.frame v n name
      let fs ← scope src v included ns
      return f :: fs

end Source
end SuiteOutline
