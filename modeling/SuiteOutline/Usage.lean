import SuiteOutline.Callee
import SuiteOutline.Record
import SuiteOutline.Sorted
import SuiteOutline.Trace
import SuiteOutline.Value.Materialize
import SuiteOutline.Vocabulary

/-! Command usages and other calls. -/
namespace SuiteOutline

def describeArgument (src : Source) (arg : Node) : Except Failure Argument := do
  return ⟨arg.kindName, ← src.spanOf arg⟩

def describeArguments (src : Source) (args : List Node) : Except Failure (List Argument) :=
  args.mapM (describeArgument src)

/-- The values of those arguments that have one, by index. -/
def literalArguments (src : Source) (room index : Nat) :
    List Node → Except Failure (List (Nat × Value))
  | [] => .ok []
  | arg :: args => do
    let v ← src.valueWithin room arg
    let vs ← literalArguments src room (index + 1) args
    return (v.map ((index, ·))).toList ++ vs

/-- The usage that a call makes of a command, its arguments read with that room. Between the command
root and the command every name must be called itself: `cy.state.get()` reads a property and is no
command. -/
def usage? (src : Source) (v : Vocabulary) (room : Nat) (call : Node) (segments : List String) :
    Traced (Option CommandUsage) :=
  match segments, call.callee? with
  | root :: name :: more, some callee =>
    let chain := (name :: more).dropLast
    if root ≠ v.commandRoot || callee.kind ≠ .member then return none
    else if !chain.all (endsWith callMarker) then do
      let place ← src.startOf call
      Traced.note .debug
        s!"Ignoring property access on '{v.commandRoot}': {dotted segments} at {place}"
      return none
    else match callee.child? .property with
      | none => return none
      | some property => do
        let start ← src.startOf property
        let stop ← src.stopOf call
        let arguments ← describeArguments src call.callArguments
        let literals ← literalArguments src room 0 call.callArguments
        return some
          { name := (name :: more).getLast (by simp)
            span := ⟨start, stop⟩
            arguments
            literals
            chain := chain.map stripMarker }
  | _, _ => return none

def otherCall (src : Source) (call : Node) (name : String) : Except Failure OtherCall := do
  let start ← src.startOf (call.anchor?.getD call)
  let place ← src.spanOf call
  let arguments ← describeArguments src call.callArguments
  return { name, span := ⟨start, place.stop⟩, rootStart := place.start, arguments }

/-- A call below a function: the usage of a command, or any other. -/
inductive InnerCall where
  | command (u : CommandUsage)
  | other (o : OtherCall)
deriving Repr

namespace InnerCall

def command? : InnerCall → Option CommandUsage
  | command u => some u
  | _ => none

def other? : InnerCall → Option OtherCall
  | other o => some o
  | _ => none

end InnerCall

/-- Which calls below a function are wanted. -/
structure InnerChoice where
  commands : Bool := true
  others : Bool := true
deriving Repr, DecidableEq

/-- The wanted call that a node makes. One whose name begins as commands do may still be none. -/
def innerCallAt (src : Source) (v : Vocabulary) (room : Nat) (wanted : InnerChoice) (n : Node) :
    Traced (Option InnerCall) := do
  match ← src.segments? n with
  | none => return none
  | some segments =>
    let name := dotted segments
    if v.isCommand name then
      if wanted.commands then return (← usage? src v room n segments).map .command else return none
    else if wanted.others then return some (.other (← otherCall src n name))
    else return none

/-- The wanted calls below a function, by position. -/
def innerCalls (src : Source) (v : Vocabulary) (room : Nat) (wanted : InnerChoice) (f : Node) :
    Traced InnerCalls := do
  let calls ← Traced.collect (innerCallAt src v room wanted) f.walk
  return { commands := sortBy (fun a b => a.span.precedes b.span) (calls.filterMap (·.command?))
           others := sortBy (fun a b => a.span.precedes b.span) (calls.filterMap (·.other?)) }

/-- All calls below a function, if they are asked for. -/
def innerCalls? (src : Source) (v : Vocabulary) (room : Nat) (asked : Bool) (f : Node) :
    Traced (Option InnerCalls) :=
  if asked then do return some (← innerCalls src v room {} f) else return none

end SuiteOutline
