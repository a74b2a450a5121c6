import SuiteOutline.Scope
import SuiteOutline.Usage

/-! What a single call adds to an outline. A call is at most one of these, tried in this order: a
command registration, a command, a test, a hook. -/
namespace SuiteOutline

inductive Finding where
  | definition (d : CommandDefinition)
  | usage (u : CommandUsage)
  | test (t : TestCase)
  | hook (kind : String) (h : Hook)
  | problem (d : Diagnostic)
deriving Repr

namespace Finding

def definition? : Finding → Option CommandDefinition
  | definition d => some d
  | _ => none

def usage? : Finding → Option CommandUsage
  | usage u => some u
  | _ => none

def test? : Finding → Option TestCase
  | test t => some t
  | _ => none

def hookOf? (kind : String) : Finding → Option Hook
  | hook k h => if k = kind then some h else none
  | _ => none

def problem? : Finding → Option Diagnostic
  | problem d => some d
  | _ => none

end Finding

/-- How many levels of arrays and objects have room on the stack of calls where arguments are read.
This is no rule of outlines: it stands in for the stack, and depends on what is on it when an
outline is asked for. -/
structure Room where
  /-- For the usages of a file. -/
  file : Nat
  /-- For the calls in the function of a definition, test or hook. -/
  inner : Nat
  /-- For the calls in the function of a scenario. -/
  scenario : Nat
deriving Repr, DecidableEq

/-- The room on a stack with so many calls. It holds a thousand; each level takes two, and some come
in front of the first. -/
def Room.onStack (calls : Nat) : Room :=
  let levels (between : Nat) : Nat := (1000 - calls - between) / 2
  ⟨levels 7, levels 11, levels 10⟩

/-- The room of a worker in a pool. It has a stack of its own, with seven calls on it when it asks
for an outline. -/
def Room.worker : Room := .onStack 7

/-- What an outline is made with. -/
structure Context where
  source : Source
  options : Options
  vocabulary : Vocabulary
  room : Room
deriving Repr

namespace Context

/-- The calls below a function, read with that room. -/
def inner (c : Context) (room : Nat) (f : Node) : Traced (Option InnerCalls) :=
  innerCalls? c.source c.vocabulary room c.options.inner f

/-- A problem with a node, at its start. -/
def problemAt (c : Context) (message : Text) (n : Node) : Except Failure Diagnostic := do
  return { message, location := ← c.source.startOf n }

def problem (c : Context) (message : String) (n : Node) : Traced (Option Finding) := do
  return some (.problem (← c.problemAt (Text.ofString message) n))

/-- A command registration: a string literal first and a function last. -/
def definition (c : Context) (call : Node) : Traced (Option Finding) := do
  let path := c.vocabulary.registrationPath
  let args := call.callArguments
  let badName (found : String) : Traced (Option Finding) := do
    let location ← c.source.startOf call
    Traced.fail (.commandName
      { message := s!"{path}: command name must be a literal string, found {found}"
        location
        filename := c.source.filename })
  match args.head?, args.getLast? with
  | some first, some last =>
    if first.unwrap.symbol ≠ .string then badName first.kindName
    else if args.length < 2 || !last.isFunction then
      c.problem s!"{path}: function expected as last argument, found {last.kindName}" last
    else
      let name ← c.source.stringValue first.unwrap
      let span ← c.source.spanOf call
      let inner ← c.inner c.room.inner last.unwrap
      return some (.definition { name, span, inner })
  | _, _ => badName "nothing"

/-- A test: a name, then a function. -/
def test (c : Context) (call : Node) (name : String) (ancestors : List Node) :
    Traced (Option Finding) := do
  match call.callArguments with
  | _ :: f :: _ =>
    if !f.isFunction then
      c.problem s!"'{name}' expects a function as second argument, found {f.kindName}" f
    else
      let around ← c.source.scope c.vocabulary c.vocabulary.isTestOrSuite ancestors
      let own ← c.source.frame c.vocabulary call name
      let scope := around ++ [own]
      let body ← c.source.spanOf f.unwrap
      let inner ← c.inner c.room.inner f.unwrap
      return some (.test
        { name := own.name
          scope
          span := own.span
          body
          inner
          skip := scope.any (·.focus = .skip)
          only := scope.any (·.focus = .only) })
  | _ => c.problem s!"'{name}' has insufficient number of arguments" call

/-- Whether one of the nodes is a call of a test. -/
def anyTest (c : Context) : List Node → Except Failure Bool
  | [] => .ok false
  | n :: ns => do
    if (← c.source.dotted? n).any c.vocabulary.isTest then return true else anyTest c ns

/-- A hook has a function as its only argument, and no test around it. -/
def hook (c : Context) (call : Node) (name : String) (ancestors : List Node) :
    Traced (Option Finding) := do
  let args := call.callArguments
  let unlike (why : String) : Traced (Option Finding) := do
    let place ← c.source.startOf call
    Traced.note .debug s!"Not a hook: '{name}' {why} at {place}"
    return none
  let miscalled := unlike s!"with {args.length} argument(s)"
  match args with
  | [f] =>
    if !f.isFunction then miscalled
    else if ← c.anyTest ancestors then unlike "inside test body"
    else
      let scope ← c.source.scope c.vocabulary c.vocabulary.isTestOrSuite ancestors
      let span ← c.source.spanOf call
      let body ← c.source.spanOf f.unwrap
      let inner ← c.inner c.room.inner f.unwrap
      return some (.hook name { scope, span, body, inner })
  | _ => miscalled

/-- What a visited node adds, of what is asked for. -/
def inspect (c : Context) (visit : Visit) : Traced (Option Finding) := do
  let call := visit.node
  let v := c.vocabulary
  match ← c.source.segments? call with
  | none => return none
  | some segments =>
    let name := dotted segments
    if name = v.registrationPath then
      if c.options.added then c.definition call else return none
    else if v.isCommand name then
      if c.options.used then
        return (← SuiteOutline.usage? c.source v c.room.file call segments).map .usage
      else return none
    else if v.isTest name then
      if c.options.tests then c.test call name visit.ancestors else return none
    else if v.isHook name then
      if c.options.hooks then c.hook call name visit.ancestors else return none
    else return none

end Context
end SuiteOutline
