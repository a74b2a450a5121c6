import SuiteOutline.Tree.Node
import SuiteOutline.Value.Basic

/-! The records of an outline. All spans are in code points of the outlined text. -/
namespace SuiteOutline

structure Argument where
  kind : String
  span : Span
deriving Repr

/-- A command called on the command root, or further along a chain of commands. -/
structure CommandUsage where
  name : String
  /-- From the command's own name to the end of its call. -/
  span : Span
  arguments : List Argument
  /-- The arguments that have a value, by index. -/
  literals : List (Nat × Value)
  /-- The commands called before this one in the chain. -/
  chain : List String
deriving Repr

/-- A call of anything but a command. -/
structure OtherCall where
  name : String
  /-- From the called name to the end of the call. -/
  span : Span
  /-- Where the whole call starts. -/
  rootStart : Nat
  arguments : List Argument
deriving Repr

/-- The calls found inside a function. -/
structure InnerCalls where
  commands : List CommandUsage
  others : List OtherCall
deriving Repr

structure CommandDefinition where
  name : Text
  span : Span
  inner : Option InnerCalls
deriving Repr

/-- Whether a test or suite is left out, singled out, or neither. -/
inductive Focus where
  | plain | skip | only
deriving Repr, DecidableEq

/-- A test or suite around a record. -/
structure Frame where
  name : Text
  isTest : Bool
  focus : Focus
  span : Span
deriving Repr

structure TestCase where
  name : Text
  scope : List Frame
  span : Span
  body : Span
  inner : Option InnerCalls
  skip : Bool
  only : Bool
deriving Repr

structure Hook where
  scope : List Frame
  span : Span
  body : Span
  inner : Option InnerCalls
deriving Repr

structure ScenarioFunction where
  name : Text
  span : Span
  body : Span
  inner : Option InnerCalls
deriving Repr

structure Scenario where
  name : String
  scope : List Frame
  span : Span
  functions : List ScenarioFunction
deriving Repr

inductive Severity where
  | error | info
deriving Repr, DecidableEq

structure Diagnostic where
  message : Text
  location : Nat
  severity : Severity := .error
deriving Repr

/-- What was found in one text; parts that were not asked for are absent. -/
structure Outline where
  added : Option (List CommandDefinition)
  used : Option (List CommandUsage)
  tests : Option (List TestCase)
  /-- For each kind of hook the hooks found. -/
  hooks : Option (List (String × List Hook))
  scenarios : Option (List Scenario)
  errors : List Diagnostic
deriving Repr

/-- Which parts of an outline are asked for. -/
structure Options where
  added : Bool := true
  used : Bool := true
  tests : Bool := true
  hooks : Bool := true
  /-- Whether records hold the calls inside their functions. -/
  inner : Bool := true
  scenarios : Bool := false
deriving Repr, DecidableEq

end SuiteOutline
