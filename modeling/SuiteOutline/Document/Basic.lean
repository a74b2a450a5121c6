import SuiteOutline.Record
import SuiteOutline.Scope

/-! Documents: the written form of records. Absent parts are left out. -/
namespace SuiteOutline

inductive Document where
  | int (n : Int)
  | bool (b : Bool)
  | text (t : Text)
  /-- The value of a literal in the outlined text. -/
  | value (v : Value)
  | list (items : List Document)
  | record (fields : List (String × Document))
deriving Repr

namespace Document

def string (s : String) : Document := text (Text.ofString s)

def nat (n : Nat) : Document := int n

/-- A field that is there only if it has something to hold. -/
def optional (name : String) (d : Option Document) : List (String × Document) :=
  (d.map (name, ·)).toList

/-- A field that is there only if it is true. -/
def flag (name : String) (b : Bool) : List (String × Document) :=
  if b then [(name, bool true)] else []

def ofSpan (s : Span) : List (String × Document) := [("start", nat s.start), ("end", nat s.stop)]

def ofBody (s : Span) : List (String × Document) :=
  [("funcStart", nat s.start), ("funcEnd", nat s.stop)]

def ofArgument (a : Argument) : Document := record (("type", string a.kind) :: ofSpan a.span)

def ofArguments (args : List Argument) : String × Document :=
  ("arguments", list (args.map ofArgument))

def ofLiterals (literals : List (Nat × Value)) : List (String × Document) :=
  if literals.isEmpty then []
  else [("literalArguments", record (literals.map fun (i, v) => (toString i, value v)))]

def ofUsage (u : CommandUsage) : Document :=
  record (("name", string u.name) :: ofSpan u.span ++ [ofArguments u.arguments] ++
    ofLiterals u.literals ++ [("chain", list (u.chain.map string))])

def ofOtherCall (o : OtherCall) : Document :=
  record [("name", string o.name), ("start", nat o.span.start), ("rootStart", nat o.rootStart),
    ("end", nat o.span.stop), ofArguments o.arguments]

def ofInner (inner : Option InnerCalls) : List (String × Document) :=
  match inner with
  | none => []
  | some i => [("commandsUsed", list (i.commands.map ofUsage)),
      ("otherCalls", list (i.others.map ofOtherCall))]

def ofDefinition (d : CommandDefinition) : Document :=
  record (("name", text d.name) :: ofSpan d.span ++ ofInner d.inner)

def ofFrame (f : Frame) : Document :=
  record ([("name", text f.name), ("kind", string (Frame.kindWord f.isTest f.focus))] ++
    ofSpan f.span ++ flag "skip" (f.focus = .skip) ++ flag "only" (f.focus = .only))

def ofScope (scope : List Frame) : String × Document := ("scope", list (scope.map ofFrame))

def ofTest (t : TestCase) : Document :=
  record ([("name", text t.name), ofScope t.scope] ++ ofSpan t.span ++ ofBody t.body ++
    ofInner t.inner ++ flag "skip" t.skip ++ flag "only" t.only)

def ofHook (h : Hook) : Document :=
  record (ofScope h.scope :: ofSpan h.span ++ ofBody h.body ++ ofInner h.inner)

def ofScenarioFunction (f : ScenarioFunction) : Document :=
  record (("name", text f.name) :: ofSpan f.span ++ ofBody f.body ++ ofInner f.inner)

def ofScenario (s : Scenario) : Document :=
  record ([("name", string s.name), ofScope s.scope] ++ ofSpan s.span ++
    [("functions", list (s.functions.map ofScenarioFunction))])

def ofDiagnostic (d : Diagnostic) : Document :=
  record [("message", text d.message), ("location", nat d.location),
    ("level", string (match d.severity with
      | .error => "error"
      | .info => "info"))]

def ofHooks (hooks : List (String × List Hook)) : Document :=
  record (hooks.map fun (kind, hs) => (kind, list (hs.map ofHook)))

def ofOutline (o : Outline) : Document :=
  record (optional "added" (o.added.map fun ds => list (ds.map ofDefinition)) ++
    optional "used" (o.used.map fun us => list (us.map ofUsage)) ++
    optional "tests" (o.tests.map fun ts => list (ts.map ofTest)) ++
    optional "hooks" (o.hooks.map ofHooks) ++
    optional "scenarios" (o.scenarios.map fun ss => list (ss.map ofScenario)) ++
    [("errors", list (o.errors.map ofDiagnostic))])

end Document
end SuiteOutline
