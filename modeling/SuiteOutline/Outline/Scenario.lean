import SuiteOutline.Outline.Finding

/-! Scenario factories and the rule that suites only call tests, suites, hooks and factories. -/
namespace SuiteOutline

/-- What a call adds to the scenarios of an outline. -/
inductive ScenarioFinding where
  | scenario (s : Scenario)
  | problem (d : Diagnostic)
deriving Repr

namespace ScenarioFinding

def scenario? : ScenarioFinding → Option Scenario
  | scenario s => some s
  | _ => none

def problem? : ScenarioFinding → Option Diagnostic
  | problem d => some d
  | _ => none

end ScenarioFinding

/-- A member of a scenario factory's argument: a function that it provides, or a problem. -/
inductive FactoryMember where
  | function (f : ScenarioFunction)
  | problem (d : Diagnostic)
deriving Repr

namespace FactoryMember

def function? : FactoryMember → Option ScenarioFunction
  | function f => some f
  | _ => none

def problem? : FactoryMember → Option Diagnostic
  | problem d => some d
  | _ => none

end FactoryMember

namespace Context

/-- The name that a statement calls, if it is a call and nothing else. -/
def statementCall? (c : Context) (statement : Node) : Except Failure (Option String) :=
  if statement.symbol = .expressionStatement then
    match statement.members.head? with
    | some e => c.source.dotted? e.unwrap
    | none => .ok none
  else .ok none

/-- Whether a suite may call the name directly. -/
def allowedInSuite (v : Vocabulary) (name : String) : Bool :=
  v.isTestOrSuite name || v.isHook name || v.isScenario name

/-- What a suite's statements call that it should not. -/
def impurities (c : Context) (suite : String) : List Node → Except Failure (List Diagnostic)
  | [] => .ok []
  | statement :: rest => do
    match (← c.statementCall? statement).filter (!allowedInSuite c.vocabulary ·) with
    | none => impurities c suite rest
    | some name =>
      let d ← c.problemAt (Text.ofString
        s!"[PURE DESCRIBE] '{suite}' should only call tests or hooks. Found '{name}'") statement
      return d :: (← impurities c suite rest)

/-- Problems of a suite. One whose name is no literal is taken for a factory of tests. -/
def suiteProblems (c : Context) (call : Node) (name : String) :
    Except Failure (List Diagnostic) := do
  match call.callArguments with
  | title :: f :: _ =>
    if title.kind ≠ .literal then
      let d ← c.problemAt (Text.ofString (s!"[MAYBE FACTORY] '{name}' has non-literal name. " ++
        "Assuming this is a test factory. Some checks disabled.")) call
      return [{ d with severity := .info }]
    else if !f.isFunction then
      return [← c.problemAt (Text.ofString s!"function expected, but found {f.kindName}") f]
    else
      match (f.unwrap.child? .body).filter (·.symbol = .statementBlock) with
      | some body => c.impurities name body.members
      | none => return []
  | _ =>
    return [← c.problemAt (Text.ofString s!"'{name}' has insufficient number of arguments") call]

def memberProblem (c : Context) (message : Text) (n : Node) : Traced (Option FactoryMember) := do
  return some (.problem (← c.problemAt message n))

def scenarioFunction (c : Context) (member f : Node) (name : Text) :
    Traced (Option FactoryMember) := do
  let span ← c.source.spanOf member
  let body ← c.source.spanOf f
  let inner ← c.inner c.room.scenario f
  return some (.function { name, span, body, inner })

/-- A member of a scenario factory's argument. Functions, and only they, have the scenario ending. -/
def factoryMember (c : Context) (factory : String) (member : Node) :
    Traced (Option FactoryMember) := do
  let tail := c.vocabulary.functionTail
  let say (before : String) (key : Text) (after : String) : Text :=
    Text.ofString s!"{factory}: {before}" ++ key ++ Text.ofString after
  let misnamed (key : Text) : Text :=
    say "'" key s!"' prop does not end with '*{tail}'. Must not reference a function"
  match ← c.source.memberName member with
  | none =>
    c.memberProblem
      (Text.ofString s!"{factory}: unsupported property {member.kindName} in scenario factory")
      member
  | some key =>
    let isFactoryName := (Text.ofString tail).isSuffixOf key
    match member.symbol with
    | .methodDefinition =>
      if isFactoryName then c.scenarioFunction member member key
      else c.memberProblem (misnamed key) member
    | .pair =>
      match member.child? .value with
      | none => Traced.fail .valueMissing
      | some value =>
        let f := value.unwrap
        if isFactoryName then
          if f.isFunction then c.scenarioFunction member f key
          else
            c.memberProblem
              (say "'" key s!"' prop value must be a function. Found {f.kindName}") f
        else if f.isFunction then c.memberProblem (misnamed key) f
        else return none
    | _ =>
      if isFactoryName then
        c.memberProblem
          (say "Object prop shorthand not allowed for scenario factory - \x7b " key " \x7d") member
      else return none

/-- A call of a scenario factory: one object whose functions are the scenario's. -/
def scenario (c : Context) (call : Node) (name : String) (ancestors : List Node) :
    Traced (List ScenarioFinding) := do
  let problem (message : String) : Traced (List ScenarioFinding) := do
    return [.problem (← c.problemAt (Text.ofString message) call)]
  let args := call.callArguments
  match args with
  | [arg] =>
    if arg.kind ≠ .object then
      problem s!"{name}: ObjectExpression expected as argument. Found {arg.kindName}."
    else
      let members ← Traced.collect (c.factoryMember name) arg.unwrap.members
      let scope ← c.source.scope c.vocabulary c.vocabulary.isSuite ancestors
      let span ← c.source.spanOf call
      let found : Scenario := { name, scope, span, functions := members.filterMap (·.function?) }
      return (members.filterMap (·.problem?)).map .problem ++ [.scenario found]
  | _ => problem s!"{name}: Scenario factory should have 1 argument. Found {args.length}."

/-- What a visited node adds to the scenarios. -/
def inspectScenario (c : Context) (visit : Visit) : Traced (List ScenarioFinding) := do
  let call := visit.node
  match ← c.source.dotted? call with
  | none => return []
  | some name =>
    if c.vocabulary.isSuite name then return (← c.suiteProblems call name).map .problem
    else if c.vocabulary.isScenario name then c.scenario call name visit.ancestors
    else return []

end Context
end SuiteOutline
