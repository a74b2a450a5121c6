import SuiteOutline.Outline.Scenario

/-! The outline of a source. -/
namespace SuiteOutline

def byPosition {α : Type} (span : α → Span) (records : List α) : List α :=
  sortBy (fun a b => (span a).precedes (span b)) records

def byLocation (problems : List Diagnostic) : List Diagnostic :=
  sortBy (fun a b => a.location ≤ b.location) problems

def given {α : Type} (asked : Bool) (a : α) : Option α := if asked then some a else none

/-- The outline that findings make, scenarios aside. -/
def Outline.ofFindings (options : Options) (v : Vocabulary) (findings : List Finding) : Outline where
  added := given options.added (byPosition (·.span) (findings.filterMap (·.definition?)))
  used := given options.used (byPosition (·.span) (findings.filterMap (·.usage?)))
  tests := given options.tests (byPosition (·.span) (findings.filterMap (·.test?)))
  hooks := given options.hooks ((distinct v.hooks).map fun kind =>
    (kind, byPosition (·.span) (findings.filterMap (·.hookOf? kind))))
  scenarios := none
  errors := byLocation (findings.filterMap (·.problem?))

/-- The outline of a text in which there is nothing to find. -/
def Outline.empty (options : Options) (v : Vocabulary) : Outline :=
  { Outline.ofFindings options v [] with scenarios := given options.scenarios [] }

namespace Context

/-- The scenarios of a source and the problems with them. -/
def scenarios (c : Context) : Traced (List Scenario × List Diagnostic) := do
  let findings ← Traced.gather c.inspectScenario c.source.root.visits
  let scenarios := findings.filterMap (·.scenario?)
  let problems := findings.filterMap (·.problem?)
  Traced.note .debug
    s!"Scenario pass: {scenarios.length} scenario(s), {problems.length} diagnostic(s)"
  return (scenarios, problems)

def outline (c : Context) : Traced Outline := do
  let findings ← Traced.collect c.inspect c.source.root.visits
  let base := Outline.ofFindings c.options c.vocabulary findings
  if c.options.scenarios then
    let (scenarios, problems) ← c.scenarios
    return { base with scenarios := some scenarios, errors := byLocation (base.errors ++ problems) }
  else return base

end Context

/-- A text together with the tree that a parser made of it. A text that is never parsed may come
with any tree. -/
structure Script where
  text : List Char
  tree : Node
deriving Repr

/-- A script that begins with an interpreter directive holds no tests. -/
def Script.isDirective (s : Script) : Bool := ['#', '!'].isPrefixOf s.text

/-- The outline of a named script. -/
def outlineScript (room : Room) (options : Options) (v : Vocabulary) (filename : Option String)
    (s : Script) : Traced Outline :=
  if s.isDirective then do
    let shown := match filename with
      | none | some "" => "<text>"
      | some name => name
    Traced.note .info s!"Skipping {shown}: starts with an interpreter directive"
    return .empty options v
  else do
    let source ← Source.ofTree filename s.text s.tree
    Context.outline ⟨source, options, v, room⟩

/-- The outline of a named script, with its counts logged. -/
def outlineNamed (room : Room) (options : Options) (v : Vocabulary) (name : String) (s : Script) :
    Traced Outline := do
  let o ← outlineScript room options v (some name) s
  let count {α : Type} (part : Option (List α)) : Nat := (part.getD []).length
  Traced.note .info (s!"Analyzed {name}: {count o.added} definition(s), " ++
    s!"{count o.used} usage(s), {count o.tests} test(s), {o.errors.length} diagnostic(s)")
  return o

end SuiteOutline
