import SuiteOutline.Text.Affix

/-! The names by which commands, tests, suites, hooks and scenarios are known. -/
namespace SuiteOutline

structure Vocabulary where
  /-- The function that registers a command. -/
  registrationPath : String := "Cypress.Commands.add"
  /-- The object whose methods are commands. -/
  commandRoot : String := "cy"
  tests : List String := ["it"]
  suites : List String := ["describe"]
  hooks : List String := ["before", "beforeEach", "after", "afterEach"]
  scenarioHead : String := "expectStandardScenariosFor"
  /-- How the names of scenario functions end. -/
  functionTail : String := "Fn"
deriving Repr, DecidableEq

/-- A name is of a family if it is one of the identifiers or goes on from one after a point. -/
def inFamily (identifiers : List String) (name : String) : Bool :=
  identifiers.any fun i => name == i || beginsWith (i ++ ".") name

def isSkip (name : String) : Bool := endsWith ".skip" name

def isOnly (name : String) : Bool := endsWith ".only" name

namespace Vocabulary

def commandHead (v : Vocabulary) : String := v.commandRoot ++ "."

def isCommand (v : Vocabulary) (name : String) : Bool := beginsWith v.commandHead name

def isTest (v : Vocabulary) (name : String) : Bool := inFamily v.tests name

def isSuite (v : Vocabulary) (name : String) : Bool := inFamily v.suites name

def isTestOrSuite (v : Vocabulary) (name : String) : Bool := v.isTest name || v.isSuite name

/-- A hook goes by its exact name. -/
def isHook (v : Vocabulary) (name : String) : Bool := v.hooks.contains name

def isScenario (v : Vocabulary) (name : String) : Bool := beginsWith v.scenarioHead name

end Vocabulary
end SuiteOutline
