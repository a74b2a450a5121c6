import SuiteOutline.Record
import SuiteOutline.Vocabulary

/-! Settings of the program. -/
namespace SuiteOutline

structure Settings where
  appName : String := "Cypress Test Structure Extractor"
  version : String := "1.0.0"
  /-- Where audit records are stored; nowhere if empty. -/
  storeUri : String := ""
  storeDatabase : String := "cypress_extractor"
  logLevel : String := "INFO"
  maxUploadMb : Int := 8
  maxArchiveMb : Int := 50
  maxUnpackedMb : Int := 200
  maxArchiveFiles : Int := 5000
  maxMemberMb : Int := 8
  maxWorkers : Int := 4
  innerCalls : Bool := true
  scenarios : Bool := false
  registrationPath : String := "Cypress.Commands.add"
  commandRoot : String := "cy"
  tests : List Text := ["it"].map Text.ofString
  suites : List Text := ["describe"].map Text.ofString
  hooks : List Text := ["before", "beforeEach", "after", "afterEach"].map Text.ofString
  scenarioHead : String := "expectStandardScenariosFor"
  functionTail : String := "Fn"
deriving Repr, DecidableEq

/-- The names that can stand in a script: those without surrogates. -/
def writableNames (names : List Text) : List String :=
  (names.filter (!·.hasSurrogate)).map Text.toString

namespace Settings

def vocabulary (s : Settings) : Vocabulary where
  registrationPath := s.registrationPath
  commandRoot := s.commandRoot
  tests := writableNames s.tests
  suites := writableNames s.suites
  hooks := writableNames s.hooks
  scenarioHead := s.scenarioHead
  functionTail := s.functionTail

/-- The options of a request, which may leave either choice to the settings. -/
def options (s : Settings) (scenarios inner : Option Bool) : Options :=
  { inner := inner.getD s.innerCalls, scenarios := scenarios.getD s.scenarios }

end Settings
end SuiteOutline
