import SuiteOutline.Json.Read
import SuiteOutline.Number.Whole
import SuiteOutline.Settings.Basic
import SuiteOutline.Settings.EnvFile

/-! Settings read from the environment, and from an environment file behind it. -/
namespace SuiteOutline

/-- Why settings could not be read. -/
inductive SettingsFault where
  /-- A list is not written as JSON. -/
  | notJson (name : String)
  /-- A value does not fit its setting. -/
  | unfit (name : String)
deriving Repr, DecidableEq

def SettingsFault.message : SettingsFault → String
  | notJson name => s!"the setting {name} is not written as JSON"
  | unfit name => s!"the value of the setting {name} does not fit it"

/-- A setting as it was written. -/
inductive RawSetting where
  | plain (text : String)
  | json (v : Value)
deriving Repr

/-- A setting by name: whether it is written as JSON, and how it is set if the value fits. -/
structure SettingSpec where
  name : String
  isJson : Bool
  set? : Settings → RawSetting → Option Settings

namespace SettingSpec

def word (name : String) (set : Settings → String → Settings) : SettingSpec where
  name
  isJson := false
  set? s
    | .plain text => some (set s text)
    | .json _ => none

def number (name : String) (set : Settings → Int → Settings) : SettingSpec where
  name
  isJson := false
  set? s
    | .plain text => (readWhole? text.toList).map (set s)
    | .json _ => none

def switch (name : String) (set : Settings → Bool → Settings) : SettingSpec where
  name
  isJson := false
  set? s
    | .plain text => (readSwitch? text).map (set s)
    | .json _ => none

def wordOf? : Value → Option Text
  | .text t => some t
  | _ => none

def words (name : String) (set : Settings → List Text → Settings) : SettingSpec where
  name
  isJson := true
  set? s
    | .json (.list items) => (items.mapM wordOf?).map (set s)
    | _ => none

def all : List SettingSpec :=
  [word "APP_NAME" fun s t => { s with appName := t },
   word "VERSION" fun s t => { s with version := t },
   word "MONGO_URI" fun s t => { s with storeUri := t },
   word "MONGO_DB" fun s t => { s with storeDatabase := t },
   word "LOG_LEVEL" fun s t => { s with logLevel := t },
   number "MAX_UPLOAD_MB" fun s n => { s with maxUploadMb := n },
   number "MAX_ZIP_SIZE_MB" fun s n => { s with maxArchiveMb := n },
   number "MAX_ZIP_TOTAL_UNCOMPRESSED_MB" fun s n => { s with maxUnpackedMb := n },
   number "MAX_ZIP_FILE_COUNT" fun s n => { s with maxArchiveFiles := n },
   number "MAX_SINGLE_FILE_MB" fun s n => { s with maxMemberMb := n },
   number "MAX_WORKERS" fun s n => { s with maxWorkers := n },
   switch "INCLUDE_NESTED_CALLS" fun s b => { s with innerCalls := b },
   switch "ENABLE_SCENARIOS" fun s b => { s with scenarios := b },
   word "COMMAND_REGISTRATION_PATH" fun s t => { s with registrationPath := t },
   word "COMMAND_ROOT" fun s t => { s with commandRoot := t },
   words "TEST_IDENTIFIERS" fun s l => { s with tests := l },
   words "SUITE_IDENTIFIERS" fun s l => { s with suites := l },
   words "HOOK_NAMES" fun s l => { s with hooks := l },
   word "SCENARIO_PREFIX" fun s t => { s with scenarioHead := t },
   word "SCENARIO_FN_SUFFIX" fun s t => { s with functionTail := t }]

end SettingSpec

/-- Names with what is assigned to them, if anything is. -/
abbrev Assignments := List (String × Option String)

/-- What was last assigned to a name, its case aside. -/
def Assignments.last? (a : Assignments) (name : String) : Option String :=
  ((a.reverse.find? fun (n, _) => lowered n = lowered name).bind (·.2))

/-- The setting as it was written. JSON's null stands for a setting that is left out. -/
def SettingSpec.raw (spec : SettingSpec) (a : Assignments) :
    Except SettingsFault (Option RawSetting) :=
  match a.last? spec.name with
  | none => .ok none
  | some text =>
    if spec.isJson then
      match Json.read? text.toList with
      | none => .error (.notJson spec.name)
      | some .null => .ok none
      | some v => .ok (some (.json v))
    else .ok (some (.plain text))

/-- Sets what was written. -/
def SettingSpec.apply (s : Settings) : List (SettingSpec × Option RawSetting) →
    Except SettingsFault Settings
  | [] => .ok s
  | (_, none) :: rest => apply s rest
  | (spec, some raw) :: rest =>
    match spec.set? s raw with
    | some s => apply s rest
    | none => .error (.unfit spec.name)

/-- The settings that the environment makes, or else the file, or else the defaults. -/
def Settings.read (env : List (String × String)) (file : String) : Except SettingsFault Settings := do
  let fromEnv ← SettingSpec.all.mapM (·.raw (env.map fun (n, t) => (n, some t)))
  let fromFile ← SettingSpec.all.mapM (·.raw (EnvFile.read env file))
  SettingSpec.apply {} (SettingSpec.all.zip ((fromEnv.zip fromFile).map fun (e, f) => e.or f))

end SuiteOutline
