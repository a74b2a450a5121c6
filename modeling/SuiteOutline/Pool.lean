import SuiteOutline.Outline.Basic
import SuiteOutline.Sorted

/-! Outlines of many files, made by a pool of workers. -/
namespace SuiteOutline

/-- The order in which the jobs of a pool report, given the order in which they were handed in. -/
abbrev Schedule := List String → List String

/-- Jobs that report as they were handed in. -/
def Schedule.inOrder : Schedule := fun names => names

/-- Takes in results as the jobs report; the first failure ends the run. -/
def takeReports {α : Type} (job : String → Except Failure α) :
    List String → Except Failure (List (String × α))
  | [] => .ok []
  | name :: names => do
    let a ← job name
    let rest ← takeReports job names
    return (name, a) :: rest

/-- Runs a job for each distinct name. The results are in the order of the names, whatever the
order of the reports. -/
def runPool {α : Type} (workers : Int) (schedule : Schedule) (names : List String)
    (job : String → Except Failure α) : Except Failure (List (String × α)) :=
  if workers ≤ 0 then .error .noWorkers
  else do
    let ordered := sortedNames names
    let reports ← takeReports job (schedule ordered)
    return ordered.filterMap fun name => (reports.lookup name).map (name, ·)

/-- The outline of the last script that goes by the name. -/
def lastOutline (room : Room) (options : Options) (v : Vocabulary)
    (scripts : List (String × Script)) (name : String) : Except Failure Outline :=
  match scripts.reverse.lookup name with
  | some s => (outlineNamed room options v name s).outcome
  | none => .ok (.empty options v)

/-- Outlines named scripts; of scripts with one name the last counts. -/
def outlineScripts (room : Room) (options : Options) (v : Vocabulary) (workers : Int)
    (schedule : Schedule) (scripts : List (String × Script)) :
    Except Failure (List (String × Outline)) :=
  runPool workers schedule (scripts.map (·.1)) (lastOutline room options v scripts)

end SuiteOutline
