import SuiteOutline.Record
import SuiteOutline.Vocabulary

/-! Where a command is defined and used across the outlines of many files. -/
namespace SuiteOutline

/-- A definition or usage of a command, in its file. -/
structure CommandMatch where
  filename : String
  span : Span
  chain : List String
deriving Repr

structure CommandLookup where
  name : Text
  definitions : List CommandMatch
  usages : List CommandMatch
deriving Repr

inductive LookupStatus where
  | missing | undefined | duplicate | unused | ok
deriving Repr, DecidableEq

def LookupStatus.name : LookupStatus → String
  | missing => "missing"
  | undefined => "undefined"
  | duplicate => "duplicate"
  | unused => "unused"
  | ok => "ok"

namespace CommandLookup

/-- The definitions and usages of a command, file by file. -/
def ofOutlines (name : Text) (outlines : List (String × Outline)) : CommandLookup where
  name
  definitions := outlines.flatMap fun (filename, o) =>
    ((o.added.getD []).filter (·.name = name)).map fun d => ⟨filename, d.span, []⟩
  usages := outlines.flatMap fun (filename, o) =>
    ((o.used.getD []).filter (Text.ofString ·.name = name)).map fun u => ⟨filename, u.span, u.chain⟩

def status (l : CommandLookup) : LookupStatus :=
  match l.definitions, l.usages with
  | [], [] => .missing
  | [], _ :: _ => .undefined
  | _ :: _ :: _, _ => .duplicate
  | [_], [] => .unused
  | [_], _ :: _ => .ok

end CommandLookup

/-- A usage written out: `cy.get().find().click()`. -/
def usageText (v : Vocabulary) (name : String) (chain : List String) : String :=
  v.commandHead ++ String.join (chain.map (· ++ "().")) ++ name ++ "()"

end SuiteOutline
