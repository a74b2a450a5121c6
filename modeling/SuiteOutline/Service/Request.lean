import SuiteOutline.Document.Basic
import SuiteOutline.Service.Archive

/-! Requests to the service, its responses, and the record that is kept of each. -/
namespace SuiteOutline

/-- A file sent along with a request. -/
structure Upload where
  filename : String
  content : FileContent

/-- A quote or control character as a sender escapes it for its way in a header. Senders do this,
not the service. -/
def headerEscaped (c : Char) : List Char :=
  if c = '"' || (c.toNat < 0x20 && c.toNat ≠ 0x1B) then
    '%' :: [c.toNat / 16, c.toNat % 16].map fun d => (Nat.digitChar d).toUpper
  else [c]

/-- The name under which a file reaches the service, escaped by its sender and then read by the form
parser, which keeps only the last part of a path on a drive or a share. -/
def arrivingName (name : String) : String :=
  let sent := name.toList.flatMap headerEscaped
  let foreign := (sent.drop 1).take 2 = [':', '\\'] || sent.take 2 = ['\\', '\\']
  if foreign then String.ofList (sent.reverse.takeWhile (· != '\\')).reverse
  else String.ofList sent

/-- The form that asks for the outline of one script, as the framework has parsed it: no limit on
the length of a field is left to apply. The choices are as they were written. -/
structure ScriptForm where
  scenarios : Option String
  inner : Option String
  script : Option Script
  file : Option Upload

/-- The form that asks for the outlines of an archive's scripts. -/
structure ArchiveForm where
  scenarios : Option String
  inner : Option String
  archive : Option (String × Archive)

inductive Request where
  | health
  | script (form : ScriptForm)
  | archive (form : ArchiveForm)

def Request.method : Request → String
  | health => "GET"
  | script _ | archive _ => "POST"

def Request.path : Request → String
  | health => "/health/"
  | script _ => "/analyze/"
  | archive _ => "/analyze-project/"

inductive Body where
  | document (d : Document)
  /-- Documents by file name. -/
  | outlines (ds : List (String × Document))
deriving Repr

structure Response where
  status : Nat
  body : Body
deriving Repr

/-- A response that only says what went wrong. -/
def Response.detail (status : Nat) (message : String) : Response :=
  ⟨status, .document (.record [("detail", .string message)])⟩

/-- How a request failed, as far as its record tells. -/
inductive AuditError where
  /-- The request was at fault. -/
  | rejected (message : String)
  /-- The service was at fault; the record holds a trace of it. -/
  | crashed
deriving Repr, DecidableEq

/-- What the record says of a failure. Of the service's own it says no more than that there was one. -/
def AuditError.message : AuditError → String
  | rejected message => message
  | crashed => "crashed"

/-- The trace that a record holds. -/
def AuditError.trace? : AuditError → Option String
  | rejected _ => none
  | crashed => some "crashed"

/-- What the handling of a request adds to its record. -/
structure AuditNotes where
  fileName : Option String := none
  fileCount : Option Nat := none
  recordCount : Option Nat := none
  diagnosticCount : Option Nat := none
  error : Option AuditError := none
deriving Repr, DecidableEq

structure AuditRecord where
  method : String
  path : String
  status : Nat
  notes : AuditNotes
deriving Repr, DecidableEq

end SuiteOutline
