import SuiteOutline.Number.Whole
import SuiteOutline.Store.Moment

/-! Stored records of requests. Fields are taken from loosely written ones where they fit. -/
namespace SuiteOutline

/-- A record as it is stored, its time aside. -/
structure StoredRecord where
  method : Option Text
  path : Option Text
  queryParams : Option (List (Text × Value))
  ip : Option Text
  userAgent : Option Text
  durationMs : Option Binary64
  status : Option Int
  fileName : Option Text
  fileCount : Option Int
  recordCount : Option Int
  diagnosticCount : Option Int
  error : Option Text
  traceback : Option Text
deriving Repr

namespace StoredRecord

/-- A field: absent or null, a value that fits, or an error. -/
abbrev Field (α : Type) := Except Unit (Option α)

def unfit {α : Type} : Field α := .error ()

def asText : Value → Field Text
  | .null => .ok none
  | .text t => .ok (some t)
  | _ => unfit

def asObject : Value → Field (List (Text × Value))
  | .null => .ok none
  | .object entries => .ok (some entries)
  | _ => unfit

def ofOption {α : Type} : Option α → Field α
  | some a => .ok (some a)
  | none => unfit

/-- The whole number that a floating-point number is, if it takes fewer than 64 bits. -/
def wholeOf? (x : Binary64) : Option Int := do
  let n ← x.toInt?
  if n.natAbs < Nat.pow 2 63 then some n else none

/-- Whole numbers, in numeric text too; a truth value counts as one or zero. -/
def asInteger : Value → Field Int
  | .null => .ok none
  | .bool b => .ok (some (if b then 1 else 0))
  | .number (.integer n) => .ok (some n)
  | .number (.real x) => ofOption (wholeOf? x)
  | .text t => if t.hasSurrogate then unfit else ofOption (readWhole? t.toChars)
  | _ => unfit

/-- The nearest finite number, if there is one. -/
def nearestReal? (n : Int) : Option Binary64 :=
  match Binary64.ofQuotient (n < 0) n.natAbs 1 with
  | .finite negative m e => some (.finite negative m e)
  | _ => none

/-- Numbers, in numeric text too; a truth value counts as one or zero. -/
def asReal : Value → Field Binary64
  | .null => .ok none
  | .bool b => ofOption (nearestReal? (if b then 1 else 0))
  | .number (.integer n) => ofOption (nearestReal? n)
  | .number (.real x) => .ok (some x)
  | .text t => if t.hasSurrogate then unfit else ofOption (readMeasure? t.toChars)
  | _ => unfit

/-- The number of fields that do not fit. -/
def errors {α : Type} : Field α → Nat
  | .ok _ => 0
  | .error _ => 1

/-- The record that loosely written fields make; else how many of them do not fit. Unknown fields
are dropped. -/
def ofFields (fields : List (String × Value)) : Except Nat StoredRecord :=
  let get (name : String) : Value := (fields.lookup name).getD .null
  let method := asText (get "method")
  let path := asText (get "path")
  let queryParams := asObject (get "query_params")
  let ip := asText (get "ip")
  let userAgent := asText (get "user_agent")
  let durationMs := asReal (get "duration_ms")
  let status := asInteger (get "status")
  let fileName := asText (get "file_name")
  let fileCount := asInteger (get "file_count")
  let recordCount := asInteger (get "record_count")
  let diagnosticCount := asInteger (get "diagnostic_count")
  let error := asText (get "error")
  let traceback := asText (get "traceback")
  let badTime := if ((fields.lookup "timestamp").map Moment.isMoment).getD true then 0 else 1
  let bad := badTime + errors method + errors path + errors queryParams + errors ip +
    errors userAgent + errors durationMs + errors status + errors fileName + errors fileCount +
    errors recordCount + errors diagnosticCount + errors error + errors traceback
  let held {α : Type} (f : Field α) : Option α := match f with
    | .ok a => a
    | .error _ => none
  if bad = 0 then .ok
    { method := held method, path := held path, queryParams := held queryParams, ip := held ip
      userAgent := held userAgent, durationMs := held durationMs, status := held status
      fileName := held fileName, fileCount := held fileCount, recordCount := held recordCount
      diagnosticCount := held diagnosticCount, error := held error, traceback := held traceback }
  else .error bad

/-- The fields in which a record is stored; what it lacks is null. -/
def fields (r : StoredRecord) : List (String × Value) :=
  let text (t : Option Text) : Value := (t.map .text).getD .null
  let int (n : Option Int) : Value := (n.map (.number ∘ .integer)).getD .null
  [("method", text r.method), ("path", text r.path),
   ("query_params", (r.queryParams.map .object).getD .null), ("ip", text r.ip),
   ("user_agent", text r.userAgent),
   ("duration_ms", (r.durationMs.map (.number ∘ .real)).getD .null), ("status", int r.status),
   ("file_name", text r.fileName), ("file_count", int r.fileCount),
   ("record_count", int r.recordCount), ("diagnostic_count", int r.diagnosticCount),
   ("error", text r.error), ("traceback", text r.traceback)]

end StoredRecord
end SuiteOutline
