import SuiteOutline.Service.Answer
import SuiteOutline.Store.Basic

/-! Sessions: requests dispatched one after the other, each record handed to the store. -/
namespace SuiteOutline.Service

/-- What a record says of the caller and the clock, the time of day aside. -/
structure Circumstances where
  queryParams : List (Text × Text)
  ip : Option Text
  userAgent : Option Text
  durationMs : Binary64
deriving Repr

/-- A request that has been handled. -/
structure Received where
  method : String
  path : String
  circumstances : Circumstances
  handled : Handled
deriving Repr

/-- A request to the service, handled with those rooms, its workers on the schedule. -/
def Received.ofRequest (s : Settings) (rooms : Rooms) (schedule : Schedule)
    (circumstances : Circumstances) (r : Request) : Received :=
  ⟨r.method, r.path, circumstances, handle s rooms schedule r⟩

def textValue (s : String) : Value := .text (Text.ofString s)

def countValue (n : Nat) : Value := .number (.integer n)

/-- A field that is left out if there is nothing to say. -/
def noted (name : String) (value : Option Value) : List (String × Value) :=
  (value.map (name, ·)).toList

/-- The fields in which a request's own notes are kept. -/
def noteFields (n : AuditNotes) : List (String × Value) :=
  noted "file_name" (n.fileName.map textValue) ++
    noted "file_count" (n.fileCount.map countValue) ++
    noted "record_count" (n.recordCount.map countValue) ++
    noted "diagnostic_count" (n.diagnosticCount.map countValue) ++
    noted "error" (n.error.map fun e => textValue e.message) ++
    noted "traceback" ((n.error.bind AuditError.trace?).map textValue)

/-- The fields that every record has. -/
def requestFields (c : Circumstances) (r : AuditRecord) : List (String × Value) :=
  [("method", textValue r.method), ("path", textValue r.path),
   ("query_params", .object (c.queryParams.map fun (k, v) => (k, .text v))),
   ("ip", (c.ip.map .text).getD .null), ("user_agent", (c.userAgent.map .text).getD .null),
   ("duration_ms", .number (.real c.durationMs)), ("status", countValue r.status)]

/-- The fields of a record. What was noted stands in front, and so counts before the rest. -/
def recordFields (c : Circumstances) (r : AuditRecord) : List (String × Value) :=
  noteFields r.notes ++ requestFields c r

/-- What came of a request: what was sent, the fields handed to the store, and what the server saw of
them. -/
structure Exchange where
  sent : Ending
  logged : Option (List (String × Value))
  events : List StoreEvent

/-- A request dispatched. What the store answers, errors included, is let go. -/
def exchange (store : Store) (refusals : Refusals) (r : Received) : Exchange × Store :=
  match dispatch r.method r.path r.handled with
  | (sent, none) => (⟨sent, none, []⟩, store)
  | (sent, some record) =>
    let fields := recordFields r.circumstances record
    let step := store.log refusals fields
    (⟨sent, some fields, step.events⟩, step.store)

/-- Requests dispatched in turn, with what the server refuses during each. -/
def session (store : Store) : List (Received × Refusals) → List Exchange × Store
  | [] => ([], store)
  | (r, refusals) :: rest =>
    let (first, store) := exchange store refusals r
    let (later, store) := session store rest
    (first :: later, store)

/-- Requests to the service, each with its circumstances and what the server refuses during it. -/
def serve (s : Settings) (rooms : Rooms) (schedule : Schedule) (store : Store)
    (requests : List (Request × Circumstances × Refusals)) : List Exchange × Store :=
  session store (requests.map fun (r, c, refusals) => (.ofRequest s rooms schedule c r, refusals))

end SuiteOutline.Service
