import SuiteOutline.Service.Request

/-! What becomes of a request once it is handled: the response that is sent, and the record that is
kept. -/
namespace SuiteOutline.Service

/-- How the handling of a request ends: with a response, or in an error that nothing caught. -/
inductive Ending where
  | responded (r : Response)
  | raised
deriving Repr

/-- A request's handling: how it ended, and what it noted for the record. -/
structure Handled where
  ending : Ending
  notes : AuditNotes
deriving Repr

/-- Checks of the service's health leave no record. -/
def unrecordedPaths : List String := ["/health", "/health/"]

def isRecorded (path : String) : Bool := !unrecordedPaths.contains path

/-- The response to a request that the service failed on. -/
def crashResponse : Response := .detail 500 "Internal Server Error"

/-- The response that reaches the caller, even for an error that is passed on. -/
def Ending.response : Ending → Response
  | responded r => r
  | raised => crashResponse

/-- What is sent for a request, and the record to keep of it. An error becomes a response; where no
record is kept, all is passed on as it is. -/
def dispatch (method path : String) (h : Handled) : Ending × Option AuditRecord :=
  if isRecorded path then
    match h.ending with
    | .responded r => (.responded r, some ⟨method, path, r.status, h.notes⟩)
    | .raised =>
      (.responded crashResponse,
        some ⟨method, path, crashResponse.status, { h.notes with error := some .crashed }⟩)
  else (h.ending, none)

end SuiteOutline.Service
