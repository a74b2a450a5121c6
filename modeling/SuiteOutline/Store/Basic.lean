import SuiteOutline.Store.Record
import SuiteOutline.Trace

/-! The store for records of requests: at most one client, made when it is first needed. -/
namespace SuiteOutline

structure Store where
  /-- Where the server is; storing is off if this is empty. -/
  uri : String
  database : String
  /-- Whether a client is held. -/
  isOpen : Bool
deriving Repr, DecidableEq

/-- What the server refuses. -/
structure Refusals where
  connect : Bool := false
  ping : Bool := false
  insert : Bool := false
  close : Bool := false
deriving Repr, DecidableEq

/-- What the server gets to see. -/
inductive StoreEvent where
  | connect (uri : String)
  | ping
  | insert (database collection : String) (record : StoredRecord)
  | close
deriving Repr

/-- A client that could not be made. -/
structure ConnectFault where
  message : String
deriving Repr, DecidableEq

/-- What an operation answers, what the server saw of it, what was logged, and the store after it. -/
structure StoreStep (α : Type) where
  answer : Except ConnectFault α
  events : List StoreEvent
  log : List LogEntry
  store : Store

namespace Store

def collection : String := "api_logs"

/-- Whether there is a database to talk to; makes the client if need be. -/
def connected (s : Store) (r : Refusals) : StoreStep Bool :=
  if s.uri = "" then ⟨.ok false, [], [], s⟩
  else if s.isOpen then ⟨.ok true, [], [], s⟩
  else if r.connect then ⟨.error ⟨"connect refused"⟩, [], [], s⟩
  else ⟨.ok true, [.connect s.uri], [], { s with isOpen := true }⟩

/-- Goes on from a step that found a database, or did not. -/
def whenConnected {α : Type} (s : Store) (r : Refusals) (without : α × List LogEntry)
    (within : Store → α × List StoreEvent × List LogEntry) : StoreStep α :=
  let step := s.connected r
  match step.answer with
  | .error e => ⟨.error e, step.events, step.log, step.store⟩
  | .ok false => ⟨.ok without.1, step.events, step.log ++ without.2, step.store⟩
  | .ok true =>
    let (a, events, log) := within step.store
    ⟨.ok a, step.events ++ events, step.log ++ log, step.store⟩

/-- Whether the server answers. -/
def check (s : Store) (r : Refusals) : StoreStep Bool :=
  s.whenConnected r (false, [⟨.info, "MONGO_URI not set; API audit logs are disabled"⟩]) fun _ =>
    if r.ping then (false, [], [⟨.error, "MongoDB connection failed: ping refused"⟩])
    else (true, [.ping], [⟨.info, "MongoDB connection successful"⟩])

/-- Stores a record. One that does not fit, or that the server refuses, is only logged. -/
def log (s : Store) (r : Refusals) (fields : List (String × Value)) : StoreStep Unit :=
  s.whenConnected r ((), []) fun s =>
    match StoredRecord.ofFields fields with
    | .error n =>
      let errors := if n = 1 then "error" else "errors"
      ((), [], [⟨.error, s!"MongoDB log_api_call failed: {n} validation {errors} for APILog"⟩])
    | .ok record =>
      if r.insert then ((), [], [⟨.error, "MongoDB log_api_call failed: insert refused"⟩])
      else ((), [.insert s.database collection record], [])

/-- Lets go of the client, whatever the server says. -/
def close (s : Store) (r : Refusals) : StoreStep Unit :=
  if !s.isOpen then ⟨.ok (), [], [], s⟩
  else
    let closed := { s with isOpen := false }
    if r.close then ⟨.ok (), [], [⟨.error, "MongoDB close failed: close refused"⟩], closed⟩
    else ⟨.ok (), [.close], [⟨.info, "MongoDB connection closed"⟩], closed⟩

end Store
end SuiteOutline
