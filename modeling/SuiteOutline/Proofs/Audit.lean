import Mathlib.Data.List.Forall2
import Mathlib.Data.List.Induction
import SuiteOutline.Service.Session

/-! What is stored of the requests of a session, and that none of it shows in the responses. -/
namespace SuiteOutline

/-- Fields that fit make a record. -/
theorem StoredRecord.ofFields_of_fit {fields : List (String × Value)} {r : StoredRecord}
    (htime : fields.lookup "timestamp" = none)
    (hmethod : asText ((fields.lookup "method").getD .null) = .ok r.method)
    (hpath : asText ((fields.lookup "path").getD .null) = .ok r.path)
    (hquery : asObject ((fields.lookup "query_params").getD .null) = .ok r.queryParams)
    (hip : asText ((fields.lookup "ip").getD .null) = .ok r.ip)
    (hagent : asText ((fields.lookup "user_agent").getD .null) = .ok r.userAgent)
    (hduration : asReal ((fields.lookup "duration_ms").getD .null) = .ok r.durationMs)
    (hstatus : asInteger ((fields.lookup "status").getD .null) = .ok r.status)
    (hfile : asText ((fields.lookup "file_name").getD .null) = .ok r.fileName)
    (hfiles : asInteger ((fields.lookup "file_count").getD .null) = .ok r.fileCount)
    (hrecords : asInteger ((fields.lookup "record_count").getD .null) = .ok r.recordCount)
    (hdiagnostics : asInteger ((fields.lookup "diagnostic_count").getD .null) =
      .ok r.diagnosticCount)
    (herror : asText ((fields.lookup "error").getD .null) = .ok r.error)
    (htrace : asText ((fields.lookup "traceback").getD .null) = .ok r.traceback) :
    ofFields fields = .ok r := by
  unfold ofFields
  simp only [htime, hmethod, hpath, hquery, hip, hagent, hduration, hstatus, hfile, hfiles,
    hrecords, hdiagnostics, herror, htrace, errors, Option.map_none, Option.getD_none]
  rfl

namespace Service

theorem lookup_noted (name key : String) (value : Option Value) :
    (noted name value).lookup key = if key = name then value else none := by
  cases value with
  | none => simp [noted]
  | some v =>
    by_cases h : key = name
    · simp [noted, h]
    · have hbeq : (key == name) = false := by simpa using h
      simp [noted, List.lookup_cons, hbeq, h]

theorem lookup_noteFields (n : AuditNotes) :
    (noteFields n).lookup "file_name" = n.fileName.map textValue ∧
      (noteFields n).lookup "file_count" = n.fileCount.map countValue ∧
      (noteFields n).lookup "record_count" = n.recordCount.map countValue ∧
      (noteFields n).lookup "diagnostic_count" = n.diagnosticCount.map countValue ∧
      (noteFields n).lookup "error" = n.error.map (fun e => textValue e.message) ∧
      (noteFields n).lookup "traceback" = (n.error.bind AuditError.trace?).map textValue := by
  simp [noteFields, List.lookup_append, lookup_noted]

/-- What a request can note. -/
def noteNames : List String :=
  ["file_name", "file_count", "record_count", "diagnostic_count", "error", "traceback"]

theorem lookup_noteFields_eq_none (n : AuditNotes) {key : String} (h : key ∉ noteNames) :
    (noteFields n).lookup key = none := by
  simp only [noteNames, List.mem_cons, List.not_mem_nil, or_false, not_or] at h
  simp [noteFields, List.lookup_append, lookup_noted, h]

/-- The record of a request as the store holds it. -/
def storedRecord (c : Circumstances) (r : AuditRecord) : StoredRecord where
  method := some (Text.ofString r.method)
  path := some (Text.ofString r.path)
  queryParams := some (c.queryParams.map fun (k, v) => (k, .text v))
  ip := c.ip
  userAgent := c.userAgent
  durationMs := some c.durationMs
  status := some r.status
  fileName := r.notes.fileName.map Text.ofString
  fileCount := r.notes.fileCount.map Int.ofNat
  recordCount := r.notes.recordCount.map Int.ofNat
  diagnosticCount := r.notes.diagnosticCount.map Int.ofNat
  error := r.notes.error.map fun e => Text.ofString e.message
  traceback := (r.notes.error.bind AuditError.trace?).map Text.ofString

/-- The fields of a record always fit, and what was noted hides none of the others. -/
theorem ofFields_recordFields (c : Circumstances) (r : AuditRecord) :
    StoredRecord.ofFields (recordFields c r) = .ok (storedRecord c r) := by
  have htext : ∀ {α : Type} (o : Option α) (f : α → Text),
      StoredRecord.asText ((o.map fun a => .text (f a)).getD .null) = .ok (o.map f) := by
    intro α o f
    cases o <;> rfl
  have hgiven : ∀ o : Option Text, StoredRecord.asText ((o.map .text).getD .null) = .ok o := by
    intro o
    cases o <;> rfl
  have hcount : ∀ o : Option Nat,
      StoredRecord.asInteger ((o.map countValue).getD .null) = .ok (o.map Int.ofNat) := by
    intro o
    cases o <;> rfl
  have hrequest : ∀ key, key ∉ noteNames →
      (recordFields c r).lookup key = (requestFields c r).lookup key := by
    intro key h
    rw [recordFields, List.lookup_append, lookup_noteFields_eq_none _ h, Option.none_or]
  have hnote : ∀ key, (requestFields c r).lookup key = none →
      (recordFields c r).lookup key = (noteFields r.notes).lookup key := by
    intro key h
    rw [recordFields, List.lookup_append, h, Option.or_none]
  obtain ⟨hfile, hfiles, hrecords, hdiagnostics, herror, htrace⟩ := lookup_noteFields r.notes
  apply StoredRecord.ofFields_of_fit
  case htime => exact hrequest _ (by decide)
  case hmethod | hpath | hquery | hduration | hstatus =>
    rw [hrequest _ (by decide)]
    rfl
  case hip =>
    rw [hrequest _ (by decide)]
    exact hgiven c.ip
  case hagent =>
    rw [hrequest _ (by decide)]
    exact hgiven c.userAgent
  case hfile =>
    rw [hnote _ rfl, hfile]
    exact htext _ _
  case hfiles =>
    rw [hnote _ rfl, hfiles]
    exact hcount _
  case hrecords =>
    rw [hnote _ rfl, hrecords]
    exact hcount _
  case hdiagnostics =>
    rw [hnote _ rfl, hdiagnostics]
    exact hcount _
  case herror =>
    rw [hnote _ rfl, herror]
    exact htext _ _
  case htrace =>
    rw [hnote _ rfl, htrace]
    exact htext _ _

/-! The store. -/

/-- The records that the server was given to insert. -/
def insertedRecords (events : List StoreEvent) : List StoredRecord :=
  events.filterMap fun
    | .insert _ _ record => some record
    | _ => none

/-- The store has a client that it held before, or can make one now. -/
def reachesServer (store : Store) (refusals : Refusals) : Bool :=
  store.uri ≠ "" && (store.isOpen || !refusals.connect)

/-- Handing a record to the store makes a client unless that fails or the store is off, and inserts
the record unless that is refused. -/
theorem log_recordFields (store : Store) (refusals : Refusals) (c : Circumstances)
    (r : AuditRecord) :
    (store.log refusals (recordFields c r)).store =
        { store with isOpen := store.isOpen || reachesServer store refusals } ∧
      insertedRecords (store.log refusals (recordFields c r)).events =
        (if reachesServer store refusals && !refusals.insert then [storedRecord c r] else []) ∧
      (store.uri = "" → (store.log refusals (recordFields c r)).events = []) := by
  obtain ⟨uri, database, isOpen⟩ := store
  by_cases huri : uri = ""
  · simp [Store.log, Store.whenConnected, Store.connected, reachesServer, insertedRecords, huri]
  · cases isOpen <;> cases hconnect : refusals.connect <;> cases hinsert : refusals.insert <;>
      simp [Store.log, Store.whenConnected, Store.connected, reachesServer, insertedRecords, huri,
        hconnect, hinsert, ofFields_recordFields]

/-! Exchanges. -/

/-- What is sent for a request. -/
def Received.sent (r : Received) : Ending := (dispatch r.method r.path r.handled).1

/-- The record of a request, as the store would hold it, if one is kept. -/
def Received.record? (r : Received) : Option StoredRecord :=
  (dispatch r.method r.path r.handled).2.map (storedRecord r.circumstances)

/-- What is sent for a request and what is handed to the store, as they should be. -/
structure Accounted (r : Received) (x : Exchange) : Prop where
  unrecorded : isRecorded r.path = false → x.sent = r.handled.ending ∧ x.logged = none
  answered : isRecorded r.path = true → ∀ response, r.handled.ending = .responded response →
    x.sent = .responded response ∧ x.logged = some (recordFields r.circumstances
      ⟨r.method, r.path, response.status, r.handled.notes⟩)
  crashed : isRecorded r.path = true → r.handled.ending = .raised →
    ∃ response, x.sent = .responded response ∧ response.status = 500 ∧
      x.logged = some (recordFields r.circumstances
        ⟨r.method, r.path, 500, { r.handled.notes with error := some .crashed }⟩)

section

variable (store : Store) (refusals : Refusals) (r : Received)

theorem accounted_exchange : Accounted r (exchange store refusals r).1 := by
  constructor
  · intro hpath
    simp [exchange, dispatch, hpath]
  · intro hpath response hending
    simp [exchange, dispatch, hpath, hending]
  · intro hpath hending
    refine ⟨crashResponse, ?_, rfl, ?_⟩
    · simp [exchange, dispatch, hpath, hending]
    · simp [exchange, dispatch, hpath, hending, crashResponse, Response.detail]

theorem exchange_sent : (exchange store refusals r).1.sent = r.sent := by
  unfold exchange Received.sent
  split
  case h_1 h => rw [h]
  case h_2 h => rw [h]

theorem isSome_record? : r.record?.isSome = isRecorded r.path := by
  unfold Received.record? dispatch
  cases isRecorded r.path with
  | false => rfl
  | true => cases r.handled.ending <;> rfl

/-- Only a request that leaves a record makes a client. -/
theorem exchange_store :
    (exchange store refusals r).2 = { store with
      isOpen := store.isOpen || (isRecorded r.path && reachesServer store refusals) } := by
  have hrecorded := isSome_record? r
  unfold Received.record? at hrecorded
  unfold exchange
  split
  case h_1 h =>
    rw [h] at hrecorded
    simp [← hrecorded]
  case h_2 h =>
    rw [h] at hrecorded
    rw [← hrecorded]
    exact (log_recordFields store refusals _ _).1

theorem exchange_inserted : insertedRecords (exchange store refusals r).1.events =
    if reachesServer store refusals && !refusals.insert then r.record?.toList else [] := by
  unfold exchange Received.record?
  split
  case h_1 h => simp [h, insertedRecords]
  case h_2 h =>
    rw [h]
    exact (log_recordFields store refusals _ _).2.1

theorem exchange_events (huri : store.uri = "") : (exchange store refusals r).1.events = [] := by
  unfold exchange
  split
  · rfl
  · exact (log_recordFields store refusals _ _).2.2 huri

end

/-! Sessions. -/

section

variable (store : Store) (run : List (Received × Refusals))

/-- One request more. -/
theorem session_concat (p : Received × Refusals) :
    session store (run ++ [p]) =
      ((session store run).1 ++ [(exchange (session store run).2 p.2 p.1).1],
        (exchange (session store run).2 p.2 p.1).2) := by
  induction run generalizing store with
  | nil => rfl
  | cons q run ih =>
    simp only [List.cons_append, session, ih]

/-- A client could be made for one of the requests. -/
def makesClient (run : List (Received × Refusals)) : Bool :=
  run.any fun p => isRecorded p.1.path && !p.2.connect

theorem session_store : (session store run).2 =
    { store with isOpen := store.isOpen || (store.uri ≠ "" && makesClient run) } := by
  induction run using List.reverseRecOn with
  | nil => simp [session, makesClient]
  | append_singleton run p ih =>
    have hmakes : makesClient (run ++ [p]) =
        (makesClient run || (isRecorded p.1.path && !p.2.connect)) := by
      simp [makesClient, List.any_append]
    rw [session_concat, exchange_store, ih, hmakes]
    congr 1
    rw [Bool.eq_iff_iff]
    simp only [reachesServer, Bool.or_eq_true, Bool.and_eq_true]
    tauto

/-- The record of the last of these requests gets into the store: it is on, it has a client by then,
and the server does not refuse. -/
def takesRecord (upTo : List (Received × Refusals)) (refusals : Refusals) : Bool :=
  store.uri ≠ "" && (store.isOpen || makesClient upTo) && !refusals.insert

/-- The records of those requests that leave one and whose record gets into the store, in order. -/
def insertions : List StoredRecord :=
  run.zipIdx.filterMap fun p =>
    if takesRecord store (run.take (p.2 + 1)) p.1.2 then p.1.1.record? else none

theorem insertions_concat (p : Received × Refusals) :
    insertions store (run ++ [p]) = insertions store run ++
      if takesRecord store (run ++ [p]) p.2 then p.1.record?.toList else [] := by
  have htake : ∀ q ∈ run.zipIdx, (run ++ [p]).take (q.2 + 1) = run.take (q.2 + 1) := by
    intro q hq
    have hlt := (List.mem_zipIdx hq).2.1
    exact List.take_append_of_le_length (by omega)
  have hall : (run ++ [p]).take (run.length + 1) = run ++ [p] := List.take_of_length_le (by simp)
  have hlast : [p].zipIdx (0 + run.length) = [(p, run.length)] := by simp
  unfold insertions
  rw [List.zipIdx_append, List.filterMap_append, hlast]
  congr 1
  · refine List.filterMap_congr fun q hq => ?_
    rw [htake q hq]
  · rw [List.filterMap_cons, hall]
    cases takesRecord store (run ++ [p]) p.2 with
    | false => rfl
    | true => cases p.1.record? <;> rfl

theorem inserted_session :
    ((session store run).1.flatMap fun x => insertedRecords x.events) = insertions store run := by
  induction run using List.reverseRecOn with
  | nil => rfl
  | append_singleton run p ih =>
    have hlast : insertedRecords (exchange (session store run).2 p.2 p.1).1.events =
        if takesRecord store (run ++ [p]) p.2 then p.1.record?.toList else [] := by
      rw [exchange_inserted, session_store]
      have hrecorded := isSome_record? p.1
      cases hrecord : p.1.record? with
      | none => simp
      | some record =>
        -- the request leaves a record, so it may be the one that makes the client
        rw [hrecord] at hrecorded
        have hmakes : makesClient (run ++ [p]) = (makesClient run || !p.2.connect) := by
          simp [makesClient, List.any_append, ← hrecorded]
        have hreaches : reachesServer
            { store with isOpen := store.isOpen || (store.uri ≠ "" && makesClient run) } p.2 =
            (store.uri ≠ "" && (store.isOpen || makesClient (run ++ [p]))) := by
          rw [hmakes, Bool.eq_iff_iff]
          simp only [reachesServer, Bool.or_eq_true, Bool.and_eq_true]
          tauto
        rw [hreaches, takesRecord]
    rw [session_concat, List.flatMap_append, ih, insertions_concat, ← hlast]
    simp

theorem sent_session : (session store run).1.map (·.sent) = run.map (·.1.sent) := by
  induction run generalizing store with
  | nil => rfl
  | cons p run ih => simp only [session, List.map_cons, exchange_sent, ih]

/-- The service responds as it answers. -/
theorem response_serve (s : Settings) (rooms : Rooms) (schedule : Schedule)
    (requests : List (Request × Circumstances × Refusals)) :
    (serve s rooms schedule store requests).1.map (·.sent.response) =
      requests.map fun p => (answer s rooms schedule p.1).1 := by
  have hsent := congrArg (List.map Ending.response) (sent_session store
    (requests.map fun p => (Received.ofRequest s rooms schedule p.2.1 p.1, p.2.2)))
  rw [List.map_map, List.map_map, List.map_map] at hsent
  exact hsent

theorem accounted_session :
    List.Forall₂ (fun p x => Accounted p.1 x) run (session store run).1 := by
  induction run generalizing store with
  | nil => exact .nil
  | cons p run ih => exact .cons (accounted_exchange store p.2 p.1) (ih _)

theorem events_session (huri : store.uri = "") : ∀ x ∈ (session store run).1, x.events = [] := by
  induction run generalizing store with
  | nil => nofun
  | cons p run ih =>
    have hrest : (exchange store p.2 p.1).2.uri = "" := by
      rw [exchange_store]
      exact huri
    exact List.forall_mem_cons.mpr ⟨exchange_events store p.2 p.1 huri, ih _ hrest⟩

/-- The store never shows in a response. What is sent is the same whatever the store and the server
do; one record is handed over for each request off the health paths, with what was sent; those that
get in are stored in order; and with the store off, nothing happens there at all. -/
theorem responses_independent_of_store :
    (∀ (store' : Store) (run' : List (Received × Refusals)), run'.map (·.1) = run.map (·.1) →
      (session store' run').1.map (·.sent) = (session store run).1.map (·.sent)) ∧
    (∀ (s : Settings) (rooms : Rooms) (schedule : Schedule)
      (requests : List (Request × Circumstances × Refusals)),
      (serve s rooms schedule store requests).1.map (·.sent.response) =
        requests.map fun p => (answer s rooms schedule p.1).1) ∧
    List.Forall₂ (fun p x => Accounted p.1 x) run (session store run).1 ∧
    (∀ c record, StoredRecord.ofFields (recordFields c record) = .ok (storedRecord c record)) ∧
    ((session store run).1.flatMap fun x => insertedRecords x.events) = insertions store run ∧
    (store.uri = "" →
      (session store run).2 = store ∧ ∀ x ∈ (session store run).1, x.events = []) := by
  refine ⟨fun store' run' hrun => ?_, response_serve store, accounted_session store run,
    ofFields_recordFields, inserted_session store run,
    fun huri => ⟨?_, events_session store run huri⟩⟩
  · have hsent : ∀ l : List (Received × Refusals),
        l.map (·.1.sent) = (l.map (·.1)).map Received.sent := by
      intro l
      rw [List.map_map]
      rfl
    rw [sent_session, sent_session, hsent run', hsent run, hrun]
  · have hopen : (store.isOpen || (store.uri ≠ "" && makesClient run)) = store.isOpen := by
      simp [huri]
    rw [session_store, hopen]

end

end Service
end SuiteOutline
