import SuiteOutline.Document.Renderable
import SuiteOutline.Document.Reserved
import SuiteOutline.Number.Whole
import SuiteOutline.Service.Audit

/-! Answers of the service. -/
namespace SuiteOutline.Service

/-- A field of a form that is not as it should be. -/
structure FieldFault where
  field : String
  kind : String
deriving Repr, DecidableEq

/-- A choice on a form: left open if nothing is written. -/
def choice (field : String) (written : Option String) : Except FieldFault (Option Bool) :=
  match written with
  | none | some "" => .ok none
  | some text =>
    match readSwitch? text with
    | some b => .ok (some b)
    | none => .error ⟨field, "bool_parsing"⟩

/-- Whether a form gives a file. What is sent without a file name is a plain field: it gives no file,
and has to be empty. -/
def givesFile (field filename : String) (size : Nat) : Except FieldFault Bool :=
  if filename ≠ "" then .ok true
  else if size = 0 then .ok false
  else .error ⟨field, "value_error"⟩

def faults {α : Type} : Except FieldFault α → List FieldFault
  | .ok _ => []
  | .error e => [e]

/-- The response to a form with faults. -/
def invalidForm (fs : List FieldFault) : Response :=
  ⟨422, .document (.record [("detail", .list (fs.map fun f =>
    .record [("loc", .list [.string "body", .string f.field]), ("type", .string f.kind)]))])⟩

def countRecords (o : Outline) : Nat :=
  (o.added.getD []).length + (o.used.getD []).length + (o.tests.getD []).length +
    (o.scenarios.getD []).length + total ((o.hooks.getD []).map (·.2.length))

/-- The name, or the one to fall back on if there is none. -/
def nameOr (name : Option String) (fallback : String) : String :=
  match name with
  | none | some "" => fallback
  | some n => n

/-- The response to a script that cannot be outlined, and what its record says; failures that are
not the script's fault end in `crashed`. -/
def failed (fallback crash : String) : Failure → Response × AuditError
  | .unparsed e =>
    (⟨422, .document (.record [("detail", .record
      [("error", .string "SyntaxError"), ("message", .string e.message),
       ("file", .string (nameOr e.filename fallback)), ("line", .int e.line),
       ("column", .int e.column)])])⟩, .rejected e.describe)
  | .commandName e =>
    (⟨422, .document (.record [("detail", .record
      [("error", .string "InvalidCommandName"), ("message", .string e.message),
       ("file", .string (nameOr e.filename fallback)), ("location", .nat e.location)])])⟩,
     .rejected e.message)
  | _ => (.detail 500 crash, .crashed)

/-- A script to outline, under the name it goes by. -/
structure NamedScript where
  filename : String
  script : Script

/-- The file of a form that asks for one script. -/
def scriptFile (form : ScriptForm) : Except FieldFault (Option Upload) :=
  match form.file with
  | none => .ok none
  | some file => do
    let given ← givesFile "file" file.filename file.content.bytes.size
    return if given then some { file with filename := arrivingName file.filename } else none

/-- The script that a form gives: the file if there is one, else the text unless it is blank. A file
may arrive without a name. -/
def givenScript (s : Settings) (file : Option Upload) (script : Option Script) :
    Except Response NamedScript :=
  let tooLarge (what : String) : Except Response NamedScript :=
    .error (.detail 413 s!"{what} too large. Max allowed is {s.maxUploadMb} MB")
  match file, script with
  | some file, _ =>
    if mebibytes s.maxUploadMb < file.content.bytes.size then tooLarge "File"
    else .ok ⟨nameOr (some file.filename) "uploaded_cypress_script.js",
      ⟨(decodeSource file.content.bytes).toList, file.content.tree⟩⟩
  | none, some script =>
    if script.text.all isBlank then
      .error (.detail 400 "Provide either a file or a 'script' text field.")
    else if mebibytes s.maxUploadMb < total (script.text.map Char.utf8Size) then tooLarge "Script"
    else .ok ⟨"pasted_cypress_script.js", script⟩
  | none, none => .error (.detail 400 "Provide either a file or a 'script' text field.")

/-- The answer to a script, outlined with that room. -/
def answerScript (s : Settings) (room : Room) (form : ScriptForm) : Response × AuditNotes :=
  match scriptFile form, choice "scenarios" form.scenarios, choice "include_nested" form.inner with
  | .ok file, .ok scenarios, .ok inner =>
    match givenScript s file form.script with
    | .error r => (r, {})
    | .ok given =>
      let notes : AuditNotes := { fileName := some given.filename, fileCount := some 1 }
      let options := s.options scenarios inner
      match (outlineScript room options s.vocabulary (some given.filename)
          given.script).outcome with
      | .ok o =>
        (⟨200, .document (Document.ofOutline o).withoutReserved⟩,
         { notes with recordCount := some (countRecords o), diagnosticCount := some o.errors.length })
      | .error e =>
        let (response, error) :=
          failed given.filename "Internal server error during Cypress script analysis" e
        (response, { notes with error := some error })
  | file, scenarios, inner =>
    (invalidForm (faults file ++ faults scenarios ++ faults inner), {})

def archiveFaultResponse : ArchiveFault → Response
  | .invalid => .detail 400 "Uploaded file is not a valid ZIP archive"
  | .tooManyFiles => .detail 413 "ZIP contains too many files"
  | .memberTooLarge name => .detail 413 s!"File too large inside ZIP: {name}"
  | .tooLarge => .detail 413 "ZIP expands beyond allowed uncompressed size"

/-- The answer for an archive that was let in under its name. -/
def answerMembers (s : Settings) (room : Room) (schedule : Schedule) (options : Options)
    (filename : String) (a : Archive) : Response × AuditNotes :=
  let notes : AuditNotes := { fileName := some filename }
  match a.scripts s with
  | .error e => (archiveFaultResponse e, notes)
  | .ok scripts =>
    match outlineScripts room options s.vocabulary s.maxWorkers schedule scripts with
    | .error e =>
      let (response, error) := failed "" "Internal server error during Cypress project analysis" e
      (response, { notes with error := some error })
    | .ok [] => (.detail 400 "No Cypress JavaScript files found in ZIP", notes)
    | .ok outlines =>
      let documents := outlines.map fun (name, o) => (name, Document.ofOutline o)
      (⟨200, .outlines (Document.fieldsWithoutReserved documents)⟩,
       { notes with
         fileCount := some outlines.length
         recordCount := some (total (outlines.map (countRecords ·.2)))
         diagnosticCount := some (total (outlines.map (·.2.errors.length))) })

/-- The archive of a form, under the name it arrives by. -/
def formArchive (form : ArchiveForm) : Except FieldFault (String × Archive) :=
  match form.archive with
  | none => .error ⟨"zip_file", "missing"⟩
  | some (filename, a) => do
    if ← givesFile "zip_file" filename a.size then return (arrivingName filename, a)
    else throw ⟨"zip_file", "missing"⟩

/-- The answer to an archive, its scripts outlined by workers with that room. -/
def answerArchive (s : Settings) (room : Room) (schedule : Schedule) (form : ArchiveForm) :
    Response × AuditNotes :=
  match formArchive form, choice "scenarios" form.scenarios,
      choice "include_nested" form.inner with
  | .ok (filename, a), .ok scenarios, .ok inner =>
    if !endsWith ".zip" (lowered filename) then
      (.detail 400 "Uploaded file must be a ZIP archive", {})
    else if a.size ≠ 0 ∧ mebibytes s.maxArchiveMb < a.size then
      (.detail 413 s!"ZIP file too large. Max allowed is {s.maxArchiveMb} MB", {})
    else answerMembers s room schedule (s.options scenarios inner) filename a
  | archive, scenarios, inner =>
    (invalidForm (faults archive ++ faults scenarios ++ faults inner), {})

def bodyIsRenderable : Body → Bool
  | .document d => d.isRenderable
  | .outlines ds => Document.fieldsRenderable ds

/-- A request answered; a response that cannot be written out is an error. -/
def handled (answer : Response × AuditNotes) : Handled :=
  ⟨if bodyIsRenderable answer.1.body then .responded answer.1 else .raised, answer.2⟩

/-- The rooms for outlines that a handler makes itself and for those that its workers make. -/
structure Rooms where
  handler : Room
  worker : Room

/-- The handling of a request, the scripts of an archive outlined by workers on the schedule. -/
def handle (s : Settings) (rooms : Rooms) (schedule : Schedule) : Request → Handled
  | .health =>
    ⟨.responded
      ⟨200, .document (.record [("status", .string "ok"), ("version", .string s.version)])⟩, {}⟩
  | .script form => handled (answerScript s rooms.handler form)
  | .archive form => handled (answerArchive s rooms.worker schedule form)

/-- The response to a request, and the record to keep of it. -/
def answer (s : Settings) (rooms : Rooms) (schedule : Schedule) (r : Request) :
    Response × Option AuditRecord :=
  let (ending, record) := dispatch r.method r.path (handle s rooms schedule r)
  (ending.response, record)

end SuiteOutline.Service
