import SuiteOutline.Proofs.Limits
import SuiteOutline.Proofs.Renamed
import SuiteOutline.Proofs.Room
import SuiteOutline.Proofs.Schedule
import SuiteOutline.Proofs.Utf8

/-! The ways to hand in a script agree: pasted, uploaded, or as a member of an archive, it is
answered alike. -/
namespace SuiteOutline

/-! Text and bytes. -/

/-- The file that a script is stored in. -/
def Script.content (s : Script) : FileContent := ⟨(String.ofList s.text).toUTF8, s.tree⟩

theorem bytes_content (s : Script) : s.content.bytes = s.text.utf8Encode := by
  rw [Script.content, String.toUTF8_eq_toByteArray, String.toByteArray_ofList]

theorem script_content (s : Script) : s.content.script = s := by
  rw [FileContent.script, bytes_content, decodeSource_utf8Encode, String.toList_ofList]
  rfl

theorem size_content (s : Script) :
    s.content.bytes.size = total (s.text.map Char.utf8Size) := by
  rw [bytes_content, size_utf8Encode]
  rfl

/-! Members. -/

namespace Member

/-- No later member has the name of this one. -/
def IsLast (m : Member) (ms : List Member) : Prop :=
  ∃ before after, ms = before ++ m :: after ∧ m.name ∉ after.map (·.name)

theorem exists_isLast {ms : List Member} {name : String} (h : name ∈ ms.map (·.name)) :
    ∃ m ∈ ms, m.name = name ∧ m.IsLast ms := by
  induction ms with
  | nil => simp at h
  | cons m ms ih =>
    by_cases hlater : name ∈ ms.map (·.name)
    · obtain ⟨m', hm', hname, before, after, rfl, hlast⟩ := ih hlater
      exact ⟨m', List.mem_cons_of_mem _ hm', hname, m :: before, after, rfl, hlast⟩
    · obtain rfl : name = m.name := (List.mem_cons.mp h).resolve_right hlater
      exact ⟨m, List.mem_cons_self, rfl, [], ms, rfl, hlater⟩

theorem isKept_congr {m m' : Member} (h : m.name = m'.name) : m.isKept = m'.isKept := by
  rw [isKept, isKept, h]

/-- The last member of a name is kept if any is. -/
theorem exists_isLast_of_isKept {ms : List Member} {m : Member} (hm : m ∈ ms)
    (hkept : m.isKept = true) : ∃ m' ∈ ms, m'.isKept = true ∧ m'.name = m.name ∧ m'.IsLast ms := by
  obtain ⟨m', hm', hname, hlast⟩ := exists_isLast (List.mem_map_of_mem hm)
  exact ⟨m', hm', (isKept_congr hname).trans hkept, hname, hlast⟩

theorem IsLast.lastOutline_eq {m : Member} {ms : List Member} (h : m.IsLast ms)
    (hkept : m.isKept = true) (room : Room) (options : Options) (v : Vocabulary) :
    lastOutline room options v ((ms.filter isKept).map script) m.name =
      (outlineNamed room options v m.name m.content.script).outcome := by
  obtain ⟨before, after, rfl, hlast⟩ := h
  have hsplit : ((before ++ m :: after).filter isKept).map script =
      (before.filter isKept).map script ++
        (m.name, m.content.script) :: (after.filter isKept).map script := by
    rw [List.filter_append, List.filter_cons_of_pos hkept, List.map_append, List.map_cons, script]
  refine lastOutline_of_append hsplit fun hmem => hlast ?_
  rw [List.map_map] at hmem
  obtain ⟨m', hm', hname⟩ := List.mem_map.mp hmem
  exact List.mem_map.mpr ⟨m', (List.mem_filter.mp hm').1, hname⟩

/-- Where each member that is kept has an outline, a run over their scripts has one for each name,
in the order of the names, that of the last member with it. -/
theorem exists_outlineScripts {room : Room} {options : Options} {v : Vocabulary} {workers : Int}
    {schedule : Schedule} (hworkers : 1 ≤ workers) (hschedule : schedule.Permutes)
    {ms : List Member}
    (h : ∀ m ∈ ms, m.isKept = true →
      ∃ o, (outlineNamed room options v m.name m.content.script).outcome = .ok o) :
    ∃ outlines,
      outlineScripts room options v workers schedule ((ms.filter isKept).map script) =
        .ok outlines ∧
      (outlines.map (·.1)).Pairwise (· < ·) ∧
      (∀ name, name ∈ outlines.map (·.1) ↔ ∃ m ∈ ms, m.isKept = true ∧ m.name = name) ∧
      ∀ p ∈ outlines, ∀ m ∈ ms, m.isKept = true → m.IsLast ms → m.name = p.1 →
        (outlineNamed room options v m.name m.content.script).outcome = .ok p.2 := by
  have hnames : ∀ name, name ∈ ((ms.filter isKept).map script).map (·.1) ↔
      ∃ m ∈ ms, m.isKept = true ∧ m.name = name := by
    simp [script, and_assoc]
  have hjob : ∀ name ∈ ((ms.filter isKept).map script).map (·.1),
      ∃ o, lastOutline room options v ((ms.filter isKept).map script) name = .ok o := by
    intro name hname
    obtain ⟨m, hm, hkept, rfl⟩ := (hnames name).mp hname
    obtain ⟨m', hm', hkept', hname', hlast⟩ := exists_isLast_of_isKept hm hkept
    rw [← hname', hlast.lastOutline_eq hkept']
    exact h m' hm' hkept'
  obtain ⟨outlines, hrun, hsorted, hkeys, hentries⟩ :=
    (settled_runPool hworkers hschedule).results hjob
  refine ⟨outlines, hrun, hsorted, fun name => (hkeys name).trans (hnames name), ?_⟩
  intro p hp m hm hkept hlast hname
  rw [← hlast.lastOutline_eq hkept, hname]
  exact hentries p hp

end Member

/-! Outlines that are sent together. -/

namespace Document

/-- The outlines as they are sent. -/
def sent (outlines : List (String × Outline)) : List (String × Document) :=
  fieldsWithoutReserved (outlines.map fun p => (p.1, ofOutline p.2))

theorem sent_eq (outlines : List (String × Outline)) :
    sent outlines = (outlines.filter fun p => !isReserved (Text.ofString p.1)).map
      fun p => (p.1, (ofOutline p.2).withoutReserved) := by
  induction outlines with
  | nil => rfl
  | cons p outlines ih =>
    rw [sent, List.map_cons, fieldsWithoutReserved, ← sent, ih]
    by_cases hreserved : isReserved (Text.ofString p.1) = true <;> simp [hreserved]

theorem names_sent (outlines : List (String × Outline)) :
    (sent outlines).map (·.1) =
      (outlines.map (·.1)).filter fun name => !isReserved (Text.ofString name) := by
  rw [sent_eq, List.map_map, List.filter_map]
  rfl

theorem mem_sent {outlines : List (String × Outline)} {name : String} {d : Document}
    (h : (name, d) ∈ sent outlines) :
    ∃ o, (name, o) ∈ outlines ∧ d = (ofOutline o).withoutReserved := by
  rw [sent_eq] at h
  obtain ⟨p, hp, heq⟩ := List.mem_map.mp h
  cases heq
  exact ⟨p.2, (List.mem_filter.mp hp).1, rfl⟩

theorem fieldsRenderable_sent {outlines : List (String × Outline)}
    (h : ∀ p ∈ outlines, (ofOutline p.2).Sendable) : fieldsRenderable (sent outlines) = true := by
  rw [sent, fieldsRenderable_withoutReserved, List.forall_mem_map]
  exact fun p hp _ => h p hp

end Document

namespace Service

/-- The levels that there is room for in the outlines of a handler and of its workers. -/
def Rooms.least (rooms : Rooms) : Nat := min rooms.handler.least rooms.worker.least

/-- The name that an uploaded file goes by. -/
def uploadedName (filename : String) : String :=
  nameOr (some (arrivingName filename)) "uploaded_cypress_script.js"

/-- The request that hands in a script as text. -/
def pasting (scenarios inner : Option String) (script : Script) : Request :=
  .script ⟨scenarios, inner, some script, none⟩

/-- The request that hands in a script as a file. -/
def uploading (scenarios inner : Option String) (filename : String) (content : FileContent) :
    Request :=
  .script ⟨scenarios, inner, none, some ⟨filename, content⟩⟩

theorem status_delivered {r : Response} (h : (delivered r).status = 200) :
    r.status = 200 ∧ bodyIsRenderable r.body = true ∧ delivered r = r := by
  unfold delivered at h ⊢
  split at h
  · rename_i hrenderable
    exact ⟨h, hrenderable, if_pos hrenderable⟩
  · exact absurd h (by decide)

theorem status_failed (fallback crash : String) (e : Failure) :
    (failed fallback crash e).1.status ≠ 200 := by
  cases e <;> simp [failed, Response.detail]

/-- The response to a failure can be written out. -/
theorem delivered_failed (fallback crash : String) (e : Failure) :
    delivered (failed fallback crash e).1 = (failed fallback crash e).1 := by
  refine if_pos ?_
  cases e <;>
    simp [failed, Response.detail, bodyIsRenderable, Document.isRenderable, Document.nat,
      Document.fieldsRenderable, Document.string, Text.hasSurrogate_ofString]

theorem status_failed_unnamed (fallback fallback' crash : String) (e : Failure) :
    (failed fallback crash e.unnamed).1.status = (failed fallback' crash e).1.status := by
  cases e <;> rfl

/-- Responses with one status, and with one body if they bear a result. -/
def SameAnswer (r r' : Response) : Prop := r.status = r'.status ∧ (r'.status = 200 → r = r')

/-- Outcomes that differ in the name of a file are answered alike, but for that name. -/
theorem sameAnswer_scriptResponse {x y : Except Failure Outline} (h : Alike x y)
    (name name' : String) :
    SameAnswer (delivered (scriptResponse name x)) (delivered (scriptResponse name' y)) := by
  cases h with
  | ok o => exact ⟨rfl, fun _ => rfl⟩
  | error h =>
    simp only [scriptResponse, delivered_failed]
    refine ⟨?_, fun hok => absurd hok (status_failed _ _ _)⟩
    rw [← status_failed_unnamed name, h, status_failed_unnamed]

/-- Either both choices of a form can be read, or it is answered for their faults alone. -/
theorem choices_or_faults (s : Settings) (scenarios inner : Option String) :
    (∃ x y, choice "scenarios" scenarios = .ok x ∧ choice "include_nested" inner = .ok y) ∨
      ∀ room script file upload, scriptFile ⟨scenarios, inner, script, file⟩ = .ok upload →
        (answerScript s room ⟨scenarios, inner, script, file⟩).1 =
          invalidForm (faults (choice "scenarios" scenarios) ++
            faults (choice "include_nested" inner)) := by
  cases hx : choice "scenarios" scenarios with
  | ok x =>
    cases hy : choice "include_nested" inner with
    | ok y => exact .inl ⟨x, y, rfl, rfl⟩
    | error e =>
      refine .inr fun room script file upload hfile => ?_
      simp [answerScript, hfile, hx, hy, faults]
  | error e =>
    refine .inr fun room script file upload hfile => ?_
    simp [answerScript, hfile, hx, faults]

section

variable {s : Settings} {rooms : Rooms} {schedule : Schedule} {scenarios inner : Option String}

theorem scriptFile_uploading {filename : String} {content : FileContent} (hname : filename ≠ "") :
    scriptFile ⟨scenarios, inner, none, some ⟨filename, content⟩⟩ =
      .ok (some ⟨arrivingName filename, content⟩) := by
  simp [scriptFile, givesFile, hname]

theorem handsIn_uploading {filename : String} {content : FileContent} (hname : filename ≠ "")
    (hsmall : content.bytes.size ≤ mebibytes s.maxUploadMb) :
    HandsIn s ⟨scenarios, inner, none, some ⟨filename, content⟩⟩
      ⟨uploadedName filename, content.script⟩ :=
  .uploaded (scriptFile_uploading hname) hsmall

/-- A script is answered alike as text and as a file. -/
theorem sameAnswer_pasting_uploading {script : Script} {filename : String} (hname : filename ≠ "")
    (hblank : script.text.all isBlank = false)
    (hsmall : total (script.text.map Char.utf8Size) ≤ mebibytes s.maxUploadMb) :
    SameAnswer (answer s rooms schedule (pasting scenarios inner script)).1
      (answer s rooms schedule (uploading scenarios inner filename script.content)).1 := by
  rw [pasting, uploading, answer_script, answer_script]
  obtain ⟨x, y, hx, hy⟩ | hfaults := choices_or_faults s scenarios inner
  · have hpasted : HandsIn s ⟨scenarios, inner, some script, none⟩
        ⟨"pasted_cypress_script.js", script⟩ := .pasted rfl rfl hblank hsmall
    have hsize : script.content.bytes.size ≤ mebibytes s.maxUploadMb := by rwa [size_content]
    rw [answerScript_eq hpasted hx hy, answerScript_eq (handsIn_uploading hname hsize) hx hy,
      script_content]
    exact sameAnswer_scriptResponse (outlineScript_renamed _ _ _ _ _ _) _ _
  · rw [hfaults _ _ _ _ rfl, hfaults _ _ _ _ (scriptFile_uploading hname)]
    exact ⟨rfl, fun _ => rfl⟩

/-- A file that is answered with an outline is outlined under any name, and this is the outline. -/
theorem exists_outline_of_uploading {filename : String} {content : FileContent}
    (hname : filename ≠ "")
    (hok : (answer s rooms schedule (uploading scenarios inner filename content)).1.status = 200) :
    ∃ x y, choice "scenarios" scenarios = .ok x ∧ choice "include_nested" inner = .ok y ∧
      ∀ name, ∃ o,
        (outlineNamed rooms.handler (s.options x y) s.vocabulary name content.script).outcome =
          .ok o ∧
        (Document.ofOutline o).Sendable ∧
        (answer s rooms schedule (uploading scenarios inner filename content)).1 =
          ⟨200, .document (Document.ofOutline o).withoutReserved⟩ := by
  rw [uploading, answer_script] at hok ⊢
  obtain ⟨hstatus, hrenderable, hdelivered⟩ := status_delivered hok
  obtain ⟨x, y, hx, hy⟩ | hfaults := choices_or_faults s scenarios inner
  · refine ⟨x, y, hx, hy, fun name => ?_⟩
    by_cases hsmall : content.bytes.size ≤ mebibytes s.maxUploadMb
    · have hanswer : (answerScript s rooms.handler
            ⟨scenarios, inner, none, some ⟨filename, content⟩⟩).1 =
          scriptResponse (uploadedName filename) (outlineScript rooms.handler (s.options x y)
            s.vocabulary (some (uploadedName filename)) content.script).outcome :=
        answerScript_eq (handsIn_uploading hname hsmall) hx hy
      have halike := outlineScript_renamed rooms.handler (s.options x y) s.vocabulary
        content.script (some (uploadedName filename)) (some name)
      rw [outcome_outlineNamed]
      cases houtline : (outlineScript rooms.handler (s.options x y) s.vocabulary
          (some (uploadedName filename)) content.script).outcome with
      | ok o =>
        rw [houtline] at hanswer
        rw [hanswer] at hrenderable hdelivered ⊢
        exact ⟨o, halike.eq_ok_iff.mp houtline, hrenderable, hdelivered⟩
      | error e =>
        rw [hanswer, houtline] at hstatus
        exact absurd hstatus (status_failed _ _ _)
    · have hlarge := not_le.mp hsmall
      simp [answerScript, scriptFile_uploading hname, hx, hy, givenScript, hlarge,
        Response.detail] at hstatus
  · rw [hfaults _ _ _ _ (scriptFile_uploading hname)] at hstatus
    simp [invalidForm] at hstatus

end

/-- The entries for members: one for each name of a member that is kept, in the order of the names
and but for reserved ones, and it is what the last member of that name is answered with. -/
structure Entered (answered : Member → Response) (ms : List Member)
    (entries : List (String × Document)) : Prop where
  sorted : (entries.map (·.1)).Pairwise (· < ·)
  names : ∀ name, name ∈ entries.map (·.1) ↔
    isReserved (Text.ofString name) = false ∧ ∃ m ∈ ms, m.isKept = true ∧ m.name = name
  last : ∀ m ∈ ms, m.isKept = true → m.IsLast ms → ∀ d, (m.name, d) ∈ entries →
    answered m = ⟨200, .document d⟩

/-- An archive that is taken as one, with members within the limits. -/
structure LetIn (s : Settings) (filename : String) (a : Archive) (ms : List Member) : Prop
    extends Accepted s filename a where
  read : ∃ listed, a.listed? = some listed ∧ listed.map (·.toMember) = ms ∧
    Archive.Within s listed

namespace LetIn

variable {s : Settings} {rooms : Rooms} {schedule : Schedule} {scenarios inner : Option String}
  {filename : String} {a : Archive} {ms : List Member}

theorem scripts_eq (h : LetIn s filename a ms) :
    a.scripts s = .ok ((ms.filter Member.isKept).map Member.script) := by
  obtain ⟨listed, hlisted, rfl, hwithin⟩ := h.read
  rw [Archive.scripts_of_within hlisted hwithin, Archive.keptScripts, List.filter_map,
    List.map_map]
  rfl

/-- An archive that is let in is answered with the outlines of the members that are kept. -/
theorem answerArchive_eq (h : LetIn s filename a ms) {x y : Option Bool}
    (hx : choice "scenarios" scenarios = .ok x) (hy : choice "include_nested" inner = .ok y)
    {outlines : List (String × Outline)} {room : Room}
    (houtlines : outlineScripts room (s.options x y) s.vocabulary s.maxWorkers schedule
      ((ms.filter Member.isKept).map Member.script) = .ok outlines)
    (hsome : outlines ≠ []) :
    (answerArchive s room schedule ⟨scenarios, inner, some (filename, a)⟩).1 =
      ⟨200, .outlines (Document.sent outlines)⟩ := by
  rw [h.toAccepted.answerArchive_eq hx hy]
  simp only [answerMembers, h.scripts_eq, houtlines]
  cases outlines with
  | nil => exact absurd rfl hsome
  | cons p outlines => rfl

section

variable {called : Member → String}

/-- Where each member that is kept would be answered with an outline, the choices can be read, and
each has an outline that can be sent. If it fits the room of both, workers outline it alike. -/
theorem exists_outlines (hsome : ∃ m ∈ ms, m.isKept = true) (hcalled : ∀ m, called m ≠ "")
    (hfits : ∀ m ∈ ms, m.isKept = true → m.content.script.Fits s.vocabulary rooms.least)
    (hok : ∀ m ∈ ms, m.isKept = true →
      (answer s rooms schedule (uploading scenarios inner (called m) m.content)).1.status = 200) :
    ∃ x y, choice "scenarios" scenarios = .ok x ∧ choice "include_nested" inner = .ok y ∧
      ∀ m ∈ ms, m.isKept = true → ∃ o,
        (outlineNamed rooms.worker (s.options x y) s.vocabulary m.name
          m.content.script).outcome = .ok o ∧
        (Document.ofOutline o).Sendable ∧
        (answer s rooms schedule (uploading scenarios inner (called m) m.content)).1 =
          ⟨200, .document (Document.ofOutline o).withoutReserved⟩ := by
  obtain ⟨m, hm, hkept⟩ := hsome
  obtain ⟨x, y, hx, hy, -⟩ := exists_outline_of_uploading (hcalled m) (hok m hm hkept)
  refine ⟨x, y, hx, hy, fun m' hm' hkept' => ?_⟩
  obtain ⟨x', y', hx', hy', houtline⟩ :=
    exists_outline_of_uploading (hcalled m') (hok m' hm' hkept')
  cases hx.symm.trans hx'
  cases hy.symm.trans hy'
  obtain ⟨o, ho, hsendable, hanswer⟩ := houtline m'.name
  refine ⟨o, ?_, hsendable, hanswer⟩
  rw [outcome_outlineNamed] at ho ⊢
  rw [← outlineScript_of_fits (hfits m' hm' hkept'), ho]

/-- Where each member that is kept would be answered with an outline, so is the archive. -/
theorem answer_packing (h : LetIn s filename a ms) (hworkers : 1 ≤ s.maxWorkers)
    (hschedule : schedule.Permutes) (hsome : ∃ m ∈ ms, m.isKept = true)
    (hcalled : ∀ m, called m ≠ "")
    (hfits : ∀ m ∈ ms, m.isKept = true → m.content.script.Fits s.vocabulary rooms.least)
    (hok : ∀ m ∈ ms, m.isKept = true →
      (answer s rooms schedule (uploading scenarios inner (called m) m.content)).1.status = 200) :
    ∃ entries, (answer s rooms schedule (packing scenarios inner filename a)).1 =
        ⟨200, .outlines entries⟩ ∧
      Entered (fun m =>
          (answer s rooms schedule (uploading scenarios inner (called m) m.content)).1)
        ms entries := by
  obtain ⟨x, y, hx, hy, hmember⟩ := exists_outlines hsome hcalled hfits hok
  obtain ⟨outlines, hrun, hsorted, hkeys, hlasts⟩ :=
    Member.exists_outlineScripts hworkers hschedule fun m hm hkept =>
      (hmember m hm hkept).imp fun _ ho => ho.1
  have houtlines : outlines ≠ [] := by
    rintro rfl
    obtain ⟨m, hm, hkept⟩ := hsome
    simpa using (hkeys m.name).mpr ⟨m, hm, hkept, rfl⟩
  have hsendable : ∀ p ∈ outlines, (Document.ofOutline p.2).Sendable := by
    intro p hp
    obtain ⟨m, hm, hkept, hname⟩ := (hkeys p.1).mp (List.mem_map_of_mem hp)
    obtain ⟨m', hm', hkept', hname', hlast⟩ := Member.exists_isLast_of_isKept hm hkept
    obtain ⟨o, ho, hsendable, -⟩ := hmember m' hm' hkept'
    cases ho.symm.trans (hlasts p hp m' hm' hkept' hlast (hname'.trans hname))
    exact hsendable
  refine ⟨Document.sent outlines, ?_, ?_, fun name => ?_, fun m hm hkept hlast d hd => ?_⟩
  · rw [packing, answer_archive, h.answerArchive_eq hx hy hrun houtlines]
    exact if_pos (Document.fieldsRenderable_sent hsendable)
  · rw [Document.names_sent]
    exact hsorted.filter _
  · rw [Document.names_sent, List.mem_filter, hkeys, and_comm, Bool.not_eq_true']
  · obtain ⟨o, hentry, rfl⟩ := Document.mem_sent hd
    obtain ⟨o', ho', -, hanswer⟩ := hmember m hm hkept
    cases ho'.symm.trans (hlasts _ hentry m hm hkept hlast rfl)
    exact hanswer

end

end LetIn

/-! Requests on their way. The framework that the service runs in parses what is sent, and may
refuse it with a response of its own. -/

/-- The response to what is sent, by way of a parser. -/
def answerSent (parse : Request → Except Response Request) (s : Settings) (rooms : Rooms)
    (schedule : Schedule) (sent : Request) : Response :=
  match parse sent with
  | .ok r => (answer s rooms schedule r).1
  | .error refusal => refusal

/-- The parser hands the request on as it was sent. There are parsers that do not: they refuse a
text field from some size on, but no file. -/
def HandsOn (parse : Request → Except Response Request) (sent : Request) : Prop :=
  parse sent = .ok sent

theorem HandsOn.answerSent_eq {parse : Request → Except Response Request} {sent : Request}
    (h : HandsOn parse sent) (s : Settings) (rooms : Rooms) (schedule : Schedule) :
    answerSent parse s rooms schedule sent = (answer s rooms schedule sent).1 := by
  rw [answerSent, h]

theorem Entered.congr {answered answered' : Member → Response} {ms : List Member}
    {entries : List (String × Document)} (h : Entered answered ms entries)
    (hsame : ∀ m ∈ ms, m.isKept = true → answered m = answered' m) :
    Entered answered' ms entries where
  sorted := h.sorted
  names := h.names
  last m hm hkept hlast d hd := (hsame m hm hkept).symm.trans (h.last m hm hkept hlast d hd)

/-- The ways to hand in a script agree, if the parser hands on what is sent. An archive is answered
with the entries for its members, if each that is kept would be answered with an outline and nests
its literals no deeper than both handler and workers have room for; and a text is answered like the
file that it is stored in. -/
theorem surfaces_agree {s : Settings} {schedule : Schedule} (hworkers : 1 ≤ s.maxWorkers)
    (hschedule : schedule.Permutes) (parse : Request → Except Response Request) (rooms : Rooms)
    (scenarios inner : Option String) :
    (∀ (filename : String) (a : Archive) (ms : List Member) (called : Member → String),
      LetIn s filename a ms → (∃ m ∈ ms, m.isKept = true) → (∀ m, called m ≠ "") →
      HandsOn parse (packing scenarios inner filename a) →
      (∀ m ∈ ms, m.isKept = true →
        HandsOn parse (uploading scenarios inner (called m) m.content)) →
      (∀ m ∈ ms, m.isKept = true → m.content.script.Fits s.vocabulary rooms.least) →
      (∀ m ∈ ms, m.isKept = true → (answerSent parse s rooms schedule
        (uploading scenarios inner (called m) m.content)).status = 200) →
      ∃ entries, answerSent parse s rooms schedule (packing scenarios inner filename a) =
          ⟨200, .outlines entries⟩ ∧
        Entered (fun m => answerSent parse s rooms schedule
          (uploading scenarios inner (called m) m.content)) ms entries) ∧
    ∀ (script : Script) (filename : String), filename ≠ "" → script.text.all isBlank = false →
      total (script.text.map Char.utf8Size) ≤ mebibytes s.maxUploadMb →
      HandsOn parse (pasting scenarios inner script) →
      HandsOn parse (uploading scenarios inner filename script.content) →
      SameAnswer (answerSent parse s rooms schedule (pasting scenarios inner script))
        (answerSent parse s rooms schedule
          (uploading scenarios inner filename script.content)) := by
  constructor
  · intro filename a ms called hletIn hsome hcalled hpacked huploaded hfits hok
    have hsame : ∀ m ∈ ms, m.isKept = true →
        (answer s rooms schedule (uploading scenarios inner (called m) m.content)).1 =
          answerSent parse s rooms schedule (uploading scenarios inner (called m) m.content) :=
      fun m hm hkept => ((huploaded m hm hkept).answerSent_eq s rooms schedule).symm
    have hanswered : ∀ m ∈ ms, m.isKept = true →
        (answer s rooms schedule (uploading scenarios inner (called m) m.content)).1.status =
          200 := by
      intro m hm hkept
      rw [hsame m hm hkept]
      exact hok m hm hkept
    obtain ⟨entries, hanswer, hentered⟩ :=
      hletIn.answer_packing hworkers hschedule hsome hcalled hfits hanswered
    exact ⟨entries, (hpacked.answerSent_eq s rooms schedule).trans hanswer, hentered.congr hsame⟩
  · intro script filename hname hblank hsmall hpasted huploaded
    rw [hpasted.answerSent_eq, huploaded.answerSent_eq]
    exact sameAnswer_pasting_uploading hname hblank hsmall

namespace Sample

open SuiteOutline.Sample (node)

/-- The call of a command. -/
def callScript : Script :=
  ⟨"cy.a()".toList,
    node none (.other "program") 0 6
      [node none .expressionStatement 0 6
        [node none .callExpression 0 6
          [node (some .function) .memberExpression 0 4
            [node (some .object) .identifier 0 2 [],
             node (some .property) .propertyIdentifier 3 4 []],
           node (some .arguments) .arguments 4 6 []]]]⟩

/-- Two empty statements. -/
def idleScript : Script :=
  ⟨";;".toList,
    node none (.other "program") 0 2
      [node none (.other "empty_statement") 0 1 [], node none (.other "empty_statement") 1 2 []]⟩

/-- A name given twice, a reserved name, and a member that is not kept. -/
def mixedMembers : List Member :=
  [⟨"b.js", idleScript.content⟩, ⟨"_sa.js", idleScript.content⟩,
   ⟨"dist/a.js", callScript.content⟩, ⟨"b.js", callScript.content⟩]

theorem letIn_mixedMembers : LetIn {} "p.zip" (.members mixedMembers) mixedMembers where
  named := by
    rw [endsWith, lowered, String.toList_map]
    decide
  small := .inr (by decide)
  read := ⟨_, rfl, rfl, .inr (by decide), by decide, .inr (by decide)⟩

theorem status_uploading {script : Script} (hblank : script.text.all isBlank = false)
    (hsmall : total (script.text.map Char.utf8Size) ≤ mebibytes (Settings.maxUploadMb {}))
    (hok : (answer {} rooms List.reverse (pasting none none script)).1.status = 200) :
    (answer {} rooms List.reverse (uploading none none "x.js" script.content)).1.status = 200 :=
  (sameAnswer_pasting_uploading (by decide) hblank hsmall).1.symm.trans hok

theorem uploading_mixedMembers : ∀ m ∈ mixedMembers,
    (answer {} rooms List.reverse (uploading none none "x.js" m.content)).1.status = 200 := by
  have hcall : (answer {} rooms List.reverse
      (uploading none none "x.js" callScript.content)).1.status = 200 :=
    status_uploading (by decide) (by decide) (by decide)
  have hidle : (answer {} rooms List.reverse
      (uploading none none "x.js" idleScript.content)).1.status = 200 :=
    status_uploading (by decide) (by decide) (by decide)
  simp only [mixedMembers, List.forall_mem_cons]
  exact ⟨hidle, hidle, hcall, hcall, by simp⟩

theorem fits_mixedMembers : ∀ m ∈ mixedMembers,
    m.content.script.Fits (Settings.vocabulary {}) rooms.least := by
  have hcall : callScript.content.script.Fits (Settings.vocabulary {}) rooms.least := by
    rw [script_content]
    exact Script.fits_of_nesting_le (by decide)
  have hidle : idleScript.content.script.Fits (Settings.vocabulary {}) rooms.least := by
    rw [script_content]
    exact Script.fits_of_nesting_le (by decide)
  simp only [mixedMembers, List.forall_mem_cons]
  exact ⟨hidle, hidle, hcall, hcall, by simp⟩

end Sample

/-- Reports come in from the last to the first; of the two members of one name the later counts. -/
theorem surfaces_agree_sample :
    (∃ entries, answerSent .ok {} Sample.rooms List.reverse
        (packing none none "p.zip" (.members Sample.mixedMembers)) = ⟨200, .outlines entries⟩ ∧
      "b.js" ∈ entries.map (·.1) ∧
      ∀ d, ("b.js", d) ∈ entries →
        answerSent .ok {} Sample.rooms List.reverse
          (uploading none none "x.js" Sample.callScript.content) = ⟨200, .document d⟩) ∧
    SameAnswer
      (answerSent .ok {} Sample.rooms List.reverse (pasting none none Sample.callScript))
      (answerSent .ok {} Sample.rooms List.reverse
        (uploading none none "x.js" Sample.callScript.content)) := by
  obtain ⟨hpacked, hpasted⟩ := surfaces_agree (s := {}) (by decide)
    (fun names => names.reverse_perm) .ok Sample.rooms none none
  refine ⟨?_, hpasted _ _ (by decide) (by decide) (by decide) rfl rfl⟩
  obtain ⟨entries, hanswer, hentered⟩ := hpacked _ _ _ (fun _ => "x.js") Sample.letIn_mixedMembers
    (by decide) (fun _ => by decide) rfl (fun _ _ _ => rfl)
    (fun m hm _ => Sample.fits_mixedMembers m hm) fun m hm _ => Sample.uploading_mixedMembers m hm
  refine ⟨entries, hanswer, (hentered.names _).mpr (by decide), ?_⟩
  exact hentered.last ⟨"b.js", Sample.callScript.content⟩ (by simp [Sample.mixedMembers])
    (by decide) ⟨Sample.mixedMembers.take 3, [], rfl, by simp⟩

/-- Not every member that is kept is entered: reserved names are left out. -/
theorem not_forall_member_entered :
    ¬∀ (s : Settings) (rooms : Rooms) (schedule : Schedule) (scenarios inner : Option String)
      (filename : String) (a : Archive) (ms : List Member) (called : Member → String),
      1 ≤ s.maxWorkers → schedule.Permutes → LetIn s filename a ms →
      (∃ m ∈ ms, m.isKept = true) → (∀ m, called m ≠ "") →
      (∀ m ∈ ms, m.isKept = true → m.content.script.Fits s.vocabulary rooms.least) →
      (∀ m ∈ ms, m.isKept = true →
        (answer s rooms schedule (uploading scenarios inner (called m) m.content)).1.status =
          200) →
      ∃ entries, (answer s rooms schedule (packing scenarios inner filename a)).1 =
          ⟨200, .outlines entries⟩ ∧
        ∀ name, name ∈ entries.map (·.1) ↔ ∃ m ∈ ms, m.isKept = true ∧ m.name = name := by
  intro hall
  have hschedule : Schedule.Permutes List.reverse := fun names => names.reverse_perm
  have hfits : ∀ m ∈ Sample.mixedMembers, m.isKept = true →
      m.content.script.Fits (Settings.vocabulary {}) Sample.rooms.least :=
    fun m hm _ => Sample.fits_mixedMembers m hm
  have hok : ∀ m ∈ Sample.mixedMembers, m.isKept = true →
      (answer {} Sample.rooms List.reverse (uploading none none "x.js" m.content)).1.status =
        200 :=
    fun m hm _ => Sample.uploading_mixedMembers m hm
  obtain ⟨entries, hanswer, hnames⟩ := hall {} Sample.rooms List.reverse none none "p.zip" _ _
    (fun _ => "x.js") (by decide) hschedule Sample.letIn_mixedMembers (by decide)
    (fun _ => by decide) hfits hok
  obtain ⟨entries', hanswer', hentered⟩ := Sample.letIn_mixedMembers.answer_packing
    (by decide) hschedule (by decide) (fun _ => by decide) hfits hok
  obtain rfl : entries = entries' := by
    simpa using congrArg Response.body (hanswer.symm.trans hanswer')
  have hmem : "_sa.js" ∈ entries.map (·.1) := (hnames _).mpr (by decide)
  exact absurd ((hentered.names _).mp hmem).1 (by decide)

end Service

end SuiteOutline
