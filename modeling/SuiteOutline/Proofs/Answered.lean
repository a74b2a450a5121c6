import SuiteOutline.Proofs.Sendable
import SuiteOutline.Proofs.WellFormed
import SuiteOutline.Service.Answer

/-! Scripts that can be outlined and the answers to them: which are sent, and which end in an error of
the service. -/
namespace SuiteOutline.Service

/-- How a form hands in a script within the limits: as text that is not blank, or as a file. -/
inductive HandsIn (s : Settings) (form : ScriptForm) : NamedScript → Prop
  | pasted {script : Script} (no_file : scriptFile form = .ok none)
      (given : form.script = some script) (not_blank : script.text.all isBlank = false)
      (small : total (script.text.map Char.utf8Size) ≤ mebibytes s.maxUploadMb) :
      HandsIn s form ⟨"pasted_cypress_script.js", script⟩
  | uploaded {file : Upload} (given : scriptFile form = .ok (some file))
      (small : file.content.bytes.size ≤ mebibytes s.maxUploadMb) :
      HandsIn s form ⟨nameOr (some file.filename) "uploaded_cypress_script.js",
        ⟨(decodeSource file.content.bytes).toList, file.content.tree⟩⟩

/-- A response as it is sent: one that cannot be written out gives way to an error. -/
def delivered (r : Response) : Response := if bodyIsRenderable r.body then r else crashResponse

/-- The caller sees how a request ended, recorded or not. -/
theorem response_dispatch (method path : String) (h : Handled) :
    (dispatch method path h).1.response = h.ending.response := by
  unfold dispatch
  split
  · cases hending : h.ending <;> rfl
  · rfl

theorem response_handled (r : Response × AuditNotes) :
    (handled r).ending.response = delivered r.1 := by
  unfold handled delivered
  split <;> rfl

section

variable (s : Settings) (rooms : Rooms) (schedule : Schedule)

theorem response_answer (r : Request) :
    (answer s rooms schedule r).1 = (handle s rooms schedule r).ending.response :=
  response_dispatch r.method r.path (handle s rooms schedule r)

theorem answer_script (form : ScriptForm) :
    (answer s rooms schedule (.script form)).1 =
      delivered (answerScript s rooms.handler form).1 := by
  rw [response_answer, handle, response_handled]

theorem answer_archive (form : ArchiveForm) :
    (answer s rooms schedule (.archive form)).1 =
      delivered (answerArchive s rooms.worker schedule form).1 := by
  rw [response_answer, handle, response_handled]

end

/-- The response to a script that was handed in, before it is written out. -/
def scriptResponse (filename : String) : Except Failure Outline → Response
  | .ok o => ⟨200, .document (Document.ofOutline o).withoutReserved⟩
  | .error e => (failed filename "Internal server error during Cypress script analysis" e).1

theorem answerScript_eq {s : Settings} {room : Room} {form : ScriptForm} {given : NamedScript}
    {scenarios inner : Option Bool} (hgiven : HandsIn s form given)
    (hscenarios : choice "scenarios" form.scenarios = .ok scenarios)
    (hinner : choice "include_nested" form.inner = .ok inner) :
    (answerScript s room form).1 = scriptResponse given.filename
      (outlineScript room (s.options scenarios inner) s.vocabulary (some given.filename)
        given.script).outcome := by
  obtain ⟨file, hfile, hscript⟩ : ∃ file, scriptFile form = .ok file ∧
      givenScript s file form.script = .ok given := by
    cases hgiven with
    | pasted hfile hscript hblank hsmall =>
      refine ⟨none, hfile, ?_⟩
      simp [givenScript, hscript, hblank, not_lt.mpr hsmall]
    | uploaded hfile hsmall =>
      refine ⟨_, hfile, ?_⟩
      simp [givenScript, not_lt.mpr hsmall]
  simp only [answerScript, hfile, hscenarios, hinner, hscript]
  split <;> simp only [scriptResponse, *]

theorem delivered_outline {o : Outline} {status : Nat} :
    delivered ⟨status, .document (Document.ofOutline o).withoutReserved⟩ =
      if (Document.ofOutline o).withoutReserved.isRenderable then
        ⟨status, .document (Document.ofOutline o).withoutReserved⟩
      else crashResponse := rfl

/-- A script that can be outlined is answered with its outline, less what stands under reserved
names, just if the outline can be sent; else the service fails. -/
theorem script_answered_iff_sendable {s : Settings} {rooms : Rooms} {form : ScriptForm}
    {given : NamedScript} {scenarios inner : Option Bool} {o : Outline} (schedule : Schedule)
    (hgiven : HandsIn s form given)
    (hscenarios : choice "scenarios" form.scenarios = .ok scenarios)
    (hinner : choice "include_nested" form.inner = .ok inner)
    (houtline : (outlineScript rooms.handler (s.options scenarios inner) s.vocabulary
      (some given.filename) given.script).outcome = .ok o) :
    (o.Sendable → (answer s rooms schedule (.script form)).1 =
      ⟨200, .document (Document.ofOutline o).withoutReserved⟩) ∧
    (¬o.Sendable → (answer s rooms schedule (.script form)).1 = crashResponse) ∧
    (o.Unreserved → (Document.ofOutline o).withoutReserved = Document.ofOutline o) := by
  have hanswer : (answer s rooms schedule (.script form)).1 =
      delivered ⟨200, .document (Document.ofOutline o).withoutReserved⟩ := by
    rw [answer_script, answerScript_eq hgiven hscenarios hinner, houtline, scriptResponse]
  rw [hanswer, delivered_outline, ← Document.sendable_ofOutline_iff, Document.Sendable]
  exact ⟨fun hsendable => if_pos hsendable, fun hsendable => if_neg hsendable,
    Document.withoutReserved_ofOutline⟩

namespace Sample

open SuiteOutline.Sample (node)

/-- The call of a command with half a pair of surrogates. -/
def loneText : List Char := "cy.a('\\uD800')".toList

def loneTree : Node :=
  node none (.other "program") 0 14
    [node none .expressionStatement 0 14
      [node none .callExpression 0 14
        [node (some .function) .memberExpression 0 4
          [node (some .object) .identifier 0 2 [],
           node (some .property) .propertyIdentifier 3 4 []],
         node (some .arguments) .arguments 4 14
          [node none .string 5 13 [node none .escapeSequence 6 12 []]]]]]

def loneForm : ScriptForm := ⟨none, none, some ⟨loneText, loneTree⟩, none⟩

instance instNeZeroCodePoints : NeZero (0x110000 : Nat) := ⟨Nat.succ_ne_zero _⟩

def loneUsage : CommandUsage := ⟨"a", ⟨3, 14⟩, [⟨"Literal", ⟨5, 13⟩⟩], [(0, .text [0xD800])], []⟩

def loneOutline : Outline :=
  ⟨some [], some [loneUsage], some [],
    some (["before", "beforeEach", "after", "afterEach"].map (·, [])), none, []⟩

theorem handsIn_loneForm :
    HandsIn {} loneForm ⟨"pasted_cypress_script.js", ⟨loneText, loneTree⟩⟩ :=
  .pasted rfl rfl (by decide) (by decide)

/-- Rooms as workers have them. -/
def rooms : Rooms := ⟨.worker, .worker⟩

theorem outline_loneScript :
    (outlineScript rooms.handler (Settings.options {} none none) (Settings.vocabulary {})
      (some "pasted_cypress_script.js") ⟨loneText, loneTree⟩).outcome = .ok loneOutline := by
  rfl

/-- The surrogate that stands alone is a value of the outline. -/
theorem not_sendable_loneOutline : ¬loneOutline.Sendable := by
  rintro ⟨-, hvalues⟩
  have hmem : Value.text [0xD800] ∈ loneOutline.values := by
    simp [Outline.values, loneOutline, loneUsage, CommandUsage.values]
  cases hvalues _ hmem with
  | text h => exact absurd h (by decide)

end Sample

/-- The service fails on the outline of a script with half a pair of surrogates. -/
theorem script_answered_iff_sendable_sample :
    (outlineScript Sample.rooms.handler (Settings.options {} none none) (Settings.vocabulary {})
      (some "pasted_cypress_script.js") ⟨Sample.loneText, Sample.loneTree⟩).outcome =
        .ok Sample.loneOutline ∧
      (answer {} Sample.rooms .inOrder (.script Sample.loneForm)).1 = crashResponse := by
  obtain ⟨-, hcrash, -⟩ := script_answered_iff_sendable .inOrder Sample.handsIn_loneForm rfl rfl
    Sample.outline_loneScript
  exact ⟨Sample.outline_loneScript, hcrash Sample.not_sendable_loneOutline⟩

/-- Not every script that can be outlined is answered. -/
theorem not_forall_script_answered :
    ¬∀ (s : Settings) (rooms : Rooms) (schedule : Schedule) (form : ScriptForm)
      (given : NamedScript) (scenarios inner : Option Bool) (o : Outline), HandsIn s form given →
      choice "scenarios" form.scenarios = .ok scenarios →
      choice "include_nested" form.inner = .ok inner →
      (outlineScript rooms.handler (s.options scenarios inner) s.vocabulary (some given.filename)
        given.script).outcome = .ok o →
      (answer s rooms schedule (.script form)).1 = ⟨200, .document (Document.ofOutline o)⟩ := by
  intro hall
  have hanswer := hall {} Sample.rooms .inOrder _ _ none none _ Sample.handsIn_loneForm rfl rfl
    Sample.outline_loneScript
  have hstatus : (answer {} Sample.rooms .inOrder (.script Sample.loneForm)).1.status = 500 := by
    decide
  rw [hanswer] at hstatus
  exact absurd hstatus (by decide)

end SuiteOutline.Service
