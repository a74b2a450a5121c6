import SuiteOutline.Proofs.Answered
import SuiteOutline.Proofs.Paths

/-! The limits of an archive. Each entry is checked against what has been counted before it; taken
together the checks let in what is within limits on the whole list, and what is not is refused for
the first entry at which a limit is passed, whatever the scripts before it hold. -/
namespace SuiteOutline

def FileContent.script (c : FileContent) : Script := ⟨(decodeSource c.bytes).toList, c.tree⟩

/-- A script outside the ignored folders. -/
def Member.isKept (m : Member) : Bool := endsWith ".js" m.name && !isIgnored m.name

/-- The script in a member, under its name. -/
def Member.script (m : Member) : String × Script := (m.name, m.content.script)

namespace Archive

theorem skips_eq (m : Member) :
    (endsWith "/" m.name || isIgnored m.name || !endsWith ".js" m.name) = !m.isKept := by
  unfold Member.isKept
  by_cases hjs : endsWith ".js" m.name = true
  · simp [hjs, not_endsWith_slash (Bool.or_eq_true_iff.mpr (.inl hjs))]
  · simp [hjs]

/-- What the members that are kept declare together. -/
def keptSize (ms : List PackedMember) : Nat := total ((ms.filter (·.isKept)).map (·.declared))

/-- The scripts in the members that are kept. -/
def keptScripts (ms : List PackedMember) : List (String × Script) :=
  (ms.filter (·.isKept)).map (·.script)

/-- The limits on the whole list. Two of them only hold what there is: without entries nothing is
counted, and without members that are kept nothing is added up. -/
structure Within (s : Settings) (ms : List PackedMember) : Prop where
  few : ms = [] ∨ ms.length ≤ s.maxArchiveFiles
  single : ∀ m ∈ ms, m.isKept = true → m.declared ≤ mebibytes s.maxMemberMb
  together : (∀ m ∈ ms, m.isKept = false) ∨ keptSize ms ≤ mebibytes s.maxUnpackedMb

/-- The limit that an entry passes, after the ones before it. Where it passes several, the first of
them counts. -/
inductive Passes (s : Settings) (before : List PackedMember) (m : PackedMember) :
    ArchiveFault → Prop
  | count (h : s.maxArchiveFiles < before.length + 1) : Passes s before m .tooManyFiles
  | single (hcount : before.length + 1 ≤ s.maxArchiveFiles) (hkept : m.isKept = true)
      (h : mebibytes s.maxMemberMb < m.declared) : Passes s before m (.memberTooLarge m.name)
  | together (hcount : before.length + 1 ≤ s.maxArchiveFiles) (hkept : m.isKept = true)
      (hsingle : m.declared ≤ mebibytes s.maxMemberMb)
      (h : mebibytes s.maxUnpackedMb < keptSize before + m.declared) : Passes s before m .tooLarge

/-- No entry passes a limit. -/
def NonePasses (s : Settings) (ms : List PackedMember) : Prop :=
  ∀ before m after, ms = before ++ m :: after → ∀ f, ¬Passes s before m f

variable {s : Settings} {before ms : List PackedMember} {m : PackedMember} {f : ArchiveFault}

theorem keptSize_append (ms ms' : List PackedMember) :
    keptSize (ms ++ ms') = keptSize ms + keptSize ms' := by
  have hsum : ∀ counts, total counts = counts.sum := fun _ => rfl
  rw [keptSize, List.filter_append, List.map_append, hsum, List.sum_append]
  rfl

theorem keptSize_concat_of_isKept (h : m.isKept = true) :
    keptSize (before ++ [m]) = keptSize before + m.declared := by
  rw [keptSize_append]
  simp [keptSize, total, h]

theorem keptSize_concat_of_not_isKept (h : m.isKept = false) :
    keptSize (before ++ [m]) = keptSize before := by
  rw [keptSize_append]
  simp [keptSize, total, h]

theorem keptScripts_append (ms ms' : List PackedMember) :
    keptScripts (ms ++ ms') = keptScripts ms ++ keptScripts ms' := by
  rw [keptScripts, List.filter_append, List.map_append]
  rfl

theorem not_passes_iff : (∀ f, ¬Passes s before m f) ↔
    before.length + 1 ≤ s.maxArchiveFiles ∧
      (m.isKept = true → m.declared ≤ mebibytes s.maxMemberMb ∧
        keptSize before + m.declared ≤ mebibytes s.maxUnpackedMb) := by
  constructor
  · intro h
    have hcount : before.length + 1 ≤ s.maxArchiveFiles :=
      not_lt.mp fun hlt => h _ (.count hlt)
    refine ⟨hcount, fun hkept => ?_⟩
    have hsingle : m.declared ≤ mebibytes s.maxMemberMb :=
      not_lt.mp fun hlt => h _ (.single hcount hkept hlt)
    exact ⟨hsingle, not_lt.mp fun hlt => h _ (.together hcount hkept hsingle hlt)⟩
  · rintro ⟨hcount, hkept⟩ f hpasses
    cases hpasses with
    | count h => omega
    | single _ h hlt => exact absurd (hkept h).1 (not_le.mpr hlt)
    | together _ h _ hlt => exact absurd (hkept h).2 (not_le.mpr hlt)

theorem within_nil : Within s [] := ⟨.inl rfl, by simp, .inl (by simp)⟩

/-- The limits hold one entry further if they hold and that entry passes none. -/
theorem within_concat :
    Within s (before ++ [m]) ↔ Within s before ∧ ∀ f, ¬Passes s before m f := by
  rw [not_passes_iff]
  constructor
  · rintro ⟨hfew, hsingle, htogether⟩
    have hcount : before.length + 1 ≤ s.maxArchiveFiles := by simpa using hfew
    have hsum : m.isKept = true →
        keptSize before + m.declared ≤ mebibytes s.maxUnpackedMb := by
      intro hkept
      rcases htogether with hnone | hsum
      · exact absurd hkept (by simp [hnone m])
      · rw [keptSize_concat_of_isKept hkept] at hsum
        exact_mod_cast hsum
    refine ⟨⟨.inr (by omega), fun n hn => hsingle n (List.mem_append_left _ hn), ?_⟩, hcount,
      fun hkept => ⟨hsingle m (by simp) hkept, hsum hkept⟩⟩
    rcases htogether with hnone | hsum
    · exact .inl fun n hn => hnone n (List.mem_append_left _ hn)
    · rw [keptSize_append] at hsum
      exact .inr (by omega)
  · rintro ⟨⟨-, hsingle, htogether⟩, hcount, hkept⟩
    refine ⟨.inr (by simpa using hcount), fun n hn hnkept => ?_, ?_⟩
    · rcases List.mem_append.mp hn with hn | hn
      · exact hsingle n hn hnkept
      · obtain rfl := List.mem_singleton.mp hn
        exact (hkept hnkept).1
    · cases hm : m.isKept with
      | true =>
        rw [keptSize_concat_of_isKept hm]
        exact .inr (by exact_mod_cast (hkept hm).2)
      | false =>
        rw [keptSize_concat_of_not_isKept hm]
        refine htogether.imp_left fun hnone n hn => ?_
        rcases List.mem_append.mp hn with hn | hn
        · exact hnone n hn
        · rwa [List.mem_singleton.mp hn]

theorem Within.of_append {ms' : List PackedMember} (h : Within s (ms ++ ms')) : Within s ms := by
  induction ms' using List.reverseRecOn with
  | nil => simpa using h
  | append_singleton ms' m ih =>
    rw [← List.append_assoc, within_concat] at h
    exact ih h.1

/-- Where the limits do not hold, they hold up to some entry, which passes one. -/
theorem exists_passes_of_not_within (h : ¬Within s ms) :
    ∃ before m after f, ms = before ++ m :: after ∧ Within s before ∧ Passes s before m f := by
  induction ms using List.reverseRecOn with
  | nil => exact absurd within_nil h
  | append_singleton ms m ih =>
    by_cases hms : Within s ms
    · have hpasses : ∃ f, Passes s ms m f := by
        by_contra hnone
        exact h (within_concat.mpr ⟨hms, not_exists.mp hnone⟩)
      obtain ⟨f, hf⟩ := hpasses
      exact ⟨ms, m, [], f, rfl, hms, hf⟩
    · obtain ⟨before, n, after, f, rfl, hbefore, hf⟩ := ih hms
      exact ⟨before, n, after ++ [m], f, by simp, hbefore, hf⟩

/-- The limits on the whole list are those on its entries. -/
theorem within_iff_nonePasses : Within s ms ↔ NonePasses s ms := by
  constructor
  · intro h before m after hms f hf
    have hsplit : ms = before ++ [m] ++ after := by simp [hms]
    rw [hsplit] at h
    exact (within_concat.mp h.of_append).2 f hf
  · intro h
    by_contra hnot
    obtain ⟨before, m, after, f, hms, -, hf⟩ := exists_passes_of_not_within hnot
    exact h before m after hms f hf

/-! What is counted at an entry comes from the ones before it. -/

theorem scriptsFrom_of_passes (h : Passes s before m f) (ms : List PackedMember) :
    scriptsFrom s before.length (keptSize before) (m :: ms) = .error f := by
  rw [scriptsFrom, skips_eq]
  cases h with
  | count h => rw [if_pos h]
  | single hcount hkept h =>
    rw [if_neg (not_lt.mpr hcount), hkept, if_neg (by decide), if_pos h]
  | together hcount hkept hsingle h =>
    rw [if_neg (not_lt.mpr hcount), hkept, if_neg (by decide), if_neg (not_lt.mpr hsingle),
      if_pos h]

theorem scriptsFrom_of_not_passes (h : ∀ f, ¬Passes s before m f) (ms : List PackedMember) :
    scriptsFrom s before.length (keptSize before) (m :: ms) =
      (scriptsFrom s (before ++ [m]).length (keptSize (before ++ [m])) ms).map
        (keptScripts [m] ++ ·) := by
  obtain ⟨hcount, hlimits⟩ := not_passes_iff.mp h
  rw [scriptsFrom, skips_eq, if_neg (not_lt.mpr hcount), List.length_append, List.length_singleton]
  cases hkept : m.isKept with
  | true =>
    obtain ⟨hsingle, htogether⟩ := hlimits hkept
    have hscripts : keptScripts [m] = [m.script] := by simp [keptScripts, hkept]
    rw [if_neg (by decide), if_neg (not_lt.mpr hsingle), if_neg (not_lt.mpr htogether),
      keptSize_concat_of_isKept hkept, hscripts]
    cases scriptsFrom s (before.length + 1) (keptSize before + m.declared) ms <;> rfl
  | false =>
    have hscripts : keptScripts [m] = [] := by simp [keptScripts, hkept]
    rw [if_pos (by decide), keptSize_concat_of_not_isKept hkept, hscripts]
    cases scriptsFrom s (before.length + 1) (keptSize before) ms <;> rfl

theorem scriptsFrom_of_within (h : Within s (before ++ ms)) :
    scriptsFrom s before.length (keptSize before) ms = .ok (keptScripts ms) := by
  induction ms generalizing before with
  | nil => rfl
  | cons m ms ih =>
    rw [List.append_cons] at h
    have hpasses := (within_concat.mp h.of_append).2
    have hscripts : keptScripts (m :: ms) = keptScripts [m] ++ keptScripts ms :=
      keptScripts_append [m] ms
    rw [scriptsFrom_of_not_passes hpasses, ih h, hscripts]
    rfl

/-- Entries are taken up to the first at which a limit is passed, and all are refused for it. -/
theorem scriptsFrom_of_append (h : Within s (before ++ ms)) (hf : Passes s (before ++ ms) m f)
    (after : List PackedMember) :
    scriptsFrom s before.length (keptSize before) (ms ++ m :: after) = .error f := by
  induction ms generalizing before with
  | nil =>
    rw [List.append_nil] at hf
    exact scriptsFrom_of_passes hf after
  | cons n ms ih =>
    rw [List.append_cons] at h hf
    have hpasses := (within_concat.mp h.of_append).2
    rw [List.cons_append, scriptsFrom_of_not_passes hpasses, ih h hf]
    rfl

variable {a : Archive}

theorem scripts_of_within (hlisted : a.listed? = some ms) (h : Within s ms) :
    a.scripts s = .ok (keptScripts ms) := by
  have hwhole : Within s ([] ++ ms) := h
  rw [scripts, hlisted]
  exact scriptsFrom_of_within hwhole

theorem scripts_of_append {after : List PackedMember}
    (hlisted : a.listed? = some (before ++ m :: after)) (h : Within s before)
    (hf : Passes s before m f) : a.scripts s = .error f := by
  have hwhole : Within s ([] ++ before) := h
  rw [scripts, hlisted]
  exact scriptsFrom_of_append hwhole hf after

end Archive

namespace Service

open Archive

/-- The request that hands in an archive. -/
def packing (scenarios inner : Option String) (filename : String) (a : Archive) : Request :=
  .archive ⟨scenarios, inner, some (filename, a)⟩

/-- An upload that is taken as an archive, by its name and its size. -/
structure Accepted (s : Settings) (filename : String) (a : Archive) : Prop where
  named : endsWith ".zip" (lowered (arrivingName filename)) = true
  small : a.size = 0 ∨ a.size ≤ mebibytes s.maxArchiveMb

variable {s : Settings} {rooms : Rooms} {schedule : Schedule} {scenarios inner : Option String}
  {filename : String} {a : Archive}

theorem Accepted.answerArchive_eq (h : Accepted s filename a) {room : Room} {x y : Option Bool}
    (hx : choice "scenarios" scenarios = .ok x) (hy : choice "include_nested" inner = .ok y) :
    answerArchive s room schedule ⟨scenarios, inner, some (filename, a)⟩ =
      answerMembers s room schedule (s.options x y) (arrivingName filename) a := by
  have hgiven : filename ≠ "" := by
    rintro rfl
    exact absurd h.named (by simp [arrivingName, lowered, endsWith])
  have hform : formArchive ⟨scenarios, inner, some (filename, a)⟩ =
      .ok (arrivingName filename, a) := by
    simp only [formArchive, givesFile, if_pos hgiven]
    rfl
  have hsmall : ¬(a.size ≠ 0 ∧ mebibytes s.maxArchiveMb < a.size) := by
    rintro ⟨hsize, hlarge⟩
    exact absurd (h.small.resolve_left hsize) (not_le.mpr hlarge)
  simp only [answerArchive, hform, hx, hy, h.named, hsmall]
  rfl

theorem delivered_archiveFaultResponse (f : ArchiveFault) :
    delivered (archiveFaultResponse f) = archiveFaultResponse f := by
  apply if_pos
  cases f <;>
    simp [archiveFaultResponse, Response.detail, bodyIsRenderable, Document.isRenderable,
      Document.fieldsRenderable, Document.string, Text.hasSurrogate_ofString]

theorem Accepted.answer_of_error (h : Accepted s filename a) {x y : Option Bool}
    (hx : choice "scenarios" scenarios = .ok x) (hy : choice "include_nested" inner = .ok y)
    {f : ArchiveFault} (hf : a.scripts s = .error f) :
    (answer s rooms schedule (packing scenarios inner filename a)).1 = archiveFaultResponse f := by
  rw [packing, answer_archive, h.answerArchive_eq hx hy, answerMembers, hf]
  exact delivered_archiveFaultResponse f

theorem status_of_passes {before : List PackedMember} {m : PackedMember} {f : ArchiveFault}
    (h : Passes s before m f) : (archiveFaultResponse f).status = 413 := by
  cases h <;> rfl

/-- The limits are exact. The scripts of an archive are found if the limits on its list hold, and
then they are those of the members that are kept, in their order. Else they are refused for the first
entry at which a limit is passed, and so is the upload, whatever the members hold. -/
theorem limits_exact {ms : List PackedMember} (hlisted : a.listed? = some ms) :
    ((∃ found, a.scripts s = .ok found) ↔ Within s ms) ∧
    (Within s ms → a.scripts s = .ok ((ms.filter (·.isKept)).map (·.script))) ∧
    (¬Within s ms → ∃ before m after f, ms = before ++ m :: after ∧ NonePasses s before ∧
      Passes s before m f ∧ a.scripts s = .error f ∧ (archiveFaultResponse f).status = 413 ∧
      ∀ rooms schedule scenarios inner filename x y, choice "scenarios" scenarios = .ok x →
        choice "include_nested" inner = .ok y → Accepted s filename a →
        (answer s rooms schedule (packing scenarios inner filename a)).1 =
          archiveFaultResponse f) := by
  have hrefused : ¬Within s ms → ∃ before m after f, ms = before ++ m :: after ∧
      NonePasses s before ∧ Passes s before m f ∧ a.scripts s = .error f := by
    intro h
    obtain ⟨before, m, after, f, rfl, hbefore, hf⟩ := exists_passes_of_not_within h
    exact ⟨before, m, after, f, rfl, within_iff_nonePasses.mp hbefore, hf,
      scripts_of_append hlisted hbefore hf⟩
  have hwithin : (∃ found, a.scripts s = .ok found) → Within s ms := by
    rintro ⟨found, hfound⟩
    by_contra h
    obtain ⟨-, -, -, f, -, -, -, herror⟩ := hrefused h
    cases hfound.symm.trans herror
  refine ⟨⟨hwithin, fun h => ⟨_, scripts_of_within hlisted h⟩⟩, scripts_of_within hlisted,
    fun h => ?_⟩
  obtain ⟨before, m, after, f, hms, hbefore, hf, herror⟩ := hrefused h
  exact ⟨before, m, after, f, hms, hbefore, hf, herror, status_of_passes hf,
    fun _ _ _ _ _ _ _ hx hy haccepted => haccepted.answer_of_error hx hy herror⟩

namespace Sample

open SuiteOutline.Sample (node)

/-- A bracket that is never closed. -/
def unclosed : FileContent :=
  ⟨⟨#[0x28]⟩, node none (.other "program") 0 1 [node none .error 0 1 []]⟩

/-- A script that does not parse, a folder, and a script that declares a byte more than it may. -/
def overstated : List PackedMember :=
  [(Member.mk "a.js" unclosed).packed, ⟨⟨"b/", unclosed⟩, 0⟩,
   ⟨⟨"b/c.js", unclosed⟩, 8 * 1024 * 1024 + 1⟩]

theorem accepted_overstated : Accepted {} "p.zip" (.packed 300 overstated) where
  named := by
    rw [endsWith, lowered, String.toList_map]
    decide
  small := .inr (by decide)

theorem not_within_overstated : ¬Within {} overstated := by
  intro h
  have hsmall := h.single ⟨⟨"b/c.js", unclosed⟩, 8 * 1024 * 1024 + 1⟩ (by simp [overstated])
    (by decide)
  exact absurd hsmall (by decide)

end Sample

/-- The upload is refused for what the last member declares, not for the script that does not
parse. Without that member the scripts are found. -/
theorem limits_exact_sample :
    Sample.unclosed.tree.hasError = true ∧
    (answer {} Sample.rooms id (packing none none "p.zip" (.packed 300 Sample.overstated))).1 =
      archiveFaultResponse (.memberTooLarge "b/c.js") ∧
    (packed 200 (Sample.overstated.take 2)).scripts {} =
      .ok [("a.js", Sample.unclosed.script)] := by
  refine ⟨by decide, ?_, ?_⟩
  · obtain ⟨-, -, hrefused⟩ := limits_exact (s := {}) (a := .packed 300 Sample.overstated) rfl
    obtain ⟨-, -, -, f, -, -, -, hf, -, hanswer⟩ := hrefused Sample.not_within_overstated
    obtain rfl : .memberTooLarge "b/c.js" = f := Except.error.inj (.trans (by rfl) hf)
    exact hanswer Sample.rooms id none none "p.zip" none none rfl rfl Sample.accepted_overstated
  · obtain ⟨-, hfound, -⟩ :=
      limits_exact (s := {}) (a := .packed 200 (Sample.overstated.take 2)) rfl
    exact hfound ⟨.inr (by decide), by decide, .inr (by decide)⟩

/-- Not every limit holds of a list that is let in: with nothing to count, none is looked at. -/
theorem not_forall_limits :
    ¬∀ (s : Settings) (a : Archive) (ms : List PackedMember), a.listed? = some ms →
      ((∃ found, a.scripts s = .ok found) ↔
        ms.length ≤ s.maxArchiveFiles ∧
        (∀ m ∈ ms, m.isKept = true → m.declared ≤ mebibytes s.maxMemberMb) ∧
        keptSize ms ≤ mebibytes s.maxUnpackedMb) := by
  intro hall
  have hlimits := (hall { maxArchiveFiles := -1 } (.members []) [] rfl).mp ⟨[], rfl⟩
  exact absurd hlimits.1 (by decide)

end Service
end SuiteOutline
