import Mathlib.Data.Prod.Lex
import SuiteOutline.Lookup
import SuiteOutline.Proofs.Apart
import SuiteOutline.Proofs.Renamed
import SuiteOutline.Proofs.Schedule

/-! Lookups of a command over many files hold one match for each of its records, in the order of the
files' names and of the positions in them. -/
namespace SuiteOutline
namespace CommandMatch

/-- Matches are ordered by the names of their files, then by where they start and where they end. -/
def place (m : CommandMatch) : String ×ₗ ℕ ×ₗ ℕ :=
  toLex (m.filename, toLex (m.span.start, m.span.stop))

theorem place_le_iff {a b : CommandMatch} :
    a.place ≤ b.place ↔
      a.filename < b.filename ∨ a.filename = b.filename ∧ a.span.precedes b.span = true := by
  rw [place, place, Prod.Lex.toLex_le_toLex, Prod.Lex.toLex_le_toLex, Span.precedes_iff]

theorem place_lt_iff {a b : CommandMatch} :
    a.place < b.place ↔ a.filename < b.filename ∨
      a.filename = b.filename ∧ a.span.precedes b.span = true ∧ a.span ≠ b.span := by
  have hspan : (a.span.start < b.span.start ∨
      a.span.start = b.span.start ∧ a.span.stop < b.span.stop) ↔
      a.span.precedes b.span = true ∧ a.span ≠ b.span := by
    have heq : a.span = b.span ↔ a.span.start = b.span.start ∧ a.span.stop = b.span.stop := by
      rw [← Span.mk.injEq]
    rw [Span.precedes_iff, ne_eq, heq]
    omega
  rw [place, place, Prod.Lex.toLex_lt_toLex, Prod.Lex.toLex_lt_toLex, hspan]

end CommandMatch

namespace CommandLookup

/-- The status says how many definitions and usages there are. -/
structure Counted (l : CommandLookup) : Prop where
  missing : l.status.name = "missing" ↔ l.definitions.length = 0 ∧ l.usages.length = 0
  undefined : l.status.name = "undefined" ↔ l.definitions.length = 0 ∧ 0 < l.usages.length
  duplicate : l.status.name = "duplicate" ↔ 1 < l.definitions.length
  unused : l.status.name = "unused" ↔ l.definitions.length = 1 ∧ l.usages.length = 0
  ok : l.status.name = "ok" ↔ l.definitions.length = 1 ∧ 0 < l.usages.length

theorem counted (l : CommandLookup) : l.Counted := by
  obtain ⟨name, definitions, usages⟩ := l
  rcases definitions with _ | ⟨d, _ | ⟨d', ds⟩⟩ <;> rcases usages with _ | ⟨u, us⟩ <;>
    constructor <;> simp [status, LookupStatus.name]

end CommandLookup

/-! Records, file by file. -/

/-- The script is one that is not read, or its tree is as a parser makes it. -/
def Script.Parsed (s : Script) : Prop :=
  s.isDirective = true ∨ s.tree.WellFormed s.text ∧ s.tree.CalleesFirst

instance (s : Script) : Decidable s.Parsed :=
  inferInstanceAs (Decidable (s.isDirective = true ∨
    s.tree.WellFormed s.text ∧ s.tree.CalleesFirst))

/-- Records in the order of their positions. -/
structure Positioned {α : Type} (span : α → Span) (strict : Prop) (records : List α) : Prop where
  sorted : records.Pairwise fun a b => (span a).precedes (span b) = true
  distinct : strict → records.Pairwise fun a b => span a ≠ span b

theorem positioned_byPosition {α : Type} {span : α → Span} {strict : Prop} {records : List α}
    (h : strict → records.Pairwise fun a b => span a ≠ span b) :
    Positioned span strict (byPosition span records) where
  sorted := pairwise_byPosition span records
  distinct hstrict :=
    ((sortBy_perm _ records).pairwise_iff fun hne => hne.symm).mpr (h hstrict)

theorem Positioned.filter {α : Type} {span : α → Span} {strict : Prop} {records : List α}
    (h : Positioned span strict records) (p : α → Bool) :
    Positioned span strict (records.filter p) where
  sorted := h.sorted.filter p
  distinct hstrict := (h.distinct hstrict).filter p

namespace Context

variable {c : Context} {o : Outline}

/-- An outline that is asked for definitions and usages holds them in order. -/
theorem positioned_of_outline (hadded : c.options.added = true) (hused : c.options.used = true)
    (ho : c.outline.outcome = .ok o) {strict : Prop}
    (hsound : strict → c.source.WellFormed ∧ c.source.root.CalleesFirst) :
    ∃ added used, o.added = some added ∧ o.used = some used ∧
      Positioned (·.span) strict added ∧ Positioned (·.span) strict used := by
  have hparts := outline_eq_assemble ho
  refine ⟨byPosition (·.span) (c.recordsAs .registration (·.definition?)),
    byPosition (·.span) (c.recordsAs .command (·.usage?)), ?_, ?_, ?_, ?_⟩
  · rw [hparts, assemble, hadded]
    rfl
  · rw [hparts, assemble, hused]
    rfl
  · refine positioned_byPosition fun hstrict => ?_
    obtain ⟨hw, hfirst⟩ := hsound hstrict
    refine pairwise_recordsAs hw hfirst fun visit f d hreach hfinds hd => ?_
    rw [Finding.definition?_eq_some.mp hd] at hfinds
    cases hfinds with
    | definition hname _ _ hspan => exact hw.spansCall_of_spanOf hreach hname hspan
  · refine positioned_byPosition fun hstrict => ?_
    obtain ⟨hw, hfirst⟩ := hsound hstrict
    refine pairwise_recordsAs hw hfirst fun visit f u hreach hfinds hu => ?_
    rw [Finding.usage?_eq_some.mp hu] at hfinds
    cases hfinds with
    | usage huses => exact hw.spansCall_of_uses hreach huses

end Context

section

variable {room : Room} {options : Options} {v : Vocabulary} {o : Outline}

theorem positioned_of_empty (hadded : options.added = true) (hused : options.used = true)
    (strict : Prop) :
    ∃ added used, (Outline.empty options v).added = some added ∧
      (Outline.empty options v).used = some used ∧
      Positioned (·.span) strict added ∧ Positioned (·.span) strict used := by
  refine ⟨[], [], ?_, ?_, ⟨.nil, fun _ => .nil⟩, ⟨.nil, fun _ => .nil⟩⟩
  · rw [Outline.empty, Outline.ofFindings, hadded]
    rfl
  · rw [Outline.empty, Outline.ofFindings, hused]
    rfl

theorem positioned_of_outlineScript (hadded : options.added = true) (hused : options.used = true)
    {filename : Option String} {s : Script}
    (h : (outlineScript room options v filename s).outcome = .ok o) :
    ∃ added used, o.added = some added ∧ o.used = some used ∧
      Positioned (·.span) s.Parsed added ∧ Positioned (·.span) s.Parsed used := by
  cases hs : s.isDirective with
  | true =>
    rw [outlineScript_of_directive hs] at h
    cases h
    exact positioned_of_empty hadded hused _
  | false =>
    rw [outlineScript_of_text hs, bind_eq_ok] at h
    obtain ⟨src, hsrc, ho⟩ := h
    refine Context.positioned_of_outline hadded hused ho fun hparsed => ?_
    obtain ⟨hw, hfirst⟩ := hparsed.resolve_left (by simp [hs])
    refine ⟨Source.wellFormed_ofTree hsrc hw, ?_⟩
    rw [Source.ofTree_eq_ok hsrc]
    exact hfirst

theorem positioned_of_lastOutline (hadded : options.added = true) (hused : options.used = true)
    {scripts : List (String × Script)} {filename : String}
    (h : lastOutline room options v scripts filename = .ok o) :
    ∃ added used, o.added = some added ∧ o.used = some used ∧
      Positioned (·.span) (∀ s ∈ scripts, s.2.Parsed) added ∧
      Positioned (·.span) (∀ s ∈ scripts, s.2.Parsed) used := by
  unfold lastOutline at h
  split at h
  case h_1 s hs =>
    obtain ⟨before, after, hsplit, -⟩ := List.lookup_eq_some_iff.mp hs
    have hmem : (filename, s) ∈ scripts := by
      rw [← List.mem_reverse, hsplit]
      exact List.mem_append_right _ List.mem_cons_self
    rw [outcome_outlineNamed] at h
    obtain ⟨added, used, ha, hu, hadds, huses⟩ := positioned_of_outlineScript hadded hused h
    exact ⟨added, used, ha, hu, ⟨hadds.sorted, fun hall => hadds.distinct (hall _ hmem)⟩,
      ⟨huses.sorted, fun hall => huses.distinct (hall _ hmem)⟩⟩
  case h_2 =>
    cases h
    exact positioned_of_empty hadded hused _

theorem workers_of_runPool {α : Type} {workers : Int} {schedule : Schedule} {names : List String}
    {job : String → Except Failure α} {entries : List (String × α)}
    (h : runPool workers schedule names job = .ok entries) : 1 ≤ workers := by
  by_contra hfew
  rw [runPool, if_pos (by omega)] at h
  cases h

/-- The outlines of scripts, by name, are those of the last scripts that go by the names. -/
theorem outlineScripts_eq_ok {workers : Int} {schedule : Schedule} (hschedule : schedule.Permutes)
    {scripts : List (String × Script)} {outlines : List (String × Outline)}
    (h : outlineScripts room options v workers schedule scripts = .ok outlines) :
    (outlines.map (·.1)).Pairwise (· < ·) ∧
      (∀ filename, filename ∈ outlines.map (·.1) ↔ filename ∈ scripts.map (·.1)) ∧
      ∀ p ∈ outlines, lastOutline room options v scripts p.1 = .ok p.2 := by
  have hworkers := workers_of_runPool h
  obtain ⟨hall, -⟩ := (runPool_eq_ok_iff hworkers hschedule).mp h
  obtain ⟨entries, hentries, hfacts⟩ := (settled_runPool hworkers hschedule).results hall
  have hsame : entries = outlines := Except.ok.inj (hentries.symm.trans h)
  exact hsame ▸ hfacts

end

/-! Matches, file by file. -/

section

variable {β : Type} {outlines : List (String × Outline)} {records : Outline → List β}
  {span : β → Span} {chain : β → List String}

/-- Each file's records as matches, one file after the other. -/
def matchesOf (records : Outline → List β) (span : β → Span) (chain : β → List String)
    (outlines : List (String × Outline)) : List CommandMatch :=
  outlines.flatMap fun p => (records p.2).map fun r => ⟨p.1, span r, chain r⟩

/-- The matches in a file are those of its records. -/
theorem filter_matchesOf (hnames : (outlines.map (·.1)).Nodup) {filename : String} {o : Outline}
    (hmem : (filename, o) ∈ outlines) :
    (matchesOf records span chain outlines).filter (·.filename = filename) =
      (records o).map fun r => ⟨filename, span r, chain r⟩ := by
  have hother : ∀ p : String × Outline, p.1 ≠ filename →
      ((records p.2).map fun r => CommandMatch.mk p.1 (span r) (chain r)).filter
        (·.filename = filename) = [] := by
    intro p hp
    simp [List.filter_map, Function.comp_def, hp]
  induction outlines with
  | nil => cases hmem
  | cons p outlines ih =>
    obtain ⟨hnew, hnames⟩ := List.nodup_cons.mp hnames
    rw [matchesOf, List.flatMap_cons, List.filter_append, ← matchesOf]
    rcases List.mem_cons.mp hmem with rfl | hmem
    · have hrest : (matchesOf records span chain outlines).filter (·.filename = filename) = [] := by
        rw [matchesOf, List.filter_flatMap]
        refine List.flatMap_eq_nil_iff.mpr fun p hp => hother p ?_
        intro heq
        exact hnew (List.mem_map.mpr ⟨p, hp, heq⟩)
      rw [hrest, List.append_nil]
      simp [List.filter_map, Function.comp_def]
    · have hne : p.1 ≠ filename := fun heq => hnew (List.mem_map.mpr ⟨_, hmem, heq.symm⟩)
      rw [hother p hne, List.nil_append, ih hnames hmem]

theorem filename_of_mem_matchesOf {m : CommandMatch}
    (hm : m ∈ matchesOf records span chain outlines) : m.filename ∈ outlines.map (·.1) := by
  obtain ⟨p, hp, hm⟩ := List.mem_flatMap.mp hm
  obtain ⟨r, -, rfl⟩ := List.mem_map.mp hm
  exact List.mem_map_of_mem hp

/-- Matches that are in order in each file are in order over all files. -/
theorem pairwise_matchesOf {R : Span → Span → Prop}
    (hnames : (outlines.map (·.1)).Pairwise (· < ·))
    (h : ∀ p ∈ outlines, (records p.2).Pairwise fun a b => R (span a) (span b)) :
    (matchesOf records span chain outlines).Pairwise fun a b =>
      a.filename < b.filename ∨ a.filename = b.filename ∧ R a.span b.span := by
  rw [matchesOf, List.pairwise_flatMap]
  constructor
  · intro p hp
    rw [List.pairwise_map]
    exact (h p hp).imp fun hab => .inr ⟨rfl, hab⟩
  · refine (List.pairwise_map.mp hnames).imp fun {p q} hpq x hx y hy => .inl ?_
    obtain ⟨r, -, rfl⟩ := List.mem_map.mp hx
    obtain ⟨r', -, rfl⟩ := List.mem_map.mp hy
    exact hpq

/-- Where the records of each file are in order of position, matches are in order of place. -/
theorem pairwise_place (hnames : (outlines.map (·.1)).Pairwise (· < ·)) {strict : Prop}
    (h : ∀ p ∈ outlines, Positioned span strict (records p.2)) :
    (matchesOf records span chain outlines).Pairwise (fun a b => a.place ≤ b.place) ∧
      (strict → (matchesOf records span chain outlines).Pairwise fun a b =>
        a.place < b.place) := by
  simp only [CommandMatch.place_le_iff, CommandMatch.place_lt_iff]
  constructor
  · apply pairwise_matchesOf (R := fun s t => s.precedes t = true) hnames
    exact fun p hp => (h p hp).sorted
  · intro hstrict
    apply pairwise_matchesOf (R := fun s t => s.precedes t = true ∧ s ≠ t) hnames
    exact fun p hp => (h p hp).sorted.and ((h p hp).distinct hstrict)

end

/-- The matches in a file: one for each record that goes by the name, with its span and chain. -/
structure CommandLookup.Holds (l : CommandLookup) (filename : String)
    (added : List CommandDefinition) (used : List CommandUsage) : Prop where
  definitions : l.definitions.filter (·.filename = filename) =
    (added.filter (·.name = l.name)).map fun d => ⟨filename, d.span, []⟩
  usages : l.usages.filter (·.filename = filename) =
    (used.filter (Text.ofString ·.name = l.name)).map fun u => ⟨filename, u.span, u.chain⟩

namespace CommandLookup

variable {outlines : List (String × Outline)} {name : Text}

def definitionsIn (name : Text) (o : Outline) : List CommandDefinition :=
  (o.added.getD []).filter (·.name = name)

def usagesIn (name : Text) (o : Outline) : List CommandUsage :=
  (o.used.getD []).filter (Text.ofString ·.name = name)

theorem definitions_eq : (ofOutlines name outlines).definitions =
    matchesOf (definitionsIn name) (·.span) (fun _ => []) outlines := rfl

theorem usages_eq : (ofOutlines name outlines).usages =
    matchesOf (usagesIn name) (·.span) (·.chain) outlines := rfl

theorem holds (hnames : (outlines.map (·.1)).Pairwise (· < ·)) {filename : String} {o : Outline}
    (hmem : (filename, o) ∈ outlines) {added : List CommandDefinition} {used : List CommandUsage}
    (ha : o.added = some added) (hu : o.used = some used) :
    (ofOutlines name outlines).Holds filename added used where
  definitions := by
    rw [definitions_eq, filter_matchesOf hnames.nodup hmem, definitionsIn, ha]
    rfl
  usages := by
    rw [usages_eq, filter_matchesOf hnames.nodup hmem, usagesIn, hu]
    rfl

theorem filename_of_mem {m : CommandMatch}
    (hm : m ∈ (ofOutlines name outlines).definitions ++ (ofOutlines name outlines).usages) :
    m.filename ∈ outlines.map (·.1) := by
  rw [definitions_eq, usages_eq] at hm
  rcases List.mem_append.mp hm with hm | hm
  · exact filename_of_mem_matchesOf hm
  · exact filename_of_mem_matchesOf hm

theorem pairwise_definitions (hnames : (outlines.map (·.1)).Pairwise (· < ·)) {strict : Prop}
    (h : ∀ p ∈ outlines, ∃ added, p.2.added = some added ∧ Positioned (·.span) strict added) :
    (ofOutlines name outlines).definitions.Pairwise (fun a b => a.place ≤ b.place) ∧
      (strict → (ofOutlines name outlines).definitions.Pairwise fun a b => a.place < b.place) := by
  rw [definitions_eq]
  refine pairwise_place hnames fun p hp => ?_
  obtain ⟨added, ha, hpositioned⟩ := h p hp
  rw [definitionsIn, ha]
  exact hpositioned.filter _

theorem pairwise_usages (hnames : (outlines.map (·.1)).Pairwise (· < ·)) {strict : Prop}
    (h : ∀ p ∈ outlines, ∃ used, p.2.used = some used ∧ Positioned (·.span) strict used) :
    (ofOutlines name outlines).usages.Pairwise (fun a b => a.place ≤ b.place) ∧
      (strict → (ofOutlines name outlines).usages.Pairwise fun a b => a.place < b.place) := by
  rw [usages_eq]
  refine pairwise_place hnames fun p hp => ?_
  obtain ⟨used, hu, hpositioned⟩ := h p hp
  rw [usagesIn, hu]
  exact hpositioned.filter _

end CommandLookup

/-- A lookup over outlined files holds one match for each definition and each usage that goes by the
name, and no others. The matches are in order of file, start and end, strictly if the trees are as a
parser makes them, and the status says how many there are. -/
theorem lookup_exact {room : Room} {options : Options} {v : Vocabulary} {workers : Int}
    {schedule : Schedule} {scripts : List (String × Script)} {outlines : List (String × Outline)}
    (hadded : options.added = true) (hused : options.used = true) (hschedule : schedule.Permutes)
    (h : outlineScripts room options v workers schedule scripts = .ok outlines) (name : Text)
    {l : CommandLookup} (hl : CommandLookup.ofOutlines name outlines = l) :
    l.name = name ∧
    (∀ filename ∈ scripts.map (·.1), ∃ o added used,
      lastOutline room options v scripts filename = .ok o ∧ o.added = some added ∧
        o.used = some used ∧ l.Holds filename added used) ∧
    (∀ m ∈ l.definitions ++ l.usages, m.filename ∈ scripts.map (·.1)) ∧
    l.definitions.Pairwise (fun a b => a.place ≤ b.place) ∧
    l.usages.Pairwise (fun a b => a.place ≤ b.place) ∧
    ((∀ s ∈ scripts, s.2.Parsed) →
      l.definitions.Pairwise (fun a b => a.place < b.place) ∧
      l.usages.Pairwise fun a b => a.place < b.place) ∧
    l.Counted := by
  subst hl
  obtain ⟨hnames, hfiles, hjobs⟩ := outlineScripts_eq_ok hschedule h
  have hrecords : ∀ p ∈ outlines, ∃ added used, p.2.added = some added ∧ p.2.used = some used ∧
      Positioned (·.span) (∀ s ∈ scripts, s.2.Parsed) added ∧
      Positioned (·.span) (∀ s ∈ scripts, s.2.Parsed) used :=
    fun p hp => positioned_of_lastOutline hadded hused (hjobs p hp)
  obtain ⟨hdefinitions, hdefinitions'⟩ := CommandLookup.pairwise_definitions hnames
    fun p hp => by
      obtain ⟨added, -, ha, -, hpositioned, -⟩ := hrecords p hp
      exact ⟨added, ha, hpositioned⟩
  obtain ⟨husages, husages'⟩ := CommandLookup.pairwise_usages hnames fun p hp => by
    obtain ⟨-, used, -, hu, -, hpositioned⟩ := hrecords p hp
    exact ⟨used, hu, hpositioned⟩
  refine ⟨rfl, fun filename hfilename => ?_, fun m hm => ?_, hdefinitions, husages,
    fun hparsed => ⟨hdefinitions' hparsed, husages' hparsed⟩, CommandLookup.counted _⟩
  · obtain ⟨⟨_, o⟩, hmem, rfl⟩ := List.mem_map.mp ((hfiles filename).mpr hfilename)
    obtain ⟨added, used, ha, hu, -⟩ := hrecords _ hmem
    exact ⟨o, added, used, hjobs _ hmem, ha, hu, CommandLookup.holds hnames hmem ha hu⟩
  · exact (hfiles _).mp (CommandLookup.filename_of_mem hm)

namespace Sample

/-- One script under two names. -/
def twice : List (String × Script) := [("b.js", ⟨text, tree⟩), ("a.js", ⟨text, tree⟩)]

theorem parsed_twice : ∀ s ∈ twice, s.2.Parsed := by
  have hfirst : tree.CalleesFirst := by decide +kernel
  have hparsed : Script.Parsed ⟨text, tree⟩ := .inr ⟨wellFormed_tree, hfirst⟩
  intro s hs
  rcases List.mem_cons.mp hs with rfl | hs
  · exact hparsed
  · rcases List.mem_singleton.mp hs with rfl
    exact hparsed

end Sample

/-- The command is used once in each file, and defined in none. -/
theorem lookup_exact_sample :
    ∃ outlines, outlineScripts .worker {} {} 2 .inOrder Sample.twice = .ok outlines ∧
      ∃ l, CommandLookup.ofOutlines (Text.ofString "get") outlines = l ∧
        l.usages.map (·.filename) = ["a.js", "b.js"] ∧
        l.usages.Pairwise (fun a b => a.place < b.place) ∧ l.status.name = "undefined" := by
  have hcheck : (outlineScripts .worker {} {} 2 .inOrder Sample.twice).toOption.any (fun outlines =>
      decide ((CommandLookup.ofOutlines (Text.ofString "get") outlines).usages.map (·.filename) =
        ["a.js", "b.js"]) &&
      decide ((CommandLookup.ofOutlines (Text.ofString "get") outlines).definitions.length = 0)) =
        true := by
    decide +kernel
  obtain ⟨outlines, houtlines, hfound⟩ := exists_ok_of_any hcheck
  rw [Bool.and_eq_true, decide_eq_true_eq, decide_eq_true_eq] at hfound
  obtain ⟨husages, hdefinitions⟩ := hfound
  obtain ⟨-, -, -, -, -, hstrict, hcounted⟩ :=
    lookup_exact rfl rfl (fun names => .refl names) houtlines (Text.ofString "get") rfl
  have hsome : 0 < (CommandLookup.ofOutlines (Text.ofString "get") outlines).usages.length := by
    rw [← List.length_map, husages]
    decide
  exact ⟨outlines, houtlines, _, rfl, husages, (hstrict Sample.parsed_twice).2,
    hcounted.undefined.mpr ⟨hdefinitions, hsome⟩⟩

end SuiteOutline
