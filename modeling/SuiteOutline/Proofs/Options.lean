import Mathlib.Data.List.Perm.Basic
import SuiteOutline.Proofs.Bare
import SuiteOutline.Proofs.WellFormed

/-! The parts of an outline do not depend on which other parts are asked for. -/
namespace SuiteOutline

/-- What is selected comes of no other part. -/
def Part.Selects {α : Type} (part : Part) (select : Finding → Option α) : Prop :=
  ∀ q f, q ≠ part → q.admits f = true → select f = none

namespace Part

theorem selects_definition? : registration.Selects (·.definition?) := by
  intro q f hq hf
  cases q <;> cases f <;> simp_all [admits, Finding.definition?]

theorem selects_usage? : command.Selects (·.usage?) := by
  intro q f hq hf
  cases q <;> cases f <;> simp_all [admits, Finding.usage?]

theorem selects_test? : test.Selects (·.test?) := by
  intro q f hq hf
  cases q <;> cases f <;> simp_all [admits, Finding.test?]

theorem selects_hookOf? (kind : String) : hook.Selects (·.hookOf? kind) := by
  intro q f hq hf
  cases q <;> cases f <;> simp_all [admits, Finding.hookOf?]

theorem problem?_eq_none {part : Part} {f : Finding} (h : part.admits f = true)
    (hregistration : part ≠ .registration) (htest : part ≠ .test) : f.problem? = none := by
  cases part <;> cases f <;> simp_all [admits, Finding.problem?]

end Part

namespace Context

variable {c : Context}

/-- What a visited call adds as that part, whether or not it is asked for. -/
def findingAs (c : Context) (part : Part) (visit : Visit) : Option Finding :=
  match c.source.callPart? c.vocabulary visit.node with
  | some (segments, p) => if p = part then (c.examine part visit segments).found? else none
  | none => none

/-- The records of a part that the visits of a source add. -/
def recordsAs {α : Type} (c : Context) (part : Part) (select : Finding → Option α) : List α :=
  c.source.root.visits.filterMap fun visit => (c.findingAs part visit).bind select

theorem findingAs_congr {src : Source} {v : Vocabulary} {room : Room} {a b : Options}
    (h : a.inner = b.inner) (part : Part) (visit : Visit) :
    findingAs ⟨src, a, v, room⟩ part visit = findingAs ⟨src, b, v, room⟩ part visit := by
  simp only [findingAs, examine_congr h]

theorem recordsAs_congr {α : Type} {src : Source} {v : Vocabulary} {room : Room} {a b : Options}
    (h : a.inner = b.inner) (part : Part) (select : Finding → Option α) :
    recordsAs ⟨src, a, v, room⟩ part select = recordsAs ⟨src, b, v, room⟩ part select := by
  simp only [recordsAs, findingAs_congr h]

section

variable {visit : Visit} {found : Option Finding} {part : Part}

theorem findingAs_of_part {segments : List String}
    (h : c.source.callPart? c.vocabulary visit.node = some (segments, part)) :
    c.findingAs part visit = (c.examine part visit segments).found? := by
  simp [findingAs, h]

theorem findingAs_eq_none
    (h : ∀ segments, c.source.callPart? c.vocabulary visit.node ≠ some (segments, part)) :
    c.findingAs part visit = none := by
  unfold findingAs
  split
  case h_1 segments p hp =>
    rw [if_neg]
    rintro rfl
    exact h segments hp
  case h_2 => rfl

theorem finds_of_findingAs {f : Finding} (h : c.findingAs part visit = some f) :
    c.Finds visit f := by
  unfold findingAs at h
  split at h
  case h_1 segments p hp =>
    split at h
    case isTrue heq =>
      subst heq
      exact finds_of_examine hp (Traced.outcome_of_found? h)
    case isFalse => cases h
  case h_2 => cases h

/-- A visit adds nothing, or what the call adds as the part that it is, if that is asked for. -/
theorem inspect_cases (h : (c.inspect visit).outcome = .ok found) :
    (found = none ∧ ∀ p, c.options.wants p = true → c.findingAs p visit = none ∧
        c.plain.findingAs p visit = none) ∨
      ∃ p, c.options.wants p = true ∧ (∀ f ∈ found, p.admits f = true) ∧
        c.findingAs p visit = found ∧ c.plain.findingAs p visit = found.map Finding.bare ∧
        ∀ q, q ≠ p → c.findingAs q visit = none ∧ c.plain.findingAs q visit = none := by
  obtain ⟨-, h⟩ := inspect_eq_ok.mp h
  cases hpart : c.source.callPart? c.vocabulary visit.node with
  | none =>
    rw [hpart] at h
    have hnone : ∀ p segments,
        c.source.callPart? c.vocabulary visit.node ≠ some (segments, p) := by simp [hpart]
    exact .inl ⟨h.symm, fun p _ => ⟨findingAs_eq_none (hnone p), findingAs_eq_none (hnone p)⟩⟩
  | some call =>
    obtain ⟨segments, p⟩ := call
    rw [hpart] at h
    have hne : ∀ q, q ≠ p → ∀ segments,
        c.source.callPart? c.vocabulary visit.node ≠ some (segments, q) := by
      rintro q hq segments hs
      rw [hpart] at hs
      cases hs
      exact hq rfl
    have hothers : ∀ q, q ≠ p → c.findingAs q visit = none ∧ c.plain.findingAs q visit = none :=
      fun q hq => ⟨findingAs_eq_none (hne q hq), findingAs_eq_none (hne q hq)⟩
    cases hw : c.options.wants p with
    | false =>
      simp only [hw, Bool.false_eq_true, if_false] at h
      refine .inl ⟨h.symm, fun q hq => hothers q ?_⟩
      rintro rfl
      rw [hw] at hq
      cases hq
    | true =>
      simp only [hw, if_true] at h
      obtain ⟨hadmits, hplain⟩ := bare_examine h
      refine .inr ⟨p, hw, hadmits, ?_, ?_, hothers⟩
      · rw [findingAs_of_part hpart, Traced.found?_eq h]
      · rw [findingAs_of_part (c := c.plain) hpart, Traced.found?_eq hplain]

theorem bind_select_of_inspect {α : Type} {select : Finding → Option α}
    (hselect : part.Selects select)
    (hwants : c.options.wants part = true) (h : (c.inspect visit).outcome = .ok found) :
    found.bind select = (c.findingAs part visit).bind select := by
  rcases inspect_cases h with ⟨rfl, hnone⟩ | ⟨p, -, hadmits, hfound, -, hothers⟩
  · rw [(hnone part hwants).1]
  · by_cases hp : part = p
    · rw [hp, hfound]
    · rw [(hothers part hp).1]
      cases found with
      | none => rfl
      | some f => exact hselect p f (Ne.symm hp) (hadmits f rfl)

theorem findingAs_plain (hwants : c.options.wants part = true)
    (h : (c.inspect visit).outcome = .ok found) :
    c.plain.findingAs part visit = (c.findingAs part visit).map Finding.bare := by
  rcases inspect_cases h with ⟨rfl, hnone⟩ | ⟨p, -, -, hfound, hplain, hothers⟩
  · rw [(hnone part hwants).1, (hnone part hwants).2]
    rfl
  · by_cases hp : part = p
    · rw [hp, hfound, hplain]
    · rw [(hothers part hp).1, (hothers part hp).2]
      rfl

/-- Only registrations and tests have problems. -/
theorem problem?_of_inspect (h : (c.inspect visit).outcome = .ok found) :
    (found.bind (·.problem?)).toList =
      (if c.options.added then ((c.findingAs .registration visit).bind (·.problem?)).toList
        else []) ++
      (if c.options.tests then ((c.findingAs .test visit).bind (·.problem?)).toList else []) := by
  rcases inspect_cases h with ⟨rfl, hnone⟩ | ⟨p, hp, hadmits, hfound, -, hothers⟩
  · have hregistration : c.options.added = true → c.findingAs .registration visit = none :=
      fun hw => (hnone .registration hw).1
    have htest : c.options.tests = true → c.findingAs .test visit = none :=
      fun hw => (hnone .test hw).1
    cases ha : c.options.added <;> cases ht : c.options.tests <;> simp_all
  · cases p with
    | registration =>
      have hadded : c.options.added = true := hp
      simp [hadded, hfound, (hothers .test (by decide)).1]
    | test =>
      have htests : c.options.tests = true := hp
      simp [htests, hfound, (hothers .registration (by decide)).1]
    | command | hook =>
      have hnone : found.bind (·.problem?) = none := Option.bind_eq_none_iff.mpr fun f hf =>
        Part.problem?_eq_none (hadmits f hf) (by decide) (by decide)
      simp [hnone, (hothers .registration (by decide)).1, (hothers .test (by decide)).1]

end

section

variable {findings : List Finding}
  (hfindings : (Traced.collect c.inspect c.source.root.visits).outcome = .ok findings)

include hfindings

theorem filterMap_findings {α : Type} {part : Part} {select : Finding → Option α}
    (hselect : part.Selects select)
    (hwants : c.options.wants part = true) :
    findings.filterMap select = c.recordsAs part select := by
  obtain ⟨hall, rfl⟩ := Traced.collect_eq_ok.mp hfindings
  rw [List.filterMap_filterMap]
  refine List.filterMap_congr fun visit hvisit => ?_
  obtain ⟨found, hfound⟩ := hall visit hvisit
  rw [Traced.found?_eq hfound, bind_select_of_inspect hselect hwants hfound]

theorem recordsAs_plain {α : Type} {part : Part} {select : Finding → Option α} {bare : α → α}
    (hbare : ∀ f : Finding, select f.bare = (select f).map bare)
    (hwants : c.options.wants part = true) :
    (c.recordsAs part select).map bare = c.plain.recordsAs part select := by
  obtain ⟨hall, -⟩ := Traced.collect_eq_ok.mp hfindings
  rw [recordsAs, List.map_filterMap]
  refine List.filterMap_congr fun visit hvisit => ?_
  obtain ⟨found, hfound⟩ := hall visit hvisit
  rw [findingAs_plain hwants hfound]
  cases c.findingAs part visit with
  | none => rfl
  | some f => exact (hbare f).symm

theorem byPosition_plain {α : Type} {part : Part} {select : Finding → Option α} {bare : α → α}
    {span : α → Span} (hspan : ∀ a, span (bare a) = span a)
    (hbare : ∀ f : Finding, select f.bare = (select f).map bare)
    (hwants : c.options.wants part = true) :
    (byPosition span (c.recordsAs part select)).map bare =
      byPosition span (c.plain.recordsAs part select) := by
  rw [map_byPosition bare hspan, recordsAs_plain hfindings hbare hwants]

theorem problems_perm :
    (findings.filterMap (·.problem?)).Perm
      ((if c.options.added then c.recordsAs .registration (·.problem?) else []) ++
        (if c.options.tests then c.recordsAs .test (·.problem?) else [])) := by
  obtain ⟨hall, rfl⟩ := Traced.collect_eq_ok.mp hfindings
  have hvisits : ∀ visit ∈ c.source.root.visits,
      ((c.inspect visit).found?.bind (·.problem?)).toList = _ := fun visit hvisit => by
    obtain ⟨found, hfound⟩ := hall visit hvisit
    rw [Traced.found?_eq hfound, problem?_of_inspect hfound]
  rw [List.filterMap_filterMap, List.filterMap_eq_flatMap_toList, List.flatMap_congr hvisits]
  refine (List.flatMap_append_perm _ _ _).symm.trans (.of_eq ?_)
  simp only [recordsAs, List.filterMap_eq_flatMap_toList]
  cases c.options.added <;> cases c.options.tests <;> simp

end

/-- All that the second walk finds. -/
def scenarioFindings (c : Context) : List ScenarioFinding :=
  c.source.root.visits.flatMap fun visit => (c.inspectScenario visit).findings

/-- The outline with the parts asked for, each made of its own records. -/
def assemble (c : Context) (options : Options) (errors : List Diagnostic) : Outline where
  added := given options.added (byPosition (·.span) (c.recordsAs .registration (·.definition?)))
  used := given options.used (byPosition (·.span) (c.recordsAs .command (·.usage?)))
  tests := given options.tests (byPosition (·.span) (c.recordsAs .test (·.test?)))
  hooks := given options.hooks ((distinct c.vocabulary.hooks).map fun kind =>
    (kind, byPosition (·.span) (c.recordsAs .hook (·.hookOf? kind))))
  scenarios := given options.scenarios (c.scenarioFindings.filterMap (·.scenario?))
  errors := errors

/-- The problems of the parts asked for, one part after the other. -/
def problems (c : Context) : List Diagnostic :=
  ((if c.options.added then c.recordsAs .registration (·.problem?) else []) ++
    (if c.options.tests then c.recordsAs .test (·.problem?) else [])) ++
  (if c.options.scenarios then c.scenarioFindings.filterMap (·.problem?) else [])

section

variable {src : Source} {v : Vocabulary} {room : Room} {a b : Options}

theorem scenarioFindings_congr (h : a.inner = b.inner) :
    scenarioFindings ⟨src, a, v, room⟩ = scenarioFindings ⟨src, b, v, room⟩ := by
  simp only [scenarioFindings, inspectScenario_congr h]

theorem assemble_congr (h : a.inner = b.inner) (options : Options) (errors : List Diagnostic) :
    assemble ⟨src, a, v, room⟩ options errors = assemble ⟨src, b, v, room⟩ options errors := by
  simp only [assemble, recordsAs_congr h, scenarioFindings_congr h]

end

variable {o : Outline}

/-- The findings of the first walk, part by part. -/
theorem ofFindings_eq {findings : List Finding}
    (h : (Traced.collect c.inspect c.source.root.visits).outcome = .ok findings)
    (errors : List Diagnostic) :
    { Outline.ofFindings c.options c.vocabulary findings with
      scenarios := given c.options.scenarios (c.scenarioFindings.filterMap (·.scenario?))
      errors := errors } = c.assemble c.options errors := by
  simp only [Outline.ofFindings, assemble, Outline.mk.injEq, and_true]
  refine ⟨given_congr fun hw => ?_, given_congr fun hw => ?_, given_congr fun hw => ?_,
    given_congr fun hw => List.map_congr_left fun kind _ => ?_⟩
  · rw [filterMap_findings h Part.selects_definition? hw]
  · rw [filterMap_findings h Part.selects_usage? hw]
  · rw [filterMap_findings h Part.selects_test? hw]
  · rw [filterMap_findings h (Part.selects_hookOf? kind) hw]

theorem outline_eq_assemble (ho : c.outline.outcome = .ok o) :
    o = c.assemble c.options o.errors := by
  obtain ⟨findings, hfindings, ho⟩ := outline_eq_ok.mp ho
  rw [← ofFindings_eq hfindings]
  rcases ho with ⟨hs, rfl⟩ | ⟨hs, more, hmore, rfl⟩
  · rw [hs]
    rfl
  · rw [hs, scenarioFindings, ← (Traced.gather_eq_ok.mp hmore).2]
    rfl

theorem errors_perm (ho : c.outline.outcome = .ok o) : o.errors.Perm c.problems := by
  obtain ⟨findings, hfindings, ho⟩ := outline_eq_ok.mp ho
  have hbase := (byLocation_perm _).trans (problems_perm hfindings)
  rcases ho with ⟨hs, rfl⟩ | ⟨hs, more, hmore, rfl⟩
  · simpa [problems, hs, Outline.ofFindings] using hbase
  · rw [problems, hs, if_pos rfl, scenarioFindings, ← (Traced.gather_eq_ok.mp hmore).2]
    exact (byLocation_perm _).trans (hbase.append_right _)

theorem errors_sorted (ho : c.outline.outcome = .ok o) :
    o.errors.Pairwise fun d e => d.location ≤ e.location := by
  obtain ⟨findings, -, ⟨-, rfl⟩ | ⟨-, more, -, rfl⟩⟩ := outline_eq_ok.mp ho <;>
    exact pairwise_byLocation _

theorem hookOf?_bare (kind : String) (f : Finding) :
    f.bare.hookOf? kind = (f.hookOf? kind).map Hook.bare := by
  cases f with
  | hook k h => by_cases hk : k = kind <;> simp [Finding.bare, Finding.hookOf?, hk]
  | _ => rfl

theorem scenarios_plain {more : List ScenarioFinding}
    (h : (Traced.gather c.inspectScenario c.source.root.visits).outcome = .ok more) :
    (c.scenarioFindings.filterMap (·.scenario?)).map Scenario.bare =
      c.plain.scenarioFindings.filterMap (·.scenario?) := by
  have hplain := Traced.gather_map (fun _ _ => bare_inspectScenario) h
  have hfindings : c.plain.scenarioFindings = more.map ScenarioFinding.bare :=
    (Traced.gather_eq_ok.mp hplain).2.symm
  have hmore : c.scenarioFindings = more := (Traced.gather_eq_ok.mp h).2.symm
  rw [hfindings, hmore, List.map_filterMap, List.filterMap_map]
  refine List.filterMap_congr fun f _ => ?_
  cases f <;> rfl

/-- Without the calls inside functions, an outline is made of what the plain walks find. -/
theorem bare_eq_assemble (ho : c.outline.outcome = .ok o) :
    o.bare = c.plain.assemble c.options o.errors := by
  obtain ⟨findings, hfindings, hscenarios⟩ := outline_eq_ok.mp ho
  rw [outline_eq_assemble ho]
  simp only [Outline.bare, assemble, map_given, Outline.mk.injEq, and_true]
  refine ⟨given_congr fun hw => ?_, given_congr fun hw => ?_, given_congr fun hw => ?_,
    given_congr fun hw => ?_, given_congr fun hw => ?_⟩
  · exact byPosition_plain hfindings (fun _ => rfl) (fun f => by cases f <;> rfl) hw
  · have hplain : (c.recordsAs .command (·.usage?)).map id =
        c.plain.recordsAs .command (·.usage?) :=
      recordsAs_plain hfindings (fun f => by cases f <;> rfl) hw
    rw [← hplain, List.map_id]
  · exact byPosition_plain hfindings (fun _ => rfl) (fun f => by cases f <;> rfl) hw
  · rw [List.map_map]
    refine List.map_congr_left fun kind _ => Prod.ext rfl ?_
    exact byPosition_plain hfindings (fun _ => rfl) (hookOf?_bare kind) hw
  · rcases hscenarios with ⟨hs, -⟩ | ⟨-, more, hmore, -⟩
    · rw [hs] at hw
      cases hw
    · exact scenarios_plain hmore

end Context

/-- The parts are present that are asked for, and no others. -/
structure Outline.HasParts (o : Outline) (options : Options) : Prop where
  added : o.added.isSome = options.added
  used : o.used.isSome = options.used
  tests : o.tests.isSome = options.tests
  hooks : o.hooks.isSome = options.hooks
  scenarios : o.scenarios.isSome = options.scenarios

/-- The outlines have the same records in each part that both are asked for. -/
structure Outline.Agrees (a b : Options) (x y : Outline) : Prop where
  added : a.added = true → b.added = true → x.added = y.added
  used : a.used = true → b.used = true → x.used = y.used
  tests : a.tests = true → b.tests = true → x.tests = y.tests
  hooks : a.hooks = true → b.hooks = true → x.hooks = y.hooks
  scenarios : a.scenarios = true → b.scenarios = true → x.scenarios = y.scenarios

/-- No part is asked for. -/
def Options.nothing (inner : Bool) : Options := ⟨false, false, false, false, inner, false⟩

/-- Whatever the one is asked for, the other is asked for too. -/
structure Options.Within (b a : Options) : Prop where
  inner : a.inner = b.inner
  wants : ∀ part, b.wants part = true → a.wants part = true
  scenarios : b.scenarios = true → a.scenarios = true

namespace Options

variable {a : Options}

theorem within_added (h : a.added = true) : Within { nothing a.inner with added := true } a where
  inner := rfl
  wants part hp := by
    cases part with
    | registration => exact h
    | _ => cases hp
  scenarios hs := by cases hs

theorem within_tests (h : a.tests = true) : Within { nothing a.inner with tests := true } a where
  inner := rfl
  wants part hp := by
    cases part with
    | test => exact h
    | _ => cases hp
  scenarios hs := by cases hs

theorem within_scenarios (h : a.scenarios = true) :
    Within { nothing a.inner with scenarios := true } a where
  inner := rfl
  wants part hp := by cases part <;> cases hp
  scenarios _ := h

end Options

namespace Context

variable {c : Context} {src : Source} {v : Vocabulary} {room : Room} {a b : Options}

theorem hasParts_assemble (options : Options) (errors : List Diagnostic) :
    (c.assemble options errors).HasParts options :=
  ⟨isSome_given _ _, isSome_given _ _, isSome_given _ _, isSome_given _ _, isSome_given _ _⟩

theorem agrees_assemble (a b : Options) (errors errors' : List Diagnostic) :
    Outline.Agrees a b (c.assemble a errors) (c.assemble b errors') := by
  constructor <;> intro ha hb <;> simp only [assemble, ha, hb]

theorem exists_inspect_of_within (hle : b.Within a) {visit : Visit} {found : Option Finding}
    (h : (inspect ⟨src, a, v, room⟩ visit).outcome = .ok found) :
    ∃ found, (inspect ⟨src, b, v, room⟩ visit).outcome = .ok found := by
  obtain ⟨hsegments, h⟩ := inspect_eq_ok.mp h
  cases hpart : src.callPart? v visit.node with
  | none => exact ⟨none, inspect_eq_ok.mpr ⟨hsegments, by simp only [hpart]⟩⟩
  | some call =>
    obtain ⟨segments, part⟩ := call
    cases hb : b.wants part with
    | false => exact ⟨none, inspect_eq_ok.mpr ⟨hsegments, by simp [hpart, hb]⟩⟩
    | true =>
      simp only [hpart, hle.wants part hb, if_true, examine_congr hle.inner] at h
      exact ⟨found, inspect_eq_ok.mpr ⟨hsegments, by simpa [hpart, hb] using h⟩⟩

/-- A run that is asked for less succeeds too. -/
theorem exists_outline_of_within (hle : b.Within a) {x : Outline}
    (hx : (outline ⟨src, a, v, room⟩).outcome = .ok x) :
    ∃ y, (outline ⟨src, b, v, room⟩).outcome = .ok y := by
  obtain ⟨findings, hfindings, hx⟩ := outline_eq_ok.mp hx
  have hall : ∀ visit ∈ src.root.visits,
      ∃ found, (inspect ⟨src, b, v, room⟩ visit).outcome = .ok found := by
    intro visit hvisit
    obtain ⟨found, hfound⟩ := (Traced.collect_eq_ok.mp hfindings).1 visit hvisit
    exact exists_inspect_of_within hle hfound
  have hcollect := Traced.collect_eq_ok.mpr ⟨hall, rfl⟩
  cases hb : b.scenarios with
  | false => exact ⟨_, outline_eq_ok.mpr ⟨_, hcollect, .inl ⟨hb, rfl⟩⟩⟩
  | true =>
    rcases hx with ⟨hs, -⟩ | ⟨-, more, hmore, -⟩
    · rw [hle.scenarios hb] at hs
      cases hs
    · have hsame : inspectScenario ⟨src, a, v, room⟩ = inspectScenario ⟨src, b, v, room⟩ :=
        funext (inspectScenario_congr hle.inner)
      rw [hsame] at hmore
      exact ⟨_, outline_eq_ok.mpr ⟨_, hcollect, .inr ⟨hb, more, hmore, rfl⟩⟩⟩

/-- What a category adds to the errors: those of the run that is asked for it alone. -/
def Contributes (run : Options → Traced Outline) (asked : Bool) (alone : Options)
    (errors : List Diagnostic) : Prop :=
  if asked then ∃ o, (run alone).outcome = .ok o ∧ o.errors = errors else errors = []

theorem exists_contributes {run : Options → Traced Outline}
    (hrun : ∀ options, (run options).outcome = (outline ⟨src, options, v, room⟩).outcome)
    {asked : Bool} {alone : Options} {x : Outline}
    (hx : (outline ⟨src, a, v, room⟩).outcome = .ok x)
    (hle : asked = true → alone.Within a) :
    ∃ errors, Contributes run asked alone errors ∧
      errors.Perm (if asked then problems ⟨src, alone, v, room⟩ else []) := by
  cases asked with
  | false => exact ⟨[], rfl, .nil⟩
  | true =>
    obtain ⟨y, hy⟩ := exists_outline_of_within (hle rfl) hx
    exact ⟨y.errors, ⟨y, (hrun alone).trans hy, rfl⟩, errors_perm hy⟩

/-- The problems of a run are those of the runs for each category alone. -/
theorem problems_eq (src : Source) (v : Vocabulary) (a : Options) :
    problems ⟨src, a, v, room⟩ =
      (if a.added then problems ⟨src, { Options.nothing a.inner with added := true }, v, room⟩
        else []) ++
      (if a.tests then problems ⟨src, { Options.nothing a.inner with tests := true }, v, room⟩
        else []) ++
      (if a.scenarios then
        problems ⟨src, { Options.nothing a.inner with scenarios := true }, v, room⟩
        else []) := by
  have hadded : a.inner = { Options.nothing a.inner with added := true }.inner := rfl
  have htests : a.inner = { Options.nothing a.inner with tests := true }.inner := rfl
  have hscenarios : a.inner = { Options.nothing a.inner with scenarios := true }.inner := rfl
  simp only [problems, recordsAs_congr hadded .registration, recordsAs_congr htests .test,
    scenarioFindings_congr hscenarios]
  simp [Options.nothing]

end Context

/-- A source in which there is nothing to find. -/
def Source.blank : Source := ⟨none, #[], .same, default⟩

theorem outline_blank (options : Options) (v : Vocabulary) (room : Room) :
    (Context.outline ⟨.blank, options, v, room⟩).outcome = .ok (.empty options v) := by
  obtain ⟨_, _, _, _, _, scenarios⟩ := options
  cases scenarios <;> rfl

section

variable {room : Room} {options : Options} {v : Vocabulary} {filename : Option String} {s : Script}

theorem outlineScript_of_directive (h : s.isDirective = true) :
    (outlineScript room options v filename s).outcome = .ok (.empty options v) := by
  unfold outlineScript
  rw [if_pos h]
  rfl

theorem outlineScript_of_text (h : s.isDirective = false) :
    (outlineScript room options v filename s).outcome =
      Source.ofTree filename s.text s.tree >>= fun src =>
        (Context.outline ⟨src, options, v, room⟩).outcome := by
  unfold outlineScript
  rw [if_neg (by simp [h]), Traced.outcome_bind, Traced.outcome_liftM]

end

/-- Which source a script stands for does not depend on the options; a script that begins with a
directive stands for one without any calls. -/
theorem exists_source_of_outlineScript {room : Room} {a : Options} {v : Vocabulary}
    {filename : Option String} {s : Script} {x : Outline}
    (hx : (outlineScript room a v filename s).outcome = .ok x) :
    ∃ src, ∀ options, (outlineScript room options v filename s).outcome =
      (Context.outline ⟨src, options, v, room⟩).outcome := by
  cases hs : s.isDirective with
  | true =>
    refine ⟨.blank, fun options => ?_⟩
    rw [outline_blank, outlineScript_of_directive hs]
  | false =>
    rw [outlineScript_of_text hs, bind_eq_ok] at hx
    obtain ⟨src, hsrc, -⟩ := hx
    refine ⟨src, fun options => ?_⟩
    rw [outlineScript_of_text hs, hsrc]
    rfl

/-- Options do not interfere. An outline has the parts asked for; two runs on one script agree in the
parts that both are asked for, calls inside functions aside, and in those too if both or neither
collect them; asking for scenarios changes no other part. The errors are those of registrations,
tests and scenarios, each as if asked for alone, in the order of their locations. -/
theorem outline_options_independent {room : Room} {a b : Options} {v : Vocabulary}
    {filename : Option String} {s : Script} {x y : Outline}
    (hx : (outlineScript room a v filename s).outcome = .ok x)
    (hy : (outlineScript room b v filename s).outcome = .ok y) :
    x.HasParts a ∧ Outline.Agrees a b x.bare y.bare ∧
    (a.inner = b.inner → Outline.Agrees a b x y) ∧
    (b = { a with scenarios := true } →
      x.added = y.added ∧ x.used = y.used ∧ x.tests = y.tests ∧ x.hooks = y.hooks) ∧
    (∃ ds ts ss, let alone := Options.nothing a.inner
      let run := fun options => outlineScript room options v filename s
      Context.Contributes run a.added { alone with added := true } ds ∧
      Context.Contributes run a.tests { alone with tests := true } ts ∧
      Context.Contributes run a.scenarios { alone with scenarios := true } ss ∧
      x.errors.Perm (ds ++ ts ++ ss)) ∧
    x.errors.Pairwise fun d e => d.location ≤ e.location := by
  obtain ⟨src, hrun⟩ := exists_source_of_outlineScript hx
  rw [hrun] at hx hy
  have hxa := Context.outline_eq_assemble hx
  have hyb := Context.outline_eq_assemble hy
  refine ⟨?_, ?_, ?_, ?_, ?_, Context.errors_sorted hx⟩
  · rw [hxa]
    exact Context.hasParts_assemble a _
  · rw [Context.bare_eq_assemble hx, Context.bare_eq_assemble hy]
    exact Context.agrees_assemble a b _ _
  · intro hinner
    rw [hxa, hyb, Context.assemble_congr hinner]
    exact Context.agrees_assemble a b _ _
  · rintro rfl
    rw [hxa, hyb, Context.assemble_congr (a := a) (b := { a with scenarios := true }) rfl]
    exact ⟨rfl, rfl, rfl, rfl⟩
  · obtain ⟨ds, hds, hdsPerm⟩ := Context.exists_contributes hrun hx Options.within_added
    obtain ⟨ts, hts, htsPerm⟩ := Context.exists_contributes hrun hx Options.within_tests
    obtain ⟨ss, hss, hssPerm⟩ := Context.exists_contributes hrun hx Options.within_scenarios
    refine ⟨ds, ts, ss, hds, hts, hss, ?_⟩
    have herrors := Context.errors_perm hx
    rw [Context.problems_eq] at herrors
    exact herrors.trans ((hdsPerm.append htsPerm).append hssPerm).symm

/-- Two runs on the sample: one collects calls inside functions and looks for scenarios, the other
does neither and leaves usages out. -/
theorem outline_options_independent_sample :
    ∃ x y, (outlineScript .worker { scenarios := true } {} none
        ⟨Sample.text, Sample.tree⟩).outcome = .ok x ∧
      (outlineScript .worker { used := false, inner := false } {} none
        ⟨Sample.text, Sample.tree⟩).outcome = .ok y ∧
      x.tests.map (·.map (·.inner.isSome)) = some [true] ∧
      y.tests.map (·.map (·.inner.isSome)) = some [false] ∧ x.bare.tests = y.bare.tests ∧
      x.HasParts { scenarios := true } := by
  have hxcheck : (outlineScript .worker { scenarios := true } {} none
      ⟨Sample.text, Sample.tree⟩).outcome.toOption.any
      (fun o => decide (o.tests.map (·.map (·.inner.isSome)) = some [true])) = true := by
    decide +kernel
  have hycheck : (outlineScript .worker { used := false, inner := false } {} none
      ⟨Sample.text, Sample.tree⟩).outcome.toOption.any
      (fun o => decide (o.tests.map (·.map (·.inner.isSome)) = some [false])) = true := by
    decide +kernel
  obtain ⟨x, hx, hxtests⟩ := exists_ok_of_any hxcheck
  obtain ⟨y, hy, hytests⟩ := exists_ok_of_any hycheck
  obtain ⟨hparts, hbare, -⟩ := outline_options_independent hx hy
  exact ⟨x, y, hx, hy, of_decide_eq_true hxtests, of_decide_eq_true hytests, hbare.tests rfl rfl,
    hparts⟩

end SuiteOutline
