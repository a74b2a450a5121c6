import SuiteOutline.Proofs.Scenario

/-! What a call adds to an outline, with and without the calls inside functions. Of the options only
the one for these bears on it. -/
namespace SuiteOutline

/-! Records without the calls inside their functions. -/

def CommandDefinition.bare (d : CommandDefinition) : CommandDefinition := { d with inner := none }

def TestCase.bare (t : TestCase) : TestCase := { t with inner := none }

def Hook.bare (h : Hook) : Hook := { h with inner := none }

def ScenarioFunction.bare (f : ScenarioFunction) : ScenarioFunction := { f with inner := none }

def Scenario.bare (s : Scenario) : Scenario := { s with functions := s.functions.map (·.bare) }

def Finding.bare : Finding → Finding
  | definition d => definition d.bare
  | test t => test t.bare
  | hook kind h => hook kind h.bare
  | f => f

def FactoryMember.bare : FactoryMember → FactoryMember
  | function f => function f.bare
  | m => m

def ScenarioFinding.bare : ScenarioFinding → ScenarioFinding
  | scenario s => scenario s.bare
  | f => f

def Outline.bare (o : Outline) : Outline where
  added := o.added.map (·.map (·.bare))
  used := o.used
  tests := o.tests.map (·.map (·.bare))
  hooks := o.hooks.map (·.map fun kind => (kind.1, kind.2.map (·.bare)))
  scenarios := o.scenarios.map (·.map (·.bare))
  errors := o.errors

/-- What a call can add as that part. -/
def Part.admits : Part → Finding → Bool
  | registration, .definition _ | registration, .problem _ => true
  | command, .usage _ => true
  | test, .test _ | test, .problem _ => true
  | hook, .hook _ _ => true
  | _, _ => false

namespace Context

variable {c : Context}

/-- The same source with every part asked for, but not the calls inside functions. -/
abbrev plain (c : Context) : Context := ⟨c.source, { inner := false }, c.vocabulary, c.room⟩

section

variable {src : Source} {v : Vocabulary} {r s : Room} {a b : Options}

theorem anyTest_congr (ns : List Node) :
    anyTest ⟨src, a, v, r⟩ ns = anyTest ⟨src, b, v, s⟩ ns := by
  induction ns with
  | nil => rfl
  | cons n ns ih => simp only [anyTest, ih]

theorem impurities_congr (suite : String) (ns : List Node) :
    impurities ⟨src, a, v, r⟩ suite ns = impurities ⟨src, b, v, s⟩ suite ns := by
  induction ns with
  | nil => rfl
  | cons n ns ih =>
    simp only [impurities, ih]
    rfl

theorem suiteProblems_congr (call : Node) (name : String) :
    suiteProblems ⟨src, a, v, r⟩ call name = suiteProblems ⟨src, b, v, s⟩ call name := by
  simp only [suiteProblems, impurities_congr (b := b) (s := s)]
  rfl

theorem inner_congr (h : a.inner = b.inner) :
    inner ⟨src, a, v, r⟩ = inner ⟨src, b, v, r⟩ := by
  funext levels f
  simp only [inner, h]

/-- Of the options only the one for calls inside functions bears on what a call adds. -/
theorem examine_congr (h : a.inner = b.inner) (part : Part) (visit : Visit)
    (segments : List String) :
    examine ⟨src, a, v, r⟩ part visit segments =
      examine ⟨src, b, v, r⟩ part visit segments := by
  have hinner : inner ⟨src, a, v, r⟩ = inner ⟨src, b, v, r⟩ := inner_congr h
  cases part with
  | registration =>
    simp only [examine, definition, hinner]
    rfl
  | command => rfl
  | test =>
    simp only [examine, test, hinner]
    rfl
  | hook =>
    simp only [examine, hook, hinner, anyTest_congr (b := b) (s := r)]

theorem inspectScenario_congr (h : a.inner = b.inner) (visit : Visit) :
    inspectScenario ⟨src, a, v, r⟩ visit = inspectScenario ⟨src, b, v, r⟩ visit := by
  have hinner : inner ⟨src, a, v, r⟩ = inner ⟨src, b, v, r⟩ := inner_congr h
  have hmember : factoryMember ⟨src, a, v, r⟩ = factoryMember ⟨src, b, v, r⟩ := by
    funext factory member
    simp only [factoryMember, scenarioFunction, hinner]
    rfl
  simp only [inspectScenario, suiteProblems_congr (b := b) (s := r), scenario, hmember]
  rfl

end

theorem inner_plain (room : Nat) (f : Node) : (c.plain.inner room f).outcome = .ok none := rfl

theorem bare_problem {part : Part} (hpart : part = .registration ∨ part = .test) {message : String}
    {n : Node} {found : Option Finding} (h : (c.problem message n).outcome = .ok found) :
    (∀ f ∈ found, part.admits f = true) ∧
      (c.plain.problem message n).outcome = .ok (found.map Finding.bare) := by
  obtain ⟨d, rfl, -⟩ := problem_eq_ok h
  refine ⟨?_, h⟩
  rintro f ⟨⟩
  rcases hpart with rfl | rfl <;> rfl

theorem bare_definition {call : Node} {found : Option Finding}
    (h : (c.definition call).outcome = .ok found) :
    (∀ f ∈ found, Part.registration.admits f = true) ∧
      (c.plain.definition call).outcome = .ok (found.map Finding.bare) := by
  simp only [definition] at h ⊢
  split at h
  case h_2 => simp at h
  case h_1 first last hfirst hlast =>
    split at h
    · simp at h
    case isFalse hstring =>
      rw [if_neg hstring]
      split at h
      case isTrue hfunction =>
        rw [if_pos hfunction]
        exact bare_problem (.inl rfl) h
      case isFalse hfunction =>
        rw [if_neg hfunction]
        simp only [Traced.outcome_bind_eq_ok, Traced.outcome_liftM, Traced.outcome_pure,
          Except.ok.injEq] at h ⊢
        obtain ⟨name, hname, span, hspan, inner, -, rfl⟩ := h
        refine ⟨?_, name, hname, span, hspan, none, inner_plain _ _, rfl⟩
        rintro f ⟨⟩
        rfl

theorem bare_test {call : Node} {name : String} {ancestors : List Node} {found : Option Finding}
    (h : (c.test call name ancestors).outcome = .ok found) :
    (∀ f ∈ found, Part.test.admits f = true) ∧
      (c.plain.test call name ancestors).outcome = .ok (found.map Finding.bare) := by
  simp only [test] at h ⊢
  split at h
  case h_2 => exact bare_problem (.inr rfl) h
  case h_1 title f rest hargs =>
    split at h
    case isTrue hfunction =>
      rw [if_pos hfunction]
      exact bare_problem (.inr rfl) h
    case isFalse hfunction =>
      rw [if_neg hfunction]
      simp only [Traced.outcome_bind_eq_ok, Traced.outcome_liftM, Traced.outcome_pure,
        Except.ok.injEq] at h ⊢
      obtain ⟨around, haround, own, hown, body, hbody, inner, -, rfl⟩ := h
      refine ⟨?_, around, haround, own, hown, body, hbody, none, inner_plain _ _, rfl⟩
      rintro f ⟨⟩
      rfl

/-- A call that is only noted adds nothing. -/
theorem eq_none_of_note {x : Except Failure Nat} {say : Nat → String} {found : Option Finding}
    (h : (do
      let place ← x
      Traced.note .debug (say place)
      return none : Traced (Option Finding)).outcome = .ok found) : found = none := by
  simp only [Traced.outcome_bind_eq_ok, Traced.outcome_pure, Except.ok.injEq] at h
  obtain ⟨_, -, _, -, rfl⟩ := h
  rfl

theorem bare_hook {call : Node} {name : String} {ancestors : List Node} {found : Option Finding}
    (h : (c.hook call name ancestors).outcome = .ok found) :
    (∀ f ∈ found, Part.hook.admits f = true) ∧
      (c.plain.hook call name ancestors).outcome = .ok (found.map Finding.bare) := by
  have hanyTest : c.plain.anyTest = c.anyTest := funext anyTest_congr
  simp only [hook, hanyTest] at h ⊢
  split at h
  case h_2 =>
    obtain rfl := eq_none_of_note h
    exact ⟨by simp, h⟩
  case h_1 f hargs =>
    split at h
    case isTrue hfunction =>
      rw [if_pos hfunction]
      obtain rfl := eq_none_of_note h
      exact ⟨by simp, h⟩
    case isFalse hfunction =>
      rw [if_neg hfunction]
      simp only [Traced.outcome_bind_eq_ok, Traced.outcome_liftM] at h ⊢
      obtain ⟨inTest, hin, h⟩ := h
      split at h
      case isTrue hinTest =>
        obtain rfl := eq_none_of_note h
        exact ⟨by simp, inTest, hin, by rw [if_pos hinTest]; exact h⟩
      case isFalse hinTest =>
        simp only [Traced.outcome_bind_eq_ok, Traced.outcome_liftM, Traced.outcome_pure,
          Except.ok.injEq] at h
        obtain ⟨scope, hscope, span, hspan, body, hbody, inner, -, rfl⟩ := h
        refine ⟨?_, inTest, hin, ?_⟩
        · rintro f ⟨⟩
          rfl
        · rw [if_neg hinTest]
          simp only [Traced.outcome_bind_eq_ok, Traced.outcome_liftM, Traced.outcome_pure]
          exact ⟨scope, hscope, span, hspan, body, hbody, none, inner_plain _ _, rfl⟩

/-- What a call adds as a part is of that part, and it is added without the calls inside functions
too. -/
theorem bare_examine {part : Part} {visit : Visit} {segments : List String}
    {found : Option Finding} (h : (c.examine part visit segments).outcome = .ok found) :
    (∀ f ∈ found, part.admits f = true) ∧
      (c.plain.examine part visit segments).outcome = .ok (found.map Finding.bare) := by
  cases part with
  | registration => exact bare_definition h
  | command =>
    simp only [examine, Traced.outcome_bind_eq_ok, Traced.outcome_pure, Except.ok.injEq] at h ⊢
    obtain ⟨u, hu, rfl⟩ := h
    refine ⟨?_, u, hu, ?_⟩
    · intro f hf
      obtain ⟨_, -, rfl⟩ := Option.map_eq_some_iff.mp hf
      rfl
    · cases u <;> rfl
  | test => exact bare_test h
  | hook => exact bare_hook h

theorem bare_memberProblem {message : Text} {n : Node} {found : Option FactoryMember}
    (h : (c.memberProblem message n).outcome = .ok found) :
    (c.plain.memberProblem message n).outcome = .ok (found.map FactoryMember.bare) := by
  have hcopy := h
  simp only [memberProblem, Traced.outcome_bind_eq_ok, Traced.outcome_pure, Except.ok.injEq] at h
  obtain ⟨d, -, rfl⟩ := h
  exact hcopy

theorem bare_scenarioFunction {member f : Node} {name : Text} {found : Option FactoryMember}
    (h : (c.scenarioFunction member f name).outcome = .ok found) :
    (c.plain.scenarioFunction member f name).outcome = .ok (found.map FactoryMember.bare) := by
  simp only [scenarioFunction, Traced.outcome_bind_eq_ok, Traced.outcome_liftM,
    Traced.outcome_pure, Except.ok.injEq] at h ⊢
  obtain ⟨span, hspan, body, hbody, inner, -, rfl⟩ := h
  exact ⟨span, hspan, body, hbody, none, inner_plain _ _, rfl⟩

theorem bare_factoryMember {factory : String} {member : Node} {found : Option FactoryMember}
    (h : (c.factoryMember factory member).outcome = .ok found) :
    (c.plain.factoryMember factory member).outcome = .ok (found.map FactoryMember.bare) := by
  simp only [factoryMember, Traced.outcome_bind_eq_ok,
    Traced.outcome_liftM] at h ⊢
  obtain ⟨key, hkey, h⟩ := h
  refine ⟨key, hkey, ?_⟩
  cases key with
  | none => exact bare_memberProblem h
  | some key =>
    dsimp only at h ⊢
    -- both sides take the same branches, by the member's form and then by its key
    split at h <;> by_cases htail : (Text.ofString c.vocabulary.functionTail).isSuffixOf key = true
    · rw [if_pos htail] at h ⊢
      exact bare_scenarioFunction h
    · rw [if_neg htail] at h ⊢
      exact bare_memberProblem h
    · split at h
      · cases h
      · rw [if_pos htail] at h ⊢
        split at h
        case isTrue hfunction =>
          rw [if_pos hfunction]
          exact bare_scenarioFunction h
        case isFalse hfunction =>
          rw [if_neg hfunction]
          exact bare_memberProblem h
    · split at h
      · cases h
      · rw [if_neg htail] at h ⊢
        split at h
        case isTrue hfunction =>
          rw [if_pos hfunction]
          exact bare_memberProblem h
        case isFalse hfunction =>
          rw [if_neg hfunction]
          cases h
          rfl
    · rw [if_pos htail] at h ⊢
      exact bare_memberProblem h
    · rw [if_neg htail] at h ⊢
      cases h
      rfl

theorem function?_bare (members : List FactoryMember) :
    (members.map FactoryMember.bare).filterMap (·.function?) =
      (members.filterMap (·.function?)).map ScenarioFunction.bare := by
  rw [List.filterMap_map, List.map_filterMap]
  refine List.filterMap_congr fun m _ => ?_
  cases m <;> rfl

theorem problem?_bare (members : List FactoryMember) :
    (members.map FactoryMember.bare).filterMap (·.problem?) = members.filterMap (·.problem?) := by
  rw [List.filterMap_map]
  refine List.filterMap_congr fun m _ => ?_
  cases m <;> rfl

theorem bare_scenario {call : Node} {name : String} {ancestors : List Node}
    {found : List ScenarioFinding} (h : (c.scenario call name ancestors).outcome = .ok found) :
    (c.plain.scenario call name ancestors).outcome = .ok (found.map ScenarioFinding.bare) := by
  simp only [scenario] at h ⊢
  split at h
  case h_1 arg hargs =>
    split at h
    case isTrue hobject =>
      rw [if_pos hobject]
      simp only [Traced.outcome_bind_eq_ok, Traced.outcome_liftM, Traced.outcome_pure,
        Except.ok.injEq] at h ⊢
      obtain ⟨d, hd, rfl⟩ := h
      exact ⟨d, hd, rfl⟩
    case isFalse hobject =>
      rw [if_neg hobject]
      simp only [Traced.outcome_bind_eq_ok, Traced.outcome_liftM, Traced.outcome_pure,
        Except.ok.injEq] at h ⊢
      obtain ⟨members, hmembers, scope, hscope, span, hspan, rfl⟩ := h
      refine ⟨_, Traced.collect_map (fun _ _ => bare_factoryMember) hmembers, scope, hscope, span,
        hspan, ?_⟩
      rw [function?_bare, problem?_bare, List.map_append, List.map_map]
      rfl
  case h_2 =>
    simp only [Traced.outcome_bind_eq_ok, Traced.outcome_liftM, Traced.outcome_pure,
      Except.ok.injEq] at h ⊢
    obtain ⟨d, hd, rfl⟩ := h
    exact ⟨d, hd, rfl⟩

theorem bare_inspectScenario {visit : Visit} {found : List ScenarioFinding}
    (h : (c.inspectScenario visit).outcome = .ok found) :
    (c.plain.inspectScenario visit).outcome = .ok (found.map ScenarioFinding.bare) := by
  have hsuite : c.plain.suiteProblems = c.suiteProblems := by
    funext call name
    exact suiteProblems_congr call name
  simp only [inspectScenario, hsuite, Traced.outcome_bind_eq_ok,
    Traced.outcome_liftM] at h ⊢
  obtain ⟨name, hname, h⟩ := h
  refine ⟨name, hname, ?_⟩
  cases name with
  | none =>
    cases h
    rfl
  | some name =>
    dsimp only at h ⊢
    split at h
    case isTrue hs =>
      rw [if_pos hs]
      simp only [Traced.outcome_bind_eq_ok, Traced.outcome_liftM, Traced.outcome_pure,
        Except.ok.injEq] at h ⊢
      obtain ⟨ds, hds, rfl⟩ := h
      exact ⟨ds, hds, by rw [List.map_map]; rfl⟩
    case isFalse hs =>
      rw [if_neg hs]
      split at h
      case isTrue hscenario =>
        rw [if_pos hscenario]
        exact bare_scenario h
      case isFalse hscenario =>
        rw [if_neg hscenario]
        cases h
        rfl

end Context
end SuiteOutline
