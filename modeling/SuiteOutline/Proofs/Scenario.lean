import SuiteOutline.Proofs.Finding

/-! What a visited call can add to the scenarios of an outline. -/
namespace SuiteOutline

theorem FactoryMember.problem?_eq_some {m : FactoryMember} {d : Diagnostic} :
    m.problem? = some d ↔ m = .problem d := by
  cases m <;> simp [FactoryMember.problem?]

theorem FactoryMember.function?_eq_some {m : FactoryMember} {f : ScenarioFunction} :
    m.function? = some f ↔ m = .function f := by
  cases m <;> simp [FactoryMember.function?]

theorem ScenarioFinding.scenario?_eq_some {f : ScenarioFinding} {s : Scenario} :
    f.scenario? = some s ↔ f = .scenario s := by
  cases f <;> simp [scenario?]

theorem ScenarioFinding.problem?_eq_some {f : ScenarioFinding} {d : Diagnostic} :
    f.problem? = some d ↔ f = .problem d := by
  cases f <;> simp [problem?]

namespace Context

variable {c : Context}

/-- The node is the member of an object itself, or its value without parentheses. -/
def IsMemberPart (member n : Node) : Prop :=
  n = member ∨ ∃ value, member.child? .value = some value ∧ n = value.unwrap

theorem IsMemberPart.reaches {member n : Node} (h : IsMemberPart member n) : member.Reaches n := by
  rcases h with rfl | ⟨value, hvalue, rfl⟩
  · exact .refl n
  · exact (Node.reaches_child? hvalue).trans value.reaches_unwrap

/-- What a member of a scenario factory's argument provides. -/
inductive Provides (c : Context) (member : Node) : FactoryMember → Prop
  | function {f : ScenarioFunction} {n : Node} (hn : IsMemberPart member n)
      (hspan : c.source.spanOf member = .ok f.span) (hbody : c.source.spanOf n = .ok f.body)
      (hinner : (c.inner c.room.scenario n).outcome = .ok f.inner) : Provides c member (.function f)
  | problem {d : Diagnostic} {n : Node} (hn : IsMemberPart member n)
      (hlocation : c.source.startOf n = .ok d.location) : Provides c member (.problem d)

theorem memberProblem_eq_ok {message : Text} {n : Node} {m : Option FactoryMember}
    (h : (c.memberProblem message n).outcome = .ok m) :
    ∃ d, m = some (.problem d) ∧ d.message = message ∧ c.source.startOf n = .ok d.location ∧
      d.severity = .error := by
  simp only [memberProblem, Traced.outcome_bind_eq_ok, Traced.outcome_liftM, Traced.outcome_pure,
    Except.ok.injEq] at h
  obtain ⟨d, hd, rfl⟩ := h
  exact ⟨d, rfl, problemAt_eq_ok hd⟩

theorem provides_of_memberProblem {message : Text} {member n : Node} {m : FactoryMember}
    (hn : IsMemberPart member n) (h : (c.memberProblem message n).outcome = .ok (some m)) :
    c.Provides member m := by
  obtain ⟨d, hd, -, hlocation, -⟩ := memberProblem_eq_ok h
  cases hd
  exact .problem hn hlocation

theorem provides_of_scenarioFunction {member n : Node} {name : Text} {m : FactoryMember}
    (hn : IsMemberPart member n)
    (h : (c.scenarioFunction member n name).outcome = .ok (some m)) : c.Provides member m := by
  simp only [scenarioFunction, Traced.outcome_bind_eq_ok, Traced.outcome_liftM,
    Traced.outcome_pure, Except.ok.injEq, Option.some.injEq] at h
  obtain ⟨span, hspan, body, hbody, inner, hinner, rfl⟩ := h
  exact .function hn hspan hbody hinner

theorem provides_of_factoryMember {factory : String} {member : Node} {m : FactoryMember}
    (h : (c.factoryMember factory member).outcome = .ok (some m)) : c.Provides member m := by
  simp only [factoryMember, Traced.outcome_bind_eq_ok, Traced.outcome_liftM] at h
  obtain ⟨key, -, h⟩ := h
  have hself : IsMemberPart member member := .inl rfl
  cases key with
  | none => exact provides_of_memberProblem hself h
  | some key =>
    dsimp only at h
    split at h
    · split at h
      · exact provides_of_scenarioFunction hself h
      · exact provides_of_memberProblem hself h
    · cases hvalue : member.child? .value with
      | none => simp [hvalue] at h
      | some value =>
        have hpart : IsMemberPart member value.unwrap := .inr ⟨value, hvalue, rfl⟩
        simp only [hvalue] at h
        split at h
        · split at h
          · exact provides_of_scenarioFunction hpart h
          · exact provides_of_memberProblem hpart h
        · split at h
          · exact provides_of_memberProblem hpart h
          · simp at h
    · split at h
      · exact provides_of_memberProblem hself h
      · simp at h

/-- What a visit finds for the scenarios. -/
inductive FindsScenario (c : Context) (visit : Visit) : ScenarioFinding → Prop
  | scenario {s : Scenario} {arg : Node} {members : List FactoryMember}
      (hname : c.source.dotted? visit.node = .ok (some s.name))
      (hargs : visit.node.callArguments = [arg])
      (hmembers : (Traced.collect (c.factoryMember s.name) arg.unwrap.members).outcome = .ok members)
      (hscope : c.source.scope c.vocabulary c.vocabulary.isSuite visit.ancestors = .ok s.scope)
      (hspan : c.source.spanOf visit.node = .ok s.span)
      (hfunctions : s.functions = members.filterMap (·.function?)) :
      FindsScenario c visit (.scenario s)
  | problem {d : Diagnostic} {n : Node} (hn : visit.node.Reaches n)
      (hlocation : c.source.startOf n = .ok d.location) : FindsScenario c visit (.problem d)

theorem location_of_impurities {suite : String} {statements : List Node} {ds : List Diagnostic}
    (h : c.impurities suite statements = .ok ds) {d : Diagnostic} (hd : d ∈ ds) :
    ∃ s ∈ statements, c.source.startOf s = .ok d.location := by
  induction statements generalizing ds with
  | nil =>
    cases h
    cases hd
  | cons s rest ih =>
    simp only [impurities, bind_eq_ok] at h
    obtain ⟨name, -, h⟩ := h
    split at h
    · obtain ⟨s', hs', hlocation⟩ := ih h hd
      exact ⟨s', List.mem_cons_of_mem s hs', hlocation⟩
    · simp only [bind_eq_ok, pure_eq_ok] at h
      obtain ⟨d', hd', ds', hds', rfl⟩ := h
      rcases List.mem_cons.mp hd with rfl | hd
      · exact ⟨s, List.mem_cons_self, (problemAt_eq_ok hd').2.1⟩
      · obtain ⟨s', hs', hlocation⟩ := ih hds' hd
        exact ⟨s', List.mem_cons_of_mem s hs', hlocation⟩

theorem location_of_suiteProblems {call : Node} {name : String} {ds : List Diagnostic}
    (h : c.suiteProblems call name = .ok ds) {d : Diagnostic} (hd : d ∈ ds) :
    ∃ n, call.Reaches n ∧ c.source.startOf n = .ok d.location := by
  simp only [suiteProblems] at h
  split at h
  case h_1 title f rest hargs =>
    have hf : call.Reaches f := Node.reaches_callArguments (by simp [hargs])
    split at h
    · simp only [bind_eq_ok, pure_eq_ok] at h
      obtain ⟨d', hd', rfl⟩ := h
      obtain rfl := List.mem_singleton.mp hd
      exact ⟨call, .refl call, (problemAt_eq_ok hd').2.1⟩
    split at h
    · simp only [bind_eq_ok, pure_eq_ok] at h
      obtain ⟨d', hd', rfl⟩ := h
      obtain rfl := List.mem_singleton.mp hd
      exact ⟨f, hf, (problemAt_eq_ok hd').2.1⟩
    · split at h
      case h_1 body hbody =>
        obtain ⟨hbody, -⟩ := Option.filter_eq_some_iff.mp hbody
        obtain ⟨s, hs, hlocation⟩ := location_of_impurities h hd
        exact ⟨s, hf.trans (f.reaches_unwrap.trans ((Node.reaches_child? hbody).trans
          (Node.reaches_of_mem_members hs))), hlocation⟩
      case h_2 =>
        cases h
        cases hd
  case h_2 =>
    simp only [bind_eq_ok, pure_eq_ok] at h
    obtain ⟨d', hd', rfl⟩ := h
    obtain rfl := List.mem_singleton.mp hd
    exact ⟨call, .refl call, (problemAt_eq_ok hd').2.1⟩

theorem findsScenario_of_scenario {visit : Visit} {name : String} {found : List ScenarioFinding}
    (hname : c.source.dotted? visit.node = .ok (some name))
    (h : (c.scenario visit.node name visit.ancestors).outcome = .ok found) {f : ScenarioFinding}
    (hf : f ∈ found) : c.FindsScenario visit f := by
  simp only [scenario] at h
  split at h
  case h_1 arg hargs =>
    split at h
    · simp only [Traced.outcome_bind_eq_ok, Traced.outcome_liftM, Traced.outcome_pure,
        Except.ok.injEq] at h
      obtain ⟨d, hd, rfl⟩ := h
      obtain rfl := List.mem_singleton.mp hf
      exact .problem (.refl _) (problemAt_eq_ok hd).2.1
    · simp only [Traced.outcome_bind_eq_ok, Traced.outcome_liftM, Traced.outcome_pure,
        Except.ok.injEq] at h
      obtain ⟨members, hmembers, scope, hscope, span, hspan, rfl⟩ := h
      rcases List.mem_append.mp hf with hf | hf
      · obtain ⟨d, hd, rfl⟩ := List.mem_map.mp hf
        obtain ⟨m, hm, hmd⟩ := List.mem_filterMap.mp hd
        obtain ⟨member, hmember, hprovides⟩ := (Traced.mem_collect hmembers).mp hm
        rw [FactoryMember.problem?_eq_some.mp hmd] at hprovides
        cases provides_of_factoryMember hprovides with
        | problem hn hlocation =>
          have harg : visit.node.Reaches arg := Node.reaches_callArguments (by simp [hargs])
          exact .problem (harg.trans (arg.reaches_unwrap.trans
            ((Node.reaches_of_mem_members hmember).trans hn.reaches))) hlocation
      · obtain rfl := List.mem_singleton.mp hf
        exact .scenario hname hargs hmembers hscope hspan rfl
  case h_2 =>
    simp only [Traced.outcome_bind_eq_ok, Traced.outcome_liftM, Traced.outcome_pure,
      Except.ok.injEq] at h
    obtain ⟨d, hd, rfl⟩ := h
    obtain rfl := List.mem_singleton.mp hf
    exact .problem (.refl _) (problemAt_eq_ok hd).2.1

theorem findsScenario_of_inspectScenario {visit : Visit} {found : List ScenarioFinding}
    (h : (c.inspectScenario visit).outcome = .ok found) {f : ScenarioFinding} (hf : f ∈ found) :
    c.FindsScenario visit f := by
  simp only [inspectScenario, Traced.outcome_bind_eq_ok, Traced.outcome_liftM] at h
  obtain ⟨name, hname, h⟩ := h
  cases name with
  | none =>
    cases h
    cases hf
  | some name =>
    dsimp only at h
    split at h
    · simp only [Traced.outcome_bind_eq_ok, Traced.outcome_liftM, Traced.outcome_pure,
        Except.ok.injEq] at h
      obtain ⟨ds, hds, rfl⟩ := h
      obtain ⟨d, hd, rfl⟩ := List.mem_map.mp hf
      obtain ⟨n, hn, hlocation⟩ := location_of_suiteProblems hds hd
      exact .problem hn hlocation
    split at h
    · exact findsScenario_of_scenario hname h hf
    · cases h
      cases hf

/-- The functions of a scenario are those of its object's members. -/
theorem FindsScenario.function {visit : Visit} {s : Scenario}
    (h : c.FindsScenario visit (.scenario s)) {f : ScenarioFunction} (hf : f ∈ s.functions) :
    ∃ member n, visit.node.Reaches member ∧ IsMemberPart member n ∧
      c.source.spanOf member = .ok f.span ∧ c.source.spanOf n = .ok f.body ∧
      (c.inner c.room.scenario n).outcome = .ok f.inner := by
  cases h with
  | @scenario _ arg _ _ hargs hmembers _ _ hfunctions =>
    rw [hfunctions] at hf
    obtain ⟨m, hm, hmf⟩ := List.mem_filterMap.mp hf
    obtain ⟨member, hmember, hprovides⟩ := (Traced.mem_collect hmembers).mp hm
    rw [FactoryMember.function?_eq_some.mp hmf] at hprovides
    have hreaches : visit.node.Reaches member :=
      (Node.reaches_callArguments (by rw [hargs]; exact List.mem_singleton_self arg)).trans
        (arg.reaches_unwrap.trans (Node.reaches_of_mem_members hmember))
    cases provides_of_factoryMember hprovides with
    | function hn hspan hbody hinner => exact ⟨member, _, hreaches, hn, hspan, hbody, hinner⟩

/-- An outline is made of the findings of one walk and, if scenarios are asked for, of a second. -/
theorem outline_eq_ok {o : Outline} :
    c.outline.outcome = .ok o ↔
      ∃ findings, (Traced.collect c.inspect c.source.root.visits).outcome = .ok findings ∧
        ((c.options.scenarios = false ∧ o = .ofFindings c.options c.vocabulary findings) ∨
          (c.options.scenarios = true ∧
            ∃ more, (Traced.gather c.inspectScenario c.source.root.visits).outcome = .ok more ∧
              o = { Outline.ofFindings c.options c.vocabulary findings with
                scenarios := some (more.filterMap (·.scenario?))
                errors := byLocation (byLocation (findings.filterMap (·.problem?)) ++
                  more.filterMap (·.problem?)) })) := by
  simp only [outline, Traced.outcome_bind_eq_ok]
  refine exists_congr fun findings => and_congr_right fun _ => ?_
  cases hs : c.options.scenarios with
  | false => simp [eq_comm]
  | true =>
    simp only [if_true, scenarios, Traced.outcome_bind_eq_ok, Traced.outcome_pure,
      Traced.outcome_note, Except.ok.injEq]
    constructor
    · rintro ⟨_, ⟨more, hmore, _, _, rfl⟩, rfl⟩
      exact .inr ⟨trivial, more, hmore, rfl⟩
    · rintro (⟨h, -⟩ | ⟨-, more, hmore, rfl⟩)
      · cases h
      · exact ⟨_, ⟨more, hmore, (), trivial, rfl⟩, rfl⟩

end Context
end SuiteOutline
