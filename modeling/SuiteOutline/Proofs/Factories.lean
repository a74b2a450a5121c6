import SuiteOutline.Proofs.Misnamed
import SuiteOutline.Proofs.Tests

/-! Scenario factories lose and double nothing: each call of one makes a scenario or a problem, and
each member of its object is of one class, which decides whether it makes a function, one problem or
nothing. -/
namespace SuiteOutline

/-- The function that a member of an object holds: a method is one itself, a pair has it as its
value. -/
def Node.memberFunction? (member : Node) : Option Node :=
  match member.symbol with
  | .methodDefinition => some member
  | .pair => ((member.child? .value).map unwrap).filter isFunction
  | _ => none

theorem Node.memberFunction?_of_pair {member value : Node} (hpair : member.symbol = .pair)
    (hvalue : member.child? .value = some value) :
    member.memberFunction? = if value.unwrap.isFunction then some value.unwrap else none := by
  simp [memberFunction?, hpair, hvalue, Option.filter]

/-- What a member of a factory's object is taken for. -/
inductive MemberClass where
  | function | unreadable | shorthand | notFunction | misnamed | ignored
deriving Repr, DecidableEq

/-- Members of these classes are problems. -/
def MemberClass.isProblem : MemberClass → Bool
  | function | ignored => false
  | unreadable | shorthand | notFunction | misnamed => true

/-- What is neither a pair nor a method, yet has a key that can be read, is a shorthand. -/
theorem Source.isShorthand_of_memberName {src : Source} {member : Node} {key : Text}
    (h : src.memberName member = .ok (some key)) (hpair : member.symbol ≠ .pair)
    (hmethod : member.symbol ≠ .methodDefinition) :
    member.symbol = .shorthandPropertyIdentifier := by
  unfold memberName at h
  split at h
  case h_1 hsymbol => exact hsymbol
  case h_2 hsymbol => exact absurd hsymbol hpair
  case h_3 hsymbol => exact absurd hsymbol hmethod
  case h_4 => cases h

theorem Text.ofString_append (a b : String) :
    Text.ofString (a ++ b) = Text.ofString a ++ Text.ofString b := by
  simp [Text.ofString, Text.ofChars, String.toList_append]

/-- The message begins with the name of what it is about. -/
def Text.TellsOf (message : Text) (name : String) : Prop :=
  Text.ofString name ++ Text.ofString ": " <+: message

theorem Text.tellsOf (name colon : String) (rest : Text)
    (hcolon : (Text.ofString ": ").isPrefixOf (Text.ofString colon) = true) :
    Text.TellsOf (Text.ofString name ++ (Text.ofString colon ++ rest)) name := by
  have hprefix := List.isPrefixOf_iff_prefix.mp hcolon
  rw [TellsOf, List.prefix_append_right_inj]
  exact hprefix.trans (List.prefix_append _ _)

namespace Context

variable {c : Context} {member : Node} {factory : String}

/-! Classes of members. -/

/-- The member goes by that key, which ends in the way of scenario functions or does not. -/
structure HasKey (c : Context) (member : Node) (key : Text) (ending : Bool) : Prop where
  read : c.source.memberName member = .ok (some key)
  ending : (Text.ofString c.vocabulary.functionTail).isSuffixOf key = ending

/-- The members of each class. -/
def InClass (c : Context) (member : Node) : MemberClass → Prop
  | .function => ∃ key f, c.HasKey member key true ∧ member.memberFunction? = some f
  | .unreadable => c.source.memberName member = .ok none
  | .shorthand => ∃ key, c.HasKey member key true ∧ member.symbol = .shorthandPropertyIdentifier
  | .notFunction => ∃ key value, c.HasKey member key true ∧ member.symbol = .pair ∧
      member.child? .value = some value ∧ value.unwrap.isFunction = false
  | .misnamed => ∃ key f, c.HasKey member key false ∧ member.memberFunction? = some f
  | .ignored => ∃ key, c.HasKey member key false ∧ member.memberFunction? = none

/-- The class of a member whose key is read as this. -/
def memberClass (c : Context) (member : Node) : Option Text → MemberClass
  | none => .unreadable
  | some key =>
    match (Text.ofString c.vocabulary.functionTail).isSuffixOf key, member.memberFunction? with
    | true, some _ => .function
    | true, none => if member.symbol = .pair then .notFunction else .shorthand
    | false, some _ => .misnamed
    | false, none => .ignored

theorem InClass.exists_memberClass {cls : MemberClass} (h : c.InClass member cls) :
    ∃ key, c.source.memberName member = .ok key ∧ c.memberClass member key = cls := by
  cases cls with
  | function =>
    obtain ⟨key, f, hkey, hf⟩ := h
    exact ⟨_, hkey.read, by simp [memberClass, hkey.ending, hf]⟩
  | unreadable => exact ⟨none, h, rfl⟩
  | shorthand =>
    obtain ⟨key, hkey, hsymbol⟩ := h
    exact ⟨_, hkey.read, by simp [memberClass, hkey.ending, Node.memberFunction?, hsymbol]⟩
  | notFunction =>
    obtain ⟨key, value, hkey, hpair, hvalue, hf⟩ := h
    exact ⟨_, hkey.read, by
      simp [memberClass, hkey.ending, Node.memberFunction?_of_pair hpair hvalue, hf, hpair]⟩
  | misnamed =>
    obtain ⟨key, f, hkey, hf⟩ := h
    exact ⟨_, hkey.read, by simp [memberClass, hkey.ending, hf]⟩
  | ignored =>
    obtain ⟨key, hkey, hf⟩ := h
    exact ⟨_, hkey.read, by simp [memberClass, hkey.ending, hf]⟩

theorem InClass.unique {a b : MemberClass} (ha : c.InClass member a) (hb : c.InClass member b) :
    a = b := by
  obtain ⟨key, hkey, rfl⟩ := ha.exists_memberClass
  obtain ⟨key', hkey', rfl⟩ := hb.exists_memberClass
  cases hkey.symm.trans hkey'
  rfl

/-- What a member of a class makes: a function under the member's key, a problem with the member or
its value that is told of the factory, or nothing. -/
inductive MakesOfMember (c : Context) (factory : String) (member : Node) :
    MemberClass → Option FactoryMember → Prop
  | function {n : Node} {f : ScenarioFunction} (hn : member.memberFunction? = some n)
      (hkey : c.source.memberName member = .ok (some f.name))
      (hspan : c.source.spanOf member = .ok f.span) (hbody : c.source.spanOf n = .ok f.body)
      (hinner : (c.inner c.room.scenario n).outcome = .ok f.inner) :
      MakesOfMember c factory member .function (some (.function f))
  | problem {cls : MemberClass} {n : Node} {d : Diagnostic} (hcls : cls.isProblem = true)
      (hn : IsMemberPart member n) (hlocation : c.source.startOf n = .ok d.location)
      (hseverity : d.severity = .error) (htold : d.message.TellsOf factory) :
      MakesOfMember c factory member cls (some (.problem d))
  | nothing : MakesOfMember c factory member .ignored none

/-- The member is of exactly one class, and this is what it makes. -/
def AccountsFor (c : Context) (factory : String) (member : Node) (made : Option FactoryMember) :
    Prop :=
  ∃ cls, c.InClass member cls ∧ (∀ other, c.InClass member other → other = cls) ∧
    c.MakesOfMember factory member cls made

theorem AccountsFor.of_class (cls : MemberClass) {made : Option FactoryMember}
    (hclass : c.InClass member cls) (hmade : c.MakesOfMember factory member cls made) :
    c.AccountsFor factory member made :=
  ⟨cls, hclass, fun _ hother => hother.unique hclass, hmade⟩

theorem AccountsFor.of_memberProblem (cls : MemberClass) {made : Option FactoryMember} {n : Node}
    {message : Text} (hclass : c.InClass member cls) (hcls : cls.isProblem = true)
    (hn : IsMemberPart member n) (htold : message.TellsOf factory)
    (h : (c.memberProblem message n).outcome = .ok made) : c.AccountsFor factory member made := by
  obtain ⟨d, rfl, rfl, hlocation, hseverity⟩ := memberProblem_eq_ok h
  exact .of_class _ hclass (.problem hcls hn hlocation hseverity htold)

theorem AccountsFor.of_scenarioFunction {made : Option FactoryMember} {n : Node} {key : Text}
    (hkey : c.HasKey member key true) (hn : member.memberFunction? = some n)
    (h : (c.scenarioFunction member n key).outcome = .ok made) :
    c.AccountsFor factory member made := by
  simp only [scenarioFunction, Traced.outcome_bind_eq_ok, Traced.outcome_liftM,
    Traced.outcome_pure, Except.ok.injEq] at h
  obtain ⟨span, hspan, body, hbody, inner, hinner, rfl⟩ := h
  have hclass : c.InClass member .function := ⟨key, n, hkey, hn⟩
  exact .of_class _ hclass (.function hn hkey.read hspan hbody hinner)

theorem accountsFor_of_factoryMember {made : Option FactoryMember}
    (h : (c.factoryMember factory member).outcome = .ok made) :
    c.AccountsFor factory member made := by
  simp only [factoryMember, Traced.outcome_bind_eq_ok, Traced.outcome_liftM] at h
  obtain ⟨key, hread, h⟩ := h
  have hself : IsMemberPart member member := .inl rfl
  have htold : ∀ (before : String) (key : Text) (after : String),
      (Text.ofString s!"{factory}: {before}" ++ key ++ Text.ofString after).TellsOf factory := by
    intro before key after
    simpa only [toString, Text.ofString_append, List.append_assoc] using
      Text.tellsOf factory ": " _ (by decide)
  cases key with
  | none =>
    refine .of_memberProblem .unreadable hread rfl hself ?_ h
    simpa only [toString, Text.ofString_append, List.append_assoc] using
      Text.tellsOf factory ": unsupported property " _ (by decide)
  | some key =>
    dsimp only at h
    split at h
    case h_1 hmethod =>
      have hf : member.memberFunction? = some member := by simp [Node.memberFunction?, hmethod]
      split at h
      case isTrue hends => exact .of_scenarioFunction ⟨hread, hends⟩ hf h
      case isFalse hends =>
        rw [Bool.not_eq_true] at hends
        exact .of_memberProblem .misnamed ⟨key, member, ⟨hread, hends⟩, hf⟩ rfl hself (htold ..) h
    case h_2 hpair =>
      cases hvalue : member.child? .value with
      | none => simp [hvalue] at h
      | some value =>
        have hpart : IsMemberPart member value.unwrap := .inr ⟨value, hvalue, rfl⟩
        have hf := Node.memberFunction?_of_pair hpair hvalue
        simp only [hvalue] at h
        split at h
        case isTrue hends =>
          split at h
          case isTrue hfunction =>
            rw [if_pos hfunction] at hf
            exact .of_scenarioFunction ⟨hread, hends⟩ hf h
          case isFalse hfunction =>
            rw [Bool.not_eq_true] at hfunction
            exact .of_memberProblem .notFunction
              ⟨key, value, ⟨hread, hends⟩, hpair, hvalue, hfunction⟩ rfl hpart (htold ..) h
        case isFalse hends =>
          rw [Bool.not_eq_true] at hends
          split at h
          case isTrue hfunction =>
            rw [if_pos hfunction] at hf
            exact .of_memberProblem .misnamed ⟨key, _, ⟨hread, hends⟩, hf⟩ rfl hpart (htold ..) h
          case isFalse hfunction =>
            rw [if_neg hfunction] at hf
            cases h
            exact .of_class .ignored ⟨key, ⟨hread, hends⟩, hf⟩ .nothing
    case h_3 hmethod hpair =>
      have hsymbol := Source.isShorthand_of_memberName hread hpair hmethod
      split at h
      case isTrue hends =>
        exact .of_memberProblem .shorthand ⟨key, ⟨hread, hends⟩, hsymbol⟩ rfl hself (htold ..) h
      case isFalse hends =>
        rw [Bool.not_eq_true] at hends
        have hf : member.memberFunction? = none := by simp [Node.memberFunction?, hsymbol]
        cases h
        exact .of_class .ignored ⟨key, ⟨hread, hends⟩, hf⟩ .nothing

/-- All that is collected from members, in their order. -/
theorem exists_parts {ns : List Node} {members : List FactoryMember}
    (h : (Traced.collect (c.factoryMember factory) ns).outcome = .ok members) :
    ∃ parts, List.Forall₂ (c.AccountsFor factory) ns parts ∧ members = parts.filterMap id := by
  obtain ⟨hall, rfl⟩ := Traced.collect_eq_ok.mp h
  refine ⟨ns.map fun m => (c.factoryMember factory m).found?, ?_, ?_⟩
  · rw [List.forall₂_map_right_iff, List.forall₂_same]
    intro m hm
    obtain ⟨made, hmade⟩ := hall m hm
    rw [Traced.found?_eq hmade]
    exact accountsFor_of_factoryMember hmade
  · rw [List.filterMap_map]
    rfl

/-! Calls of factories. -/

variable {visit : Visit}

/-- The visited node is a call of a suite. -/
def callsSuite (c : Context) (visit : Visit) : Bool :=
  c.source.goesBy c.vocabulary.isSuite visit.node

/-- The visited node is a call of a scenario factory. One that goes by the name of a suite is taken
for a suite. -/
def callsFactory (c : Context) (visit : Visit) : Bool :=
  c.source.goesBy (fun name => !c.vocabulary.isSuite name && c.vocabulary.isScenario name)
    visit.node

/-- What a visited call of a factory makes: one problem if it is not given just an object, and
otherwise a scenario and the problems with the object's members. The scope has a frame for each call
of a suite around the call, from the outermost inwards, and no other. -/
inductive MakesOfFactory (c : Context) (visit : Visit) : Option Scenario × List Diagnostic → Prop
  | rejected {name : String} {d : Diagnostic}
      (hargs : ¬∃ arg, visit.node.callArguments = [arg] ∧ arg.kind = .object)
      (hname : c.source.dotted? visit.node = .ok (some name)) (htold : d.message.TellsOf name)
      (hlocation : c.source.startOf visit.node = .ok d.location) (hseverity : d.severity = .error) :
      MakesOfFactory c visit (none, [d])
  | scenario {s : Scenario} {arg : Node} {parts : List (Option FactoryMember)}
      (hargs : visit.node.callArguments = [arg]) (hobject : arg.kind = .object)
      (hname : c.source.dotted? visit.node = .ok (some s.name))
      (hspan : c.source.spanOf visit.node = .ok s.span)
      (hscope : List.Forall₂ (fun n f => ∃ name, c.source.Frames c.vocabulary n name f)
        (visit.ancestors.filter (c.source.goesBy c.vocabulary.isSuite)) s.scope)
      (hmembers : List.Forall₂ (c.AccountsFor s.name) arg.unwrap.members parts)
      (hfunctions : s.functions = parts.filterMap (·.bind (·.function?))) :
      MakesOfFactory c visit (some s, parts.filterMap (·.bind (·.problem?)))

/-- What a visited call of a suite is told. -/
def ChecksSuite (c : Context) (visit : Visit) (ds : List Diagnostic) : Prop :=
  ∃ name, c.source.dotted? visit.node = .ok (some name) ∧ c.suiteProblems visit.node name = .ok ds

theorem filterMap_scenario?_problems (ds : List Diagnostic) :
    (ds.map ScenarioFinding.problem).filterMap (·.scenario?) = [] := by
  simp [List.filterMap_map, ScenarioFinding.scenario?]

theorem filterMap_problem?_problems (ds : List Diagnostic) :
    (ds.map ScenarioFinding.problem).filterMap (·.problem?) = ds := by
  rw [List.filterMap_map]
  exact List.filterMap_some

theorem makesOfFactory_of_scenario {name : String} {found : List ScenarioFinding}
    (hname : c.source.dotted? visit.node = .ok (some name))
    (h : (c.scenario visit.node name visit.ancestors).outcome = .ok found) :
    ∃ made, c.MakesOfFactory visit made ∧ found.filterMap (·.scenario?) = made.1.toList ∧
      found.filterMap (·.problem?) = made.2 := by
  simp only [scenario] at h
  split at h
  case h_1 arg hargs =>
    split at h
    case isTrue hkind =>
      simp only [Traced.outcome_bind_eq_ok, Traced.outcome_liftM, Traced.outcome_pure,
        Except.ok.injEq] at h
      obtain ⟨d, hd, rfl⟩ := h
      obtain ⟨hmessage, hlocation, hseverity⟩ := problemAt_eq_ok hd
      refine ⟨(none, [d]), .rejected ?_ hname ?_ hlocation hseverity, rfl, rfl⟩
      · intro ⟨other, hother, hobject⟩
        obtain rfl : arg = other := by simpa [hargs] using hother
        exact hkind hobject
      · simpa only [hmessage, toString, Text.ofString_append, List.append_assoc] using
          Text.tellsOf name ": ObjectExpression expected as argument. Found " _ (by decide)
    case isFalse hkind =>
      simp only [Traced.outcome_bind_eq_ok, Traced.outcome_liftM, Traced.outcome_pure,
        Except.ok.injEq] at h
      obtain ⟨members, hmembers, scope, hscope, span, hspan, rfl⟩ := h
      obtain ⟨parts, hparts, rfl⟩ := exists_parts hmembers
      refine ⟨_, .scenario (s := ⟨name, scope, span, _⟩) hargs (not_not.mp hkind) hname hspan
        (Source.forall₂_frames hscope) hparts rfl, ?_, ?_⟩
      · rw [List.filterMap_append, filterMap_scenario?_problems, List.filterMap_filterMap]
        rfl
      · rw [List.filterMap_append, filterMap_problem?_problems, List.filterMap_filterMap]
        exact List.append_nil _
  case h_2 hargs =>
    simp only [Traced.outcome_bind_eq_ok, Traced.outcome_liftM, Traced.outcome_pure,
      Except.ok.injEq] at h
    obtain ⟨d, hd, rfl⟩ := h
    obtain ⟨hmessage, hlocation, hseverity⟩ := problemAt_eq_ok hd
    refine ⟨(none, [d]), .rejected (fun ⟨arg, harg, _⟩ => hargs arg harg) hname ?_ hlocation
      hseverity, rfl, rfl⟩
    simpa only [hmessage, toString, Text.ofString_append, List.append_assoc] using
      Text.tellsOf name ": Scenario factory should have 1 argument. Found " _ (by decide)

/-- What one visit finds, by what it calls. -/
inductive VisitFinds (c : Context) (visit : Visit) (found : List ScenarioFinding) : Prop
  | factory (made : Option Scenario × List Diagnostic) (hfactory : c.callsFactory visit = true)
      (hsuite : ¬c.callsSuite visit = true) (hmade : c.MakesOfFactory visit made)
      (hscenario : found.filterMap (·.scenario?) = made.1.toList)
      (hproblems : found.filterMap (·.problem?) = made.2)
  | suite (ds : List Diagnostic) (hfactory : ¬c.callsFactory visit = true)
      (hsuite : c.callsSuite visit = true) (hchecks : c.ChecksSuite visit ds)
      (hfound : found = ds.map .problem)
  | neither (hfactory : ¬c.callsFactory visit = true) (hsuite : ¬c.callsSuite visit = true)
      (hfound : found = [])

theorem visitFinds_of_inspectScenario {found : List ScenarioFinding}
    (h : (c.inspectScenario visit).outcome = .ok found) : c.VisitFinds visit found := by
  simp only [inspectScenario, Traced.outcome_bind_eq_ok, Traced.outcome_liftM] at h
  obtain ⟨name, hname, h⟩ := h
  cases name with
  | none =>
    cases h
    exact .neither (by simp [callsFactory, Source.goesBy, hname])
      (by simp [callsSuite, Source.goesBy, hname]) rfl
  | some name =>
    have hcallsSuite : c.callsSuite visit = c.vocabulary.isSuite name := by
      simp [callsSuite, Source.goesBy, hname]
    have hcallsFactory : c.callsFactory visit =
        (!c.vocabulary.isSuite name && c.vocabulary.isScenario name) := by
      simp [callsFactory, Source.goesBy, hname]
    dsimp only at h
    split at h
    case isTrue hsuite =>
      simp only [Traced.outcome_bind_eq_ok, Traced.outcome_liftM, Traced.outcome_pure,
        Except.ok.injEq] at h
      obtain ⟨ds, hds, rfl⟩ := h
      exact .suite ds (by simp [hcallsFactory, hsuite]) (hcallsSuite.trans hsuite)
        ⟨name, hname, hds⟩ rfl
    case isFalse hsuite =>
      split at h
      case isTrue hscenario =>
        obtain ⟨made, hmade, hfirst, hproblems⟩ := makesOfFactory_of_scenario hname h
        exact .factory made (by simp [hcallsFactory, hsuite, hscenario])
          (by rwa [hcallsSuite]) hmade hfirst hproblems
      case isFalse hscenario =>
        cases h
        exact .neither (by simp [hcallsFactory, hscenario]) (by rwa [hcallsSuite]) rfl

/-- What a walk finds is what calls of factories make and what calls of suites are told, and nothing
else. -/
theorem exists_made_of_gather {visits : List Visit} {more : List ScenarioFinding}
    (h : (Traced.gather c.inspectScenario visits).outcome = .ok more) :
    ∃ made told, List.Forall₂ c.MakesOfFactory (visits.filter c.callsFactory) made ∧
      List.Forall₂ c.ChecksSuite (visits.filter c.callsSuite) told ∧
      more.filterMap (·.scenario?) = made.filterMap (·.1) ∧
      (more.filterMap (·.problem?)).Perm (made.flatMap (·.2) ++ told.flatten) := by
  induction visits generalizing more with
  | nil =>
    obtain ⟨-, rfl⟩ := Traced.gather_eq_ok.mp h
    exact ⟨[], [], .nil, .nil, rfl, .refl _⟩
  | cons visit visits ih =>
    rw [← List.singleton_append] at h
    obtain ⟨found, rest, hfound, hrest, rfl⟩ := Traced.gather_append_eq_ok.mp h
    obtain ⟨made, told, hmade, htold, hscenarios, hproblems⟩ := ih hrest
    obtain ⟨hall, hfound⟩ := Traced.gather_eq_ok.mp hfound
    obtain ⟨own, hown⟩ := hall visit List.mem_cons_self
    obtain rfl : found = own := by simpa [Traced.findings_eq hown] using hfound
    simp only [List.filterMap_append, hscenarios]
    cases visitFinds_of_inspectScenario hown with
    | factory first hfactory hsuite hfirst hscenario hproblem =>
      refine ⟨first :: made, told, ?_, ?_, ?_, ?_⟩
      · rw [List.filter_cons_of_pos hfactory]
        exact .cons hfirst hmade
      · rwa [List.filter_cons_of_neg hsuite]
      · rw [hscenario]
        cases hone : first.1 <;> simp [hone]
      · rw [hproblem, List.flatMap_cons, List.append_assoc]
        exact hproblems.append_left first.2
    | suite ds hfactory hsuite hchecks hdiagnostics =>
      subst hdiagnostics
      refine ⟨made, ds :: told, ?_, ?_, ?_, ?_⟩
      · rwa [List.filter_cons_of_neg hfactory]
      · rw [List.filter_cons_of_pos hsuite]
        exact .cons hchecks htold
      · rw [filterMap_scenario?_problems, List.nil_append]
      · rw [filterMap_problem?_problems, List.flatten_cons]
        exact (hproblems.append_left ds).trans (List.perm_append_comm_assoc ..)
    | neither hfactory hsuite hnone =>
      subst hnone
      refine ⟨made, told, ?_, ?_, rfl, hproblems⟩
      · rwa [List.filter_cons_of_neg hfactory]
      · rwa [List.filter_cons_of_neg hsuite]

theorem scenarios_eq_ok {scenarios : List Scenario} {problems : List Diagnostic} :
    c.scenarios.outcome = .ok (scenarios, problems) ↔
      ∃ more, (Traced.gather c.inspectScenario c.source.root.visits).outcome = .ok more ∧
        scenarios = more.filterMap (·.scenario?) ∧ problems = more.filterMap (·.problem?) := by
  simp only [Context.scenarios, Traced.outcome_bind_eq_ok, Traced.outcome_note,
    Traced.outcome_pure, Except.ok.injEq, Prod.mk.injEq]
  refine exists_congr fun more => and_congr_right fun _ => ?_
  simp [eq_comm]

theorem scenarios_succeed (hsrc : c.source.Readable c.vocabulary) :
    ∃ scenarios problems, c.scenarios.outcome = .ok (scenarios, problems) := by
  have hwalk : (Traced.gather c.inspectScenario c.source.root.visits).Succeeds :=
    .gather fun _ hvisit => inspectScenario_succeeds hsrc hvisit
  obtain ⟨more, hmore⟩ := hwalk
  exact ⟨_, _, scenarios_eq_ok.mpr ⟨more, hmore, rfl, rfl⟩⟩

/-- Where the scenarios are found, there is one scenario or one problem for each visited call of a
factory, with every member of its object accounted for, and beside them only what is told of suites.
They are found wherever pairs have values and numbers that are names or keys can be written. -/
theorem factories_accounted (c : Context) :
    (∀ scenarios problems, c.scenarios.outcome = .ok (scenarios, problems) →
      ∃ made told, List.Forall₂ c.MakesOfFactory (c.source.root.visits.filter c.callsFactory) made ∧
        List.Forall₂ c.ChecksSuite (c.source.root.visits.filter c.callsSuite) told ∧
        scenarios = made.filterMap (·.1) ∧
        problems.Perm (made.flatMap (·.2) ++ told.flatten)) ∧
    (c.source.Readable c.vocabulary →
      ∃ scenarios problems, c.scenarios.outcome = .ok (scenarios, problems)) := by
  refine ⟨fun scenarios problems h => ?_, scenarios_succeed⟩
  obtain ⟨more, hmore, rfl, rfl⟩ := scenarios_eq_ok.mp h
  exact exists_made_of_gather hmore

end Context

/-- A source can be read if it has no escapes, its pairs have values and no number in it is a name
or a key. -/
theorem Source.readable_of_plain {filename : Option String} {text : List Char} {tree : Node}
    {src : Source} {v : Vocabulary} (hsrc : Source.ofTree filename text tree = .ok src)
    (hmeasured : src.Measured)
    (hplain : ∀ n ∈ src.root.nodes, n.symbol ≠ .escapeSequence ∧
      (n.symbol = .pair → (n.child? .value).isSome = true) ∧
      (∀ arg ∈ n.callArguments.head?, arg.unwrap.symbol ≠ .number) ∧
      ∀ key ∈ n.keyNode?, key.symbol ≠ .number) : src.Readable v := by
  have hescapes : src.EscapesFormed :=
    ⟨fun e he h => absurd h (hplain e he).1, fun e he h => absurd h (hplain e he).1⟩
  refine ⟨legible_ofTree hsrc hmeasured hescapes, fun n hn hpair => ?_, ?_, ?_⟩
  · exact Option.isSome_iff_exists.mp ((hplain n hn).2.1 hpair)
  · intro call hcall _ _ _ arg harg
    exact not_unwritable ((hplain call hcall).2.2.1 arg harg)
  · intro n hn key hkey
    exact not_unwritable ((hplain n hn).2.2.2 key hkey)

/-! A factory with a member of each class, and a factory without an object. -/
namespace Sample

def factoryText : List Char :=
  "d(\"a\",()=>[s(\x7baF()\x7b\x7d,[b]:1,cF,dF:1,e()\x7b\x7d,f:1\x7d),s()])".toList

def factoryObject : Node :=
  node none .object 13 45
    [node none .methodDefinition 14 20
      [node (some .name) .propertyIdentifier 14 16 [],
       node none (.other "formal_parameters") 16 18 [],
       node (some .body) .statementBlock 18 20 []],
     node none .pair 21 26
      [node (some .key) (.other "computed_property_name") 21 24 [node none .identifier 22 23 []],
       node (some .value) .number 25 26 []],
     node none .shorthandPropertyIdentifier 27 29 [],
     node none .pair 30 34
      [node (some .key) .propertyIdentifier 30 32 [], node (some .value) .number 33 34 []],
     node none .methodDefinition 35 40
      [node (some .name) .propertyIdentifier 35 36 [],
       node none (.other "formal_parameters") 36 38 [],
       node (some .body) .statementBlock 38 40 []],
     node none .pair 41 44
      [node (some .key) .propertyIdentifier 41 42 [], node (some .value) .number 43 44 []]]

def factoryCall : Node :=
  node none .callExpression 11 46
    [node (some .function) .identifier 11 12 [],
     node (some .arguments) .arguments 12 46 [factoryObject]]

def emptyFactoryCall : Node :=
  node none .callExpression 47 50
    [node (some .function) .identifier 47 48 [], node (some .arguments) .arguments 48 50 []]

def factoryTree : Node :=
  node none .callExpression 0 52
    [node (some .function) .identifier 0 1 [],
     node (some .arguments) .arguments 1 52
      [node none .string 2 5 [node none (.other "string_fragment") 3 4 []],
       node none .arrowFunction 6 51
        [node none (.other "formal_parameters") 6 8 [],
         node (some .body) .array 10 51
          [token .leftBracket 10 11, factoryCall, token .comma 46 47, emptyFactoryCall,
           token .rightBracket 50 51]]]]

def factoryContext : Context :=
  ⟨⟨none, factoryText.toArray, .ofText factoryText, factoryTree⟩, {},
    { suites := ["d"], scenarioHead := "s", functionTail := "F" }, .worker⟩

theorem ofTree_factoryTree :
    Source.ofTree none factoryText factoryTree = .ok factoryContext.source := rfl

theorem readable_factorySource : factoryContext.source.Readable factoryContext.vocabulary :=
  Source.readable_of_plain ofTree_factoryTree (fun n _ => ⟨n.span, rfl⟩) (by decide)

end Sample

namespace Context

/-- Of the six members the first is a function, the last is passed over and the others are problems,
as is the call without an object. -/
theorem factories_accounted_sample :
    ∃ scenarios problems made,
      Sample.factoryContext.scenarios.outcome = .ok (scenarios, problems) ∧
      (Sample.factoryContext.source.root.visits.filter Sample.factoryContext.callsFactory).map
        (·.node) = [Sample.factoryCall, Sample.emptyFactoryCall] ∧
      List.Forall₂ Sample.factoryContext.MakesOfFactory
        (Sample.factoryContext.source.root.visits.filter Sample.factoryContext.callsFactory) made ∧
      scenarios = made.filterMap (·.1) ∧
      scenarios.map (fun s => (s.name, s.scope.length, s.functions.map (·.name))) =
        [("s", 1, [Text.ofString "aF"])] ∧
      problems.map (·.location) = [21, 27, 33, 35, 47] := by
  have hcheck : Sample.factoryContext.scenarios.outcome.toOption.any (fun found =>
      decide (found.1.map (fun s => (s.name, s.scope.length, s.functions.map (·.name))) =
        [("s", 1, [Text.ofString "aF"])]) &&
      decide (found.2.map (·.location) = [21, 27, 33, 35, 47])) = true := by
    decide
  obtain ⟨haccounted, hsucceeds⟩ := factories_accounted Sample.factoryContext
  obtain ⟨scenarios, problems, h⟩ := hsucceeds Sample.readable_factorySource
  obtain ⟨made, -, hmade, -, hscenarios, -⟩ := haccounted scenarios problems h
  rw [h] at hcheck
  obtain ⟨hnames, hlocations⟩ := (Bool.and_eq_true _ _).mp hcheck
  exact ⟨scenarios, problems, made, h, rfl, hmade, hscenarios, of_decide_eq_true hnames,
    of_decide_eq_true hlocations⟩

end Context

/-! After a suite with a stray call in it, a factory is given an object whose only key is a number of
too many digits. -/
namespace Sample

def hugeKeyFront : List Char := "d(\"a\",()=>\x7bx();\x7d);s(\x7b".toList

def hugeKeyText (k : Nat) : List Char := hugeKeyFront ++ (hugeNumeral k ++ ":1\x7d)".toList)

/-- The statement `x();`. -/
def strayStatement : Node :=
  node none .expressionStatement 11 15
    [node none .callExpression 11 14
      [node (some .function) .identifier 11 12 [], node (some .arguments) .arguments 12 14 []]]

def straySuite : Node :=
  node none .callExpression 0 17
    [node (some .function) .identifier 0 1 [],
     node (some .arguments) .arguments 1 17
      [node none .string 2 5 [node none (.other "string_fragment") 3 4 []],
       node none .arrowFunction 6 16
        [node none (.other "formal_parameters") 6 8 [],
         node (some .body) .statementBlock 10 16 [strayStatement]]]]

def hugeKey (k : Nat) : Node := node (some .key) .number 21 (k + 24) []

def hugePair (k : Nat) : Node :=
  node none .pair 21 (k + 26) [hugeKey k, node (some .value) .number (k + 25) (k + 26) []]

def hugeFactory (k : Nat) : Node :=
  node none .callExpression 18 (k + 28)
    [node (some .function) .identifier 18 19 [],
     node (some .arguments) .arguments 19 (k + 28) [node none .object 20 (k + 27) [hugePair k]]]

def hugeKeyTree (k : Nat) : Node :=
  node none (.other "program") 0 (k + 28)
    [node none .expressionStatement 0 18 [straySuite],
     node none .expressionStatement 18 (k + 28) [hugeFactory k]]

def hugeKeySource (k : Nat) : Source := ⟨none, (hugeKeyText k).toArray, .same, hugeKeyTree k⟩

def hugeKeyContext (k : Nat) : Context :=
  ⟨hugeKeySource k, {}, { suites := ["d"], scenarioHead := "s" }, .worker⟩

theorem ofText_hugeKeyText (k : Nat) : Offsets.ofText (hugeKeyText k) = .same := by
  have hnumeral : (hugeNumeral k).all (·.toNat < 0x80) = true := by
    have hascii : ['0', 'x', '1'].all (·.toNat < 0x80) = true := by decide
    refine List.all_eq_true.mpr fun c hc => List.all_eq_true.mp hascii c ?_
    simp only [hugeNumeral, List.mem_cons, List.mem_replicate] at hc ⊢
    tauto
  have hfront : hugeKeyFront.all (·.toNat < 0x80) = true := by decide
  have hback : ":1\x7d)".toList.all (·.toNat < 0x80) = true := by decide
  refine if_pos ?_
  rw [hugeKeyText, List.all_append, List.all_append, hfront, hnumeral, hback]
  rfl

theorem ofTree_hugeKeyTree (k : Nat) :
    Source.ofTree none (hugeKeyText k) (hugeKeyTree k) = .ok (hugeKeySource k) := by
  have hrange : (hugeKeySource k).outOfRange? = .ok none := by
    unfold Source.outOfRange?
    split
    · rfl
    · rfl
  unfold Source.ofTree
  rw [ofText_hugeKeyText]
  change (hugeKeySource k).outOfRange? >>= _ = _
  rw [hrange]
  rfl

theorem measured_hugeKeySource (k : Nat) : (hugeKeySource k).Measured :=
  fun n _ => ⟨n.span, rfl⟩

theorem escapesFormed_hugeKeySource (k : Nat) : (hugeKeySource k).EscapesFormed := by
  have hnone : ∀ e ∈ (hugeKeySource k).root.nodes, e.symbol ≠ .escapeSequence := by
    have hall : (hugeKeyTree k).nodes.all (·.symbol ≠ .escapeSequence) = true := rfl
    exact fun e he => of_decide_eq_true (List.all_eq_true.mp hall e he)
  exact ⟨fun e he h => absurd h (hnone e he), fun e he h => absurd h (hnone e he)⟩

theorem pairsValued_hugeKeyTree (k : Nat) : (hugeKeyTree k).PairsValued := by
  have hall : (hugeKeyTree k).nodes.all (fun m => m.symbol ≠ .pair ∨ (m.child? .value).isSome) =
      true := rfl
  intro m hm hpair
  have hm := of_decide_eq_true (List.all_eq_true.mp hall m hm)
  exact Option.isSome_iff_exists.mp (hm.resolve_left (not_not.mpr hpair))

/-- A call of a plain name goes by the text of the name; all names stand in front of the number. -/
theorem dotted?_hugeKeySource (k : Nat) {call name : Node}
    (hcall : call.calleeDescent = ⟨[⟨name, 0⟩], true⟩) (horder : name.start ≤ name.stop)
    (hstop : name.stop ≤ hugeKeyFront.length) {shown : String}
    (hshown : String.ofList (hugeKeyFront.extract name.start name.stop) = shown) :
    (hugeKeySource k).dotted? call = .ok (some shown) := by
  have hslice : (hugeKeySource k).slice name.start name.stop =
      hugeKeyFront.extract name.start name.stop := by
    rw [Source.slice, hugeKeySource, hugeKeyText, Array.toList_extract, List.extract_eq_take_drop,
      List.extract_eq_take_drop, List.drop_append_of_le_length (by omega),
      List.take_append_of_le_length (by simp only [List.length_drop]; omega)]
  have htext : (hugeKeySource k).textOf name = .ok shown := by
    rw [← hshown, ← hslice]
    rfl
  have hlink : Link.text (hugeKeySource k) ⟨name, 0⟩ = .ok shown := by
    rw [Link.text, htext]
    exact congrArg Except.ok (by simp)
  have hsegments : (hugeKeySource k).segments? call = .ok (some [shown]) := by
    rw [Source.segments?, hcall]
    exact bind_eq_ok.mpr ⟨[shown], mapM_eq_ok.mpr (.cons hlink .nil), rfl⟩
  refine Source.dotted?_eq_ok.mpr ⟨_, hsegments, ?_⟩
  simp [dotted, List.intercalate]

theorem callsFactory_hugeFactory (k : Nat) (enclosing : List Node) :
    (hugeKeyContext k).callsFactory ⟨hugeFactory k, enclosing⟩ = true := by
  have hname : (!Vocabulary.isSuite { suites := ["d"], scenarioHead := "s" } "s" &&
      Vocabulary.isScenario { suites := ["d"], scenarioHead := "s" } "s") = true := by decide
  have hdotted : (hugeKeySource k).dotted? (hugeFactory k) = .ok (some "s") :=
    dotted?_hugeKeySource k rfl (by decide) (by decide) rfl
  exact Source.goesBy_iff.mpr ⟨"s", hdotted, hname⟩

theorem hugePair_mem (k : Nat) : hugePair k ∈ (hugeKeySource k).root.nodes :=
  List.mem_of_getElem? (i := 19) rfl

theorem unwritable_hugeKey : (hugeKeySource digitLimit).Unwritable (hugeKey digitLimit) := by
  have hchars : ∀ k, (hugeKeySource k).charsOf (hugeKey k) = .ok (hugeNumeral k) := by
    intro k
    have hlength : (hugeNumeral k).length = k + 24 - 21 := by simp [hugeNumeral]
    have hslice : (hugeKeySource k).slice 21 (k + 24) = hugeNumeral k := by
      have hfront : hugeKeyFront.length = 21 := rfl
      rw [Source.slice, hugeKeySource, hugeKeyText, Array.toList_extract, List.extract_eq_take_drop,
        List.drop_left' hfront, List.take_left' hlength]
    exact congrArg Except.ok hslice
  have hlong : 10 ^ digitLimit ≤ ((16 ^ digitLimit : Nat) : Int).natAbs :=
    Nat.pow_le_pow_left (by decide) digitLimit
  exact ⟨rfl, _, _, hchars digitLimit, read?_hugeNumeral digitLimit, hlong⟩

end Sample

namespace Context

/-- A key that cannot be written makes the search for scenarios fail. -/
theorem scenarios_hugeKeyContext (found : List Scenario × List Diagnostic) :
    (Sample.hugeKeyContext digitLimit).scenarios.outcome ≠ .ok found := by
  intro hfound
  obtain ⟨more, hmore, -, -⟩ := scenarios_eq_ok.mp hfound
  have hvisit : ∃ enclosing, ⟨Sample.hugeFactory digitLimit, enclosing⟩ ∈
      (Sample.hugeKeySource digitLimit).root.visits :=
    ⟨_, List.mem_of_getElem? (i := 15) rfl⟩
  obtain ⟨enclosing, hvisit⟩ := hvisit
  obtain ⟨found, hinspect⟩ := (Traced.gather_eq_ok.mp hmore).1 _ hvisit
  have hcalls := Sample.callsFactory_hugeFactory digitLimit enclosing
  cases visitFinds_of_inspectScenario hinspect with
  | suite _ hfactory => exact hfactory hcalls
  | neither hfactory => exact hfactory hcalls
  | factory made _ _ hmade _ _ =>
    cases hmade with
    | rejected hargs => exact hargs ⟨_, rfl, rfl⟩
    | scenario hargs _ _ _ _ hmembers =>
      cases hargs
      cases hmembers with
      | cons hpair _ =>
        -- a member of whatever class has a key that is read or has none
        obtain ⟨_, hclass, -⟩ := hpair
        obtain ⟨key, hkey, -⟩ := hclass.exists_memberClass
        have hlegible := Source.legible_ofTree (Sample.ofTree_hugeKeyTree digitLimit)
          (Sample.measured_hugeKeySource digitLimit) (Sample.escapesFormed_hugeKeySource digitLimit)
        have hfails := (hlegible.memberName_eq_error (Sample.hugePair_mem digitLimit)).mpr
          ⟨rfl, _, rfl, Sample.unwritable_hugeKey⟩
        exact nomatch hkey.symm.trans hfails

/-- Not every call of a factory is accounted for: a key may be a number that cannot be written. -/
theorem not_forall_factories_accounted :
    ¬∀ (text : List Char) (tree : Node) (src : Source) (v : Vocabulary),
      Source.ofTree none text tree = .ok src → src.Measured → src.EscapesFormed →
        src.root.PairsValued → ∃ found, (scenarios ⟨src, {}, v, .worker⟩).outcome = .ok found := by
  intro h
  obtain ⟨found, hfound⟩ := h _ _ _ { suites := ["d"], scenarioHead := "s" }
    (Sample.ofTree_hugeKeyTree digitLimit) (Sample.measured_hugeKeySource digitLimit)
    (Sample.escapesFormed_hugeKeySource digitLimit) (Sample.pairsValued_hugeKeyTree digitLimit)
  exact scenarios_hugeKeyContext found hfound

end Context
end SuiteOutline
