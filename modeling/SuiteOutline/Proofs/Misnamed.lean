import SuiteOutline.Proofs.Entries
import SuiteOutline.Proofs.Readable

/-! The one thing that stops an outline is a command registered under a name that is no string. All
that is looked up on the way is there. -/
namespace SuiteOutline

/-- Collecting fails where the first element fails, in the same way. -/
theorem Traced.collect_eq_error {α β : Type} {f : α → Traced (Option β)} {as : List α}
    {e : Failure} :
    (collect f as).outcome = .error e ↔ ∃ before a after, as = before ++ a :: after ∧
      (∀ b ∈ before, (f b).Succeeds) ∧ (f a).outcome = .error e := by
  induction as with
  | nil =>
    constructor
    · intro h
      cases h
    · rintro ⟨before, a, after, h, -⟩
      simp at h
  | cons a as ih =>
    rw [collect, outcome_bind]
    cases ha : (f a).outcome with
    | error e' =>
      constructor
      · intro h
        cases h
        exact ⟨[], a, as, rfl, by simp, ha⟩
      · rintro ⟨before, b, after, hsplit, hbefore, hb⟩
        cases before with
        | nil =>
          cases hsplit
          cases ha.symm.trans hb
          rfl
        | cons b' before =>
          cases hsplit
          obtain ⟨r, hr⟩ := hbefore a List.mem_cons_self
          cases hr.symm.trans ha
    | ok r =>
      have hrest : (collect f as >>= fun bs => Pure.pure (r.toList ++ bs)).outcome = .error e ↔
          (collect f as).outcome = .error e :=
        Succeeds.bind_eq_error fun bs => .pure _
      refine hrest.trans (ih.trans ?_)
      constructor
      · rintro ⟨before, b, after, rfl, hbefore, hb⟩
        exact ⟨a :: before, b, after, rfl, List.forall_mem_cons.mpr ⟨⟨r, ha⟩, hbefore⟩, hb⟩
      · rintro ⟨before, b, after, hsplit, hbefore, hb⟩
        cases before with
        | nil =>
          cases hsplit
          cases ha.symm.trans hb
        | cons b' before =>
          cases hsplit
          exact ⟨before, b, after, rfl, (List.forall_mem_cons.mp hbefore).2, hb⟩

namespace Source

variable {src : Source} {v : Vocabulary}

/-- The call registers a command under a name that is no string literal. -/
def misnames (src : Source) (v : Vocabulary) (call : Node) : Bool :=
  (src.dotted? call).toOption = some (some v.registrationPath) &&
    call.callArguments.head?.all (·.unwrap.symbol ≠ .string)

theorem misnames_iff {call : Node} :
    src.misnames v call = true ↔ src.dotted? call = .ok (some v.registrationPath) ∧
      call.callArguments.head?.all (·.unwrap.symbol ≠ .string) = true := by
  unfold misnames
  cases src.dotted? call <;> simp [Except.toOption]

/-- The frames of a list of nodes and of one more that is included. -/
theorem scope_concat {included : String → Bool} {ns : List Node} {n : Node} {name : String}
    {frames : List Frame} {own : Frame} (hns : src.scope v included ns = .ok frames)
    (hname : src.dotted? n = .ok (some name)) (hincluded : included name = true)
    (hown : src.frame v n name = .ok own) :
    src.scope v included (ns ++ [n]) = .ok (frames ++ [own]) := by
  induction ns generalizing frames with
  | nil =>
    cases hns
    simp only [List.nil_append, scope, hname, bind_eq_ok]
    exact ⟨_, rfl, by simp [Option.filter, hincluded, hown, bind, Except.bind, pure, Except.pure]⟩
  | cons m ns ih =>
    simp only [List.cons_append, scope, bind_eq_ok] at hns ⊢
    obtain ⟨found, hfound, hns⟩ := hns
    refine ⟨found, hfound, ?_⟩
    split at hns
    · exact ih hns
    · simp only [bind_eq_ok, pure_eq_ok] at hns ⊢
      obtain ⟨f, hf, fs, hfs, rfl⟩ := hns
      exact ⟨f, hf, fs ++ [own], ih hfs, rfl⟩

end Source

theorem mem_nodes_of_mem_visits {root : Node} {visit : Visit} (h : visit ∈ root.visits) :
    visit.node ∈ root.nodes ∧ ∀ n ∈ visit.ancestors, n ∈ root.nodes := by
  refine ⟨(Node.reaches_of_mem_visits h).mem_nodes, fun n hn => ?_⟩
  have hwalk := Node.mem_walk_of_mem_enclosing h (List.mem_reverse.mp hn)
  exact (Node.reaches_of_mem_walk hwalk).mem_nodes

namespace Context

variable {c : Context}

/-- What is said of a misnamed command. -/
def misnaming (c : Context) (call : Node) (location : Nat) : CommandNameFault where
  message :=
    let found := (call.callArguments.head?.map Node.kindName).getD "nothing"
    s!"{c.vocabulary.registrationPath}: command name must be a literal string, found {found}"
  location
  filename := c.source.filename

theorem definition_of_misnamed {call : Node} {location : Nat}
    (hname : call.callArguments.head?.all (·.unwrap.symbol ≠ .string) = true)
    (hlocation : c.source.startOf call = .ok location) :
    (c.definition call).outcome = .error (.commandName (c.misnaming call location)) := by
  unfold definition misnaming
  rw [hlocation]
  cases hargs : call.callArguments with
  | nil => rfl
  | cons first rest =>
    have hfirst : first.unwrap.symbol ≠ .string := by simpa [hargs] using hname
    have hlast : (first :: rest).getLast? = some ((first :: rest).getLast (by simp)) :=
      List.getLast?_eq_some_getLast (by simp)
    simp only [List.head?_cons, hlast, ne_eq, hfirst, not_false_eq_true, if_true]
    rfl

section

variable (hsrc : c.source.Readable c.vocabulary)
include hsrc

theorem problemAt_ok (message : Text) {n : Node} (hn : n ∈ c.source.root.nodes) :
    ∃ d, c.problemAt message n = .ok d :=
  exists_bind_eq_ok (hsrc.legible.startOf_ok hn) fun _ _ => ⟨_, rfl⟩

theorem problem_succeeds (message : String) {n : Node} (hn : n ∈ c.source.root.nodes) :
    (c.problem message n).Succeeds :=
  .bind (problemAt_ok hsrc _ hn) fun _ _ => .pure _

theorem inner_succeeds {f : Node} (hf : f ∈ c.source.root.nodes) (levels : Nat) :
    (c.inner levels f.unwrap).Succeeds :=
  hsrc.innerCalls?_succeeds (Node.mem_nodes_unwrap hf) levels _

theorem definition_succeeds {call : Node} (hcall : call ∈ c.source.root.nodes)
    (hname : call.callArguments.head?.all (·.unwrap.symbol ≠ .string) = false) :
    (c.definition call).Succeeds := by
  have harg : ∀ arg ∈ call.callArguments, arg ∈ c.source.root.nodes := fun arg harg =>
    Node.mem_nodes_of_mem_callArguments hcall harg
  unfold definition
  dsimp only
  split
  case h_1 first last hfirst hlast =>
    have hstring : first.unwrap.symbol = .string := by simpa [hfirst] using hname
    have hmem := harg first (List.mem_of_mem_head? hfirst)
    have hlast := harg last (List.mem_of_getLast? hlast)
    rw [if_neg (not_not.mpr hstring)]
    split
    · exact problem_succeeds hsrc _ hlast
    · have hunwrap := Node.mem_nodes_unwrap hmem
      exact .bind (hsrc.legible.stringValue_ok hunwrap) fun _ _ =>
        .bind (hsrc.legible.measured call hcall) fun _ _ =>
        .bind (inner_succeeds hsrc hlast _) fun _ _ => .pure _
  case h_2 hnone =>
    -- the name is there, so the arguments have a first and a last
    cases hargs : call.callArguments with
    | nil => simp [hargs] at hname
    | cons first rest =>
      have hne : call.callArguments ≠ [] := by simp [hargs]
      exact (hnone first _ (by simp [hargs]) (List.getLast?_eq_some_getLast hne)).elim

/-- Tests and suites around a node have frames. -/
theorem scope_ok {ns : List Node} (hns : ∀ n ∈ ns, n ∈ c.source.root.nodes) :
    ∃ frames, c.source.scope c.vocabulary c.vocabulary.isTestOrSuite ns = .ok frames :=
  hsrc.scope_ok (fun _ h => h) hns

theorem test_succeeds {visit : Visit} {name : String} (hcall : visit.node ∈ c.source.root.nodes)
    (hancestors : ∀ n ∈ visit.ancestors, n ∈ c.source.root.nodes)
    (hname : c.source.dotted? visit.node = .ok (some name))
    (htest : c.vocabulary.isTest name = true) :
    (c.test visit.node name visit.ancestors).Succeeds := by
  unfold test
  split
  case h_2 => exact problem_succeeds hsrc _ hcall
  case h_1 title f rest hargs =>
    have hf : f ∈ c.source.root.nodes :=
      Node.mem_nodes_of_mem_callArguments hcall (by simp [hargs])
    have hbody := Node.mem_nodes_unwrap hf
    have hincluded : c.vocabulary.isTestOrSuite name = true := by
      simp [Vocabulary.isTestOrSuite, htest]
    split
    · exact problem_succeeds hsrc _ hf
    · exact .bind (scope_ok hsrc hancestors) fun _ _ =>
        .bind (hsrc.frame_ok hcall hname hincluded) fun _ _ =>
        .bind (hsrc.legible.measured _ hbody) fun _ _ =>
        .bind (inner_succeeds hsrc hf _) fun _ _ => .pure _

theorem anyTest_ok {ns : List Node} (hns : ∀ n ∈ ns, n ∈ c.source.root.nodes) :
    ∃ b, c.anyTest ns = .ok b := by
  induction ns with
  | nil => exact ⟨false, rfl⟩
  | cons n ns ih =>
    obtain ⟨hn, hns⟩ := List.forall_mem_cons.mp hns
    refine exists_bind_eq_ok (hsrc.legible.dotted?_ok hn) fun name _ => ?_
    split
    · exact ⟨true, rfl⟩
    · exact ih hns

theorem hook_succeeds {visit : Visit} (hcall : visit.node ∈ c.source.root.nodes)
    (hancestors : ∀ n ∈ visit.ancestors, n ∈ c.source.root.nodes) (name : String) :
    (c.hook visit.node name visit.ancestors).Succeeds := by
  have hunlike : ∀ say : Nat → String, (do
      let place ← c.source.startOf visit.node
      Traced.note .debug (say place)
      return none : Traced (Option Finding)).Succeeds := fun say =>
    .bind (hsrc.legible.startOf_ok hcall) fun _ _ => .bind (.note _ _) fun _ _ => .pure _
  unfold hook
  dsimp only
  split
  case h_2 => exact hunlike _
  case h_1 f hargs =>
    have hf : f ∈ c.source.root.nodes :=
      Node.mem_nodes_of_mem_callArguments hcall (by simp [hargs])
    have hbody := Node.mem_nodes_unwrap hf
    split
    · exact hunlike _
    refine .bind (anyTest_ok hsrc hancestors) fun inTest _ => ?_
    split
    · exact hunlike _
    · exact .bind (scope_ok hsrc hancestors) fun _ _ =>
        .bind (hsrc.legible.measured _ hcall) fun _ _ =>
        .bind (hsrc.legible.measured _ hbody) fun _ _ =>
        .bind (inner_succeeds hsrc hf _) fun _ _ => .pure _

section

variable {visit : Visit} (hvisit : visit ∈ c.source.root.visits)
include hvisit

theorem inspect_succeeds
    (h : ¬(c.options.added = true ∧ c.source.misnames c.vocabulary visit.node = true)) :
    (c.inspect visit).Succeeds := by
  obtain ⟨hcall, hancestors⟩ := mem_nodes_of_mem_visits hvisit
  refine .bind (hsrc.legible.segments?_ok hcall) fun segments hs => ?_
  have hname : c.source.dotted? visit.node = .ok (segments.map dotted) :=
    Source.dotted?_eq_ok.mpr ⟨segments, hs, rfl⟩
  cases segments with
  | none => exact .pure none
  | some segments =>
    dsimp only
    split
    case isTrue hregistration =>
      split
      case isFalse => exact .pure none
      case isTrue hadded =>
        refine definition_succeeds hsrc hcall (Bool.eq_false_iff.mpr fun hall => h ⟨hadded, ?_⟩)
        exact Source.misnames_iff.mpr ⟨by rw [hname, ← hregistration]; rfl, hall⟩
    split
    · split
      · exact .bind (hsrc.usage?_succeeds hcall _ segments) fun _ _ => .pure _
      · exact .pure none
    split
    case isTrue htest =>
      split
      · exact test_succeeds hsrc hcall hancestors hname htest
      · exact .pure none
    split
    · split
      · exact hook_succeeds hsrc hcall hancestors _
      · exact .pure none
    · exact .pure none

theorem inspect_eq_error {e : Failure} :
    (c.inspect visit).outcome = .error e ↔
      (c.options.added = true ∧ c.source.misnames c.vocabulary visit.node = true) ∧
        ∃ location, c.source.startOf visit.node = .ok location ∧
          e = .commandName (c.misnaming visit.node location) := by
  by_cases h : c.options.added = true ∧ c.source.misnames c.vocabulary visit.node = true
  case neg =>
    obtain ⟨r, hr⟩ := inspect_succeeds hsrc hvisit h
    simp [hr, h]
  case pos =>
    obtain ⟨hcall, -⟩ := mem_nodes_of_mem_visits hvisit
    obtain ⟨location, hlocation⟩ := hsrc.legible.startOf_ok hcall
    have hinspect : (c.inspect visit).outcome =
        .error (.commandName (c.misnaming visit.node location)) := by
      obtain ⟨hname, hall⟩ := Source.misnames_iff.mp h.2
      obtain ⟨names, hs, hnames⟩ := Source.dotted?_eq_ok.mp hname
      obtain ⟨segments, rfl, hdotted⟩ := Option.map_eq_some_iff.mp hnames
      have hdefinition := definition_of_misnamed hall hlocation
      simp only [inspect, Traced.outcome_bind, Traced.outcome_liftM, hs]
      change Traced.outcome (if dotted segments = c.vocabulary.registrationPath then _ else _) = _
      rw [if_pos hdotted, if_pos h.1, hdefinition]
    rw [hinspect]
    simp [h, hlocation, eq_comm]

theorem inspect_succeeds_iff :
    (c.inspect visit).Succeeds ↔
      ¬(c.options.added = true ∧ c.source.misnames c.vocabulary visit.node = true) := by
  refine ⟨?_, inspect_succeeds hsrc hvisit⟩
  rintro ⟨r, hr⟩ h
  obtain ⟨location, hlocation⟩ :=
    hsrc.legible.startOf_ok (mem_nodes_of_mem_visits hvisit).1
  have hfails := (inspect_eq_error hsrc hvisit).mpr ⟨h, location, hlocation, rfl⟩
  cases hr.symm.trans hfails

end

/-! Scenarios. -/

theorem statementCall?_ok {n : Node} (hn : n ∈ c.source.root.nodes) :
    ∃ name, c.statementCall? n = .ok name := by
  unfold statementCall?
  split
  · split
    case h_1 e he =>
      exact hsrc.legible.dotted?_ok (Node.mem_nodes_unwrap_of_head hn he)
    case h_2 => exact ⟨none, rfl⟩
  · exact ⟨none, rfl⟩

theorem impurities_ok (suite : String) {ns : List Node}
    (hns : ∀ n ∈ ns, n ∈ c.source.root.nodes) : ∃ ds, c.impurities suite ns = .ok ds := by
  induction ns with
  | nil => exact ⟨[], rfl⟩
  | cons n ns ih =>
    obtain ⟨hn, hns⟩ := List.forall_mem_cons.mp hns
    refine exists_bind_eq_ok (statementCall?_ok hsrc hn) fun name _ => ?_
    split
    · exact ih hns
    · exact exists_bind_eq_ok (problemAt_ok hsrc _ hn) fun _ _ =>
        exists_bind_eq_ok (ih hns) fun _ _ => ⟨_, rfl⟩

theorem suiteProblems_ok {call : Node} (hcall : call ∈ c.source.root.nodes) (name : String) :
    ∃ ds, c.suiteProblems call name = .ok ds := by
  unfold suiteProblems
  split
  case h_2 => exact exists_bind_eq_ok (problemAt_ok hsrc _ hcall) fun _ _ => ⟨_, rfl⟩
  case h_1 title f rest hargs =>
    have hf : f ∈ c.source.root.nodes :=
      Node.mem_nodes_of_mem_callArguments hcall (by simp [hargs])
    split
    · exact exists_bind_eq_ok (problemAt_ok hsrc _ hcall) fun _ _ => ⟨_, rfl⟩
    split
    · exact exists_bind_eq_ok (problemAt_ok hsrc _ hf) fun _ _ => ⟨_, rfl⟩
    split
    case h_1 body hbody =>
      obtain ⟨hbody, -⟩ := Option.filter_eq_some_iff.mp hbody
      refine impurities_ok hsrc name fun n hn => ?_
      have hreach := f.reaches_unwrap.trans
        ((Node.reaches_child? hbody).trans (Node.reaches_of_mem_members hn))
      exact hreach.mem_nodes_of_mem hf
    case h_2 => exact ⟨[], rfl⟩

theorem memberProblem_succeeds (message : Text) {n : Node} (hn : n ∈ c.source.root.nodes) :
    (c.memberProblem message n).Succeeds :=
  .bind (problemAt_ok hsrc _ hn) fun _ _ => .pure _

theorem scenarioFunction_succeeds {member f : Node} (hmember : member ∈ c.source.root.nodes)
    (hf : f ∈ c.source.root.nodes) (name : Text) :
    (c.scenarioFunction member f name).Succeeds :=
  .bind (hsrc.legible.measured _ hmember) fun _ _ =>
    .bind (hsrc.legible.measured _ hf) fun _ _ =>
    .bind (hsrc.innerCalls?_succeeds hf _ _) fun _ _ => .pure _

theorem factoryMember_succeeds (factory : String) {member : Node}
    (hmember : member ∈ c.source.root.nodes) : (c.factoryMember factory member).Succeeds := by
  refine .bind (hsrc.memberName_ok hmember) fun key _ => ?_
  cases key with
  | none => exact memberProblem_succeeds hsrc _ hmember
  | some key =>
    dsimp only
    split
    · split
      · exact scenarioFunction_succeeds hsrc hmember hmember key
      · exact memberProblem_succeeds hsrc _ hmember
    case h_2 hpair =>
      obtain ⟨value, hvalue⟩ := hsrc.valued member hmember hpair
      have hf : value.unwrap ∈ c.source.root.nodes := by
        have hreach := (Node.reaches_child? hvalue).trans value.reaches_unwrap
        exact hreach.mem_nodes_of_mem hmember
      rw [hvalue]
      dsimp only
      split
      · split
        · exact scenarioFunction_succeeds hsrc hmember hf key
        · exact memberProblem_succeeds hsrc _ hf
      split
      · exact memberProblem_succeeds hsrc _ hf
      · exact .pure none
    · split
      · exact memberProblem_succeeds hsrc _ hmember
      · exact .pure none

theorem inspectScenario_succeeds {visit : Visit} (hvisit : visit ∈ c.source.root.visits) :
    (c.inspectScenario visit).Succeeds := by
  obtain ⟨hcall, hancestors⟩ := mem_nodes_of_mem_visits hvisit
  have hsuite : ∀ name, c.vocabulary.isSuite name = true →
      c.vocabulary.isTestOrSuite name = true := by
    intro name h
    simp [Vocabulary.isTestOrSuite, h]
  have hproblem : ∀ message : String, (do
      return [.problem (← c.problemAt (Text.ofString message) visit.node)] :
        Traced (List ScenarioFinding)).Succeeds := fun message =>
    .bind (problemAt_ok hsrc _ hcall) fun _ _ => .pure _
  refine .bind (hsrc.legible.dotted?_ok hcall) fun name _ => ?_
  cases name with
  | none => exact .pure []
  | some name =>
    dsimp only
    split
    · exact .bind (suiteProblems_ok hsrc hcall name) fun _ _ => .pure _
    split
    case isFalse => exact .pure []
    case isTrue =>
      unfold scenario
      dsimp only
      split
      case h_2 => exact hproblem _
      case h_1 arg hargs =>
        split
        · exact hproblem _
        · have harg : visit.node.Reaches arg := Node.reaches_callArguments (by simp [hargs])
          have hmembers : ∀ m ∈ arg.unwrap.members, (c.factoryMember name m).Succeeds := by
            intro m hm
            have hreach := harg.trans (arg.reaches_unwrap.trans (Node.reaches_of_mem_members hm))
            exact factoryMember_succeeds hsrc name (hreach.mem_nodes_of_mem hcall)
          exact .bind (.collect hmembers) fun _ _ =>
            .bind (hsrc.scope_ok hsuite hancestors) fun _ _ =>
            .bind (hsrc.legible.measured _ hcall) fun _ _ => .pure _

/-- The second walk never fails, so the first one decides. -/
theorem outline_eq_error {e : Failure} :
    c.outline.outcome = .error e ↔
      (Traced.collect c.inspect c.source.root.visits).outcome = .error e := by
  have hscenarios : c.scenarios.Succeeds :=
    .bind (.gather fun _ hvisit => inspectScenario_succeeds hsrc hvisit) fun _ _ =>
      .bind (.note _ _) fun _ _ => .pure _
  refine Traced.Succeeds.bind_eq_error fun findings => ?_
  dsimp only
  split
  · exact .bind hscenarios fun _ _ => .pure _
  · exact .pure _

end

/-- What a visited call is looked up by is there: the property of a command, the list for a hook,
and the call's own frame at the end of its scope. -/
structure LookupsHold (c : Context) (visit : Visit) : Prop where
  property : ∀ segments callee, c.source.segments? visit.node = .ok (some segments) →
    visit.node.callee? = some callee → callee.kind = .member →
    ∃ p, callee.child? .property = some p
  hookKind : ∀ kind h, (c.inspect visit).outcome = .ok (some (.hook kind h)) →
    kind ∈ distinct c.vocabulary.hooks
  ownFrame : ∀ name, c.source.dotted? visit.node = .ok (some name) →
    c.vocabulary.isTestOrSuite name = true → ∃ around own,
      c.source.scope c.vocabulary c.vocabulary.isTestOrSuite (visit.ancestors ++ [visit.node]) =
        .ok (around ++ [own]) ∧ c.source.frame c.vocabulary visit.node name = .ok own

theorem lookupsHold (hsrc : c.source.Readable c.vocabulary) {visit : Visit}
    (hvisit : visit ∈ c.source.root.visits) : c.LookupsHold visit := by
  obtain ⟨hcall, hancestors⟩ := mem_nodes_of_mem_visits hvisit
  refine ⟨?_, ?_, ?_⟩
  · intro segments callee hs hcallee hkind
    obtain ⟨-, f, ls, l, hf, hchain, -⟩ := Source.segments?_eq_some.mp hs
    obtain rfl : f.unwrap = callee := by simpa [Node.callee?, hf] using hcallee
    -- a chain that ends in a property access ends in a plain name
    obtain ⟨-, hproperty, -⟩ := hchain.object (Node.kind_unwrap_eq_member.mp hkind)
    exact ⟨l.name, (Node.property?_eq_some hproperty).1⟩
  · intro kind h hfound
    cases finds_of_inspect hfound with
    | hook _ hhook =>
      exact mem_distinct.mpr (List.contains_iff_mem.mp hhook)
  · intro name hname hincluded
    obtain ⟨around, haround⟩ := scope_ok hsrc hancestors
    obtain ⟨own, hown⟩ := hsrc.frame_ok hcall hname hincluded
    exact ⟨around, own, Source.scope_concat haround hname hincluded hown, hown⟩

/-- An outline fails exactly if definitions are asked for and some command is misnamed, and then at
the first call that does so. -/
theorem outline_fails_iff_misnamed {filename : Option String} {text : List Char} {tree : Node}
    {src : Source} {v : Vocabulary} (hsrc : Source.ofTree filename text tree = .ok src)
    (hmeasured : src.Measured) (hescapes : src.EscapesFormed) (hvalued : src.root.PairsValued)
    (hwritable : src.Writable v) (options : Options) (room : Room) :
    (∀ e, (outline ⟨src, options, v, room⟩).outcome = .error e ↔ options.added = true ∧
      ∃ call location, src.root.walk.find? (src.misnames v) = some call ∧
        src.startOf call = .ok location ∧
        e = .commandName (misnaming ⟨src, options, v, room⟩ call location)) ∧
    ∀ visit ∈ src.root.visits, LookupsHold ⟨src, options, v, room⟩ visit := by
  have hreadable : src.Readable v :=
    ⟨Source.legible_ofTree hsrc hmeasured hescapes, hvalued, hwritable⟩
  refine ⟨fun e => ?_, fun visit hvisit => lookupsHold hreadable hvisit⟩
  rw [outline_eq_error hreadable, Traced.collect_eq_error, ← Node.map_node_visits]
  simp only [List.find?_map, Option.map_eq_some_iff, List.find?_eq_some_iff_append]
  constructor
  · rintro ⟨before, visit, after, hsplit, hbefore, herror⟩
    have hvisits : ∀ w ∈ before ++ visit :: after, w ∈ src.root.visits := fun w hw => hsplit ▸ hw
    obtain ⟨⟨hadded, hmisnamed⟩, location, hlocation, rfl⟩ :=
      (inspect_eq_error hreadable (hvisits visit (by simp))).mp herror
    refine ⟨hadded, visit.node, location, ⟨visit, ⟨hmisnamed, before, after, hsplit, ?_⟩, rfl⟩,
      hlocation, rfl⟩
    intro w hw
    have hnamed : ¬src.misnames v w.node = true := fun hmisnames =>
      (inspect_succeeds_iff hreadable (hvisits w (by simp [hw]))).mp (hbefore w hw)
        ⟨hadded, hmisnames⟩
    simpa using hnamed
  · rintro ⟨hadded, _, location, ⟨visit, ⟨hmisnamed, before, after, hsplit, hbefore⟩, rfl⟩,
      hlocation, rfl⟩
    have hvisits : ∀ w ∈ before ++ visit :: after, w ∈ src.root.visits := fun w hw => hsplit ▸ hw
    refine ⟨before, visit, after, hsplit, fun w hw => ?_, ?_⟩
    · refine (inspect_succeeds_iff hreadable (hvisits w (by simp [hw]))).mpr fun h => ?_
      simpa [h.2] using hbefore w hw
    · exact (inspect_eq_error hreadable (hvisits visit (by simp))).mpr
        ⟨⟨hadded, hmisnamed⟩, location, hlocation, rfl⟩

end Context

theorem Node.mem_nodes_of_keyNode? {root m key : Node} (hm : m ∈ root.nodes)
    (hkey : m.keyNode? = some key) : key ∈ root.nodes := by
  unfold keyNode? at hkey
  split at hkey
  · exact mem_nodes_of_child? hm hkey
  · exact mem_nodes_of_child? hm hkey
  · cases hkey

namespace Sample

/-- Two commands without a name that is a string. -/
def misnamedText : List Char := "C.a(x);C.a()".toList

def misnamedCall : Node :=
  node none .callExpression 0 6
    [node (some .function) .memberExpression 0 3
      [node (some .object) .identifier 0 1 [], node (some .property) .propertyIdentifier 2 3 []],
     node (some .arguments) .arguments 3 6 [node none .identifier 4 5 []]]

def misnamedTree : Node :=
  node none (.other "program") 0 12
    [node none .expressionStatement 0 7 [misnamedCall],
     node none .expressionStatement 7 12
      [node none .callExpression 7 12
        [node (some .function) .memberExpression 7 10
          [node (some .object) .identifier 7 8 [],
           node (some .property) .propertyIdentifier 9 10 []],
         node (some .arguments) .arguments 10 12 []]]]

def misnamedSource : Source := ⟨none, misnamedText.toArray, .ofText misnamedText, misnamedTree⟩

theorem ofTree_misnamedTree : Source.ofTree none misnamedText misnamedTree = .ok misnamedSource :=
  rfl

theorem measured_misnamedSource : misnamedSource.Measured := by
  have hw : misnamedTree.WellFormed misnamedText := by decide
  exact (Source.wellFormed_ofTree ofTree_misnamedTree hw).measured

theorem misnamedTree_symbols {m : Node} (hm : m ∈ misnamedSource.root.nodes) :
    m.symbol ≠ .escapeSequence ∧ m.symbol ≠ .pair ∧ m.symbol ≠ .number := by
  have hall : ∀ m ∈ misnamedTree.nodes,
      m.symbol ≠ .escapeSequence ∧ m.symbol ≠ .pair ∧ m.symbol ≠ .number := by decide
  exact hall m hm

end Sample

namespace Context

/-- The first of the two is named. -/
theorem outline_fails_iff_misnamed_sample :
    (outline ⟨Sample.misnamedSource, {}, { registrationPath := "C.a" }, .worker⟩).outcome =
      .error (.commandName
        ⟨"C.a: command name must be a literal string, found Identifier", 0, none⟩) := by
  have hescapes : Sample.misnamedSource.EscapesFormed :=
    ⟨fun _ he h => absurd h (Sample.misnamedTree_symbols he).1,
      fun _ he h => absurd h (Sample.misnamedTree_symbols he).1⟩
  have hvalued : Sample.misnamedSource.root.PairsValued := fun _ hm h =>
    absurd h (Sample.misnamedTree_symbols hm).2.1
  have hwritable : Sample.misnamedSource.Writable { registrationPath := "C.a" } := by
    constructor
    · intro call hcall name _ _ arg harg hlong
      have hreach := Node.reaches_callArguments (List.mem_of_mem_head? harg)
      have hmem := (hreach.trans arg.reaches_unwrap).mem_nodes_of_mem hcall
      exact (Sample.misnamedTree_symbols hmem).2.2 hlong.1
    · intro m hm key hkey hlong
      exact (Sample.misnamedTree_symbols (Node.mem_nodes_of_keyNode? hm hkey)).2.2 hlong.1
  refine ((outline_fails_iff_misnamed Sample.ofTree_misnamedTree Sample.measured_misnamedSource
    hescapes hvalued hwritable {} .worker).1 _).mpr ⟨rfl, Sample.misnamedCall, 0, ?_, rfl, rfl⟩
  rfl

end Context
end SuiteOutline
