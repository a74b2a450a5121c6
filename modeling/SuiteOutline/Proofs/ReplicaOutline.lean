import SuiteOutline.Proofs.ReplicaCalls

/-! The outline of a replica is the outline of the source, moved: what each call adds moves, and the
calls are met in the same order. -/
namespace SuiteOutline

theorem FactoryMember.function?_shift (d : Nat) (m : FactoryMember) :
    (m.shift d).function? = m.function?.map (·.shift d) := by
  cases m <;> rfl

theorem FactoryMember.problem?_shift (d : Nat) (m : FactoryMember) :
    (m.shift d).problem? = m.problem?.map (·.shift d) := by
  cases m <;> rfl

theorem ScenarioFinding.scenario?_shift (d : Nat) (f : ScenarioFinding) :
    (f.shift d).scenario? = f.scenario?.map (·.shift d) := by
  cases f <;> rfl

theorem ScenarioFinding.problem?_shift (d : Nat) (f : ScenarioFinding) :
    (f.shift d).problem? = f.problem?.map (·.shift d) := by
  cases f <;> rfl

/-- Focus does not depend on where a frame stands. -/
theorem Frame.any_focus_shift (d : Nat) (focus : Focus) (fs : List Frame) :
    ((fs.map (·.shift d)).any fun f => f.focus = focus) = fs.any fun f => f.focus = focus := by
  rw [List.any_map]
  rfl

namespace Likeness

variable {src copy : Source} (r : Likeness src copy) {n : Node} (options : Options) (v : Vocabulary)
  (room : Room)

theorem problemAt_node (hn : r.Met n) (message : Text) :
    Context.problemAt ⟨copy, options, v, room⟩ message (r.node n) =
      carry r.shift (·.shift r.shift) (Context.problemAt ⟨src, options, v, room⟩ message n) := by
  unfold Context.problemAt
  exact bind_carry (r.startOf hn) fun location => rfl

theorem problem_node (hn : r.Met n) (message : String) :
    (Context.problem ⟨copy, options, v, room⟩ message (r.node n)).outcome =
      carry r.shift (Option.map (·.shift r.shift))
        (Context.problem ⟨src, options, v, room⟩ message n).outcome := by
  unfold Context.problem
  exact Traced.outcome_bind_carry (r.problemAt_node options v room hn _) fun d => rfl

theorem inner_node (hn : r.Met n) (levels : Nat) :
    (Context.inner ⟨copy, options, v, room⟩ levels (r.node n)).outcome =
      carry r.shift (Option.map (·.shift r.shift))
        (Context.inner ⟨src, options, v, room⟩ levels n).outcome :=
  r.innerCalls?_node v levels hn options.inner

theorem test_node (hn : r.Met n) (name : String) {ancestors : List Node}
    (hancestors : ∀ m ∈ ancestors, r.Met m) :
    (Context.test ⟨copy, options, v, room⟩ (r.node n) name (ancestors.map r.node)).outcome =
      carry r.shift (Option.map (·.shift r.shift))
        (Context.test ⟨src, options, v, room⟩ n name ancestors).outcome := by
  obtain ⟨hargs, hmet⟩ := r.callArguments_node hn
  unfold Context.test
  simp only [hargs]
  match hcall : n.callArguments with
  | [] | [_] => exact r.problem_node options v room hn _
  | title :: f :: rest =>
    have hf : r.Met f := hmet f (by simp [hcall])
    simp only [List.map_cons, r.isFunction_node hf, r.kindName_node hf]
    split
    · exact r.problem_node options v room hf _
    obtain ⟨hbody, hbodyMet⟩ := r.unwrap_node hf
    rw [hbody]
    refine Traced.outcome_bind_carry (r.scope_map hancestors v _) fun around => ?_
    refine Traced.outcome_bind_carry (r.frame_node hn v name) fun own => ?_
    refine Traced.outcome_bind_carry (r.spanOf_node hbodyMet) fun body => ?_
    refine Traced.outcome_bind_carry (r.inner_node options v room hbodyMet _) fun inner => ?_
    have hscope : around.map (·.shift r.shift) ++ [own.shift r.shift] =
        (around ++ [own]).map (·.shift r.shift) := by simp
    rw [hscope, Frame.any_focus_shift, Frame.any_focus_shift]
    rfl

theorem anyTest_map {ns : List Node} (hns : ∀ m ∈ ns, r.Met m) :
    Context.anyTest ⟨copy, options, v, room⟩ (ns.map r.node) =
      carry r.shift id (Context.anyTest ⟨src, options, v, room⟩ ns) := by
  induction ns with
  | nil => rfl
  | cons m ns ih =>
    obtain ⟨hm, hns⟩ := List.forall_mem_cons.mp hns
    rw [List.map_cons, Context.anyTest, Context.anyTest]
    refine bind_carry (r.dotted?_node hm) fun name => ?_
    simp only [id_eq]
    split
    · rfl
    · exact ih hns

theorem hook_node (hn : r.Met n) (name : String) {ancestors : List Node}
    (hancestors : ∀ m ∈ ancestors, r.Met m) :
    (Context.hook ⟨copy, options, v, room⟩ (r.node n) name (ancestors.map r.node)).outcome =
      carry r.shift (Option.map (·.shift r.shift))
        (Context.hook ⟨src, options, v, room⟩ n name ancestors).outcome := by
  obtain ⟨hargs, hmet⟩ := r.callArguments_node hn
  -- A call that is no hook after all is only logged, with its place.
  have hunlike : ∀ say say' : Nat → String,
      (liftM (copy.startOf (r.node n)) >>= fun place =>
        Traced.note .debug (say' place) >>= fun _ =>
          (pure none : Traced (Option Finding))).outcome =
      carry r.shift (Option.map (·.shift r.shift))
        (liftM (src.startOf n) >>= fun place =>
          Traced.note .debug (say place) >>= fun _ =>
            (pure none : Traced (Option Finding))).outcome := by
    intro say say'
    exact Traced.outcome_bind_carry (r.startOf hn) fun place => rfl
  unfold Context.hook
  simp only [hargs, List.length_map]
  match hcall : n.callArguments with
  | [] | _ :: _ :: _ => exact hunlike _ _
  | [f] =>
    have hf : r.Met f := hmet f (by simp [hcall])
    simp only [List.map_cons, List.map_nil, r.isFunction_node hf]
    split
    · exact hunlike _ _
    obtain ⟨hbody, hbodyMet⟩ := r.unwrap_node hf
    rw [hbody]
    refine Traced.outcome_bind_carry (r.anyTest_map options v room hancestors) fun inTest => ?_
    simp only [id_eq]
    split
    · exact hunlike _ _
    refine Traced.outcome_bind_carry (r.scope_map hancestors v _) fun scope => ?_
    refine Traced.outcome_bind_carry (r.spanOf_node hn) fun span => ?_
    refine Traced.outcome_bind_carry (r.spanOf_node hbodyMet) fun body => ?_
    exact Traced.outcome_bind_carry (r.inner_node options v room hbodyMet _) fun inner => rfl

/-- A visit in the replica. -/
def visit (x : Visit) : Visit := ⟨r.node x.node, x.enclosing.map r.node⟩

/-- The visited node and all around it are of the tree. -/
def MetOn (x : Visit) : Prop := r.Met x.node ∧ ∀ m ∈ x.enclosing, r.Met m

theorem ancestors_visit (x : Visit) : (r.visit x).ancestors = x.ancestors.map r.node :=
  List.map_reverse.symm

theorem MetOn.ancestors {r : Likeness src copy} {x : Visit} (h : r.MetOn x) :
    ∀ m ∈ x.ancestors, r.Met m := fun m hm => h.2 m (List.mem_reverse.mp hm)

theorem tour_thinned {enclosing : List Node} (hn : r.Met n) (henclosing : ∀ m ∈ enclosing, r.Met m) :
    Thinned r.visit r.MetOn (·.node.IsBareComment) (n.tour enclosing)
      ((r.node n).tour (enclosing.map r.node)) := by
  induction n using Node.childrenInduction generalizing enclosing with
  | node n ih =>
    have hself : ∀ m ∈ n :: enclosing, r.Met m := List.forall_mem_cons.mpr ⟨hn, henclosing⟩
    have hkeep : r.MetOn ⟨n, enclosing⟩ := ⟨hn, henclosing⟩
    rw [Node.tour_eq, Node.tour_eq _ (r.node n)]
    refine .keep hkeep ((r.namedChildren_thinned hn).flatMap (fun c hc hmet => ?_) fun c hc => ?_)
    · exact ih c (Node.mem_children_of_mem_namedChildren hc) hmet hself
    · rw [Node.tour_eq, hc.namedChildren]
      exact .drop hc .nil

theorem visits_thinned (hn : r.Met n) :
    Thinned r.visit r.MetOn (·.node.IsBareComment) n.visits (r.node n).visits := by
  rw [Node.visits_eq_tour, Node.visits_eq_tour]
  exact r.tour_thinned hn (List.forall_mem_nil _)

/-! Scenarios. -/

theorem statementCall?_node (hn : r.Met n) :
    Context.statementCall? ⟨copy, options, v, room⟩ (r.node n) =
      carry r.shift id (Context.statementCall? ⟨src, options, v, room⟩ n) := by
  obtain ⟨hmembers, hmet⟩ := r.members_node hn
  unfold Context.statementCall?
  rw [r.symbol, hmembers, List.head?_map]
  split
  · cases he : n.members.head? with
    | none => rfl
    | some e =>
      obtain ⟨hunwrap, hunwrapMet⟩ := r.unwrap_node (hmet e (List.mem_of_mem_head? he))
      simp only [Option.map_some, hunwrap]
      exact r.dotted?_node hunwrapMet
  · rfl

theorem impurities_map (suite : String) {ns : List Node} (hns : ∀ m ∈ ns, r.Met m) :
    Context.impurities ⟨copy, options, v, room⟩ suite (ns.map r.node) =
      carry r.shift (List.map (·.shift r.shift))
        (Context.impurities ⟨src, options, v, room⟩ suite ns) := by
  induction ns with
  | nil => rfl
  | cons m ns ih =>
    obtain ⟨hm, hns⟩ := List.forall_mem_cons.mp hns
    rw [List.map_cons, Context.impurities, Context.impurities]
    refine bind_carry (r.statementCall?_node options v room hm) fun name => ?_
    simp only [id_eq]
    split
    · exact ih hns
    · refine bind_carry (r.problemAt_node options v room hm _) fun d => ?_
      exact bind_carry (ih hns) fun ds => rfl

theorem suiteProblems_node (hn : r.Met n) (name : String) :
    Context.suiteProblems ⟨copy, options, v, room⟩ (r.node n) name =
      carry r.shift (List.map (·.shift r.shift))
        (Context.suiteProblems ⟨src, options, v, room⟩ n name) := by
  obtain ⟨hargs, hmet⟩ := r.callArguments_node hn
  unfold Context.suiteProblems
  rw [hargs]
  match hcall : n.callArguments with
  | [] | [_] => exact bind_carry (r.problemAt_node options v room hn _) fun d => rfl
  | title :: f :: rest =>
    have htitle : r.Met title := hmet title (by simp [hcall])
    have hf : r.Met f := hmet f (by simp [hcall])
    obtain ⟨hunwrap, hunwrapMet⟩ := r.unwrap_node hf
    obtain ⟨hbody, hbodyMet⟩ := r.child?_node hunwrapMet .body
    simp only [List.map_cons, r.kind_node htitle, r.isFunction_node hf, r.kindName_node hf,
      hunwrap, hbody]
    split
    · exact bind_carry (r.problemAt_node options v room hn _) fun d => rfl
    split
    · exact bind_carry (r.problemAt_node options v room hf _) fun d => rfl
    cases hb : f.unwrap.child? .body with
    | none => rfl
    | some body =>
      obtain ⟨hmembers, hmembersMet⟩ := r.members_node (hbodyMet body hb)
      by_cases hblock : body.symbol = .statementBlock
      · simp only [Option.map_some, Option.filter_some, r.symbol, hblock, decide_true, if_true,
          hmembers]
        exact r.impurities_map options v room name hmembersMet
      · simp only [Option.map_some, Option.filter_some, r.symbol, hblock, decide_false,
          Bool.false_eq_true, if_false]
        rfl

theorem memberProblem_node (hn : r.Met n) (message : Text) :
    (Context.memberProblem ⟨copy, options, v, room⟩ message (r.node n)).outcome =
      carry r.shift (Option.map (·.shift r.shift))
        (Context.memberProblem ⟨src, options, v, room⟩ message n).outcome := by
  unfold Context.memberProblem
  exact Traced.outcome_bind_carry (r.problemAt_node options v room hn message) fun d => rfl

theorem scenarioFunction_node (hn : r.Met n) {f : Node} (hf : r.Met f) (name : Text) :
    (Context.scenarioFunction ⟨copy, options, v, room⟩ (r.node n) (r.node f) name).outcome =
      carry r.shift (Option.map (·.shift r.shift))
        (Context.scenarioFunction ⟨src, options, v, room⟩ n f name).outcome := by
  unfold Context.scenarioFunction
  refine Traced.outcome_bind_carry (r.spanOf_node hn) fun span => ?_
  refine Traced.outcome_bind_carry (r.spanOf_node hf) fun body => ?_
  exact Traced.outcome_bind_carry (r.inner_node options v room hf _) fun inner => rfl

theorem factoryMember_node (hn : r.Met n) (factory : String) :
    (Context.factoryMember ⟨copy, options, v, room⟩ factory (r.node n)).outcome =
      carry r.shift (Option.map (·.shift r.shift))
        (Context.factoryMember ⟨src, options, v, room⟩ factory n).outcome := by
  obtain ⟨hvalue, hvalueMet⟩ := r.child?_node hn .value
  unfold Context.factoryMember
  refine Traced.outcome_bind_carry (r.memberName_node hn) fun key => ?_
  simp only [id_eq, r.kindName_node hn, r.symbol, hvalue]
  cases key with
  | none => exact r.memberProblem_node options v room hn _
  | some key =>
    simp only
    split
    · split
      · exact r.scenarioFunction_node options v room hn hn key
      · exact r.memberProblem_node options v room hn _
    · cases hc : n.child? .value with
      | none => rfl
      | some value =>
        obtain ⟨hunwrap, hmet⟩ := r.unwrap_node (hvalueMet value hc)
        simp only [Option.map_some, hunwrap, r.isFunction_node hmet, r.kindName_node hmet]
        split
        · split
          · exact r.scenarioFunction_node options v room hn hmet key
          · exact r.memberProblem_node options v room hmet _
        · split
          · exact r.memberProblem_node options v room hmet _
          · rfl
    · split
      · exact r.memberProblem_node options v room hn _
      · rfl

theorem scenario_node (hn : r.Met n) (name : String) {ancestors : List Node}
    (hancestors : ∀ m ∈ ancestors, r.Met m) :
    (Context.scenario ⟨copy, options, v, room⟩ (r.node n) name (ancestors.map r.node)).outcome =
      carry r.shift (List.map (·.shift r.shift))
        (Context.scenario ⟨src, options, v, room⟩ n name ancestors).outcome := by
  obtain ⟨hargs, hmet⟩ := r.callArguments_node hn
  have hproblem : ∀ message : Text,
      (liftM (Context.problemAt ⟨copy, options, v, room⟩ message (r.node n)) >>= fun d =>
        (pure [.problem d] : Traced (List ScenarioFinding))).outcome =
      carry r.shift (List.map (·.shift r.shift))
        (liftM (Context.problemAt ⟨src, options, v, room⟩ message n) >>= fun d =>
          (pure [.problem d] : Traced (List ScenarioFinding))).outcome := by
    intro message
    exact Traced.outcome_bind_carry (r.problemAt_node options v room hn message) fun d => rfl
  unfold Context.scenario
  simp only [hargs, List.length_map]
  match hcall : n.callArguments with
  | [] | _ :: _ :: _ => exact hproblem _
  | [arg] =>
    have harg : r.Met arg := hmet arg (by simp [hcall])
    obtain ⟨hunwrap, hunwrapMet⟩ := r.unwrap_node harg
    obtain ⟨hmembers, hmembersMet⟩ := r.members_node hunwrapMet
    simp only [List.map_cons, List.map_nil, r.kind_node harg, r.kindName_node harg, hunwrap, hmembers]
    split
    · exact hproblem _
    have hthinned : Thinned r.node r.Met (fun _ => False) arg.unwrap.members
        (arg.unwrap.members.map r.node) := .of_forall hmembersMet
    have hcollect := hthinned.collect (fun m hm => r.factoryMember_node options v room hm name)
      fun m hm => hm.elim
    refine Traced.outcome_bind_carry hcollect fun members => ?_
    refine Traced.outcome_bind_carry (r.scope_map hancestors v _) fun scope => ?_
    refine Traced.outcome_bind_carry (r.spanOf_node hn) fun span => ?_
    have hfunctions := filterMap_shift (FactoryMember.function?_shift r.shift) members
    have hproblems := filterMap_shift (FactoryMember.problem?_shift r.shift) members
    simp only [hfunctions, hproblems]
    simp [ScenarioFinding.shift, Scenario.shift, Function.comp_def]

theorem inspectScenario_visit {x : Visit} (hx : r.MetOn x) :
    (Context.inspectScenario ⟨copy, options, v, room⟩ (r.visit x)).outcome =
      carry r.shift (List.map (·.shift r.shift))
        (Context.inspectScenario ⟨src, options, v, room⟩ x).outcome := by
  unfold Context.inspectScenario
  refine Traced.outcome_bind_carry (r.dotted?_node hx.1) fun name => ?_
  rw [r.ancestors_visit]
  simp only [id_eq]
  cases name with
  | none => rfl
  | some name =>
    simp only
    split
    · refine Traced.outcome_bind_carry (r.suiteProblems_node options v room hx.1 name) fun ds => ?_
      simp [ScenarioFinding.shift, Function.comp_def]
    split
    · exact r.scenario_node options v room hx.1 name hx.ancestors
    · rfl

end Likeness

theorem Context.inspect_of_not_isCall (c : Context) {x : Visit} (h : x.node.isCall = false) :
    (c.inspect x).outcome = .ok none := by
  unfold inspect
  simp only [c.source.segments?_of_not_isCall h]
  rfl

theorem Context.inspectScenario_of_not_isCall (c : Context) {x : Visit}
    (h : x.node.isCall = false) : (c.inspectScenario x).outcome = .ok [] := by
  unfold inspectScenario
  simp only [c.source.dotted?_of_not_isCall h]
  rfl

namespace Replica

variable {src copy : Source} (r : Replica src copy) {n : Node} (options : Options) (v : Vocabulary)
  (room : Room)

theorem definition_node (hn : r.Met n) :
    (Context.definition ⟨copy, options, v, room⟩ (r.node n)).outcome =
      carry r.shift (Option.map (·.shift r.shift))
        (Context.definition ⟨src, options, v, room⟩ n).outcome := by
  obtain ⟨hargs, hmet⟩ := r.callArguments_node hn
  -- The one failure with a place: it stands at the call.
  have hbad : ∀ message : String,
      (liftM (copy.startOf (r.node n)) >>= fun location =>
        (Traced.fail (.commandName { message, location, filename := copy.filename }) :
          Traced (Option Finding))).outcome =
      carry r.shift (Option.map (·.shift r.shift))
        (liftM (src.startOf n) >>= fun location =>
          (Traced.fail (.commandName { message, location, filename := src.filename }) :
            Traced (Option Finding))).outcome := by
    intro message
    refine Traced.outcome_bind_carry (r.startOf hn) fun location => ?_
    rw [r.filename]
    rfl
  unfold Context.definition
  simp only [hargs, List.head?_map, List.getLast?_map, List.length_map]
  cases hfirst : n.callArguments.head? with
  | none => exact hbad _
  | some first =>
    cases hlast : n.callArguments.getLast? with
    | none => exact hbad _
    | some last =>
      have hfirstMet := hmet first (List.mem_of_mem_head? hfirst)
      have hlastMet := hmet last (List.mem_of_getLast? hlast)
      obtain ⟨hunwrap, hunwrapMet⟩ := r.unwrap_node hfirstMet
      simp only [Option.map_some, hunwrap, r.symbol, r.kindName_node hfirstMet,
        r.isFunction_node hlastMet, r.kindName_node hlastMet]
      split
      · exact hbad _
      case isFalse hstring =>
      split
      · exact r.problem_node options v room hlastMet _
      have hname := r.stringValue_node hunwrapMet (not_not.mp hstring)
      obtain ⟨hbody, hbodyMet⟩ := r.unwrap_node hlastMet
      rw [hbody]
      refine Traced.outcome_bind_carry hname fun name => ?_
      refine Traced.outcome_bind_carry (r.spanOf_node hn) fun span => ?_
      exact Traced.outcome_bind_carry (r.inner_node options v room hbodyMet _) fun inner => rfl

theorem inspect_visit {x : Visit} (hx : r.MetOn x) :
    (Context.inspect ⟨copy, options, v, room⟩ (r.visit x)).outcome =
      carry r.shift (Option.map (·.shift r.shift))
        (Context.inspect ⟨src, options, v, room⟩ x).outcome := by
  unfold Context.inspect
  refine Traced.outcome_bind_carry (r.segments?_node hx.1) fun segments => ?_
  rw [r.ancestors_visit]
  simp only [id_eq]
  cases segments with
  | none => rfl
  | some segments =>
    simp only
    -- One case for each part of an outline, in the order they are tried.
    split
    · split
      · exact r.definition_node options v room hx.1
      · rfl
    split
    · split
      · refine Traced.outcome_bind_carry (r.usage?_node v _ hx.1 segments) fun u => ?_
        cases u <;> rfl
      · rfl
    split
    · split
      · exact r.test_node options v room hx.1 _ hx.ancestors
      · rfl
    split
    · split
      · exact r.hook_node options v room hx.1 _ hx.ancestors
      · rfl
    · rfl

theorem scenarios_replica (hroot : r.Met src.root) (hcopy : copy.root = r.node src.root) :
    (Context.scenarios ⟨copy, options, v, room⟩).outcome =
      carry r.shift (Prod.map (List.map (·.shift r.shift)) (List.map (·.shift r.shift)))
        (Context.scenarios ⟨src, options, v, room⟩).outcome := by
  have hgather := (r.visits_thinned hroot).gather
    (fun x hx => r.inspectScenario_visit options v room hx)
    fun x hx => Context.inspectScenario_of_not_isCall ⟨src, options, v, room⟩ hx.isCall
  unfold Context.scenarios
  rw [hcopy]
  refine Traced.outcome_bind_carry hgather fun findings => ?_
  simp only [filterMap_shift (ScenarioFinding.scenario?_shift r.shift),
    filterMap_shift (ScenarioFinding.problem?_shift r.shift)]
  rfl

/-- The outline of a replica: the same records, or the same failure, moved. -/
theorem outline_replica (hroot : r.Met src.root) (hcopy : copy.root = r.node src.root) :
    (Context.outline ⟨copy, options, v, room⟩).outcome =
      carry r.shift (·.shift r.shift) (Context.outline ⟨src, options, v, room⟩).outcome := by
  have hcollect := (r.visits_thinned hroot).collect (fun x hx => r.inspect_visit options v room hx)
    fun x hx => Context.inspect_of_not_isCall ⟨src, options, v, room⟩ hx.isCall
  unfold Context.outline
  rw [hcopy]
  refine Traced.outcome_bind_carry hcollect fun findings => ?_
  simp only [Outline.ofFindings_shift]
  split
  · have hscenarios := r.scenarios_replica options v room hroot hcopy
    refine Traced.outcome_bind_carry hscenarios fun found => ?_
    have herrors := byLocation_shift r.shift
      ((Outline.ofFindings options v findings).errors ++ found.2)
    rw [List.map_append] at herrors
    simp only [Prod.map_fst, Prod.map_snd, Outline.shift, herrors]
    rfl
  · rfl

end Replica
end SuiteOutline
