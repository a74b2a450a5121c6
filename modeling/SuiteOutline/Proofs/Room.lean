import SuiteOutline.Proofs.Bare
import SuiteOutline.Proofs.Nesting

/-! The room for nested literals. Where no argument of a command is nested deeper than that, usages,
the calls inside functions and whole outlines are the same with any room. -/
namespace SuiteOutline

variable {src : Source} {v : Vocabulary}

/-- The levels that there is room for wherever arguments are read. -/
def Room.least (room : Room) : Nat := min room.file (min room.inner room.scenario)

/-- If the node calls a command, its arguments are nested in at most so many levels. -/
def Source.Fits (src : Source) (v : Vocabulary) (levels : Nat) (n : Node) : Prop :=
  ∀ segments, src.segments? n = .ok (some segments) → v.isCommand (dotted segments) = true →
    ∀ arg ∈ n.callArguments, arg.nesting ≤ levels

section

variable {levels room room' : Nat} (hroom : levels ≤ room) (hroom' : levels ≤ room')

include hroom hroom'

theorem literalArguments_of_nesting_le {args : List Node} (h : ∀ arg ∈ args, arg.nesting ≤ levels)
    (index : Nat) :
    literalArguments src room index args = literalArguments src room' index args := by
  induction args generalizing index with
  | nil => rfl
  | cons arg args ih =>
    obtain ⟨harg, hargs⟩ := List.forall_mem_cons.mp h
    have hvalue : src.valueWithin room arg = src.valueWithin room' arg :=
      Source.valueWithin_of_nesting_le (harg.trans hroom) (harg.trans hroom')
    rw [literalArguments, literalArguments, hvalue, ih hargs]

theorem usage?_of_nesting_le {call : Node} (h : ∀ arg ∈ call.callArguments, arg.nesting ≤ levels)
    (segments : List String) :
    usage? src v room call segments = usage? src v room' call segments := by
  have hliterals : literalArguments src room 0 call.callArguments =
      literalArguments src room' 0 call.callArguments :=
    literalArguments_of_nesting_le hroom hroom' h 0
  simp only [usage?, hliterals]

theorem innerCallAt_of_fits {n : Node} (h : src.Fits v levels n) (wanted : InnerChoice) :
    innerCallAt src v room wanted n = innerCallAt src v room' wanted n := by
  unfold innerCallAt
  cases hs : src.segments? n with
  | error e => simp only [Traced.liftM_error_bind]
  | ok segments =>
    simp only [Traced.liftM_ok_bind]
    cases segments with
    | none => rfl
    | some segments =>
      dsimp only
      split
      case isTrue hcommand => rw [usage?_of_nesting_le hroom hroom' (h segments hs hcommand)]
      case isFalse => rfl

theorem innerCalls_of_fits {f : Node} (h : ∀ n ∈ f.walk, src.Fits v levels n)
    (wanted : InnerChoice) : innerCalls src v room wanted f = innerCalls src v room' wanted f := by
  have hcollect : Traced.collect (innerCallAt src v room wanted) f.walk =
      Traced.collect (innerCallAt src v room' wanted) f.walk :=
    Traced.collect_congr fun n hn => innerCallAt_of_fits hroom hroom' (h n hn) wanted
  rw [innerCalls, innerCalls, hcollect]

end

namespace Context

variable (options : Options) {a b : Room}
  (hfits : ∀ n ∈ src.root.nodes, src.Fits v (min a.least b.least) n)

include hfits

theorem inner_of_fits {f : Node} (hf : f ∈ src.root.nodes) {levels levels' : Nat}
    (ha : a.least ≤ levels) (hb : b.least ≤ levels') :
    inner ⟨src, options, v, a⟩ levels f = inner ⟨src, options, v, b⟩ levels' f := by
  have hwalk : ∀ n ∈ f.walk, src.Fits v (min a.least b.least) n := fun n hn =>
    hfits n ((Node.reaches_of_mem_walk hn).mem_nodes_of_mem hf)
  have hcalls : innerCalls src v levels {} f = innerCalls src v levels' {} f :=
    innerCalls_of_fits (by omega) (by omega) hwalk {}
  simp only [inner, innerCalls?, hcalls]

theorem inner_argument_of_fits {call f : Node} (hcall : call ∈ src.root.nodes)
    (hf : f ∈ call.callArguments) :
    inner ⟨src, options, v, a⟩ a.inner f.unwrap = inner ⟨src, options, v, b⟩ b.inner f.unwrap :=
  inner_of_fits options hfits (Node.mem_nodes_unwrap (Node.mem_nodes_of_mem_callArguments hcall hf))
    (by simp [Room.least]) (by simp [Room.least])

theorem definition_of_fits {call : Node} (hcall : call ∈ src.root.nodes) :
    definition ⟨src, options, v, a⟩ call = definition ⟨src, options, v, b⟩ call := by
  cases hfirst : call.callArguments.head? with
  | none => simp only [definition, hfirst]
  | some first =>
    cases hlast : call.callArguments.getLast? with
    | none => simp only [definition, hfirst, hlast]
    | some last =>
      have hinner := inner_argument_of_fits options hfits hcall
        (List.mem_of_getLast? hlast)
      simp only [definition, hfirst, hlast, problem, problemAt, hinner]

theorem test_of_fits {call : Node} (hcall : call ∈ src.root.nodes) (name : String)
    (ancestors : List Node) :
    test ⟨src, options, v, a⟩ call name ancestors =
      test ⟨src, options, v, b⟩ call name ancestors := by
  unfold test
  rcases hargs : call.callArguments with _ | ⟨title, _ | ⟨f, rest⟩⟩
  · rfl
  · rfl
  · have hinner := inner_argument_of_fits options hfits hcall (f := f) (by simp [hargs])
    simp only [problem, problemAt, hinner]

theorem hook_of_fits {call : Node} (hcall : call ∈ src.root.nodes) (name : String)
    (ancestors : List Node) :
    hook ⟨src, options, v, a⟩ call name ancestors =
      hook ⟨src, options, v, b⟩ call name ancestors := by
  unfold hook
  rcases hargs : call.callArguments with _ | ⟨f, _ | ⟨g, rest⟩⟩
  · rfl
  · have hinner := inner_argument_of_fits options hfits hcall (f := f) (by simp [hargs])
    simp only [hinner, anyTest_congr (b := options) (s := b)]
  · rfl

theorem inspect_of_fits {visit : Visit} (hvisit : visit ∈ src.root.visits) :
    inspect ⟨src, options, v, a⟩ visit = inspect ⟨src, options, v, b⟩ visit := by
  have hnode := (Node.reaches_of_mem_visits hvisit).mem_nodes
  have hfile : min a.least b.least ≤ a.file ∧ min a.least b.least ≤ b.file := by
    simp only [Room.least]
    omega
  unfold inspect
  simp only [definition_of_fits options hfits hnode, test_of_fits options hfits hnode,
    hook_of_fits options hfits hnode]
  cases hs : src.segments? visit.node with
  | error e => simp only [Traced.liftM_error_bind]
  | ok segments =>
    simp only [Traced.liftM_ok_bind]
    cases segments with
    | none => rfl
    | some segments =>
      by_cases hcommand : v.isCommand (dotted segments) = true
      · have husage : SuiteOutline.usage? src v a.file visit.node segments =
            SuiteOutline.usage? src v b.file visit.node segments :=
          usage?_of_nesting_le hfile.1 hfile.2 (hfits _ hnode segments hs hcommand) segments
        simp only [husage]
      · simp only [hcommand, Bool.false_eq_true, if_false]

theorem factoryMember_of_fits {member : Node} (hmember : member ∈ src.root.nodes)
    (factory : String) :
    factoryMember ⟨src, options, v, a⟩ factory member =
      factoryMember ⟨src, options, v, b⟩ factory member := by
  have hfunction : ∀ f ∈ src.root.nodes, ∀ name,
      scenarioFunction ⟨src, options, v, a⟩ member f name =
        scenarioFunction ⟨src, options, v, b⟩ member f name := by
    intro f hf name
    have hinner : inner ⟨src, options, v, a⟩ a.scenario f =
        inner ⟨src, options, v, b⟩ b.scenario f :=
      inner_of_fits options hfits hf (by simp [Room.least]) (by simp [Room.least])
    simp only [scenarioFunction, hinner]
  cases hvalue : member.child? .value with
  | none => simp only [factoryMember, hvalue, memberProblem, problemAt, hfunction member hmember]
  | some value =>
    have hf := Node.mem_nodes_unwrap (Node.mem_nodes_of_child? hmember hvalue)
    simp only [factoryMember, hvalue, memberProblem, problemAt, hfunction member hmember,
      hfunction value.unwrap hf]

theorem scenario_of_fits {call : Node} (hcall : call ∈ src.root.nodes) (name : String)
    (ancestors : List Node) :
    scenario ⟨src, options, v, a⟩ call name ancestors =
      scenario ⟨src, options, v, b⟩ call name ancestors := by
  unfold scenario
  rcases hargs : call.callArguments with _ | ⟨arg, _ | ⟨second, rest⟩⟩
  · rfl
  · have harg : arg ∈ src.root.nodes :=
      Node.mem_nodes_of_mem_callArguments hcall (by simp [hargs])
    have hmembers : Traced.collect (factoryMember ⟨src, options, v, a⟩ name) arg.unwrap.members =
        Traced.collect (factoryMember ⟨src, options, v, b⟩ name) arg.unwrap.members := by
      refine Traced.collect_congr fun member hmember => ?_
      have hnode : member ∈ src.root.nodes :=
        (Node.reaches_of_mem_members hmember).mem_nodes_of_mem (Node.mem_nodes_unwrap harg)
      exact factoryMember_of_fits options hfits hnode name
    simp only [problemAt, hmembers]
  · rfl

theorem inspectScenario_of_fits {visit : Visit} (hvisit : visit ∈ src.root.visits) :
    inspectScenario ⟨src, options, v, a⟩ visit = inspectScenario ⟨src, options, v, b⟩ visit := by
  have hnode := (Node.reaches_of_mem_visits hvisit).mem_nodes
  simp only [inspectScenario, suiteProblems_congr (b := options) (s := b),
    scenario_of_fits options hfits hnode]

theorem outline_of_fits :
    outline ⟨src, options, v, a⟩ = outline ⟨src, options, v, b⟩ := by
  have hfindings : Traced.collect (inspect ⟨src, options, v, a⟩) src.root.visits =
      Traced.collect (inspect ⟨src, options, v, b⟩) src.root.visits :=
    Traced.collect_congr fun visit => inspect_of_fits options hfits
  have hscenarios : Traced.gather (inspectScenario ⟨src, options, v, a⟩) src.root.visits =
      Traced.gather (inspectScenario ⟨src, options, v, b⟩) src.root.visits :=
    Traced.gather_congr fun visit => inspectScenario_of_fits options hfits
  simp only [outline, scenarios, hfindings, hscenarios]

end Context

/-- Whatever its name, no argument of a command in the script is nested in more levels. -/
def Script.Fits (s : Script) (v : Vocabulary) (levels : Nat) : Prop :=
  ∀ filename src, Source.ofTree filename s.text s.tree = .ok src →
    ∀ n ∈ src.root.nodes, src.Fits v levels n

theorem Script.fits_of_nesting_le {s : Script} {levels : Nat}
    (h : ∀ n ∈ s.tree.nodes, ∀ arg ∈ n.callArguments, arg.nesting ≤ levels) :
    s.Fits v levels := by
  intro filename src hsrc n hn segments _ _
  rw [Source.ofTree_eq_ok hsrc] at hn
  exact h n hn

theorem outlineScript_of_fits {s : Script} {a b : Room} (h : s.Fits v (min a.least b.least))
    (options : Options) (filename : Option String) :
    outlineScript a options v filename s = outlineScript b options v filename s := by
  unfold outlineScript
  split
  · rfl
  · cases hsrc : Source.ofTree filename s.text s.tree with
    | error e => simp only [Traced.liftM_error_bind]
    | ok src =>
      simp only [Traced.liftM_ok_bind, Context.outline_of_fits options (h filename src hsrc)]

end SuiteOutline
