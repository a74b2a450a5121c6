import SuiteOutline.Proofs.Entries
import SuiteOutline.Proofs.Tests

/-! Hooks belong to suites: a call that goes by the name of a hook makes one if it is given just a
function and no test is around it, and otherwise it is passed over in silence. -/
namespace SuiteOutline

/-- What is found for the elements that pass, one thing each, is all that is found. -/
theorem forall₂_filterMap {α β : Type} {R : α → β → Prop} {p : α → Bool} {g : α → Option β}
    {as : List α} (hpos : ∀ a ∈ as, p a = true → ∃ b, R a b ∧ g a = some b)
    (hneg : ∀ a ∈ as, ¬ p a = true → g a = none) :
    List.Forall₂ R (as.filter p) (as.filterMap g) := by
  induction as with
  | nil => exact .nil
  | cons a as ih =>
    obtain ⟨hposa, hpos⟩ := List.forall_mem_cons.mp hpos
    obtain ⟨hnega, hneg⟩ := List.forall_mem_cons.mp hneg
    by_cases ha : p a = true
    · obtain ⟨b, hr, hg⟩ := hposa ha
      rw [List.filter_cons_of_pos ha, List.filterMap_cons_some hg]
      exact .cons hr (ih hpos hneg)
    · rw [List.filter_cons_of_neg ha, List.filterMap_cons_none (hnega ha)]
      exact ih hpos hneg

/-- The frame of a suite, as it is and as it is written. -/
structure Frame.OfSuite (f : Frame) : Prop where
  isTest : f.isTest = false
  written : ∃ fields kind, Document.ofFrame f = .record fields ∧
    fields.lookup "kind" = some (.string kind) ∧ kind ∈ ["suite", "suite-skip", "suite-only"]

theorem Frame.ofSuite_of_isTest {f : Frame} (h : f.isTest = false) : f.OfSuite := by
  refine ⟨h, _, kindWord f.isTest f.focus, rfl, by simp [List.lookup_cons], ?_⟩
  rw [h]
  cases f.focus <;> decide

/-- The names of hooks, as far as they are not taken by registrations, commands and tests. -/
def Vocabulary.isPlainHook (v : Vocabulary) (name : String) : Bool :=
  v.isHook name && name != v.registrationPath && !v.isCommand name && !v.isTest name

theorem Vocabulary.part?_eq_hook {v : Vocabulary} {name : String} :
    v.part? name = some .hook ↔ v.isPlainHook name = true := by
  unfold part? isPlainHook
  split
  case isTrue h => simp [h]
  case isFalse h =>
    split
    case isTrue h' => simp [h']
    case isFalse h' =>
      split
      case isTrue h'' => simp [h'']
      case isFalse h'' => split <;> simp_all

theorem Source.goesBy_isTestOrSuite (src : Source) (v : Vocabulary) (n : Node) :
    src.goesBy v.isTestOrSuite n = (src.goesBy v.isTest n || src.goesBy v.isSuite n) := by
  unfold goesBy
  split <;> rfl

namespace Options

/-- The same, but no hooks. -/
def withoutHooks (options : Options) : Options := { options with hooks := false }

theorem within_withoutHooks (options : Options) : options.withoutHooks.Within options where
  inner := rfl
  wants part hp := by
    cases part with
    | hook => cases hp
    | _ => exact hp
  scenarios hs := hs

end Options

namespace Context

variable {c : Context} {visit : Visit}

/-- The visited node is a call of that kind of hook. -/
def callsHook (c : Context) (kind : String) (visit : Visit) : Bool :=
  c.source.goesBy (fun name => name == kind && c.vocabulary.isPlainHook name) visit.node

/-- The visited call has a function for its only argument, and no call of a test is around it. -/
def standsInSuite (c : Context) (visit : Visit) : Bool :=
  (match visit.node.callArguments with
    | [f] => f.isFunction
    | _ => false) &&
  !visit.ancestors.any (c.source.goesBy c.vocabulary.isTest)

/-- The hook that a visited call makes. Its scope has a frame for each call of a suite around it,
from the outermost inwards, and no other. -/
structure MakesHook (c : Context) (visit : Visit) (h : Hook) : Prop where
  scope : List.Forall₂ (fun n f => ∃ name, c.source.Frames c.vocabulary n name f)
    (visit.ancestors.filter (c.source.goesBy c.vocabulary.isSuite)) h.scope
  suites : ∀ f ∈ h.scope, f.OfSuite
  span : c.source.spanOf visit.node = .ok h.span
  body : ∃ f, visit.node.callArguments = [f] ∧ c.source.spanOf f.unwrap = .ok h.body ∧
    (c.inner c.room.inner f.unwrap).outcome = .ok h.inner

theorem anyTest_eq_ok {ns : List Node} {found : Bool} (h : c.anyTest ns = .ok found) :
    ns.any (c.source.goesBy c.vocabulary.isTest) = found := by
  induction ns with
  | nil =>
    cases h
    rfl
  | cons n ns ih =>
    simp only [anyTest, bind_eq_ok] at h
    obtain ⟨name, hname, h⟩ := h
    have hn : c.source.goesBy c.vocabulary.isTest n = name.any c.vocabulary.isTest := by
      unfold Source.goesBy
      rw [hname]
      cases name <;> rfl
    rw [List.any_cons, hn]
    split at h
    case isTrue htest =>
      cases h
      rw [htest, Bool.true_or]
    case isFalse htest =>
      rw [Bool.not_eq_true] at htest
      rw [htest, Bool.false_or, ih h]

/-- Where no test is around a node, the tests and suites around it are suites. -/
theorem makesHook_of_scope {h : Hook} {f : Node} (hargs : visit.node.callArguments = [f])
    (houtside : visit.ancestors.any (c.source.goesBy c.vocabulary.isTest) = false)
    (hscope : c.source.scope c.vocabulary c.vocabulary.isTestOrSuite visit.ancestors = .ok h.scope)
    (hspan : c.source.spanOf visit.node = .ok h.span)
    (hbody : c.source.spanOf f.unwrap = .ok h.body)
    (hinner : (c.inner c.room.inner f.unwrap).outcome = .ok h.inner) : c.MakesHook visit h := by
  have hnone : ∀ n ∈ visit.ancestors, c.source.goesBy c.vocabulary.isTest n = false := by
    intro n hn
    simpa using List.any_eq_false.mp houtside n hn
  have hfilter : visit.ancestors.filter (c.source.goesBy c.vocabulary.isTestOrSuite) =
      visit.ancestors.filter (c.source.goesBy c.vocabulary.isSuite) := by
    refine List.filter_congr fun n hn => ?_
    rw [Source.goesBy_isTestOrSuite, hnone n hn, Bool.false_or]
  have hframes := Source.forall₂_of_scope hscope
  refine ⟨?_, fun frame hframe => ?_, hspan, f, hargs, hbody, hinner⟩
  · rw [← hfilter]
    exact Source.forall₂_frames hscope
  · obtain ⟨n, hn, name, hname, -, hown⟩ := exists_of_forall₂ hframes hframe
    have hother := hnone n (List.mem_of_mem_filter hn)
    have htest : c.vocabulary.isTest name = false := by
      simpa [Source.goesBy, hname] using hother
    exact Frame.ofSuite_of_isTest ((Source.frames_of_frame hname hown).isTest.trans htest)

theorem standsInSuite_of_args {f : Node} (h : visit.node.callArguments = [f]) :
    c.standsInSuite visit =
      (f.isFunction && !visit.ancestors.any (c.source.goesBy c.vocabulary.isTest)) := by
  rw [standsInSuite, h]

theorem standsInSuite_of_args_ne (h : ∀ f, visit.node.callArguments ≠ [f]) :
    c.standsInSuite visit = false := by
  unfold standsInSuite
  split
  case h_1 f hf => exact absurd hf (h f)
  case h_2 => rfl

theorem hook_cases {name : String} {found : Option Finding}
    (h : (c.hook visit.node name visit.ancestors).outcome = .ok found) :
    (c.standsInSuite visit = true → ∃ hook, c.MakesHook visit hook ∧
      found = some (.hook name hook)) ∧ (¬ c.standsInSuite visit = true → found = none) := by
  simp only [hook] at h
  split at h
  case h_2 hargs =>
    obtain rfl := eq_none_of_note h
    rw [standsInSuite_of_args_ne hargs]
    exact ⟨fun hstands => (by cases hstands), fun _ => rfl⟩
  case h_1 f hargs =>
    rw [standsInSuite_of_args hargs]
    split at h
    case isTrue hfunction =>
      obtain rfl := eq_none_of_note h
      rw [Bool.not_eq_true'] at hfunction
      exact ⟨fun hstands => by simp [hfunction] at hstands, fun _ => rfl⟩
    case isFalse hfunction =>
      rw [Bool.not_eq_true', Bool.not_eq_false] at hfunction
      rw [hfunction, Bool.true_and]
      simp only [Traced.outcome_bind_eq_ok, Traced.outcome_liftM] at h
      obtain ⟨inTest, hin, h⟩ := h
      have hany := anyTest_eq_ok hin
      rw [hany]
      split at h
      case isTrue hinTest =>
        obtain rfl := eq_none_of_note h
        exact ⟨fun hstands => by simp [hinTest] at hstands, fun _ => rfl⟩
      case isFalse hinTest =>
        rw [Bool.not_eq_true] at hinTest
        simp only [Traced.outcome_bind_eq_ok, Traced.outcome_liftM, Traced.outcome_pure,
          Except.ok.injEq] at h
        obtain ⟨scope, hscope, span, hspan, body, hbody, inner, hinner, rfl⟩ := h
        refine ⟨fun _ => ⟨⟨scope, span, body, inner⟩, ?_, rfl⟩, fun hstands => ?_⟩
        · exact makesHook_of_scope hargs (hany.trans hinTest) hscope hspan hbody hinner
        · exact absurd (by simp [hinTest]) hstands

/-- A call of a hook that stands in a suite is the one thing of which a hook is found. -/
theorem findingAs_hook (hhooks : c.options.hooks = true) {kind : String} {found : Option Finding}
    (h : (c.inspect visit).outcome = .ok found) :
    ((c.callsHook kind visit && c.standsInSuite visit) = true →
      ∃ hook, c.MakesHook visit hook ∧
        (c.findingAs .hook visit).bind (·.hookOf? kind) = some hook) ∧
    (¬ (c.callsHook kind visit && c.standsInSuite visit) = true →
      (c.findingAs .hook visit).bind (·.hookOf? kind) = none) := by
  obtain ⟨-, h⟩ := inspect_eq_ok.mp h
  by_cases hcalls : ∃ segments,
      c.source.callPart? c.vocabulary visit.node = some (segments, .hook)
  case neg =>
    -- a call of a hook is examined as one
    have hother : c.callsHook kind visit = false := by
      rw [← Bool.not_eq_true]
      intro hcall
      obtain ⟨name, hname, hplain⟩ := Source.goesBy_iff.mp hcall
      obtain ⟨_, hs, hsegments⟩ := Source.dotted?_eq_ok.mp hname
      obtain ⟨segments, rfl, rfl⟩ := Option.map_eq_some_iff.mp hsegments
      have hpart := Vocabulary.part?_eq_hook.mpr (Bool.and_eq_true _ _ ▸ hplain).2
      exact hcalls ⟨segments, Source.callPart?_eq_some.mpr ⟨hs, hpart⟩⟩
    have hnone : c.findingAs .hook visit = none :=
      findingAs_eq_none fun segments hpart => hcalls ⟨segments, hpart⟩
    exact ⟨fun hall => by simp [hother] at hall, fun _ => by rw [hnone]; rfl⟩
  case pos =>
    obtain ⟨segments, hpart⟩ := hcalls
    obtain ⟨hs, hplain⟩ := Source.callPart?_eq_some.mp hpart
    have hname : c.source.dotted? visit.node = .ok (some (dotted segments)) :=
      Source.dotted?_eq_ok.mpr ⟨_, hs, rfl⟩
    have hkind : c.callsHook kind visit = (dotted segments == kind) := by
      have hgoes : c.callsHook kind visit =
          (dotted segments == kind && c.vocabulary.isPlainHook (dotted segments)) := by
        unfold callsHook Source.goesBy
        rw [hname]
      rw [hgoes, Vocabulary.part?_eq_hook.mp hplain, Bool.and_true]
    have hwants : c.options.wants .hook = true := hhooks
    simp only [hpart, hwants, if_true] at h
    obtain ⟨hstands, hunlike⟩ := hook_cases h
    rw [findingAs_of_part hpart, Traced.found?_eq h, hkind]
    by_cases hin : c.standsInSuite visit = true
    case pos =>
      obtain ⟨hook, hmakes, rfl⟩ := hstands hin
      by_cases heq : dotted segments = kind
      · exact ⟨fun _ => ⟨hook, hmakes, by simp [Finding.hookOf?, heq]⟩,
          fun hall => absurd (by simp [heq, hin]) hall⟩
      · exact ⟨fun hall => by simp [heq] at hall, fun _ => by simp [Finding.hookOf?, heq]⟩
    case neg =>
      rw [hunlike hin]
      exact ⟨fun hall => by simp [hin] at hall, fun _ => rfl⟩

/-- The first walk finds the same problems with and without hooks. -/
theorem problems_withoutHooks {findings rest : List Finding}
    (h : (Traced.collect c.inspect c.source.root.visits).outcome = .ok findings)
    (hrest : (Traced.collect (inspect ⟨c.source, c.options.withoutHooks, c.vocabulary, c.room⟩)
      c.source.root.visits).outcome = .ok rest) :
    findings.filterMap (·.problem?) = rest.filterMap (·.problem?) := by
  obtain ⟨hall, rfl⟩ := Traced.collect_eq_ok.mp h
  obtain ⟨hallRest, rfl⟩ := Traced.collect_eq_ok.mp hrest
  rw [List.filterMap_filterMap, List.filterMap_filterMap]
  refine List.filterMap_congr fun visit hvisit => ?_
  obtain ⟨found, hfound⟩ := hall visit hvisit
  obtain ⟨foundRest, hfoundRest⟩ := hallRest visit hvisit
  -- problems are those of registrations and of tests, which are asked for as before
  have hinner : c.options.inner = c.options.withoutHooks.inner := rfl
  have hsame : (found.bind (·.problem?)).toList = (foundRest.bind (·.problem?)).toList := by
    rw [problem?_of_inspect hfound, problem?_of_inspect hfoundRest]
    obtain ⟨src, options, v, room⟩ := c
    simp only [findingAs_congr (a := options.withoutHooks) (b := options) hinner.symm]
    rfl
  rw [Traced.found?_eq hfound, Traced.found?_eq hfoundRest]
  simpa using congrArg List.head? hsame

theorem errors_withoutHooks {o : Outline} (ho : c.outline.outcome = .ok o) :
    ∃ rest, (outline ⟨c.source, c.options.withoutHooks, c.vocabulary, c.room⟩).outcome = .ok rest ∧
      rest.errors = o.errors := by
  obtain ⟨rest, hrest⟩ := exists_outline_of_within (Options.within_withoutHooks c.options) ho
  refine ⟨rest, hrest, ?_⟩
  obtain ⟨findings, hfindings, ho⟩ := outline_eq_ok.mp ho
  obtain ⟨findingsRest, hfindingsRest, hrest⟩ := outline_eq_ok.mp hrest
  have hproblems := problems_withoutHooks hfindings hfindingsRest
  have hscenarios : c.options.withoutHooks.scenarios = c.options.scenarios := rfl
  rcases ho with ⟨hs, rfl⟩ | ⟨hs, more, hmore, rfl⟩
  · rcases hrest with ⟨-, rfl⟩ | ⟨hs', -⟩
    · exact congrArg byLocation hproblems.symm
    · rw [hscenarios, hs] at hs'
      cases hs'
  · rcases hrest with ⟨hs', -⟩ | ⟨-, moreRest, hmoreRest, rfl⟩
    · rw [hscenarios, hs] at hs'
      cases hs'
    · have hwalk : inspectScenario ⟨c.source, c.options.withoutHooks, c.vocabulary, c.room⟩ =
          c.inspectScenario := funext fun visit =>
            inspectScenario_congr (a := c.options.withoutHooks) (b := c.options) rfl visit
      rw [hwalk] at hmoreRest
      obtain rfl : more = moreRest := Except.ok.inj (hmore.symm.trans hmoreRest)
      simp only [hproblems]

/-- Hooks are exactly those of suites. Each configured kind is listed once, with one hook for each
visited call of that name that is given just a function and has no call of a test around it, in the
order of their spans. No frame around a hook is a test's, and hooks bear on no error. -/
theorem hooks_exact {o : Outline} (hhooks : c.options.hooks = true)
    (ho : c.outline.outcome = .ok o) :
    ∃ hooks, o.hooks = some hooks ∧ (hooks.map (·.1)).Nodup ∧
      (∀ kind, kind ∈ hooks.map (·.1) ↔ kind ∈ c.vocabulary.hooks) ∧
      (∀ kind found, (kind, found) ∈ hooks →
        found.Pairwise (fun a b => a.span.precedes b.span = true) ∧
        ∃ made, found.Perm made ∧ List.Forall₂ c.MakesHook (c.source.root.visits.filter
          fun visit => c.callsHook kind visit && c.standsInSuite visit) made) ∧
      ∃ rest,
        (outline ⟨c.source, c.options.withoutHooks, c.vocabulary, c.room⟩).outcome = .ok rest ∧
        rest.errors = o.errors := by
  have hkeys : ((distinct c.vocabulary.hooks).map fun kind =>
      (kind, byPosition (·.span) (c.recordsAs .hook (·.hookOf? kind)))).map (·.1) =
        distinct c.vocabulary.hooks := by
    rw [List.map_map]
    exact List.map_id _
  refine ⟨_, ?_, hkeys.symm ▸ nodup_distinct c.vocabulary.hooks, fun kind => ?_, ?_,
    errors_withoutHooks ho⟩
  · rw [outline_eq_assemble ho, assemble, hhooks]
    rfl
  · rw [hkeys, mem_distinct]
  · intro kind found hfound
    obtain ⟨_, -, he⟩ := List.mem_map.mp hfound
    cases he
    refine ⟨pairwise_byPosition _ _, _, sortBy_perm _ _, ?_⟩
    obtain ⟨findings, hfindings, -⟩ := outline_eq_ok.mp ho
    obtain ⟨hall, -⟩ := Traced.collect_eq_ok.mp hfindings
    refine forall₂_filterMap (fun visit hvisit hin => ?_) fun visit hvisit hout => ?_
    · obtain ⟨one, hone⟩ := hall visit hvisit
      exact (findingAs_hook hhooks hone).1 hin
    · obtain ⟨one, hone⟩ := hall visit hvisit
      exact (findingAs_hook hhooks hone).2 hout

end Context

/-! A suite with a hook, a call that only looks like one, and a hook inside a test. -/
namespace Sample

def hookedText : List Char :=
  "describe(\"a\",()=>[before(()=>1),before(2),it(\"b\",()=>before(()=>3))])".toList

/-- The call `before(()=>1)`. -/
def suiteHook : Node :=
  node none .callExpression 18 31
    [node (some .function) .identifier 18 24 [],
     node (some .arguments) .arguments 24 31
      [node none .arrowFunction 25 30
        [node none (.other "formal_parameters") 25 27 [],
         node (some .body) .number 29 30 []]]]

/-- The call `it("b",()=>before(()=>3))`. -/
def hookedTest : Node :=
  node none .callExpression 42 67
    [node (some .function) .identifier 42 44 [],
     node (some .arguments) .arguments 44 67
      [node none .string 45 48 [node none (.other "string_fragment") 46 47 []],
       node none .arrowFunction 49 66
        [node none (.other "formal_parameters") 49 51 [],
         node (some .body) .callExpression 53 66
          [node (some .function) .identifier 53 59 [],
           node (some .arguments) .arguments 59 66
            [node none .arrowFunction 60 65
              [node none (.other "formal_parameters") 60 62 [],
               node (some .body) .number 64 65 []]]]]]]

def hookedTree : Node :=
  node none .callExpression 0 69
    [node (some .function) .identifier 0 8 [],
     node (some .arguments) .arguments 8 69
      [node none .string 9 12 [node none (.other "string_fragment") 10 11 []],
       node none .arrowFunction 13 68
        [node none (.other "formal_parameters") 13 15 [],
         node (some .body) .array 17 68
          [token .leftBracket 17 18, suiteHook, token .comma 31 32,
           node none .callExpression 32 41
            [node (some .function) .identifier 32 38 [],
             node (some .arguments) .arguments 38 41 [node none .number 39 40 []]],
           token .comma 41 42, hookedTest, token .rightBracket 67 68]]]]

def hookedContext : Context :=
  ⟨⟨none, hookedText.toArray, .ofText hookedText, hookedTree⟩, {}, {}, .worker⟩

end Sample

namespace Context

/-- Of the three calls of `before` only the first makes a hook, in the frame of the suite; nothing
is said of the others. -/
theorem hooks_exact_sample :
    ∃ o hooks found made, Sample.hookedContext.outline.outcome = .ok o ∧ o.hooks = some hooks ∧
      ("before", found) ∈ hooks ∧ found.map (fun h => (h.span, h.scope.length)) = [(⟨18, 31⟩, 1)] ∧
      found.Perm made ∧
      (Sample.hookedContext.source.root.visits.filter fun visit =>
        Sample.hookedContext.callsHook "before" visit &&
          Sample.hookedContext.standsInSuite visit).map (·.node) = [Sample.suiteHook] ∧
      (Sample.hookedContext.source.root.visits.filter
        (Sample.hookedContext.callsHook "before")).length = 3 ∧
      (∀ h ∈ made, ∀ f ∈ h.scope, f.OfSuite) ∧ o.errors.length = 0 := by
  have hcheck : Sample.hookedContext.outline.outcome.toOption.any (fun o =>
      o.hooks.any (fun hooks => decide ((hooks.lookup "before").map
        (·.map fun h => (h.span, h.scope.length)) = some [(⟨18, 31⟩, 1)])) &&
      decide (o.errors.length = 0)) = true := by
    decide
  obtain ⟨o, ho, hfound⟩ := exists_ok_of_any hcheck
  rw [Bool.and_eq_true, decide_eq_true_eq] at hfound
  obtain ⟨hooks, hlisted, -, -, hmakes, -⟩ := hooks_exact rfl ho
  rw [hlisted] at hfound
  obtain ⟨found, hlookup, hmap⟩ := Option.map_eq_some_iff.mp (of_decide_eq_true hfound.1)
  obtain ⟨before, after, rfl, -⟩ := List.lookup_eq_some_iff.mp hlookup
  have hmem : ("before", found) ∈ before ++ ("before", found) :: after := by simp
  obtain ⟨-, made, hperm, hmade⟩ := hmakes "before" found hmem
  have hsuites : ∀ h ∈ made, ∀ f ∈ h.scope, f.OfSuite := by
    intro h hh
    obtain ⟨_, -, hone⟩ := exists_of_forall₂ hmade hh
    exact hone.suites
  exact ⟨o, _, found, made, ho, hlisted, hmem, hmap, hperm, rfl, rfl, hsuites, hfound.2⟩

end Context
end SuiteOutline
