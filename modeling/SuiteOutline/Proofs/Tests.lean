import SuiteOutline.Document.Basic
import SuiteOutline.Proofs.Options

/-! Every call of a test is accounted for: it makes a test or a problem, and the scope of a test is
read off from the path to its call. -/
namespace SuiteOutline

/-! Paths. -/

/-- The nodes from the root down to the visited one. -/
def Visit.path (v : Visit) : List Node := v.ancestors ++ [v.node]

namespace Node

/-- A path down from the root, each step to a named child. -/
structure IsPath (root : Node) (path : List Node) : Prop where
  head : path.head? = some root
  steps : path.IsChain fun parent child => child ∈ parent.namedChildren

theorem mem_path_tour {enclosing : List Node} {n : Node} {path : List Node} :
    path ∈ (n.tour enclosing).map Visit.path ↔
      ∃ way, (n :: way).IsChain (fun parent child => child ∈ parent.namedChildren) ∧
        path = enclosing.reverse ++ n :: way := by
  induction n using childrenInduction generalizing enclosing with
  | node n ih =>
    rw [tour_eq, List.map_cons, List.mem_cons, List.map_flatMap, List.mem_flatMap]
    constructor
    · intro h
      rcases h with rfl | ⟨c, hc, hpath⟩
      · exact ⟨[], .singleton n, rfl⟩
      · obtain ⟨way, hway, rfl⟩ := (ih c (mem_children_of_mem_namedChildren hc)).mp hpath
        exact ⟨c :: way, .cons_cons hc hway, by simp⟩
    · intro ⟨way, hway, hpath⟩
      cases way with
      | nil => exact .inl hpath
      | cons c way =>
        obtain ⟨hc, hway⟩ := List.isChain_cons_cons.mp hway
        refine .inr ⟨c, hc, (ih c (mem_children_of_mem_namedChildren hc)).mpr ⟨way, hway, ?_⟩⟩
        simp [hpath]

/-- The walk goes down every path. -/
theorem mem_path_visits {root : Node} {path : List Node} :
    path ∈ root.visits.map Visit.path ↔ root.IsPath path := by
  rw [visits_eq_tour, mem_path_tour]
  constructor
  · intro ⟨way, hway, hpath⟩
    subst hpath
    exact ⟨rfl, hway⟩
  · intro ⟨hhead, hsteps⟩
    cases path with
    | nil => cases hhead
    | cons n way =>
      cases hhead
      exact ⟨way, hsteps, rfl⟩

end Node

/-! Frames. -/

theorem not_isSkip_and_isOnly (name : String) : ¬(isSkip name = true ∧ isOnly name = true) := by
  intro ⟨hskip, honly⟩
  rw [isSkip, endsWith, List.isSuffixOf_iff_suffix] at hskip
  rw [isOnly, endsWith, List.isSuffixOf_iff_suffix] at honly
  -- of two ends of one length only one can be
  have hsame := (List.suffix_of_suffix_length_le hskip honly (by decide)).eq_of_length (by decide)
  exact absurd hsame (by decide)

namespace Focus

theorem ofName_eq_skip {name : String} : ofName name = .skip ↔ isSkip name = true := by
  unfold ofName
  split
  case isTrue h => simp [h]
  case isFalse h => split <;> simp [h]

theorem ofName_eq_only {name : String} : ofName name = .only ↔ isOnly name = true := by
  unfold ofName
  split
  case isTrue h =>
    have hother : ¬ isOnly name = true := fun honly => not_isSkip_and_isOnly name ⟨h, honly⟩
    simp [hother]
  case isFalse => split <;> simp_all

end Focus

namespace Frame

/-- The written form of a frame: its kind ends in the word of a flag exactly if the flag is set. -/
structure Written (f : Frame) (fields : List (String × Document)) (kind : String) : Prop where
  document : Document.ofFrame f = .record fields
  told : fields.lookup "kind" = some (.string kind)
  skip : fields.lookup "skip" = some (.bool true) ↔ f.focus = .skip
  only : fields.lookup "only" = some (.bool true) ↔ f.focus = .only
  endsInSkip : endsWith "-skip" kind = true ↔ f.focus = .skip
  endsInOnly : endsWith "-only" kind = true ↔ f.focus = .only

theorem kindWord_endsWith (isTest : Bool) (focus : Focus) :
    (endsWith "-skip" (kindWord isTest focus) = true ↔ focus = .skip) ∧
      (endsWith "-only" (kindWord isTest focus) = true ↔ focus = .only) := by
  cases isTest <;> cases focus <;> decide

theorem exists_written (f : Frame) : ∃ fields kind, f.Written fields kind := by
  obtain ⟨hskip, honly⟩ := kindWord_endsWith f.isTest f.focus
  refine ⟨_, kindWord f.isTest f.focus, rfl, ?_, ?_, ?_, hskip, honly⟩
  · simp [List.lookup_cons]
  · cases hfocus : f.focus <;> simp [List.lookup_cons, Document.ofSpan, Document.flag]
  · cases hfocus : f.focus <;> simp [List.lookup_cons, Document.ofSpan, Document.flag]

end Frame

namespace Source

variable {src : Source} {v : Vocabulary}

/-- The frame tells of the call: its place and its display name, and by the name that is called,
whether it is a test, left out or singled out. -/
structure Frames (src : Source) (v : Vocabulary) (call : Node) (name : String) (f : Frame) :
    Prop where
  called : src.dotted? call = .ok (some name)
  span : src.spanOf call = .ok f.span
  shown : src.scopeName call = .ok f.name
  isTest : f.isTest = v.isTest name
  skip : f.focus = .skip ↔ isSkip name = true
  only : f.focus = .only ↔ isOnly name = true

theorem frames_of_frame {call : Node} {name : String} {f : Frame}
    (hname : src.dotted? call = .ok (some name)) (h : src.frame v call name = .ok f) :
    src.Frames v call name f := by
  obtain ⟨hshown, htest, hfocus, hspan⟩ := frame_eq_ok.mp h
  refine ⟨hname, hspan, hshown, htest, ?_, ?_⟩
  · rw [hfocus, Focus.ofName_eq_skip]
  · rw [hfocus, Focus.ofName_eq_only]

/-- A scope tells of the calls that go by such a name, one frame each and in the same order. -/
theorem forall₂_frames {included : String → Bool} {ns : List Node} {frames : List Frame}
    (h : src.scope v included ns = .ok frames) :
    List.Forall₂ (fun n f => ∃ name, src.Frames v n name f) (ns.filter (src.goesBy included))
      frames := by
  refine (forall₂_of_scope h).imp fun n f hn => ?_
  obtain ⟨name, hname, -, hframe⟩ := hn
  exact ⟨name, frames_of_frame hname hframe⟩

end Source

/-! Tests. -/

/-- The names of tests, as far as they are not taken by registrations and commands. -/
def Vocabulary.isPlainTest (v : Vocabulary) (name : String) : Bool :=
  v.isTest name && name != v.registrationPath && !v.isCommand name

theorem Vocabulary.part?_eq_test {v : Vocabulary} {name : String} :
    v.part? name = some .test ↔ v.isPlainTest name = true := by
  unfold part? isPlainTest
  split
  case isTrue h => simp [h]
  case isFalse h =>
    split
    case isTrue h' => simp [h']
    case isFalse h' =>
      split
      case isTrue h'' => simp [h, h', h'']
      case isFalse h'' => split <;> simp [h'']

namespace Options

/-- The same, but no tests. -/
def withoutTests (options : Options) : Options := { options with tests := false }

theorem within_withoutTests (options : Options) : options.withoutTests.Within options where
  inner := rfl
  wants part hp := by
    cases part with
    | test => cases hp
    | _ => exact hp
  scenarios hs := hs

end Options

namespace Context

variable {c : Context} {visit : Visit}

/-- The visited node is a call of a test. -/
def callsTest (c : Context) (visit : Visit) : Bool :=
  c.source.goesBy c.vocabulary.isPlainTest visit.node

/-- The test that a visited call makes. Its scope has a frame for each test and suite on the path to
the call, and the last is its own. -/
structure MakesTest (c : Context) (visit : Visit) (t : TestCase) : Prop where
  scope : List.Forall₂ (fun n f => ∃ name, c.source.Frames c.vocabulary n name f)
    (visit.path.filter (c.source.goesBy c.vocabulary.isTestOrSuite)) t.scope
  own : ∃ f, t.scope.getLast? = some f ∧ f.span = t.span ∧ f.name = t.name
  span : c.source.spanOf visit.node = .ok t.span
  name : c.source.scopeName visit.node = .ok t.name
  written : ∀ f ∈ t.scope, ∃ fields kind, f.Written fields kind
  skip : t.skip = true ↔ ∃ f ∈ t.scope, f.focus = .skip
  only : t.only = true ↔ ∃ f ∈ t.scope, f.focus = .only

/-- What a visited call of a test makes: a test if its second argument is a function, and otherwise
a problem that says what is wrong. -/
inductive Makes (c : Context) (visit : Visit) : TestCase ⊕ Diagnostic → Prop
  | test {t : TestCase} {title f : Node} {rest : List Node}
      (hargs : visit.node.callArguments = title :: f :: rest) (hfunction : f.isFunction = true)
      (htest : c.MakesTest visit t) (hbody : c.source.spanOf f.unwrap = .ok t.body) :
      Makes c visit (.inl t)
  | short {name : String} {d : Diagnostic}
      (hname : c.source.dotted? visit.node = .ok (some name))
      (hargs : visit.node.callArguments.length < 2)
      (hmessage : d.message = Text.ofString s!"'{name}' has insufficient number of arguments")
      (hlocation : c.source.startOf visit.node = .ok d.location) : Makes c visit (.inr d)
  | unlike {name : String} {d : Diagnostic} {title f : Node} {rest : List Node}
      (hname : c.source.dotted? visit.node = .ok (some name))
      (hargs : visit.node.callArguments = title :: f :: rest) (hfunction : f.isFunction = false)
      (hmessage : d.message = Text.ofString
        s!"'{name}' expects a function as second argument, found {f.kindName}")
      (hlocation : c.source.startOf f = .ok d.location) : Makes c visit (.inr d)

/-- The finding that a test or a problem makes. -/
def findingOf : TestCase ⊕ Diagnostic → Finding
  | .inl t => .test t
  | .inr d => .problem d

theorem makesTest_of_frames {name : String} {around : List Frame} {own : Frame}
    (hname : c.source.dotted? visit.node = .ok (some name))
    (htest : c.vocabulary.isTest name = true)
    (haround : c.source.scope c.vocabulary c.vocabulary.isTestOrSuite visit.ancestors = .ok around)
    (hown : c.source.frame c.vocabulary visit.node name = .ok own) (body : Span)
    (inner : Option InnerCalls) :
    c.MakesTest visit
      { name := own.name
        scope := around ++ [own]
        span := own.span
        body
        inner
        skip := (around ++ [own]).any (·.focus = .skip)
        only := (around ++ [own]).any (·.focus = .only) } := by
  have hframes := Source.frames_of_frame hname hown
  have hincluded : c.source.goesBy c.vocabulary.isTestOrSuite visit.node = true :=
    Source.goesBy_iff.mpr ⟨name, hname, by simp [Vocabulary.isTestOrSuite, htest]⟩
  refine ⟨?_, ⟨own, by simp, rfl, rfl⟩, hframes.span, hframes.shown,
    fun f _ => f.exists_written, ?_, ?_⟩
  · rw [Visit.path, List.filter_append, List.filter_cons_of_pos hincluded, List.filter_nil]
    refine List.rel_append ?_ (.cons ⟨name, hframes⟩ .nil)
    refine (Source.forall₂_of_scope haround).imp fun n f h => ?_
    obtain ⟨other, hother, -, hframe⟩ := h
    exact ⟨other, Source.frames_of_frame hother hframe⟩
  · rw [List.any_eq_true]
    simp only [decide_eq_true_eq]
  · rw [List.any_eq_true]
    simp only [decide_eq_true_eq]

theorem makes_of_test {name : String} {found : Option Finding}
    (hname : c.source.dotted? visit.node = .ok (some name))
    (htest : c.vocabulary.isTest name = true)
    (h : (c.test visit.node name visit.ancestors).outcome = .ok found) :
    ∃ made, c.Makes visit made ∧ found = some (findingOf made) := by
  unfold test at h
  split at h
  case h_1 title f rest hargs =>
    split at h
    case isTrue hfunction =>
      obtain ⟨d, rfl, hlocation, hmessage, -⟩ := problem_eq_ok h
      exact ⟨.inr d, .unlike hname hargs (by simpa using hfunction) hmessage hlocation, rfl⟩
    case isFalse hfunction =>
      simp only [Traced.outcome_bind_eq_ok, Traced.outcome_liftM, Traced.outcome_pure,
        Except.ok.injEq] at h
      obtain ⟨around, haround, own, hown, body, hbody, inner, -, rfl⟩ := h
      have hmakes := makesTest_of_frames hname htest haround hown body inner
      exact ⟨.inl _, .test hargs (by simpa using hfunction) hmakes hbody, rfl⟩
  case h_2 hargs =>
    obtain ⟨d, rfl, hlocation, hmessage, -⟩ := problem_eq_ok h
    have hshort : visit.node.callArguments.length < 2 := by
      rcases hlist : visit.node.callArguments with _ | ⟨a, _ | ⟨b, rest⟩⟩
      · decide
      · simp
      · exact absurd hlist (hargs a b rest)
    exact ⟨.inr d, .short hname hshort hmessage hlocation, rfl⟩

/-- A visited call of a test makes what it finds, and no other visit finds a test. -/
structure FoundBy (c : Context) (visit : Visit) (found : Option Finding) : Prop where
  made : c.callsTest visit = true →
    ∃ made, c.Makes visit made ∧ found = some (findingOf made)
  none : ¬ c.callsTest visit = true → found = none

theorem foundBy_findingAs (htests : c.options.tests = true) {found : Option Finding}
    (h : (c.inspect visit).outcome = .ok found) : c.FoundBy visit (c.findingAs .test visit) := by
  obtain ⟨-, h⟩ := inspect_eq_ok.mp h
  constructor
  · intro hcalls
    obtain ⟨name, hname, hplain⟩ := Source.goesBy_iff.mp hcalls
    obtain ⟨_, hs, hsegments⟩ := Source.dotted?_eq_ok.mp hname
    obtain ⟨segments, rfl, rfl⟩ := Option.map_eq_some_iff.mp hsegments
    have hpart := Source.callPart?_eq_some.mpr ⟨hs, Vocabulary.part?_eq_test.mpr hplain⟩
    have hwants : c.options.wants .test = true := htests
    simp only [hpart, hwants, if_true] at h
    rw [findingAs_of_part hpart, Traced.found?_eq h]
    exact makes_of_test hname (Vocabulary.part?_eq_some (Vocabulary.part?_eq_test.mpr hplain)) h
  · intro hother
    refine findingAs_eq_none fun segments hpart => hother ?_
    obtain ⟨hs, hpart⟩ := Source.callPart?_eq_some.mp hpart
    exact Source.goesBy_iff.mpr ⟨dotted segments, Source.dotted?_eq_ok.mpr ⟨_, hs, rfl⟩,
      Vocabulary.part?_eq_test.mp hpart⟩

/-- What the calls of tests make is what is found, in the order of the visits. -/
theorem exists_made {visits : List Visit}
    (h : ∀ visit ∈ visits, c.FoundBy visit (c.findingAs .test visit)) :
    ∃ made, List.Forall₂ c.Makes (visits.filter c.callsTest) made ∧
      visits.filterMap (fun visit => (c.findingAs .test visit).bind (·.test?)) =
        made.filterMap Sum.getLeft? ∧
      visits.filterMap (fun visit => (c.findingAs .test visit).bind (·.problem?)) =
        made.filterMap Sum.getRight? := by
  induction visits with
  | nil => exact ⟨[], .nil, rfl, rfl⟩
  | cons visit visits ih =>
    obtain ⟨hvisit, hrest⟩ := List.forall_mem_cons.mp h
    obtain ⟨made, hmade, htests, hproblems⟩ := ih hrest
    -- a call of a test makes one more thing, any other visit makes nothing
    by_cases hcalls : c.callsTest visit = true
    · obtain ⟨first, hfirst, hfound⟩ := hvisit.made hcalls
      refine ⟨first :: made, ?_, ?_, ?_⟩
      · rw [List.filter_cons_of_pos hcalls]
        exact .cons hfirst hmade
      · rw [List.filterMap_cons, List.filterMap_cons, htests, hfound]
        cases first <;> rfl
      · rw [List.filterMap_cons, List.filterMap_cons, hproblems, hfound]
        cases first <;> rfl
    · have hnone := hvisit.none hcalls
      refine ⟨made, ?_, ?_, ?_⟩
      · rw [List.filter_cons_of_neg hcalls]
        exact hmade
      · rw [List.filterMap_cons, htests, hnone]
        rfl
      · rw [List.filterMap_cons, hproblems, hnone]
        rfl

theorem exists_made_of_outline {o : Outline} (htests : c.options.tests = true)
    (ho : c.outline.outcome = .ok o) :
    ∃ made, List.Forall₂ c.Makes (c.source.root.visits.filter c.callsTest) made ∧
      c.recordsAs .test (·.test?) = made.filterMap Sum.getLeft? ∧
      c.recordsAs .test (·.problem?) = made.filterMap Sum.getRight? := by
  obtain ⟨findings, hfindings, -⟩ := outline_eq_ok.mp ho
  refine exists_made fun visit hvisit => ?_
  obtain ⟨found, hfound⟩ := (Traced.collect_eq_ok.mp hfindings).1 visit hvisit
  exact foundBy_findingAs htests hfound

/-- The problems are those of the tests and those found without asking for tests. -/
theorem problems_perm_withoutTests (htests : c.options.tests = true) :
    c.problems.Perm (c.recordsAs .test (·.problem?) ++
      problems ⟨c.source, c.options.withoutTests, c.vocabulary, c.room⟩) := by
  obtain ⟨src, options, v, room⟩ := c
  have hinner : options.inner = options.withoutTests.inner := rfl
  have hwithout : problems ⟨src, options.withoutTests, v, room⟩ =
      (if options.added then
        recordsAs ⟨src, options, v, room⟩ .registration (·.problem?) else []) ++
      (if options.scenarios then
        (scenarioFindings ⟨src, options, v, room⟩).filterMap (·.problem?) else []) := by
    have htests : ¬ options.withoutTests.tests = true := Bool.false_ne_true
    rw [recordsAs_congr hinner, scenarioFindings_congr hinner, problems]
    dsimp only
    rw [if_neg htests, List.append_nil]
    rfl
  have hwith : problems ⟨src, options, v, room⟩ =
      (if options.added then
        recordsAs ⟨src, options, v, room⟩ .registration (·.problem?) else []) ++
      (recordsAs ⟨src, options, v, room⟩ .test (·.problem?) ++
        if options.scenarios then
          (scenarioFindings ⟨src, options, v, room⟩).filterMap (·.problem?) else []) := by
    have htests : options.tests = true := htests
    rw [problems, if_pos htests, List.append_assoc]
  rw [hwith, hwithout]
  exact List.perm_append_comm_assoc _ _ _

/-- Every call of a test is accounted for. The walk goes down the paths from the root and no others;
each call of a test that it meets makes either a test or a problem, and there are no other tests. The
other errors are those of the outline without tests. -/
theorem tests_accounted {o : Outline} (htests : c.options.tests = true)
    (ho : c.outline.outcome = .ok o) :
    (∀ path, path ∈ c.source.root.visits.map Visit.path ↔ c.source.root.IsPath path) ∧
    ∃ made tests rest,
      List.Forall₂ c.Makes (c.source.root.visits.filter c.callsTest) made ∧
      o.tests = some tests ∧ tests.Perm (made.filterMap Sum.getLeft?) ∧
      (outline ⟨c.source, c.options.withoutTests, c.vocabulary, c.room⟩).outcome = .ok rest ∧
      o.errors.Perm (made.filterMap Sum.getRight? ++ rest.errors) := by
  refine ⟨fun path => Node.mem_path_visits, ?_⟩
  obtain ⟨made, hmade, hrecords, hproblems⟩ := exists_made_of_outline htests ho
  obtain ⟨rest, hrest⟩ := exists_outline_of_within (Options.within_withoutTests c.options) ho
  refine ⟨made, byPosition (·.span) (c.recordsAs .test (·.test?)), rest, hmade, ?_, ?_, hrest, ?_⟩
  · rw [outline_eq_assemble ho, assemble, htests]
    rfl
  · rw [← hrecords]
    exact sortBy_perm _ _
  · rw [← hproblems]
    have hparted := (errors_perm ho).trans (problems_perm_withoutTests htests)
    exact hparted.trans ((errors_perm hrest).symm.append_left _)

end Context

/-! A suite that is left out, with a test and one that lacks its function. -/
namespace Sample

def skippedText : List Char := "describe.skip(\"a\",()=>[it(\"b\",()=>1),it(\"c\")])".toList

/-- The call `it("b",()=>1)`. -/
def wholeTest : Node :=
  node none .callExpression 23 36
    [node (some .function) .identifier 23 25 [],
     node (some .arguments) .arguments 25 36
      [node none .string 26 29 [node none (.other "string_fragment") 27 28 []],
       node none .arrowFunction 30 35
        [node none (.other "formal_parameters") 30 32 [],
         node (some .body) .number 34 35 []]]]

/-- The call `it("c")`. -/
def shortTest : Node :=
  node none .callExpression 37 44
    [node (some .function) .identifier 37 39 [],
     node (some .arguments) .arguments 39 44
      [node none .string 40 43 [node none (.other "string_fragment") 41 42 []]]]

def skippedTree : Node :=
  node none .callExpression 0 46
    [node (some .function) .memberExpression 0 13
      [node (some .object) .identifier 0 8 [],
       node (some .property) .propertyIdentifier 9 13 []],
     node (some .arguments) .arguments 13 46
      [node none .string 14 17 [node none (.other "string_fragment") 15 16 []],
       node none .arrowFunction 18 45
        [node none (.other "formal_parameters") 18 20 [],
         node (some .body) .array 22 45
          [token .leftBracket 22 23, wholeTest, token .comma 36 37, shortTest,
           token .rightBracket 44 45]]]]

def skippedContext : Context :=
  ⟨⟨none, skippedText.toArray, .ofText skippedText, skippedTree⟩, {}, {}, .worker⟩

end Sample

namespace Context

/-- The two calls make a test in two frames, left out with its suite, and a problem. -/
theorem tests_accounted_sample :
    ∃ o made tests rest, Sample.skippedContext.outline.outcome = .ok o ∧
      (Sample.skippedContext.source.root.visits.filter Sample.skippedContext.callsTest).map
        (·.node) = [Sample.wholeTest, Sample.shortTest] ∧
      List.Forall₂ Sample.skippedContext.Makes
        (Sample.skippedContext.source.root.visits.filter Sample.skippedContext.callsTest) made ∧
      made.length = 2 ∧ o.tests = some tests ∧ tests.Perm (made.filterMap Sum.getLeft?) ∧
      tests.map (fun t => (t.skip, t.only, t.scope.length)) = [(true, false, 2)] ∧
      o.errors.Perm (made.filterMap Sum.getRight? ++ rest) ∧ o.errors.length = 1 := by
  have hcheck : Sample.skippedContext.outline.outcome.toOption.any (fun o =>
      decide (o.tests.map (·.map fun t => (t.skip, t.only, t.scope.length)) =
        some [(true, false, 2)]) && decide (o.errors.length = 1)) = true := by
    decide +kernel
  obtain ⟨o, ho, hfound⟩ := exists_ok_of_any hcheck
  rw [Bool.and_eq_true, decide_eq_true_eq, decide_eq_true_eq] at hfound
  obtain ⟨-, made, tests, rest, hmade, htests, hperm, -, herrors⟩ := tests_accounted rfl ho
  have hcalls : (Sample.skippedContext.source.root.visits.filter
      Sample.skippedContext.callsTest).map (·.node) = [Sample.wholeTest, Sample.shortTest] := by
    rfl
  have hlength : made.length = 2 := by
    rw [← hmade.length_eq, ← List.length_map, hcalls]
    rfl
  have htold : tests.map (fun t => (t.skip, t.only, t.scope.length)) = [(true, false, 2)] := by
    rw [htests] at hfound
    exact Option.some.inj hfound.1
  exact ⟨o, made, tests, rest.errors, ho, hcalls, hmade, hlength, htests, hperm, htold, herrors,
    hfound.2⟩

end Context
end SuiteOutline
