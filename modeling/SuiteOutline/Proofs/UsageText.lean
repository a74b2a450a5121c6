import SuiteOutline.Lookup
import SuiteOutline.Proofs.ChainPrefix

/-! A usage is written out as its call spells its callee: writing inverts what taking the segments
apart did, and what is written tells usages apart. -/
namespace SuiteOutline

theorem stripMarker_append_callMarker {segment : String} (h : endsWith callMarker segment = true) :
    stripMarker segment ++ callMarker = segment := by
  obtain ⟨front, hfront⟩ := List.isSuffixOf_iff_suffix.mp h
  obtain rfl : String.ofList front ++ callMarker = segment := by
    rw [← String.toList_inj, String.toList_append, String.toList_ofList, hfront]
  rw [stripMarker_append]

theorem dotted_singleton (name : String) : dotted [name] = name := by
  simp [dotted, List.intercalate]

theorem dotted_cons (segment : String) {rest : List String} (h : rest ≠ []) :
    dotted (segment :: rest) = segment ++ "." ++ dotted rest := by
  obtain ⟨next, more, rfl⟩ := List.exists_cons_of_ne_nil h
  rw [← String.toList_inj]
  simp [dotted, List.intercalate]

theorem not_mem_append_callMarker {segment : String} (h : '.' ∉ segment.toList) :
    '.' ∉ (segment ++ callMarker).toList := by
  have hmarker : '.' ∉ callMarker.toList := by decide
  rw [String.toList_append, List.mem_append]
  exact not_or.mpr ⟨h, hmarker⟩

/-- Segments without a dot can be read back. -/
theorem splitOn_dotted {segments : List String} (hne : segments ≠ [])
    (h : ∀ s ∈ segments, '.' ∉ s.toList) :
    (dotted segments).toList.splitOn '.' = segments.map String.toList := by
  rw [dotted, String.toList_ofList]
  refine List.splitOn_intercalate '.' ?_ (by simpa using hne)
  intro cs hcs
  obtain ⟨s, hs, rfl⟩ := List.mem_map.mp hcs
  exact h s hs

/-- The segments that a usage is made of, the command root apart. -/
def usageSegments (name : String) (chain : List String) : List String :=
  chain.map (· ++ callMarker) ++ [name]

theorem usageSegments_ne_nil (name : String) (chain : List String) :
    usageSegments name chain ≠ [] :=
  List.append_ne_nil_of_right_ne_nil _ (List.cons_ne_nil name [])

theorem usageSegments_inj {name name' : String} {chain chain' : List String}
    (h : usageSegments name chain = usageSegments name' chain') :
    name = name' ∧ chain = chain' := by
  obtain ⟨hchain, hname⟩ := List.append_inj' h rfl
  refine ⟨(List.cons.inj hname).1, List.map_injective_iff.mpr ?_ hchain⟩
  intro a b hab
  rw [← String.toList_inj, String.toList_append, String.toList_append] at hab
  exact String.toList_injective (List.append_cancel_right hab)

theorem dotted_usageSegments (name : String) (chain : List String) :
    dotted (usageSegments name chain) = String.join (chain.map (· ++ "().")) ++ name := by
  induction chain with
  | nil => rw [usageSegments, List.map_nil, List.nil_append, dotted_singleton]; rfl
  | cons link chain ih =>
    have hcons : usageSegments name (link :: chain) =
        (link ++ callMarker) :: usageSegments name chain := rfl
    rw [hcons, dotted_cons _ (usageSegments_ne_nil name chain), ih]
    rw [← String.toList_inj]
    simp [callMarker]

theorem usageText_eq (v : Vocabulary) (name : String) (chain : List String) :
    usageText v name chain =
      v.commandHead ++ dotted (usageSegments name chain) ++ callMarker := by
  rw [dotted_usageSegments, usageText, callMarker, ← String.append_assoc]

/-- What is written between the head of all commands and the last marker is the same only for the
same segments. -/
theorem usageText_inj {v : Vocabulary} {name name' : String} {chain chain' : List String}
    (h : ∀ s ∈ name :: chain, '.' ∉ s.toList) (h' : ∀ s ∈ name' :: chain', '.' ∉ s.toList)
    (heq : usageText v name chain = usageText v name' chain') : name = name' ∧ chain = chain' := by
  have hplain : ∀ {name : String} {chain : List String}, (∀ s ∈ name :: chain, '.' ∉ s.toList) →
      ∀ s ∈ usageSegments name chain, '.' ∉ s.toList := by
    intro name chain h s hs
    obtain ⟨hname, hchain⟩ := List.forall_mem_cons.mp h
    rcases List.mem_append.mp hs with hs | hs
    · obtain ⟨link, hlink, rfl⟩ := List.mem_map.mp hs
      exact not_mem_append_callMarker (hchain link hlink)
    · rwa [List.mem_singleton.mp hs]
  -- the command root may hold dots itself: it is cancelled before anything is split
  rw [usageText_eq, usageText_eq, ← String.toList_inj] at heq
  simp only [String.toList_append, List.append_cancel_left_eq, List.append_cancel_right_eq] at heq
  have hsplit := congrArg (List.splitOn '.') heq
  rw [splitOn_dotted (usageSegments_ne_nil name chain) (hplain h),
    splitOn_dotted (usageSegments_ne_nil name' chain') (hplain h')] at hsplit
  have hinj : Function.Injective String.toList := fun _ _ => String.toList_injective
  exact usageSegments_inj (List.map_injective_iff.mpr hinj hsplit)

/-- The segments of a call that makes a usage are the command root and those of the usage. -/
theorem segments_of_usage? {src : Source} {v : Vocabulary} {room : Nat} {call : Node}
    {segments : List String} {u : CommandUsage}
    (h : (usage? src v room call segments).outcome = .ok (some u)) :
    segments = v.commandRoot :: usageSegments u.name u.chain := by
  obtain ⟨names, _, _, rfl, -, -, hnames, -, -, -, -, -, hchain⟩ := usage?_eq_some.mp h
  have hmarked : u.chain.map (· ++ callMarker) = names := by
    have hinverse : names.map ((· ++ callMarker) ∘ stripMarker) = names.map id :=
      List.map_congr_left fun s hs => stripMarker_append_callMarker (hnames s hs)
    rw [hchain, List.map_map, hinverse, List.map_id]
  rw [usageSegments, hmarked]

/-- Writing a usage out gives back what the call spells: the dotted name of its callee, with the
call's own marker. Usages whose names have no dot are written alike only if they are the same. -/
theorem usageText_inverts :
    (∀ (src : Source) (v : Vocabulary) (room : Nat) (call : Node) (segments : List String)
      (u : CommandUsage), src.segments? call = .ok (some segments) →
      (usage? src v room call segments).outcome = .ok (some u) →
      ∃ name, src.dotted? call = .ok (some name) ∧
        usageText v u.name u.chain = name ++ callMarker) ∧
    ∀ (v : Vocabulary) (name name' : String) (chain chain' : List String),
      (∀ s ∈ name :: chain, '.' ∉ s.toList) → (∀ s ∈ name' :: chain', '.' ∉ s.toList) →
      usageText v name chain = usageText v name' chain' → name = name' ∧ chain = chain' := by
  refine ⟨fun src v room call segments u hsegments husage => ?_,
    fun v name name' chain chain' h h' heq => usageText_inj h h' heq⟩
  refine ⟨dotted segments, Source.dotted?_eq_ok.mpr ⟨_, hsegments, rfl⟩, ?_⟩
  rw [segments_of_usage? husage, dotted_cons _ (usageSegments_ne_nil u.name u.chain), usageText_eq]
  rfl

-- with dots in names two usages can be written alike
example : usageText {} "b" ["a"] = usageText {} "a().b" [] := by decide

/-! The text `cy.a()().b()`, where what `a` returns is called too. -/
namespace Sample

def twiceCalled : Node :=
  node none .callExpression 0 12
    [node (some .function) .memberExpression 0 10
      [node (some .object) .callExpression 0 8
        [node (some .function) .callExpression 0 6
          [node (some .function) .memberExpression 0 4
            [node (some .object) .identifier 0 2 [],
             node (some .property) .propertyIdentifier 3 4 []],
           node (some .arguments) .arguments 4 6 []],
         node (some .arguments) .arguments 6 8 []],
       node (some .property) .propertyIdentifier 9 10 []],
     node (some .arguments) .arguments 10 12 []]

def twiceCalledSource : Source :=
  ⟨none, "cy.a()().b()".toList.toArray, .same, node none (.other "program") 0 12 [twiceCalled]⟩

theorem segments?_twiceCalled :
    twiceCalledSource.segments? twiceCalled = .ok (some ["cy", "a()()", "b"]) := by decide

end Sample

/-- One marker is taken off the link and put back; the other stays in the chain. -/
theorem usageText_inverts_sample :
    ∃ u, (usage? Sample.twiceCalledSource {} 0 Sample.twiceCalled ["cy", "a()()", "b"]).outcome =
        .ok (some u) ∧ u.name = "b" ∧ u.chain = ["a()"] ∧
      Sample.twiceCalledSource.dotted? Sample.twiceCalled = .ok (some "cy.a()().b") ∧
      usageText {} u.name u.chain = "cy.a()().b" ++ callMarker ∧
      usageText {} "b" ["a()"] ≠ usageText {} "b" ["a"] := by
  obtain ⟨hinverts, hinj⟩ := usageText_inverts
  have hcheck : (usage? Sample.twiceCalledSource {} 0 Sample.twiceCalled
      ["cy", "a()()", "b"]).outcome.toOption.any (fun found => found.any fun u =>
        decide (u.name = "b") && decide (u.chain = ["a()"])) = true := by
    decide
  obtain ⟨found, husage, hfound⟩ := exists_ok_of_any hcheck
  obtain ⟨u, rfl, hfields⟩ := Option.any_eq_true _ _ |>.mp hfound
  rw [Bool.and_eq_true, decide_eq_true_eq, decide_eq_true_eq] at hfields
  obtain ⟨name, hname, htext⟩ := hinverts _ {} _ _ _ u Sample.segments?_twiceCalled husage
  have hdotted : Sample.twiceCalledSource.dotted? Sample.twiceCalled = .ok (some "cy.a()().b") := by
    decide
  obtain rfl : name = "cy.a()().b" := Option.some.inj (Except.ok.inj (hname.symm.trans hdotted))
  refine ⟨u, husage, hfields.1, hfields.2, hdotted, htext, fun heq => ?_⟩
  have hchain := (hinj {} "b" "b" ["a()"] ["a"] (by decide) (by decide) heq).2
  revert hchain
  decide

end SuiteOutline
