import SuiteOutline.Proofs.Escape
import SuiteOutline.Proofs.Paths
import SuiteOutline.Proofs.UsageText
import SuiteOutline.Service.Archive

/-! Names and paths are tested as they are written, but every test is one on the parts between the
separators: a family of names is told by its first segments, a command by the root in front of
another segment, and an ignored folder by whole parts of a path. -/
namespace SuiteOutline

/-! Parts of a written list, `x` being the separator. -/

section

variable {x : Char} {a b : List Char}

theorem intercalate_append {p q : List (List Char)} (hp : p ≠ []) (hq : q ≠ []) :
    [x].intercalate (p ++ q) = [x].intercalate p ++ x :: [x].intercalate q := by
  induction p with
  | nil => exact absurd rfl hp
  | cons l p ih =>
    cases p with
    | nil =>
      rw [List.singleton_append, List.intercalate_cons_of_ne_nil hq, List.intercalate_singleton]
      simp
    | cons m p =>
      rw [List.cons_append, List.intercalate_cons_of_ne_nil (by simp), ih (by simp),
        List.intercalate_cons_of_ne_nil (List.cons_ne_nil m p)]
      simp

/-- One list goes on from another after a separator if its parts go on from those of the other. -/
theorem concat_isPrefix_iff :
    a ++ [x] <+: b ↔ ∃ rest, rest ≠ [] ∧ b.splitOn x = a.splitOn x ++ rest := by
  constructor
  · rintro ⟨r, rfl⟩
    refine ⟨r.splitOn x, List.splitOn_ne_nil x r, ?_⟩
    rw [List.append_assoc, List.singleton_append, List.splitOn_append_cons_self]
  · rintro ⟨rest, hrest, hsplit⟩
    refine ⟨[x].intercalate rest, ?_⟩
    have hjoined : [x].intercalate (b.splitOn x) = b := List.intercalate_splitOn x
    rw [hsplit, intercalate_append (List.splitOn_ne_nil x a) hrest,
      List.intercalate_splitOn] at hjoined
    rw [List.append_assoc, List.singleton_append, hjoined]

theorem isInfix_dropLast_iff {α : Type} {l m : List α} (hm : m ≠ []) :
    l <:+: m.dropLast ↔ ∃ p q, q ≠ [] ∧ m = p ++ (l ++ q) := by
  constructor
  · rintro ⟨p, q, hpq⟩
    refine ⟨p, q ++ [m.getLast hm], by simp, ?_⟩
    rw [← List.append_assoc, ← List.append_assoc, hpq, List.dropLast_concat_getLast]
  · rintro ⟨p, q, hq, rfl⟩
    rw [← List.append_assoc, List.dropLast_append_of_ne_nil hq]
    exact ⟨p, q.dropLast, rfl⟩

/-- Between separators, a list occurs where its parts are parts in a row. A separator is put in
front, as the first part has none; behind the last part there is none, so that part cannot count. -/
theorem separated_isInfix_iff :
    x :: (a ++ [x]) <:+: x :: b ↔ a.splitOn x <:+: (b.splitOn x).dropLast := by
  have hfront : (x :: b).splitOn x = [] :: b.splitOn x := by
    rw [← List.nil_append (x :: b), List.splitOn_append_cons_self]
    simp
  rw [isInfix_dropLast_iff (List.splitOn_ne_nil x b)]
  constructor
  · rintro ⟨l, r, hlr⟩
    have hb : x :: b = l ++ x :: (a ++ x :: r) := by rw [← hlr]; simp
    rw [hb, List.splitOn_append_cons_self, List.splitOn_append_cons_self] at hfront
    obtain ⟨first, p, hp⟩ := List.exists_cons_of_ne_nil (List.splitOn_ne_nil x l)
    rw [hp, List.cons_append] at hfront
    exact ⟨p, r.splitOn x, List.splitOn_ne_nil x r, (List.cons.inj hfront).2.symm⟩
  · rintro ⟨p, q, hq, hsplit⟩
    have hjoined : [x].intercalate ([] :: b.splitOn x) = x :: b := by
      rw [← hfront, List.intercalate_splitOn]
    rw [hsplit, ← List.cons_append, intercalate_append (List.cons_ne_nil [] p) (by simp [hq]),
      intercalate_append (List.splitOn_ne_nil x a) hq, List.intercalate_splitOn] at hjoined
    rw [← hjoined]
    exact ⟨[x].intercalate ([] :: p), [x].intercalate q, by simp⟩

end

/-! Families of names. -/

/-- The parts of a name between its dots. -/
def dotParts (name : String) : List String := (name.toList.splitOn '.').map String.ofList

theorem dotParts_of_not_mem {name : String} (h : '.' ∉ name.toList) : dotParts name = [name] := by
  rw [dotParts, List.splitOn_eq_singleton h]
  simp

theorem dotParts_dotted {segments : List String} (hne : segments ≠ [])
    (h : ∀ s ∈ segments, '.' ∉ s.toList) : dotParts (dotted segments) = segments := by
  rw [dotParts, splitOn_dotted hne h]
  simp

theorem map_ofList_injective : Function.Injective (List.map String.ofList) :=
  List.map_injective_iff.mpr fun _ _ => String.ofList_injective

theorem dotParts_inj {name name' : String} : dotParts name = dotParts name' ↔ name = name' := by
  refine ⟨fun h => ?_, fun h => h ▸ rfl⟩
  have hjoined := congrArg (List.intercalate ['.']) (map_ofList_injective h)
  rw [List.intercalate_splitOn, List.intercalate_splitOn] at hjoined
  exact String.toList_injective hjoined

theorem beginsWith_dot_iff {head name : String} :
    beginsWith (head ++ ".") name = true ↔
      ∃ rest, rest ≠ [] ∧ dotParts name = dotParts head ++ rest := by
  have hdot : (head ++ ".").toList = head.toList ++ ['.'] := by simp
  rw [beginsWith, List.isPrefixOf_iff_prefix, hdot, concat_isPrefix_iff]
  constructor
  · rintro ⟨rest, hne, hrest⟩
    refine ⟨rest.map String.ofList, by simpa using hne, ?_⟩
    rw [dotParts, hrest, List.map_append]
    rfl
  · rintro ⟨rest, hne, hrest⟩
    refine ⟨rest.map String.toList, by simpa using hne, map_ofList_injective ?_⟩
    rw [List.map_append, List.map_map]
    simpa [dotParts] using hrest

/-- A name belongs to an identifier if it begins with the parts of it. -/
theorem dotParts_isPrefix_iff {identifier name : String} :
    dotParts identifier <+: dotParts name ↔
      name = identifier ∨ beginsWith (identifier ++ ".") name = true := by
  rw [← dotParts_inj, beginsWith_dot_iff]
  constructor
  · rintro ⟨rest, hrest⟩
    by_cases hne : rest = []
    · exact .inl (by rw [← hrest, hne, List.append_nil])
    · exact .inr ⟨rest, hne, hrest.symm⟩
  · rintro (h | ⟨rest, -, hrest⟩)
    · exact h ▸ List.prefix_rfl
    · exact ⟨rest, hrest.symm⟩

/-- There are at least two segments, and the first is the command root. -/
def Vocabulary.Rooted (v : Vocabulary) (segments : List String) : Prop :=
  2 ≤ segments.length ∧ segments.head? = some v.commandRoot

theorem Vocabulary.rooted_iff {v : Vocabulary} {segments : List String} :
    v.Rooted segments ↔ ∃ names, names ≠ [] ∧ segments = v.commandRoot :: names := by
  constructor
  · rintro ⟨hlength, hhead⟩
    obtain ⟨names, rfl⟩ := List.head?_eq_some_iff.mp hhead
    refine ⟨names, ?_, rfl⟩
    rintro rfl
    simp at hlength
  · rintro ⟨names, hne, rfl⟩
    have hlength := List.length_pos_of_ne_nil hne
    refine ⟨?_, rfl⟩
    rw [List.length_cons]
    omega

section

variable {segments : List String} (hne : segments ≠ []) (hplain : ∀ s ∈ segments, '.' ∉ s.toList)
include hne hplain

theorem inFamily_dotted_iff {identifiers : List String} :
    inFamily identifiers (dotted segments) = true ↔
      ∃ i ∈ identifiers, dotParts i <+: segments := by
  have hparts : ∀ i, dotParts i <+: segments ↔
      dotted segments = i ∨ beginsWith (i ++ ".") (dotted segments) = true := by
    intro i
    rw [← dotParts_isPrefix_iff, dotParts_dotted hne hplain]
  simp only [inFamily, List.any_eq_true, Bool.or_eq_true, beq_iff_eq, hparts]

theorem isCommand_dotted_iff {v : Vocabulary} (hroot : '.' ∉ v.commandRoot.toList) :
    v.isCommand (dotted segments) = true ↔ v.Rooted segments := by
  rw [Vocabulary.isCommand, Vocabulary.commandHead, beginsWith_dot_iff,
    dotParts_dotted hne hplain, dotParts_of_not_mem hroot, Vocabulary.rooted_iff]
  rfl

end

-- A longer word is no member of a family, and neither is a call of its own word.
example : ["item", "it()", "it().only"].any (inFamily ["it"]) = false := by decide

/-- What else keeps a call from being a usage: it calls no property, or some name on the way from
the root to the property is not called itself. -/
def Node.Unchained (call : Node) (segments : List String) : Prop :=
  (∀ callee ∈ call.callee?, callee.kind = .member → callee.child? .property = none) ∨
    ∃ s ∈ segments.tail.dropLast, endsWith callMarker s = false

/-- Where the segments begin at the root, that is all that can. -/
theorem Vocabulary.Rooted.unchained {src : Source} {v : Vocabulary} {room : Nat} {call : Node}
    {segments : List String} (hroot : v.Rooted segments)
    (h : (usage? src v room call segments).outcome = .ok none) : call.Unchained segments := by
  obtain ⟨names, hne, rfl⟩ := rooted_iff.mp hroot
  by_contra hchained
  simp only [Node.Unchained, not_or, not_forall, not_exists, not_and, List.tail_cons] at hchained
  obtain ⟨⟨callee, hcallee, hkind, hproperty⟩, hcalled⟩ := hchained
  obtain ⟨property, hproperty⟩ := Option.ne_none_iff_exists'.mp hproperty
  have hmarked : ∀ s ∈ names.dropLast, endsWith callMarker s = true := fun s hs =>
    Bool.not_eq_false _ ▸ hcalled s hs
  rw [← List.dropLast_concat_getLast hne] at h
  obtain ⟨_, _, _, _, _, _, _, _, hsome⟩ :=
    (usage?_of_guards hcallee hkind hmarked hproperty).mp h
  cases hsome

section

variable {src : Source} {v : Vocabulary} {call : Node} {segments : List String}
  (hsegments : src.segments? call = .ok (some segments))
  (hcommand : v.isCommand (dotted segments) = true)
include hsegments hcommand

theorem usage?_of_inspect_none {options : Options} {room : Room} {enclosing : List Node}
    (hname : dotted segments ≠ v.registrationPath) (hused : options.used = true)
    (h : (Context.inspect ⟨src, options, v, room⟩ ⟨call, enclosing⟩).outcome = .ok none) :
    (usage? src v room.file call segments).outcome = .ok none := by
  have hpart : src.callPart? v call = some (segments, .command) := by
    refine Source.callPart?_eq_some.mpr ⟨hsegments, ?_⟩
    rw [Vocabulary.part?, if_neg hname, if_pos hcommand]
  have hexamined := (Context.inspect_eq_ok.mp h).2
  simp only [hpart, Options.wants, hused, if_true, Context.examine, Traced.outcome_bind_eq_ok,
    Traced.outcome_pure, Except.ok.injEq, Option.map_eq_none_iff, exists_eq_right] at hexamined
  exact hexamined

theorem usage?_of_innerCallAt_none {room : Nat} {wanted : InnerChoice}
    (hwanted : wanted.commands = true)
    (h : (innerCallAt src v room wanted call).outcome = .ok none) :
    (usage? src v room call segments).outcome = .ok none := by
  rcases innerCallAt_eq_ok.mp h with ⟨hnone, -⟩ | ⟨names, hnames, hcases⟩
  · rw [hsegments] at hnone
    cases hnone
  · rw [hsegments] at hnames
    cases hnames
    simpa [hcommand, hwanted] using hcases

end

/-- Tests on a dotted name are tests on its segments, as long as these hold no dots. Then whatever
begins as commands do begins at the command root, so where an outline or the calls of a function
take up such a call and find no usage, it is for another reason. -/
theorem Vocabulary.tested_by_segments (v : Vocabulary) {segments : List String}
    (hne : segments ≠ []) (hplain : ∀ s ∈ segments, '.' ∉ s.toList) :
    (v.isTest (dotted segments) = true ↔ ∃ i ∈ v.tests, dotParts i <+: segments) ∧
    (v.isSuite (dotted segments) = true ↔ ∃ i ∈ v.suites, dotParts i <+: segments) ∧
    ('.' ∉ v.commandRoot.toList →
      (v.isCommand (dotted segments) = true ↔
        2 ≤ segments.length ∧ segments.head? = some v.commandRoot) ∧
      ∀ (src : Source) (call : Node), src.segments? call = .ok (some segments) →
        v.isCommand (dotted segments) = true →
        (∀ (options : Options) (room : Room) (enclosing : List Node),
          dotted segments ≠ v.registrationPath → options.used = true →
          (Context.inspect ⟨src, options, v, room⟩ ⟨call, enclosing⟩).outcome = .ok none →
          call.Unchained segments) ∧
        ∀ (room : Nat) (wanted : InnerChoice), wanted.commands = true →
          (innerCallAt src v room wanted call).outcome = .ok none → call.Unchained segments) := by
  refine ⟨inFamily_dotted_iff hne hplain, inFamily_dotted_iff hne hplain, fun hroot => ?_⟩
  have hrooted := isCommand_dotted_iff hne hplain hroot
  refine ⟨hrooted, fun src call hsegments hcommand => ⟨?_, ?_⟩⟩
  · intro options room enclosing hname hused hnone
    exact (hrooted.mp hcommand).unchained
      (usage?_of_inspect_none hsegments hcommand hname hused hnone)
  · intro room wanted hwanted hnone
    exact (hrooted.mp hcommand).unchained
      (usage?_of_innerCallAt_none hsegments hcommand hwanted hnone)

/-! The text `cy.a.b()`, which reads a property of the command root. -/
namespace Sample

def propertyRead : Node :=
  node none .callExpression 0 8
    [node (some .function) .memberExpression 0 6
      [node (some .object) .memberExpression 0 4
        [node (some .object) .identifier 0 2 [],
         node (some .property) .propertyIdentifier 3 4 []],
       node (some .property) .propertyIdentifier 5 6 []],
     node (some .arguments) .arguments 6 8 []]

def propertyReadSource : Source :=
  ⟨none, "cy.a.b()".toList.toArray, .same, node none (.other "program") 0 8 [propertyRead]⟩

/-- One identifier is the beginning of a word only, the other is dotted itself. -/
def dottedVocabulary : Vocabulary := { tests := ["c", "cy.a"], suites := ["cy.a()"] }

end Sample

/-- The name is of a test by two segments, of no suite, and of a command; but it is not called on
the way. -/
theorem Vocabulary.tested_by_segments_sample :
    Sample.dottedVocabulary.isTest "cy.a.b" = true ∧
      ¬Sample.dottedVocabulary.isSuite "cy.a.b" = true ∧
      Sample.dottedVocabulary.isCommand "cy.a.b" = true ∧
      Sample.propertyRead.Unchained ["cy", "a", "b"] := by
  obtain ⟨htest, hsuite, hcommand⟩ := Sample.dottedVocabulary.tested_by_segments
    (List.cons_ne_nil "cy" ["a", "b"]) (by decide)
  obtain ⟨hcommand, hguard⟩ := hcommand (by decide)
  have hname : dotted ["cy", "a", "b"] = "cy.a.b" := by decide
  rw [hname] at htest hsuite hcommand hguard
  have hselected : Sample.dottedVocabulary.isCommand "cy.a.b" = true :=
    hcommand.mpr ⟨by decide, rfl⟩
  refine ⟨htest.mpr ⟨"cy.a", by decide, by decide⟩, fun h => ?_, hselected, ?_⟩
  · obtain ⟨i, hi, hprefix⟩ := hsuite.mp h
    obtain rfl : i = "cy.a()" := List.mem_singleton.mp hi
    revert hprefix
    decide
  · obtain ⟨-, hread⟩ := hguard Sample.propertyReadSource Sample.propertyRead (by decide) hselected
    exact hread 0 {} rfl rfl

/-! Ignored folders. -/

/-- A folder is found among the parts of a path but the last, which names the file. -/
theorem occursIn_folder_iff (folder name : String) :
    occursIn ("/" ++ (folder ++ "/")).toList ("/" ++ name).toList = true ↔
      pathParts folder <:+: (pathParts name).dropLast := by
  have hfolder : ("/" ++ (folder ++ "/")).toList = '/' :: (folder.toList ++ ['/']) := by simp
  have hname : ("/" ++ name).toList = '/' :: name.toList := by simp
  rw [occursIn_iff_isInfix, hfolder, hname, separated_isInfix_iff, pathParts_eq_splitOn,
    pathParts_eq_splitOn, ← List.map_dropLast]
  refine ⟨fun h => h.map String.ofList, fun h => ?_⟩
  simpa using h.map String.toList

/-- What an archive holds below a folder is ignored if the folder goes by one of these names, be it
at the root or further down; of `cypress` only the videos are. -/
theorem isIgnored_iff_folder (name : String) :
    isIgnored name = true ↔
      (∃ folder ∈ (pathParts name).dropLast,
        folder ∈ ["node_modules", "dist", "build", "coverage", ".git"]) ∨
      ["cypress", "videos"] <:+: (pathParts name).dropLast := by
  have hfolders : ignoredFolders = (["node_modules", "dist", "build", "coverage", ".git"] ++
      ["cypress/videos"]).map (· ++ "/") := by
    decide
  have hword : ∀ word ∈ ["node_modules", "dist", "build", "coverage", ".git"],
      pathParts word = [word] := by
    decide
  have hvideos : pathParts "cypress/videos" = ["cypress", "videos"] := by decide
  rw [isIgnored, hfolders, List.any_map, List.any_eq_true]
  simp only [Function.comp_apply, occursIn_folder_iff]
  constructor
  · rintro ⟨folder, hfolder, hinfix⟩
    rcases List.mem_append.mp hfolder with hmem | hmem
    · rw [hword folder hmem, List.singleton_infix_iff] at hinfix
      exact .inl ⟨folder, hinfix, hmem⟩
    · rw [List.mem_singleton.mp hmem, hvideos] at hinfix
      exact .inr hinfix
  · rintro (⟨folder, hpart, hmem⟩ | hinfix)
    · refine ⟨folder, List.mem_append_left _ hmem, ?_⟩
      rwa [hword folder hmem, List.singleton_infix_iff]
    · refine ⟨"cypress/videos", List.mem_append_right _ (List.mem_singleton_self _), ?_⟩
      rwa [hvideos]

-- a name that only ends in an ignored word, a file of an ignored name, and a doubled slash
example : (["a/xdist/b.js", "a/dist", "cypress//videos/c.js"].any isIgnored) = false := by decide
example : (["/dist//a.js", "a/cypress/videos/"].all isIgnored) = true := by decide

end SuiteOutline
