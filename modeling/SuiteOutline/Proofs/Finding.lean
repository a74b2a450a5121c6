import SuiteOutline.Outline.Basic
import SuiteOutline.Proofs.Calls

/-! What a visited call can add to an outline, and what it is read off from. -/
namespace SuiteOutline

namespace Source

variable {src : Source} {v : Vocabulary}

theorem frame_eq_ok {call : Node} {name : String} {f : Frame} :
    src.frame v call name = .ok f ↔
      src.scopeName call = .ok f.name ∧ f.isTest = v.isTest name ∧ f.focus = .ofName name ∧
        src.spanOf call = .ok f.span := by
  simp only [frame, bind_eq_ok, pure_eq_ok]
  constructor
  · rintro ⟨shown, hshown, span, hspan, rfl⟩
    exact ⟨hshown, rfl, rfl, hspan⟩
  · rintro ⟨hshown, htest, hfocus, hspan⟩
    exact ⟨_, hshown, _, hspan, by rw [← htest, ← hfocus]⟩

/-- The node is a call of a name that the predicate holds of. -/
def goesBy (src : Source) (included : String → Bool) (n : Node) : Bool :=
  match src.dotted? n with
  | .ok (some name) => included name
  | _ => false

theorem goesBy_iff {included : String → Bool} {n : Node} :
    src.goesBy included n = true ↔
      ∃ name, src.dotted? n = .ok (some name) ∧ included name = true := by
  unfold goesBy
  split
  case h_1 name hname => simp [hname]
  case h_2 hnone =>
    constructor
    · intro h
      cases h
    · intro ⟨name, hname, _⟩
      exact absurd hname (hnone name)

/-- The frames are those of the nodes that go by such a name, one each and in the same order. -/
theorem forall₂_of_scope {included : String → Bool} {ns : List Node} {frames : List Frame}
    (h : src.scope v included ns = .ok frames) :
    List.Forall₂ (fun n f => ∃ name,
      src.dotted? n = .ok (some name) ∧ included name = true ∧ src.frame v n name = .ok f)
      (ns.filter (src.goesBy included)) frames := by
  induction ns generalizing frames with
  | nil =>
    cases h
    exact .nil
  | cons n ns ih =>
    simp only [scope, bind_eq_ok] at h
    obtain ⟨found, hfound, h⟩ := h
    split at h
    case h_1 hfilter =>
      have hother : ¬ src.goesBy included n = true := by
        intro hn
        obtain ⟨name, hname, hincluded⟩ := goesBy_iff.mp hn
        cases hfound.symm.trans hname
        simp [Option.filter, hincluded] at hfilter
      rw [List.filter_cons_of_neg hother]
      exact ih h
    case h_2 name hfilter =>
      obtain ⟨rfl, hincluded⟩ := Option.filter_eq_some_iff.mp hfilter
      simp only [bind_eq_ok, pure_eq_ok] at h
      obtain ⟨f, hf, fs, hfs, rfl⟩ := h
      rw [List.filter_cons_of_pos (goesBy_iff.mpr ⟨name, hfound, hincluded⟩)]
      exact .cons ⟨name, hfound, hincluded, hf⟩ (ih hfs)

end Source

namespace Finding

theorem definition?_eq_some {f : Finding} {d : CommandDefinition} :
    f.definition? = some d ↔ f = .definition d := by
  cases f <;> simp [definition?]

theorem usage?_eq_some {f : Finding} {u : CommandUsage} : f.usage? = some u ↔ f = .usage u := by
  cases f <;> simp [usage?]

theorem test?_eq_some {f : Finding} {t : TestCase} : f.test? = some t ↔ f = .test t := by
  cases f <;> simp [test?]

theorem hookOf?_eq_some {kind : String} {f : Finding} {h : Hook} :
    f.hookOf? kind = some h ↔ f = .hook kind h := by
  cases f <;> simp [hookOf?]

theorem problem?_eq_some {f : Finding} {d : Diagnostic} : f.problem? = some d ↔ f = .problem d := by
  cases f <;> simp [problem?]

end Finding

theorem given_eq_some {α : Type} {asked : Bool} {a b : α} :
    given asked a = some b ↔ asked = true ∧ a = b := by
  simp [given]

theorem given_congr {α : Type} {asked : Bool} {a b : α} (h : asked = true → a = b) :
    given asked a = given asked b := by
  cases asked with
  | false => rfl
  | true => rw [h rfl]

theorem map_given {α β : Type} (f : α → β) (asked : Bool) (a : α) :
    (given asked a).map f = given asked (f a) := by
  cases asked <;> rfl

theorem isSome_given {α : Type} (asked : Bool) (a : α) : (given asked a).isSome = asked := by
  cases asked <;> rfl

/-- What a call can be to an outline. -/
inductive Part where
  | registration | command | test | hook
deriving DecidableEq

/-- What a call of that name is. -/
def Vocabulary.part? (v : Vocabulary) (name : String) : Option Part :=
  if name = v.registrationPath then some .registration
  else if v.isCommand name then some .command
  else if v.isTest name then some .test
  else if v.isHook name then some .hook
  else none

/-- The name by which a call of that part goes. -/
theorem Vocabulary.part?_eq_some {v : Vocabulary} {name : String} {part : Part}
    (h : v.part? name = some part) :
    match part with
    | .registration => name = v.registrationPath
    | .command => v.isCommand name = true
    | .test => v.isTest name = true
    | .hook => v.isHook name = true := by
  unfold part? at h
  split at h
  · cases h
    assumption
  split at h
  · cases h
    assumption
  split at h
  · cases h
    assumption
  split at h
  · cases h
    assumption
  · cases h

theorem Vocabulary.part?_of_isCommand {v : Vocabulary} {name : String}
    (hr : v.isCommand v.registrationPath = false) (h : v.isCommand name = true) :
    v.part? name = some .command := by
  have hname : name ≠ v.registrationPath := by
    rintro rfl
    rw [h] at hr
    cases hr
  simp [part?, hname, h]

/-- The segments of a call and what it is. -/
def Source.callPart? (src : Source) (v : Vocabulary) (n : Node) : Option (List String × Part) :=
  match src.segments? n with
  | .ok (some segments) => (v.part? (dotted segments)).map (segments, ·)
  | _ => none

theorem Source.callPart?_eq_some {src : Source} {v : Vocabulary} {n : Node}
    {segments : List String} {part : Part} :
    src.callPart? v n = some (segments, part) ↔
      src.segments? n = .ok (some segments) ∧ v.part? (dotted segments) = some part := by
  unfold callPart?
  split
  case h_1 s hs =>
    rw [hs, Option.map_eq_some_iff]
    constructor
    · rintro ⟨part, hpart, he⟩
      cases he
      exact ⟨rfl, hpart⟩
    · rintro ⟨he, hpart⟩
      cases he
      exact ⟨part, hpart, rfl⟩
  case h_2 hs =>
    constructor
    · intro h
      cases h
    · rintro ⟨h, -⟩
      exact absurd h (hs segments)

def Options.wants (options : Options) : Part → Bool
  | .registration => options.added
  | .command => options.used
  | .test => options.tests
  | .hook => options.hooks

namespace Context

/-- What a call adds as that part, whether or not it is asked for. -/
def examine (c : Context) (part : Part) (visit : Visit) (segments : List String) :
    Traced (Option Finding) :=
  match part with
  | .registration => c.definition visit.node
  | .command => do
    return (← SuiteOutline.usage? c.source c.vocabulary c.room.file visit.node segments).map .usage
  | .test => c.test visit.node (dotted segments) visit.ancestors
  | .hook => c.hook visit.node (dotted segments) visit.ancestors

variable {c : Context}

/-- What a visit finds. The nodes are the call itself and its arguments. -/
inductive Finds (c : Context) (visit : Visit) : Finding → Prop
  | definition {d : CommandDefinition} {f : Node}
      (hname : c.source.dotted? visit.node = .ok (some c.vocabulary.registrationPath))
      (hf : visit.node.callArguments.getLast? = some f) (hfunction : f.isFunction = true)
      (hspan : c.source.spanOf visit.node = .ok d.span)
      (hinner : (c.inner c.room.inner f.unwrap).outcome = .ok d.inner) :
      Finds c visit (.definition d)
  | usage {u : CommandUsage} (huses : c.source.Uses c.vocabulary c.room.file visit.node u) :
      Finds c visit (.usage u)
  | test {t : TestCase} {name : String} {title f : Node} {rest : List Node} {around : List Frame}
      {own : Frame} (hname : c.source.dotted? visit.node = .ok (some name))
      (htest : c.vocabulary.isTest name = true)
      (hargs : visit.node.callArguments = title :: f :: rest) (hfunction : f.isFunction = true)
      (haround : c.source.scope c.vocabulary c.vocabulary.isTestOrSuite visit.ancestors = .ok around)
      (hown : c.source.frame c.vocabulary visit.node name = .ok own)
      (hscope : t.scope = around ++ [own]) (hspan : t.span = own.span)
      (hbody : c.source.spanOf f.unwrap = .ok t.body)
      (hinner : (c.inner c.room.inner f.unwrap).outcome = .ok t.inner) : Finds c visit (.test t)
  | hook {h : Hook} {name : String} {f : Node}
      (hname : c.source.dotted? visit.node = .ok (some name))
      (hhook : c.vocabulary.isHook name = true)
      (hargs : visit.node.callArguments = [f]) (hfunction : f.isFunction = true)
      (hscope : c.source.scope c.vocabulary c.vocabulary.isTestOrSuite visit.ancestors =
        .ok h.scope)
      (hspan : c.source.spanOf visit.node = .ok h.span)
      (hbody : c.source.spanOf f.unwrap = .ok h.body)
      (hinner : (c.inner c.room.inner f.unwrap).outcome = .ok h.inner) :
      Finds c visit (.hook name h)
  | problem {d : Diagnostic} {n : Node}
      (hn : n = visit.node ∨ n ∈ visit.node.callArguments)
      (hlocation : c.source.startOf n = .ok d.location) : Finds c visit (.problem d)

theorem problemAt_eq_ok {message : Text} {n : Node} {d : Diagnostic}
    (h : c.problemAt message n = .ok d) :
    d.message = message ∧ c.source.startOf n = .ok d.location ∧ d.severity = .error := by
  simp only [problemAt, bind_eq_ok, pure_eq_ok] at h
  obtain ⟨location, hlocation, rfl⟩ := h
  exact ⟨rfl, hlocation, rfl⟩

theorem problem_eq_ok {message : String} {n : Node} {f : Option Finding}
    (h : (c.problem message n).outcome = .ok f) :
    ∃ d, f = some (.problem d) ∧ c.source.startOf n = .ok d.location ∧
      d.message = Text.ofString message ∧ d.severity = .error := by
  simp only [problem, Traced.outcome_bind_eq_ok, Traced.outcome_liftM, Traced.outcome_pure,
    Except.ok.injEq] at h
  obtain ⟨d, hd, rfl⟩ := h
  obtain ⟨hmessage, hlocation, hseverity⟩ := problemAt_eq_ok hd
  exact ⟨d, rfl, hlocation, hmessage, hseverity⟩

theorem finds_of_definition {visit : Visit} {found : Finding}
    (hname : c.source.dotted? visit.node = .ok (some c.vocabulary.registrationPath))
    (h : (c.definition visit.node).outcome = .ok (some found)) : c.Finds visit found := by
  simp only [definition] at h
  split at h
  case h_1 first last hfirst hlast =>
    have hmem : last ∈ visit.node.callArguments := List.mem_of_getLast? hlast
    split at h
    · simp at h
    split at h
    · obtain ⟨d, hd, hlocation, -⟩ := problem_eq_ok h
      cases hd
      exact .problem (.inr hmem) hlocation
    case isFalse hfunction =>
      simp only [Traced.outcome_bind_eq_ok, Traced.outcome_liftM, Traced.outcome_pure,
        Except.ok.injEq, Option.some.injEq] at h
      obtain ⟨name, -, span, hspan, inner, hinner, rfl⟩ := h
      simp only [Bool.or_eq_true, Bool.not_eq_true', not_or, Bool.not_eq_false] at hfunction
      exact .definition hname hlast hfunction.2 hspan hinner
  case h_2 => simp at h

theorem finds_of_test {visit : Visit} {name : String} {found : Finding}
    (hname : c.source.dotted? visit.node = .ok (some name))
    (htest : c.vocabulary.isTest name = true)
    (h : (c.test visit.node name visit.ancestors).outcome = .ok (some found)) :
    c.Finds visit found := by
  simp only [test] at h
  split at h
  case h_1 title f rest hargs =>
    split at h
    · obtain ⟨d, hd, hlocation, -⟩ := problem_eq_ok h
      cases hd
      exact .problem (.inr (by simp [hargs])) hlocation
    case isFalse hfunction =>
      simp only [Traced.outcome_bind_eq_ok, Traced.outcome_liftM, Traced.outcome_pure,
        Except.ok.injEq, Option.some.injEq] at h
      obtain ⟨around, haround, own, hown, body, hbody, inner, hinner, rfl⟩ := h
      exact .test hname htest hargs (by simpa using hfunction) haround hown rfl rfl hbody hinner
  case h_2 =>
    obtain ⟨d, hd, hlocation, -⟩ := problem_eq_ok h
    cases hd
    exact .problem (.inl rfl) hlocation

theorem finds_of_hook {visit : Visit} {name : String} {found : Finding}
    (hname : c.source.dotted? visit.node = .ok (some name))
    (hhook : c.vocabulary.isHook name = true)
    (h : (c.hook visit.node name visit.ancestors).outcome = .ok (some found)) :
    c.Finds visit found := by
  simp only [hook] at h
  split at h
  case h_1 f hargs =>
    split at h
    · simp at h
    case isFalse hfunction =>
      simp only [Traced.outcome_bind_eq_ok, Traced.outcome_liftM] at h
      obtain ⟨inTest, -, h⟩ := h
      split at h
      · simp at h
      · simp only [Traced.outcome_bind_eq_ok, Traced.outcome_liftM, Traced.outcome_pure,
          Except.ok.injEq, Option.some.injEq] at h
        obtain ⟨scope, hscope, span, hspan, body, hbody, inner, hinner, rfl⟩ := h
        exact .hook hname hhook hargs (by simpa using hfunction) hscope hspan hbody hinner
  case h_2 => simp at h

/-- What a visit adds, by what the call is. -/
theorem inspect_eq_ok {visit : Visit} {found : Option Finding} :
    (c.inspect visit).outcome = .ok found ↔
      (∃ segments, c.source.segments? visit.node = .ok segments) ∧
        match c.source.callPart? c.vocabulary visit.node with
        | none => none = found
        | some (segments, part) =>
          if c.options.wants part then (c.examine part visit segments).outcome = .ok found
          else none = found := by
  simp only [inspect, Source.callPart?, Traced.outcome_bind_eq_ok, Traced.outcome_liftM]
  cases c.source.segments? visit.node with
  | error e => simp
  | ok segments =>
    cases segments with
    | none => simp
    | some s =>
      simp only [Except.ok.injEq, exists_eq_left', Vocabulary.part?]
      split
      · cases hw : c.options.added <;> simp [Options.wants, examine, hw]
      split
      · cases hw : c.options.used <;> simp [Options.wants, examine, hw]
      split
      · cases hw : c.options.tests <;> simp [Options.wants, examine, hw]
      split
      · cases hw : c.options.hooks <;> simp [Options.wants, examine, hw]
      · simp

/-- What a call adds as the part that it is. -/
theorem finds_of_examine {visit : Visit} {segments : List String} {part : Part} {found : Finding}
    (hpart : c.source.callPart? c.vocabulary visit.node = some (segments, part))
    (h : (c.examine part visit segments).outcome = .ok (some found)) : c.Finds visit found := by
  obtain ⟨hs, hpart⟩ := Source.callPart?_eq_some.mp hpart
  have hname : c.source.dotted? visit.node = .ok (some (dotted segments)) :=
    Source.dotted?_eq_ok.mpr ⟨_, hs, rfl⟩
  have hkind := Vocabulary.part?_eq_some hpart
  cases part with
  | registration => exact finds_of_definition (hkind ▸ hname) h
  | command =>
    simp only [examine, Traced.outcome_bind_eq_ok, Traced.outcome_pure, Except.ok.injEq] at h
    obtain ⟨u, hu, he⟩ := h
    obtain ⟨u, rfl, rfl⟩ := Option.map_eq_some_iff.mp he
    exact .usage ⟨segments, hs, hkind, hu⟩
  | test => exact finds_of_test hname hkind h
  | hook => exact finds_of_hook hname hkind h

theorem finds_of_inspect {visit : Visit} {found : Finding}
    (h : (c.inspect visit).outcome = .ok (some found)) : c.Finds visit found := by
  obtain ⟨-, h⟩ := inspect_eq_ok.mp h
  split at h
  case h_1 => cases h
  case h_2 segments part hpart =>
    split at h
    case isTrue => exact finds_of_examine hpart h
    case isFalse => cases h

end Context
end SuiteOutline
