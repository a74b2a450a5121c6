import SuiteOutline.Proofs.Offset
import SuiteOutline.Proofs.Sorting
import SuiteOutline.Proofs.Subtree
import SuiteOutline.Usage

/-! What command usages and other calls are read off from. -/
namespace SuiteOutline

variable {src : Source} {v : Vocabulary} {room : Nat}

theorem describeArguments_eq_ok {args : List Node} {arguments : List Argument} :
    describeArguments src args = .ok arguments ↔
      List.Forall₂ (fun arg a => a.kind = arg.kindName ∧ src.spanOf arg = .ok a.span)
        args arguments := by
  have hone : ∀ (arg : Node) (a : Argument), describeArgument src arg = .ok a ↔
      a.kind = arg.kindName ∧ src.spanOf arg = .ok a.span := by
    intro arg a
    simp only [describeArgument, bind_eq_ok, pure_eq_ok]
    constructor
    · rintro ⟨span, hspan, rfl⟩
      exact ⟨rfl, hspan⟩
    · rintro ⟨hkind, hspan⟩
      exact ⟨a.span, hspan, by rw [← hkind]⟩
  simp only [describeArguments, mapM_eq_ok, hone]

/-- A call that passes the guards makes a usage if its place and its arguments can be read. -/
theorem usage?_of_guards {call callee property : Node} {names : List String} {name : String}
    {found : Option CommandUsage} (hcallee : call.callee? = some callee)
    (hkind : callee.kind = .member) (hnames : ∀ s ∈ names, endsWith callMarker s = true)
    (hproperty : callee.child? .property = some property) :
    (usage? src v room call (v.commandRoot :: (names ++ [name]))).outcome = .ok found ↔
      ∃ start, src.startOf property = .ok start ∧ ∃ stop, src.stopOf call = .ok stop ∧
        ∃ arguments, describeArguments src call.callArguments = .ok arguments ∧
        ∃ literals, literalArguments src room 0 call.callArguments = .ok literals ∧
          some ⟨name, ⟨start, stop⟩, arguments, literals, names.map stripMarker⟩ = found := by
  obtain ⟨first, more, hmore⟩ := List.exists_cons_of_ne_nil (l := names ++ [name]) (by simp)
  have hdrop : (first :: more).dropLast = names := by rw [← hmore, List.dropLast_concat]
  have hlast : (first :: more).getLast (by simp) = name := by
    simp only [← hmore, List.getLast_append_singleton]
  have hall : names.all (endsWith callMarker) = true := List.all_eq_true.mpr hnames
  simp only [usage?, hmore, hcallee, hkind, hdrop, hall, hproperty, hlast, ne_eq,
    not_true_eq_false, decide_false, Bool.or_self, Bool.false_eq_true, if_false, Bool.not_true,
    Traced.outcome_bind_eq_ok, Traced.outcome_liftM, Traced.outcome_pure, Except.ok.injEq]

/-- A call makes a usage if every name between the command root and the last one is called itself,
and the callee is a property. -/
theorem usage?_eq_some {call : Node} {segments : List String} {u : CommandUsage} :
    (usage? src v room call segments).outcome = .ok (some u) ↔
      ∃ names callee property, segments = v.commandRoot :: (names ++ [u.name]) ∧
        call.callee? = some callee ∧ callee.kind = .member ∧
        (∀ s ∈ names, endsWith callMarker s = true) ∧
        callee.child? .property = some property ∧
        src.startOf property = .ok u.span.start ∧ src.stopOf call = .ok u.span.stop ∧
        describeArguments src call.callArguments = .ok u.arguments ∧
        literalArguments src room 0 call.callArguments = .ok u.literals ∧
        u.chain = names.map stripMarker := by
  constructor
  · intro h
    unfold usage? at h
    split at h
    case h_1 root name more callee hcallee =>
      by_cases hroot : root = v.commandRoot ∧ callee.kind = .member
      case neg =>
        rw [if_pos (by
          rw [Bool.or_eq_true, decide_eq_true_eq, decide_eq_true_eq]
          exact not_and_or.mp hroot)] at h
        cases h
      rw [if_neg (by simp [hroot])] at h
      by_cases hchain : (name :: more).dropLast.all (endsWith callMarker) = true
      case neg =>
        rw [if_pos (by simpa using hchain)] at h
        simp only [Traced.outcome_bind_eq_ok] at h
        obtain ⟨_, _, _, _, h⟩ := h
        cases h
      rw [if_neg (by simpa using hchain)] at h
      cases hproperty : callee.child? .property with
      | none =>
        rw [hproperty] at h
        cases h
      | some property =>
        simp only [hproperty, Traced.outcome_bind_eq_ok, Traced.outcome_liftM, Traced.outcome_pure,
          Except.ok.injEq, Option.some.injEq] at h
        obtain ⟨start, hstart, stop, hstop, arguments, harguments, literals, hliterals, rfl⟩ := h
        refine ⟨(name :: more).dropLast, callee, property, ?_, hcallee, hroot.2, ?_, hproperty,
          hstart, hstop, harguments, hliterals, rfl⟩
        · rw [List.dropLast_append_getLast, hroot.1]
        · exact List.all_eq_true.mp hchain
    case h_2 => cases h
  · rintro ⟨names, callee, property, rfl, hcallee, hkind, hnames, hproperty, hstart, hstop,
      harguments, hliterals, hchain⟩
    refine (usage?_of_guards hcallee hkind hnames hproperty).mpr
      ⟨_, hstart, _, hstop, _, harguments, _, hliterals, ?_⟩
    rw [← hchain]

theorem otherCall_eq_ok {call : Node} {name : String} {o : OtherCall} :
    otherCall src call name = .ok o ↔
      o.name = name ∧ src.startOf (call.anchor?.getD call) = .ok o.span.start ∧
        src.spanOf call = .ok ⟨o.rootStart, o.span.stop⟩ ∧
        describeArguments src call.callArguments = .ok o.arguments := by
  unfold otherCall
  simp only [bind_eq_ok, pure_eq_ok]
  constructor
  · rintro ⟨start, hstart, place, hplace, arguments, harguments, rfl⟩
    exact ⟨rfl, hstart, hplace, harguments⟩
  · rintro ⟨rfl, hstart, hplace, harguments⟩
    exact ⟨_, hstart, _, hplace, _, harguments, rfl⟩

namespace Source

/-- The call uses a command, as the usage says; its arguments are read with that room. -/
def Uses (src : Source) (v : Vocabulary) (room : Nat) (call : Node) (u : CommandUsage) : Prop :=
  ∃ segments, src.segments? call = .ok (some segments) ∧ v.isCommand (dotted segments) = true ∧
    (usage? src v room call segments).outcome = .ok (some u)

/-- The call has a name that does not begin as commands do. -/
def CallsOther (src : Source) (v : Vocabulary) (call : Node) (name : String) : Prop :=
  src.dotted? call = .ok (some name) ∧ v.isCommand name = false

theorem dotted?_eq_ok {call : Node} {name : Option String} :
    src.dotted? call = .ok name ↔
      ∃ segments, src.segments? call = .ok segments ∧ segments.map dotted = name := by
  simp only [dotted?, bind_eq_ok, pure_eq_ok]

theorem isCall_of_segments? {call : Node} {segments : List String}
    (h : src.segments? call = .ok (some segments)) : call.isCall = true := by
  simp only [segments?, bind_eq_ok, pure_eq_ok] at h
  obtain ⟨names, -, h⟩ := h
  split at h
  case isTrue hcomplete =>
    by_contra hcall
    simp [Node.calleeDescent, hcall] at hcomplete
  case isFalse => cases h

theorem isCall_of_dotted? {call : Node} {name : String} (h : src.dotted? call = .ok (some name)) :
    call.isCall = true := by
  obtain ⟨segments, hs, hname⟩ := dotted?_eq_ok.mp h
  obtain ⟨names, rfl, -⟩ := Option.map_eq_some_iff.mp hname
  exact isCall_of_segments? hs

theorem Uses.isCall {call : Node} {u : CommandUsage} (h : src.Uses v room call u) :
    call.isCall = true := by
  obtain ⟨_, hs, -, -⟩ := h
  exact isCall_of_segments? hs

end Source

theorem Node.isCall_iff {n : Node} :
    n.isCall = true ↔ n.symbol = .callExpression ∧
      ∃ list, n.child? .arguments = some list ∧ list.symbol = .arguments := by
  simp [Node.isCall, Option.any_eq_true]

/-- The wanted call that a node makes. -/
theorem innerCallAt_eq_ok {wanted : InnerChoice} {n : Node} {found : Option InnerCall} :
    (innerCallAt src v room wanted n).outcome = .ok found ↔
      (src.segments? n = .ok none ∧ none = found) ∨
      ∃ segments, src.segments? n = .ok (some segments) ∧
        ((v.isCommand (dotted segments) = true ∧ wanted.commands = true ∧
            ∃ u, (usage? src v room n segments).outcome = .ok u ∧ u.map .command = found) ∨
          (v.isCommand (dotted segments) = true ∧ wanted.commands = false ∧ none = found) ∨
          (v.isCommand (dotted segments) = false ∧ wanted.others = true ∧
            ∃ o, otherCall src n (dotted segments) = .ok o ∧ some (.other o) = found) ∨
          (v.isCommand (dotted segments) = false ∧ wanted.others = false ∧ none = found)) := by
  simp only [innerCallAt, Traced.outcome_bind_eq_ok, Traced.outcome_liftM]
  constructor
  · rintro ⟨segments, hs, h⟩
    cases segments with
    | none => exact .inl ⟨hs, Except.ok.inj h⟩
    | some segments =>
      refine .inr ⟨segments, hs, ?_⟩
      cases hcommand : v.isCommand (dotted segments) <;> cases hc : wanted.commands <;>
        cases ho : wanted.others <;>
        simpa [hcommand, hc, ho] using h
  · rintro (⟨hs, rfl⟩ | ⟨segments, hs, h⟩)
    · exact ⟨none, hs, rfl⟩
    · refine ⟨some segments, hs, ?_⟩
      cases hcommand : v.isCommand (dotted segments) <;> cases hc : wanted.commands <;>
        cases ho : wanted.others <;>
        simpa [hcommand, hc, ho] using h

theorem innerCallAt_command {wanted : InnerChoice} {n : Node} {u : CommandUsage}
    (h : (innerCallAt src v room wanted n).outcome = .ok (some (.command u))) :
    src.Uses v room n u := by
  rcases innerCallAt_eq_ok.mp h with ⟨-, h⟩ | ⟨segments, hs, h⟩
  · cases h
  rcases h with ⟨hcommand, -, u', hu, he⟩ | ⟨-, -, he⟩ | ⟨-, -, o, -, he⟩ | ⟨-, -, he⟩
  · obtain ⟨_, rfl, he⟩ := Option.map_eq_some_iff.mp he
    cases he
    exact ⟨segments, hs, hcommand, hu⟩
  all_goals cases he

theorem innerCallAt_other {wanted : InnerChoice} {n : Node} {o : OtherCall}
    (h : (innerCallAt src v room wanted n).outcome = .ok (some (.other o))) :
    ∃ name, src.CallsOther v n name ∧ otherCall src n name = .ok o := by
  rcases innerCallAt_eq_ok.mp h with ⟨-, h⟩ | ⟨segments, hs, h⟩
  · cases h
  rcases h with ⟨-, -, u, -, he⟩ | ⟨-, -, he⟩ | ⟨hother, -, o', ho, he⟩ | ⟨-, -, he⟩
  · obtain ⟨_, -, he⟩ := Option.map_eq_some_iff.mp he
    cases he
  · cases he
  · cases he
    exact ⟨_, ⟨Source.dotted?_eq_ok.mpr ⟨_, hs, rfl⟩, hother⟩, ho⟩
  · cases he

theorem innerCalls_eq_ok {wanted : InnerChoice} {f : Node} {calls : InnerCalls} :
    (innerCalls src v room wanted f).outcome = .ok calls ↔
      ∃ found, (Traced.collect (innerCallAt src v room wanted) f.walk).outcome = .ok found ∧
        calls = ⟨byPosition (·.span) (found.filterMap (·.command?)),
          byPosition (·.span) (found.filterMap (·.other?))⟩ := by
  simp only [innerCalls, Traced.outcome_bind_eq_ok, Traced.outcome_pure, Except.ok.injEq]
  exact exists_congr fun found => and_congr_right fun _ => eq_comm

theorem InnerCall.command?_eq_some {i : InnerCall} {u : CommandUsage} :
    i.command? = some u ↔ i = .command u := by
  cases i <;> simp [command?]

theorem InnerCall.other?_eq_some {i : InnerCall} {o : OtherCall} :
    i.other? = some o ↔ i = .other o := by
  cases i <;> simp [other?]

theorem uses_of_mem_commands {wanted : InnerChoice} {f : Node} {calls : InnerCalls}
    (h : (innerCalls src v room wanted f).outcome = .ok calls) {u : CommandUsage}
    (hu : u ∈ calls.commands) : ∃ n ∈ f.walk, src.Uses v room n u := by
  obtain ⟨found, hfound, rfl⟩ := innerCalls_eq_ok.mp h
  obtain ⟨i, hi, hiu⟩ := List.mem_filterMap.mp (mem_byPosition.mp hu)
  obtain ⟨n, hn, hat⟩ := (Traced.mem_collect hfound).mp hi
  rw [InnerCall.command?_eq_some.mp hiu] at hat
  exact ⟨n, hn, innerCallAt_command hat⟩

theorem calls_of_mem_others {wanted : InnerChoice} {f : Node} {calls : InnerCalls}
    (h : (innerCalls src v room wanted f).outcome = .ok calls) {o : OtherCall}
    (ho : o ∈ calls.others) :
    ∃ n ∈ f.walk, ∃ name, src.CallsOther v n name ∧ otherCall src n name = .ok o := by
  obtain ⟨found, hfound, rfl⟩ := innerCalls_eq_ok.mp h
  obtain ⟨i, hi, hio⟩ := List.mem_filterMap.mp (mem_byPosition.mp ho)
  obtain ⟨n, hn, hat⟩ := (Traced.mem_collect hfound).mp hi
  rw [InnerCall.other?_eq_some.mp hio] at hat
  exact ⟨n, hn, innerCallAt_other hat⟩

theorem innerCalls?_eq_some {asked : Bool} {f : Node} {calls : InnerCalls}
    (h : (innerCalls? src v room asked f).outcome = .ok (some calls)) :
    (innerCalls src v room {} f).outcome = .ok calls := by
  unfold innerCalls? at h
  split at h
  · simpa using h
  · cases h

end SuiteOutline
