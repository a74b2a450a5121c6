import SuiteOutline.Proofs.Spans
import SuiteOutline.Proofs.UsageText

/-! Records of calls start at their own name: the node that names a call is the last link of the chain
that its callee is, and records start there. -/
namespace SuiteOutline

/-! The name of a call. -/

/-- The way to the name of a chain ends at its last link. -/
theorem Node.Chained.nameNode?_eq {n : Node} {ls : List Link} {l : Link} (h : n.Chained ls l) :
    n.nameNode? = some l.name := by
  induction h with
  | name h => rcases h with h | h <;> rw [Node.nameNode?_eq, h]
  | parens h hc _ ih =>
    rw [Node.nameNode?_eq, h]
    simp [hc, ih]
  | member h hp =>
    rw [Node.nameNode?_eq, h]
    exact (Node.property?_eq_some hp).1
  | call h hc _ ih =>
    rw [Node.nameNode?_eq, (Node.isCall_iff.mp h).1]
    simp [h, hc, ih]

/-- Parentheses around a property access do not hide its property. -/
theorem Node.nameNode?_of_member {n : Node} (h : n.unwrap.symbol = .memberExpression) :
    n.nameNode? = n.unwrap.child? .property := by
  induction n using childrenInduction with
  | node n ih =>
    by_cases hparens : n.symbol = .parenthesizedExpression
    · cases hc : n.members.head? with
      | none =>
        rw [unwrap_of_none hparens hc, hparens] at h
        cases h
      | some c =>
        have hmem := mem_members (List.mem_of_mem_head? hc)
        rw [unwrap_of_head? hparens hc] at h ⊢
        rw [nameNode?_eq, hparens, ← ih c (mem_children_of_mem_namedChildren hmem) h]
        simp [hc]
    · rw [unwrap_of_ne hparens] at h ⊢
      rw [nameNode?_eq, h]

namespace Source

variable {src : Source} {v : Vocabulary}

/-- A call that has segments has a name, and the last segment is its text with call markers. -/
theorem anchor?_of_segments? {call : Node} {segments : List String}
    (h : src.segments? call = .ok (some segments)) :
    ∃ anchor front text calls, call.anchor? = some anchor ∧ call.Reaches anchor ∧
      anchor.isName = true ∧ src.textOf anchor = .ok text ∧
      segments = front ++ [marked text calls] := by
  obtain ⟨-, callee, ls, l, hcallee, hchained, htexts⟩ := segments?_eq_some.mp h
  obtain ⟨hreaches, hname⟩ := hchained.reaches_last
  rcases List.eq_nil_or_concat segments with rfl | ⟨front, last, rfl⟩
  · have hlength := htexts.length_eq
    simp at hlength
  · rw [List.concat_eq_append, forall₂_concat_iff] at htexts
    obtain ⟨text, htext, rfl⟩ := Link.text_eq_ok.mp htexts.2
    refine ⟨l.name, front, text, l.calls, ?_, (Node.reaches_child? hcallee).trans hreaches, hname,
      htext, List.concat_eq_append⟩
    rw [Node.anchor?, hcallee]
    exact hchained.nameNode?_eq

/-- What a node covers stands where it starts. -/
theorem isPrefix_of_textOf {n : Node} {text : String} {start : Nat}
    (htext : src.textOf n = .ok text) (hstart : src.startOf n = .ok start) :
    text.toList <+: src.text.toList.drop start := by
  simp only [textOf, charsOf, bind_eq_ok, pure_eq_ok] at htext
  obtain ⟨_, ⟨span, hspan, rfl⟩, rfl⟩ := htext
  obtain rfl : span.start = start := Except.ok.inj ((spanOf_eq_ok.mp hspan).1.symm.trans hstart)
  rw [String.toList_ofList]
  exact slice_isPrefix _ _

end Source

/-! Call markers. -/

theorem marked_add (name : String) (m n : Nat) :
    marked name (m + n) = marked (marked name m) n := by
  induction n with
  | zero => rw [marked_zero, Nat.add_zero]
  | succ n ih => rw [← Nat.add_assoc, marked_succ, marked_succ, ih]

/-- From every segment the call markers at its end can be taken. -/
theorem exists_unmarked (segment : String) : ∃ name, Unmarked name segment := by
  induction hlength : segment.toList.length using Nat.strongRecOn generalizing segment with
  | _ length ih =>
    by_cases hmarked : endsWith callMarker segment = true
    · have hstrip := stripMarker_append_callMarker hmarked
      have hshort : (stripMarker segment).toList.length < length := by
        rw [← hlength, ← hstrip, String.toList_append, List.length_append, hstrip]
        have hmarker : callMarker.toList.length = 2 := by decide
        omega
      obtain ⟨name, hplain, calls, hcalls⟩ := ih _ hshort _ rfl
      refine ⟨name, hplain, calls + 1, ?_⟩
      rw [marked_succ, ← hcalls, hstrip]
    · exact ⟨segment, by simpa using hmarked, 0, (marked_zero segment).symm⟩

theorem Unmarked.isPrefix {name segment : String} (h : Unmarked name segment) :
    name.toList <+: segment.toList := by
  obtain ⟨-, calls, rfl⟩ := h
  rw [marked, String.toList_append]
  exact List.prefix_append _ _

theorem Unmarked.marked {name segment : String} (h : Unmarked name segment) (calls : Nat) :
    Unmarked name (marked segment calls) := by
  obtain ⟨hplain, m, rfl⟩ := h
  exact ⟨hplain, m + calls, (marked_add name m calls).symm⟩

theorem not_mem_marked {text : String} (h : '.' ∉ text.toList) (calls : Nat) :
    '.' ∉ (marked text calls).toList := by
  induction calls with
  | zero => rwa [marked_zero]
  | succ calls ih =>
    rw [marked_succ]
    exact not_mem_append_callMarker ih

/-! The last segment of a dotted name. -/

/-- What stands behind the last dot of a name. -/
def lastSegment (name : String) : String := String.ofList ((name.toList.splitOn '.').getLastD [])

theorem dotted_concat {front : List String} (hne : front ≠ []) (last : String) :
    dotted (front ++ [last]) = dotted front ++ "." ++ last := by
  induction front with
  | nil => exact absurd rfl hne
  | cons segment front ih =>
    cases front with
    | nil => rw [dotted_singleton, List.singleton_append, dotted_cons _ (by simp), dotted_singleton]
    | cons next more =>
      rw [List.cons_append, dotted_cons _ (by simp), ih (by simp), dotted_cons segment (by simp)]
      simp only [String.append_assoc]

theorem lastSegment_dotted (front : List String) {last : String} (h : '.' ∉ last.toList) :
    lastSegment (dotted (front ++ [last])) = last := by
  have hlast : last.toList.splitOn '.' = [last.toList] := List.splitOn_eq_singleton h
  unfold lastSegment
  cases front with
  | nil => rw [List.nil_append, dotted_singleton, hlast]; exact String.ofList_toList
  | cons segment front =>
    have hdot : ".".toList = ['.'] := by decide
    rw [dotted_concat (by simp), String.toList_append, String.toList_append, hdot,
      List.append_assoc, List.singleton_append, List.splitOn_append_cons_self, hlast,
      List.getLastD_concat]
    exact String.ofList_toList

/-! Records of single calls. -/

/-- Names are words of the grammar, and these hold no dots. -/
def Source.NamesUndotted (src : Source) : Prop :=
  ∀ n ∈ src.root.nodes, n.isName = true → ∀ text ∈ (src.textOf n).toOption, '.' ∉ text.toList

instance (src : Source) : Decidable src.NamesUndotted :=
  inferInstanceAs (Decidable (∀ n ∈ src.root.nodes, n.isName = true →
    ∀ text ∈ (src.textOf n).toOption, '.' ∉ text.toList))

/-- The text at the start of the usage begins with its name. -/
def CommandUsage.StartsAtName (src : Source) (u : CommandUsage) : Prop :=
  u.name.toList <+: src.text.toList.drop u.span.start

/-- The text at the start of the record begins with the last segment of its call, less the call
markers at its end. Where names hold no dots this segment stands behind the last dot of the record's
name. -/
def OtherCall.StartsAtName (src : Source) (o : OtherCall) : Prop :=
  ∃ call ∈ src.root.nodes, ∃ front last name, src.segments? call = .ok (some (front ++ [last])) ∧
    o.name = dotted (front ++ [last]) ∧ (src.NamesUndotted → lastSegment o.name = last) ∧
    Unmarked name last ∧ name.toList <+: src.text.toList.drop o.span.start

namespace Source

variable {src : Source} {v : Vocabulary} {room : Nat}

/-- The property that a usage is read off is the name of its call. -/
theorem Uses.exists_anchor? {call : Node} {u : CommandUsage} (h : src.Uses v room call u) :
    ∃ anchor, call.anchor? = some anchor ∧ src.textOf anchor = .ok u.name ∧
      src.startOf anchor = .ok u.span.start := by
  obtain ⟨callee, _, property, _, _, _, hcallee, hmember, -, hproperty, -, -, -, -, htext,
    hstart⟩ := h.object
  refine ⟨property, ?_, htext, hstart⟩
  rw [Node.anchor?, hcallee, Option.bind_some, Node.nameNode?_of_member hmember]
  exact (Node.property?_eq_some hproperty).1

theorem Uses.startsAtName {call : Node} {u : CommandUsage} (h : src.Uses v room call u) :
    u.StartsAtName src := by
  obtain ⟨anchor, -, htext, hstart⟩ := h.exists_anchor?
  exact isPrefix_of_textOf htext hstart

theorem CallsOther.startsAtName {call : Node} {name : String} {o : OtherCall}
    (hname : src.CallsOther v call name) (ho : otherCall src call name = .ok o)
    (hcall : call ∈ src.root.nodes) : o.StartsAtName src := by
  obtain ⟨found, hfound, hdotted⟩ := dotted?_eq_ok.mp hname.1
  obtain ⟨segments, rfl, rfl⟩ := Option.map_eq_some_iff.mp hdotted
  obtain ⟨anchor, front, text, calls, hanchor, hreaches, hisName, htext, rfl⟩ :=
    anchor?_of_segments? hfound
  obtain ⟨hdotted, hstart, -, -⟩ := otherCall_eq_ok.mp ho
  rw [hanchor, Option.getD_some] at hstart
  -- a name is not supposed to end with a marker, but if it does, that one is taken off too
  obtain ⟨bare, hbare⟩ := exists_unmarked text
  refine ⟨call, hcall, front, marked text calls, bare, hfound, hdotted, fun hundotted => ?_,
    hbare.marked calls, hbare.isPrefix.trans (isPrefix_of_textOf htext hstart)⟩
  have hplain : '.' ∉ text.toList :=
    hundotted anchor (hreaches.mem_nodes_of_mem hcall) hisName text (by rw [htext]; rfl)
  rw [hdotted, lastSegment_dotted front (not_mem_marked hplain calls)]

end Source

/-! Records of an outline. -/

/-- The calls found in the functions of all records. -/
def Outline.inners (o : Outline) : List InnerCalls :=
  (o.added.getD []).filterMap (·.inner) ++ (o.tests.getD []).filterMap (·.inner) ++
    ((o.hooks.getD []).flatMap (·.2)).filterMap (·.inner) ++
    ((o.scenarios.getD []).flatMap (·.functions)).filterMap (·.inner)

/-- All usages of commands that are recorded anywhere. -/
def Outline.usages (o : Outline) : List CommandUsage :=
  o.used.getD [] ++ o.inners.flatMap (·.commands)

def Outline.otherCalls (o : Outline) : List OtherCall := o.inners.flatMap (·.others)

/-- The calls are those found in a function of the source. -/
def InnerCalls.FoundIn (src : Source) (v : Vocabulary) (calls : InnerCalls) : Prop :=
  ∃ f ∈ src.root.nodes, ∃ room wanted, (innerCalls src v room wanted f).outcome = .ok calls

/-- The calls found in the function of a finding. -/
def Finding.inner? : Finding → Option InnerCalls
  | definition d => d.inner
  | test t => t.inner
  | hook _ h => h.inner
  | usage _ | problem _ => none

theorem exists_of_mem_getD {α : Type} {part : Option (List α)} {a : α} (h : a ∈ part.getD []) :
    ∃ as, part = some as ∧ a ∈ as := by
  cases part with
  | none => cases h
  | some as => exact ⟨as, rfl, h⟩

theorem Outline.mem_inners_ofFindings {options : Options} {v : Vocabulary} {findings : List Finding}
    {calls : InnerCalls} (h : calls ∈ (Outline.ofFindings options v findings).inners) :
    ∃ f ∈ findings, f.inner? = some calls := by
  simp only [inners, List.mem_append, List.mem_filterMap, List.mem_flatMap] at h
  rcases h with ((⟨d, hd, hcalls⟩ | ⟨t, ht, hcalls⟩) | ⟨k, ⟨kind, hkind, hk⟩, hcalls⟩) |
    ⟨f, ⟨s, hs, -⟩, -⟩
  · obtain ⟨ds, hds, hd⟩ := exists_of_mem_getD hd
    obtain ⟨f, hf, hfd⟩ := exists_of_mem_given hds hd
    obtain rfl := Finding.definition?_eq_some.mp hfd
    exact ⟨_, hf, hcalls⟩
  · obtain ⟨ts, hts, ht⟩ := exists_of_mem_getD ht
    obtain ⟨f, hf, hft⟩ := exists_of_mem_given hts ht
    obtain rfl := Finding.test?_eq_some.mp hft
    exact ⟨_, hf, hcalls⟩
  · obtain ⟨kinds, hkinds, hkind⟩ := exists_of_mem_getD hkind
    obtain ⟨-, rfl⟩ := given_eq_some.mp hkinds
    obtain ⟨name, -, rfl⟩ := List.mem_map.mp hkind
    obtain ⟨f, hf, hfk⟩ := List.mem_filterMap.mp (mem_byPosition.mp hk)
    obtain rfl := Finding.hookOf?_eq_some.mp hfk
    exact ⟨_, hf, hcalls⟩
  · cases hs

namespace Context

variable {c : Context} {visit : Visit}

theorem foundIn_of_inner {n : Node} (hn : c.source.root.Reaches n) {room : Nat}
    {inner : Option InnerCalls} (h : (c.inner room n).outcome = .ok inner) {calls : InnerCalls}
    (hcalls : inner = some calls) : calls.FoundIn c.source c.vocabulary := by
  rw [hcalls] at h
  exact ⟨n, hn.mem_nodes, room, {}, innerCalls?_eq_some h⟩

theorem Finds.foundIn {f : Finding} (hf : c.Finds visit f) (hvisit : visit ∈ c.source.root.visits)
    {calls : InnerCalls} (hcalls : f.inner? = some calls) :
    calls.FoundIn c.source c.vocabulary := by
  have hnode := Node.reaches_of_mem_visits hvisit
  have hfunction : ∀ f ∈ visit.node.callArguments, c.source.root.Reaches f.unwrap := fun f hf =>
    hnode.trans ((Node.reaches_callArguments hf).trans f.reaches_unwrap)
  cases hf with
  | definition _ hf _ _ hinner =>
    exact foundIn_of_inner (hfunction _ (List.mem_of_getLast? hf)) hinner hcalls
  | usage => cases hcalls
  | test _ _ hargs _ _ _ _ _ _ hinner =>
    exact foundIn_of_inner (hfunction _ (by simp [hargs])) hinner hcalls
  | hook _ _ hargs _ _ _ _ hinner =>
    exact foundIn_of_inner (hfunction _ (by simp [hargs])) hinner hcalls
  | problem => cases hcalls

theorem FindsScenario.foundIn {s : Scenario} (hs : c.FindsScenario visit (.scenario s))
    (hvisit : visit ∈ c.source.root.visits) {f : ScenarioFunction} (hf : f ∈ s.functions)
    {calls : InnerCalls} (hcalls : f.inner = some calls) :
    calls.FoundIn c.source c.vocabulary := by
  have hnode := Node.reaches_of_mem_visits hvisit
  obtain ⟨member, n, hreaches, hn, -, -, hinner⟩ := hs.function hf
  exact foundIn_of_inner (hnode.trans (hreaches.trans hn.reaches)) hinner hcalls

/-- The calls that an outline holds are found in functions of its source. -/
theorem foundIn_of_outline {o : Outline} (ho : c.outline.outcome = .ok o) {calls : InnerCalls}
    (hcalls : calls ∈ o.inners) : calls.FoundIn c.source c.vocabulary := by
  obtain ⟨findings, hfindings, ho⟩ := outline_eq_ok.mp ho
  have hbase : calls ∈ (Outline.ofFindings c.options c.vocabulary findings).inners →
      calls.FoundIn c.source c.vocabulary := by
    intro h
    obtain ⟨f, hf, hinner⟩ := Outline.mem_inners_ofFindings h
    obtain ⟨visit, hvisit, hinspect⟩ := (Traced.mem_collect hfindings).mp hf
    exact (finds_of_inspect hinspect).foundIn hvisit hinner
  rcases ho with ⟨-, rfl⟩ | ⟨-, more, hmore, rfl⟩
  · exact hbase hcalls
  · -- the second walk adds scenarios and leaves the other parts as they are
    rcases List.mem_append.mp hcalls with h | h
    · exact hbase (List.mem_append_left _ h)
    · obtain ⟨f, hf, hinner⟩ := List.mem_filterMap.mp h
      obtain ⟨s, hs, hf⟩ := List.mem_flatMap.mp hf
      obtain ⟨found, hfound, hscenario⟩ := List.mem_filterMap.mp hs
      obtain rfl := ScenarioFinding.scenario?_eq_some.mp hscenario
      obtain ⟨visit, hvisit, list, hlist, hmem⟩ := (Traced.mem_gather hmore).mp hfound
      exact (findsScenario_of_inspectScenario hlist hmem).foundIn hvisit hf hinner

theorem uses_of_mem_used {o : Outline} (ho : c.outline.outcome = .ok o) {u : CommandUsage}
    (hu : u ∈ o.used.getD []) : ∃ n, c.source.Uses c.vocabulary c.room.file n u := by
  obtain ⟨findings, hfindings, ho⟩ := outline_eq_ok.mp ho
  have hused : o.used = (Outline.ofFindings c.options c.vocabulary findings).used := by
    rcases ho with ⟨-, rfl⟩ | ⟨-, more, -, rfl⟩ <;> rfl
  obtain ⟨us, hus, hu⟩ := exists_of_mem_getD hu
  obtain ⟨f, hf, hfu⟩ := exists_of_mem_given (hused ▸ hus) hu
  obtain ⟨visit, -, hinspect⟩ := (Traced.mem_collect hfindings).mp hf
  rw [Finding.usage?_eq_some.mp hfu] at hinspect
  cases finds_of_inspect hinspect with
  | usage huses => exact ⟨_, huses⟩

end Context

theorem InnerCalls.FoundIn.startsAtName {src : Source} {v : Vocabulary} {calls : InnerCalls}
    (h : calls.FoundIn src v) :
    (∀ u ∈ calls.commands, u.StartsAtName src) ∧ ∀ r ∈ calls.others, r.StartsAtName src := by
  obtain ⟨f, hf, room, wanted, hcalls⟩ := h
  refine ⟨fun u hu => ?_, fun r hr => ?_⟩
  · obtain ⟨n, -, huses⟩ := uses_of_mem_commands hcalls hu
    exact huses.startsAtName
  · obtain ⟨n, hn, name, hname, hr⟩ := calls_of_mem_others hcalls hr
    exact hname.startsAtName hr ((Node.reaches_of_mem_walk hn).mem_nodes_of_mem hf)

/-- Records start at their own name. A call that has segments has a node that names it, and this
node's text with some call markers is the last segment; a usage starts there and has that text for its
name. So the text at the start of each usage begins with its name, and the text at the start of any
other call with the last segment of its name less the call markers at its end. -/
theorem records_start_at_names (src : Source) (v : Vocabulary) :
    (∀ call segments, src.segments? call = .ok (some segments) →
      ∃ anchor text calls, call.anchor? = some anchor ∧ src.textOf anchor = .ok text ∧
        segments.getLast? = some (marked text calls)) ∧
    (∀ room call u, src.Uses v room call u → ∃ anchor, call.anchor? = some anchor ∧
      src.textOf anchor = .ok u.name ∧ src.startOf anchor = .ok u.span.start) ∧
    (∀ f ∈ src.root.nodes, ∀ room wanted calls,
      (innerCalls src v room wanted f).outcome = .ok calls →
      (∀ u ∈ calls.commands, u.StartsAtName src) ∧ ∀ r ∈ calls.others, r.StartsAtName src) ∧
    ∀ options room o, (Context.outline ⟨src, options, v, room⟩).outcome = .ok o →
      (∀ u ∈ o.usages, u.StartsAtName src) ∧ ∀ r ∈ o.otherCalls, r.StartsAtName src := by
  refine ⟨fun call segments hsegments => ?_, fun room call u huses => huses.exists_anchor?,
    fun f hf room wanted calls hcalls =>
      InnerCalls.FoundIn.startsAtName ⟨f, hf, room, wanted, hcalls⟩,
    fun options room o ho => ⟨fun u hu => ?_, fun r hr => ?_⟩⟩
  · obtain ⟨anchor, front, text, calls, hanchor, -, -, htext, rfl⟩ :=
      Source.anchor?_of_segments? hsegments
    exact ⟨anchor, text, calls, hanchor, htext, List.getLast?_concat⟩
  · rcases List.mem_append.mp hu with hu | hu
    · obtain ⟨n, huses⟩ := Context.uses_of_mem_used ho hu
      exact huses.startsAtName
    · obtain ⟨calls, hcalls, hu⟩ := List.mem_flatMap.mp hu
      exact (Context.foundIn_of_outline ho hcalls).startsAtName.1 u hu
  · obtain ⟨calls, hcalls, hr⟩ := List.mem_flatMap.mp hr
    exact (Context.foundIn_of_outline ho hcalls).startsAtName.2 r hr

/-! The text `it('é', () => (x.f)()(cy.get()))`. -/
namespace Sample

def returnedText : List Char := "it('é', () => (x.f)()(cy.get()))".toList

/-- The call `(x.f)()`. -/
def parenthesizedCall : Node :=
  node (some .function) .callExpression 15 22
    [node (some .function) .parenthesizedExpression 15 20
      [node none .memberExpression 16 19
        [node (some .object) .identifier 16 17 [],
         node (some .property) .propertyIdentifier 18 19 []]],
     node (some .arguments) .arguments 20 22 []]

/-- The call of what that call returns. -/
def returnedCall : Node :=
  node (some .body) .callExpression 15 32
    [parenthesizedCall,
     node (some .arguments) .arguments 22 32
      [node none .callExpression 23 31
        [node (some .function) .memberExpression 23 29
          [node (some .object) .identifier 23 25 [],
           node (some .property) .propertyIdentifier 26 29 []],
         node (some .arguments) .arguments 29 31 []]]]

def returnedTree : Node :=
  node none (.other "program") 0 33
    [node none .expressionStatement 0 33
      [node none .callExpression 0 33
        [node (some .function) .identifier 0 2 [],
         node (some .arguments) .arguments 2 33
          [node none .string 3 7 [node none (.other "string_fragment") 4 6 []],
           node none .arrowFunction 9 32
            [node none (.other "formal_parameters") 9 11 [], returnedCall]]]]]

def returnedSource : Source := ⟨none, returnedText.toArray, .ofText returnedText, returnedTree⟩

end Sample

/-- Both other calls start at `f`, though the one is in parentheses and the other has its arguments
further on; the usage is recorded twice, once for the test. -/
theorem records_start_at_names_sample :
    Sample.returnedSource.NamesUndotted ∧
      Sample.returnedSource.segments? Sample.returnedCall = .ok (some ["x", "f()"]) ∧
      (∃ anchor text calls, Sample.returnedCall.anchor? = some anchor ∧
        Sample.returnedSource.textOf anchor = .ok text ∧ some "f()" = some (marked text calls)) ∧
      ∃ o, (Context.outline ⟨Sample.returnedSource, {}, {}, .worker⟩).outcome = .ok o ∧
        o.usages.map (fun u => (u.name, u.span.start)) = [("get", 25), ("get", 25)] ∧
        o.otherCalls.map (fun r => (r.name, r.span.start)) = [("x.f", 17), ("x.f()", 17)] ∧
        (∀ u ∈ o.usages, u.StartsAtName Sample.returnedSource) ∧
        ∀ r ∈ o.otherCalls, r.StartsAtName Sample.returnedSource := by
  have hsegments : Sample.returnedSource.segments? Sample.returnedCall =
      .ok (some ["x", "f()"]) := by
    decide
  have hcheck : (Context.outline ⟨Sample.returnedSource, {}, {}, .worker⟩).outcome.toOption.any
      (fun o =>
        decide (o.usages.map (fun u => (u.name, u.span.start)) = [("get", 25), ("get", 25)]) &&
        decide (o.otherCalls.map (fun r => (r.name, r.span.start)) =
          [("x.f", 17), ("x.f()", 17)])) = true := by
    decide
  obtain ⟨o, ho, hparts⟩ := exists_ok_of_any hcheck
  rw [Bool.and_eq_true, decide_eq_true_eq, decide_eq_true_eq] at hparts
  obtain ⟨hnamed, -, -, hrecords⟩ := records_start_at_names Sample.returnedSource {}
  obtain ⟨husages, hothers⟩ := hrecords {} .worker o ho
  exact ⟨by decide, hsegments, hnamed _ _ hsegments, o, ho, hparts.1, hparts.2, husages, hothers⟩

end SuiteOutline
