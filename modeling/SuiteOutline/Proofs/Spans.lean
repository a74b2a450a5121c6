import SuiteOutline.Proofs.Scenario
import SuiteOutline.Proofs.WellFormed

/-! The spans of an outline lie in the text and in each other as the records say. -/
namespace SuiteOutline

/-- A span that is not empty, in a text of so many characters. -/
def Span.Fits (size : Nat) (s : Span) : Prop := s.start < s.stop ∧ s.stop ≤ size

/-- Arguments lie in their call, one after the other. -/
structure ArgumentsIn (call : Span) (arguments : List Argument) : Prop where
  filled : ∀ a ∈ arguments, a.span.start < a.span.stop
  inside : ∀ a ∈ arguments, a.span.Inside call
  ordered : arguments.Pairwise fun a b => a.span.stop ≤ b.span.start

/-- The usage is that of a call of the tree, which lies in the region and holds the arguments. -/
def CommandUsage.LiesIn (src : Source) (v : Vocabulary) (room : Nat) (region : Span)
    (u : CommandUsage) : Prop :=
  u.span.Fits src.text.size ∧
    ∃ call place, src.root.Reaches call ∧ src.Uses v room call u ∧ src.spanOf call = .ok place ∧
      place.Inside region ∧ u.span.Inside place ∧ ArgumentsIn place u.arguments

/-- The span of the whole call. -/
def OtherCall.place (o : OtherCall) : Span := ⟨o.rootStart, o.span.stop⟩

structure OtherCall.LiesIn (src : Source) (region : Span) (o : OtherCall) : Prop where
  fits : o.span.Fits src.text.size
  root : o.rootStart ≤ o.span.start
  inside : o.place.Inside region
  arguments : ArgumentsIn o.place o.arguments

structure InnerCalls.LieIn (src : Source) (v : Vocabulary) (room : Nat) (region : Span)
    (calls : InnerCalls) : Prop where
  commands : ∀ u ∈ calls.commands, u.LiesIn src v room region
  others : ∀ o ∈ calls.others, o.LiesIn src region

/-- The frames of a scope lie in each other, the outermost first, and all around the record. -/
structure ScopeAround (src : Source) (record : Span) (scope : List Frame) : Prop where
  fits : ∀ f ∈ scope, f.span.Fits src.text.size
  around : ∀ f ∈ scope, record.Inside f.span
  nested : scope.Pairwise fun outer inner => inner.span.Inside outer.span

/-- A record with a function, which lies in it and holds the calls found there. -/
structure FunctionIn (src : Source) (v : Vocabulary) (room : Nat) (span body : Span)
    (inner : Option InnerCalls) : Prop where
  fits : span.Fits src.text.size
  filled : body.start < body.stop
  inside : body.Inside span
  inner : ∀ calls ∈ inner, calls.LieIn src v room body

structure CommandDefinition.SpansSound (src : Source) (v : Vocabulary) (room : Nat)
    (d : CommandDefinition) : Prop where
  fits : d.span.Fits src.text.size
  inner : ∀ calls ∈ d.inner, calls.LieIn src v room d.span

structure TestCase.SpansSound (src : Source) (v : Vocabulary) (room : Nat) (t : TestCase) :
    Prop where
  function : FunctionIn src v room t.span t.body t.inner
  scope : ScopeAround src t.span t.scope

structure Hook.SpansSound (src : Source) (v : Vocabulary) (room : Nat) (h : Hook) : Prop where
  function : FunctionIn src v room h.span h.body h.inner
  scope : ScopeAround src h.span h.scope

structure Scenario.SpansSound (src : Source) (v : Vocabulary) (room : Nat) (s : Scenario) :
    Prop where
  fits : s.span.Fits src.text.size
  scope : ScopeAround src s.span s.scope
  functions : ∀ f ∈ s.functions,
    FunctionIn src v room f.span f.body f.inner ∧ f.span.Inside s.span

structure Outline.SpansSound (src : Source) (v : Vocabulary) (room : Room) (o : Outline) :
    Prop where
  added : ∀ ds ∈ o.added, ∀ d ∈ ds, d.SpansSound src v room.inner
  used : ∀ us ∈ o.used, ∀ u ∈ us, u.LiesIn src v room.file ⟨0, src.text.size⟩
  tests : ∀ ts ∈ o.tests, ∀ t ∈ ts, t.SpansSound src v room.inner
  hooks : ∀ kinds ∈ o.hooks, ∀ kind ∈ kinds, ∀ h ∈ kind.2, h.SpansSound src v room.inner
  scenarios : ∀ ss ∈ o.scenarios, ∀ s ∈ ss, s.SpansSound src v room.scenario
  errors : ∀ d ∈ o.errors, d.location ≤ src.text.size

theorem CommandUsage.LiesIn.mono {src : Source} {v : Vocabulary} {room : Nat} {u : CommandUsage}
    {region wider : Span} (h : u.LiesIn src v room region) (hr : region.Inside wider) :
    u.LiesIn src v room wider := by
  obtain ⟨hfits, call, place, hcall, huses, hplace, hinside, hspan, harguments⟩ := h
  exact ⟨hfits, call, place, hcall, huses, hplace, hinside.trans hr, hspan, harguments⟩

/-- A record may be the innermost frame of its own scope. -/
theorem ScopeAround.append_own {src : Source} {scope : List Frame} {own : Frame}
    (h : ScopeAround src own.span scope) (hown : own.span.Fits src.text.size) :
    ScopeAround src own.span (scope ++ [own]) := by
  refine ⟨?_, ?_, List.pairwise_append.mpr ⟨h.nested, List.pairwise_singleton _ _, ?_⟩⟩
  · simpa [or_imp, forall_and] using ⟨h.fits, hown⟩
  · simpa [or_imp, forall_and] using ⟨h.around, Span.Inside.refl own.span⟩
  · intro f hf g hg
    obtain rfl := List.mem_singleton.mp hg
    exact h.around f hf

namespace Source.WellFormed

variable {src : Source} {v : Vocabulary} {room : Nat} {n m : Node}

theorem fits (hw : src.WellFormed) (hn : src.root.Reaches n) (hlt : n.start < n.stop) {span : Span}
    (hspan : src.spanOf n = .ok span) : span.Fits src.text.size := by
  rw [spanOf_eq_ok] at hspan
  exact ⟨hw.start_lt_stop hn (.refl n) hlt hspan.1 hspan.2, hw.stopOf_le_size hn hspan.2⟩

theorem fits_of_isCall (hw : src.WellFormed) (hn : src.root.Reaches n) (hcall : n.isCall = true)
    {span : Span} (hspan : src.spanOf n = .ok span) : span.Fits src.text.size :=
  hw.fits hn (hw.tree.filled_of_isCall hn.mem_nodes hcall) hspan

theorem spanOf_ok (hw : src.WellFormed) (hn : src.root.Reaches n) :
    ∃ span, src.spanOf n = .ok span := by
  obtain ⟨hstart, hstop, -⟩ := hw.tree.boundary n hn.mem_nodes
  obtain ⟨start, -, hstart⟩ := hw.indexed.offset_ok hstart
  obtain ⟨stop, -, hstop⟩ := hw.indexed.offset_ok hstop
  exact ⟨⟨start, stop⟩, spanOf_eq_ok.mpr ⟨hstart, hstop⟩⟩

/-- An argument is named, so that it is not empty. -/
theorem filled_of_argument (hw : src.WellFormed) (hn : src.root.Reaches n)
    (hm : m ∈ n.callArguments) : m.start < m.stop := by
  obtain ⟨list, hlist, hm⟩ := Node.mem_callArguments hm
  have hreaches := hn.trans (Node.reaches_child? hlist)
  have hlt := hw.tree.filled_of_child? hn.mem_nodes hlist
  exact hw.tree.filled_of_reaches hreaches.mem_nodes (Node.reaches_of_mem_members hm) hlt

theorem argumentsIn (hw : src.WellFormed) (hn : src.root.Reaches n) {place : Span}
    (hplace : src.spanOf n = .ok place) {arguments : List Argument}
    (h : describeArguments src n.callArguments = .ok arguments) : ArgumentsIn place arguments := by
  rw [describeArguments_eq_ok] at h
  have hreaches : ∀ arg ∈ n.callArguments, n.Reaches arg := fun _ => Node.reaches_callArguments
  refine ⟨fun a ha => ?_, fun a ha => ?_, ?_⟩
  · obtain ⟨arg, harg, -, hspan⟩ := exists_of_forall₂ h ha
    exact (hw.fits (hn.trans (hreaches arg harg)) (hw.filled_of_argument hn harg) hspan).1
  · obtain ⟨arg, harg, -, hspan⟩ := exists_of_forall₂ h ha
    exact hw.inside hn (hreaches arg harg) hplace hspan
  · have hordered : n.callArguments.Pairwise fun a b => a.stop ≤ b.start := by
      rcases n.callArguments_eq with he | ⟨list, hlist, he⟩
      · rw [he]
        exact .nil
      · rw [he]
        exact (hw.tree.ordered list (hn.trans (Node.reaches_child? hlist)).mem_nodes).filter _
    refine pairwise_of_forall₂ h hordered fun a ha b hb _ _ hra hrb hab => ?_
    exact hw.stopOf_le_startOf (hn.trans (hreaches a ha)).mem_nodes
      (hn.trans (hreaches b hb)).mem_nodes hab (spanOf_eq_ok.mp hra.2).2 (spanOf_eq_ok.mp hrb.2).1

/-- A usage runs from the property that is called to the end of the call. -/
theorem usage_liesIn (hw : src.WellFormed) (hn : src.root.Reaches n) (hm : n.Reaches m)
    {region : Span} (hregion : src.spanOf n = .ok region) {u : CommandUsage}
    (hu : src.Uses v room m u) : u.LiesIn src v room region := by
  have hroot := hn.trans hm
  have ⟨segments, _, _, h⟩ := hu
  obtain ⟨names, callee, property, -, hcallee, -, -, hproperty, hstart, hstop, harguments, -⟩ :=
    usage?_eq_some.mp h
  have hreaches : m.Reaches property :=
    (Node.reaches_callee? hcallee).trans (Node.reaches_child? hproperty)
  have hfilled : property.start < property.stop :=
    hw.tree.filled_of_child? (hroot.trans (Node.reaches_callee? hcallee)).mem_nodes hproperty
  obtain ⟨place, hplace⟩ := hw.spanOf_ok hroot
  obtain ⟨hplaceStart, hplaceStop⟩ := spanOf_eq_ok.mp hplace
  have hend : u.span.stop = place.stop := Except.ok.inj (hstop.symm.trans hplaceStop)
  refine ⟨⟨hw.start_lt_stop hroot hreaches hfilled hstart hstop, hw.stopOf_le_size hroot hstop⟩,
    m, place, hroot, hu, hplace, hw.inside hn hm hregion hplace,
    ⟨hw.startOf_le hroot hreaches hplaceStart hstart, hend.le⟩,
    hw.argumentsIn hroot hplace harguments⟩

/-- Any other call runs from the name that is called, or else from its own start. -/
theorem other_liesIn (hw : src.WellFormed) (hn : src.root.Reaches n) (hm : n.Reaches m)
    {region : Span} (hregion : src.spanOf n = .ok region) {name : String} {o : OtherCall}
    (hname : src.CallsOther v m name) (ho : otherCall src m name = .ok o) :
    o.LiesIn src region := by
  have hroot := hn.trans hm
  obtain ⟨-, hstart, hplace, harguments⟩ := otherCall_eq_ok.mp ho
  have hcall := hw.tree.filled_of_isCall hroot.mem_nodes (isCall_of_dotted? hname.1)
  obtain ⟨hplaceStart, hplaceStop⟩ := spanOf_eq_ok.mp hplace
  have hanchor : m.Reaches (m.anchor?.getD m) ∧
      (m.anchor?.getD m).start < (m.anchor?.getD m).stop := by
    cases ha : m.anchor? with
    | none => exact ⟨.refl m, hcall⟩
    | some anchor =>
      obtain ⟨c, hc, hreaches⟩ := Node.reaches_anchor? ha
      have hchild := Node.reaches_child? hc
      exact ⟨hchild.trans hreaches, hw.tree.filled_of_reaches (hroot.trans hchild).mem_nodes
        hreaches (hw.tree.filled_of_child? hroot.mem_nodes hc)⟩
  exact ⟨⟨hw.start_lt_stop hroot hanchor.1 hanchor.2 hstart hplaceStop,
      hw.stopOf_le_size hroot hplaceStop⟩,
    hw.startOf_le hroot hanchor.1 hplaceStart hstart, hw.inside hn hm hregion hplace,
    hw.argumentsIn hroot hplace harguments⟩

theorem innerCalls_lieIn (hw : src.WellFormed) (hn : src.root.Reaches n) (hm : n.Reaches m)
    {region : Span} (hregion : src.spanOf n = .ok region) {asked : Bool} {calls : InnerCalls}
    (h : (innerCalls? src v room asked m).outcome = .ok (some calls)) :
    calls.LieIn src v room region := by
  have h := innerCalls?_eq_some h
  refine ⟨fun u hu => ?_, fun o ho => ?_⟩
  · obtain ⟨call, hcall, huses⟩ := uses_of_mem_commands h hu
    exact hw.usage_liesIn hn (hm.trans (Node.reaches_of_mem_walk hcall)) hregion huses
  · obtain ⟨call, hcall, name, hname, ho⟩ := calls_of_mem_others h ho
    exact hw.other_liesIn hn (hm.trans (Node.reaches_of_mem_walk hcall)) hregion hname ho

/-- The nodes around a visited one that make frames lie around it as the frames do. -/
theorem scopeAround (hw : src.WellFormed) {visit : Visit} (hvisit : visit ∈ src.root.visits)
    {included : String → Bool} {scope : List Frame}
    (h : src.scope v included visit.ancestors = .ok scope) {record : Span}
    (hrecord : src.spanOf visit.node = .ok record) : ScopeAround src record scope := by
  have hframes := Source.forall₂_of_scope h
  have hsub : (visit.ancestors.filter (src.goesBy included)).Sublist visit.ancestors :=
    List.filter_sublist
  generalize visit.ancestors.filter (src.goesBy included) = calls at hframes hsub
  have hmem : ∀ call ∈ calls, call ∈ visit.enclosing := fun call hcall =>
    List.mem_reverse.mp (hsub.subset hcall)
  have hroot : ∀ call ∈ calls, src.root.Reaches call := fun call hcall =>
    Node.reaches_of_mem_walk (Node.mem_walk_of_mem_enclosing hvisit (hmem call hcall))
  obtain ⟨haround, hnested⟩ := List.pairwise_cons.mp (Node.pairwise_enclosing hvisit)
  refine ⟨fun f hf => ?_, fun f hf => ?_, ?_⟩
  · obtain ⟨call, hcall, name, hname, -, hframe⟩ := exists_of_forall₂ hframes hf
    exact hw.fits_of_isCall (hroot call hcall) (isCall_of_dotted? hname)
      (frame_eq_ok.mp hframe).2.2.2
  · obtain ⟨call, hcall, name, -, -, hframe⟩ := exists_of_forall₂ hframes hf
    exact hw.inside (hroot call hcall)
      (Node.reaches_of_mem_walk (haround call (hmem call hcall))) (frame_eq_ok.mp hframe).2.2.2
      hrecord
  · have hcalls : calls.Pairwise fun outer inner => inner ∈ outer.walk :=
      (List.pairwise_reverse.mpr hnested).sublist hsub
    refine pairwise_of_forall₂ hframes hcalls fun a ha b _ f g hf hg hab => ?_
    obtain ⟨_, -, -, hf⟩ := hf
    obtain ⟨_, -, -, hg⟩ := hg
    exact hw.inside (hroot a ha) (Node.reaches_of_mem_walk hab) (frame_eq_ok.mp hf).2.2.2
      (frame_eq_ok.mp hg).2.2.2

/-- A record of a node with a function below it. -/
theorem functionIn (hw : src.WellFormed) (hn : src.root.Reaches n) (hm : n.Reaches m)
    (hnlt : n.start < n.stop) {span body : Span} (hspan : src.spanOf n = .ok span)
    (hbody : src.spanOf m = .ok body) {asked : Bool} {inner : Option InnerCalls}
    (hinner : (innerCalls? src v room asked m).outcome = .ok inner) :
    FunctionIn src v room span body inner := by
  have hroot := hn.trans hm
  have hmlt := hw.tree.filled_of_reaches hn.mem_nodes hm hnlt
  refine ⟨hw.fits hn hnlt hspan, (hw.fits hroot hmlt hbody).1, hw.inside hn hm hspan hbody, ?_⟩
  rintro calls hcalls
  rw [Option.mem_def.mp hcalls] at hinner
  exact hw.innerCalls_lieIn hroot (.refl m) hbody hinner

end Source.WellFormed

/-- What a finding has to satisfy for the outline to be sound. -/
def Finding.SpansSound (src : Source) (v : Vocabulary) (room : Room) : Finding → Prop
  | definition d => d.SpansSound src v room.inner
  | usage u => u.LiesIn src v room.file ⟨0, src.text.size⟩
  | test t => t.SpansSound src v room.inner
  | hook _ h => h.SpansSound src v room.inner
  | problem d => d.location ≤ src.text.size

def ScenarioFinding.SpansSound (src : Source) (v : Vocabulary) (room : Room) :
    ScenarioFinding → Prop
  | scenario s => s.SpansSound src v room.scenario
  | problem d => d.location ≤ src.text.size

namespace Context

variable {c : Context} {visit : Visit}

theorem Finds.spansSound {f : Finding} (hf : c.Finds visit f) (hw : c.source.WellFormed)
    (hvisit : visit ∈ c.source.root.visits) : f.SpansSound c.source c.vocabulary c.room := by
  have hnode := Node.reaches_of_mem_visits hvisit
  cases hf with
  | definition hname hf _ hspan hinner =>
    have hreaches := Node.reaches_callArguments (List.mem_of_getLast? hf)
    refine ⟨hw.fits_of_isCall hnode (Source.isCall_of_dotted? hname) hspan, fun calls hcalls => ?_⟩
    rw [Option.mem_def.mp hcalls] at hinner
    exact hw.innerCalls_lieIn hnode (hreaches.trans (Node.reaches_unwrap _)) hspan hinner
  | usage huses =>
    obtain ⟨whole, hwhole⟩ := hw.spanOf_ok (.refl c.source.root)
    have hstop := hw.stopOf_le_size (.refl _) (Source.spanOf_eq_ok.mp hwhole).2
    exact (hw.usage_liesIn (.refl _) hnode hwhole huses).mono ⟨Nat.zero_le _, hstop⟩
  | @test _ _ _ f _ _ _ hname _ hargs _ haround hown hscope hspan hbody hinner =>
    have hcall := Source.isCall_of_dotted? hname
    have hspanOf := (Source.frame_eq_ok.mp hown).2.2.2
    have hreaches : visit.node.Reaches f := Node.reaches_callArguments (by simp [hargs])
    refine ⟨?_, ?_⟩
    · rw [hspan]
      exact hw.functionIn hnode (hreaches.trans (Node.reaches_unwrap _))
        (hw.tree.filled_of_isCall hnode.mem_nodes hcall) hspanOf hbody hinner
    · rw [hspan, hscope]
      exact (hw.scopeAround hvisit haround hspanOf).append_own
        (hw.fits_of_isCall hnode hcall hspanOf)
  | @hook _ _ f hname _ hargs _ hscope hspan hbody hinner =>
    have hcall := Source.isCall_of_dotted? hname
    have hreaches : visit.node.Reaches f := Node.reaches_callArguments (by simp [hargs])
    exact ⟨hw.functionIn hnode (hreaches.trans (Node.reaches_unwrap _))
      (hw.tree.filled_of_isCall hnode.mem_nodes hcall) hspan hbody hinner,
      hw.scopeAround hvisit hscope hspan⟩
  | problem hn hlocation =>
    have hreaches : visit.node.Reaches _ := hn.elim (fun h => h ▸ .refl _) Node.reaches_callArguments
    exact hw.startOf_le_size (hnode.trans hreaches) hlocation

theorem FindsScenario.spansSound {f : ScenarioFinding} (hf : c.FindsScenario visit f)
    (hw : c.source.WellFormed) (hvisit : visit ∈ c.source.root.visits) :
    f.SpansSound c.source c.vocabulary c.room := by
  have hnode := Node.reaches_of_mem_visits hvisit
  have hfinds := hf
  cases hf with
  | scenario hname _ _ hscope hspan _ =>
    have hcall := Source.isCall_of_dotted? hname
    refine ⟨hw.fits_of_isCall hnode hcall hspan, hw.scopeAround hvisit hscope hspan, ?_⟩
    intro f hf
    obtain ⟨member, n, hreaches, hn, hfspan, hbody, hinner⟩ := hfinds.function hf
    have hlt := hw.tree.filled_of_isCall hnode.mem_nodes hcall
    exact ⟨hw.functionIn (hnode.trans hreaches) hn.reaches
      (hw.tree.filled_of_reaches hnode.mem_nodes hreaches hlt) hfspan hbody hinner,
      hw.inside hnode hreaches hspan hfspan⟩
  | problem hn hlocation => exact hw.startOf_le_size (hnode.trans hn) hlocation

end Context

/-- What a finding list contributes to one part of an outline. -/
theorem exists_of_mem_given {α : Type} {asked : Bool} {span : α → Span} {select : Finding → Option α}
    {findings : List Finding} {part : List α}
    (hpart : part ∈ given asked (byPosition span (findings.filterMap select))) {a : α}
    (ha : a ∈ part) : ∃ f ∈ findings, select f = some a := by
  obtain ⟨-, rfl⟩ := given_eq_some.mp (Option.mem_def.mp hpart)
  exact List.mem_filterMap.mp (mem_byPosition.mp ha)

/-- Findings that are sound make a sound outline. -/
theorem Outline.spansSound_ofFindings {src : Source} {v : Vocabulary} {room : Room}
    {findings : List Finding} (h : ∀ f ∈ findings, f.SpansSound src v room) (options : Options) :
    (Outline.ofFindings options v findings).SpansSound src v room where
  added ds hds d hd := by
    obtain ⟨f, hf, hfd⟩ := exists_of_mem_given hds hd
    rw [Finding.definition?_eq_some.mp hfd] at hf
    exact h _ hf
  used us hus u hu := by
    obtain ⟨f, hf, hfu⟩ := exists_of_mem_given hus hu
    rw [Finding.usage?_eq_some.mp hfu] at hf
    exact h _ hf
  tests ts hts t ht := by
    obtain ⟨f, hf, hft⟩ := exists_of_mem_given hts ht
    rw [Finding.test?_eq_some.mp hft] at hf
    exact h _ hf
  hooks kinds hkinds kind hkind k hk := by
    obtain ⟨-, rfl⟩ := given_eq_some.mp (Option.mem_def.mp hkinds)
    obtain ⟨name, -, rfl⟩ := List.mem_map.mp hkind
    obtain ⟨f, hf, hfk⟩ := List.mem_filterMap.mp (mem_byPosition.mp hk)
    rw [Finding.hookOf?_eq_some.mp hfk] at hf
    exact h _ hf
  scenarios ss hss := by cases hss
  errors d hd := by
    obtain ⟨f, hf, hfd⟩ := List.mem_filterMap.mp ((byLocation_perm _).mem_iff.mp hd)
    rw [Finding.problem?_eq_some.mp hfd] at hf
    exact h _ hf

namespace Context

/-- Span soundness. In the outline of a source whose tree is well formed every record is a stretch of
the text, functions lie in their records and the calls found there in the functions, arguments in
their calls, frames around each other and around their record, and diagnostics are placed in the
text. -/
theorem outline_spansSound {filename : Option String} {text : List Char} {tree : Node}
    {src : Source} (hsrc : Source.ofTree filename text tree = .ok src)
    (htree : tree.WellFormed text) (options : Options) (v : Vocabulary) {room : Room} {o : Outline}
    (ho : (outline ⟨src, options, v, room⟩).outcome = .ok o) : o.SpansSound src v room := by
  have hw := Source.wellFormed_ofTree hsrc htree
  obtain ⟨findings, hfindings, ho⟩ := outline_eq_ok.mp ho
  have hsound : ∀ f ∈ findings, f.SpansSound src v room := by
    intro f hf
    obtain ⟨visit, hvisit, hinspect⟩ := (Traced.mem_collect hfindings).mp hf
    exact (finds_of_inspect hinspect).spansSound hw hvisit
  have hbase := Outline.spansSound_ofFindings hsound options
  rcases ho with ⟨-, rfl⟩ | ⟨-, more, hmore, rfl⟩
  · exact hbase
  have hscenarios : ∀ f ∈ more, f.SpansSound src v room := by
    intro f hf
    obtain ⟨visit, hvisit, found, hfound, hf⟩ := (Traced.mem_gather hmore).mp hf
    exact (findsScenario_of_inspectScenario hfound hf).spansSound hw hvisit
  refine ⟨hbase.added, hbase.used, hbase.tests, hbase.hooks, ?_, ?_⟩
  · rintro ss hss s hs
    cases hss
    obtain ⟨f, hf, hfs⟩ := List.mem_filterMap.mp hs
    rw [ScenarioFinding.scenario?_eq_some.mp hfs] at hf
    exact hscenarios _ hf
  · intro d hd
    rcases List.mem_append.mp ((byLocation_perm _).mem_iff.mp hd) with hd | hd
    · exact hbase.errors d hd
    · obtain ⟨f, hf, hfd⟩ := List.mem_filterMap.mp hd
      rw [ScenarioFinding.problem?_eq_some.mp hfd] at hf
      exact hscenarios _ hf

theorem outline_spansSound_sample :
    Source.ofTree none Sample.text Sample.tree = .ok Sample.source ∧
      Sample.tree.WellFormed Sample.text ∧
      ∃ o, (outline ⟨Sample.source, {}, {}, .worker⟩).outcome = .ok o ∧
        o.tests.map (·.map (·.body)) = some [⟨8, 34⟩] ∧
        o.used.map (·.map (·.span)) = some [⟨17, 26⟩, ⟨27, 34⟩] ∧
        o.SpansSound Sample.source {} .worker := by
  have hcheck : (outline ⟨Sample.source, {}, {}, .worker⟩).outcome.toOption.any (fun o =>
      decide (o.tests.map (·.map (·.body)) = some [⟨8, 34⟩]) &&
        decide (o.used.map (·.map (·.span)) = some [⟨17, 26⟩, ⟨27, 34⟩])) = true := by
    decide +kernel
  obtain ⟨o, ho, hparts⟩ := exists_ok_of_any hcheck
  rw [Bool.and_eq_true, decide_eq_true_eq, decide_eq_true_eq] at hparts
  exact ⟨Sample.ofTree_tree, Sample.wellFormed_tree, o, ho, hparts.1, hparts.2,
    outline_spansSound Sample.ofTree_tree Sample.wellFormed_tree {} {} ho⟩

end Context
end SuiteOutline
