import SuiteOutline.Proofs.Descent
import SuiteOutline.Proofs.InnerCalls

/-! Chains of commands are closed under prefixes: the command in front of a usage is used too. -/
namespace SuiteOutline

/-- The name with so many call markers behind it. -/
def marked (name : String) (calls : Nat) : String :=
  name ++ String.join (List.replicate calls callMarker)

theorem marked_zero (name : String) : marked name 0 = name := by
  simp [marked]

theorem marked_succ (name : String) (calls : Nat) :
    marked name (calls + 1) = marked name calls ++ callMarker := by
  simp only [marked, List.replicate_succ', String.append_assoc]
  congr 1
  rw [← String.toList_inj]
  simp

theorem endsWith_append (name tail : String) : endsWith tail (name ++ tail) = true := by
  rw [endsWith, String.toList_append, List.isSuffixOf_iff_suffix]
  exact List.suffix_append _ _

theorem stripMarker_append (name : String) : stripMarker (name ++ callMarker) = name := by
  have hlength : (name ++ callMarker).toList.length - callMarker.length = name.toList.length := by
    rw [String.toList_append, List.length_append, ← String.length_toList, Nat.add_sub_cancel]
  rw [stripMarker, if_pos (endsWith_append name callMarker), dropLast, hlength,
    String.toList_append, List.take_left, String.ofList_toList]

theorem isCommand_dotted (v : Vocabulary) (segment : String) (rest : List String) :
    v.isCommand (dotted (v.commandRoot :: segment :: rest)) = true := by
  rw [Vocabulary.isCommand, beginsWith, List.isPrefixOf_iff_prefix, Vocabulary.commandHead, dotted]
  simp [List.intercalate]

/-- The name is what remains of the segment without the call markers at its end. -/
def Unmarked (name segment : String) : Prop :=
  endsWith callMarker name = false ∧ ∃ calls, segment = marked name calls

variable {src : Source} {v : Vocabulary} {room : Nat}

namespace Source

/-- No name ends with a call marker, as none does that is a word of the grammar. -/
def NamesPlain (src : Source) : Prop :=
  ∀ n ∈ src.root.nodes, n.isName = true →
    ∀ text ∈ (src.textOf n).toOption, endsWith callMarker text = false

instance (src : Source) : Decidable src.NamesPlain :=
  inferInstanceAs (Decidable (∀ n ∈ src.root.nodes, n.isName = true →
    ∀ text ∈ (src.textOf n).toOption, endsWith callMarker text = false))

/-- Spans in code points lie as the nodes do, and an object ends before its property starts. -/
structure SpansNested (src : Source) : Prop where
  measured : ∀ n ∈ src.root.nodes, ∃ span, src.spanOf n = .ok span ∧ span.start ≤ span.stop
  nested : ∀ n ∈ src.root.nodes, ∀ c ∈ n.children, ∀ outer inner,
    src.spanOf n = .ok outer → src.spanOf c = .ok inner → inner.Inside outer
  ordered : ∀ n ∈ src.root.nodes, n.symbol = .memberExpression →
    ∀ object ∈ n.child? .object, ∀ property ∈ n.child? .property, ∀ a b,
      src.spanOf object = .ok a → src.spanOf property = .ok b → a.stop < b.start

/-- In a well-formed tree it is enough that objects end before their properties in bytes. -/
theorem WellFormed.spansNested (hw : src.WellFormed)
    (h : ∀ n ∈ src.root.nodes, n.symbol = .memberExpression →
      ∀ object ∈ n.child? .object, ∀ property ∈ n.child? .property, object.stop < property.start) :
    src.SpansNested where
  measured n hn := by
    obtain ⟨span, hspan⟩ := hw.measured n hn
    obtain ⟨hstart, hstop, hle⟩ := hw.tree.boundary n hn
    rw [spanOf_eq_ok] at hspan
    exact ⟨span, spanOf_eq_ok.mpr hspan,
      (hw.indexed.offset_le_iff hstart hstop hspan.1 hspan.2).mpr hle⟩
  nested n hn c hc outer inner ho hi := by
    have hchild := Node.mem_nodes_trans hn (Node.mem_nodes_of_mem_children hc)
    obtain ⟨hns, hnt, -⟩ := hw.tree.boundary n hn
    obtain ⟨hcs, hct, -⟩ := hw.tree.boundary c hchild
    obtain ⟨hstart, hstop⟩ := hw.tree.nested n hn c hc
    rw [spanOf_eq_ok] at ho hi
    exact ⟨(hw.indexed.offset_le_iff hns hcs ho.1 hi.1).mpr hstart,
      (hw.indexed.offset_le_iff hct hnt hi.2 ho.2).mpr hstop⟩
  ordered n hn hsymbol object hobject property hproperty a b ha hb := by
    have hobjectStop := (hw.tree.boundary object (Node.mem_nodes_of_child? hn hobject)).2.1
    have hpropertyStart := (hw.tree.boundary property (Node.mem_nodes_of_child? hn hproperty)).1
    exact (hw.indexed.offset_lt_iff hobjectStop hpropertyStart (spanOf_eq_ok.mp ha).2
      (spanOf_eq_ok.mp hb).1).mpr (h n hn hsymbol object hobject property hproperty)

theorem NamesPlain.not_endsWith (h : src.NamesPlain) {n : Node} (hn : n ∈ src.root.nodes)
    (hname : n.isName = true) {text : String} (ht : src.textOf n = .ok text) :
    endsWith callMarker text = false := by
  refine h n hn hname text ?_
  rw [ht]
  rfl

theorem SpansNested.inside (h : src.SpansNested) {n m : Node} (hn : n ∈ src.root.nodes)
    (hm : n.Reaches m) {outer inner : Span} (ho : src.spanOf n = .ok outer)
    (hi : src.spanOf m = .ok inner) : inner.Inside outer := by
  induction hm generalizing outer with
  | refl =>
    rw [ho] at hi
    cases hi
    exact .refl _
  | step hc _ _ ih =>
    have hchild := Node.mem_nodes_trans hn (Node.mem_nodes_of_mem_children hc)
    obtain ⟨span, hspan, -⟩ := h.measured _ hchild
    exact (ih hchild hspan hi).trans (h.nested _ hn _ hc _ _ ho hspan)

/-- What is below an object starts before the property that is read from it. -/
theorem SpansNested.start_lt (h : src.SpansNested) {n object property x : Node}
    (hn : n ∈ src.root.nodes) (hsymbol : n.symbol = .memberExpression)
    (hobject : n.child? .object = some object) (hproperty : n.child? .property = some property)
    (hx : object.Reaches x) {a b : Nat} (ha : src.startOf x = .ok a)
    (hb : src.startOf property = .ok b) : a < b := by
  have hmem := Node.mem_nodes_of_child? hn hobject
  obtain ⟨outer, houter, -⟩ := h.measured object hmem
  obtain ⟨right, hright, -⟩ := h.measured property (Node.mem_nodes_of_child? hn hproperty)
  obtain ⟨inner, hinner, hle⟩ := h.measured x (Node.mem_nodes_trans hmem hx.mem_nodes)
  have hinside := h.inside hmem hx houter hinner
  have hlt := h.ordered n hn hsymbol object hobject property hproperty outer right houter hright
  rw [(spanOf_eq_ok.mp hinner).1] at ha
  rw [(spanOf_eq_ok.mp hright).1] at hb
  cases ha
  cases hb
  exact Nat.lt_of_le_of_lt (Nat.le_trans hle hinside.2) hlt

end Source

theorem Link.text_eq_ok {l : Link} {segment : String} :
    l.text src = .ok segment ↔
      ∃ text, src.textOf l.name = .ok text ∧ marked text l.calls = segment := by
  simp only [Link.text, bind_eq_ok, pure_eq_ok, marked]

/-- A usage is read off a property whose object is a chain from the command root. -/
theorem Source.Uses.object {call : Node} {u : CommandUsage} (h : src.Uses v room call u) :
    ∃ callee object property ls l names, call.child? .function = some callee ∧
      callee.unwrap.symbol = .memberExpression ∧ callee.unwrap.child? .object = some object ∧
      callee.unwrap.property? = some property ∧ object.Chained ls l ∧
      List.Forall₂ (fun link s => link.text src = .ok s) (ls ++ [l]) (v.commandRoot :: names) ∧
      (∀ s ∈ names, endsWith callMarker s = true) ∧ u.chain = names.map stripMarker ∧
      src.textOf property = .ok u.name ∧ src.startOf property = .ok u.span.start := by
  obtain ⟨segments, hs, -, hu⟩ := h
  obtain ⟨names, _, property, rfl, hcallee, hkind, hnames, hproperty, hstart, -, -, -, hchain⟩ :=
    usage?_eq_some.mp hu
  obtain ⟨-, callee, ls, l, hfunction, hchained, htexts⟩ := segments?_eq_some.mp hs
  obtain ⟨_, hchild, rfl⟩ := Node.callee?_eq_some hcallee
  rw [hfunction] at hchild
  cases hchild
  have hmember := Node.kind_unwrap_eq_member.mp hkind
  obtain ⟨hcalls, hp, object, ls', l', hobject, rfl, hinner⟩ := hchained.object hmember
  have hlast : property = l.name := by
    rw [(Node.property?_eq_some hp).1] at hproperty
    exact (Option.some.inj hproperty).symm
  rw [← List.cons_append, forall₂_concat_iff] at htexts
  obtain ⟨text, htext, hname⟩ := Link.text_eq_ok.mp htexts.2
  rw [hcalls, marked_zero] at hname
  subst hname hlast
  exact ⟨callee, object, _, ls', l', names, hfunction, hmember, hobject, hp, hinner, htexts.1,
    hnames, hchain, htext, hstart⟩

/-- A call of a property makes a usage if its object is a chain from the command root whose names
are all called. -/
theorem Source.Reads.uses {call callee x : Node} {ls : List Link} {names : List String}
    {text : String} (hreads : src.Reads v room call) (hcall : call.isCall = true)
    (hfunction : call.child? .function = some callee) (hchain : callee.Chained ls ⟨x, 0⟩)
    (htexts : List.Forall₂ (fun link s => link.text src = .ok s) ls (v.commandRoot :: names))
    (htext : src.textOf x = .ok text) (hnames : ∀ s ∈ names, endsWith callMarker s = true) :
    ∃ u, src.Uses v room call u ∧ u.name = text ∧ u.chain = names.map stripMarker ∧
      src.startOf x = .ok u.span.start := by
  have hls : ls ≠ [] := by
    rintro rfl
    cases htexts
  have hmember := hchain.symbol_unwrap hls rfl
  obtain ⟨-, hp, -⟩ := hchain.object hmember
  have hproperty := (Node.property?_eq_some hp).1
  have hcallee : call.callee? = some callee.unwrap := by rw [Node.callee?, hfunction]; rfl
  have hsegments : src.segments? call = .ok (some (v.commandRoot :: (names ++ [text]))) := by
    refine segments?_eq_some.mpr ⟨hcall, callee, ls, _, hfunction, hchain, ?_⟩
    rw [← List.cons_append, forall₂_concat_iff]
    exact ⟨htexts, Link.text_eq_ok.mpr ⟨text, htext, marked_zero text⟩⟩
  have hcommand : v.isCommand (dotted (v.commandRoot :: (names ++ [text]))) = true := by
    cases names <;> exact isCommand_dotted v _ _
  obtain ⟨_, hs, husage⟩ := hreads
  rw [hsegments] at hs
  cases hs
  obtain ⟨found, hfound⟩ := husage _ rfl hcommand
  obtain ⟨start, hstart, _, -, _, -, _, -, rfl⟩ := (usage?_of_guards hcallee
    (Node.kind_unwrap_eq_member.mpr hmember) hnames hproperty).mp hfound
  exact ⟨_, ⟨_, hsegments, hcommand, hfound⟩, rfl, rfl, hstart⟩

section

variable (hnamed : src.root.CalleesNamed) (hplain : src.NamesPlain)

include hplain

theorem Source.Uses.name_plain {call : Node} {u : CommandUsage} (h : src.Uses v room call u)
    (hcall : call ∈ src.root.walk) : endsWith callMarker u.name = false := by
  obtain ⟨callee, _, property, _, _, _, hfunction, -, -, hp, -, -, -, -, htext, -⟩ := h.object
  obtain ⟨hproperty, hname⟩ := Node.property?_eq_some hp
  have hreaches : src.root.Reaches property := (Node.reaches_of_mem_walk hcall).trans
    ((Node.reaches_child? hfunction).trans
      (callee.reaches_unwrap.trans (Node.reaches_child? hproperty)))
  exact hplain.not_endsWith hreaches.mem_nodes hname htext

include hnamed

/-- The step from a usage to the one in front of it in the chain. -/
theorem Source.Uses.previous (hreads : ∀ n ∈ src.root.walk, src.Reads v room n) {call : Node}
    {u : CommandUsage} (h : src.Uses v room call u) (hcall : call ∈ src.root.walk)
    {chain : List String} {last : String} (hlast : u.chain = chain ++ [last]) :
    ∃ m ∈ src.root.walk, ∃ u', src.Uses v room m u' ∧ u'.chain = chain ∧ Unmarked u'.name last ∧
      (src.SpansNested → u'.span.start < u.span.start) := by
  obtain ⟨callee, object, property, ls, l, names, hfunction, hmember, hobject, hp, hchained,
    htexts, hnames, hchain, htext, hstart⟩ := h.object
  obtain ⟨front, back, rfl, rfl, hback⟩ := List.map_eq_append_iff.mp (hchain.symm.trans hlast)
  obtain ⟨segment, rfl, rfl⟩ := List.map_eq_singleton_iff.mp hback
  rw [← List.cons_append, forall₂_concat_iff] at htexts
  obtain ⟨text, hltext, hsegment⟩ := Link.text_eq_ok.mp htexts.2
  have hmarked : endsWith callMarker segment = true := hnames segment (by simp)
  have hcallee : src.root.Reaches callee.unwrap := (Node.reaches_of_mem_walk hcall).trans
    ((Node.reaches_child? hfunction).trans callee.reaches_unwrap)
  have hobjectReach := hcallee.trans (Node.reaches_child? hobject)
  obtain ⟨hlink, hname⟩ := hchained.reaches_last
  have hplainText := hplain.not_endsWith (hobjectReach.trans hlink).mem_nodes hname hltext
  obtain ⟨x, calls⟩ := l
  cases calls with
  | zero =>
    -- the guard asks for a call marker, and the name itself has none
    rw [marked_zero] at hsegment
    rw [← hsegment, hplainText] at hmarked
    cases hmarked
  | succ calls =>
    obtain ⟨m, hm, hmcall, f, hf, hfchain⟩ :=
      hchained.innermost_call hnamed hobjectReach.mem_nodes
    have hmwalk : m ∈ src.root.walk :=
      Node.mem_walk_trans (hnamed.mem_walk (.inr rfl) (Node.mem_walk_trans
        (hnamed.mem_walk (.inl rfl) hcall hfunction) callee.unwrap_mem_walk) hobject) hm
    obtain ⟨u', hu', hname', hchain', hstart'⟩ := (hreads m hmwalk).uses hmcall hf hfchain htexts.1
      hltext fun s hs => hnames s (List.mem_append_left _ hs)
    refine ⟨m, hmwalk, u', hu', hchain', ⟨hname' ▸ hplainText, calls, ?_⟩, ?_⟩
    · rw [← hsegment, hname', marked_succ, stripMarker_append]
    · intro hspans
      exact hspans.start_lt hcallee.mem_nodes hmember hobject (Node.property?_eq_some hp).1 hlink
        hstart' hstart

end

namespace Context

/-- Chains are closed under prefixes, where no name that is written ends with a call marker. For a
usage with a command in front of it that command is used too, under its plain name and with the
chain up to it; it stands earlier in the list if spans lie as the nodes do. No usage's own name ends
with a call marker. -/
theorem chain_prefix_closed {options : Options} {room : Room} {o : Outline}
    {used : List CommandUsage}
    (hr : v.isCommand v.registrationPath = false) (hnamed : src.root.CalleesNamed)
    (hplain : src.NamesPlain) (ho : (outline ⟨src, options, v, room⟩).outcome = .ok o)
    (hu : o.used = some used) :
    (∀ (j : Nat) (u : CommandUsage) (chain : List String) (last : String),
      used[j]? = some u → u.chain = chain ++ [last] →
        ∃ (i : Nat) (u' : CommandUsage), used[i]? = some u' ∧ u'.chain = chain ∧
          Unmarked u'.name last ∧ (src.SpansNested → i < j)) ∧
    ∀ u ∈ used, endsWith callMarker u.name = false := by
  have hused : options.used = true := by
    obtain ⟨findings, -, ⟨-, rfl⟩ | ⟨-, more, -, rfl⟩⟩ := outline_eq_ok.mp ho <;>
      exact (given_eq_some.mp hu).1
  obtain ⟨hall, hreads⟩ := used_of_outline (c := ⟨src, options, v, room⟩) hr hused ho
  rw [hu, Option.some.injEq] at hall
  have hmem : ∀ {u}, u ∈ used ↔ ∃ n ∈ src.root.walk, src.Uses v room.file n u := by
    intro u
    rw [hall, mem_byPosition, List.mem_filterMap]
    simp only [Source.usageAt?_eq_some]
  constructor
  · intro j u chain last hj hchain
    obtain ⟨n, hn, huses⟩ := hmem.mp (List.mem_of_getElem? hj)
    obtain ⟨m, hm, u', huses', hchain', hname, hlt⟩ :=
      huses.previous hnamed hplain hreads hn hchain
    obtain ⟨i, hi⟩ := List.mem_iff_getElem?.mp (hmem.mpr ⟨m, hm, huses'⟩)
    refine ⟨i, u', hi, hchain', hname, fun hspans => ?_⟩
    rw [hall] at hi hj
    refine lt_of_precedes hi hj ?_
    have := hlt hspans
    rw [Bool.eq_false_iff, ne_eq, Span.precedes_iff]
    omega
  · intro u hmemu
    obtain ⟨n, hn, huses⟩ := hmem.mp hmemu
    exact huses.name_plain hplain hn

/-- In the sample `click` follows `get`. -/
theorem chain_prefix_closed_sample :
    Sample.source.root.CalleesNamed ∧ Sample.source.NamesPlain ∧ Sample.source.SpansNested ∧
      ∃ o used u, (outline ⟨Sample.source, {}, {}, .worker⟩).outcome = .ok o ∧ o.used = some used ∧
        used[1]? = some u ∧ u.name = "click" ∧ u.chain = ["get"] ∧
        endsWith callMarker u.name = false ∧
        ∃ i u', used[i]? = some u' ∧ u'.chain = [] ∧ Unmarked u'.name "get" ∧ i < 1 := by
  have hnamed : Sample.source.root.CalleesNamed := by decide +kernel
  have hplain : Sample.source.NamesPlain := by decide +kernel
  have hspans : Sample.source.SpansNested :=
    (Source.wellFormed_ofTree Sample.ofTree_tree Sample.wellFormed_tree).spansNested
      (by decide +kernel)
  have hcheck : (outline ⟨Sample.source, {}, {}, .worker⟩).outcome.toOption.any (fun o =>
      o.used.any fun used => used[1]?.any fun u =>
        decide (u.name = "click") && decide (u.chain = ["get"])) = true := by
    decide +kernel
  obtain ⟨o, ho, husages⟩ := exists_ok_of_any hcheck
  obtain ⟨used, hused, husage⟩ := Option.any_eq_true _ _ |>.mp husages
  obtain ⟨u, hu, hfields⟩ := Option.any_eq_true _ _ |>.mp husage
  rw [Bool.and_eq_true, decide_eq_true_eq, decide_eq_true_eq] at hfields
  obtain ⟨hclosed, hplainName⟩ := chain_prefix_closed (by decide +kernel) hnamed hplain ho hused
  obtain ⟨i, u', hi, hchain, hname, hlt⟩ := hclosed 1 u [] "get" hu hfields.2
  exact ⟨hnamed, hplain, hspans, o, used, u, ho, hused, hu, hfields.1, hfields.2,
    hplainName u (List.mem_of_getElem? hu), i, u', hi, hchain, hname, hlt hspans⟩

end Context

/-! The text `cy.a().b()()`, of which `a()` and `b()` are taken for names. -/
namespace Sample

def markedTree : Node :=
  node none (.other "program") 0 12
    [node none .expressionStatement 0 12
      [node none .callExpression 0 12
        [node (some .function) .memberExpression 0 10
          [node (some .object) .memberExpression 0 6
            [node (some .object) .identifier 0 2 [],
             node (some .property) .propertyIdentifier 3 6 []],
           node (some .property) .propertyIdentifier 7 10 []],
         node (some .arguments) .arguments 10 12 []]]]

def markedSource : Source := ⟨none, "cy.a().b()()".toList.toArray, .same, markedTree⟩

theorem calleesNamed_markedSource : markedSource.root.CalleesNamed := by decide

theorem outline_markedSource :
    ∃ o used, (Context.outline ⟨markedSource, {}, {}, .worker⟩).outcome = .ok o ∧
      o.used = some used ∧ used.map (fun u => (u.name, u.chain)) = [("b()", ["a"])] := by
  have hcheck : (Context.outline ⟨markedSource, {}, {}, .worker⟩).outcome.toOption.any (fun o =>
      o.used.any fun used => used.map (fun u => (u.name, u.chain)) = [("b()", ["a"])]) = true := by
    decide
  obtain ⟨o, ho, husages⟩ := exists_ok_of_any hcheck
  obtain ⟨used, hused, hfields⟩ := Option.any_eq_true _ _ |>.mp husages
  exact ⟨o, used, ho, hused, of_decide_eq_true hfields⟩

end Sample

namespace Context

/-- Where names may end with call markers, the command in front of a usage need not be used, and the
name of a usage may end with one. -/
theorem not_forall_chain_prefix_closed :
    (¬∀ (src : Source) (v : Vocabulary) (options : Options) (room : Room) (o : Outline)
      (used : List CommandUsage), v.isCommand v.registrationPath = false → src.root.CalleesNamed →
      (outline ⟨src, options, v, room⟩).outcome = .ok o → o.used = some used →
      ∀ u ∈ used, ∀ chain last, u.chain = chain ++ [last] →
        ∃ u' ∈ used, u'.chain = chain ∧ Unmarked u'.name last) ∧
    ¬∀ (src : Source) (v : Vocabulary) (options : Options) (room : Room) (o : Outline)
      (used : List CommandUsage), v.isCommand v.registrationPath = false → src.root.CalleesNamed →
      (outline ⟨src, options, v, room⟩).outcome = .ok o → o.used = some used →
      ∀ u ∈ used, endsWith callMarker u.name = false := by
  obtain ⟨o, used, ho, hused, hfields⟩ := Sample.outline_markedSource
  have hchains : ∀ u ∈ used, u.name = "b()" ∧ u.chain = ["a"] := by
    intro u hu
    have hmem := List.mem_map_of_mem (f := fun u => (u.name, u.chain)) hu
    rw [hfields] at hmem
    simpa using hmem
  obtain ⟨u, hu⟩ : ∃ u, u ∈ used := by
    cases used with
    | nil => cases hfields
    | cons u us => exact ⟨u, List.mem_cons_self⟩
  constructor
  · intro hall
    obtain ⟨u', hu', hchain, -⟩ := hall _ _ _ _ _ _ (by decide) Sample.calleesNamed_markedSource
      ho hused u hu [] "a" (hchains u hu).2
    rw [(hchains u' hu').2] at hchain
    cases hchain
  · intro hall
    have hplain := hall _ _ _ _ _ _ (by decide) Sample.calleesNamed_markedSource ho hused u hu
    rw [(hchains u hu).1] at hplain
    exact absurd hplain (by decide)

end Context
end SuiteOutline
