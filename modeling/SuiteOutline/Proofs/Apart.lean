import SuiteOutline.Proofs.Descent
import SuiteOutline.Proofs.Options

/-! Calls stand apart: two records of one part never have the same span, as each starts in what its
call calls and ends with the call. -/
namespace SuiteOutline
namespace Node

/-- What is called is written before what it is called with. -/
def CalleesFirst (root : Node) : Prop :=
  ∀ n ∈ root.nodes, ∀ callee ∈ n.child? .function, ∀ list ∈ n.child? .arguments,
    callee.stop ≤ list.start

instance (root : Node) : Decidable root.CalleesFirst :=
  inferInstanceAs (Decidable (∀ n ∈ root.nodes, ∀ callee ∈ n.child? .function,
    ∀ list ∈ n.child? .arguments, callee.stop ≤ list.start))

/-- The other node is below this one, or behind its end. -/
def Precedes (a b : Node) : Prop := (∃ c ∈ a.namedChildren, b ∈ c.walk) ∨ a.stop ≤ b.start

namespace WellFormed

variable {text : List Char} {root : Node}

/-- A walk goes down and to the right. -/
theorem pairwise_walk (hw : root.WellFormed text) {n : Node} (hn : n ∈ root.nodes) :
    n.walk.Pairwise Precedes := by
  induction n using childrenInduction with
  | node n ih =>
    rw [walk_eq, List.pairwise_cons, List.pairwise_flatMap]
    refine ⟨fun m hm => .inl (List.mem_flatMap.mp hm), fun c hc => ?_, ?_⟩
    · have hc := mem_children_of_mem_namedChildren hc
      exact ih c hc (mem_nodes_of_child hn hc)
    · refine ((hw.ordered n hn).filter _).imp_of_mem fun {a b} ha hb hab x hx y hy => .inr ?_
      have ha := mem_nodes_of_child hn (mem_children_of_mem_namedChildren ha)
      have hb := mem_nodes_of_child hn (mem_children_of_mem_namedChildren hb)
      have hxa := (hw.inside ha (reaches_of_mem_walk hx)).2
      have hyb := (hw.inside hb (reaches_of_mem_walk hy)).1
      exact Nat.le_trans hxa (Nat.le_trans hab hyb)

/-- A call that comes later on the walk starts behind all positions in this call's callee, or it
ends before this call does. -/
theorem apart_of_precedes (hw : root.WellFormed text) (hfirst : root.CalleesFirst)
    {a b callee list : Node} (ha : a ∈ root.nodes) (hcallee : a.child? .function = some callee)
    (hlist : a.child? .arguments = some list) (h : a.Precedes b) :
    callee.stop ≤ b.start ∨ b.stop < a.stop := by
  obtain ⟨hcalleeMem, -⟩ := child?_eq_some hcallee
  obtain ⟨hlistMem, -⟩ := child?_eq_some hlist
  have hcalleeIn := hw.nested a ha callee hcalleeMem
  have hlistIn := hw.nested a ha list hlistMem
  have hfilled := hw.filled_of_child? ha hlist
  have hbefore := hfirst a ha callee hcallee list hlist
  rcases h with ⟨c, hc, hb⟩ | h
  · have hc := mem_children_of_mem_namedChildren hc
    have hin := hw.inside (mem_nodes_of_child ha hc) (reaches_of_mem_walk hb)
    have hstart : c.start ≤ b.start := hin.1
    have hstop : b.stop ≤ c.stop := hin.2
    -- all of the arguments comes after the callee; any other child ends before them or starts after
    by_cases heq : c = list
    · subst heq
      omega
    · have : Std.Symm fun x y : Node => x.stop ≤ y.start ∨ y.stop ≤ x.start := ⟨fun _ _ => Or.symm⟩
      have hapart := ((hw.ordered a ha).imp
        (S := fun x y => x.stop ≤ y.start ∨ y.stop ≤ x.start) Or.inl).forall hc hlistMem heq
      omega
  · omega

end WellFormed
end Node

namespace Source

variable {src : Source} {v : Vocabulary} {room : Nat}

/-- The span starts in the callee of the call, or where the call does, and ends with the call. -/
def SpansCall (src : Source) (call : Node) (span : Span) : Prop :=
  ∃ callee list first, call.child? .function = some callee ∧ call.child? .arguments = some list ∧
    src.root.Reaches first ∧ call.start ≤ first.start ∧ first.start < callee.stop ∧
    src.startOf first = .ok span.start ∧ src.stopOf call = .ok span.stop

namespace WellFormed

theorem start_eq_of_startOf (hw : src.WellFormed) {a b : Node} (ha : a ∈ src.root.nodes)
    (hb : b ∈ src.root.nodes) {k : Nat} (hka : src.startOf a = .ok k)
    (hkb : src.startOf b = .ok k) : a.start = b.start := by
  have hbounda := (hw.tree.boundary a ha).1
  have hboundb := (hw.tree.boundary b hb).1
  exact hw.indexed.offset_inj hbounda hboundb hka hkb

theorem stop_eq_of_stopOf (hw : src.WellFormed) {a b : Node} (ha : a ∈ src.root.nodes)
    (hb : b ∈ src.root.nodes) {k : Nat} (hka : src.stopOf a = .ok k)
    (hkb : src.stopOf b = .ok k) : a.stop = b.stop := by
  have hbounda := (hw.tree.boundary a ha).2.1
  have hboundb := (hw.tree.boundary b hb).2.1
  exact hw.indexed.offset_inj hbounda hboundb hka hkb

theorem ne_of_precedes (hw : src.WellFormed) (hfirst : src.root.CalleesFirst) {a b : Node}
    (ha : a ∈ src.root.nodes) (hb : b ∈ src.root.nodes) (h : a.Precedes b) {s t : Span}
    (hs : src.SpansCall a s) (ht : src.SpansCall b t) : s ≠ t := by
  rintro rfl
  -- spans are in code points, what is known of the tree is in bytes
  obtain ⟨callee, list, x, hcallee, hlist, hx, -, hlt, hstart, hstop⟩ := hs
  obtain ⟨_, _, y, _, _, hy, hle, -, hstart', hstop'⟩ := ht
  have hxy := hw.start_eq_of_startOf hx.mem_nodes hy.mem_nodes hstart hstart'
  have hab := hw.stop_eq_of_stopOf ha hb hstop hstop'
  have hapart := hw.tree.apart_of_precedes hfirst ha hcallee hlist h
  omega

/-- The span of a call itself. -/
theorem spansCall_of_spanOf (hw : src.WellFormed) {call : Node} (hcall : src.root.Reaches call)
    {name : String} (hname : src.dotted? call = .ok (some name)) {span : Span}
    (hspan : src.spanOf call = .ok span) : src.SpansCall call span := by
  obtain ⟨found, hfound, hsegments⟩ := dotted?_eq_ok.mp hname
  obtain ⟨segments, rfl, -⟩ := Option.map_eq_some_iff.mp hsegments
  obtain ⟨hisCall, callee, _, _, hcallee, -⟩ := segments?_eq_some.mp hfound
  obtain ⟨-, list, hlist, -⟩ := Node.isCall_iff.mp hisCall
  obtain ⟨hstart, hstop⟩ := spanOf_eq_ok.mp hspan
  have hmem := hcall.mem_nodes
  have hfilled := hw.tree.filled_of_child? hmem hcallee
  have hin := (hw.tree.nested call hmem callee (Node.child?_eq_some hcallee).1).1
  exact ⟨callee, list, call, hcallee, hlist, hcall, Nat.le_refl _, by omega, hstart, hstop⟩

/-- A usage starts at the property that its call calls. -/
theorem spansCall_of_uses (hw : src.WellFormed) {call : Node} (hcall : src.root.Reaches call)
    {u : CommandUsage} (huses : src.Uses v room call u) : src.SpansCall call u.span := by
  obtain ⟨segments, hsegments, -, husage⟩ := huses
  obtain ⟨-, list, hlist, -⟩ := Node.isCall_iff.mp (isCall_of_segments? hsegments)
  obtain ⟨_, callee, property, -, hcallee, -, -, hproperty, hstart, hstop, -⟩ :=
    usage?_eq_some.mp husage
  obtain ⟨c, hc, rfl⟩ := Node.callee?_eq_some hcallee
  have hmem := hcall.mem_nodes
  have hreaches := c.reaches_unwrap.trans (Node.reaches_child? hproperty)
  have hchild := Node.mem_nodes_of_child? hmem hc
  have hin : property.stop ≤ c.stop := (hw.tree.inside hchild hreaches).2
  have hincall : call.start ≤ property.start :=
    (hw.tree.inside hmem ((Node.reaches_child? hc).trans hreaches)).1
  have hfilled := hw.tree.filled_of_child?
    (c.reaches_unwrap.mem_nodes_of_mem hchild) hproperty
  exact ⟨c, list, property, hc, hlist, hcall.trans ((Node.reaches_child? hc).trans hreaches),
    hincall, by omega, hstart, hstop⟩

end WellFormed
end Source

namespace Context

variable {c : Context}

/-- Records that span their calls have spans of their own. -/
theorem pairwise_recordsAs (hw : c.source.WellFormed) (hfirst : c.source.root.CalleesFirst)
    {α : Type} {part : Part} {select : Finding → Option α} {span : α → Span}
    (hspans : ∀ visit f a, c.source.root.Reaches visit.node → c.Finds visit f →
      select f = some a → c.source.SpansCall visit.node (span a)) :
    (c.recordsAs part select).Pairwise fun a b => span a ≠ span b := by
  have hwalk := hw.tree.pairwise_walk c.source.root.self_mem_nodes
  rw [← Node.map_node_visits, List.pairwise_map] at hwalk
  refine List.Pairwise.filterMap _ ?_ (List.Pairwise.and_mem.mp hwalk)
  intro x y ⟨hx, hy, hxy⟩ a ha b hb
  obtain ⟨f, hf, ha⟩ := Option.bind_eq_some_iff.mp ha
  obtain ⟨g, hg, hb⟩ := Option.bind_eq_some_iff.mp hb
  have hreachx := Node.reaches_of_mem_visits hx
  have hreachy := Node.reaches_of_mem_visits hy
  exact hw.ne_of_precedes hfirst hreachx.mem_nodes hreachy.mem_nodes hxy
    (hspans x f a hreachx (finds_of_findingAs hf) ha)
    (hspans y g b hreachy (finds_of_findingAs hg) hb)

end Context
end SuiteOutline
