import SuiteOutline.Proofs.Calls

/-! Well-formed trees, as a parser makes them: spans at boundaries of characters, nested and in
order. Code point spans then lie as the nodes do. -/
namespace SuiteOutline

/-- One span lies in another. -/
def Span.Inside (inner outer : Span) : Prop :=
  outer.start ≤ inner.start ∧ inner.stop ≤ outer.stop

theorem Span.Inside.trans {a b c : Span} (hab : a.Inside b) (hbc : b.Inside c) : a.Inside c :=
  ⟨Nat.le_trans hbc.1 hab.1, Nat.le_trans hab.2 hbc.2⟩

theorem Span.Inside.refl (a : Span) : a.Inside a := ⟨Nat.le_refl _, Nat.le_refl _⟩

namespace Node

/-- What a parser is taken to guarantee. A node that has a role in its parent is no token that the
grammar leaves empty, so it counts with the named ones. -/
structure WellFormed (text : List Char) (root : Node) : Prop where
  boundary : ∀ n ∈ root.nodes,
    IsBoundary text n.start ∧ IsBoundary text n.stop ∧ n.start ≤ n.stop
  nested : ∀ n ∈ root.nodes, ∀ c ∈ n.children, n.start ≤ c.start ∧ c.stop ≤ n.stop
  ordered : ∀ n ∈ root.nodes, n.children.Pairwise fun a b => a.stop ≤ b.start
  filled : ∀ n ∈ root.nodes, ∀ c ∈ n.children, c.isPart = true → c.start < c.stop

instance (text : List Char) (root : Node) : Decidable (root.WellFormed text) :=
  decidable_of_iff
    ((∀ n ∈ root.nodes, IsBoundary text n.start ∧ IsBoundary text n.stop ∧ n.start ≤ n.stop) ∧
      (∀ n ∈ root.nodes, ∀ c ∈ n.children, n.start ≤ c.start ∧ c.stop ≤ n.stop) ∧
      (∀ n ∈ root.nodes, n.children.Pairwise fun a b => a.stop ≤ b.start) ∧
      ∀ n ∈ root.nodes, ∀ c ∈ n.children, c.isPart = true → c.start < c.stop)
    ⟨fun ⟨hb, hn, ho, hf⟩ => ⟨hb, hn, ho, hf⟩, fun h => ⟨h.1, h.2, h.3, h.4⟩⟩

namespace WellFormed

variable {text : List Char} {root n m : Node}

theorem inside (hw : root.WellFormed text) (hn : n ∈ root.nodes) (hm : n.Reaches m) :
    m.span.Inside n.span := by
  induction hm with
  | refl n => exact .refl n.span
  | step hc _ _ ih =>
    exact (ih (mem_nodes_trans hn (mem_nodes_of_mem_children hc))).trans (hw.nested _ hn _ hc)

/-- A node that is reached from one that is not empty is not empty itself. -/
theorem filled_of_reaches (hw : root.WellFormed text) (hn : n ∈ root.nodes) (hm : n.Reaches m)
    (hlt : n.start < n.stop) : m.start < m.stop := by
  induction hm with
  | refl => exact hlt
  | step hc hp _ ih =>
    exact ih (mem_nodes_trans hn (mem_nodes_of_mem_children hc)) (hw.filled _ hn _ hc hp)

theorem filled_of_child? (hw : root.WellFormed text) (hn : n ∈ root.nodes) {role : Role}
    (hc : n.child? role = some m) : m.start < m.stop := by
  obtain ⟨hmem, hrole⟩ := child?_eq_some hc
  exact hw.filled n hn m hmem (by simp [isPart, hrole])

/-- A call holds its arguments, so it is not empty, even at the root. -/
theorem filled_of_isCall (hw : root.WellFormed text) (hn : n ∈ root.nodes)
    (hcall : n.isCall = true) : n.start < n.stop := by
  obtain ⟨-, list, hlist, -⟩ := isCall_iff.mp hcall
  have hlt := hw.filled_of_child? hn hlist
  have hin := hw.nested n hn list (child?_eq_some hlist).1
  omega

end WellFormed
end Node

namespace Source

/-- Every node of the tree has a span in code points. -/
def Measured (src : Source) : Prop := ∀ n ∈ src.root.nodes, ∃ span, src.spanOf n = .ok span

/-- The tree fits the text, and offsets are converted as the text requires. -/
structure WellFormed (src : Source) : Prop where
  indexed : src.Indexed
  tree : src.root.WellFormed src.text.toList

theorem wellFormed_ofTree {filename : Option String} {text : List Char} {tree : Node} {src : Source}
    (h : ofTree filename text tree = .ok src) (hw : tree.WellFormed text) : src.WellFormed := by
  refine ⟨indexed_ofTree h, ?_⟩
  rw [ofTree_eq_ok h]
  exact hw

namespace WellFormed

variable {src : Source} {n m : Node}

theorem startOf_le (hw : src.WellFormed) (hn : src.root.Reaches n) (hm : n.Reaches m) {a b : Nat}
    (ha : src.startOf n = .ok a) (hb : src.startOf m = .ok b) : a ≤ b := by
  have hmem := hn.mem_nodes
  have hnb := (hw.tree.boundary n hmem).1
  have hmb := (hw.tree.boundary m (hn.trans hm).mem_nodes).1
  exact (hw.indexed.offset_le_iff hnb hmb ha hb).mpr (hw.tree.inside hmem hm).1

theorem stopOf_le (hw : src.WellFormed) (hn : src.root.Reaches n) (hm : n.Reaches m) {a b : Nat}
    (ha : src.stopOf n = .ok a) (hb : src.stopOf m = .ok b) : b ≤ a := by
  have hmem := hn.mem_nodes
  have hnb := (hw.tree.boundary n hmem).2.1
  have hmb := (hw.tree.boundary m (hn.trans hm).mem_nodes).2.1
  exact (hw.indexed.offset_le_iff hmb hnb hb ha).mpr (hw.tree.inside hmem hm).2

theorem inside (hw : src.WellFormed) (hn : src.root.Reaches n) (hm : n.Reaches m)
    {outer inner : Span} (ho : src.spanOf n = .ok outer) (hi : src.spanOf m = .ok inner) :
    inner.Inside outer := by
  rw [spanOf_eq_ok] at ho hi
  exact ⟨hw.startOf_le hn hm ho.1 hi.1, hw.stopOf_le hn hm ho.2 hi.2⟩

/-- A node that is not empty starts before the end of any node around it. -/
theorem start_lt_stop (hw : src.WellFormed) (hn : src.root.Reaches n) (hm : n.Reaches m)
    (hlt : m.start < m.stop) {a b : Nat} (ha : src.startOf m = .ok a) (hb : src.stopOf n = .ok b) :
    a < b := by
  have hmem := hn.mem_nodes
  have hnb := (hw.tree.boundary n hmem).2.1
  have hmb := (hw.tree.boundary m (hn.trans hm).mem_nodes).1
  refine (hw.indexed.offset_lt_iff hmb hnb ha hb).mpr ?_
  exact Nat.lt_of_lt_of_le hlt (hw.tree.inside hmem hm).2

theorem measured (hw : src.WellFormed) : src.Measured := by
  intro n hn
  obtain ⟨hstart, hstop, -⟩ := hw.tree.boundary n hn
  obtain ⟨start, -, hstart⟩ := hw.indexed.offset_ok hstart
  obtain ⟨stop, -, hstop⟩ := hw.indexed.offset_ok hstop
  exact ⟨⟨start, stop⟩, spanOf_eq_ok.mpr ⟨hstart, hstop⟩⟩

theorem offset_le_size (hw : src.WellFormed) {byte k : Nat}
    (hb : IsBoundary src.text.toList byte) (ho : src.offset byte = .ok k) : k ≤ src.text.size :=
  (hw.indexed.eq_utf8Length hb ho).1

theorem startOf_le_size (hw : src.WellFormed) (hn : src.root.Reaches n) {a : Nat}
    (ha : src.startOf n = .ok a) : a ≤ src.text.size :=
  hw.offset_le_size (hw.tree.boundary n hn.mem_nodes).1 ha

theorem stopOf_le_size (hw : src.WellFormed) (hn : src.root.Reaches n) {a : Nat}
    (ha : src.stopOf n = .ok a) : a ≤ src.text.size :=
  hw.offset_le_size (hw.tree.boundary n hn.mem_nodes).2.1 ha

/-- Siblings keep their order when their spans are converted. -/
theorem stopOf_le_startOf (hw : src.WellFormed) {a b : Node} (ha : a ∈ src.root.nodes)
    (hb : b ∈ src.root.nodes) (hab : a.stop ≤ b.start) {stop start : Nat}
    (hstop : src.stopOf a = .ok stop) (hstart : src.startOf b = .ok start) : stop ≤ start :=
  (hw.indexed.offset_le_iff (hw.tree.boundary a ha).2.1 (hw.tree.boundary b hb).1 hstop hstart).mpr
    hab

end WellFormed
end Source

/-! A test whose body calls one command on another, and a function for an argument. -/
namespace Sample

def node (role : Option Role) (symbol : Symbol) (start stop : Nat) (children : List Node) : Node :=
  ⟨symbol, ⟨start, stop⟩, role, true, false, children⟩

def token (symbol : Symbol) (start stop : Nat) : Node :=
  ⟨symbol, ⟨start, stop⟩, none, false, false, []⟩

/-- The letter in the name takes two bytes. -/
def text : List Char := "it(\"é\", () => cy.get(f(1)).click())".toList

/-- The call `f(1)`. -/
def helper : Node :=
  node none .callExpression 22 26
    [node (some .function) .identifier 22 23 [],
     node (some .arguments) .arguments 23 26 [node none .number 24 25 []]]

/-- The call `cy.get(f(1))`. -/
def getCall : Node :=
  node (some .object) .callExpression 15 27
    [node (some .function) .memberExpression 15 21
      [node (some .object) .identifier 15 17 [],
       node (some .property) .propertyIdentifier 18 21 []],
     node (some .arguments) .arguments 21 27 [helper]]

/-- The function that is the test's body. -/
def body : Node :=
  node none .arrowFunction 9 35
    [node none (.other "formal_parameters") 9 11 [],
     node (some .body) .callExpression 15 35
      [node (some .function) .memberExpression 15 33
        [getCall, node (some .property) .propertyIdentifier 28 33 []],
       node (some .arguments) .arguments 33 35 []]]

def tree : Node :=
  node none (.other "program") 0 36
    [node none .expressionStatement 0 36
      [node none .callExpression 0 36
        [node (some .function) .identifier 0 2 [],
         node (some .arguments) .arguments 2 36
          [node none .string 3 7 [node none (.other "string_fragment") 4 6 []], body]]]]

def source : Source := ⟨none, text.toArray, .ofText text, tree⟩

theorem ofTree_tree : Source.ofTree none text tree = .ok source := rfl

theorem wellFormed_tree : tree.WellFormed text := by decide +kernel

end Sample
end SuiteOutline
