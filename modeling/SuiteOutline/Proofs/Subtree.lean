import SuiteOutline.Callee
import SuiteOutline.Proofs.Walk

/-! What is below a node, and that all ways to look into a tree stay below where they start. -/
namespace SuiteOutline
namespace Node

mutual
/-- The node and all below it, anonymous ones included. -/
def nodes : Node → List Node
  | n@⟨_, _, _, _, _, children⟩ => n :: nodesOf children

def nodesOf : List Node → List Node
  | [] => []
  | c :: cs => nodes c ++ nodesOf cs
end

theorem nodesOf_eq (cs : List Node) : nodesOf cs = cs.flatMap nodes := by
  induction cs with
  | nil => rfl
  | cons c cs ih => rw [nodesOf, ih, List.flatMap_cons]

theorem nodes_eq (n : Node) : n.nodes = n :: n.children.flatMap nodes := by
  cases n
  rw [nodes, nodesOf_eq]

theorem mem_nodes_iff {n m : Node} : m ∈ n.nodes ↔ m = n ∨ ∃ c ∈ n.children, m ∈ c.nodes := by
  rw [nodes_eq, List.mem_cons, List.mem_flatMap]

theorem self_mem_nodes (n : Node) : n ∈ n.nodes := mem_nodes_iff.mpr (.inl rfl)

theorem mem_nodes_of_mem_children {n c : Node} (h : c ∈ n.children) : c ∈ n.nodes :=
  mem_nodes_iff.mpr (.inr ⟨c, h, c.self_mem_nodes⟩)

theorem mem_nodes_trans {n m k : Node} (hm : m ∈ n.nodes) (hk : k ∈ m.nodes) : k ∈ n.nodes := by
  induction n using childrenInduction with
  | node n ih =>
    rcases mem_nodes_iff.mp hm with rfl | ⟨c, hc, hm⟩
    · exact hk
    · exact mem_nodes_iff.mpr (.inr ⟨c, hc, ih c hc hm⟩)

theorem mem_nodes_of_child {root n c : Node} (hn : n ∈ root.nodes) (hc : c ∈ n.children) :
    c ∈ root.nodes :=
  mem_nodes_trans hn (mem_nodes_of_mem_children hc)

/-- A child that is more than a mere token: it has a name in the grammar, or a role. -/
def isPart (c : Node) : Bool := c.named || c.role.isSome

/-- One node is reached from another through parts. Nothing else is ever looked at. -/
inductive Reaches : Node → Node → Prop
  | refl (n : Node) : Reaches n n
  | step {n c m : Node} (hc : c ∈ n.children) (hp : c.isPart = true) (hm : Reaches c m) :
      Reaches n m

theorem Reaches.trans {n m k : Node} (hm : n.Reaches m) (hk : m.Reaches k) : n.Reaches k := by
  induction hm with
  | refl => exact hk
  | step hc hp _ ih => exact .step hc hp (ih hk)

theorem Reaches.mem_nodes {n m : Node} (h : n.Reaches m) : m ∈ n.nodes := by
  induction h with
  | refl n => exact n.self_mem_nodes
  | step hc _ _ ih => exact mem_nodes_iff.mpr (.inr ⟨_, hc, ih⟩)

theorem Reaches.mem_nodes_of_mem {root n m : Node} (h : n.Reaches m) (hn : n ∈ root.nodes) :
    m ∈ root.nodes :=
  mem_nodes_trans hn h.mem_nodes

theorem reaches_of_named {n c : Node} (hc : c ∈ n.children) (hn : c.named = true) : n.Reaches c :=
  .step hc (by simp [isPart, hn]) (.refl c)

theorem child?_eq_some {n c : Node} {role : Role} (h : n.child? role = some c) :
    c ∈ n.children ∧ c.role = some role :=
  ⟨List.mem_of_find?_eq_some h, by simpa using List.find?_some h⟩

theorem mem_nodes_of_child? {root n c : Node} {role : Role} (hn : n ∈ root.nodes)
    (hc : n.child? role = some c) : c ∈ root.nodes :=
  mem_nodes_of_child hn (child?_eq_some hc).1

theorem reaches_child? {n c : Node} {role : Role} (h : n.child? role = some c) : n.Reaches c := by
  obtain ⟨hc, hr⟩ := child?_eq_some h
  exact .step hc (by simp [isPart, hr]) (.refl c)

theorem reaches_of_mem_walk {n m : Node} (h : m ∈ n.walk) : n.Reaches m := by
  induction n using childrenInduction with
  | node n ih =>
    rcases mem_walk_iff.mp h with rfl | ⟨c, hc, hm⟩
    · exact .refl _
    · obtain ⟨hmem, hnamed⟩ := List.mem_filter.mp hc
      exact (reaches_of_named hmem hnamed).trans (ih c hmem hm)

theorem reaches_of_mem_visits {n : Node} {visit : Visit} (h : visit ∈ n.visits) :
    n.Reaches visit.node := reaches_of_mem_walk (mem_walk_of_mem_visits h)

theorem mem_members {n c : Node} (h : c ∈ n.members) : c ∈ n.namedChildren := by
  obtain ⟨hc, hm⟩ := List.mem_filter.mp h
  rw [isMember, Bool.and_eq_true] at hm
  exact List.mem_filter.mpr ⟨hc, hm.1⟩

theorem reaches_of_mem_members {n c : Node} (h : c ∈ n.members) : n.Reaches c :=
  reaches_of_mem_walk (mem_walk_of_mem_namedChildren (mem_members h))

theorem unwrapFirst_eq (cs : List Node) :
    unwrapFirst cs = (cs.filter isMember).head?.map unwrap := by
  induction cs with
  | nil => rfl
  | cons c cs ih =>
    rw [unwrapFirst, ih]
    cases hc : c.isMember <;> simp [hc]

theorem unwrap_eq (n : Node) :
    n.unwrap = if n.symbol = .parenthesizedExpression
      then (n.members.head?.map unwrap).getD n else n := by
  cases n
  rw [unwrap, unwrapFirst_eq, members]

/-- Parentheses are looked through along the walk. -/
theorem unwrap_mem_walk (n : Node) : n.unwrap ∈ n.walk := by
  induction n using childrenInduction with
  | node n ih =>
    rw [unwrap_eq]
    split
    · cases hm : n.members.head? with
      | none => exact n.self_mem_walk
      | some c =>
        have hc := mem_members (List.mem_of_mem_head? hm)
        exact mem_walk_iff.mpr (.inr ⟨c, hc, ih c (mem_children_of_mem_namedChildren hc)⟩)
    · exact n.self_mem_walk

theorem reaches_unwrap (n : Node) : n.Reaches n.unwrap := reaches_of_mem_walk n.unwrap_mem_walk

theorem mem_nodes_unwrap {root n : Node} (hn : n ∈ root.nodes) : n.unwrap ∈ root.nodes :=
  n.reaches_unwrap.mem_nodes_of_mem hn

/-- The first member of a node, parentheses aside, is a node of the same tree. -/
theorem mem_nodes_unwrap_of_head {root n e : Node} (hn : n ∈ root.nodes)
    (he : n.members.head? = some e) : e.unwrap ∈ root.nodes :=
  mem_nodes_unwrap ((reaches_of_mem_members (List.mem_of_mem_head? he)).mem_nodes_of_mem hn)

theorem callee?_eq_some {n callee : Node} (h : n.callee? = some callee) :
    ∃ c, n.child? .function = some c ∧ callee = c.unwrap := by
  obtain ⟨c, hc, rfl⟩ := Option.map_eq_some_iff.mp h
  exact ⟨c, hc, rfl⟩

theorem reaches_callee? {n callee : Node} (h : n.callee? = some callee) : n.Reaches callee := by
  obtain ⟨c, hc, rfl⟩ := callee?_eq_some h
  exact (reaches_child? hc).trans c.reaches_unwrap

/-- The arguments of a call are the members of one of its children, or there are none. -/
theorem callArguments_eq (n : Node) :
    n.callArguments = [] ∨ ∃ list, n.child? .arguments = some list ∧ n.callArguments = list.members := by
  unfold callArguments
  cases n.child? .arguments with
  | none => exact .inl rfl
  | some list =>
    by_cases h : list.symbol = .arguments
    · exact .inr ⟨list, rfl, by simp [h]⟩
    · exact .inl (by simp [h])

theorem mem_callArguments {n arg : Node} (h : arg ∈ n.callArguments) :
    ∃ list, n.child? .arguments = some list ∧ arg ∈ list.members := by
  rcases callArguments_eq n with he | ⟨list, hl, he⟩
  · rw [he] at h
    cases h
  · exact ⟨list, hl, he ▸ h⟩

theorem reaches_callArguments {n arg : Node} (h : arg ∈ n.callArguments) : n.Reaches arg := by
  obtain ⟨list, hl, hm⟩ := mem_callArguments h
  exact (reaches_child? hl).trans (reaches_of_mem_members hm)

theorem mem_nodes_of_mem_callArguments {root n arg : Node} (hn : n ∈ root.nodes)
    (harg : arg ∈ n.callArguments) : arg ∈ root.nodes :=
  (reaches_callArguments harg).mem_nodes_of_mem hn

theorem firstNameNode?_eq (cs : List Node) :
    firstNameNode? cs = (cs.filter isMember).head?.map nameNode? := by
  induction cs with
  | nil => rfl
  | cons c cs ih =>
    rw [firstNameNode?, ih]
    cases hc : c.isMember <;> simp [hc]

theorem nameNodeAs?_eq (role : Role) (cs : List Node) :
    nameNodeAs? role cs = (cs.find? (·.role == some role)).bind nameNode? := by
  induction cs with
  | nil => rfl
  | cons c cs ih =>
    rw [nameNodeAs?, ih, List.find?_cons]
    cases c.role == some role <;> rfl

theorem nameNode?_eq (n : Node) :
    n.nameNode? = match n.symbol with
      | .parenthesizedExpression => (n.members.head?.map nameNode?).getD (some n)
      | .callExpression => if n.isCall then (n.child? .function).bind nameNode? else some n
      | .memberExpression => n.child? .property
      | _ => some n := by
  cases n with
  | mk symbol => cases symbol <;> simp only [nameNode?, firstNameNode?_eq, nameNodeAs?_eq] <;> rfl

theorem reaches_nameNode? {n m : Node} (h : n.nameNode? = some m) : n.Reaches m := by
  induction n using childrenInduction with
  | node n ih =>
    rw [nameNode?_eq] at h
    split at h
    · cases hm : n.members.head? with
      | none =>
        rw [hm] at h
        cases h
        exact .refl _
      | some c =>
        rw [hm] at h
        have hc := List.mem_of_mem_head? hm
        have hcn := mem_children_of_mem_namedChildren (mem_members hc)
        exact (reaches_of_mem_members hc).trans (ih c hcn h)
    · split at h
      · obtain ⟨c, hc, h⟩ := Option.bind_eq_some_iff.mp h
        exact (reaches_child? hc).trans (ih c (child?_eq_some hc).1 h)
      · cases h
        exact .refl _
    · exact reaches_child? h
    · cases h
      exact .refl _

theorem reaches_anchor? {call m : Node} (h : call.anchor? = some m) :
    ∃ c, call.child? .function = some c ∧ c.Reaches m := by
  obtain ⟨c, hc, h⟩ := Option.bind_eq_some_iff.mp h
  exact ⟨c, hc, reaches_nameNode? h⟩

end Node
end SuiteOutline
