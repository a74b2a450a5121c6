import Mathlib.Algebra.GroupWithZero.Nat
import Mathlib.Data.List.Chain
import Mathlib.Data.List.Flatten
import SuiteOutline.Tree.Walk

/-! Walks with a stack are recursive walks, each node in front of what is below it. -/
namespace SuiteOutline
namespace Node

/-- A property of all trees holds if it passes from the children of a node to the node. -/
@[elab_as_elim] theorem childrenInduction {motive : Node → Prop}
    (node : ∀ n : Node, (∀ c ∈ n.children, motive c) → motive n) (n : Node) : motive n := by
  apply node
  intro c hc
  have : sizeOf c < sizeOf n := by
    have hlt := List.sizeOf_lt_of_mem hc
    cases n
    simp only [mk.sizeOf_spec] at hlt ⊢
    omega
  exact childrenInduction node c
termination_by sizeOf n

theorem mem_children_of_mem_namedChildren {n c : Node} (h : c ∈ n.namedChildren) :
    c ∈ n.children := List.mem_of_mem_filter h

mutual
/-- The visits to a node and to all named ones below it, with the nodes around the first given. -/
def tour (enclosing : List Node) : Node → List Visit
  | n@⟨_, _, _, _, _, children⟩ => ⟨n, enclosing⟩ :: tourOf (n :: enclosing) children

def tourOf (enclosing : List Node) : List Node → List Visit
  | [] => []
  | c :: cs => if c.named then tour enclosing c ++ tourOf enclosing cs else tourOf enclosing cs
end

theorem tourOf_eq (enclosing cs : List Node) :
    tourOf enclosing cs = (cs.filter (·.named)).flatMap (tour enclosing) := by
  induction cs with
  | nil => rfl
  | cons c cs ih =>
    rw [tourOf, ih]
    cases hc : c.named <;> simp [hc]

theorem tour_eq (enclosing : List Node) (n : Node) :
    n.tour enclosing = ⟨n, enclosing⟩ :: n.namedChildren.flatMap (tour (n :: enclosing)) := by
  cases n
  rw [tour, tourOf_eq, namedChildren]

theorem sizeAll_eq (cs : List Node) : sizeAll cs = (cs.map size).sum := by
  induction cs with
  | nil => rfl
  | cons c cs ih => rw [sizeAll, ih, List.map_cons, List.sum_cons]

theorem size_eq (n : Node) : n.size = (n.children.map size).sum + 1 := by
  cases n
  rw [size, sizeAll_eq]

/-- The fuel of a walk: what is below a node costs less than the node. -/
theorem sum_size_namedChildren_lt (n : Node) : (n.namedChildren.map size).sum < n.size := by
  have hle : ∀ cs : List Node, ((cs.filter (·.named)).map size).sum ≤ (cs.map size).sum := by
    intro cs
    induction cs with
    | nil => exact Nat.le_refl _
    | cons c cs ih =>
      cases hc : c.named <;> simp only [List.filter_cons, hc, List.map_cons, List.sum_cons,
        if_true, Bool.false_eq_true, if_false] <;> omega
  rw [size_eq]
  exact Nat.lt_succ_of_le (hle n.children)

end Node

namespace Visit

/-- The visits that a stack leaves to be made: the tours of its elements one after the other. -/
def pending (stack : List Visit) : List Visit := stack.flatMap fun v => v.node.tour v.enclosing

/-- What is on top is visited, and then what its place on the stack is given to. -/
theorem pending_cons (v : Visit) (stack : List Visit) :
    pending (v :: stack) = v :: pending (v.below ++ stack) := by
  rw [pending, pending, List.flatMap_cons, List.flatMap_append, Node.tour_eq, List.cons_append, below,
    List.flatMap_map]

/-- With fuel for all nodes on the stack and below, a walk makes all visits. -/
theorem visitsFrom_eq {fuel : Nat} {stack : List Visit}
    (h : (stack.map (·.node.size)).sum ≤ fuel) : visitsFrom fuel stack = pending stack := by
  induction fuel generalizing stack with
  | zero =>
    cases stack with
    | nil => rfl
    | cons v stack =>
      rw [List.map_cons, List.sum_cons, Node.size_eq] at h
      omega
  | succ fuel ih =>
    cases stack with
    | nil => rfl
    | cons v stack =>
      have hbelow : (v.below.map (·.node.size)).sum < v.node.size := by
        simpa [below, Function.comp_def] using v.node.sum_size_namedChildren_lt
      have hrest : ((v.below ++ stack).map (·.node.size)).sum ≤ fuel := by
        rw [List.map_cons, List.sum_cons] at h
        rw [List.map_append, List.sum_append]
        omega
      rw [visitsFrom, ih hrest, pending_cons]

theorem map_node_visitsFrom (fuel : Nat) (stack : List Visit) :
    (visitsFrom fuel stack).map (·.node) = Node.walkFrom fuel (stack.map (·.node)) := by
  induction fuel generalizing stack with
  | zero => rfl
  | succ fuel ih =>
    cases stack with
    | nil => rfl
    | cons v stack =>
      rw [visitsFrom, List.map_cons, ih, List.map_append, List.map_cons, Node.walkFrom, below,
        List.map_map]
      simp [Function.comp_def]

end Visit

namespace Node

theorem visits_eq_tour (n : Node) : n.visits = n.tour [] := by
  rw [visits, Visit.visitsFrom_eq (by simp)]
  simp [Visit.pending]

theorem map_node_visits (n : Node) : n.visits.map (·.node) = n.walk :=
  Visit.map_node_visitsFrom n.size [⟨n, []⟩]

/-- The nodes of a tour do not depend on what is around it. -/
theorem map_node_tour (enclosing : List Node) (n : Node) :
    (n.tour enclosing).map (·.node) = n.walk := by
  rw [← map_node_visits, visits_eq_tour]
  induction n using childrenInduction generalizing enclosing with
  | node n ih =>
    rw [tour_eq enclosing, tour_eq [], List.map_cons, List.map_cons, List.map_flatMap,
      List.map_flatMap]
    congr 1
    refine List.flatMap_congr fun c hc => ?_
    have hc := mem_children_of_mem_namedChildren hc
    rw [ih c hc (n :: enclosing), ih c hc [n]]

theorem walk_eq (n : Node) : n.walk = n :: n.namedChildren.flatMap walk := by
  rw [← map_node_tour [] n, tour_eq, List.map_cons, List.map_flatMap]
  simp only [map_node_tour]

theorem self_mem_walk (n : Node) : n ∈ n.walk := by
  rw [walk_eq]
  exact List.mem_cons_self

theorem mem_walk_iff {n m : Node} : m ∈ n.walk ↔ m = n ∨ ∃ c ∈ n.namedChildren, m ∈ c.walk := by
  rw [walk_eq, List.mem_cons, List.mem_flatMap]

/-- What is below a node on a walk is on the walk. -/
theorem mem_walk_trans {n m k : Node} (hm : m ∈ n.walk) (hk : k ∈ m.walk) : k ∈ n.walk := by
  induction n using childrenInduction with
  | node n ih =>
    rcases mem_walk_iff.mp hm with rfl | ⟨c, hc, hm⟩
    · exact hk
    · exact mem_walk_iff.mpr (.inr ⟨c, hc, ih c (mem_children_of_mem_namedChildren hc) hm⟩)

theorem mem_walk_of_mem_namedChildren {n c : Node} (h : c ∈ n.namedChildren) : c ∈ n.walk :=
  mem_walk_iff.mpr (.inr ⟨c, h, c.self_mem_walk⟩)

/-- The nodes around a visited one are its parent, the parent's parent, and so on. -/
theorem isChain_tour {enclosing : List Node} {n : Node}
    (h : List.IsChain (fun c p : Node => c ∈ p.namedChildren) (n :: enclosing)) {v : Visit}
    (hv : v ∈ n.tour enclosing) :
    List.IsChain (fun c p : Node => c ∈ p.namedChildren) (v.node :: v.enclosing) := by
  induction n using childrenInduction generalizing enclosing with
  | node n ih =>
    rw [tour_eq, List.mem_cons, List.mem_flatMap] at hv
    rcases hv with rfl | ⟨c, hc, hv⟩
    · exact h
    · exact ih c (mem_children_of_mem_namedChildren hc) (List.isChain_cons_cons.mpr ⟨hc, h⟩) hv

theorem pairwise_enclosing {n : Node} {v : Visit} (hv : v ∈ n.visits) :
    (v.node :: v.enclosing).Pairwise fun inner outer => inner ∈ outer.walk := by
  have hchain := isChain_tour (List.isChain_singleton n) (n.visits_eq_tour ▸ hv)
  have : IsTrans Node fun inner outer => inner ∈ outer.walk :=
    ⟨fun _ _ _ hab hbc => mem_walk_trans hbc hab⟩
  exact (hchain.imp fun _ _ h => mem_walk_of_mem_namedChildren h).pairwise

/-- The nodes around a visited one are met on the walk too. -/
theorem mem_walk_of_mem_enclosing {n m : Node} {v : Visit} (hv : v ∈ n.visits)
    (hm : m ∈ v.enclosing) : m ∈ n.walk := by
  have h : ∀ enclosing, v ∈ n.tour enclosing → m ∈ v.enclosing → m ∈ enclosing ∨ m ∈ n.walk := by
    clear hv hm
    induction n using childrenInduction with
    | node n ih =>
      intro enclosing hv hm
      rw [tour_eq, List.mem_cons, List.mem_flatMap] at hv
      rcases hv with rfl | ⟨c, hc, hv⟩
      · exact .inl hm
      · rcases ih c (mem_children_of_mem_namedChildren hc) (n :: enclosing) hv hm with h | h
        · rcases List.mem_cons.mp h with rfl | h
          · exact .inr (self_mem_walk _)
          · exact .inl h
        · exact .inr (mem_walk_iff.mpr (.inr ⟨c, hc, h⟩))
  rcases h [] (n.visits_eq_tour ▸ hv) hm with h | h
  · cases h
  · exact h

theorem mem_walk_of_mem_visits {n : Node} {v : Visit} (hv : v ∈ n.visits) : v.node ∈ n.walk := by
  rw [← map_node_visits]
  exact List.mem_map_of_mem hv

end Node
end SuiteOutline
