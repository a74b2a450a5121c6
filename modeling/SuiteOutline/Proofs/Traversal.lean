import Mathlib.Logic.Function.Iterate
import SuiteOutline.Proofs.Site
import SuiteOutline.Proofs.WellFormed

/-! The loops behind the walks. Each turn takes the top off the stack and puts its named children in
its place, so what a stack leaves to be visited gets shorter by one visit a turn. From that the loops
end, and what they yield is the recursive walk, each site of the tree with the way down to it. -/
namespace SuiteOutline

namespace Node

mutual
/-- The node, and behind it the named nodes below, child by child. -/
def preorder : Node → List Node
  | n@⟨_, _, _, _, _, children⟩ => n :: preorderOf children

def preorderOf : List Node → List Node
  | [] => []
  | c :: cs => if c.named then preorder c ++ preorderOf cs else preorderOf cs
end

/-- One turn of a walk: the named children of the node on top take its place. -/
def turn : List Node → List Node
  | [] => []
  | n :: stack => n.namedChildren ++ stack

theorem preorderOf_eq (cs : List Node) :
    preorderOf cs = (cs.filter (·.named)).flatMap preorder := by
  induction cs with
  | nil => rfl
  | cons c cs ih =>
    rw [preorderOf, ih]
    cases hc : c.named <;> simp [hc]

theorem preorder_eq (n : Node) : n.preorder = n :: n.namedChildren.flatMap preorder := by
  cases n
  rw [preorder, preorderOf_eq, namedChildren]

theorem walk_eq_preorder (n : Node) : n.walk = n.preorder := by
  induction n using childrenInduction with
  | node n ih =>
    have hbelow : n.namedChildren.flatMap walk = n.namedChildren.flatMap preorder := by
      apply List.flatMap_congr
      intro c hc
      exact ih c (mem_children_of_mem_namedChildren hc)
    rw [walk_eq, preorder_eq, hbelow]

end Node

namespace Visit

/-- One turn of a walk with the nodes around each: the visits below the one on top replace it. -/
def turn : List Visit → List Visit
  | [] => []
  | v :: stack => v.below ++ stack

/-- A turn makes one of the visits that are left. -/
theorem pending_turn (stack : List Visit) : pending (turn stack) = (pending stack).drop 1 := by
  cases stack with
  | nil => rfl
  | cons v stack => rw [turn, pending_cons, List.drop_succ_cons, List.drop_zero]

theorem pending_iterate_turn (k : Nat) (stack : List Visit) :
    pending (turn^[k] stack) = (pending stack).drop k := by
  induction k generalizing stack with
  | zero => rfl
  | succ k ih =>
    rw [Function.iterate_succ_apply, ih, pending_turn, List.drop_drop, Nat.add_comm]

theorem pending_eq_nil_iff {stack : List Visit} : pending stack = [] ↔ stack = [] := by
  cases stack with
  | nil => exact iff_of_true rfl rfl
  | cons v stack =>
    rw [pending_cons]
    exact iff_of_false (List.cons_ne_nil _ _) (List.cons_ne_nil _ _)

/-- The loop ends after as many turns as there are visits to make. -/
theorem iterate_turn_eq_nil_iff {k : Nat} {stack : List Visit} :
    turn^[k] stack = [] ↔ (pending stack).length ≤ k := by
  rw [← pending_eq_nil_iff, pending_iterate_turn, List.drop_eq_nil_iff]

/-- What the first turns yield, be they few or more than there are. -/
theorem visitsFrom_eq_take (fuel : Nat) (stack : List Visit) :
    visitsFrom fuel stack = (pending stack).take fuel := by
  induction fuel generalizing stack with
  | zero => rfl
  | succ fuel ih =>
    cases stack with
    | nil => rfl
    | cons v stack => rw [visitsFrom, ih, pending_cons, List.take_succ_cons]

theorem map_node_turn (stack : List Visit) :
    (turn stack).map (·.node) = Node.turn (stack.map (·.node)) := by
  cases stack with
  | nil => rfl
  | cons v stack => simp [turn, Node.turn, below, Function.comp_def]

theorem map_node_iterate_turn (k : Nat) (stack : List Visit) :
    (turn^[k] stack).map (·.node) = Node.turn^[k] (stack.map (·.node)) :=
  (Function.Semiconj.iterate_right map_node_turn k) stack

theorem pending_root (root : Node) : pending [⟨root, []⟩] = root.visits := by
  rw [pending, List.flatMap_singleton, Node.visits_eq_tour]

/-- The nodes around a visited one are the way down to it from the root, each a named child of the
one before. -/
structure DownFrom (root : Node) (v : Visit) : Prop where
  first : (v.ancestors ++ [v.node]).head? = some root
  linked : (v.ancestors ++ [v.node]).IsChain fun outer inner => inner ∈ outer.namedChildren

end Visit

namespace Site

/-- The site is reached from the root through named children. -/
inductive Met (root : Node) : Site → Prop
  | root : Met root ⟨root, []⟩
  | child {s t : Site} (hs : Met root s) (ht : t ∈ s.children) (hnamed : t.node.named = true) :
      Met root t

variable {root : Node} {s t u : Site}

theorem self_mem_walk (s : Site) : s ∈ s.walk := by
  rw [walk_eq]
  exact List.mem_cons_self

theorem mem_walk_of_mem_children (ht : t ∈ s.walk) (hu : u ∈ t.children)
    (hnamed : u.node.named = true) : u ∈ s.walk := by
  induction s using childrenInduction with
  | site s ih =>
    rw [walk_eq, List.mem_cons, List.mem_flatMap] at ht ⊢
    right
    rcases ht with rfl | ⟨c, hc, ht⟩
    · exact ⟨u, List.mem_filter.mpr ⟨hu, hnamed⟩, u.self_mem_walk⟩
    · exact ⟨c, hc, ih c (List.mem_of_mem_filter hc) ht⟩

theorem Met.of_mem_walk (hs : Met root s) (h : t ∈ s.walk) : Met root t := by
  induction s using childrenInduction with
  | site s ih =>
    rw [walk_eq, List.mem_cons, List.mem_flatMap] at h
    rcases h with rfl | ⟨c, hc, ht⟩
    · exact hs
    · obtain ⟨hmem, hnamed⟩ := List.mem_filter.mp hc
      exact ih c hmem (hs.child hmem hnamed) ht

/-- The sites of a walk are those that are reached. -/
theorem mem_sites_iff : s ∈ root.sites ↔ Met root s := by
  constructor
  · intro h
    exact Met.root.of_mem_walk h
  · intro h
    induction h with
    | root => exact self_mem_walk _
    | child _ ht hnamed ih => exact mem_walk_of_mem_children ih ht hnamed

theorem ancestors_of_mem_children (h : t ∈ s.children) :
    t.visit.ancestors = s.visit.ancestors ++ [s.visit.node] := by
  obtain ⟨i, -, habove⟩ := mem_children.mp h
  simp [Visit.ancestors, visit, habove]

theorem Met.downFrom (h : Met root s) : s.visit.DownFrom root := by
  induction h with
  | root => exact ⟨rfl, List.isChain_singleton _⟩
  | @child s t _ ht hnamed ih =>
    have hlink : t.node ∈ s.node.namedChildren :=
      List.mem_filter.mpr ⟨mem_children_node ht, hnamed⟩
    constructor
    · rw [ancestors_of_mem_children ht, List.head?_append, ih.first, Option.some_or]
    · rw [ancestors_of_mem_children ht]
      apply ih.linked.append (List.isChain_singleton _)
      simpa [visit] using hlink

end Site

namespace Node

theorem downFrom_of_mem_visits {root : Node} {v : Visit} (hv : v ∈ root.visits) :
    v.DownFrom root := by
  rw [← map_visit_sites] at hv
  obtain ⟨s, hs, rfl⟩ := List.mem_map.mp hv
  exact (Site.mem_sites_iff.mp hs).downFrom

theorem iterate_turn_eq_nil_iff (root : Node) (k : Nat) :
    turn^[k] [root] = [] ↔ root.walk.length ≤ k := by
  have hstack : turn^[k] [root] = (Visit.turn^[k] [⟨root, []⟩]).map (·.node) :=
    (Visit.map_node_iterate_turn k [⟨root, []⟩]).symm
  rw [hstack, List.map_eq_nil_iff, Visit.iterate_turn_eq_nil_iff, Visit.pending_root,
    ← map_node_visits, List.length_map]

theorem walkFrom_eq_take (root : Node) (fuel : Nat) :
    walkFrom fuel [root] = root.walk.take fuel := by
  have hyield := Visit.map_node_visitsFrom fuel [⟨root, []⟩]
  rw [List.map_singleton] at hyield
  rw [← hyield, Visit.visitsFrom_eq_take, Visit.pending_root, List.map_take, map_node_visits]

/-- The walks with a stack are the recursive walk. Both loops end, after as many turns as they yield
nodes, and no turn yields anything else. They yield the node and the named ones below in the same
order; with each goes the way down to it, and each site that is reached through named children is
met once. -/
theorem walks_exact (root : Node) :
    (root.walk = root.preorder ∧
      (∀ k, turn^[k] [root] = [] ↔ root.walk.length ≤ k) ∧
      ∀ fuel, walkFrom fuel [root] = root.walk.take fuel) ∧
    (root.visits.map (·.node) = root.preorder ∧
      (∀ k, Visit.turn^[k] [⟨root, []⟩] = [] ↔ root.visits.length ≤ k) ∧
      ∀ fuel, Visit.visitsFrom fuel [⟨root, []⟩] = root.visits.take fuel) ∧
    (∀ v ∈ root.visits, v.DownFrom root) ∧
    (root.sites.map Site.visit = root.visits ∧ root.sites.Nodup ∧
      ∀ s, s ∈ root.sites ↔ Site.Met root s) := by
  refine ⟨⟨root.walk_eq_preorder, root.iterate_turn_eq_nil_iff, root.walkFrom_eq_take⟩,
    ⟨?_, fun k => ?_, fun fuel => ?_⟩, fun v hv => downFrom_of_mem_visits hv,
    root.map_visit_sites, root.nodup_sites, fun s => Site.mem_sites_iff⟩
  · rw [map_node_visits, walk_eq_preorder]
  · rw [Visit.iterate_turn_eq_nil_iff, Visit.pending_root]
  · rw [Visit.visitsFrom_eq_take, Visit.pending_root]

end Node

namespace Sample

/-- Empty statements are nodes without a stretch of text, so two of them may be the same. -/
def idle : Node :=
  node none (.other "statement_block") 0 0 [node none (.other "empty_statement") 0 0 []]

def twins : Node := node none (.other "program") 0 0 [idle, token (.other ";") 0 0, idle]

end Sample

/-- Two children that are the same are walked apart; the token between them is passed over. -/
theorem Node.walks_exact_twins :
    Sample.twins.walk.length = 5 ∧ Node.turn^[5] [Sample.twins] = [] ∧
      Visit.turn^[4] [⟨Sample.twins, []⟩] ≠ [] ∧
      ∀ v ∈ Sample.twins.visits.getLast?, v.DownFrom Sample.twins := by
  obtain ⟨⟨-, hends, -⟩, ⟨-, hgoes, -⟩, hdown, -⟩ := walks_exact Sample.twins
  refine ⟨by decide, (hends 5).mpr (by decide), fun hend => ?_, fun v hv => ?_⟩
  · have hlength : Sample.twins.visits.length ≤ 4 := (hgoes 4).mp hend
    exact absurd hlength (by decide)
  · exact hdown v (List.mem_of_mem_getLast? hv)

end SuiteOutline
