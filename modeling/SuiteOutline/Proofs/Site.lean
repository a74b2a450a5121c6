import Mathlib.Data.List.Nodup
import SuiteOutline.Proofs.Subtree

/-! Sites of a tree: a node together with all that is around it and which child was taken at each
step, so that equal nodes at two places are told apart. What is read off a node is read off its site
in the same way. -/
namespace SuiteOutline

/-- A node and what is around it, the nearest first: each node there, and the index of its child
that holds the site. -/
structure Site where
  node : Node
  above : List (Nat × Node)
deriving Repr

namespace Site

/-- The way to the site from the root. -/
def way (s : Site) : List Nat := (s.above.map (·.1)).reverse

def visit (s : Site) : Visit := ⟨s.node, s.above.map (·.2)⟩

def child (s : Site) (c : Node × Nat) : Site := ⟨c.1, (c.2, s.node) :: s.above⟩

def children (s : Site) : List Site := s.node.children.zipIdx.map s.child

def child? (s : Site) (role : Role) : Option Site := s.children.find? (·.node.role == some role)

def members (s : Site) : List Site := s.children.filter (·.node.isMember)

def callArguments (s : Site) : List Site :=
  match s.child? .arguments with
  | some list => if list.node.symbol = .arguments then list.members else []
  | none => []

mutual
/-- The site inside the parentheses of a node with so much above it. -/
def inside (above : List (Nat × Node)) : Node → Site
  | n@⟨symbol, _, _, _, _, children⟩ =>
    if symbol = .parenthesizedExpression then (insideFirst n above 0 children).getD ⟨n, above⟩
    else ⟨n, above⟩

def insideFirst (outer : Node) (above : List (Nat × Node)) (index : Nat) :
    List Node → Option Site
  | [] => none
  | c :: cs =>
    if c.isMember then some (inside ((index, outer) :: above) c)
    else insideFirst outer above (index + 1) cs
end

def unwrap (s : Site) : Site := inside s.above s.node

mutual
/-- The sites of a node with so much above it and of all named nodes below. -/
def walkFrom (above : List (Nat × Node)) : Node → List Site
  | n@⟨_, _, _, _, _, children⟩ => ⟨n, above⟩ :: walkFromEach n above 0 children

def walkFromEach (outer : Node) (above : List (Nat × Node)) (index : Nat) :
    List Node → List Site
  | [] => []
  | c :: cs =>
    if c.named then
      walkFrom ((index, outer) :: above) c ++ walkFromEach outer above (index + 1) cs
    else walkFromEach outer above (index + 1) cs
end

def walk (s : Site) : List Site := walkFrom s.above s.node

variable {s t : Site}

/-! The children of a site. -/

theorem mem_children : t ∈ s.children ↔
    ∃ i, s.node.children[i]? = some t.node ∧ t.above = (i, s.node) :: s.above := by
  simp only [children, List.mem_map, Prod.exists, List.mem_zipIdx_iff_getElem?]
  constructor
  · rintro ⟨c, i, hc, rfl⟩
    exact ⟨i, hc, rfl⟩
  · rintro ⟨i, hc, habove⟩
    refine ⟨t.node, i, hc, ?_⟩
    rw [child, ← habove]

theorem mem_children_node (h : t ∈ s.children) : t.node ∈ s.node.children := by
  obtain ⟨i, hi, -⟩ := mem_children.mp h
  exact List.mem_of_getElem? hi

theorem map_node_children (s : Site) : s.children.map (·.node) = s.node.children := by
  rw [children, List.map_map]
  exact List.zipIdx_map_fst 0 s.node.children

theorem nodup_children (s : Site) : s.children.Nodup := by
  rw [children]
  refine List.Nodup.map_on ?_ ?_
  · intro c _ d _ h
    have hnode : c.1 = d.1 := congrArg Site.node h
    have habove : (c.2, s.node) :: s.above = (d.2, s.node) :: s.above := congrArg Site.above h
    have hindex : c.2 = d.2 := by simpa using habove
    exact Prod.ext hnode hindex
  · have hindices : (s.node.children.zipIdx.map (·.2)).Nodup := by
      rw [List.zipIdx_map_snd]
      exact List.nodup_range'
    exact hindices.of_map

/-! What is read off a site. -/

theorem map_node_child? (s : Site) (role : Role) :
    (s.child? role).map (·.node) = s.node.child? role := by
  rw [Node.child?, ← map_node_children, List.find?_map]
  rfl

theorem mem_children_of_child? {role : Role} (h : s.child? role = some t) : t ∈ s.children :=
  List.mem_of_find?_eq_some h

theorem map_node_members (s : Site) : s.members.map (·.node) = s.node.members := by
  rw [Node.members, ← map_node_children, List.filter_map]
  rfl

theorem mem_children_of_mem_members (h : t ∈ s.members) : t ∈ s.children :=
  List.mem_of_mem_filter h

theorem map_node_callArguments (s : Site) :
    s.callArguments.map (·.node) = s.node.callArguments := by
  unfold callArguments Node.callArguments
  rw [← map_node_child?]
  cases s.child? .arguments with
  | none => rfl
  | some list =>
    by_cases h : list.node.symbol = .arguments
    · simp [h, map_node_members]
    · simp [h]

theorem exists_list_of_mem_callArguments (h : t ∈ s.callArguments) :
    ∃ list ∈ s.children, list.node.symbol = .arguments ∧ t ∈ list.members := by
  unfold callArguments at h
  split at h
  case h_2 => cases h
  case h_1 list hlist =>
    split at h
    case isTrue hsymbol => exact ⟨list, mem_children_of_child? hlist, hsymbol, h⟩
    case isFalse => cases h

theorem insideFirst_eq (outer : Node) (above : List (Nat × Node)) (index : Nat) (cs : List Node) :
    insideFirst outer above index cs =
      (((cs.zipIdx index).map (child ⟨outer, above⟩)).filter
        (·.node.isMember)).head?.map unwrap := by
  induction cs generalizing index with
  | nil => rfl
  | cons c cs ih =>
    rw [insideFirst, ih, List.zipIdx_cons, List.map_cons]
    cases hc : c.isMember <;> simp [hc, child, unwrap]

theorem unwrap_eq (s : Site) :
    s.unwrap = if s.node.symbol = .parenthesizedExpression
      then (s.members.head?.map unwrap).getD s else s := by
  obtain ⟨⟨symbol, span, role, named, missing, cs⟩, above⟩ := s
  rw [unwrap, inside, insideFirst_eq]
  rfl

theorem walkFromEach_eq (outer : Node) (above : List (Nat × Node)) (index : Nat)
    (cs : List Node) :
    walkFromEach outer above index cs =
      (((cs.zipIdx index).map (child ⟨outer, above⟩)).filter (·.node.named)).flatMap walk := by
  induction cs generalizing index with
  | nil => rfl
  | cons c cs ih =>
    rw [walkFromEach, ih, List.zipIdx_cons, List.map_cons]
    cases hc : c.named <;> simp [hc, child, walk]

theorem walk_eq (s : Site) : s.walk = s :: (s.children.filter (·.node.named)).flatMap walk := by
  obtain ⟨⟨symbol, span, role, named, missing, cs⟩, above⟩ := s
  rw [walk, walkFrom, walkFromEach_eq]
  rfl

/-- A property of all sites holds if it passes from the children of a site to the site. -/
@[elab_as_elim] theorem childrenInduction {motive : Site → Prop}
    (site : ∀ s : Site, (∀ t ∈ s.children, motive t) → motive s) (s : Site) : motive s := by
  obtain ⟨n, above⟩ := s
  induction n using Node.childrenInduction generalizing above with
  | node n ih =>
    refine site _ fun t ht => ?_
    obtain ⟨tnode, tabove⟩ := t
    exact ih tnode (mem_children_node ht) tabove

theorem node_unwrap (s : Site) : s.unwrap.node = s.node.unwrap := by
  induction s using childrenInduction with
  | site s ih =>
    rw [unwrap_eq, Node.unwrap_eq, ← map_node_members]
    split
    case isFalse => rfl
    case isTrue =>
      cases hm : s.members with
      | nil => rfl
      | cons m ms =>
        have hmem : m ∈ s.members := by simp [hm]
        simpa using ih m (mem_children_of_mem_members hmem)

/-- Between a site and what its parentheses hold there are only parentheses. -/
theorem exists_above_unwrap (s : Site) :
    ∃ between, s.unwrap.above = between ++ s.above ∧
      ∀ p ∈ between, p.2.symbol = .parenthesizedExpression := by
  induction s using childrenInduction with
  | site s ih =>
    rw [unwrap_eq]
    split
    case isFalse => exact ⟨[], rfl, by simp⟩
    case isTrue hparens =>
      cases hm : s.members with
      | nil => exact ⟨[], rfl, by simp⟩
      | cons m ms =>
        have hmem : m ∈ s.children := mem_children_of_mem_members (by simp [hm])
        obtain ⟨between, habove, hall⟩ := ih m hmem
        obtain ⟨i, -, hm⟩ := mem_children.mp hmem
        refine ⟨between ++ [(i, s.node)], ?_, ?_⟩
        · simp [habove, hm]
        · intro p hp
          rcases List.mem_append.mp hp with hp | hp
          · exact hall p hp
          · obtain rfl := List.mem_singleton.mp hp
            exact hparens

/-! Visited sites. -/

theorem map_visit_walk (s : Site) : s.walk.map visit = s.node.tour (s.above.map (·.2)) := by
  induction s using childrenInduction with
  | site s ih =>
    have hbelow : ∀ t ∈ s.children.filter (·.node.named),
        t.walk.map visit = t.node.tour (s.node :: s.above.map (·.2)) := by
      intro t ht
      have hmem := List.mem_of_mem_filter ht
      obtain ⟨i, -, habove⟩ := mem_children.mp hmem
      rw [ih t hmem, habove, List.map_cons]
    have hnamed : (s.children.filter (·.node.named)).map (·.node) = s.node.namedChildren := by
      rw [Node.namedChildren, ← map_node_children, List.filter_map]
      rfl
    rw [walk_eq, Node.tour_eq, List.map_cons, List.map_flatMap, List.flatMap_congr hbelow, ← hnamed,
      List.flatMap_map]
    rfl

/-- What is above a site is above all that is below it. -/
theorem suffix_of_mem_walk (h : t ∈ s.walk) : s.above <:+ t.above := by
  induction s using childrenInduction with
  | site s ih =>
    rw [walk_eq, List.mem_cons, List.mem_flatMap] at h
    rcases h with rfl | ⟨c, hc, ht⟩
    · exact List.suffix_rfl
    · have hmem := List.mem_of_mem_filter hc
      obtain ⟨i, -, habove⟩ := mem_children.mp hmem
      have hsuffix := ih c hmem ht
      rw [habove] at hsuffix
      exact (List.suffix_cons _ _).trans hsuffix

theorem nodup_walk (s : Site) : s.walk.Nodup := by
  induction s using childrenInduction with
  | site s ih =>
    rw [walk_eq, List.nodup_cons, List.nodup_flatMap]
    refine ⟨?_, fun c hc => ih c (List.mem_of_mem_filter hc), ?_⟩
    · intro hself
      obtain ⟨c, hc, hs⟩ := List.mem_flatMap.mp hself
      obtain ⟨i, -, habove⟩ := mem_children.mp (List.mem_of_mem_filter hc)
      have hlength := (suffix_of_mem_walk hs).length_le
      rw [habove, List.length_cons] at hlength
      omega
    · refine ((nodup_children s).filter _).imp_of_mem fun {a b} ha hb hab => ?_
      intro u hua hub
      -- the suffixes are as long as each other, so the two children are the same
      obtain ⟨i, hi, haboveA⟩ := mem_children.mp (List.mem_of_mem_filter ha)
      obtain ⟨j, hj, haboveB⟩ := mem_children.mp (List.mem_of_mem_filter hb)
      have hsame : a.above = b.above :=
        (List.suffix_of_suffix_length_le (suffix_of_mem_walk hua) (suffix_of_mem_walk hub)
          (by simp [haboveA, haboveB])).eq_of_length (by simp [haboveA, haboveB])
      apply hab
      obtain ⟨anode, aabove⟩ := a
      obtain ⟨bnode, babove⟩ := b
      subst hsame
      rw [haboveA, List.cons.injEq, Prod.mk.injEq] at haboveB
      obtain ⟨⟨rfl, -⟩, -⟩ := haboveB
      cases hi.symm.trans hj
      rfl

/-! The sites of a tree. -/

/-- The site is in the tree: it is its root or the child of a site in it. -/
inductive In (root : Node) : Site → Prop
  | root : In root ⟨root, []⟩
  | child {s t : Site} (hs : In root s) (ht : t ∈ s.children) : In root t

theorem way_of_mem_children {i : Nat} (h : t.above = (i, s.node) :: s.above) :
    t.way = s.way ++ [i] := by
  simp [way, h]

/-- The way tells the sites of a tree apart. -/
theorem In.eq_of_way {root : Node} (hs : In root s) (ht : In root t) (h : s.way = t.way) :
    s = t := by
  induction hs generalizing t with
  | root =>
    cases ht with
    | root => rfl
    | child _ hchild =>
      obtain ⟨i, -, habove⟩ := mem_children.mp hchild
      rw [way_of_mem_children habove] at h
      simp [way] at h
  | @child p s _ hchild ih =>
    obtain ⟨i, hi, habove⟩ := mem_children.mp hchild
    rw [way_of_mem_children habove] at h
    cases ht with
    | root => simp [way] at h
    | @child q _ hq hchild' =>
      obtain ⟨j, hj, habove'⟩ := mem_children.mp hchild'
      rw [way_of_mem_children habove'] at h
      obtain ⟨hway, hindex⟩ := List.append_inj' h rfl
      obtain rfl := ih hq hway
      obtain rfl : i = j := by simpa using hindex
      obtain ⟨snode, sabove⟩ := s
      obtain ⟨tnode, tabove⟩ := t
      cases hi.symm.trans hj
      rw [show sabove = tabove from habove.trans habove'.symm]

theorem In.unwrap {root : Node} (hs : In root s) : In root s.unwrap := by
  induction s using childrenInduction with
  | site s ih =>
    rw [unwrap_eq]
    split
    case isFalse => exact hs
    case isTrue =>
      cases hm : s.members with
      | nil => exact hs
      | cons m ms =>
        have hmem : m ∈ s.children := mem_children_of_mem_members (by simp [hm])
        exact ih m hmem (hs.child hmem)

theorem In.of_mem_walk {root : Node} (hs : In root s) (h : t ∈ s.walk) : In root t := by
  induction s using childrenInduction with
  | site s ih =>
    rw [walk_eq, List.mem_cons, List.mem_flatMap] at h
    rcases h with rfl | ⟨c, hc, ht⟩
    · exact hs
    · have hmem := List.mem_of_mem_filter hc
      exact ih c hmem (hs.child hmem) ht

end Site

namespace Node

/-- The sites of the visited nodes, in the order of the visits. -/
def sites (root : Node) : List Site := Site.walk ⟨root, []⟩

theorem map_visit_sites (root : Node) : root.sites.map Site.visit = root.visits :=
  (Site.map_visit_walk ⟨root, []⟩).trans (visits_eq_tour root).symm

theorem nodup_sites (root : Node) : root.sites.Nodup := Site.nodup_walk _

theorem in_of_mem_sites {root : Node} {s : Site} (h : s ∈ root.sites) : Site.In root s :=
  Site.In.of_mem_walk .root h

/-- The node that a way leads to. -/
def at? (root : Node) : List Nat → Option Node
  | [] => some root
  | i :: way => root.children[i]?.bind (·.at? way)

theorem at?_concat (root : Node) (way : List Nat) (i : Nat) :
    root.at? (way ++ [i]) = (root.at? way).bind (·.children[i]?) := by
  induction way generalizing root with
  | nil => simp [at?]
  | cons j way ih =>
    rw [List.cons_append, at?, at?, Option.bind_assoc]
    exact congrArg _ (funext fun c => ih c)

/-- A site in a tree holds the node that its way leads to. -/
theorem at?_way {root : Node} {s : Site} (h : Site.In root s) :
    root.at? s.way = some s.node := by
  induction h with
  | root => rfl
  | child _ hchild ih =>
    obtain ⟨i, hi, habove⟩ := Site.mem_children.mp hchild
    rw [Site.way_of_mem_children habove, at?_concat, ih]
    exact hi

end Node
end SuiteOutline
