import Mathlib.Data.List.Infix
import SuiteOutline.Proofs.Walk

/-! Places of nodes. Equal nodes may stand at several places of a tree; the way from the root tells
them apart, and what is below a node has a way that goes on from its own. -/
namespace SuiteOutline
namespace Node

mutual
/-- The node and all named ones below it, each with the way to it: which of the named children to
take at each step. -/
def places : Node → List (List Nat × Node)
  | n@⟨_, _, _, _, _, children⟩ => ([], n) :: placesOf 0 children

def placesOf (index : Nat) : List Node → List (List Nat × Node)
  | [] => []
  | c :: cs =>
    if c.named then (places c).map (fun p => (index :: p.1, p.2)) ++ placesOf (index + 1) cs
    else placesOf index cs
end

theorem placesOf_eq (index : Nat) (cs : List Node) :
    placesOf index cs = ((cs.filter (·.named)).zipIdx index).flatMap fun c =>
      c.1.places.map fun p => (c.2 :: p.1, p.2) := by
  induction cs generalizing index with
  | nil => rfl
  | cons c cs ih =>
    rw [placesOf, ih, ih]
    cases hc : c.named <;> simp [hc]

theorem places_eq (n : Node) :
    n.places = ([], n) :: n.namedChildren.zipIdx.flatMap fun c =>
      c.1.places.map fun p => (c.2 :: p.1, p.2) := by
  cases n
  rw [places, placesOf_eq, namedChildren]

theorem map_snd_places (n : Node) : n.places.map (·.2) = n.walk := by
  induction n using childrenInduction with
  | node n ih =>
    rw [places_eq, walk_eq, List.map_cons, List.map_flatMap]
    congr 1
    have hchild : ∀ c ∈ n.namedChildren.zipIdx,
        (c.1.places.map fun p => (c.2 :: p.1, p.2)).map (·.2) = c.1.walk := by
      intro c hc
      have hmem := mem_children_of_mem_namedChildren (List.fst_mem_of_mem_zipIdx hc)
      rw [List.map_map, ← ih c.1 hmem]
      rfl
    rw [List.flatMap_congr hchild, ← List.flatMap_map, List.zipIdx_map_fst]

theorem mem_walk_of_mem_places {n f : Node} {way : List Nat} (h : (way, f) ∈ n.places) :
    f ∈ n.walk := by
  rw [← map_snd_places]
  exact List.mem_map_of_mem h

theorem mem_places_nil {n f : Node} (h : ([], f) ∈ n.places) : f = n := by
  rw [places_eq, List.mem_cons, List.mem_flatMap] at h
  rcases h with h | ⟨c, -, h⟩
  · exact (Prod.mk.inj h).2
  · simp at h

theorem mem_places_cons {n f : Node} {i : Nat} {way : List Nat} (h : (i :: way, f) ∈ n.places) :
    ∃ c, (c, i) ∈ n.namedChildren.zipIdx ∧ (way, f) ∈ c.places := by
  rw [places_eq, List.mem_cons, List.mem_flatMap] at h
  rcases h with h | ⟨⟨c, j⟩, hc, h⟩
  · cases h
  · obtain ⟨⟨way', f'⟩, hplace, he⟩ := List.mem_map.mp h
    cases he
    exact ⟨c, hc, hplace⟩

/-- Of the children only one has the index that the way begins with. -/
private theorem flatMap_zipIdx_eq {α : Type} {cs : List Node} {c : Node} {i k : Nat}
    (h : (c, i) ∈ cs.zipIdx k) (g : Node → List α) :
    ((cs.zipIdx k).flatMap fun d => if d.2 = i then g d.1 else []) = g c := by
  induction cs generalizing k with
  | nil => cases h
  | cons d cs ih =>
    rw [List.zipIdx_cons, List.mem_cons] at h
    rw [List.zipIdx_cons, List.flatMap_cons]
    by_cases hk : k = i
    · subst hk
      have hrest : ((cs.zipIdx (k + 1)).flatMap fun d => if d.2 = k then g d.1 else []) = [] := by
        refine List.flatMap_eq_nil_iff.mpr fun e he => if_neg ?_
        have := List.le_snd_of_mem_zipIdx he
        omega
      rcases h with h | h
      · cases h
        simp [hrest]
      · have := List.le_snd_of_mem_zipIdx h
        dsimp only at this
        omega
    · rcases h with h | h
      · exact absurd (Prod.mk.inj h).2.symm hk
      · simp only [hk, if_false, List.nil_append]
        exact ih h

/-- The places whose way goes on from that of a node are those of the node itself. -/
theorem filter_places {n f : Node} {way : List Nat} (h : (way, f) ∈ n.places) :
    n.places.filter (fun p => way.isPrefixOf p.1) = f.places.map fun p => (way ++ p.1, p.2) := by
  induction n using childrenInduction generalizing way with
  | node n ih =>
    cases way with
    | nil =>
      obtain rfl := mem_places_nil h
      simp
    | cons i way =>
      obtain ⟨c, hc, hf⟩ := mem_places_cons h
      have hmem := mem_children_of_mem_namedChildren (List.fst_mem_of_mem_zipIdx hc)
      have hone : ∀ d ∈ n.namedChildren.zipIdx,
          (d.1.places.map fun p => (d.2 :: p.1, p.2)).filter (fun p => (i :: way).isPrefixOf p.1) =
            if d.2 = i then
              (d.1.places.filter fun p => way.isPrefixOf p.1).map fun p => (i :: p.1, p.2)
            else [] := by
        rintro ⟨d, j⟩ -
        rw [List.filter_map]
        by_cases hj : j = i
        · subst hj
          simp [Function.comp_def]
        · simp [Function.comp_def, hj, Ne.symm hj]
      rw [places_eq, List.filter_cons_of_neg (by simp), List.filter_flatMap,
        List.flatMap_congr hone, flatMap_zipIdx_eq hc fun d =>
          (d.places.filter fun p => way.isPrefixOf p.1).map fun p => (i :: p.1, p.2),
        ih c hmem hf, List.map_map]
      rfl

end Node
end SuiteOutline
