import Mathlib.Data.List.Induction
import Mathlib.Data.List.Nodup
import SuiteOutline.Sorted
import SuiteOutline.Value.Basic

/-! Lists without repetitions, and the entries of an object, whose keys may be given more than
once. -/
namespace SuiteOutline

section

variable {α : Type} [BEq α] [LawfulBEq α]

theorem mem_distinct {a : α} {l : List α} : a ∈ distinct l ↔ a ∈ l := by
  induction l with
  | nil => rfl
  | cons b l ih =>
    rw [distinct, List.mem_cons, List.mem_cons, List.mem_filter, ih]
    by_cases h : a = b <;> simp [h]

theorem nodup_distinct (l : List α) : (distinct l).Nodup := by
  induction l with
  | nil => exact List.nodup_nil
  | cons a l ih =>
    rw [distinct, List.nodup_cons]
    exact ⟨by simp, ih.filter _⟩

/-- An item at the end is kept only if it is new. -/
theorem distinct_concat (l : List α) (a : α) :
    distinct (l ++ [a]) = if l.contains a then distinct l else distinct l ++ [a] := by
  induction l with
  | nil => rfl
  | cons b l ih =>
    rw [List.cons_append, distinct, distinct, ih]
    by_cases hl : l.contains a = true
    · have hcons : (b :: l).contains a = true := by simp_all
      rw [if_pos hl, if_pos hcons]
    · rw [if_neg hl, List.filter_append]
      by_cases hb : a = b
      · simp [hb]
      · simp_all

end

variable {α : Type}

instance instLawfulBEqCodePoint : LawfulBEq CodePoint := inferInstanceAs (LawfulBEq (Fin 0x110000))

/-- Each key once, where it comes first, with the value that it has last. -/
def keyed (pairs : List (Text × α)) : List (Text × α) :=
  (distinct (pairs.map (·.1))).filterMap fun key => pairs.reverse.find? (·.1 == key)

/-- To set a key replaces its entry, or adds one at the end. -/
theorem setEntry_filterMap {keys : List Text} {entry : Text → Option (Text × α)}
    (hkeys : keys.Nodup) (hentry : ∀ k ∈ keys, ∃ v, entry k = some (k, v)) (key : Text) (value : α) :
    setEntry key value (keys.filterMap entry) =
      if key ∈ keys then keys.filterMap fun k => if k = key then some (key, value) else entry k
      else keys.filterMap entry ++ [(key, value)] := by
  induction keys with
  | nil => rfl
  | cons k keys ih =>
    obtain ⟨hk, hkeys⟩ := List.nodup_cons.mp hkeys
    obtain ⟨⟨v, hv⟩, hentry⟩ := List.forall_mem_cons.mp hentry
    rw [List.filterMap_cons_some hv, setEntry]
    by_cases hkey : k = key
    · subst hkey
      have hrest : keys.filterMap (fun l => if l = k then some (k, value) else entry l) =
          keys.filterMap entry := by
        refine List.filterMap_congr fun l hl => if_neg ?_
        rintro rfl
        exact hk hl
      simp [hrest]
    · have hne : key ≠ k := fun h => hkey h.symm
      rw [if_neg hkey, ih hkeys hentry]
      by_cases hmem : key ∈ keys
      · simp [hmem, hkey, hv]
      · simp [hmem, hne]

/-- Every key of a list is found from its end. -/
theorem exists_find?_reverse {pairs : List (Text × α)} {key : Text}
    (h : key ∈ pairs.map (·.1)) : ∃ v, pairs.reverse.find? (·.1 == key) = some (key, v) := by
  obtain ⟨pair, hpair, rfl⟩ := List.mem_map.mp h
  have hsome : (pairs.reverse.find? (·.1 == pair.1)).isSome = true :=
    List.find?_isSome.mpr ⟨pair, List.mem_reverse.mpr hpair, beq_self_eq_true _⟩
  obtain ⟨found, hfound⟩ := Option.isSome_iff_exists.mp hsome
  have hkey : found.1 = pair.1 := by simpa using List.find?_some hfound
  exact ⟨found.2, by rw [hfound, ← hkey]⟩

/-- To set the entries one after the other leaves each key at its first place with its last value. -/
theorem entriesOf_eq_keyed (pairs : List (Text × α)) : entriesOf pairs = keyed pairs := by
  induction pairs using List.reverseRecOn with
  | nil => rfl
  | append_singleton pairs pair ih =>
    obtain ⟨key, value⟩ := pair
    have hset : entriesOf (pairs ++ [(key, value)]) = setEntry key value (entriesOf pairs) := by
      rw [entriesOf, List.foldl_append]
      rfl
    have hentry : ∀ k ∈ distinct (pairs.map (·.1)),
        ∃ v, pairs.reverse.find? (·.1 == k) = some (k, v) :=
      fun k hk => exists_find?_reverse (mem_distinct.mp hk)
    -- from the end, the new pair is the first to be met
    have hfind : (fun k : Text => (pairs ++ [(key, value)]).reverse.find? (·.1 == k)) =
        fun k => if k = key then some (key, value) else pairs.reverse.find? (·.1 == k) := by
      funext k
      rw [List.reverse_append, List.reverse_singleton, List.singleton_append, List.find?_cons]
      by_cases hk : k = key
      · simp [hk]
      · have hne : (key == k) = false := beq_false_of_ne fun h => hk h.symm
        rw [if_neg hk, hne]
    rw [hset, ih, keyed, keyed, setEntry_filterMap (nodup_distinct _) hentry, hfind, List.map_append,
      List.map_singleton, distinct_concat]
    by_cases hmem : key ∈ pairs.map (·.1)
    · rw [if_pos (mem_distinct.mpr hmem), if_pos (by simpa using hmem)]
    · rw [if_neg (fun h => hmem (mem_distinct.mp h)), if_neg (by simpa using hmem),
        List.filterMap_append]
      simp only [List.filterMap_cons, List.filterMap_nil, if_true]
      refine congrArg (· ++ _) (List.filterMap_congr fun k hk => (if_neg ?_).symm)
      rintro rfl
      exact hmem (mem_distinct.mp hk)

end SuiteOutline
