import Mathlib.Data.List.Sort
import SuiteOutline.Outline.Basic

/-! Sorting is stable: it goes along with filters and with maps that keep the order. -/
namespace SuiteOutline

variable {α β : Type}

theorem insertBy_eq_orderedInsert (le : α → α → Bool) (a : α) (l : List α) :
    insertBy le a l = l.orderedInsert (fun x y => le x y = true) a := by
  induction l with
  | nil => rfl
  | cons b l ih => simp only [insertBy, List.orderedInsert_cons, ih]

theorem sortBy_eq_insertionSort (le : α → α → Bool) (l : List α) :
    sortBy le l = l.insertionSort fun x y => le x y = true := by
  induction l with
  | nil => rfl
  | cons a l ih =>
    rw [List.insertionSort_cons, ← ih, ← insertBy_eq_orderedInsert]
    rfl

theorem sortBy_cons (le : α → α → Bool) (a : α) (l : List α) :
    sortBy le (a :: l) = insertBy le a (sortBy le l) := rfl

theorem sortBy_perm (le : α → α → Bool) (l : List α) : (sortBy le l).Perm l := by
  rw [sortBy_eq_insertionSort]
  exact List.perm_insertionSort _ l

@[simp] theorem mem_sortBy {le : α → α → Bool} {a : α} {l : List α} : a ∈ sortBy le l ↔ a ∈ l :=
  (sortBy_perm le l).mem_iff

/-- Any two elements can be compared, and comparisons chain. -/
structure Sorts (le : α → α → Bool) : Prop where
  total : ∀ a b, le a b = true ∨ le b a = true
  trans : ∀ a b c, le a b = true → le b c = true → le a c = true

theorem Sorts.on {le : β → β → Bool} (h : Sorts le) (key : α → β) :
    Sorts fun a b => le (key a) (key b) :=
  ⟨fun a b => h.total (key a) (key b), fun a b c => h.trans (key a) (key b) (key c)⟩

theorem Span.precedes_iff {a b : Span} :
    a.precedes b = true ↔ a.start < b.start ∨ (a.start = b.start ∧ a.stop ≤ b.stop) := by
  simp [Span.precedes]

theorem Span.sorts_precedes : Sorts Span.precedes where
  total a b := by
    simp only [Span.precedes_iff]
    omega
  trans a b c := by
    simp only [Span.precedes_iff]
    omega

theorem sorts_le : Sorts fun a b : Nat => decide (a ≤ b) where
  total a b := by
    simp only [decide_eq_true_eq]
    omega
  trans a b c := by
    simp only [decide_eq_true_eq]
    omega

theorem Sorts.pairwise_sortBy {le : α → α → Bool} (h : Sorts le) (l : List α) :
    (sortBy le l).Pairwise fun a b => le a b = true := by
  have : Std.Total fun a b => le a b = true := ⟨h.total⟩
  have : IsTrans α fun a b => le a b = true := ⟨h.trans⟩
  rw [sortBy_eq_insertionSort]
  exact List.pairwise_insertionSort _ l

theorem insertBy_of_forall_le {le : α → α → Bool} {a : α} {l : List α}
    (h : ∀ b ∈ l, le a b = true) : insertBy le a l = a :: l := by
  cases l with
  | nil => rfl
  | cons b l => simp [insertBy, h b List.mem_cons_self]

theorem filter_insertBy_of_not {le : α → α → Bool} {p : α → Bool} {a : α} (ha : p a = false)
    (l : List α) : (insertBy le a l).filter p = l.filter p := by
  induction l with
  | nil => simp [insertBy, ha]
  | cons b l ih =>
    rw [insertBy]
    split
    · simp [ha]
    · simp only [List.filter_cons, ih]

theorem Sorts.filter_insertBy {le : α → α → Bool} (h : Sorts le) {p : α → Bool} {a : α}
    (ha : p a = true) {l : List α} (hl : l.Pairwise fun a b => le a b = true) :
    (insertBy le a l).filter p = insertBy le a (l.filter p) := by
  induction l with
  | nil => simp [insertBy, ha]
  | cons b l ih =>
    obtain ⟨hb, hl⟩ := List.pairwise_cons.mp hl
    rw [insertBy]
    split
    case isTrue hab =>
      -- what stays behind `a` comes no earlier than `b`
      have hrest : ∀ c ∈ (b :: l).filter p, le a c = true := by
        intro c hc
        rcases List.mem_cons.mp (List.mem_of_mem_filter hc) with rfl | hc
        · exact hab
        · exact h.trans a b c hab (hb c hc)
      rw [List.filter_cons_of_pos ha, insertBy_of_forall_le hrest]
    case isFalse hab =>
      by_cases hpb : p b = true
      · simp only [List.filter_cons_of_pos hpb, ih hl, insertBy, hab, if_false, Bool.false_eq_true]
      · simp only [List.filter_cons_of_neg hpb, ih hl]

theorem Sorts.filter_sortBy {le : α → α → Bool} (h : Sorts le) (p : α → Bool) (l : List α) :
    (sortBy le l).filter p = sortBy le (l.filter p) := by
  induction l with
  | nil => rfl
  | cons a l ih =>
    by_cases ha : p a = true
    · rw [sortBy_cons, h.filter_insertBy ha (h.pairwise_sortBy l), ih, List.filter_cons_of_pos ha,
        sortBy_cons]
    · rw [sortBy_cons, filter_insertBy_of_not (by simpa using ha), ih, List.filter_cons_of_neg ha]

/-- Elements that are strictly apart may be inserted in either order. -/
theorem Sorts.insertBy_comm {le : α → α → Bool} (h : Sorts le) {a b : α} (hab : le a b = false)
    (l : List α) : insertBy le b (insertBy le a l) = insertBy le a (insertBy le b l) := by
  have hba : le b a = true := (h.total a b).resolve_left (by simp [hab])
  induction l with
  | nil => simp [insertBy, hab, hba]
  | cons c l ih =>
    by_cases hac : le a c = true
    · have hbc := h.trans b a c hba hac
      simp [insertBy, hab, hba, hac, hbc]
    · by_cases hbc : le b c = true
      · simp [insertBy, hab, hac, hbc]
      · simp [insertBy, hac, hbc, ih]

theorem Sorts.foldr_insertBy {le : α → α → Bool} (h : Sorts le) (a : α) (l rest : List α) :
    (insertBy le a l).foldr (insertBy le) rest = insertBy le a (l.foldr (insertBy le) rest) := by
  induction l with
  | nil => rfl
  | cons b l ih =>
    rw [insertBy]
    cases hab : le a b with
    | true => rfl
    | false =>
      simp only [Bool.false_eq_true, if_false, List.foldr_cons, ih]
      exact h.insertBy_comm hab _

/-- Sorting the front of a list first changes nothing, as sorting is stable. -/
theorem Sorts.sortBy_append {le : α → α → Bool} (h : Sorts le) (l rest : List α) :
    sortBy le (sortBy le l ++ rest) = sortBy le (l ++ rest) := by
  induction l with
  | nil => rfl
  | cons a l ih =>
    rw [sortBy_cons, sortBy, List.foldr_append, h.foldr_insertBy, ← List.foldr_append,
      List.cons_append, sortBy_cons, ← ih]
    rfl

theorem Sorts.sortBy_append_sortBy {le : α → α → Bool} (h : Sorts le) (l l' : List α) :
    sortBy le (sortBy le l ++ sortBy le l') = sortBy le (l ++ l') := by
  have hidem : sortBy le (sortBy le l') = sortBy le l' := by
    have hnil := h.sortBy_append l' []
    rwa [List.append_nil, List.append_nil] at hnil
  rw [h.sortBy_append, sortBy, List.foldr_append]
  change l.foldr (insertBy le) (sortBy le (sortBy le l')) = _
  rw [hidem, sortBy, sortBy, List.foldr_append]

theorem map_sortBy {le : α → α → Bool} {le' : β → β → Bool} (f : α → β)
    (h : ∀ a b, le a b = le' (f a) (f b)) (l : List α) :
    (sortBy le l).map f = sortBy le' (l.map f) := by
  rw [sortBy_eq_insertionSort, sortBy_eq_insertionSort]
  exact List.map_insertionSort _ _ f l fun a _ b _ => by rw [h]

theorem mem_byPosition {span : α → Span} {a : α} {l : List α} :
    a ∈ byPosition span l ↔ a ∈ l := mem_sortBy

theorem map_byPosition {span : α → Span} {span' : β → Span} (f : α → β)
    (h : ∀ a, span' (f a) = span a) (l : List α) :
    (byPosition span l).map f = byPosition span' (l.map f) :=
  map_sortBy f (fun a b => by rw [h, h]) l

theorem filter_byPosition (span : α → Span) (p : α → Bool) (l : List α) :
    (byPosition span l).filter p = byPosition span (l.filter p) :=
  (Span.sorts_precedes.on span).filter_sortBy p l

theorem pairwise_byPosition (span : α → Span) (l : List α) :
    (byPosition span l).Pairwise fun a b => (span a).precedes (span b) = true :=
  (Span.sorts_precedes.on span).pairwise_sortBy l

/-- The positions of two lists together are found by sorting each list first. -/
theorem byPosition_append (span : α → Span) (l l' : List α) :
    byPosition span (l ++ l') = byPosition span (byPosition span l ++ byPosition span l') :=
  ((Span.sorts_precedes.on span).sortBy_append_sortBy l l').symm

theorem byLocation_perm (problems : List Diagnostic) : (byLocation problems).Perm problems :=
  sortBy_perm _ problems

theorem pairwise_byLocation (problems : List Diagnostic) :
    (byLocation problems).Pairwise fun a b => a.location ≤ b.location := by
  have h := (sorts_le.on Diagnostic.location).pairwise_sortBy problems
  exact h.imp fun hab => of_decide_eq_true hab

/-- In a sorted list an element stands before those that it precedes strictly. -/
theorem lt_of_precedes {span : α → Span} {l : List α} {i j : Nat} {a b : α}
    (hi : (byPosition span l)[i]? = some a) (hj : (byPosition span l)[j]? = some b)
    (hab : (span b).precedes (span a) = false) : i < j := by
  have hsorted := pairwise_byPosition span l
  have hrefl : (span a).precedes (span a) = true := Span.precedes_iff.mpr (by omega)
  obtain ⟨hil, rfl⟩ := List.getElem?_eq_some_iff.mp hi
  obtain ⟨hjl, rfl⟩ := List.getElem?_eq_some_iff.mp hj
  rcases Nat.lt_trichotomy i j with h | rfl | h
  · exact h
  · rw [hrefl] at hab
    cases hab
  · rw [List.pairwise_iff_getElem.mp hsorted j i hjl hil h] at hab
    cases hab

end SuiteOutline
