import Mathlib.Data.List.Forall2
import SuiteOutline.Trace

/-! What a computation that succeeds has gone through: the outcome of each way to put computations
together. -/
namespace SuiteOutline

variable {α β γ : Type}

theorem bind_eq_ok {x : Except Failure α} {f : α → Except Failure β} {b : β} :
    (x >>= f) = .ok b ↔ ∃ a, x = .ok a ∧ f a = .ok b := by
  cases x <;> simp [bind, Except.bind]

@[simp] theorem pure_eq_ok {a b : α} : (pure a : Except Failure α) = .ok b ↔ a = b := by
  simp [pure, Except.pure]

theorem exists_error_iff {x : Except Failure α} : (∃ e, x = .error e) ↔ ¬∃ a, x = .ok a := by
  cases x <;> simp

theorem exists_ok_of_any {x : Except Failure α} {p : α → Bool} (h : x.toOption.any p = true) :
    ∃ a, x = .ok a ∧ p a = true := by
  cases x with
  | error e => cases h
  | ok a => exact ⟨a, rfl, h⟩

theorem mapM_eq_ok {f : α → Except Failure β} {as : List α} {bs : List β} :
    as.mapM f = .ok bs ↔ List.Forall₂ (fun a b => f a = .ok b) as bs := by
  induction as generalizing bs with
  | nil => cases bs <;> simp [List.mapM_nil]
  | cons a as ih =>
    simp only [List.mapM_cons, bind_eq_ok, pure_eq_ok, ih, List.forall₂_cons_left_iff]
    constructor
    · rintro ⟨b, hb, rest, hrest, rfl⟩
      exact ⟨b, rest, hb, hrest, rfl⟩
    · rintro ⟨b, rest, hb, hrest, rfl⟩
      exact ⟨b, hb, rest, hrest, rfl⟩

theorem exists_forall₂ {R : α → β → Prop} {as : List α} (h : ∀ a ∈ as, ∃ b, R a b) :
    ∃ bs, List.Forall₂ R as bs := by
  induction as with
  | nil => exact ⟨[], .nil⟩
  | cons a as ih =>
    obtain ⟨b, hb⟩ := h a List.mem_cons_self
    obtain ⟨bs, hbs⟩ := ih fun a' ha' => h a' (List.mem_cons_of_mem a ha')
    exact ⟨b :: bs, .cons hb hbs⟩

theorem exists_mapM_eq_ok {f : α → Except Failure β} {as : List α}
    (h : ∀ a ∈ as, ∃ b, f a = .ok b) : ∃ bs, as.mapM f = .ok bs := by
  obtain ⟨bs, hbs⟩ := exists_forall₂ h
  exact ⟨bs, mapM_eq_ok.mpr hbs⟩

theorem exists_of_forall₂ {R : α → β → Prop} {as : List α} {bs : List β}
    (h : List.Forall₂ R as bs) {b : β} (hb : b ∈ bs) : ∃ a ∈ as, R a b := by
  induction h with
  | nil => cases hb
  | @cons a _ _ _ hr _ ih =>
    rcases List.mem_cons.mp hb with rfl | hb
    · exact ⟨a, List.mem_cons_self, hr⟩
    · obtain ⟨a', ha', hr'⟩ := ih hb
      exact ⟨a', List.mem_cons_of_mem a ha', hr'⟩

theorem forall₂_getElem? {R : α → β → Prop} {as : List α} {bs : List β}
    (h : List.Forall₂ R as bs) {i : Nat} {a : α} (ha : as[i]? = some a) :
    ∃ b, bs[i]? = some b ∧ R a b := by
  obtain ⟨hi, rfl⟩ := List.getElem?_eq_some_iff.mp ha
  have hi' : i < bs.length := h.length_eq ▸ hi
  exact ⟨bs[i], List.getElem?_eq_getElem hi', h.get hi hi'⟩

theorem forall₂_concat_iff {R : α → β → Prop} {as : List α} {bs : List β} {a : α} {b : β} :
    List.Forall₂ R (as ++ [a]) (bs ++ [b]) ↔ List.Forall₂ R as bs ∧ R a b := by
  rw [← List.forall₂_reverse_iff, List.reverse_concat, List.reverse_concat, List.forall₂_cons,
    List.forall₂_reverse_iff, and_comm]

/-- A relation between the elements of a list carries over to what they give. -/
theorem pairwise_of_forall₂ {R : α → β → Prop} {P : α → α → Prop} {Q : β → β → Prop}
    {as : List α} {bs : List β} (h : List.Forall₂ R as bs) (hp : as.Pairwise P)
    (hq : ∀ a ∈ as, ∀ a' ∈ as, ∀ b b', R a b → R a' b' → P a a' → Q b b') : bs.Pairwise Q := by
  induction h with
  | nil => exact .nil
  | @cons a b as bs hr hrest ih =>
    obtain ⟨hfirst, hp⟩ := List.pairwise_cons.mp hp
    refine List.pairwise_cons.mpr ⟨fun b' hb' => ?_, ih hp fun x hx y hy =>
      hq x (List.mem_cons_of_mem a hx) y (List.mem_cons_of_mem a hy)⟩
    obtain ⟨a', ha', hr'⟩ := exists_of_forall₂ hrest hb'
    exact hq a List.mem_cons_self a' (List.mem_cons_of_mem a ha') b b' hr hr' (hfirst a' ha')

namespace Traced

@[simp] theorem outcome_pure (a : α) : (Pure.pure a : Traced α).outcome = .ok a := rfl

@[simp] theorem outcome_liftM (x : Except Failure α) : (liftM x : Traced α).outcome = x := rfl

@[simp] theorem liftM_ok_bind (a : α) (f : α → Traced β) :
    (liftM (.ok a : Except Failure α) >>= f) = f a := rfl

@[simp] theorem liftM_error_bind (e : Failure) (f : α → Traced β) :
    (liftM (.error e : Except Failure α) >>= f) = fail e := rfl

@[simp] theorem outcome_note (level : Level) (message : String) :
    (note level message).outcome = .ok () := rfl

@[simp] theorem outcome_fail (e : Failure) : (fail e : Traced α).outcome = .error e := rfl

theorem outcome_bind (x : Traced α) (f : α → Traced β) :
    (x >>= f).outcome = x.outcome >>= fun a => (f a).outcome := by
  obtain ⟨log, outcome⟩ := x
  cases outcome <;> rfl

@[simp] theorem outcome_bind_eq_ok {x : Traced α} {f : α → Traced β} {b : β} :
    (x >>= f).outcome = .ok b ↔ ∃ a, x.outcome = .ok a ∧ (f a).outcome = .ok b := by
  rw [outcome_bind, bind_eq_ok]

/-- What a computation finds; one that fails finds nothing. -/
def found? (x : Traced (Option α)) : Option α :=
  match x.outcome with
  | .ok a => a
  | .error _ => none

theorem found?_eq {x : Traced (Option α)} {a : Option α} (h : x.outcome = .ok a) :
    x.found? = a := by
  simp [found?, h]

theorem outcome_of_found? {x : Traced (Option α)} {a : α} (h : x.found? = some a) :
    x.outcome = .ok (some a) := by
  unfold found? at h
  split at h
  case h_1 hx => rw [hx, h]
  case h_2 => cases h

/-- Collecting succeeds if every element does, and the result is what they find. -/
theorem collect_eq_ok {f : α → Traced (Option β)} {as : List α} {bs : List β} :
    (collect f as).outcome = .ok bs ↔
      (∀ a ∈ as, ∃ b, (f a).outcome = .ok b) ∧ bs = as.filterMap fun a => (f a).found? := by
  induction as generalizing bs with
  | nil =>
    change Except.ok [] = Except.ok bs ↔ _
    simp [eq_comm]
  | cons a as ih =>
    simp only [collect, outcome_bind_eq_ok, outcome_pure, Except.ok.injEq, List.forall_mem_cons]
    constructor
    · rintro ⟨b, hb, rest, hrest, rfl⟩
      obtain ⟨hall, rfl⟩ := ih.mp hrest
      refine ⟨⟨⟨b, hb⟩, hall⟩, ?_⟩
      cases b <;> simp [found?_eq hb]
    · rintro ⟨⟨⟨b, hb⟩, hall⟩, rfl⟩
      refine ⟨b, hb, _, ih.mpr ⟨hall, rfl⟩, ?_⟩
      cases b <;> simp [found?_eq hb]

/-- All that a computation finds; one that fails finds nothing. -/
def findings (x : Traced (List α)) : List α :=
  match x.outcome with
  | .ok as => as
  | .error _ => []

theorem findings_eq {x : Traced (List α)} {as : List α} (h : x.outcome = .ok as) :
    x.findings = as := by
  simp [findings, h]

theorem gather_eq_ok {f : α → Traced (List β)} {as : List α} {bs : List β} :
    (gather f as).outcome = .ok bs ↔
      (∀ a ∈ as, ∃ b, (f a).outcome = .ok b) ∧ bs = as.flatMap fun a => (f a).findings := by
  induction as generalizing bs with
  | nil =>
    change Except.ok [] = Except.ok bs ↔ _
    simp [eq_comm]
  | cons a as ih =>
    simp only [gather, outcome_bind_eq_ok, outcome_pure, Except.ok.injEq, List.forall_mem_cons]
    constructor
    · rintro ⟨b, hb, rest, hrest, rfl⟩
      obtain ⟨hall, rfl⟩ := ih.mp hrest
      exact ⟨⟨⟨b, hb⟩, hall⟩, by simp [findings_eq hb]⟩
    · rintro ⟨⟨⟨b, hb⟩, hall⟩, rfl⟩
      exact ⟨b, hb, _, ih.mpr ⟨hall, rfl⟩, by simp [findings_eq hb]⟩

theorem collect_congr {f g : α → Traced (Option β)} {as : List α} (h : ∀ a ∈ as, f a = g a) :
    collect f as = collect g as := by
  induction as with
  | nil => rfl
  | cons a as ih =>
    obtain ⟨ha, has⟩ := List.forall_mem_cons.mp h
    rw [collect, collect, ha, ih has]

theorem gather_congr {f g : α → Traced (List β)} {as : List α} (h : ∀ a ∈ as, f a = g a) :
    gather f as = gather g as := by
  induction as with
  | nil => rfl
  | cons a as ih =>
    obtain ⟨ha, has⟩ := List.forall_mem_cons.mp h
    rw [gather, gather, ha, ih has]

/-- What every element finds in another form is collected in that form. -/
theorem collect_map {f g : α → Traced (Option β)} {e : β → β} {as : List α} {bs : List β}
    (he : ∀ a b, (f a).outcome = .ok b → (g a).outcome = .ok (b.map e))
    (h : (collect f as).outcome = .ok bs) : (collect g as).outcome = .ok (bs.map e) := by
  obtain ⟨hall, rfl⟩ := collect_eq_ok.mp h
  refine collect_eq_ok.mpr ⟨fun a ha => ?_, ?_⟩
  · obtain ⟨b, hb⟩ := hall a ha
    exact ⟨_, he a b hb⟩
  · rw [List.map_filterMap]
    refine List.filterMap_congr fun a ha => ?_
    obtain ⟨b, hb⟩ := hall a ha
    rw [found?_eq hb, found?_eq (he a b hb)]

theorem gather_map {f g : α → Traced (List β)} {e : β → β} {as : List α} {bs : List β}
    (he : ∀ a found, (f a).outcome = .ok found → (g a).outcome = .ok (found.map e))
    (h : (gather f as).outcome = .ok bs) : (gather g as).outcome = .ok (bs.map e) := by
  obtain ⟨hall, rfl⟩ := gather_eq_ok.mp h
  refine gather_eq_ok.mpr ⟨fun a ha => ?_, ?_⟩
  · obtain ⟨found, hfound⟩ := hall a ha
    exact ⟨_, he a found hfound⟩
  · rw [List.map_flatMap]
    refine List.flatMap_congr fun a ha => ?_
    obtain ⟨found, hfound⟩ := hall a ha
    rw [findings_eq hfound, findings_eq (he a found hfound)]

theorem mem_collect {f : α → Traced (Option β)} {as : List α} {bs : List β}
    (h : (collect f as).outcome = .ok bs) {b : β} :
    b ∈ bs ↔ ∃ a ∈ as, (f a).outcome = .ok (some b) := by
  obtain ⟨hall, rfl⟩ := collect_eq_ok.mp h
  rw [List.mem_filterMap]
  refine exists_congr fun a => and_congr_right fun ha => ?_
  obtain ⟨x, hx⟩ := hall a ha
  rw [found?_eq hx, hx, Except.ok.injEq]

theorem mem_gather {f : α → Traced (List β)} {as : List α} {bs : List β}
    (h : (gather f as).outcome = .ok bs) {b : β} :
    b ∈ bs ↔ ∃ a ∈ as, ∃ found, (f a).outcome = .ok found ∧ b ∈ found := by
  obtain ⟨hall, rfl⟩ := gather_eq_ok.mp h
  rw [List.mem_flatMap]
  refine exists_congr fun a => and_congr_right fun ha => ?_
  obtain ⟨x, hx⟩ := hall a ha
  simp [findings_eq hx, hx]

theorem collect_append_eq_ok {f : α → Traced (Option β)} {as as' : List α} {bs : List β} :
    (collect f (as ++ as')).outcome = .ok bs ↔
      ∃ l l', (collect f as).outcome = .ok l ∧ (collect f as').outcome = .ok l' ∧ bs = l ++ l' := by
  simp only [collect_eq_ok, List.forall_mem_append, List.filterMap_append]
  constructor
  · rintro ⟨⟨has, has'⟩, rfl⟩
    exact ⟨_, _, ⟨has, rfl⟩, ⟨has', rfl⟩, rfl⟩
  · rintro ⟨_, _, ⟨has, rfl⟩, ⟨has', rfl⟩, rfl⟩
    exact ⟨⟨has, has'⟩, rfl⟩

theorem gather_append_eq_ok {f : α → Traced (List β)} {as as' : List α} {bs : List β} :
    (gather f (as ++ as')).outcome = .ok bs ↔
      ∃ l l', (gather f as).outcome = .ok l ∧ (gather f as').outcome = .ok l' ∧ bs = l ++ l' := by
  simp only [gather_eq_ok, List.forall_mem_append, List.flatMap_append]
  constructor
  · rintro ⟨⟨has, has'⟩, rfl⟩
    exact ⟨_, _, ⟨has, rfl⟩, ⟨has', rfl⟩, rfl⟩
  · rintro ⟨_, _, ⟨has, rfl⟩, ⟨has', rfl⟩, rfl⟩
    exact ⟨⟨has, has'⟩, rfl⟩

end Traced
end SuiteOutline
