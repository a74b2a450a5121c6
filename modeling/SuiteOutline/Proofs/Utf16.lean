import Mathlib.Data.List.Chain
import SuiteOutline.Text.CodePoint

/-! Texts as UTF-16 code units. Texts with the same units differ only in whether surrogates stand in
pairs or are joined; joining them picks one text for each sequence of units, the one that a decoder
reads. -/
namespace SuiteOutline

/-- A UTF-16 code unit. -/
abbrev CodeUnit := Fin 0x10000

/-- The code unit of a number; what exceeds sixteen bits is lost. -/
def CodeUnit.ofNat (n : Nat) : CodeUnit := Fin.ofNat _ n

/-- The code point of the same number. -/
def CodeUnit.point (u : CodeUnit) : CodePoint := u.castLE (by decide)

@[simp] theorem CodeUnit.val_point (u : CodeUnit) : u.point.val = u.val := rfl

namespace CodePoint

/-- A code point above the basic plane is written as a high and a low surrogate. -/
def utf16 (p : CodePoint) : List CodeUnit :=
  if p.val < 0x10000 then [.ofNat p.val]
  else [.ofNat (0xD800 + (p.val - 0x10000) / 0x400), .ofNat (0xDC00 + (p.val - 0x10000) % 0x400)]

theorem isHighSurrogate_iff {p : CodePoint} :
    p.isHighSurrogate = true ↔ 0xD800 ≤ p.val ∧ p.val < 0xDC00 := by
  simp [isHighSurrogate]

theorem isLowSurrogate_iff {p : CodePoint} :
    p.isLowSurrogate = true ↔ 0xDC00 ≤ p.val ∧ p.val < 0xE000 := by
  simp [isLowSurrogate]

theorem isSurrogate_of_isHighSurrogate {p : CodePoint} (h : p.isHighSurrogate = true) :
    p.isSurrogate = true := by
  rw [isHighSurrogate_iff] at h
  simp only [isSurrogate, Bool.and_eq_true, decide_eq_true_eq]
  omega

/-- A high surrogate that a low one follows. -/
def IsPair (p q : CodePoint) : Prop := p.isHighSurrogate = true ∧ q.isLowSurrogate = true

instance decidableIsPair (p q : CodePoint) : Decidable (IsPair p q) :=
  inferInstanceAs (Decidable (_ ∧ _))

theorem val_joined {high low : CodePoint} (h : IsPair high low) :
    (joined high low).val = 0x10000 + (high.val - 0xD800) * 0x400 + (low.val - 0xDC00) := by
  obtain ⟨hhigh, hlow⟩ := h
  rw [isHighSurrogate_iff] at hhigh
  rw [isLowSurrogate_iff] at hlow
  exact Nat.mod_eq_of_lt (by omega)

/-- The units of a code point: itself in the basic plane, else a pair that spells it. -/
theorem utf16_cases (p : CodePoint) :
    (∃ u : CodeUnit, p.utf16 = [u] ∧ u.point = p) ∨
      ∃ high low : CodeUnit, p.utf16 = [high, low] ∧ IsPair high.point low.point ∧
        joined high.point low.point = p := by
  have hp := p.isLt
  unfold utf16
  split
  case isTrue h =>
    refine .inl ⟨_, rfl, Fin.ext ?_⟩
    rw [CodeUnit.val_point]
    exact Nat.mod_eq_of_lt h
  case isFalse h =>
    have hhigh : (CodeUnit.ofNat (0xD800 + (p.val - 0x10000) / 0x400)).val =
        0xD800 + (p.val - 0x10000) / 0x400 := Nat.mod_eq_of_lt (by omega)
    have hlow : (CodeUnit.ofNat (0xDC00 + (p.val - 0x10000) % 0x400)).val =
        0xDC00 + (p.val - 0x10000) % 0x400 := Nat.mod_eq_of_lt (by omega)
    have hpair : IsPair (CodeUnit.point (.ofNat (0xD800 + (p.val - 0x10000) / 0x400)))
        (CodeUnit.point (.ofNat (0xDC00 + (p.val - 0x10000) % 0x400))) := by
      constructor
      · rw [isHighSurrogate_iff, CodeUnit.val_point, hhigh]
        omega
      · rw [isLowSurrogate_iff, CodeUnit.val_point, hlow]
        omega
    refine .inr ⟨_, _, rfl, hpair, Fin.ext ?_⟩
    rw [val_joined hpair, CodeUnit.val_point, CodeUnit.val_point, hhigh, hlow]
    omega

theorem utf16_point (u : CodeUnit) : u.point.utf16 = [u] := by
  have hlt : u.point.val < 0x10000 := by
    rw [CodeUnit.val_point]
    exact u.isLt
  unfold utf16
  rw [if_pos hlt, CodeUnit.val_point]
  exact congrArg (fun v => [v]) (Fin.ext (Nat.mod_eq_of_lt u.isLt))

theorem utf16_joined {high low : CodePoint} (h : IsPair high low) :
    (joined high low).utf16 = high.utf16 ++ low.utf16 := by
  have hjoined := val_joined h
  obtain ⟨hhigh, hlow⟩ := h
  rw [isHighSurrogate_iff] at hhigh
  rw [isLowSurrogate_iff] at hlow
  have hfirst : 0xD800 + ((joined high low).val - 0x10000) / 0x400 = high.val := by omega
  have hsecond : 0xDC00 + ((joined high low).val - 0x10000) % 0x400 = low.val := by omega
  unfold utf16
  rw [if_neg (by omega), if_pos (by omega), if_pos (by omega), hfirst, hsecond,
    List.singleton_append]

end CodePoint

namespace Text

open CodePoint (IsPair)

def utf16 (t : Text) : List CodeUnit := t.flatMap CodePoint.utf16

@[simp] theorem utf16_nil : utf16 [] = [] := rfl

@[simp] theorem utf16_cons (p : CodePoint) (t : Text) : utf16 (p :: t) = p.utf16 ++ t.utf16 := rfl

theorem utf16_singleton (p : CodePoint) : utf16 [p] = p.utf16 := List.append_nil _

theorem utf16_append (s t : Text) : utf16 (s ++ t) = s.utf16 ++ t.utf16 := List.flatMap_append

/-- Reads code units. A high surrogate that a low one follows is one code point with it; any other
surrogate is a code point of its own. -/
def ofUtf16 : List CodeUnit → Text
  | high :: low :: rest =>
    if IsPair high.point low.point then CodePoint.joined high.point low.point :: ofUtf16 rest
    else high.point :: ofUtf16 (low :: rest)
  | [u] => [u.point]
  | [] => []

theorem ofUtf16_pair {high low : CodeUnit} (h : IsPair high.point low.point)
    (rest : List CodeUnit) :
    ofUtf16 (high :: low :: rest) = CodePoint.joined high.point low.point :: ofUtf16 rest := by
  rw [ofUtf16, if_pos h]

theorem ofUtf16_cons {u : CodeUnit} {us : List CodeUnit}
    (h : ∀ v ∈ us.head?, ¬IsPair u.point v.point) : ofUtf16 (u :: us) = u.point :: ofUtf16 us := by
  cases us with
  | nil => rfl
  | cons v us => rw [ofUtf16, if_neg (h v rfl)]

theorem ofUtf16_supplementary {p : CodePoint} (h : 0x10000 ≤ p.val) (us : List CodeUnit) :
    ofUtf16 (p.utf16 ++ us) = p :: ofUtf16 us := by
  rcases p.utf16_cases with ⟨u, -, rfl⟩ | ⟨high, low, hunits, hpair, hjoined⟩
  · have := u.isLt
    rw [CodeUnit.val_point] at h
    omega
  · rw [hunits, List.cons_append, List.singleton_append, ofUtf16_pair hpair, hjoined]

/-- A unit pairs with the first unit of a text only if it pairs with the first code point. -/
theorem isPair_of_head?_utf16 {p q : CodePoint} {t : Text} {v : CodeUnit}
    (hv : v ∈ (utf16 (q :: t)).head?) (h : IsPair p v.point) : IsPair p q := by
  rcases q.utf16_cases with ⟨u, hq, rfl⟩ | ⟨high, low, hq, hpair, -⟩
  · rw [utf16_cons, hq] at hv
    cases hv
    exact h
  · -- a supplementary code point begins with a high surrogate, which is no low one
    rw [utf16_cons, hq] at hv
    cases hv
    have hhigh := CodePoint.isHighSurrogate_iff.mp hpair.1
    have hlow := CodePoint.isLowSurrogate_iff.mp h.2
    omega

theorem joinSurrogates_pair {high low : CodePoint} (h : IsPair high low) (rest : Text) :
    joinSurrogates (high :: low :: rest) = CodePoint.joined high low :: joinSurrogates rest := by
  rw [joinSurrogates, h.1, h.2]
  rfl

theorem joinSurrogates_cons {p : CodePoint} {t : Text} (h : ∀ q ∈ t.head?, ¬IsPair p q) :
    joinSurrogates (p :: t) = p :: joinSurrogates t := by
  cases t with
  | nil => rfl
  | cons q t =>
    have hne : ¬(p.isHighSurrogate && q.isLowSurrogate) = true := by
      rw [Bool.and_eq_true]
      exact h q rfl
    rw [joinSurrogates, if_neg hne]

/-- A text is empty, or a pair comes first, or a code point that makes no pair with the next. -/
theorem pairInduction {motive : Text → Prop} (nil : motive [])
    (pair : ∀ high low rest, IsPair high low → motive rest → motive (high :: low :: rest))
    (cons : ∀ p t, (∀ q ∈ t.head?, ¬IsPair p q) → motive t → motive (p :: t)) (t : Text) :
    motive t := by
  fun_induction joinSurrogates t with
  | case1 high low rest h ih =>
    rw [Bool.and_eq_true] at h
    exact pair high low rest h ih
  | case2 p q rest h ih =>
    rw [Bool.and_eq_true] at h
    refine cons p (q :: rest) (fun q' hq' => ?_) ih
    cases hq'
    exact h
  | case3 p => exact cons p [] nofun nil
  | case4 => exact nil

/-- Joining surrogates is encoding and reading back. -/
theorem ofUtf16_utf16 (t : Text) : ofUtf16 t.utf16 = t.joinSurrogates := by
  induction t using pairInduction with
  | nil => rfl
  | pair high low rest h ih =>
    have hjoined := CodePoint.val_joined h
    rw [joinSurrogates_pair h, utf16_cons, utf16_cons, ← List.append_assoc,
      ← CodePoint.utf16_joined h, ofUtf16_supplementary (by omega), ih]
  | cons p t h ih =>
    rw [joinSurrogates_cons h, utf16_cons]
    rcases Nat.lt_or_ge p.val 0x10000 with hlt | hge
    · obtain ⟨u, rfl⟩ : ∃ u : CodeUnit, u.point = p := ⟨⟨p.val, hlt⟩, Fin.ext (by simp)⟩
      rw [CodePoint.utf16_point, List.singleton_append, ofUtf16_cons, ih]
      intro v hv hpair
      cases t with
      | nil => cases hv
      | cons q t => exact h q rfl (isPair_of_head?_utf16 hv hpair)
    · rw [ofUtf16_supplementary hge, ih]

theorem utf16_joinSurrogates (t : Text) : t.joinSurrogates.utf16 = t.utf16 := by
  induction t using pairInduction with
  | nil => rfl
  | pair high low rest h ih =>
    rw [joinSurrogates_pair h, utf16_cons, utf16_cons, utf16_cons, CodePoint.utf16_joined h, ih,
      List.append_assoc]
  | cons p t h ih => rw [joinSurrogates_cons h, utf16_cons, utf16_cons, ih]

/-- No high surrogate stands before a low one. -/
def Unpaired (t : Text) : Prop := t.IsChain fun p q => ¬IsPair p q

/-- A text can begin with a low surrogate after joining only if it did before. -/
theorem head?_of_joinSurrogates {t : Text} {q : CodePoint} (hq : q ∈ t.joinSurrogates.head?)
    (hlow : q.isLowSurrogate = true) : q ∈ t.head? := by
  cases t using pairInduction with
  | nil => cases hq
  | pair high low rest h =>
    rw [joinSurrogates_pair h, List.head?_cons, Option.mem_some_iff] at hq
    rw [← hq, CodePoint.isLowSurrogate_iff, CodePoint.val_joined h] at hlow
    omega
  | cons p t h =>
    rw [joinSurrogates_cons h] at hq
    exact hq

theorem unpaired_joinSurrogates (t : Text) : t.joinSurrogates.Unpaired := by
  induction t using pairInduction with
  | nil => exact .nil
  | pair high low rest h ih =>
    rw [joinSurrogates_pair h]
    refine List.isChain_cons.mpr ⟨fun q _ hpair => ?_, ih⟩
    have hjoined := CodePoint.val_joined h
    have := CodePoint.isHighSurrogate_iff.mp hpair.1
    omega
  | cons p t h ih =>
    rw [joinSurrogates_cons h]
    exact List.isChain_cons.mpr
      ⟨fun q hq hpair => h q (head?_of_joinSurrogates hq hpair.2) hpair, ih⟩

theorem joinSurrogates_of_unpaired {t : Text} (h : t.Unpaired) : t.joinSurrogates = t := by
  induction t with
  | nil => rfl
  | cons p t ih =>
    obtain ⟨hhead, htail⟩ := List.isChain_cons.mp h
    rw [joinSurrogates_cons hhead, ih htail]

theorem unpaired_of_hasSurrogate {t : Text} (h : t.hasSurrogate = false) : t.Unpaired := by
  induction t with
  | nil => exact .nil
  | cons p t ih =>
    rw [hasSurrogate, List.any_cons, Bool.or_eq_false_iff] at h
    refine List.isChain_cons.mpr ⟨fun q _ hpair => ?_, ih h.2⟩
    have hp := CodePoint.isSurrogate_of_isHighSurrogate hpair.1
    rw [h.1] at hp
    cases hp

/-- Joining surrogates gives the canonical text of its UTF-16 code units. The units stay, no pair is
left, and to join again changes nothing; it is what reading the units back gives, so a text without
surrogates is read as itself. Two texts are joined alike just if they have the same units. -/
theorem joinSurrogates_canonical (s : Text) :
    s.joinSurrogates.utf16 = s.utf16 ∧ s.joinSurrogates.Unpaired ∧
      s.joinSurrogates.joinSurrogates = s.joinSurrogates ∧
      s.joinSurrogates = ofUtf16 s.utf16 ∧
      (s.hasSurrogate = false → s.joinSurrogates = s) ∧
      ∀ t : Text, s.joinSurrogates = t.joinSurrogates ↔ s.utf16 = t.utf16 := by
  refine ⟨utf16_joinSurrogates s, unpaired_joinSurrogates s,
    joinSurrogates_of_unpaired (unpaired_joinSurrogates s), (ofUtf16_utf16 s).symm,
    fun h => joinSurrogates_of_unpaired (unpaired_of_hasSurrogate h), fun t => ⟨fun h => ?_, fun h => ?_⟩⟩
  · rw [← utf16_joinSurrogates s, h, utf16_joinSurrogates]
  · rw [← ofUtf16_utf16 s, h, ofUtf16_utf16]

/-- Of two high surrogates before a low one the second is joined with it, be what follows written as
a pair or as one code point. -/
theorem joinSurrogates_canonical_sample :
    let s : Text := [0xD83D, 0xD83D, 0xDE00, 0x1F600]
    let t : Text := [0xD83D, 0xD83D, 0xDE00, 0xD83D, 0xDE00]
    s.joinSurrogates = [0xD83D, 0x1F600, 0x1F600] ∧ s.joinSurrogates = t.joinSurrogates ∧
      joinSurrogates [0x61, 0x1F600] = [0x61, 0x1F600] := by
  intro s t
  obtain ⟨-, -, -, -, -, halike⟩ := joinSurrogates_canonical s
  obtain ⟨-, -, -, -, hplain, -⟩ := joinSurrogates_canonical [0x61, 0x1F600]
  exact ⟨by decide, (halike t).mpr (by decide), hplain (by decide)⟩

end Text
end SuiteOutline
