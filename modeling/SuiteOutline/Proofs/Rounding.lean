import Mathlib.Algebra.Order.Field.Power
import Mathlib.Tactic.Linarith
import Mathlib.Tactic.Positivity
import Mathlib.Tactic.Ring
import SuiteOutline.Number.Binary64

/-! Quotients and decimals are rounded correctly: what is computed is a nearest one of all finite
numbers of the format, an even one where two are equally near, and infinity just from half a unit
above the greatest on. -/
namespace SuiteOutline

/-! Rounding to natural numbers. -/

/-- A number at most one half away, and even if it is just so far. -/
structure RoundsEven (q : ℚ) (m : ℕ) : Prop where
  error : |(m : ℚ) - q| ≤ 1 / 2
  tie : |(m : ℚ) - q| = 1 / 2 → Even m

namespace RoundsEven

variable {q : ℚ} {m : ℕ}

theorem of_lt (h : |(m : ℚ) - q| < 1 / 2) : RoundsEven q m := ⟨h.le, fun heq => absurd heq h.ne⟩

theorem nearest (h : RoundsEven q m) {j : ℕ} (hne : m ≠ j) :
    |(m : ℚ) - q| ≤ |(j : ℚ) - q| ∧ (|(m : ℚ) - q| = |(j : ℚ) - q| → Even m) := by
  have hint : (1 : ℤ) ≤ |(m : ℤ) - j| := Int.one_le_abs (by omega)
  have hapart : (1 : ℚ) ≤ |(m : ℚ) - j| := by exact_mod_cast hint
  have htriangle := abs_sub_le (m : ℚ) q j
  rw [abs_sub_comm q] at htriangle
  have herror := h.error
  refine ⟨by linarith, fun heq => h.tie ?_⟩
  linarith

end RoundsEven

theorem roundsEven_roundDiv (num : ℕ) {den : ℕ} (hden : 0 < den) :
    RoundsEven (num / den) (roundDiv num den) := by
  have hpos : (0 : ℚ) < den := by exact_mod_cast hden
  have hquotient : (num : ℚ) / den = (num / den : ℕ) + ((num % den : ℕ) : ℚ) / den := by
    rw [eq_comm, add_div' _ _ _ hpos.ne', div_left_inj' hpos.ne']
    exact_mod_cast Nat.div_add_mod' num den
  have hrest : ((num % den : ℕ) : ℚ) < den := by exact_mod_cast Nat.mod_lt num hden
  have hlow : (0 : ℚ) ≤ ((num % den : ℕ) : ℚ) / den := by positivity
  have hhigh : ((num % den : ℕ) : ℚ) / den < 1 := (div_lt_one hpos).mpr hrest
  rw [hquotient]
  unfold roundDiv
  dsimp only
  split_ifs with hless hmore
  · have hhalf : ((num % den : ℕ) : ℚ) / den < 1 / 2 := by
      rw [div_lt_div_iff₀ hpos two_pos]
      exact_mod_cast (by omega : num % den * 2 < 1 * den)
    apply RoundsEven.of_lt
    rw [sub_add_cancel_left, abs_neg, abs_of_nonneg hlow]
    exact hhalf
  · have hhalf : 1 / 2 < ((num % den : ℕ) : ℚ) / den := by
      rw [div_lt_div_iff₀ two_pos hpos]
      exact_mod_cast (by omega : 1 * den < num % den * 2)
    apply RoundsEven.of_lt
    rw [Nat.cast_add, Nat.cast_one, add_sub_add_left_eq_sub, abs_of_pos (by linarith)]
    linarith
  · have hhalf : ((num % den : ℕ) : ℚ) / den = 1 / 2 := by
      rw [div_eq_div_iff hpos.ne' two_ne_zero]
      exact_mod_cast (by omega : num % den * 2 = 1 * den)
    have hdistance : |((num / den + num / den % 2 : ℕ) : ℚ) - ((num / den : ℕ) + 1 / 2)| = 1 / 2 := by
      rw [Nat.cast_add, add_sub_add_left_eq_sub]
      rcases Nat.mod_two_eq_zero_or_one (num / den) with h | h <;> rw [h] <;> norm_num
    rw [hhalf]
    refine ⟨hdistance.le, fun _ => ?_⟩
    rw [Nat.even_iff]
    omega

/-! Powers of two with integer exponents. -/

/-- Shifting a quotient by an exponent on either side divides it by that power. -/
theorem shifted_div (num : ℕ) {den : ℕ} (e : ℤ) :
    ((num * Nat.pow 2 (-e).toNat : ℕ) : ℚ) / (den * Nat.pow 2 e.toNat : ℕ) = num / den / 2 ^ e := by
  have hpow : ((2 : ℚ) ^ e) * 2 ^ (-e).toNat = 2 ^ e.toNat := by
    rw [← zpow_natCast, ← zpow_natCast, ← zpow_add₀ two_ne_zero]
    congr 1
    omega
  have hne : ((2 : ℚ) ^ (-e).toNat) ≠ 0 := by positivity
  simp only [Nat.pow_eq]
  push_cast
  rw [← hpow, div_div, ← mul_assoc]
  exact mul_div_mul_right _ _ hne

/-- A quotient lies within one binade of the powers of two below its parts. -/
theorem div_binade {num den : ℕ} (hnum : num ≠ 0) (hden : den ≠ 0) :
    (2 : ℚ) ^ ((num.log2 : ℤ) - den.log2 - 1) ≤ num / den ∧
      (num : ℚ) / den < 2 ^ ((num.log2 : ℤ) - den.log2 + 1) := by
  have hpos : (0 : ℚ) < den := by exact_mod_cast Nat.pos_of_ne_zero hden
  have hnumLow : (2 : ℚ) ^ num.log2 ≤ num := by exact_mod_cast Nat.log2_self_le hnum
  have hnumHigh : (num : ℚ) < 2 ^ (num.log2 + 1) := by exact_mod_cast Nat.lt_log2_self
  have hdenLow : (2 : ℚ) ^ den.log2 ≤ den := by exact_mod_cast Nat.log2_self_le hden
  have hdenHigh : (den : ℚ) < 2 ^ (den.log2 + 1) := by exact_mod_cast Nat.lt_log2_self
  constructor
  · have hpow : (2 : ℚ) ^ ((num.log2 : ℤ) - den.log2 - 1) = 2 ^ num.log2 / 2 ^ (den.log2 + 1) := by
      rw [sub_sub, zpow_sub₀ two_ne_zero]
      norm_cast
    rw [hpow]
    gcongr
  · have hpow : (2 : ℚ) ^ ((num.log2 : ℤ) - den.log2 + 1) = 2 ^ (num.log2 + 1) / 2 ^ den.log2 := by
      rw [sub_add_eq_add_sub, zpow_sub₀ two_ne_zero]
      norm_cast
    rw [hpow]
    gcongr

theorem quotientLog2_spec {num den : ℕ} (hnum : num ≠ 0) (hden : den ≠ 0) :
    (2 : ℚ) ^ quotientLog2 num den ≤ num / den ∧
      (num : ℚ) / den < 2 ^ (quotientLog2 num den + 1) := by
  obtain ⟨hlow, hhigh⟩ := div_binade hnum hden
  unfold quotientLog2
  dsimp only
  generalize (num.log2 : ℤ) - den.log2 = k at *
  have hpow : (0 : ℚ) < 2 ^ k := by positivity
  have hden' : (0 : ℚ) < (den * Nat.pow 2 k.toNat : ℕ) := by
    rw [Nat.pow_eq]
    have := Nat.pos_of_ne_zero hden
    exact_mod_cast (by positivity)
  -- the test compares the quotient with the power
  have htest : den * Nat.pow 2 k.toNat ≤ num * Nat.pow 2 (-k).toNat ↔ (2 : ℚ) ^ k ≤ num / den := by
    rw [← one_le_div₀ hpow, ← shifted_div, one_le_div₀ hden', Nat.cast_le]
  split_ifs with h
  · exact ⟨htest.mp h, hhigh⟩
  · rw [sub_add_cancel]
    exact ⟨hlow, lt_of_not_ge (mt htest.mpr h)⟩

namespace Binary64

/-- The mantissas and exponents that finite numbers have. -/
structure IsFinite (m : ℕ) (e : ℤ) : Prop where
  mantissa : m < 2 ^ precision
  least : minExponent ≤ e
  greatest : e ≤ maxExponent

def magnitude (m : ℕ) (e : ℤ) : ℚ := m * 2 ^ e

/-- A finite number such that no other one is nearer, and an even one if another is as near. Evenness
is a matter of the mantissa that has all its bits, or the least exponent. -/
structure Nearest (v : ℚ) (m : ℕ) (e : ℤ) : Prop where
  finite : IsFinite m e
  normal : 2 ^ 52 ≤ m ∨ e = minExponent
  least : ∀ j f, IsFinite j f → |magnitude m e - v| ≤ |magnitude j f - v|
  even : ∀ j f, IsFinite j f → magnitude m e ≠ magnitude j f →
    |magnitude m e - v| = |magnitude j f - v| → Even m

/-- Half a unit above the greatest finite number. -/
def overflow : ℚ := (2 ^ precision - 1 / 2) * 2 ^ maxExponent

/-- Rounding of what is not negative to the nearest number, ties to even. -/
inductive RoundsTo (v : ℚ) : Binary64 → Prop
  | finite {m : ℕ} {e : ℤ} (hv : v < overflow) (h : Nearest v m e) : RoundsTo v (finite false m e)
  | infinite (hv : overflow ≤ v) : RoundsTo v (infinite false)

theorem magnitude_of_le {e f : ℤ} (h : e ≤ f) (j : ℕ) :
    magnitude j f = magnitude (j * 2 ^ (f - e).toNat) e := by
  unfold magnitude
  push_cast
  rw [mul_assoc, ← zpow_natCast, ← zpow_add₀ two_ne_zero]
  congr 2
  omega

theorem magnitude_two_pow (b : ℕ) (e : ℤ) : magnitude (2 ^ b) e = 2 ^ (b + e) := by
  unfold magnitude
  push_cast
  rw [← zpow_natCast, ← zpow_add₀ two_ne_zero]

theorem magnitude_mono (m : ℕ) {e f : ℤ} (h : e ≤ f) : magnitude m e ≤ magnitude m f := by
  unfold magnitude
  gcongr
  norm_num

theorem magnitude_lt_magnitude_iff {m j : ℕ} (e : ℤ) :
    magnitude m e < magnitude j e ↔ m < j := by
  unfold magnitude
  rw [mul_lt_mul_iff_left₀ (by positivity), Nat.cast_lt]

/-- A mantissa of one bit too many has one too few with the next exponent. -/
theorem magnitude_carry (e : ℤ) : magnitude (2 ^ precision) e = magnitude (2 ^ 52) (e + 1) := by
  rw [magnitude_of_le (Int.le_add_one (le_refl e)), add_sub_cancel_left]
  rfl

theorem abs_magnitude_sub (m : ℕ) (e : ℤ) (v : ℚ) :
    |magnitude m e - v| = |(m : ℚ) - v / 2 ^ e| * 2 ^ e := by
  have hpos : (0 : ℚ) < 2 ^ e := by positivity
  rw [← abs_of_pos hpos, ← abs_mul, abs_of_pos hpos, sub_mul, div_mul_cancel₀ _ hpos.ne']
  rfl

/-- Rounding among the multiples of a power of two is rounding among all finite numbers, if below
the power there is nothing finer, or the finer numbers are all too small. -/
theorem nearest_of_roundsEven {v : ℚ} {m : ℕ} {e : ℤ} (h : RoundsEven (v / 2 ^ e) m)
    (hfine : e = minExponent ∨ magnitude (2 ^ 52) e ≤ v) {j : ℕ} {f : ℤ} (hj : IsFinite j f)
    (hne : magnitude m e ≠ magnitude j f) :
    |magnitude m e - v| ≤ |magnitude j f - v| ∧
      (|magnitude m e - v| = |magnitude j f - v| → Even m) := by
  have hpos : (0 : ℚ) < 2 ^ e := by positivity
  -- first the multiples
  have hgrid : ∀ j : ℕ, m ≠ j → |magnitude m e - v| ≤ |magnitude j e - v| ∧
      (|magnitude m e - v| = |magnitude j e - v| → Even m) := by
    intro j hne
    obtain ⟨hle, heven⟩ := h.nearest hne
    rw [abs_magnitude_sub, abs_magnitude_sub]
    exact ⟨mul_le_mul_of_nonneg_right hle hpos.le,
      fun heq => heven (mul_right_cancel₀ hpos.ne' heq)⟩
  rcases le_or_gt e f with hef | hfe
  · rw [magnitude_of_le hef] at hne ⊢
    exact hgrid _ fun hmj => hne (congrArg (magnitude · e) hmj)
  · have hbelow : magnitude (2 ^ 52) e ≤ v := hfine.resolve_left (by have := hj.least; omega)
    have hsmall : magnitude j f < magnitude (2 ^ 52) e := by
      calc magnitude j f < magnitude (2 ^ precision) f := (magnitude_lt_magnitude_iff f).mpr hj.mantissa
        _ = magnitude (2 ^ 52) (f + 1) := magnitude_carry f
        _ ≤ magnitude (2 ^ 52) e := magnitude_mono _ (by omega)
    have hle : |magnitude m e - v| ≤ |magnitude (2 ^ 52) e - v| := by
      by_cases hm : m = 2 ^ 52
      · rw [hm]
      · exact (hgrid _ hm).1
    have hlt : |magnitude m e - v| < |magnitude j f - v| := by
      have hfar := le_abs_self (v - magnitude j f)
      rw [abs_sub_comm (magnitude (2 ^ 52) e), abs_of_nonneg (sub_nonneg.mpr hbelow)] at hle
      rw [abs_sub_comm (magnitude j f)]
      linarith
    exact ⟨hlt.le, fun heq => absurd heq hlt.ne⟩

theorem Nearest.of_roundsEven {v : ℚ} {m n : ℕ} {e f : ℤ} (h : RoundsEven (v / 2 ^ e) m)
    (hfine : e = minExponent ∨ magnitude (2 ^ 52) e ≤ v) (hfinite : IsFinite n f)
    (hnormal : 2 ^ 52 ≤ n ∨ f = minExponent) (hsame : magnitude n f = magnitude m e)
    (heven : Even m → Even n) : Nearest v n f where
  finite := hfinite
  normal := hnormal
  least j g hj := by
    rw [hsame]
    by_cases hne : magnitude m e = magnitude j g
    · rw [hne]
    · exact (nearest_of_roundsEven h hfine hj hne).1
  even j g hj hne heq := by
    rw [hsame] at hne heq
    exact heven ((nearest_of_roundsEven h hfine hj hne).2 heq)

/-! Overflow. -/

theorem overflow_bounds :
    magnitude (2 ^ 52) maxExponent < overflow ∧ overflow ≤ magnitude (2 ^ precision) maxExponent := by
  have hpos : (0 : ℚ) < 2 ^ maxExponent := by positivity
  unfold magnitude overflow precision
  push_cast
  constructor
  · exact mul_lt_mul_of_pos_right (by norm_num) hpos
  · exact mul_le_mul_of_nonneg_right (by norm_num) hpos.le

theorem lt_overflow {v : ℚ} {e : ℤ} (he : e < maxExponent)
    (habove : v < magnitude (2 ^ precision) e) : v < overflow := by
  calc v < magnitude (2 ^ precision) e := habove
    _ = magnitude (2 ^ 52) (e + 1) := magnitude_carry e
    _ ≤ magnitude (2 ^ 52) maxExponent := magnitude_mono _ he
    _ < overflow := overflow_bounds.1

theorem overflow_le {v : ℚ} {e : ℤ} (he : maxExponent < e)
    (hbelow : magnitude (2 ^ 52) e ≤ v) : overflow ≤ v := by
  calc overflow ≤ magnitude (2 ^ precision) maxExponent := overflow_bounds.2
    _ = magnitude (2 ^ 52) (maxExponent + 1) := magnitude_carry _
    _ ≤ magnitude (2 ^ 52) e := magnitude_mono _ he
    _ ≤ v := hbelow

/-- With the greatest exponent, what is rounded to a mantissa of one bit too many overflows. At the
threshold itself the even neighbour is that one. -/
theorem overflow_le_iff {v : ℚ} {m : ℕ} (h : RoundsEven (v / 2 ^ maxExponent) m)
    (hm : m ≤ 2 ^ precision) : overflow ≤ v ↔ m = 2 ^ precision := by
  have hpos : (0 : ℚ) < 2 ^ maxExponent := by positivity
  have hscaled : overflow ≤ v ↔ (2 ^ precision - 1 / 2 : ℚ) ≤ v / 2 ^ maxExponent := by
    rw [le_div_iff₀ hpos]
    rfl
  obtain ⟨hlow, hhigh⟩ := abs_le.mp h.error
  rw [hscaled]
  constructor
  · intro hle
    by_contra hne
    have hmq : (m : ℚ) ≤ 2 ^ precision - 1 := by
      have : m + 1 ≤ 2 ^ precision := by omega
      have hcast : (m : ℚ) + 1 ≤ 2 ^ precision := by exact_mod_cast this
      linarith
    have hodd : (m : ℚ) = 2 ^ precision - 1 := by linarith
    have htie := h.tie (by rw [abs_sub_comm, abs_of_nonneg (by linarith)]; linarith)
    have hodd' : m = 2 ^ precision - 1 := by
      have : (m : ℚ) + 1 = 2 ^ precision := by linarith
      have : m + 1 = 2 ^ precision := by exact_mod_cast this
      omega
    rw [hodd'] at htie
    exact absurd htie (by decide)
  · rintro rfl
    push_cast at hhigh
    linarith

/-- Rounding at an exponent, with a carry to the next one if the mantissa has a bit too many. -/
theorem roundsTo_of_roundsEven {v : ℚ} {m n : ℕ} {e f : ℤ} (h : RoundsEven (v / 2 ^ e) m)
    (hleast : minExponent ≤ e) (hfine : e = minExponent ∨ magnitude (2 ^ 52) e ≤ v)
    (habove : v < magnitude (2 ^ precision) e)
    (hcarry : (n, f) = if m = 2 ^ precision then (2 ^ 52, e + 1) else (m, e)) :
    RoundsTo v (if f ≤ maxExponent then finite false n f else infinite false) := by
  have hpos : (0 : ℚ) < 2 ^ e := by positivity
  have hquotient : v / 2 ^ e < 2 ^ precision := by
    rw [div_lt_iff₀ hpos]
    exact_mod_cast habove
  obtain ⟨hlow, hhigh⟩ := abs_le.mp h.error
  have hbound : m ≤ 2 ^ precision := by
    have : (m : ℚ) < (2 ^ precision : ℕ) + 1 := by push_cast; linarith
    exact Nat.lt_succ_iff.mp (by exact_mod_cast this)
  have hnormal : 2 ^ 52 ≤ m ∨ e = minExponent := by
    rcases hfine with hmin | hbelow
    · exact .inr hmin
    · left
      have hquotient : (2 ^ 52 : ℚ) ≤ v / 2 ^ e := by
        rw [le_div_iff₀ hpos]
        exact_mod_cast hbelow
      have : ((2 ^ 52 : ℕ) : ℚ) < m + 1 := by push_cast; linarith
      exact Nat.lt_succ_iff.mp (by exact_mod_cast this)
  have hinfinite : maxExponent < e → overflow ≤ v := by
    intro he
    have hmin : minExponent < maxExponent := by decide
    exact overflow_le he (hfine.resolve_left (by omega))
  split_ifs at hcarry with hm
  · obtain ⟨rfl, rfl⟩ := Prod.mk.inj hcarry
    split_ifs with he
    · have hfinite : IsFinite (2 ^ 52) (e + 1) := ⟨by decide, by omega, he⟩
      refine .finite (lt_overflow (by omega) habove)
        (.of_roundsEven h hfine hfinite (.inl (le_refl _)) ?_ ?_)
      · rw [hm, magnitude_carry]
      · intro _
        decide
    · rcases eq_or_lt_of_le (by omega : maxExponent ≤ e) with rfl | he
      · exact .infinite ((overflow_le_iff h hbound).mpr hm)
      · exact .infinite (hinfinite he)
  · obtain ⟨rfl, rfl⟩ := Prod.mk.inj hcarry
    split_ifs with he
    · have hfinite : IsFinite n f := ⟨by omega, hleast, he⟩
      refine .finite ?_ (.of_roundsEven h hfine hfinite hnormal rfl id)
      rcases eq_or_lt_of_le he with rfl | he
      · exact lt_of_not_ge (mt (overflow_le_iff h hbound).mp hm)
      · exact lt_overflow he habove
    · exact .infinite (hinfinite (by omega))

/-- What is no more than half the least number above zero is rounded to zero. -/
theorem roundsTo_zero {v : ℚ} (hnonneg : 0 ≤ v) (hsmall : v ≤ magnitude 1 (minExponent - 1)) :
    RoundsTo v (zero false) := by
  have hoverflow : v < overflow := by
    have hone : magnitude 1 (minExponent - 1) < magnitude (2 ^ precision) (minExponent - 1) :=
      (magnitude_lt_magnitude_iff _).mpr (by decide)
    exact lt_overflow (by decide) (lt_of_le_of_lt hsmall hone)
  have hzero : ∀ e, |magnitude 0 e - v| = v := by
    intro e
    rw [magnitude, Nat.cast_zero, zero_mul, zero_sub, abs_neg, abs_of_nonneg hnonneg]
  refine .finite hoverflow ⟨⟨by decide, le_refl _, by decide⟩, .inr rfl, fun j f hj => ?_,
    fun _ _ _ _ _ => by decide⟩
  rw [hzero]
  rcases Nat.eq_zero_or_pos j with rfl | hpos
  · rw [hzero]
  · have hunit : 2 * magnitude 1 (minExponent - 1) ≤ magnitude j f := by
      calc 2 * magnitude 1 (minExponent - 1) = magnitude 1 minExponent := by
            rw [magnitude, magnitude, zpow_sub_one₀ two_ne_zero]
            ring
        _ ≤ magnitude j minExponent :=
            le_of_not_gt (mt (magnitude_lt_magnitude_iff _).mp (by omega))
        _ ≤ magnitude j f := magnitude_mono j hj.least
    have := le_abs_self (magnitude j f - v)
    linarith

theorem roundsTo_ofQuotient (num : ℕ) {den : ℕ} (hden : den ≠ 0) :
    RoundsTo (num / den) (ofQuotient false num den) := by
  unfold ofQuotient
  split_ifs with hnum
  · rw [hnum, Nat.cast_zero, zero_div]
    exact roundsTo_zero (le_refl 0) (by unfold magnitude; positivity)
  · obtain ⟨hlow, hhigh⟩ := quotientLog2_spec hnum hden
    dsimp only
    generalize quotientLog2 num den = k at *
    have hleast : minExponent ≤ max (k - 52) minExponent := le_max_right _ _
    have hlog : k - 52 ≤ max (k - 52) minExponent := le_max_left _ _
    have hfine : max (k - 52) minExponent = minExponent ∨
        magnitude (2 ^ 52) (max (k - 52) minExponent) ≤ num / den := by
      rcases max_choice (k - 52) minExponent with h | h
      · right
        rw [h, magnitude_two_pow, Nat.cast_ofNat, add_sub_cancel]
        exact hlow
      · exact .inl h
    generalize max (k - 52) minExponent = e at *
    have habove : (num : ℚ) / den < magnitude (2 ^ precision) e := by
      rw [magnitude_two_pow]
      refine lt_of_lt_of_le hhigh (zpow_le_zpow_right₀ one_le_two ?_)
      rw [precision]
      omega
    have hden' : 0 < den * Nat.pow 2 e.toNat :=
      Nat.mul_pos (Nat.pos_of_ne_zero hden) (Nat.pow_pos two_pos)
    have hround := roundsEven_roundDiv (num * Nat.pow 2 (-e).toNat) hden'
    rw [shifted_div] at hround
    generalize hcarry : (if roundDiv (num * Nat.pow 2 (-e).toNat) (den * Nat.pow 2 e.toNat) =
      Nat.pow 2 precision then (Nat.pow 2 52, e + 1) else
        (roundDiv (num * Nat.pow 2 (-e).toNat) (den * Nat.pow 2 e.toNat), e)) = carried
    exact roundsTo_of_roundsEven hround hleast hfine habove hcarry.symm

/-! Decimals. -/

/-- The number of digits and the exponent tell the magnitude of a decimal. -/
theorem decimal_bounds {significand : ℕ} (hne : significand ≠ 0) (exponent : ℤ) :
    (10 : ℚ) ^ ((Nat.repr significand).length + exponent - 1) ≤ significand * 10 ^ exponent ∧
      (significand : ℚ) * 10 ^ exponent < 10 ^ ((Nat.repr significand).length + exponent) := by
  have hpos : (0 : ℚ) < 10 ^ exponent := by positivity
  have hlength := Nat.length_repr_pos (n := significand)
  have hhigh : significand < 10 ^ (Nat.repr significand).length :=
    (Nat.length_repr_le_iff hlength).mp (le_refl _)
  have hlow : 10 ^ ((Nat.repr significand).length - 1) ≤ significand := by
    rcases Nat.eq_zero_or_pos ((Nat.repr significand).length - 1) with hzero | hmore
    · rw [hzero, pow_zero]
      omega
    · by_contra hlt
      have := (Nat.length_repr_le_iff hmore).mpr (Nat.lt_of_not_le hlt)
      omega
  constructor
  · have hpow : (10 : ℚ) ^ ((Nat.repr significand).length + exponent - 1) =
        (10 ^ ((Nat.repr significand).length - 1) : ℕ) * 10 ^ exponent := by
      push_cast
      rw [← zpow_natCast, ← zpow_add₀ (by norm_num)]
      congr 1
      omega
    rw [hpow]
    exact mul_le_mul_of_nonneg_right (by exact_mod_cast hlow) hpos.le
  · have hpow : (10 : ℚ) ^ ((Nat.repr significand).length + exponent) =
        (10 ^ (Nat.repr significand).length : ℕ) * 10 ^ exponent := by
      push_cast
      rw [← zpow_natCast, ← zpow_add₀ (by norm_num)]
    rw [hpow]
    exact mul_lt_mul_of_pos_right (by exact_mod_cast hhigh) hpos

theorem ten_pow_le_magnitude : (10 : ℚ) ^ (-330 : ℤ) ≤ magnitude 1 (minExponent - 1) := by
  have hpow : (2 : ℚ) ^ 1075 ≤ 10 ^ 330 := by
    calc (2 : ℚ) ^ 1075 = (2 ^ 43) ^ 25 := by rw [← pow_mul]
      _ ≤ (10 ^ 13) ^ 25 := by gcongr; norm_num
      _ = 10 ^ 325 := by rw [← pow_mul]
      _ ≤ 10 ^ 330 := pow_le_pow_right₀ (by norm_num) (by norm_num)
  have hunit : magnitude 1 (minExponent - 1) = (2 ^ 1075)⁻¹ := by
    rw [magnitude, Nat.cast_one, one_mul]
    exact zpow_negSucc 2 1074
  rw [hunit]
  exact inv_anti₀ (by positivity) hpow

theorem overflow_le_ten_pow : overflow ≤ (10 : ℚ) ^ (310 : ℤ) := by
  calc overflow ≤ magnitude (2 ^ precision) maxExponent := overflow_bounds.2
    _ = 2 ^ 1024 := by
      rw [magnitude_two_pow]
      rfl
    _ = (2 ^ 93) ^ 11 * 2 := by rw [← pow_mul, ← pow_succ]
    _ ≤ (10 ^ 28) ^ 11 * 10 ^ 2 := by gcongr <;> norm_num
    _ = 10 ^ (310 : ℤ) := by rw [← pow_mul, ← pow_add]; rfl

/-- Decimals are rounded correctly, however far out of range they are. -/
theorem roundsTo_ofDecimal (significand : ℕ) (exponent : ℤ) :
    RoundsTo (significand * 10 ^ exponent) (ofDecimal false significand exponent) := by
  unfold ofDecimal
  dsimp only
  split_ifs with hsmall hlarge
  · refine roundsTo_zero (by positivity) ?_
    rcases eq_or_ne significand 0 with rfl | hne
    · rw [Nat.cast_zero, zero_mul]
      unfold magnitude
      positivity
    · have hexponent : (Nat.repr significand).length + exponent ≤ -330 := by
        simp only [hne, decide_false, Bool.false_or, decide_eq_true_eq] at hsmall
        omega
      calc (significand : ℚ) * 10 ^ exponent
          ≤ 10 ^ ((Nat.repr significand).length + exponent) := (decimal_bounds hne exponent).2.le
        _ ≤ 10 ^ (-330 : ℤ) := zpow_le_zpow_right₀ (by norm_num) hexponent
        _ ≤ magnitude 1 (minExponent - 1) := ten_pow_le_magnitude
  · have hne : significand ≠ 0 := by
      rintro rfl
      simp at hsmall
    refine .infinite ?_
    calc overflow ≤ (10 : ℚ) ^ (310 : ℤ) := overflow_le_ten_pow
      _ ≤ 10 ^ ((Nat.repr significand).length + exponent - 1) :=
          zpow_le_zpow_right₀ (by norm_num) (by omega)
      _ ≤ significand * 10 ^ exponent := (decimal_bounds hne exponent).1
  · have hquotient : (significand : ℚ) * 10 ^ exponent =
        (significand * Nat.pow 10 exponent.toNat : ℕ) / (Nat.pow 10 (-exponent).toNat : ℕ) := by
      simp only [Nat.pow_eq]
      push_cast
      rw [mul_div_assoc, ← zpow_natCast, ← zpow_natCast, ← zpow_sub₀ (by norm_num)]
      congr 2
      omega
    rw [hquotient]
    exact roundsTo_ofQuotient _ (Nat.pow_pos (by norm_num)).ne'

/-! Whole numbers. -/

theorem toInt?_of_magnitude {m i : ℕ} {e : ℤ} (h : magnitude m e = i) :
    (finite false m e).toInt? = some (i : ℤ) := by
  have hden : 0 < Nat.pow 2 (-e).toNat := Nat.pow_pos two_pos
  have hnum : m * Nat.pow 2 e.toNat = i * Nat.pow 2 (-e).toNat := by
    have hshift := @shifted_div m 1 (-e)
    rw [neg_neg, Nat.cast_one, div_one, one_mul, zpow_neg, div_inv_eq_mul] at hshift
    change _ = magnitude m e at hshift
    rw [h, div_eq_iff (by exact_mod_cast hden.ne')] at hshift
    exact_mod_cast hshift
  unfold toInt?
  simp only [hnum, Nat.mul_mod_left, if_true, Nat.mul_div_cancel _ hden, Bool.false_eq_true, if_false]

/-- The natural numbers of so many bits are finite numbers of the format, and so is the next one. -/
theorem exists_isFinite_of_le {i : ℕ} (hi : i ≤ 2 ^ precision) :
    ∃ m e, IsFinite m e ∧ magnitude m e = i := by
  rcases Nat.lt_or_eq_of_le hi with hlt | rfl
  · refine ⟨i, 0, ⟨hlt, by decide, by decide⟩, ?_⟩
    rw [magnitude, zpow_zero, mul_one]
  · refine ⟨2 ^ 52, 0 + 1, ⟨by decide, by decide, by decide⟩, ?_⟩
    rw [← magnitude_carry, magnitude, zpow_zero, mul_one]

/-- Small integers are not rounded at all. -/
theorem RoundsTo.toInt?_of_le {i : ℕ} {x : Binary64} (h : RoundsTo i x) (hi : i ≤ 2 ^ precision) :
    x.toInt? = some (i : ℤ) := by
  cases h with
  | finite _ hnearest =>
    obtain ⟨j, f, hj, hvalue⟩ := exists_isFinite_of_le hi
    have hle := hnearest.least j f hj
    rw [hvalue, sub_self, abs_zero] at hle
    have hzero := abs_eq_zero.mp (le_antisymm hle (abs_nonneg _))
    exact toInt?_of_magnitude (sub_eq_zero.mp hzero)
  | infinite hv =>
    have hlt : (i : ℚ) < magnitude (2 ^ precision) (0 + 1) := by
      rw [magnitude, zpow_add_one₀ two_ne_zero, zpow_zero, one_mul]
      have hpos : 0 < 2 ^ precision := Nat.two_pow_pos precision
      exact_mod_cast (by omega : i < 2 ^ precision * 2)
    exact absurd hv (not_le.mpr (lt_overflow (by decide) hlt))

/-- Above the small integers there are only integers. -/
theorem Nearest.exists_magnitude_eq {v : ℚ} {m : ℕ} {e : ℤ} (h : Nearest v m e)
    (hv : 2 ^ precision < v) : ∃ i : ℕ, magnitude m e = i := by
  have hlarge : magnitude (2 ^ precision) 0 ≤ magnitude m e := by
    obtain ⟨j, f, hj, hvalue⟩ := exists_isFinite_of_le (le_refl (2 ^ precision))
    have hle := h.least j f hj
    have hbelow : magnitude j f ≤ v := by
      rw [hvalue]
      exact_mod_cast hv.le
    rw [abs_sub_comm (magnitude j f), abs_of_nonneg (sub_nonneg.mpr hbelow)] at hle
    have hfar := neg_le_abs (magnitude m e - v)
    rw [magnitude, zpow_zero, mul_one, ← hvalue]
    linarith
  have hexponent : 0 ≤ e := by
    by_contra hneg
    have hsmall : magnitude m e < magnitude (2 ^ precision) 0 :=
      calc magnitude m e < magnitude (2 ^ precision) e :=
            (magnitude_lt_magnitude_iff e).mpr h.finite.mantissa
        _ ≤ magnitude (2 ^ precision) 0 := magnitude_mono _ (by omega)
    exact absurd hlarge (not_le.mpr hsmall)
  refine ⟨m * 2 ^ e.toNat, ?_⟩
  rw [magnitude_of_le hexponent, magnitude, zpow_zero, mul_one, sub_zero]

end Binary64
end SuiteOutline
