import Mathlib.Data.Nat.Digits.Defs
import SuiteOutline.Proofs.Escape

/-! Numerals as they are written: digits, of which those above nine are letters of either case. What
is read is the number that the digits spell, be they marked, with a suffix or after a leading zero. -/
namespace SuiteOutline

/-- A digit of a base, and the case of its letter if it has one. -/
structure Digit (base : Nat) where
  value : Fin base
  capital : Bool
deriving DecidableEq

/-- A digit of one base is one of every base above its value. -/
theorem digit?_of_lt {b base d : Nat} {c : Char} (h : digit? b c = some d) (hd : d < base) :
    digit? base c = some d := by
  unfold digit? at h ⊢
  obtain ⟨hvalue, -⟩ := Option.filter_eq_some_iff.mp h
  exact Option.filter_eq_some_iff.mpr ⟨hvalue, by simpa using hd⟩

namespace Digit

variable {base : Nat}

def char (d : Digit base) : Char :=
  if d.capital then (Nat.digitChar d.value).toUpper else Nat.digitChar d.value

def values (ds : List (Digit base)) : List Nat := ds.map (·.value.val)

theorem values_ne_nil {ds : List (Digit base)} (hne : ds ≠ []) : values ds ≠ [] :=
  fun h => hne (List.map_eq_nil_iff.mp h)

/-- The number that digits spell, the most significant first. -/
def number (ds : List (Digit base)) : Nat := Nat.ofDigits base (values ds).reverse

theorem ofDigits_values (ds : List (Digit base)) : ofDigits base (values ds) = number ds := by
  rw [ofDigits, number, Nat.ofDigits_eq_foldr, List.foldr_reverse]
  congr 1
  funext n d
  rw [Nat.cast_id, Nat.mul_comm, Nat.add_comm]

theorem number_lt (ds : List (Digit base)) : number ds < base ^ ds.length := by
  have hvalues : ∀ d ∈ values ds, d < base := by
    intro d hd
    obtain ⟨digit, -, rfl⟩ := List.mem_map.mp hd
    exact digit.value.isLt
  have hlength : (values ds).length = ds.length := List.length_map _
  rw [← ofDigits_values, ← hlength]
  exact ofDigits_lt hvalues

/-- Hexadecimal digits are told from all else; the one that is also the mark of a base is above it. -/
theorem char_hexadecimal : ∀ (value : Fin 16) (capital : Bool),
    (Digit.mk value capital).char ∈ hexAlphabet ∧
      digit? 16 (Digit.mk value capital).char = some value.val ∧
      (markedBase? (Digit.mk value capital).char).all (· ≤ value.val) = true := by
  decide

section

variable (hbase : base ≤ 16)
include hbase

theorem char_facts (d : Digit base) :
    d.char ∈ hexAlphabet ∧ digit? 16 d.char = some d.value.val ∧
      (markedBase? d.char).all (· ≤ d.value.val) = true :=
  char_hexadecimal ⟨d.value.val, Nat.lt_of_lt_of_le d.value.isLt hbase⟩ d.capital

theorem digit?_char (d : Digit base) : digit? base d.char = some d.value.val :=
  digit?_of_lt (char_facts hbase d).2.1 d.value.isLt

theorem isPlainDigit_char (d : Digit base) : IsPlainDigit base d.char := by
  obtain ⟨hmem, -, hmark⟩ := char_facts hbase d
  obtain ⟨hblank, hminus, hplus, hunderscore, -, -⟩ := isPlainDigit_hex d.char hmem
  refine ⟨hblank, hminus, hplus, hunderscore, fun hmarked => ?_, ?_⟩
  · rw [hmarked, Option.all_some, decide_eq_true_eq] at hmark
    have := d.value.isLt
    omega
  · rw [digit?_char hbase d]
    rfl

theorem isPlainDigit_of_mem {ds : List (Digit base)} : ∀ c ∈ ds.map char, IsPlainDigit base c := by
  intro c hc
  obtain ⟨d, -, rfl⟩ := List.mem_map.mp hc
  exact isPlainDigit_char hbase d

theorem not_mem_map_char {c : Char} (hc : c ∉ hexAlphabet) (ds : List (Digit base)) :
    c ∉ ds.map char := by
  intro hmem
  obtain ⟨d, -, rfl⟩ := List.mem_map.mp hmem
  exact hc (char_facts hbase d).1

theorem digitRun?_map_char (ds : List (Digit base)) {after : Bool}
    (hafter : after = true ∨ ds ≠ []) :
    digitRun? base after (ds.map char) = some (values ds) := by
  induction ds generalizing after with
  | nil =>
    have htrue : after = true := hafter.resolve_right fun hne => hne rfl
    simp [digitRun?, htrue, values]
  | cons d ds ih =>
    obtain ⟨-, -, -, hunderscore, -, -⟩ := isPlainDigit_char hbase d
    rw [List.map_cons, digitRun?, if_neg hunderscore, digit?_char hbase d, ih (.inl rfl)]
    rfl

theorem readInteger?_map_char (hten : base ≠ 10) {ds : List (Digit base)} (hne : ds ≠ []) :
    readInteger? (.base base) (ds.map char) = some (number ds : Int) := by
  have hne' : ds.map char ≠ [] := fun h => hne (List.map_eq_nil_iff.mp h)
  have hlength : (values ds).length = (ds.map char).length := by
    rw [values, List.length_map, List.length_map]
  rw [readInteger?_of_run hten hne' (isPlainDigit_of_mem hbase)
    (digitRun?_map_char hbase ds (.inr hne)) hlength, ofDigits_values]

theorem codePoint?_map_char (hten : base ≠ 10) {ds : List (Digit base)} (hne : ds ≠ [])
    (hlt : number ds < 0x110000) : codePoint? base (ds.map char) = some [⟨number ds, hlt⟩] :=
  codePoint?_of_readInteger? (readInteger?_map_char hbase hten hne) hlt

end

/-! Integers with a mark, and decimal ones. -/

theorem number_append (front back : List (Digit base)) :
    number (front ++ back) = number front * base ^ back.length + number back := by
  have hlength : (values back).reverse.length = back.length := by
    rw [List.length_reverse, values, List.length_map]
  rw [number, values, List.map_append, List.reverse_append, Nat.ofDigits_append]
  change _ + _ ^ (values back).reverse.length * _ = _
  rw [hlength, Nat.add_comm, Nat.mul_comm]
  rfl

/-- A zero in front of other digits. -/
def zeroLed : List (Digit base) → Bool
  | d :: _ :: _ => d.value.val == 0
  | _ => false

/-- Every number has its digits, with no zero in front. -/
theorem exists_number_eq (hbase : 2 ≤ base) (n : Nat) :
    ∃ ds : List (Digit base), ds ≠ [] ∧ zeroLed ds = false ∧ number ds = n := by
  induction n using Nat.strongRecOn with
  | ind n ih =>
    rcases Nat.lt_or_ge n base with hlt | hge
    · exact ⟨[⟨⟨n, hlt⟩, false⟩], List.cons_ne_nil _ _, rfl, by simp [number, values]⟩
    · -- the digits of the quotient, which is no zero, and the remainder
      have hpos : 0 < n / base := Nat.div_pos hge (by omega)
      obtain ⟨ds, hne, hled, hnumber⟩ := ih (n / base) (Nat.div_lt_self (by omega) hbase)
      obtain ⟨d, ds, rfl⟩ := List.exists_cons_of_ne_nil hne
      refine ⟨d :: ds ++ [⟨⟨n % base, Nat.mod_lt n (by omega)⟩, false⟩], by simp, ?_, ?_⟩
      · cases ds with
        | nil =>
          have hd : d.value.val ≠ 0 := by
            rw [number, values, List.map_singleton, List.reverse_singleton,
              Nat.ofDigits_singleton] at hnumber
            omega
          simpa [zeroLed] using hd
        | cons => exact hled
      · rw [number_append, hnumber]
        simp [number, values, Nat.div_add_mod']

/-- The digits up to nine are told from the marks. -/
theorem char_decimal : ∀ (value : Fin 10) (capital : Bool),
    decimalDigit? (Digit.mk value capital).char = some value.val ∧
      markedBase? (Digit.mk value capital).char = none := by
  decide

theorem isOctal_char (d : Digit 8) : isOctal d.char = true := by
  have hall : ∀ (value : Fin 8) (capital : Bool), isOctal (Digit.mk value capital).char = true := by
    decide
  exact hall d.value d.capital

theorem decimal_facts (hbase : base ≤ 10) (d : Digit base) :
    decimalDigit? d.char = some d.value.val ∧ markedBase? d.char = none :=
  char_decimal ⟨d.value.val, Nat.lt_of_lt_of_le d.value.isLt hbase⟩ d.capital

end Digit

/-- The letters that mark a base. -/
def radixMarks : List (Char × Nat) :=
  [('x', 16), ('X', 16), ('o', 8), ('O', 8), ('b', 2), ('B', 2)]

theorem radixMarks_facts {mark : Char} {base : Nat} (h : (mark, base) ∈ radixMarks) :
    markedBase? mark = some base ∧ isNumberBlank mark = false ∧ mark ≠ '_' ∧ mark ≠ 'n' ∧
      base ≤ 16 ∧ base ≠ 10 := by
  have hall : radixMarks.all (fun pair => decide (markedBase? pair.1 = some pair.2 ∧
      isNumberBlank pair.1 = false ∧ pair.1 ≠ '_' ∧ pair.1 ≠ 'n' ∧ pair.2 ≤ 16 ∧ pair.2 ≠ 10)) =
        true := by decide
  exact of_decide_eq_true (List.all_eq_true.mp hall _ h)

theorem splitRadix_mark {mark : Char} {base : Nat} (h : markedBase? mark = some base)
    (rest : List Char) : splitRadix .marked ('0' :: mark :: rest) = (base, true, rest) := by
  have hzero : (decimalDigit? '0').filter (· = 0) = some 0 := by decide
  simp [splitRadix, hzero, h]

theorem splitRadix_of_unmarked {cs : List Char} (h : ∀ c ∈ cs, markedBase? c = none) :
    splitRadix .marked cs = (10, false, cs) := by
  match cs with
  | [] | [_] => rfl
  | zero :: mark :: rest => simp [splitRadix, h mark]

namespace Digit

/-- A number with a mark is read whatever its size. -/
theorem readInteger?_mark {mark : Char} {base : Nat} (h : (mark, base) ∈ radixMarks)
    {ds : List (Digit base)} (hne : ds ≠ []) :
    readInteger? .marked ('0' :: mark :: ds.map char) = some (number ds : Int) := by
  obtain ⟨hmark, hmarkBlank, -, -, hbase, hten⟩ := radixMarks_facts h
  have hblank : ∀ c ∈ '0' :: mark :: ds.map char, isNumberBlank c = false := by
    refine List.forall_mem_cons.mpr ⟨by decide, List.forall_mem_cons.mpr ⟨hmarkBlank, ?_⟩⟩
    exact fun c hc => (isPlainDigit_of_mem hbase c hc).1
  have hsign : splitSign ('0' :: mark :: ds.map char) = (false, '0' :: mark :: ds.map char) :=
    splitSign_of_head (by decide) (by decide)
  rw [readInteger?_eq_ofDigits hblank hsign (splitRadix_mark hmark _)
    (digitRun?_map_char hbase ds (.inl rfl)) (values_ne_nil hne) (by simp [tooLong, hten]) (by simp),
    ofDigits_values]

theorem readInteger?_decimal {ds : List (Digit 10)} (hne : ds ≠ []) (hlength : ds.length ≤ digitLimit)
    (hled : zeroLed ds = false) : readInteger? .marked (ds.map char) = some (number ds : Int) := by
  have hplain : ∀ c ∈ ds.map char, IsPlainDigit 10 c := isPlainDigit_of_mem (by decide)
  have hsign : splitSign (ds.map char) = (false, ds.map char) := by
    obtain ⟨d, ds, rfl⟩ := List.exists_cons_of_ne_nil hne
    obtain ⟨-, hminus, hplus, -⟩ := isPlainDigit_char (by decide) d
    exact splitSign_of_head hminus hplus
  have hunmarked : ∀ c ∈ ds.map char, markedBase? c = none := by
    intro c hc
    obtain ⟨d, -, rfl⟩ := List.mem_map.mp hc
    exact (decimal_facts (le_refl 10) d).2
  have hlong : tooLong 10 (values ds).length = false := by
    rw [values, List.length_map]
    simpa [tooLong] using hlength
  have hzero : (values ds).head? = some 0 → ofDigits 10 (values ds) = 0 := by
    intro hhead
    rcases ds with _ | ⟨d, _ | ⟨next, ds⟩⟩
    · rfl
    · simpa [values, ofDigits] using hhead
    · simp only [zeroLed, beq_eq_false_iff_ne] at hled
      exact absurd (Option.some.inj hhead) hled
  rw [readInteger?_eq_ofDigits (fun c hc => (hplain c hc).1) hsign
    (splitRadix_of_unmarked hunmarked) (digitRun?_map_char (by decide) ds (.inr hne))
    (values_ne_nil hne) hlong (fun _ _ => hzero), ofDigits_values]

end Digit

namespace Number

theorem filter_separators {text : List Char} (h : '_' ∉ text) :
    text.filter (· != '_') = text :=
  List.filter_eq_self.mpr fun c hc => by simpa using fun heq : c = '_' => h (heq ▸ hc)

/-- Separators count for nothing, wherever they stand. -/
theorem read?_intercalate (runs : List (List Char)) :
    read? (List.intercalate ['_'] runs) = read? runs.flatten := by
  have hfilter : (List.intercalate ['_'] runs).filter (· != '_') =
      runs.flatten.filter (· != '_') := by
    induction runs with
    | nil => rfl
    | cons run runs ih =>
      cases runs with
      | nil => simp
      | cons next runs => simp_all
  unfold read?
  rw [hfilter]

theorem read?_suffix {text : List Char} {i : Int} (hplain : '_' ∉ text)
    (h : readInteger? .marked text = some i) : read? (text ++ ['n']) = some (.integer i) := by
  have hplain' : '_' ∉ text ++ ['n'] := by simp [hplain]
  unfold read?
  simp [filter_separators hplain', h]

theorem read?_mark {mark : Char} {rest : List Char} {i : Int}
    (hplain : '_' ∉ '0' :: mark :: rest) (hlast : 'n' ∉ '0' :: mark :: rest)
    (hmark : (markedBase? mark).isSome = true)
    (h : readInteger? .marked ('0' :: mark :: rest) = some i) :
    read? ('0' :: mark :: rest) = some (.integer i) := by
  have hlast' : ('0' :: mark :: rest).getLast? ≠ some 'n' := mt List.mem_of_getLast? hlast
  unfold read?
  simp only [filter_separators hplain, hlast', if_false, hmark, if_true, h, Option.map_some]

theorem octalAlphabet_facts {c : Char} (h : isOctal c = true) :
    c ≠ '_' ∧ c ≠ 'n' ∧ markedBase? c = none ∧ (decimalDigit? c).isSome = true := by
  have hall : octalAlphabet.all (fun c => decide (c ≠ '_' ∧ c ≠ 'n' ∧ markedBase? c = none ∧
      (decimalDigit? c).isSome = true)) = true := by decide
  exact of_decide_eq_true (List.all_eq_true.mp hall c (mem_octalAlphabet h))

/-- After a leading zero, octal digits make an octal number. -/
theorem read?_octal {mark : Char} {rest : List Char} {i : Int}
    (hoctal : (mark :: rest).all isOctal = true)
    (h : readInteger? (.base 8) ('0' :: mark :: rest) = some i) :
    read? ('0' :: mark :: rest) = some (.integer i) := by
  have hfacts : ∀ c ∈ '0' :: mark :: rest, c ≠ '_' ∧ c ≠ 'n' ∧ markedBase? c = none ∧
      (decimalDigit? c).isSome = true :=
    List.forall_mem_cons.mpr ⟨octalAlphabet_facts (by decide),
      fun c hc => octalAlphabet_facts (List.all_eq_true.mp hoctal c hc)⟩
  have hplain : '_' ∉ '0' :: mark :: rest := fun hmem => (hfacts _ hmem).1 rfl
  have hlast : ('0' :: mark :: rest).getLast? ≠ some 'n' := fun heq =>
    (hfacts _ (List.mem_of_getLast? heq)).2.1 rfl
  have hmark : (markedBase? mark).isSome = false := by
    rw [(hfacts mark (by simp)).2.2.1]
    rfl
  have hdigits : ('0' :: mark :: rest).all (fun c => (decimalDigit? c).isSome) = true :=
    List.all_eq_true.mpr fun c hc => (hfacts c hc).2.2.2
  unfold read?
  simp only [filter_separators hplain, hlast, if_false, hmark, Bool.false_eq_true, hdigits, if_true,
    hoctal, h, Option.map_some]

theorem read?_mark_digits {mark : Char} {base : Nat} (h : (mark, base) ∈ radixMarks)
    {ds : List (Digit base)} (hne : ds ≠ []) :
    read? ('0' :: mark :: ds.map Digit.char) = some (.integer (Digit.number ds)) ∧
      read? ('0' :: mark :: ds.map Digit.char ++ ['n']) = some (.integer (Digit.number ds)) := by
  obtain ⟨hmark, -, hunderscore, hn, hbase, -⟩ := radixMarks_facts h
  have hplain : '_' ∉ '0' :: mark :: ds.map Digit.char := by
    simp only [List.mem_cons, not_or]
    exact ⟨by decide, hunderscore.symm, Digit.not_mem_map_char hbase (by decide) ds⟩
  have hlast : 'n' ∉ '0' :: mark :: ds.map Digit.char := by
    simp only [List.mem_cons, not_or]
    exact ⟨by decide, hn.symm, Digit.not_mem_map_char hbase (by decide) ds⟩
  have hread := Digit.readInteger?_mark h hne
  exact ⟨read?_mark hplain hlast (by rw [hmark]; rfl) hread, read?_suffix hplain hread⟩

theorem read?_octal_digits {ds : List (Digit 8)} (hne : ds ≠ []) :
    read? ('0' :: ds.map Digit.char) = some (.integer (Digit.number ds)) := by
  let zero : Digit 8 := ⟨0, false⟩
  have hnumber : Digit.number (zero :: ds) = Digit.number ds := by
    have happend := Digit.number_append [zero] ds
    have hzero : Digit.number [zero] = 0 := rfl
    rwa [hzero, Nat.zero_mul, Nat.zero_add] at happend
  have hread : readInteger? (.base 8) ('0' :: ds.map Digit.char) = some (Digit.number ds : Int) := by
    rw [← hnumber]
    exact Digit.readInteger?_map_char (by decide) (by decide) (List.cons_ne_nil zero ds)
  obtain ⟨d, ds, rfl⟩ := List.exists_cons_of_ne_nil hne
  refine read?_octal (List.all_eq_true.mpr fun c hc => ?_) hread
  rw [← List.map_cons] at hc
  obtain ⟨digit, -, rfl⟩ := List.mem_map.mp hc
  exact digit.isOctal_char

end Number
end SuiteOutline
