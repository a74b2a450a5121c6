import Mathlib.Tactic.FieldSimp
import SuiteOutline.Number.Basic
import SuiteOutline.Proofs.Numeral
import SuiteOutline.Proofs.Rounding

/-! Number literals of every spelling: integers with a mark of their base, with the suffix of big
integers, or in octal; and decimals, whose value is rounded only where it has too many bits. -/
namespace SuiteOutline

/-! Decimal literals. -/

/-- What may follow the digits of a decimal: a mark of either case, a sign if one is written (and
whether it is a minus), and digits. -/
structure Exponent where
  capital : Bool
  sign : Option Bool
  digits : List (Digit 10)
  nonempty : digits ≠ []

/-- A decimal literal, with a digit before or after its point. -/
structure DecimalLiteral where
  whole : List (Digit 10)
  fraction : Option (List (Digit 10))
  exponent : Option Exponent
  nonempty : whole ++ fraction.getD [] ≠ []

def signText : Option Bool → List Char
  | none => []
  | some false => ['+']
  | some true => ['-']

namespace Exponent

def mark (e : Exponent) : Char := if e.capital then 'E' else 'e'

def text (e : Exponent) : List Char := e.mark :: (signText e.sign ++ e.digits.map Digit.char)

def value (e : Exponent) : ℤ :=
  if e.sign = some true then -(Digit.number e.digits) else Digit.number e.digits

end Exponent

namespace DecimalLiteral

def fractionText (l : DecimalLiteral) : List Char :=
  match l.fraction with
  | none => []
  | some ds => '.' :: ds.map Digit.char

def exponentText (l : DecimalLiteral) : List Char := (l.exponent.map Exponent.text).getD []

/-- How the literal is written. -/
def text (l : DecimalLiteral) : List Char :=
  l.whole.map Digit.char ++ (l.fractionText ++ l.exponentText)

def decimals (l : DecimalLiteral) : List (Digit 10) := l.fraction.getD []

def scale (l : DecimalLiteral) : ℤ := (l.exponent.map Exponent.value).getD 0

/-- The number that the literal denotes, exactly. -/
def value (l : DecimalLiteral) : ℚ :=
  (Digit.number l.whole + Digit.number l.decimals / 10 ^ l.decimals.length) * 10 ^ l.scale

/-- The literal is digits only, a zero in front of others. -/
def ZeroLed (l : DecimalLiteral) : Prop :=
  l.fraction = none ∧ l.exponent = none ∧ Digit.zeroLed l.whole = true

theorem value_eq (l : DecimalLiteral) :
    l.value = Digit.number (l.whole ++ l.decimals) * 10 ^ (l.scale - l.decimals.length) := by
  have hpow : (10 : ℚ) ^ l.decimals.length ≠ 0 := by positivity
  rw [value, Digit.number_append, zpow_sub₀ (by norm_num), zpow_natCast]
  push_cast
  field_simp

end DecimalLiteral

theorem decimalRun_map_char (ds : List (Digit 10)) {rest : List Char}
    (hrest : ∀ c ∈ rest.head?, decimalDigit? c = none) :
    decimalRun (ds.map Digit.char ++ rest) = (Digit.values ds, rest) := by
  induction ds with
  | nil =>
    cases rest with
    | nil => rfl
    | cons c cs =>
      have hc := hrest c rfl
      simp [decimalRun, hc, Digit.values]
  | cons d ds ih =>
    have hd := (Digit.decimal_facts (le_refl 10) d).1
    simp [decimalRun, hd, ih, Digit.values]

namespace Exponent

variable (e : Exponent)

theorem splitSign_digits :
    splitSign (signText e.sign ++ e.digits.map Digit.char) =
      (decide (e.sign = some true), e.digits.map Digit.char) := by
  obtain ⟨capital, sign, digits, hne⟩ := e
  match sign with
  | some false | some true => rfl
  | none =>
    obtain ⟨d, ds, rfl⟩ := List.exists_cons_of_ne_nil hne
    obtain ⟨-, hminus, hplus, -⟩ := Digit.isPlainDigit_char (by decide) d
    exact splitSign_of_head hminus hplus

theorem readExponent?_text : readExponent? e.text = some e.value := by
  have hrun := @decimalRun_map_char e.digits [] (by simp)
  rw [List.append_nil] at hrun
  have hmark : e.mark = 'e' ∨ e.mark = 'E' := by
    unfold mark
    split <;> simp
  have hvalues := Digit.values_ne_nil e.nonempty
  unfold readExponent? text
  simp only [splitSign_digits, hrun, Digit.ofDigits_values]
  simp [hmark, hvalues, value]

end Exponent

/-- The characters of decimal literals. -/
def decimalAlphabet : List Char := "0123456789.eE+-".toList

theorem decimalAlphabet_facts {c : Char} (h : c ∈ decimalAlphabet) :
    isNumberBlank c = false ∧ c ≠ '_' ∧ c ≠ 'n' ∧ markedBase? c = none := by
  have hall : decimalAlphabet.all (fun c => decide (isNumberBlank c = false ∧ c ≠ '_' ∧ c ≠ 'n' ∧
      markedBase? c = none)) = true := by decide
  exact of_decide_eq_true (List.all_eq_true.mp hall c h)

theorem Digit.char_mem_decimalAlphabet (d : Digit 10) : d.char ∈ decimalAlphabet.take 10 := by
  have hall : ∀ (value : Fin 10) (capital : Bool),
      (Digit.mk value capital).char ∈ decimalAlphabet.take 10 := by decide
  exact hall d.value d.capital

theorem map_char_subset (ds : List (Digit 10)) : ds.map Digit.char ⊆ decimalAlphabet := by
  intro c hc
  obtain ⟨d, -, rfl⟩ := List.mem_map.mp hc
  exact List.mem_of_mem_take d.char_mem_decimalAlphabet

theorem Exponent.text_subset (e : Exponent) : e.text ⊆ decimalAlphabet := by
  have hmark : e.mark ∈ decimalAlphabet := by
    unfold mark
    split <;> decide
  have hsign : signText e.sign ⊆ decimalAlphabet := by
    match e.sign with
    | none | some false | some true => decide
  exact List.cons_subset.mpr ⟨hmark, List.append_subset.mpr ⟨hsign, map_char_subset _⟩⟩

namespace DecimalLiteral

variable (l : DecimalLiteral)

theorem text_subset : l.text ⊆ decimalAlphabet := by
  have hfraction : l.fractionText ⊆ decimalAlphabet := by
    unfold fractionText
    split
    · exact List.nil_subset _
    · exact List.cons_subset.mpr ⟨by decide, map_char_subset _⟩
  have hexponent : l.exponentText ⊆ decimalAlphabet := by
    unfold exponentText
    cases l.exponent with
    | none => exact List.nil_subset _
    | some e => exact e.text_subset
  exact List.append_subset.mpr ⟨map_char_subset _, List.append_subset.mpr ⟨hfraction, hexponent⟩⟩

/-- A decimal begins with a digit or its point. -/
theorem text_eq_cons : ∃ c cs, l.text = c :: cs ∧ c ∈ decimalAlphabet.take 11 := by
  obtain ⟨whole, fraction, exponent, hne⟩ := l
  match whole, fraction, hne with
  | d :: ds, fraction, _ =>
    refine ⟨d.char, _, rfl, ?_⟩
    exact List.take_subset_take_left _ (by decide) d.char_mem_decimalAlphabet
  | [], some ds, _ => exact ⟨'.', _, rfl, by decide⟩
  | [], none, hne => exact absurd rfl hne

theorem leading_facts {c : Char} (h : c ∈ decimalAlphabet.take 11) :
    c ≠ '-' ∧ c ≠ '+' ∧ c.toLower ≠ 'i' ∧ c.toLower ≠ 'n' := by
  have hall : (decimalAlphabet.take 11).all (fun c => decide (c ≠ '-' ∧ c ≠ '+' ∧
      c.toLower ≠ 'i' ∧ c.toLower ≠ 'n')) = true := by decide
  exact of_decide_eq_true (List.all_eq_true.mp hall c h)

theorem readExponent?_exponentText : readExponent? l.exponentText = some l.scale := by
  unfold exponentText scale
  cases l.exponent with
  | none => rfl
  | some e => exact e.readExponent?_text

theorem head_exponentText : ∀ c ∈ l.exponentText.head?, decimalDigit? c = none ∧ c ≠ '.' := by
  unfold exponentText
  cases l.exponent with
  | none => simp
  | some e =>
    rintro c ⟨⟩
    unfold Exponent.mark
    split <;> decide

theorem head_fractionText : ∀ c ∈ (l.fractionText ++ l.exponentText).head?,
    decimalDigit? c = none := by
  unfold fractionText
  split
  · exact fun c hc => (l.head_exponentText c hc).1
  · rintro c ⟨⟩
    decide

theorem splitSign_text : splitSign (trimBy isNumberBlank l.text) = (false, l.text) := by
  have htrim := trimBy_of_forall fun c hc => (decimalAlphabet_facts (l.text_subset hc)).1
  obtain ⟨c, cs, htext, hc⟩ := l.text_eq_cons
  obtain ⟨hminus, hplus, -⟩ := leading_facts hc
  rw [htrim, htext]
  exact splitSign_of_head hminus hplus

/-- No decimal is a word such as the name of infinity. -/
theorem text_ne_word {a : Char} {w : List Char} (ha : a = 'i' ∨ a = 'n') :
    l.text.map Char.toLower ≠ a :: w := by
  obtain ⟨c, cs, htext, hc⟩ := l.text_eq_cons
  obtain ⟨-, -, hi, hn⟩ := leading_facts hc
  rw [htext]
  intro heq
  have hletter := (List.cons.inj heq).1
  rcases ha with rfl | rfl
  · exact hi hletter
  · exact hn hletter

theorem readReal?_text : readReal? l.text =
    some (.ofDecimal false (Digit.number (l.whole ++ l.decimals))
      (l.scale - l.decimals.length)) := by
  have hwhole : decimalRun l.text = (Digit.values l.whole, l.fractionText ++ l.exponentText) :=
    decimalRun_map_char l.whole l.head_fractionText
  have hdigits : Digit.values l.whole ++ Digit.values l.decimals =
      Digit.values (l.whole ++ l.decimals) := List.map_append.symm
  have hne : ¬(Digit.values l.whole = [] ∧ Digit.values l.decimals = []) := by
    rw [← List.append_eq_nil_iff, hdigits]
    exact Digit.values_ne_nil l.nonempty
  have hlength : (Digit.values l.decimals).length = l.decimals.length := List.length_map _
  unfold readReal?
  rw [splitSign_text]
  simp only [l.text_ne_word (.inl rfl), l.text_ne_word (.inr rfl), String.reduceToList, hwhole]
  cases hfraction : l.fraction with
  | some ds =>
    have hpoint : l.fractionText = '.' :: ds.map Digit.char := by simp only [fractionText, hfraction]
    have hrun : decimalRun (ds.map Digit.char ++ l.exponentText) =
        (Digit.values l.decimals, l.exponentText) := by
      rw [decimals, hfraction]
      exact decimalRun_map_char ds fun c hc => (l.head_exponentText c hc).1
    simp only [hpoint, List.cons_append, hrun]
    simp [hne, hdigits, hlength, Digit.ofDigits_values, readExponent?_exponentText]
  | none =>
    have hpoint : l.fractionText = [] := by simp only [fractionText, hfraction]
    have hdecimals : l.decimals = [] := by rw [decimals, hfraction, Option.getD_none]
    have hdigit : Digit.values l.whole ≠ [] := by simpa [hdecimals, Digit.values] using hne
    have hscale := l.readExponent?_exponentText
    have hhead := l.head_exponentText
    rw [hpoint, List.nil_append]
    cases htail : l.exponentText with
    | nil =>
      rw [htail] at hscale
      simp [hdigit, hdecimals, Digit.ofDigits_values, hscale]
    | cons c cs =>
      rw [htail] at hscale hhead
      have hc := (hhead c rfl).2
      simp [hdigit, hdecimals, Digit.ofDigits_values, hscale, hc]

end DecimalLiteral

namespace Number

/-- What is neither marked nor all digits after a leading zero is read as a decimal. -/
theorem read?_real {text : List Char} (hplain : '_' ∉ text) (hlast : 'n' ∉ text)
    (hmark : ∀ c ∈ text, markedBase? c = none)
    (hdigits : ∀ mark rest, text = '0' :: mark :: rest → ∃ c ∈ text, decimalDigit? c = none) :
    read? text = (readReal? text).map ofBinary64 := by
  have hlast' : text.getLast? ≠ some 'n' := mt List.mem_of_getLast? hlast
  unfold read?
  simp only [filter_separators hplain, hlast', if_false]
  split
  case h_1 mark rest =>
    have hunmarked : (markedBase? mark).isSome = false := by
      rw [hmark mark (by simp)]
      rfl
    obtain ⟨c, hc, hnone⟩ := hdigits mark rest rfl
    have hall : ('0' :: mark :: rest).all (fun c => (decimalDigit? c).isSome) = false :=
      List.all_eq_false.mpr ⟨c, hc, by rw [hnone]; decide⟩
    simp only [hunmarked, hall, Bool.false_eq_true, if_false]
  case h_2 => rfl

end Number

namespace DecimalLiteral

variable {l : DecimalLiteral}

/-- A literal that is all digits after a leading zero has no point and no exponent. -/
theorem zeroLed_of_digits {mark : Char} {rest : List Char} (htext : l.text = '0' :: mark :: rest)
    (hall : ∀ c ∈ l.text, decimalDigit? c ≠ none) : l.ZeroLed := by
  have htail : ∀ c ∈ l.fractionText ++ l.exponentText, decimalDigit? c ≠ none :=
    fun c hc => hall c (List.mem_append_right _ hc)
  have hempty : l.fractionText ++ l.exponentText = [] := by
    cases h : l.fractionText ++ l.exponentText with
    | nil => rfl
    | cons c cs =>
      have hhead := l.head_fractionText c (by rw [h]; rfl)
      exact absurd hhead (htail c (by rw [h]; exact List.mem_cons_self))
  obtain ⟨hfraction, hexponent⟩ := List.append_eq_nil_iff.mp hempty
  refine ⟨?_, ?_, ?_⟩
  · cases h : l.fraction with
    | none => rfl
    | some ds => simp [fractionText, h] at hfraction
  · cases h : l.exponent with
    | none => rfl
    | some e => simp [exponentText, h, Exponent.text] at hexponent
  · rw [text, hempty, List.append_nil] at htext
    obtain ⟨d, ds, hwhole, hzero, hds⟩ := List.map_eq_cons_iff.mp htext
    obtain ⟨d', ds', rfl, -, -⟩ := List.map_eq_cons_iff.mp hds
    have hd := (Digit.decimal_facts (le_refl 10) d).1
    rw [hzero] at hd
    have hvalue : d.value.val = 0 := Option.some.inj (hd.symm.trans (by decide))
    rw [hwhole, Digit.zeroLed, hvalue]
    rfl

theorem read?_text (h : ¬l.ZeroLed) :
    ∃ x, Binary64.RoundsTo l.value x ∧ Number.read? l.text = some (.ofBinary64 x) := by
  have hfacts := fun c (hc : c ∈ l.text) => decimalAlphabet_facts (l.text_subset hc)
  have hread : Number.read? l.text = (readReal? l.text).map .ofBinary64 := by
    refine Number.read?_real (fun hc => (hfacts _ hc).2.1 rfl) (fun hc => (hfacts _ hc).2.2.1 rfl)
      (fun c hc => (hfacts c hc).2.2.2) fun mark rest htext => ?_
    by_contra hall
    push Not at hall
    exact h (zeroLed_of_digits htext hall)
  refine ⟨_, ?_, by rw [hread, readReal?_text, Option.map_some]⟩
  rw [value_eq]
  exact Binary64.roundsTo_ofDecimal _ _

theorem read?_of_value_eq (h : ¬l.ZeroLed) {i : ℕ} (hi : i ≤ 2 ^ 53) (hvalue : l.value = i) :
    Number.read? l.text = some (.integer i) := by
  obtain ⟨x, hx, hread⟩ := read?_text h
  rw [hvalue] at hx
  rw [hread, Number.ofBinary64, hx.toInt?_of_le hi]

theorem read?_of_lt_value (h : ¬l.ZeroLed) (hlarge : 2 ^ 53 < l.value)
    (hfinite : l.value < Binary64.overflow) :
    ∃ (m : ℕ) (e : ℤ) (i : ℕ), Binary64.Nearest l.value m e ∧ Binary64.magnitude m e = i ∧
      Number.read? l.text = some (.integer i) := by
  obtain ⟨x, hx, hread⟩ := read?_text h
  cases hx with
  | finite _ hnearest =>
    obtain ⟨i, hi⟩ := hnearest.exists_magnitude_eq hlarge
    refine ⟨_, _, i, hnearest, hi, ?_⟩
    rw [hread, Number.ofBinary64, Binary64.toInt?_of_magnitude hi]
  | infinite hoverflow => exact absurd hoverflow (not_le.mpr hfinite)

theorem read?_of_overflow_le (h : ¬l.ZeroLed) (hoverflow : Binary64.overflow ≤ l.value) :
    Number.read? l.text = some (.real (.infinite false)) := by
  obtain ⟨x, hx, hread⟩ := read?_text h
  cases hx with
  | finite hfinite => exact absurd hoverflow (not_le.mpr hfinite)
  | infinite => exact hread

end DecimalLiteral

namespace Number

/-- Number literals denote the right integer in every spelling. In every base a number has digits;
with a mark of the base they are read as that number whatever its size, with the suffix of big
integers too; so are as many decimal digits as there may be, with the suffix, and octal digits after
a leading zero. A decimal literal is read as its value if that is an integer of no more than 53 bits
or the next one; above, as the integer that the nearest floating-point number is, the even one of
two, unless there is only infinity. Separators between digits do not matter. -/
theorem spellings_exact :
    (∀ base n : ℕ, 2 ≤ base → ∃ ds : List (Digit base),
      ds ≠ [] ∧ Digit.zeroLed ds = false ∧ Digit.number ds = n) ∧
    (∀ mark base, (mark, base) ∈ radixMarks → ∀ ds : List (Digit base), ds ≠ [] →
      read? ('0' :: mark :: ds.map Digit.char) = some (.integer (Digit.number ds)) ∧
      read? ('0' :: mark :: ds.map Digit.char ++ ['n']) = some (.integer (Digit.number ds))) ∧
    (∀ ds : List (Digit 10), ds ≠ [] → Digit.zeroLed ds = false → ds.length ≤ 4300 →
      read? (ds.map Digit.char ++ ['n']) = some (.integer (Digit.number ds))) ∧
    (∀ ds : List (Digit 8), ds ≠ [] →
      read? ('0' :: ds.map Digit.char) = some (.integer (Digit.number ds))) ∧
    (∀ l : DecimalLiteral, ¬l.ZeroLed →
      (∀ i : ℕ, i ≤ 2 ^ 53 → l.value = i → read? l.text = some (.integer i)) ∧
      (2 ^ 53 < l.value → l.value < Binary64.overflow →
        ∃ (m : ℕ) (e : ℤ) (i : ℕ), Binary64.Nearest l.value m e ∧ Binary64.magnitude m e = i ∧
          read? l.text = some (.integer i)) ∧
      (Binary64.overflow ≤ l.value → read? l.text = some (.real (.infinite false)))) ∧
    ∀ runs : List (List Char), read? (List.intercalate ['_'] runs) = read? runs.flatten := by
  refine ⟨fun base n hbase => Digit.exists_number_eq hbase n,
    fun mark base hmark ds hne => read?_mark_digits hmark hne, fun ds hne hled hlength => ?_,
    fun ds hne => read?_octal_digits hne, fun l hled => ⟨?_, ?_, ?_⟩, read?_intercalate⟩
  · have hplain := Digit.not_mem_map_char (by decide) (by decide : '_' ∉ hexAlphabet) ds
    exact read?_suffix hplain (Digit.readInteger?_decimal hne hlength hled)
  · exact fun i hi hvalue => DecimalLiteral.read?_of_value_eq hled hi hvalue
  · exact DecimalLiteral.read?_of_lt_value hled
  · exact DecimalLiteral.read?_of_overflow_le hled

/-- A number of each spelling; the last but two lies halfway between two floating-point numbers. -/
theorem spellings_exact_sample :
    (∃ ds : List (Digit 16), ds ≠ [] ∧ Digit.zeroLed ds = false ∧ Digit.number ds = 255) ∧
    read? ['0', 'X', 'f', 'F', 'n'] = some (.integer 255) ∧
    read? ['1', '2', 'n'] = some (.integer 12) ∧
    read? ['0', '7', '5'] = some (.integer 61) ∧
    read? ['1', '.', '5', 'e', '+', '1'] = some (.integer 15) ∧
    (∃ (m : ℕ) (e : ℤ) (i : ℕ), Binary64.Nearest (2 ^ 53 + 1) m e ∧ Binary64.magnitude m e = i ∧
      read? "9007199254740993".toList = some (.integer i)) ∧
    read? ['1', 'E', '4', '0', '0'] = some (.real (.infinite false)) ∧
    read? ['1', '_', '0', '0', '_', '0'] = read? ['1', '0', '0', '0'] := by
  obtain ⟨hdigits, hmark, hdecimal, hoctal, hliteral, hseparators⟩ := spellings_exact
  let fifteen : DecimalLiteral :=
    ⟨[⟨1, false⟩], some [⟨5, false⟩], some ⟨false, some false, [⟨1, false⟩], by decide⟩, by decide⟩
  let tie : DecimalLiteral := ⟨[9, 0, 0, 7, 1, 9, 9, 2, 5, 4, 7, 4, 0, 9, 9, 3].map
    (Digit.mk · false), none, none, by decide⟩
  let huge : DecimalLiteral := ⟨[⟨1, false⟩], none,
    some ⟨true, none, [⟨4, false⟩, ⟨0, false⟩, ⟨0, false⟩], by decide⟩, by decide⟩
  have hfifteen : fifteen.value = (15 : ℕ) := by
    have hnumber : Digit.number (fifteen.whole ++ fifteen.decimals) = 15 := by decide
    have hscale : fifteen.scale - fifteen.decimals.length = 0 := by decide
    rw [DecimalLiteral.value_eq, hnumber, hscale, zpow_zero, mul_one]
  have htie : tie.value = 2 ^ 53 + 1 := by
    have hnumber : Digit.number (tie.whole ++ tie.decimals) = 2 ^ 53 + 1 := by decide
    have hscale : tie.scale - tie.decimals.length = 0 := by decide
    rw [DecimalLiteral.value_eq, hnumber, hscale, zpow_zero, mul_one]
    norm_cast
  have hfinite : tie.value < Binary64.overflow := by
    rw [htie]
    have hbelow : (2 ^ 53 + 1 : ℚ) < Binary64.magnitude (2 ^ Binary64.precision) 1 := by
      norm_num [Binary64.magnitude, Binary64.precision]
    exact Binary64.lt_overflow (by decide) hbelow
  have hhuge : Binary64.overflow ≤ huge.value := by
    have hnumber : Digit.number (huge.whole ++ huge.decimals) = 1 := by decide
    have hscale : huge.scale - huge.decimals.length = 400 := by decide
    rw [DecimalLiteral.value_eq, hnumber, hscale, Nat.cast_one, one_mul]
    exact Binary64.overflow_le_ten_pow.trans (zpow_le_zpow_right₀ (by norm_num) (by norm_num))
  refine ⟨hdigits 16 255 (by decide), ?_, ?_, ?_, ?_, ?_, ?_, ?_⟩
  · exact (hmark 'X' 16 (by decide) [⟨15, false⟩, ⟨15, true⟩] (by decide)).2
  · exact hdecimal [⟨1, false⟩, ⟨2, false⟩] (by decide) rfl (by decide)
  · exact hoctal [⟨7, false⟩, ⟨5, false⟩] (by decide)
  · exact (hliteral fifteen fun h => Option.some_ne_none _ h.1).1 15 (by decide) hfifteen
  · have hread := (hliteral tie fun h => Bool.false_ne_true h.2.2).2.1 (by rw [htie]; norm_num) hfinite
    rw [htie] at hread
    exact hread
  · exact (hliteral huge fun h => Option.some_ne_none _ h.2.1).2.2 hhuge
  · exact hseparators [['1'], ['0', '0'], ['0']]

end Number
end SuiteOutline
