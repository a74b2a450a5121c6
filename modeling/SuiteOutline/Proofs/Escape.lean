import Mathlib.Tactic.IntervalCases
import SuiteOutline.Proofs.Offset
import SuiteOutline.Value.Escape

/-! Escape sequences of the grammar's forms: in a source all of them have a meaning, since one that
spells a number above every code point makes no source. -/
namespace SuiteOutline

def hexAlphabet : List Char := "0123456789abcdefABCDEF".toList

def octalAlphabet : List Char := "01234567".toList

/-- The forms that the grammar has for an escape sequence, the backslash included. -/
inductive IsEscape : List Char → Prop
  | single {c : Char} (hx : c ≠ 'x') (hu : c ≠ 'u') (ho : c ∉ octalAlphabet) : IsEscape ['\\', c]
  | octal {ds : List Char} (hds : ∀ c ∈ ds, c ∈ octalAlphabet) (hne : ds ≠ [])
      (hlength : ds.length ≤ 3) : IsEscape ('\\' :: ds)
  | byte {a b : Char} (h : ∀ c ∈ [a, b], c ∈ hexAlphabet) : IsEscape ['\\', 'x', a, b]
  | unit {a b c d : Char} (h : ∀ e ∈ [a, b, c, d], e ∈ hexAlphabet) :
      IsEscape ['\\', 'u', a, b, c, d]
  | braced {ds : List Char} (hds : ∀ c ∈ ds, c ∈ hexAlphabet) (hne : ds ≠ []) :
      IsEscape (Source.bracedEscape ++ ds ++ ['\x7d'])
  | line {c e : Char} (hc : c ∈ ['\r', '?']) (he : e ∈ ['\n', '\u2028', '\u2029']) :
      IsEscape ['\\', c, e]

/-! Numerals without sign, mark, underscore or white space. -/

def IsPlainDigit (base : Nat) (c : Char) : Prop :=
  isNumberBlank c = false ∧ c ≠ '-' ∧ c ≠ '+' ∧ c ≠ '_' ∧ markedBase? c ≠ some base ∧
    (digit? base c).isSome = true

instance (base : Nat) (c : Char) : Decidable (IsPlainDigit base c) :=
  inferInstanceAs (Decidable (_ ∧ _))

theorem isPlainDigit_hex : ∀ c ∈ hexAlphabet, IsPlainDigit 16 c := by
  have hall : hexAlphabet.all (fun c => decide (IsPlainDigit 16 c)) = true := by decide
  exact fun c hc => of_decide_eq_true (List.all_eq_true.mp hall c hc)

theorem isPlainDigit_octal : ∀ c ∈ octalAlphabet, IsPlainDigit 8 c := by
  have hall : octalAlphabet.all (fun c => decide (IsPlainDigit 8 c)) = true := by decide
  exact fun c hc => of_decide_eq_true (List.all_eq_true.mp hall c hc)

theorem trimBy_of_forall {p : Char → Bool} {cs : List Char} (h : ∀ c ∈ cs, p c = false) :
    trimBy p cs = cs := by
  have hdrop : ∀ ds : List Char, (∀ c ∈ ds, p c = false) → ds.dropWhile p = ds := by
    intro ds hds
    cases ds with
    | nil => rfl
    | cons d ds => rw [List.dropWhile_cons, hds d List.mem_cons_self, if_neg Bool.false_ne_true]
  unfold trimBy
  rw [hdrop cs h, hdrop cs.reverse fun c hc => h c (List.mem_reverse.mp hc), List.reverse_reverse]

theorem splitSign_of_head {c : Char} {cs : List Char} (hminus : c ≠ '-') (hplus : c ≠ '+') :
    splitSign (c :: cs) = (false, c :: cs) := by
  unfold splitSign
  split <;> simp_all

theorem splitRadix_of_forall {base : Nat} {cs : List Char}
    (h : ∀ c ∈ cs, markedBase? c ≠ some base) : splitRadix (.base base) cs = (base, false, cs) := by
  unfold splitRadix
  match cs with
  | [] | [_] => rfl
  | zero :: mark :: rest =>
    simp only
    split
    case h_1 b hb =>
      obtain ⟨_, _, hmark⟩ := Option.bind_eq_some_iff.mp hb
      have hne : base ≠ b := by
        rintro rfl
        exact h mark (by simp) hmark
      simp [hne]
    case h_2 => rfl

theorem digitRun?_of_forall {base : Nat} {cs : List Char} (h : ∀ c ∈ cs, IsPlainDigit base c)
    {after : Bool} (hafter : after = true ∨ cs ≠ []) :
    ∃ ds, digitRun? base after cs = some ds ∧ ds.length = cs.length ∧ ∀ d ∈ ds, d < base := by
  induction cs generalizing after with
  | nil =>
    have htrue : after = true := hafter.resolve_right fun hne => hne rfl
    exact ⟨[], by simp [digitRun?, htrue], rfl, by simp⟩
  | cons c cs ih =>
    obtain ⟨hc, hcs⟩ := List.forall_mem_cons.mp h
    obtain ⟨-, -, -, hunderscore, -, hdigit⟩ := hc
    obtain ⟨d, hd⟩ := Option.isSome_iff_exists.mp hdigit
    have hlt : d < base := by
      unfold digit? at hd
      simpa using (Option.filter_eq_some_iff.mp hd).2
    obtain ⟨ds, hds, hlength, hall⟩ := ih hcs (.inl rfl)
    refine ⟨d :: ds, ?_, by simp [hlength], List.forall_mem_cons.mpr ⟨hlt, hall⟩⟩
    rw [digitRun?, if_neg hunderscore, hd, hds]
    rfl

theorem ofDigits_lt {base : Nat} {ds : List Nat} (h : ∀ d ∈ ds, d < base) :
    ofDigits base ds < base ^ ds.length := by
  have hfold : ∀ acc, ds.foldl (fun n d => n * base + d) acc < (acc + 1) * base ^ ds.length := by
    induction ds with
    | nil => intro acc; simp
    | cons d ds ih =>
      intro acc
      obtain ⟨hd, hds⟩ := List.forall_mem_cons.mp h
      have hstep : acc * base + d + 1 ≤ (acc + 1) * base := by
        rw [Nat.succ_mul]
        omega
      calc (d :: ds).foldl (fun n d => n * base + d) acc
          < (acc * base + d + 1) * base ^ ds.length := ih hds _
        _ ≤ (acc + 1) * base * base ^ ds.length := Nat.mul_le_mul_right _ hstep
        _ = (acc + 1) * base ^ (ds.length + 1) := by rw [pow_succ', Nat.mul_assoc]
  simpa [ofDigits] using hfold 0

/-- Digits in sight, with no sign in front, are read as what they spell. Only a number without a mark
has to mind its leading zeros. -/
theorem readInteger?_eq_ofDigits {radix : Radix} {base : Nat} {marked : Bool} {cs rest : List Char}
    {ds : List Nat} (hblank : ∀ c ∈ cs, isNumberBlank c = false)
    (hsign : splitSign cs = (false, cs)) (hradix : splitRadix radix cs = (base, marked, rest))
    (hds : digitRun? base marked rest = some ds) (hne : ds ≠ [])
    (hlong : tooLong base ds.length = false)
    (hzero : radix = .marked → marked = false → ds.head? = some 0 → ofDigits base ds = 0) :
    readInteger? radix cs = some ((ofDigits base ds : Nat) : Int) := by
  unfold readInteger?
  rw [trimBy_of_forall hblank, hsign]
  simpa [hradix, hds, hne, hlong] using hzero

theorem readInteger?_of_run {base : Nat} (hbase : base ≠ 10) {cs : List Char} (hne : cs ≠ [])
    (h : ∀ c ∈ cs, IsPlainDigit base c) {ds : List Nat} (hds : digitRun? base false cs = some ds)
    (hlength : ds.length = cs.length) :
    readInteger? (.base base) cs = some ((ofDigits base ds : Nat) : Int) := by
  have hsign : splitSign cs = (false, cs) := by
    cases cs with
    | nil => exact absurd rfl hne
    | cons c cs =>
      obtain ⟨-, hminus, hplus, -⟩ := h c List.mem_cons_self
      exact splitSign_of_head hminus hplus
  have hradix := splitRadix_of_forall fun c hc => (h c hc).2.2.2.2.1
  have hempty : ds ≠ [] := by
    rintro rfl
    exact hne (List.length_eq_zero_iff.mp hlength.symm)
  exact readInteger?_eq_ofDigits (fun c hc => (h c hc).1) hsign hradix hds hempty
    (by simp [tooLong, hbase]) (by simp)

theorem readInteger?_of_digits {base : Nat} (hbase : base ≠ 10) {cs : List Char} (hne : cs ≠ [])
    (h : ∀ c ∈ cs, IsPlainDigit base c) :
    ∃ n : Nat, readInteger? (.base base) cs = some (n : Int) ∧ n < base ^ cs.length := by
  have hrun : ∃ ds, digitRun? base false cs = some ds ∧ ds.length = cs.length ∧ ∀ d ∈ ds, d < base :=
    digitRun?_of_forall h (.inr hne)
  obtain ⟨ds, hds, hlength, hall⟩ := hrun
  exact ⟨ofDigits base ds, readInteger?_of_run hbase hne h hds hlength, hlength ▸ ofDigits_lt hall⟩

theorem codePoint?_of_readInteger? {base : Nat} {cs : List Char} {n : Nat}
    (h : readInteger? (.base base) cs = some (n : Int)) (hn : n < 0x110000) :
    codePoint? base cs = some [⟨n, hn⟩] := by
  have hpoint : CodePoint.ofNat? (n : Int).toNat = some ⟨n, hn⟩ := dif_pos hn
  have hnonneg : ¬(n : Int) < 0 := by omega
  unfold codePoint?
  rw [h]
  simp only [Option.bind_eq_bind, Option.bind_some, hnonneg, if_false, hpoint, Option.pure_def]

theorem isSome_codePoint? {base : Nat} {cs : List Char} {n : Nat}
    (h : readInteger? (.base base) cs = some (n : Int)) (hn : n < 0x110000) :
    (codePoint? base cs).isSome = true := by
  rw [codePoint?_of_readInteger? h hn]
  rfl

theorem isSome_codePoint?_of_digits {base : Nat} (hbase : base ≠ 10) {cs : List Char}
    (hne : cs ≠ []) (h : ∀ c ∈ cs, IsPlainDigit base c) (hsmall : base ^ cs.length ≤ 0x110000) :
    (codePoint? base cs).isSome = true := by
  obtain ⟨n, hread, hn⟩ := readInteger?_of_digits hbase hne h
  exact isSome_codePoint? hread (Nat.lt_of_lt_of_le hn hsmall)

theorem mem_octalAlphabet {c : Char} (h : isOctal c = true) : c ∈ octalAlphabet := by
  simp only [isOctal, Bool.and_eq_true, decide_eq_true_eq, Char.le_def, UInt32.le_iff_toNat_le] at h
  obtain ⟨hlow, hhigh⟩ := h
  have hc : c = Char.ofNat c.toNat := c.ofNat_toNat.symm
  change 48 ≤ c.toNat at hlow
  change c.toNat ≤ 55 at hhigh
  rw [hc]
  interval_cases c.toNat <;> decide

/-- Behind a backslash, what begins with neither `u` nor `x` has a meaning: octal digits are up to
three. -/
theorem isSome_decodeEscape? {body : List Char} (hu : body.head? ≠ some 'u')
    (hx : body.head? ≠ some 'x') (hlength : body.length ≤ 3) :
    (decodeEscape? ('\\' :: body)).isSome = true := by
  have hoctal : ∀ ds : List Char, ds ≠ [] → ds.length ≤ 3 → ds.all isOctal = true →
      (codePoint? 8 ds).isSome = true := by
    intro ds hne hle hall
    have hdigits : ∀ c ∈ ds, IsPlainDigit 8 c := fun c hc =>
      isPlainDigit_octal c (mem_octalAlphabet (List.all_eq_true.mp hall c hc))
    have hsmall : 8 ^ ds.length ≤ 8 ^ 3 := Nat.pow_le_pow_right (by decide) hle
    exact isSome_codePoint?_of_digits (by decide) hne hdigits (Nat.le_trans hsmall (by decide))
  unfold decodeEscape?
  simp only [List.drop_one, List.tail_cons]
  split
  case h_1 | h_2 => simp at hu
  case h_3 => simp at hx
  case h_4 =>
    split
    · rfl
    split
    · split
      · rfl
      split
      case isTrue hc =>
        exact hoctal _ (List.cons_ne_nil _ _) hlength (by simpa using hc)
      case isFalse => rfl
    · split
      case isTrue hall =>
        simp only [Bool.and_eq_true, Bool.not_eq_true', List.isEmpty_eq_false_iff] at hall
        exact hoctal body hall.1 hlength hall.2
      case isFalse => rfl

/-- An escape in braces is out of range if its digits spell a number above every code point. -/
theorem Source.isOutOfRange_braced {ds : List Char} {n : Int}
    (hread : readInteger? (.base 16) ds = some n) :
    isOutOfRange (bracedEscape ++ ds ++ ['\x7d']) = .ok (decide (0x10FFFF < n)) := by
  have hbraced : bracedEscape.isPrefixOf (bracedEscape ++ ds ++ ['\x7d']) = true := by
    rw [List.isPrefixOf_iff_prefix, List.append_assoc]
    exact List.prefix_append _ _
  have hdigits : ((bracedEscape ++ ds ++ ['\x7d']).drop 3).dropLast = ds := List.dropLast_concat
  unfold isOutOfRange
  rw [if_pos hbraced, hdigits, hread]

/-- An escape of the grammar's forms has a meaning, unless it spells a number above every code
point. -/
theorem IsEscape.isSome_decode {raw : List Char} (h : IsEscape raw)
    (hrange : Source.isOutOfRange raw = .ok false) : (decodeEscape? raw).isSome = true := by
  cases h with
  | @single c hx hu ho =>
    exact isSome_decodeEscape? (by simpa using hu) (by simpa using hx) (by simp)
  | @octal ds hds hne hlength =>
    have hhead : ∀ x ∉ octalAlphabet, ds.head? ≠ some x := by
      intro x hx hd
      exact hx (hds x (List.mem_of_mem_head? hd))
    exact isSome_decodeEscape? (hhead 'u' (by decide)) (hhead 'x' (by decide)) hlength
  | @byte a b h =>
    have hsmall : 16 ^ 2 ≤ 0x110000 := by decide
    exact isSome_codePoint?_of_digits (by decide) (List.cons_ne_nil _ _)
      (fun c hc => isPlainDigit_hex c (h c hc)) hsmall
  | @unit a b c d h =>
    have hbrace : a ≠ '\x7b' := by
      rintro rfl
      exact absurd (h '\x7b' List.mem_cons_self) (by decide)
    have hsmall : 16 ^ 4 ≤ 0x110000 := by decide
    have hpoint := isSome_codePoint?_of_digits (by decide) (List.cons_ne_nil _ _)
      (fun e he => isPlainDigit_hex e (h e he)) hsmall
    unfold decodeEscape?
    simpa only [List.drop_one, List.tail_cons] using hpoint
  | @braced ds hds hne =>
    obtain ⟨n, hread, -⟩ := readInteger?_of_digits (by decide) hne
      fun c hc => isPlainDigit_hex c (hds c hc)
    have hdigits : (ds ++ ['\x7d']).dropLast = ds := List.dropLast_concat
    have hle : ¬(0x10FFFF : Int) < n := by
      rw [Source.isOutOfRange_braced hread] at hrange
      exact of_decide_eq_false (Except.ok.inj hrange)
    change (codePoint? 16 (ds ++ ['\x7d']).dropLast).isSome = true
    rw [hdigits]
    exact isSome_codePoint? hread (by omega)
  | @line c e hc he =>
    have hu : c ≠ 'u' := by
      rintro rfl
      exact absurd hc (by decide)
    have hx : c ≠ 'x' := by
      rintro rfl
      exact absurd hc (by decide)
    exact isSome_decodeEscape? (by simpa using hu) (by simpa using hx) (by simp)

/-! A source has no escape out of range. -/

theorem occursIn_iff_isInfix {part cs : List Char} : occursIn part cs = true ↔ part <:+: cs := by
  induction cs with
  | nil => rw [occursIn, List.isEmpty_iff, List.infix_nil]
  | cons c cs ih =>
    rw [occursIn, Bool.or_eq_true, ih, List.isPrefixOf_iff_prefix, List.infix_cons_iff]

namespace Source

variable {src : Source}

theorem slice_isInfix (start stop : Nat) : src.slice start stop <:+: src.text.toList :=
  (slice_isPrefix start stop).isInfix.trans (List.drop_suffix start _).isInfix

theorem isOutOfRange_of_firstOutOfRange? {ns : List Node}
    (h : src.firstOutOfRange? ns = .ok none) {e : Node} (he : e ∈ ns)
    (hsymbol : e.symbol = .escapeSequence) {raw : List Char} (hraw : src.charsOf e = .ok raw) :
    isOutOfRange raw = .ok false := by
  induction ns with
  | nil => cases he
  | cons n ns ih =>
    rw [firstOutOfRange?] at h
    split at h
    case isTrue =>
      obtain ⟨chars, hchars, h⟩ := bind_eq_ok.mp h
      obtain ⟨out, hout, h⟩ := bind_eq_ok.mp h
      cases out with
      | true => cases h
      | false =>
        rcases List.mem_cons.mp he with rfl | he
        · rw [hraw] at hchars
          cases hchars
          exact hout
        · exact ih h he
    case isFalse hne =>
      rcases List.mem_cons.mp he with rfl | he
      · exact absurd hsymbol hne
      · exact ih h he

/-- A text without any braced escape need not be searched: what a node covers is part of the text. -/
theorem occursIn_of_charsOf {n : Node} {raw : List Char} (hraw : src.charsOf n = .ok raw)
    (hbegins : bracedEscape <+: raw) : occursIn bracedEscape src.text.toList = true := by
  obtain ⟨span, -, hslice⟩ := bind_eq_ok.mp hraw
  rw [← pure_eq_ok.mp hslice] at hbegins
  exact occursIn_iff_isInfix.mpr (hbegins.isInfix.trans (slice_isInfix _ _))

theorem isOutOfRange_of_not_occursIn {n : Node} {raw : List Char} (hraw : src.charsOf n = .ok raw)
    (h : ¬occursIn bracedEscape src.text.toList = true) : isOutOfRange raw = .ok false := by
  have hplain : bracedEscape.isPrefixOf raw = false := by
    by_contra hbraced
    have hbegins : bracedEscape <+: raw := List.isPrefixOf_iff_prefix.mp (by simpa using hbraced)
    exact h (occursIn_of_charsOf hraw hbegins)
  unfold isOutOfRange
  rw [hplain]
  rfl

/-- The escapes of a source are in range. -/
theorem isOutOfRange_of_ofTree {filename : Option String} {text : List Char} {tree : Node}
    (h : ofTree filename text tree = .ok src) {e : Node} (he : e ∈ src.root.walk)
    (hsymbol : e.symbol = .escapeSequence) {raw : List Char} (hraw : src.charsOf e = .ok raw) :
    isOutOfRange raw = .ok false := by
  have hnone := (outOfRange?_of_ofTree h).2
  unfold outOfRange? at hnone
  split at hnone
  case isTrue => exact isOutOfRange_of_firstOutOfRange? hnone he hsymbol hraw
  case isFalse hoccurs => exact isOutOfRange_of_not_occursIn hraw hoccurs

end Source
end SuiteOutline
