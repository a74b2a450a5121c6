import Mathlib.Algebra.Group.Nat.Defs
import Mathlib.Data.List.Basic
import Mathlib.Data.List.Induction
import Mathlib.Tactic.ByContra
import SuiteOutline.Text.Decode

/-! UTF-8 and its faults. A number is spread over bytes of six bits each, behind a first byte that
tells how many there are; a character takes as few as it can. Bytes spell a text, or there is a first
place in them where no character begins, and it is known what is wrong there. -/
namespace SuiteOutline

namespace Utf8

/-- A byte that only stands behind others. -/
def IsTrailing (b : Nat) : Prop := 0x80 ≤ b ∧ b < 0xC0

/-- The last groups of six bits of a number, so many, each in a byte of its own. -/
def trail : Nat → Nat → List Nat
  | 0, _ => []
  | k + 1, n => trail k (n / 64) ++ [0x80 + n % 64]

/-- The number of bytes that a number is spread over. -/
inductive Width where
  | one | two | three | four
deriving DecidableEq

namespace Width

/-- The number of bytes behind the first. -/
def trailing : Width → Nat
  | one => 0
  | two => 1
  | three => 2
  | four => 3

/-- What the first byte is marked with. -/
def mark : Width → Nat
  | one => 0
  | two => 0xC0
  | three => 0xE0
  | four => 0xF0

/-- The first number that needs more bytes. -/
def bound : Width → Nat
  | one => 0x80
  | two => 0x800
  | three => 0x10000
  | four => 0x200000

/-- The first number that does not do with fewer bytes. -/
def least : Width → Nat
  | one => 0
  | two => 0x80
  | three => 0x800
  | four => 0x10000

/-- A number spread over so many bytes, needed or not. -/
def spread (w : Width) (n : Nat) : List Nat := (w.mark + n / 64 ^ w.trailing) :: trail w.trailing n

/-- The width that a first byte tells. -/
def told? (b : Nat) : Option Width :=
  if b < 0x80 then some one
  else if b < 0xC0 then none
  else if b < 0xE0 then some two
  else if b < 0xF0 then some three
  else if b < 0xF8 then some four
  else none

end Width

/-- The bytes of a character, as numbers. -/
def encoded (c : Char) : List Nat := (String.utf8EncodeChar c).map UInt8.toNat

/-- The bytes begin with what is no character. -/
inductive Fault : List Nat → Prop
  /-- No character begins with the byte. -/
  | stray {b : Nat} (rest : List Nat) (h : Width.told? b = none) : Fault (b :: rest)
  /-- Fewer bytes trail the first one than it tells. -/
  | truncated {b : Nat} {w : Width} {behind rest : List Nat} (hb : Width.told? b = some w)
      (hbehind : ∀ t ∈ behind, IsTrailing t) (hfew : behind.length < w.trailing)
      (hrest : ∀ t ∈ rest.head?, ¬IsTrailing t) : Fault (b :: (behind ++ rest))
  /-- The number does with fewer bytes. -/
  | overlong {w : Width} {n : Nat} (rest : List Nat) (h : n < w.least) : Fault (w.spread n ++ rest)
  /-- The number is a surrogate. -/
  | surrogate {n : Nat} (rest : List Nat) (hlow : 0xD800 ≤ n) (hhigh : n < 0xE000) :
      Fault (Width.three.spread n ++ rest)
  /-- The number is above every code point. -/
  | above {n : Nat} (rest : List Nat) (hlow : 0x10FFFF < n) (hhigh : n < Width.four.bound) :
      Fault (Width.four.spread n ++ rest)

/-- Behind characters, if any, there is a fault. -/
def Faulty (bs : List Nat) : Prop :=
  ∃ (text : List Char) (rest : List Nat), bs = text.flatMap encoded ++ rest ∧ Fault rest

/-! Bytes that trail the first. -/

@[simp] theorem length_trail (k n : Nat) : (trail k n).length = k := by
  induction k generalizing n with
  | zero => rfl
  | succ k ih => simp [trail, ih]

theorem isTrailing_of_mem_trail {k n b : Nat} (h : b ∈ trail k n) : IsTrailing b := by
  induction k generalizing n with
  | zero => simp [trail] at h
  | succ k ih =>
    rw [trail, List.mem_append, List.mem_singleton] at h
    rcases h with h | rfl
    · exact ih h
    · unfold IsTrailing
      omega

/-- Any trailing bytes are those of a number, and what is in front of them is free. -/
theorem exists_trail_eq (front : Nat) {bs : List Nat} (h : ∀ b ∈ bs, IsTrailing b) :
    ∃ n, n / 64 ^ bs.length = front ∧ trail bs.length n = bs := by
  induction bs using List.reverseRecOn with
  | nil => exact ⟨front, by simp, rfl⟩
  | append_singleton bs b ih =>
    obtain ⟨m, hfront, htrail⟩ := ih fun c hc => h c (List.mem_append_left _ hc)
    have hb : IsTrailing b := h b (by simp)
    unfold IsTrailing at hb
    have hdiv : (m * 64 + (b - 0x80)) / 64 = m := by omega
    have hmod : 0x80 + (m * 64 + (b - 0x80)) % 64 = b := by omega
    refine ⟨m * 64 + (b - 0x80), ?_, ?_⟩
    · rw [List.length_append, List.length_singleton, Nat.pow_succ', ← Nat.div_div_eq_div_mul, hdiv,
        hfront]
    · rw [List.length_append, List.length_singleton, trail, hdiv, hmod, htrail]

theorem trail_inj {k n m : Nat} (hfront : n / 64 ^ k = m / 64 ^ k)
    (htrail : trail k n = trail k m) : n = m := by
  induction k generalizing n m with
  | zero => simpa using hfront
  | succ k ih =>
    rw [Nat.pow_succ', ← Nat.div_div_eq_div_mul, ← Nat.div_div_eq_div_mul] at hfront
    rw [trail, trail] at htrail
    obtain ⟨hinit, hlast⟩ := List.append_inj' htrail rfl
    have hdiv : n / 64 = m / 64 := ih hfront hinit
    have hmod : 0x80 + n % 64 = 0x80 + m % 64 := by simpa using hlast
    omega

theorem exists_run (bs : List Nat) :
    ∃ run rest, bs = run ++ rest ∧ (∀ t ∈ run, IsTrailing t) ∧ ∀ t ∈ rest.head?, ¬IsTrailing t := by
  induction bs with
  | nil => exact ⟨[], [], rfl, by simp, by simp⟩
  | cons b bs ih =>
    obtain ⟨run, rest, rfl, hrun, hrest⟩ := ih
    by_cases hb : IsTrailing b
    · exact ⟨b :: run, rest, rfl, List.forall_mem_cons.mpr ⟨hb, hrun⟩, hrest⟩
    · exact ⟨[], b :: (run ++ rest), rfl, by simp, by simpa using hb⟩

/-! Numbers spread over bytes. -/

namespace Width

variable {w v : Width} {n m : Nat}

/-- The first byte tells the width. -/
theorem told?_first (h : n < w.bound) : told? (w.mark + n / 64 ^ w.trailing) = some w := by
  cases w <;> simp only [bound] at h <;> simp only [told?, mark, trailing] <;> grind

/-- What a first byte may be that tells a width. -/
theorem told?_eq_some {b : Nat} (h : told? b = some w) :
    w.mark ≤ b ∧ (b - w.mark + 1) * 64 ^ w.trailing ≤ w.bound := by
  unfold told? at h
  split_ifs at h <;> cases h <;> simp only [mark, trailing, bound] <;> omega

theorem spread_append_inj {r s : List Nat} (hn : n < w.bound) (hm : m < v.bound)
    (h : w.spread n ++ r = v.spread m ++ s) : w = v ∧ n = m ∧ r = s := by
  rw [spread, spread, List.cons_append, List.cons_append, List.cons.injEq] at h
  obtain ⟨hfirst, hbehind⟩ := h
  have hwidth : some w = some v := by rw [← told?_first hn, hfirst, told?_first hm]
  obtain rfl : w = v := Option.some.inj hwidth
  have hfront : n / 64 ^ w.trailing = m / 64 ^ w.trailing := by omega
  obtain ⟨htrail, hrest⟩ := List.append_inj hbehind (by simp)
  exact ⟨rfl, trail_inj hfront htrail, hrest⟩

/-- A number that needs just so many bytes needs no other number of them. -/
theorem eq_of_least_le (hw : w.least ≤ n) (hn : n < w.bound) (hv : v.least ≤ n) (hm : n < v.bound) :
    w = v := by
  by_contra hne
  cases w <;> cases v <;> simp [least, bound] at hw hn hv hm hne <;> omega

/-- Behind a first byte there are enough bytes for a number, or it is cut short. -/
theorem exists_spread_or_fault {b : Nat} (hb : told? b = some w) (bs : List Nat) :
    (∃ n rest, n < w.bound ∧ b :: bs = w.spread n ++ rest) ∨ Fault (b :: bs) := by
  obtain ⟨run, rest, rfl, hrun, hrest⟩ := exists_run bs
  by_cases hfew : run.length < w.trailing
  · exact .inr (.truncated hb hrun hfew hrest)
  · left
    have hlength : (run.take w.trailing).length = w.trailing := by
      rw [List.length_take]
      omega
    obtain ⟨n, hfront, htrail⟩ :=
      exists_trail_eq (b - w.mark) fun t ht => hrun t (List.mem_of_mem_take ht)
    rw [hlength] at hfront htrail
    obtain ⟨hmark, hroom⟩ := told?_eq_some hb
    refine ⟨n, run.drop w.trailing ++ rest, ?_, ?_⟩
    · have hpos : 0 < 64 ^ w.trailing := Nat.pow_pos (by decide)
      have hlt : n < (b - w.mark + 1) * 64 ^ w.trailing := by
        rw [← hfront, Nat.mul_comm]
        exact Nat.lt_mul_div_succ n hpos
      omega
    · rw [spread, hfront, htrail, Nat.add_sub_cancel' hmark, List.cons_append, ← List.append_assoc,
        List.take_append_drop]

end Width

/-! Characters. -/

theorem toNat_ofNat {n : Nat} (h : n.isValidChar) : (Char.ofNat n).toNat = n := by
  rw [Char.ofNat, dif_pos h]
  rfl

theorem isValidChar_toNat (c : Char) : c.toNat.isValidChar := c.valid

/-- A character is spread over the bytes that it needs. -/
theorem exists_spread_eq_encoded (c : Char) :
    ∃ w : Width, w.least ≤ c.toNat ∧ c.toNat < w.bound ∧ encoded c = w.spread c.toNat := by
  have hvalid : c.val.toNat.isValidChar := c.valid
  change ∃ w : Width, w.least ≤ c.val.toNat ∧ c.val.toNat < w.bound ∧
    encoded c = w.spread c.val.toNat
  unfold encoded String.utf8EncodeChar
  dsimp only
  generalize c.val.toNat = n at hvalid
  unfold Nat.isValidChar at hvalid
  split_ifs
  on_goal 1 => refine ⟨.one, ?_⟩
  on_goal 2 => refine ⟨.two, ?_⟩
  on_goal 3 => refine ⟨.three, ?_⟩
  on_goal 4 => refine ⟨.four, ?_⟩
  all_goals
    simp [Width.least, Width.bound, Width.spread, Width.mark, Width.trailing, trail]
    omega

theorem encoded_ofNat {w : Width} {n : Nat} (hvalid : n.isValidChar) (hleast : w.least ≤ n)
    (hbound : n < w.bound) : encoded (Char.ofNat n) = w.spread n := by
  obtain ⟨v, hleast', hbound', hencoded⟩ := exists_spread_eq_encoded (Char.ofNat n)
  rw [toNat_ofNat hvalid] at hleast' hbound' hencoded
  rw [hencoded, Width.eq_of_least_le hleast hbound hleast' hbound']

theorem encoded_append_inj {c d : Char} {r s : List Nat} (h : encoded c ++ r = encoded d ++ s) :
    r = s := by
  obtain ⟨w, -, hc, hw⟩ := exists_spread_eq_encoded c
  obtain ⟨v, -, hd, hv⟩ := exists_spread_eq_encoded d
  rw [hw, hv] at h
  exact (Width.spread_append_inj hc hd h).2.2

/-- A number spread over bytes is a character, or it is at fault. -/
theorem exists_encoded_or_fault_of_spread {w : Width} {n : Nat} (h : n < w.bound)
    (rest : List Nat) :
    (∃ c, w.spread n = encoded c) ∨ Fault (w.spread n ++ rest) := by
  by_cases hshort : n < w.least
  · exact .inr (.overlong rest hshort)
  by_cases hvalid : n.isValidChar
  · exact .inl ⟨Char.ofNat n, (encoded_ofNat hvalid (by omega) h).symm⟩
  -- of the numbers that are no characters, some need three bytes and the others four
  right
  unfold Nat.isValidChar at hvalid
  cases w with
  | one | two =>
    simp only [Width.bound] at h
    omega
  | three =>
    simp only [Width.bound] at h
    exact .surrogate rest (by omega) (by omega)
  | four =>
    simp only [Width.least] at hshort
    exact .above rest (by omega) h

/-- Bytes begin with a character, or with a fault. -/
theorem exists_encoded_or_fault (b : Nat) (bs : List Nat) :
    (∃ c rest, b :: bs = encoded c ++ rest) ∨ Fault (b :: bs) := by
  cases hb : Width.told? b with
  | none => exact .inr (.stray bs hb)
  | some w =>
    rcases Width.exists_spread_or_fault hb bs with ⟨n, rest, hn, hspread⟩ | hfault
    · rw [hspread]
      rcases exists_encoded_or_fault_of_spread hn rest with ⟨c, hc⟩ | hfault
      · exact .inl ⟨c, rest, by rw [hc]⟩
      · exact .inr hfault
    · exact .inr hfault

theorem encoded_ne_nil (c : Char) : encoded c ≠ [] := by
  obtain ⟨w, -, -, hw⟩ := exists_spread_eq_encoded c
  rw [hw]
  exact List.cons_ne_nil _ _

/-- No character begins where there is a fault. -/
theorem Fault.ne_encoded_append {bs : List Nat} (h : Fault bs) (c : Char) (rest : List Nat) :
    bs ≠ encoded c ++ rest := by
  intro heq
  obtain ⟨w, hleast, hbound, hencoded⟩ := exists_spread_eq_encoded c
  have hvalid := isValidChar_toNat c
  unfold Nat.isValidChar at hvalid
  rw [hencoded] at heq
  have hfirst := Width.told?_first hbound
  cases h with
  | stray rest' hb =>
    rw [Width.spread, List.cons_append, List.cons.injEq] at heq
    rw [heq.1, hfirst] at hb
    cases hb
  | @truncated b v behind rest' hb hbehind hfew hrest =>
    rw [Width.spread, List.cons_append, List.cons.injEq] at heq
    rw [heq.1, hfirst] at hb
    obtain rfl : w = v := Option.some.inj hb
    -- the byte behind the few is one of the character, so it trails too
    rcases List.append_eq_append_iff.mp heq.2 with ⟨more, htrail, hmore⟩ | ⟨more, htrail, -⟩
    · cases more with
      | nil =>
        have hlength := congrArg List.length htrail
        simp only [length_trail, List.append_nil] at hlength
        omega
      | cons t more =>
        have ht : t ∈ trail w.trailing c.toNat := by simp [htrail]
        exact hrest t (by simp [hmore]) (isTrailing_of_mem_trail ht)
    · have hlength := congrArg List.length htrail
      simp only [length_trail, List.length_append] at hlength
      omega
  | @overlong v n rest' hn =>
    have hn' : n < v.bound := by
      cases v <;> simp only [Width.least, Width.bound] at hn ⊢ <;> omega
    obtain ⟨rfl, rfl, -⟩ := Width.spread_append_inj hn' hbound heq
    omega
  | @surrogate n rest' hlow hhigh =>
    have hn : n < Width.three.bound := by
      simp only [Width.bound]
      omega
    obtain ⟨-, rfl, -⟩ := Width.spread_append_inj hn hbound heq
    omega
  | @above n rest' hlow hhigh =>
    obtain ⟨-, rfl, -⟩ := Width.spread_append_inj hhigh hbound heq
    omega

theorem Fault.ne_nil {bs : List Nat} (h : Fault bs) : bs ≠ [] := by
  cases h <;> simp [Width.spread]

/-- Bytes with a fault spell no text. -/
theorem Faulty.ne_flatMap_encoded {bs : List Nat} (h : Faulty bs) (text : List Char) :
    bs ≠ text.flatMap encoded := by
  obtain ⟨front, rest, rfl, hfault⟩ := h
  intro heq
  induction front generalizing text with
  | nil =>
    cases text with
    | nil => exact hfault.ne_nil heq
    | cons c text => exact hfault.ne_encoded_append c _ heq
  | cons c front ih =>
    cases text with
    | nil =>
      have hnil := (List.append_eq_nil_iff.mp heq).1
      exact encoded_ne_nil c (List.append_eq_nil_iff.mp hnil).1
    | cons d text =>
      rw [List.flatMap_cons, List.flatMap_cons, List.append_assoc] at heq
      exact ih text (encoded_append_inj heq)

/-- Bytes spell a text, or there is a fault in them. -/
theorem exists_flatMap_encoded_or_faulty (bs : List Nat) :
    (∃ text : List Char, bs = text.flatMap encoded) ∨ Faulty bs := by
  induction hlength : bs.length using Nat.strongRecOn generalizing bs with
  | ind k ih =>
    cases bs with
    | nil => exact .inl ⟨[], rfl⟩
    | cons b bs =>
      rcases exists_encoded_or_fault b bs with ⟨c, rest, hc⟩ | hfault
      · have hshorter : rest.length < k := by
          have hpos := List.length_pos_iff.mpr (encoded_ne_nil c)
          rw [← hlength, hc, List.length_append]
          omega
        rw [hc]
        rcases ih _ hshorter rest rfl with ⟨text, rfl⟩ | ⟨text, rest, rfl, hfault⟩
        · exact .inl ⟨c :: text, rfl⟩
        · exact .inr ⟨c :: text, rest, by rw [List.flatMap_cons, List.append_assoc], hfault⟩
      · exact .inr ⟨[], b :: bs, rfl, hfault⟩

/-! Byte arrays. -/

/-- Bytes as numbers. -/
def octets (b : ByteArray) : List Nat := b.data.toList.map UInt8.toNat

theorem octets_inj {b b' : ByteArray} (h : octets b = octets b') : b = b' := by
  have hlist : b.data.toList = b'.data.toList :=
    List.map_injective_iff.mpr (fun _ _ => UInt8.toNat_inj.mp) h
  exact ByteArray.ext (Array.toList_inj.mp hlist)

theorem octets_utf8Encode (text : List Char) : octets text.utf8Encode = text.flatMap encoded := by
  rw [octets, List.utf8Encode, List.toList_data_toByteArray, List.map_flatMap]
  rfl

theorem isValidUTF8_iff_not_faulty (b : ByteArray) : b.IsValidUTF8 ↔ ¬Faulty (octets b) := by
  constructor
  · rintro ⟨text, rfl⟩ hfaulty
    exact hfaulty.ne_flatMap_encoded text (octets_utf8Encode text)
  · intro hfaulty
    obtain ⟨text, htext⟩ := (exists_flatMap_encoded_or_faulty (octets b)).resolve_right hfaulty
    exact ⟨text, octets_inj (htext.trans (octets_utf8Encode text).symm)⟩

theorem loop_toList (b : ByteArray) (i : Nat) (front : List UInt8) :
    ByteArray.toList.loop b i front = front.reverse ++ b.data.toList.drop i := by
  fun_induction ByteArray.toList.loop b i front with
  | case1 i front hlt ih =>
    have hget : b.get! i = b.data.toList[i] := getElem!_pos b.data i hlt
    rw [ih, List.reverse_cons, List.append_assoc, hget, List.singleton_append,
      List.getElem_cons_drop]
  | case2 i front hge =>
    have hend : b.data.toList.drop i = [] := List.drop_eq_nil_of_le (Nat.not_lt.mp hge)
    rw [hend, List.append_nil]

theorem toList_eq (b : ByteArray) : b.toList = b.data.toList := loop_toList b 0 []

end Utf8

open Utf8

theorem decodeSource_utf8Encode (text : List Char) :
    decodeSource text.utf8Encode = String.ofList text := by
  have hvalid : text.utf8Encode.IsValidUTF8 := ByteArray.isValidUTF8_utf8Encode
  rw [decodeSource, String.fromUTF8?, dif_pos hvalid]
  rfl

theorem decodeSource_toUTF8 (s : String) : decodeSource s.toUTF8 = s := by
  rw [String.toUTF8_eq_toByteArray, ← String.utf8Encode_toList, decodeSource_utf8Encode,
    String.ofList_toList]

/-- Where bytes spell no text, each of them is a character. -/
theorem map_toNat_decodeSource {b : ByteArray} (h : ¬b.IsValidUTF8) :
    (decodeSource b).toList.map Char.toNat = octets b := by
  have hbyte : ∀ x : UInt8, (Char.ofNat x.toNat).toNat = x.toNat := by
    intro x
    have hlt := x.toNat_lt
    exact toNat_ofNat (.inl (by omega))
  rw [decodeSource, String.fromUTF8?, dif_neg h]
  simp only [String.toList_ofList, List.map_map, toList_eq, octets]
  exact List.map_congr_left fun x _ => hbyte x

/-- Decoding undoes encoding. Bytes without fault are the encoding of what they are decoded to; bytes
with a fault encode no text, and each of them is decoded to the character of that number. -/
theorem decodeSource_exact :
    (∀ s : String, decodeSource s.toUTF8 = s) ∧
    ∀ b : ByteArray,
      ((decodeSource b).toUTF8 = b ∧ ¬Faulty (octets b)) ∨
      ((∀ s : String, s.toUTF8 ≠ b) ∧ Faulty (octets b) ∧
        (decodeSource b).toList.map Char.toNat = octets b) := by
  refine ⟨decodeSource_toUTF8, fun b => ?_⟩
  by_cases hvalid : b.IsValidUTF8
  · left
    refine ⟨?_, (isValidUTF8_iff_not_faulty b).mp hvalid⟩
    obtain ⟨text, rfl⟩ := hvalid
    rw [decodeSource_utf8Encode, String.toUTF8_eq_toByteArray, String.toByteArray_ofList]
  · right
    refine ⟨?_, ?_, map_toNat_decodeSource hvalid⟩
    · rintro s rfl
      rw [String.toUTF8_eq_toByteArray] at hvalid
      exact hvalid s.isValidUTF8
    · by_contra hfaulty
      exact hvalid ((isValidUTF8_iff_not_faulty b).mpr hfaulty)

end SuiteOutline
