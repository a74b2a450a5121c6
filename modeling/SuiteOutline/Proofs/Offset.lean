import Mathlib.Algebra.GroupWithZero.Nat
import Mathlib.Tactic.ByContra
import SuiteOutline.Proofs.Outcome
import SuiteOutline.Tree.Source

/-! Byte offsets at the boundaries of characters convert to code point offsets without fail, and in
the same order. -/
namespace SuiteOutline

/-- The number of bytes of the UTF-8 encoding. -/
def utf8Length (cs : List Char) : Nat := (cs.map Char.utf8Size).sum

@[simp] theorem utf8Length_nil : utf8Length [] = 0 := rfl

@[simp] theorem utf8Length_cons (c : Char) (cs : List Char) :
    utf8Length (c :: cs) = c.utf8Size + utf8Length cs := rfl

theorem utf8Length_append (as bs : List Char) :
    utf8Length (as ++ bs) = utf8Length as + utf8Length bs := by
  simp [utf8Length]

theorem size_utf8Encode (cs : List Char) : cs.utf8Encode.size = utf8Length cs := by
  induction cs with
  | nil => rfl
  | cons c cs ih =>
    rw [List.utf8Encode_cons, ByteArray.size_append, List.utf8Encode_singleton,
      List.size_toByteArray, String.length_utf8EncodeChar, ih, utf8Length_cons]

/-- Where a character of the text starts, or the text ends, counted in bytes. -/
def IsBoundary (text : List Char) (byte : Nat) : Prop :=
  ∃ k ≤ text.length, utf8Length (text.take k) = byte

instance (text : List Char) (byte : Nat) : Decidable (IsBoundary text byte) :=
  decidable_of_iff (∃ k < text.length + 1, utf8Length (text.take k) = byte)
    (by simp only [IsBoundary, Nat.lt_succ_iff])

theorem utf8Length_pos {cs : List Char} (h : cs ≠ []) : 0 < utf8Length cs := by
  cases cs with
  | nil => exact absurd rfl h
  | cons c cs =>
    have := c.utf8Size_pos
    rw [utf8Length_cons]
    omega

theorem utf8Length_take_lt {text : List Char} {j k : Nat} (hjk : j < k) (hk : k ≤ text.length) :
    utf8Length (text.take j) < utf8Length (text.take k) := by
  have hsplit : text.take k = text.take j ++ (text.drop j).take (k - j) := by
    rw [← List.take_add]
    congr 1
    omega
  have hne : (text.drop j).take (k - j) ≠ [] := by
    intro h
    have := congrArg List.length h
    simp only [List.length_take, List.length_drop, List.length_nil] at this
    omega
  have := utf8Length_pos hne
  rw [hsplit, utf8Length_append]
  omega

theorem utf8Length_take_le_iff {text : List Char} {j k : Nat} (hj : j ≤ text.length)
    (hk : k ≤ text.length) :
    utf8Length (text.take j) ≤ utf8Length (text.take k) ↔ j ≤ k := by
  constructor
  · intro h
    by_contra hlt
    have := utf8Length_take_lt (Nat.lt_of_not_le hlt) hj
    omega
  · intro h
    rcases Nat.lt_or_eq_of_le h with h | rfl
    · exact Nat.le_of_lt (utf8Length_take_lt h hk)
    · exact Nat.le_refl _

theorem getElem?_offsetTable (index : Nat) {text : List Char} {k : Nat} (hk : k ≤ text.length) :
    (offsetTable index text)[utf8Length (text.take k)]? = some (index + k) := by
  induction text generalizing index k with
  | nil =>
    obtain rfl : k = 0 := by simpa using hk
    rfl
  | cons c cs ih =>
    have hpos := c.utf8Size_pos
    cases k with
    | zero =>
      have hlt : 0 < (List.replicate c.utf8Size index).length := by rwa [List.length_replicate]
      change (List.replicate c.utf8Size index ++ offsetTable (index + 1) cs)[0]? = some index
      rw [List.getElem?_append_left hlt, List.getElem?_replicate, if_pos hpos]
    | succ k =>
      rw [offsetTable, List.take_succ_cons, utf8Length_cons, List.getElem?_append_right (by simp),
        List.length_replicate, Nat.add_sub_cancel_left, ih (index + 1) (by simpa using hk)]
      congr 1
      omega

theorem utf8Size_of_ascii {c : Char} (h : c.toNat < 0x80) : c.utf8Size = 1 := by
  rw [Char.utf8Size_eq_one_iff, UInt32.le_iff_toNat_le]
  exact Nat.le_of_lt_succ h

/-- In an ASCII text bytes and characters are the same. -/
theorem utf8Length_of_ascii {cs : List Char} (h : cs.all (·.toNat < 0x80) = true) :
    utf8Length cs = cs.length := by
  induction cs with
  | nil => rfl
  | cons c cs ih =>
    simp only [List.all_cons, Bool.and_eq_true, decide_eq_true_eq] at h
    rw [utf8Length_cons, utf8Size_of_ascii h.1, ih h.2, List.length_cons, Nat.add_comm]

theorem Offsets.get?_ofText {text : List Char} {k : Nat} (hk : k ≤ text.length) :
    (Offsets.ofText text).get? (utf8Length (text.take k)) = some k := by
  unfold Offsets.ofText
  split
  case isTrue h =>
    have htake : (text.take k).all (·.toNat < 0x80) = true := by
      rw [List.all_eq_true] at h ⊢
      exact fun c hc => h c (List.mem_of_mem_take hc)
    rw [Offsets.get?, utf8Length_of_ascii htake, List.length_take, Nat.min_eq_left hk]
  case isFalse =>
    rw [Offsets.get?, List.getElem?_toArray, getElem?_offsetTable 0 hk, Nat.zero_add]

namespace Source

/-- A tree that makes a source has no escape out of range. -/
theorem outOfRange?_of_ofTree {filename : Option String} {text : List Char} {tree : Node}
    {src : Source} (h : ofTree filename text tree = .ok src) :
    src = ⟨filename, text.toArray, .ofText text, tree⟩ ∧ src.outOfRange? = .ok none := by
  unfold ofTree at h
  cases hbad : tree.hasError with
  | true =>
    simp only [hbad, if_true, bind_eq_ok] at h
    obtain ⟨_, _, _, _, h⟩ := h
    cases h
  | false =>
    simp only [hbad, Bool.false_eq_true, if_false, bind_eq_ok] at h
    obtain ⟨escape, hescape, h⟩ := h
    cases escape with
    | some escape =>
      simp only [bind_eq_ok] at h
      obtain ⟨_, _, h⟩ := h
      cases h
    | none =>
      obtain rfl := pure_eq_ok.mp h
      exact ⟨rfl, hescape⟩

theorem ofTree_eq_ok {filename : Option String} {text : List Char} {tree : Node} {src : Source}
    (h : ofTree filename text tree = .ok src) :
    src = ⟨filename, text.toArray, .ofText text, tree⟩ := (outOfRange?_of_ofTree h).1

/-- The source converts offsets as its text requires. -/
def Indexed (src : Source) : Prop := src.offsets = .ofText src.text.toList

theorem indexed_ofTree {filename : Option String} {text : List Char} {tree : Node} {src : Source}
    (h : ofTree filename text tree = .ok src) : src.Indexed := by
  rw [ofTree_eq_ok h]
  rfl

variable {src : Source}

theorem Indexed.offset_eq (hsrc : src.Indexed) {k : Nat} (hk : k ≤ src.text.toList.length) :
    src.offset (utf8Length (src.text.toList.take k)) = .ok k := by
  rw [offset, hsrc, Offsets.get?_ofText hk]

theorem Indexed.offset_ok (hsrc : src.Indexed) {byte : Nat}
    (hb : IsBoundary src.text.toList byte) : ∃ k ≤ src.text.size, src.offset byte = .ok k := by
  obtain ⟨k, hk, rfl⟩ := hb
  exact ⟨k, hk, hsrc.offset_eq hk⟩

/-- The offset found for a boundary is the number of characters in front of it. -/
theorem Indexed.eq_utf8Length (hsrc : src.Indexed) {byte k : Nat}
    (hb : IsBoundary src.text.toList byte) (ho : src.offset byte = .ok k) :
    k ≤ src.text.toList.length ∧ utf8Length (src.text.toList.take k) = byte := by
  obtain ⟨j, hj, rfl⟩ := hb
  rw [hsrc.offset_eq hj] at ho
  cases ho
  exact ⟨hj, rfl⟩

theorem Indexed.offset_le_iff (hsrc : src.Indexed) {b₁ b₂ k₁ k₂ : Nat}
    (hb₁ : IsBoundary src.text.toList b₁) (hb₂ : IsBoundary src.text.toList b₂)
    (ho₁ : src.offset b₁ = .ok k₁) (ho₂ : src.offset b₂ = .ok k₂) : k₁ ≤ k₂ ↔ b₁ ≤ b₂ := by
  obtain ⟨hk₁, rfl⟩ := hsrc.eq_utf8Length hb₁ ho₁
  obtain ⟨hk₂, rfl⟩ := hsrc.eq_utf8Length hb₂ ho₂
  exact (utf8Length_take_le_iff hk₁ hk₂).symm

theorem Indexed.offset_inj (hsrc : src.Indexed) {b₁ b₂ k : Nat}
    (hb₁ : IsBoundary src.text.toList b₁) (hb₂ : IsBoundary src.text.toList b₂)
    (ho₁ : src.offset b₁ = .ok k) (ho₂ : src.offset b₂ = .ok k) : b₁ = b₂ := by
  have hle := hsrc.offset_le_iff hb₁ hb₂ ho₁ ho₂
  have hge := hsrc.offset_le_iff hb₂ hb₁ ho₂ ho₁
  omega

theorem Indexed.offset_lt_iff (hsrc : src.Indexed) {b₁ b₂ k₁ k₂ : Nat}
    (hb₁ : IsBoundary src.text.toList b₁) (hb₂ : IsBoundary src.text.toList b₂)
    (ho₁ : src.offset b₁ = .ok k₁) (ho₂ : src.offset b₂ = .ok k₂) : k₁ < k₂ ↔ b₁ < b₂ := by
  rw [← Nat.not_le, ← Nat.not_le, hsrc.offset_le_iff hb₂ hb₁ ho₂ ho₁]

theorem spanOf_eq_ok {n : Node} {span : Span} :
    src.spanOf n = .ok span ↔ src.startOf n = .ok span.start ∧ src.stopOf n = .ok span.stop := by
  unfold spanOf
  simp only [bind_eq_ok, pure_eq_ok]
  constructor
  · rintro ⟨start, hstart, stop, hstop, rfl⟩
    exact ⟨hstart, hstop⟩
  · rintro ⟨hstart, hstop⟩
    exact ⟨_, hstart, _, hstop, rfl⟩

theorem slice_isPrefix (start stop : Nat) : src.slice start stop <+: src.text.toList.drop start := by
  rw [slice, Array.toList_extract, List.extract_eq_take_drop]
  exact List.take_prefix _ _

end Source
end SuiteOutline
