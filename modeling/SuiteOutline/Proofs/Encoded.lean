import SuiteOutline.Proofs.Offset

/-! The offsets of a source against the UTF-8 encoding of its text. Every byte belongs to a character,
and the table has the index of that one for it; so what a node covers is, once encoded, the bytes
between its ends. -/
namespace SuiteOutline

/-! The table. -/

theorem length_offsetTable (index : Nat) (text : List Char) :
    (offsetTable index text).length = utf8Length text + 1 := by
  induction text generalizing index with
  | nil => rfl
  | cons c cs ih =>
    rw [offsetTable, List.length_append, List.length_replicate, ih, utf8Length_cons]
    omega

theorem le_of_mem_offsetTable {index : Nat} {text : List Char} {k : Nat}
    (h : k ∈ offsetTable index text) : index ≤ k := by
  induction text generalizing index with
  | nil =>
    rw [offsetTable, List.mem_singleton] at h
    omega
  | cons c cs ih =>
    rw [offsetTable, List.mem_append] at h
    rcases h with h | h
    · have := List.eq_of_mem_replicate h
      omega
    · have := ih h
      omega

theorem pairwise_offsetTable (index : Nat) (text : List Char) :
    (offsetTable index text).Pairwise (· ≤ ·) := by
  induction text generalizing index with
  | nil => exact List.pairwise_singleton _ _
  | cons c cs ih =>
    rw [offsetTable, List.pairwise_append]
    refine ⟨List.pairwise_replicate.mpr (.inr (Nat.le_refl _)), ih (index + 1), fun a ha b hb => ?_⟩
    have hfront := List.eq_of_mem_replicate ha
    have hback := le_of_mem_offsetTable hb
    omega

/-- Each byte of a character has the index of that character. -/
theorem getElem?_offsetTable_of_inside (index : Nat) {text : List Char} {k byte : Nat}
    (hstart : utf8Length (text.take k) ≤ byte) (hstop : byte < utf8Length (text.take (k + 1))) :
    (offsetTable index text)[byte]? = some (index + k) := by
  induction text generalizing index k byte with
  | nil => simp at hstop
  | cons c cs ih =>
    rw [List.take_succ_cons, utf8Length_cons] at hstop
    cases k with
    | zero =>
      have hlt : byte < c.utf8Size := by simpa using hstop
      rw [offsetTable, List.getElem?_append_left (by simpa using hlt),
        List.getElem?_replicate_of_lt hlt, Nat.add_zero]
    | succ k =>
      rw [List.take_succ_cons, utf8Length_cons] at hstart
      have hnext : (offsetTable (index + 1) cs)[byte - c.utf8Size]? = some (index + 1 + k) :=
        ih (index + 1) (by omega) (by omega)
      have hle : (List.replicate c.utf8Size index).length ≤ byte := by
        rw [List.length_replicate]
        omega
      rw [offsetTable, List.getElem?_append_right hle, List.length_replicate, hnext]
      congr 1
      omega

/-- In an ASCII text the table numbers the bytes. -/
theorem offsetTable_of_ascii (index : Nat) {text : List Char}
    (h : text.all (·.toNat < 0x80) = true) :
    offsetTable index text = List.range' index (text.length + 1) := by
  induction text generalizing index with
  | nil => rfl
  | cons c cs ih =>
    simp only [List.all_cons, Bool.and_eq_true, decide_eq_true_eq] at h
    rw [offsetTable, utf8Size_of_ascii h.1, ih (index + 1) h.2, List.length_cons, List.range'_succ]
    rfl

theorem getElem?_offsetTable_of_ascii {text : List Char} (h : text.all (·.toNat < 0x80) = true)
    {byte : Nat} (hbyte : byte ≤ utf8Length text) : (offsetTable 0 text)[byte]? = some byte := by
  rw [utf8Length_of_ascii h] at hbyte
  rw [offsetTable_of_ascii 0 h, List.getElem?_range' (by omega)]
  congr 1
  omega

/-- Up to the end of the text the table would do for ASCII texts too. -/
theorem Offsets.get?_ofText_eq_table {text : List Char} {byte : Nat}
    (hbyte : byte ≤ utf8Length text) :
    (Offsets.ofText text).get? byte = (offsetTable 0 text)[byte]? := by
  unfold Offsets.ofText
  split
  case isTrue h => rw [getElem?_offsetTable_of_ascii h hbyte, Offsets.get?]
  case isFalse => rw [Offsets.get?, List.getElem?_toArray]

namespace Source

variable {src : Source}

theorem offset_eq_ok {byte k : Nat} : src.offset byte = .ok k ↔ src.offsets.get? byte = some k := by
  unfold offset
  cases src.offsets.get? byte <;> simp

theorem Indexed.offset_of_inside (hsrc : src.Indexed) {k byte : Nat}
    (hstart : utf8Length (src.text.toList.take k) ≤ byte)
    (hstop : byte < utf8Length (src.text.toList.take (k + 1))) : src.offset byte = .ok k := by
  have hbyte : byte ≤ utf8Length src.text.toList := by
    have hsplit := congrArg utf8Length (List.take_append_drop (k + 1) src.text.toList)
    rw [utf8Length_append] at hsplit
    omega
  rw [offset_eq_ok, hsrc, Offsets.get?_ofText_eq_table hbyte,
    getElem?_offsetTable_of_inside 0 hstart hstop, Nat.zero_add]

theorem Indexed.offset_mono (hsrc : src.Indexed) {a b : Nat} (hab : a ≤ b)
    (hb : b ≤ utf8Length src.text.toList) :
    ∃ j k, src.offset a = .ok j ∧ src.offset b = .ok k ∧ j ≤ k := by
  have hlength := length_offsetTable 0 src.text.toList
  have ha' : a < (offsetTable 0 src.text.toList).length := by omega
  have hb' : b < (offsetTable 0 src.text.toList).length := by omega
  refine ⟨(offsetTable 0 src.text.toList)[a], (offsetTable 0 src.text.toList)[b], ?_, ?_, ?_⟩
  · rw [offset_eq_ok, hsrc, Offsets.get?_ofText_eq_table (by omega), List.getElem?_eq_getElem ha']
  · rw [offset_eq_ok, hsrc, Offsets.get?_ofText_eq_table hb, List.getElem?_eq_getElem hb']
  · rcases Nat.lt_or_eq_of_le hab with hlt | rfl
    · exact List.pairwise_iff_getElem.mp (pairwise_offsetTable 0 _) a b ha' hb' hlt
    · exact Nat.le_refl _

/-- The characters from one index up to another, encoded, are the bytes from where the first of them
starts up to where the second one does. -/
theorem utf8Encode_slice (src : Source) (j k : Nat) :
    (src.slice j k).utf8Encode = src.text.toList.utf8Encode.extract
      (utf8Length (src.text.toList.take j)) (utf8Length (src.text.toList.take k)) := by
  have hslice : src.slice j k = (src.text.toList.take k).drop j := by
    rw [slice, Array.toList_extract, List.extract_eq_drop_take']
  generalize src.text.toList = text at hslice
  rw [hslice]
  rcases Nat.le_total j k with hjk | hkj
  · -- the text is cut in three, and the piece in the middle is taken
    have hfront : text.take k = text.take j ++ (text.take k).drop j := by
      conv_lhs => rw [← List.take_append_drop j (text.take k)]
      rw [List.take_take, Nat.min_eq_left hjk]
    have htext : text.utf8Encode =
        (text.take j).utf8Encode ++ (((text.take k).drop j).utf8Encode ++ (text.drop k).utf8Encode) := by
      rw [← List.utf8Encode_append, ← List.utf8Encode_append, ← List.append_assoc, ← hfront,
        List.take_append_drop]
    have hstop : utf8Length (text.take k) =
        (text.take j).utf8Encode.size + ((text.take k).drop j).utf8Encode.size := by
      rw [size_utf8Encode, size_utf8Encode, ← utf8Length_append, ← hfront]
    have hstart : utf8Length (text.take j) = (text.take j).utf8Encode.size + 0 :=
      (size_utf8Encode _).symm
    rw [htext, hstop, hstart, ByteArray.extract_append_size_add,
      ByteArray.extract_append_eq_left rfl]
  · have hempty : (text.take k).drop j = [] := by
      apply List.drop_eq_nil_of_le
      rw [List.length_take]
      omega
    have hle : utf8Length (text.take k) ≤ utf8Length (text.take j) := by
      have hcut : text.take k = (text.take j).take k := by
        rw [List.take_take, Nat.min_eq_left hkj]
      have hsplit := congrArg utf8Length (List.take_append_drop k (text.take j))
      rw [utf8Length_append, ← hcut] at hsplit
      omega
    rw [hempty, List.utf8Encode_nil, eq_comm, ByteArray.extract_eq_empty_iff]
    omega

theorem Indexed.spanOf_eq (hsrc : src.Indexed) {n : Node} {j k : Nat}
    (hj : j ≤ src.text.toList.length) (hk : k ≤ src.text.toList.length)
    (hstart : utf8Length (src.text.toList.take j) = n.start)
    (hstop : utf8Length (src.text.toList.take k) = n.stop) : src.spanOf n = .ok ⟨j, k⟩ := by
  rw [spanOf_eq_ok, startOf, stopOf, ← hstart, ← hstop]
  exact ⟨hsrc.offset_eq hj, hsrc.offset_eq hk⟩

theorem Indexed.toUTF8_of_textOf (hsrc : src.Indexed) {n : Node}
    (hstart : IsBoundary src.text.toList n.start) (hstop : IsBoundary src.text.toList n.stop) :
    ∃ s, src.textOf n = .ok s ∧
      s.toUTF8 = src.text.toList.utf8Encode.extract n.start n.stop := by
  obtain ⟨j, hj, hnstart⟩ := hstart
  obtain ⟨k, hk, hnstop⟩ := hstop
  have hspan := hsrc.spanOf_eq hj hk hnstart hnstop
  refine ⟨String.ofList (src.slice j k), ?_, ?_⟩
  · rw [textOf, charsOf, hspan]
    rfl
  · rw [String.toUTF8_eq_toByteArray, String.toByteArray_ofList, utf8Encode_slice, hnstart, hnstop]

/-- Byte offsets convert exactly. Where a character starts, and at the end of the text, the offset is
the number of characters in front; the bytes inside a character have its index, and later bytes no
smaller one. An ASCII text needs no table, but would have the same offsets with it. What a node
covers is, encoded, the bytes between its ends. -/
theorem offsets_exact (filename : Option String) (text : List Char) (tree : Node) :
    let src : Source := ⟨filename, text.toArray, .ofText text, tree⟩
    (∀ k ≤ text.length, src.offset (text.take k).utf8Encode.size = .ok k) ∧
    (∀ k byte, (text.take k).utf8Encode.size ≤ byte →
      byte < (text.take (k + 1)).utf8Encode.size → src.offset byte = .ok k) ∧
    (∀ a b, a ≤ b → b ≤ text.utf8Encode.size →
      ∃ j k, src.offset a = .ok j ∧ src.offset b = .ok k ∧ j ≤ k) ∧
    (text.all (·.toNat < 0x80) = true → ∀ byte ≤ text.utf8Encode.size,
      (Offsets.table (offsetTable 0 text).toArray).get? byte = Offsets.same.get? byte) ∧
    ∀ n : Node, IsBoundary text n.start → IsBoundary text n.stop →
      ∃ s, src.textOf n = .ok s ∧ s.toUTF8 = text.utf8Encode.extract n.start n.stop := by
  intro src
  have hsrc : src.Indexed := rfl
  simp only [size_utf8Encode]
  refine ⟨fun k hk => hsrc.offset_eq hk, fun k byte hstart hstop => ?_, fun a b hab hb => ?_,
    fun hascii byte hbyte => ?_, fun n hstart hstop => ?_⟩
  · exact hsrc.offset_of_inside hstart hstop
  · exact hsrc.offset_mono hab hb
  · rw [Offsets.get?, Offsets.get?, List.getElem?_toArray, getElem?_offsetTable_of_ascii hascii hbyte]
  · exact hsrc.toUTF8_of_textOf hstart hstop

/-- A character of two bytes, one of four and one of a single byte; the node covers the second. -/
theorem offsets_exact_sample :
    let text := "é😀a".toList
    let smile : Node := ⟨.identifier, ⟨2, 6⟩, none, true, false, []⟩
    let src : Source := ⟨none, text.toArray, .ofText text, smile⟩
    src.offset 6 = .ok 2 ∧ src.offset 4 = .ok 1 ∧
      (∃ j k, src.offset 1 = .ok j ∧ src.offset 7 = .ok k ∧ j ≤ k) ∧
      (∃ s, src.textOf smile = .ok s ∧ s.toUTF8 = text.utf8Encode.extract 2 6) ∧
      (Offsets.table (offsetTable 0 ['a', 'b']).toArray).get? 2 = Offsets.same.get? 2 := by
  intro text smile src
  obtain ⟨hstarts, hinside, hmono, -, htext⟩ := offsets_exact none text smile
  obtain ⟨-, -, -, hascii, -⟩ := offsets_exact none ['a', 'b'] smile
  refine ⟨?_, hinside 1 4 ?_ ?_, hmono 1 7 (by decide) ?_, htext smile (by decide) (by decide),
    hascii (by decide) 2 ?_⟩
  · have hsecond := hstarts 2 (by decide)
    rw [size_utf8Encode] at hsecond
    exact hsecond
  all_goals rw [size_utf8Encode]; decide

end Source
end SuiteOutline
