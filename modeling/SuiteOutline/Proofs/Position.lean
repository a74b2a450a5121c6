import Mathlib.Data.List.DropRight
import SuiteOutline.CommandLine.Run

/-! Lines and columns are exact. They are read off the starts of the lines by halving, and are what
counting line feeds gives; so positions are in the order of the offsets. A fault shows the whole line
it stands in, with a mark below the place. -/
namespace SuiteOutline

/-- Earlier line first, then earlier column. -/
instance : LT Position := ⟨fun p q => p.line < q.line ∨ p.line = q.line ∧ p.column < q.column⟩

theorem Position.lt_iff {p q : Position} :
    p < q ↔ p.line < q.line ∨ p.line = q.line ∧ p.column < q.column := Iff.rfl

/-- The position right behind some characters, by counting. -/
def Position.after (before : List Char) : Position where
  line := before.count '\n' + 1
  column := (before.rtakeWhile (· != '\n')).length + 1

/-! The starts of the lines. -/

theorem lineStarts_append (offset : Nat) (as bs : List Char) :
    lineStarts offset (as ++ bs) = lineStarts offset as ++ lineStarts (offset + as.length) bs := by
  induction as generalizing offset with
  | nil => rfl
  | cons a as ih =>
    have hoffset : offset + 1 + as.length = offset + (a :: as).length := by
      rw [List.length_cons]
      omega
    rw [List.cons_append, lineStarts, lineStarts, ih, hoffset]
    split <;> rfl

theorem length_lineStarts (offset : Nat) (text : List Char) :
    (lineStarts offset text).length = text.count '\n' := by
  induction text generalizing offset with
  | nil => rfl
  | cons c cs ih =>
    rw [lineStarts]
    by_cases hc : c = '\n'
    · rw [if_pos hc, List.length_cons, ih, hc, List.count_cons_self]
    · rw [if_neg hc, ih, List.count_cons_of_ne hc]

/-- A line starts behind some character of the text. -/
theorem bounds_of_mem_lineStarts {offset : Nat} {text : List Char} {start : Nat}
    (h : start ∈ lineStarts offset text) : offset < start ∧ start ≤ offset + text.length := by
  induction text generalizing offset with
  | nil => cases h
  | cons c cs ih =>
    have hlater : start ∈ lineStarts (offset + 1) cs →
        offset < start ∧ start ≤ offset + (c :: cs).length := by
      intro h
      have := ih h
      rw [List.length_cons]
      omega
    rw [lineStarts] at h
    split at h
    · rcases List.mem_cons.mp h with rfl | h
      · rw [List.length_cons]
        omega
      · exact hlater h
    · exact hlater h

/-- From the last start on there are as many characters as behind the last line feed. -/
theorem exists_last_lineStart (before : List Char) :
    ∃ last, (0 :: lineStarts 0 before).getLast? = some last ∧
      last + (before.rtakeWhile (· != '\n')).length = before.length := by
  induction before using List.reverseRecOn with
  | nil => exact ⟨0, rfl, rfl⟩
  | append_singleton before c ih =>
    have hstarts : 0 :: lineStarts 0 (before ++ [c]) =
        (0 :: lineStarts 0 before) ++ (if c = '\n' then [before.length + 1] else []) := by
      rw [lineStarts_append, lineStarts, Nat.zero_add]
      rfl
    by_cases hc : c = '\n'
    · have hcolumn : (before ++ [c]).rtakeWhile (· != '\n') = [] :=
        List.rtakeWhile_concat_neg _ _ _ (by simp [hc])
      refine ⟨before.length + 1, ?_, ?_⟩
      · rw [hstarts, if_pos hc, List.getLast?_concat]
      · rw [hcolumn, List.length_nil, List.length_append, List.length_singleton]
    · have hcolumn : (before ++ [c]).rtakeWhile (· != '\n') =
          before.rtakeWhile (· != '\n') ++ [c] :=
        List.rtakeWhile_concat_pos _ _ _ (by simp [hc])
      obtain ⟨last, hlast, hlength⟩ := ih
      refine ⟨last, ?_, ?_⟩
      · rw [hstarts, if_neg hc, List.append_nil, hlast]
      · rw [hcolumn, List.length_append, List.length_append, ← Nat.add_assoc, hlength]

/-! Halving finds where the entries begin to be above the offset. -/

/-- The place looked for stays between the bounds, and in the end is all that is left there. -/
theorem LineIndex.bisect_eq {starts : Array Nat} {offset place : Nat}
    (hbelow : ∀ i (h : i < starts.size), i < place → starts[i] ≤ offset)
    (habove : ∀ i (h : i < starts.size), place ≤ i → offset < starts[i]) {lo hi : Nat}
    {hhi : hi ≤ starts.size} (hlo : lo ≤ place) (hplace : place ≤ hi) :
    bisect starts offset lo hi hhi = place := by
  fun_induction bisect starts offset lo hi hhi with
  | case1 lo hi hhi hlt mid hmid hentry ih =>
    apply ih hlo
    by_contra hmore
    have := hbelow mid hmid (by omega)
    omega
  | case2 lo hi hhi hlt mid hmid hentry ih =>
    refine ih ?_ hplace
    by_contra hless
    have := habove mid hmid (by omega)
    exact hentry this
  | case3 lo hi hhi hge => omega

/-- In a list cut where the entries begin to be above the offset, the place found is the cut. -/
theorem LineIndex.bisect_append {low high : List Nat} {offset : Nat}
    (hlow : ∀ s ∈ low, s ≤ offset) (hhigh : ∀ s ∈ high, offset < s) :
    bisect (low ++ high).toArray offset 0 (low ++ high).toArray.size (Nat.le_refl _) =
      low.length := by
  have hsize : (low ++ high).toArray.size = low.length + high.length := by simp
  refine bisect_eq (fun i h hi => ?_) (fun i h hi => ?_) (Nat.zero_le _) (by omega)
  · have hentry : (low ++ high).toArray[i] = low[i] := by simp [List.getElem_append_left hi]
    rw [hentry]
    exact hlow _ (List.getElem_mem hi)
  · have hentry : (low ++ high).toArray[i] = high[i - low.length] := by
      simp [List.getElem_append_right hi]
    rw [hentry]
    exact hhigh _ (List.getElem_mem _)

/-- The offset is behind the start of the line that the search ends at. -/
theorem LineIndex.locate_eq {index : LineIndex} {offset line start : Nat}
    (hsize : offset ≤ index.size)
    (hline : bisect index.starts offset 0 index.starts.size (Nat.le_refl _) = line + 1)
    (hstart : index.starts[line]? = some start) :
    index.locate offset = .ok ⟨line + 1, offset - start + 1⟩ := by
  have hinside : ¬((offset : Int) < 0 ∨ (index.size : Int) < offset) := by omega
  obtain ⟨_, hentry⟩ := Array.getElem?_eq_some_iff.mp hstart
  unfold locate
  rw [if_neg hinside]
  simp only [Int.toNat_natCast, hline, Nat.add_sub_cancel, hentry]

/-- An offset is located by what stands in front of it. -/
theorem Position.locate_append (before after : List Char) :
    Position.locate (before ++ after) before.length = .ok (.after before) := by
  have hstarts : 0 :: lineStarts 0 (before ++ after) =
      (0 :: lineStarts 0 before) ++ lineStarts before.length after := by
    rw [lineStarts_append, Nat.zero_add, List.cons_append]
  have hlow : ∀ s ∈ 0 :: lineStarts 0 before, s ≤ before.length := by
    intro s hs
    rcases List.mem_cons.mp hs with rfl | hs
    · exact Nat.zero_le _
    · have := (bounds_of_mem_lineStarts hs).2
      omega
  have hhigh : ∀ s ∈ lineStarts before.length after, before.length < s :=
    fun s hs => (bounds_of_mem_lineStarts hs).1
  have hcount : (0 :: lineStarts 0 before).length = before.count '\n' + 1 := by
    rw [List.length_cons, length_lineStarts]
  have hplace := LineIndex.bisect_append hlow hhigh
  rw [hcount] at hplace
  obtain ⟨last, hlast, hlength⟩ := exists_last_lineStart before
  have hentry : ((0 :: lineStarts 0 before) ++ lineStarts before.length after)[before.count '\n']? =
      some last := by
    rw [List.getElem?_append_left (by omega), ← hlast, List.getLast?_eq_getElem?, hcount,
      Nat.add_sub_cancel]
  have hcolumn : before.length - last = (before.rtakeWhile (· != '\n')).length := by omega
  have hlocate : (LineIndex.ofText (before ++ after)).locate before.length =
      .ok ⟨before.count '\n' + 1, before.length - last + 1⟩ := by
    apply LineIndex.locate_eq
    · simp [LineIndex.ofText]
    · simpa only [LineIndex.ofText, hstarts] using hplace
    · simpa only [LineIndex.ofText, hstarts, List.getElem?_toArray] using hentry
  rw [Position.locate, hlocate, hcolumn, Position.after]

namespace Position

theorem locate_of_outside {text : List Char} {offset : Int}
    (h : offset < 0 ∨ (text.length : Int) < offset) :
    locate text offset = .error ⟨offset, text.length⟩ := if_pos h

theorem locate_of_le {text : List Char} {offset : Nat} (h : offset ≤ text.length) :
    locate text offset = .ok (.after (text.take offset)) := by
  have hlocate := locate_append (text.take offset) (text.drop offset)
  rwa [List.take_append_drop, List.length_take_of_le h] at hlocate

theorem locate_eq_ok {text : List Char} {offset : Int} {p : Position} :
    locate text offset = .ok p ↔
      ∃ k : Nat, offset = k ∧ k ≤ text.length ∧ p = .after (text.take k) := by
  constructor
  · intro h
    by_cases hout : offset < 0 ∨ (text.length : Int) < offset
    · rw [locate_of_outside hout] at h
      cases h
    · obtain ⟨k, rfl⟩ : ∃ k : Nat, offset = k := ⟨offset.toNat, by omega⟩
      have hk : k ≤ text.length := by omega
      rw [locate_of_le hk] at h
      cases h
      exact ⟨k, rfl, hk, rfl⟩
  · intro ⟨k, hoffset, hk, hp⟩
    rw [hoffset, hp, locate_of_le hk]

/-- Offsets outside the text, and no others, have no position. -/
theorem exists_locate_error {text : List Char} {offset : Int} :
    (∃ e, locate text offset = .error e) ↔ offset < 0 ∨ (text.length : Int) < offset := by
  constructor
  · intro ⟨e, he⟩
    by_contra hin
    have hlocate : locate text offset = .ok (.after (text.take offset.toNat)) :=
      locate_eq_ok.mpr ⟨offset.toNat, by omega, by omega, rfl⟩
    rw [hlocate] at he
    cases he
  · intro hout
    exact ⟨_, locate_of_outside hout⟩

/-- Further characters move the position on: to another line, or along the line. -/
theorem after_lt_after_append (before : List Char) {more : List Char} (hne : more ≠ []) :
    after before < after (before ++ more) := by
  rw [lt_iff]
  simp only [after, List.count_append]
  by_cases hmem : '\n' ∈ more
  · have hpos := List.count_pos_iff.mpr hmem
    omega
  · have hcount := List.count_eq_zero.mpr hmem
    have hplain : ∀ c ∈ more.reverse, (c != '\n') = true := by
      intro c hc
      rw [bne_iff_ne]
      rintro rfl
      exact hmem (List.mem_reverse.mp hc)
    have hcolumn : (before ++ more).rtakeWhile (· != '\n') =
        before.rtakeWhile (· != '\n') ++ more := by
      rw [List.rtakeWhile, List.reverse_append, List.takeWhile_append_of_pos hplain,
        List.reverse_append, List.reverse_reverse, List.rtakeWhile]
    have hlength := List.length_pos_iff.mpr hne
    rw [hcolumn, List.length_append]
    omega

theorem lt_of_locate {text : List Char} {a b : Int} {p q : Position}
    (ha : locate text a = .ok p) (hb : locate text b = .ok q) (hab : a < b) : p < q := by
  obtain ⟨j, rfl, hj, rfl⟩ := locate_eq_ok.mp ha
  obtain ⟨k, rfl, hk, rfl⟩ := locate_eq_ok.mp hb
  have hsplit : text.take k = text.take j ++ (text.drop j).take (k - j) := by
    rw [← List.take_add]
    congr 1
    omega
  have hmore : (text.drop j).take (k - j) ≠ [] := by
    apply List.ne_nil_of_length_pos
    rw [List.length_take, List.length_drop]
    omega
  rw [hsplit]
  exact after_lt_after_append _ hmore

/-- Positions are in the order of their offsets. -/
theorem lt_iff_of_locate {text : List Char} {a b : Int} {p q : Position}
    (ha : locate text a = .ok p) (hb : locate text b = .ok q) :
    (p < q ↔ a < b) ∧ (p = q ↔ a = b) := by
  have hirrefl : ∀ p : Position, ¬p < p := by
    intro p h
    rw [lt_iff] at h
    omega
  rcases Int.lt_trichotomy a b with hab | rfl | hab
  · have hlt := lt_of_locate ha hb hab
    refine ⟨iff_of_true hlt hab, iff_of_false ?_ (by omega)⟩
    rintro rfl
    exact hirrefl _ hlt
  · obtain rfl : p = q := Except.ok.inj (ha.symm.trans hb)
    exact ⟨iff_of_false (hirrefl p) (by omega), iff_of_true rfl rfl⟩
  · have hlt := lt_of_locate hb ha hab
    refine ⟨iff_of_false (fun h => ?_) (by omega), iff_of_false ?_ (by omega)⟩
    · rw [lt_iff] at h hlt
      omega
    · rintro rfl
      exact hirrefl _ hlt

end Position

/-! Lines. -/

theorem lines_eq_splitOn (text : List Char) : lines text = text.splitOn '\n' := by
  induction text with
  | nil => rfl
  | cons c cs ih =>
    rw [lines, ih, List.splitOn_cons_eq_if_modifyHead]
    by_cases hc : c = '\n'
    · simp [hc]
    · rw [if_neg hc, if_neg (by simpa using hc)]
      cases hlines : cs.splitOn '\n' with
      | nil => exact absurd hlines (List.splitOn_ne_nil '\n' cs)
      | cons line rest => rfl

theorem length_lines (text : List Char) : (lines text).length = text.count '\n' + 1 := by
  induction text with
  | nil => rfl
  | cons c cs ih =>
    rw [lines]
    by_cases hc : c = '\n'
    · rw [if_pos hc, List.length_cons, ih, hc, List.count_cons_self]
    · rw [if_neg hc, List.count_cons_of_ne hc, ← ih]
      cases hlines : lines cs with
      | nil =>
        rw [hlines] at ih
        cases ih
      | cons line rest => rfl

/-- A whole line with what is before and behind it: line feeds part them, or there is nothing. -/
structure IsLine (text before line behind : List Char) : Prop where
  text_eq : text = before ++ line ++ behind
  inner : '\n' ∉ line
  opens : before = [] ∨ ∃ front, before = front ++ ['\n']
  closes : behind = [] ∨ ∃ rest, behind = '\n' :: rest

/-- Each line feed in front of a line ends one of the lines before it. -/
theorem IsLine.getElem?_lines {text before line behind : List Char}
    (h : IsLine text before line behind) : (lines text)[before.count '\n']? = some line := by
  have hfirst : (lines (line ++ behind))[0]? = some line := by
    rcases h.closes with hnil | ⟨rest, hrest⟩
    · rw [hnil, List.append_nil, lines_eq_splitOn, List.splitOn_eq_singleton h.inner]
      rfl
    · rw [hrest, lines_eq_splitOn, List.splitOn_append_cons_self,
        List.splitOn_eq_singleton h.inner]
      rfl
  rw [h.text_eq, List.append_assoc]
  rcases h.opens with hnil | ⟨front, hfront⟩
  · rw [hnil]
    exact hfirst
  · have hlines : lines (before ++ (line ++ behind)) = lines front ++ lines (line ++ behind) := by
      rw [hfront, List.append_assoc, List.singleton_append, lines_eq_splitOn, lines_eq_splitOn,
        lines_eq_splitOn, List.splitOn_append_cons_self]
    have hcount : before.count '\n' = (lines front).length := by
      rw [hfront, List.count_append, List.count_singleton_self, length_lines]
    rw [hlines, hcount, List.getElem?_append_right (Nat.le_refl _), Nat.sub_self]
    exact hfirst

/-- The line around a cut goes back to the last line feed before it and on to the next one. -/
theorem exists_isLine (before behind : List Char) :
    ∃ front rest, before = front ++ before.rtakeWhile (· != '\n') ∧
      IsLine (before ++ behind) front
        (before.rtakeWhile (· != '\n') ++ behind.takeWhile (· != '\n')) rest := by
  refine ⟨before.rdropWhile (· != '\n'), behind.dropWhile (· != '\n'),
    List.rdropWhile_append_rtakeWhile.symm, ?_, ?_, ?_, ?_⟩
  · rw [← List.append_assoc, List.rdropWhile_append_rtakeWhile, List.append_assoc,
      List.takeWhile_append_dropWhile]
  · intro hmem
    rcases List.mem_append.mp hmem with hmem | hmem
    · simpa using List.mem_rtakeWhile_imp hmem
    · simpa using List.mem_takeWhile_imp hmem
  · by_cases hnil : before.rdropWhile (· != '\n') = []
    · exact .inl hnil
    · have hlast := List.rdropWhile_last_not _ _ hnil
      have hsplit := List.dropLast_append_getLast hnil
      rw [bne_iff_ne, not_not] at hlast
      rw [hlast] at hsplit
      exact .inr ⟨_, hsplit.symm⟩
  · have hhead := List.head?_dropWhile_not (· != '\n') behind
    cases hrest : behind.dropWhile (· != '\n') with
    | nil => exact .inl rfl
    | cons c rest =>
      rw [hrest] at hhead
      exact .inr ⟨rest, by simpa using hhead⟩

/-! Faults. -/

/-- A mark in some column below a line, in what is printed. -/
def MarksBelow (printed line : List Char) (column : Nat) : Prop :=
  ∃ head tail, printed = head ++ '\n' :: (line ++ '\n' ::
    (List.replicate column ' ' ++ '^' :: '\n' :: tail))

theorem CommandLine.marksBelow_showFault (e : ParseFault) :
    MarksBelow (showFault e).toList e.lineText.toList (e.column - 1).toNat := by
  have hshown : showFault e = "Syntax Error : " ++ e.message ++ "\n\n" ++ e.lineText ++ "\n" ++
      String.ofList (List.replicate (e.column - 1).toNat ' ' ++ ['^']) ++ "\n\nat (" ++
      e.filename.getD "None" ++ ":" ++ toString e.line ++ ":" ++ toString e.column ++ ")" := rfl
  have hline : "\n" = String.ofList ['\n'] := by decide
  have hgap : "\n\n" = String.ofList ['\n', '\n'] := by decide
  have hplace : "\n\nat (" = String.ofList ['\n', '\n'] ++ "at (" := by decide
  refine ⟨("Syntax Error : " ++ e.message).toList ++ ['\n'],
    '\n' :: ("at (" ++ e.filename.getD "None" ++ ":" ++ toString e.line ++ ":" ++
      toString e.column ++ ")").toList, ?_⟩
  rw [hshown, hplace, hgap, hline]
  simp only [String.toList_append, String.toList_ofList, List.append_assoc, List.cons_append,
    List.nil_append]

/-- The fault is at the offset and shows it. -/
structure ParseFault.StandsAt (text : List Char) (offset : Nat) (e : ParseFault) : Prop where
  position : ∃ p, Position.locate text offset = .ok p ∧ e.line = p.line ∧ e.column = p.column
  /-- The line shown is that of the line number. -/
  numbered : (text.splitOn '\n')[(e.line - 1).toNat]? = some e.lineText.toList
  /-- The line shown is a whole line, and the offset is in the column counted from its start. -/
  whole : ∃ before behind, IsLine text before e.lineText.toList behind ∧
    (before.length : Int) + (e.column - 1) = offset
  fits : e.column - 1 ≤ e.lineText.toList.length
  mark : MarksBelow (CommandLine.showFault e).toList e.lineText.toList (e.column - 1).toNat
  /-- What stands above the mark is the character at the offset; at a line feed or at the end of the
  text nothing does. -/
  above : e.lineText.toList[(e.column - 1).toNat]? = text[offset]?.filter (· != '\n')

theorem ParseFault.StandsAt.eq_of_locate {text : List Char} {offset : Nat} {e : ParseFault}
    {p : Position} (h : e.StandsAt text offset) (hp : Position.locate text offset = .ok p) :
    e.line = p.line ∧ e.column = p.column := by
  obtain ⟨q, hq, hplace⟩ := h.position
  obtain rfl : q = p := Except.ok.inj (hq.symm.trans hp)
  exact hplace

/-- In a line cut in two, what stands at the cut is the first character behind it that is still in
the line. -/
theorem getElem?_append_takeWhile (front behind : List Char) :
    (front ++ behind.takeWhile (· != '\n'))[front.length]? = behind[0]?.filter (· != '\n') := by
  rw [List.getElem?_append_right (Nat.le_refl _), Nat.sub_self]
  cases behind with
  | nil => rfl
  | cons c rest =>
    rw [List.takeWhile_cons, List.getElem?_cons_zero, Option.filter_some]
    split <;> rfl

namespace Source

theorem faultAt_of_outside (src : Source) (message : String) {offset : Nat}
    (h : src.text.size < offset) :
    src.faultAt offset message = .noPosition ⟨offset, src.text.size⟩ := by
  have hlocate : Position.locate src.text.toList offset = .error ⟨offset, src.text.size⟩ := by
    apply Position.locate_of_outside
    rw [Array.length_toList]
    omega
  unfold faultAt
  simp only [hlocate]

theorem standsAt_faultAt (src : Source) (message : String) {offset : Nat}
    (h : offset ≤ src.text.size) :
    ∃ fault, src.faultAt offset message = .unparsed fault ∧ fault.message = message ∧
      fault.filename = src.filename ∧ fault.StandsAt src.text.toList offset := by
  have hlocate : Position.locate src.text.toList offset =
      .ok (.after (src.text.toList.take offset)) := Position.locate_of_le h
  have hlength : (src.text.toList.take offset).length = offset := List.length_take_of_le h
  have htext : src.text.toList.take offset ++ src.text.toList.drop offset = src.text.toList :=
    List.take_append_drop offset src.text.toList
  -- from here on the offset is only where the text is cut in two
  generalize src.text.toList.take offset = before at hlocate hlength htext
  generalize src.text.toList.drop offset = behind at htext
  obtain ⟨front, rest, hfront, hline⟩ := exists_isLine before behind
  have hplain : '\n' ∉ before.rtakeWhile (· != '\n') := fun hmem =>
    hline.inner (List.mem_append_left _ hmem)
  have hcount : before.count '\n' = front.count '\n' := by
    rw [hfront, List.count_append, List.count_eq_zero.mpr hplain, Nat.add_zero]
  have hnumbered := hline.getElem?_lines
  rw [htext] at hline hnumbered
  rw [← hcount] at hnumbered
  refine ⟨⟨message, (before.count '\n' + 1 : Nat),
    ((before.rtakeWhile (· != '\n')).length + 1 : Nat), src.filename, String.ofList (before.rtakeWhile (· != '\n') ++ behind.takeWhile (· != '\n'))⟩,
    ?_, rfl, rfl, ?_⟩
  · unfold faultAt
    simp only [hlocate, Position.after, Nat.add_sub_cancel, hnumbered, Option.getD_some]
  · have hcolumn : ∀ n : Nat, (((n + 1 : Nat) : Int) - 1).toNat = n := by omega
    have hstart : front.length + (before.rtakeWhile (· != '\n')).length = offset := by
      rw [← hlength, ← List.length_append, ← hfront]
    have hat : src.text.toList[offset]? = behind[0]? := by
      rw [← htext, ← hlength, List.getElem?_append_right (Nat.le_refl _), Nat.sub_self]
    refine ⟨⟨_, hlocate, rfl, rfl⟩, ?_, ⟨front, rest, ?_, ?_⟩, ?_,
      CommandLine.marksBelow_showFault _, ?_⟩
    · rw [hcolumn, String.toList_ofList, ← lines_eq_splitOn]
      exact hnumbered
    · rw [String.toList_ofList]
      exact hline
    · dsimp only
      omega
    · rw [String.toList_ofList, List.length_append]
      dsimp only
      omega
    · rw [hcolumn, String.toList_ofList, hat]
      exact getElem?_append_takeWhile _ behind

end Source

/-- Lines and columns are exact. An offset has a position if it is in the text; the line is one more
than the line feeds in front of it, and the column one more than the characters behind the last of
these. So positions are ordered as the offsets are. A fault in the text stands at its offset and
shows it. -/
theorem positions_exact :
    (∀ (text : List Char) (offset : Int),
      ((∃ e, Position.locate text offset = .error e) ↔
        offset < 0 ∨ (text.length : Int) < offset) ∧
      ∀ p, Position.locate text offset = .ok p →
        p.line = (text.take offset.toNat).count '\n' + 1 ∧
        p.column = ((text.take offset.toNat).rtakeWhile (· != '\n')).length + 1) ∧
    (∀ (text : List Char) (a b : Int) (p q : Position), Position.locate text a = .ok p →
      Position.locate text b = .ok q → (p < q ↔ a < b) ∧ (p = q ↔ a = b)) ∧
    ∀ (src : Source) (offset : Nat) (message : String),
      ((∃ fault, src.faultAt offset message = .unparsed fault) ↔ offset ≤ src.text.size) ∧
      ∀ fault, src.faultAt offset message = .unparsed fault → fault.message = message ∧
        fault.filename = src.filename ∧ fault.StandsAt src.text.toList offset := by
  refine ⟨fun text offset => ⟨Position.exists_locate_error, fun p hp => ?_⟩,
    fun text a b p q hp hq => Position.lt_iff_of_locate hp hq, fun src offset message => ?_⟩
  · obtain ⟨k, rfl, -, rfl⟩ := Position.locate_eq_ok.mp hp
    exact ⟨rfl, rfl⟩
  · by_cases hle : offset ≤ src.text.size
    · obtain ⟨fault, hfault, hmessage, hname, hstands⟩ := src.standsAt_faultAt message hle
      refine ⟨iff_of_true ⟨fault, hfault⟩ hle, fun other hother => ?_⟩
      obtain rfl : fault = other := Failure.unparsed.inj (hfault.symm.trans hother)
      exact ⟨hmessage, hname, hstands⟩
    · rw [src.faultAt_of_outside message (by omega)]
      refine ⟨iff_of_false (fun ⟨fault, h⟩ => ?_) hle, fun fault h => ?_⟩ <;> cases h

/-! Three lines, the one in the middle empty. -/
namespace Sample

def linesText : List Char := "a(\n\n b".toList

def linesSource : Source :=
  ⟨none, linesText.toArray, .ofText linesText, ⟨.error, ⟨6, 6⟩, none, true, false, []⟩⟩

theorem locate_linesText :
    Position.locate linesText 3 = .ok ⟨2, 1⟩ ∧ Position.locate linesText 6 = .ok ⟨3, 3⟩ := by
  constructor
  · rw [Position.locate_eq_ok]
    exact ⟨3, rfl, by decide, by decide⟩
  · rw [Position.locate_eq_ok]
    exact ⟨6, rfl, by decide, by decide⟩

end Sample

/-- The line feed of the empty line and the end of the text are two places; a fault at the end has
its mark just past the last line. -/
theorem positions_exact_sample :
    Position.locate Sample.linesText 3 = .ok ⟨2, 1⟩ ∧
      Position.locate Sample.linesText 6 = .ok ⟨3, 3⟩ ∧ (⟨2, 1⟩ : Position) < ⟨3, 3⟩ ∧
      (∃ e, Position.locate Sample.linesText 7 = .error e) ∧
      ∃ fault, Sample.linesSource.faultAt 6 "Unexpected token" = .unparsed fault ∧
        fault.lineText = " b" ∧ fault.column = 3 ∧ fault.StandsAt Sample.linesText 6 := by
  obtain ⟨hexact, hordered, hfaults⟩ := positions_exact
  obtain ⟨hfeed, hend⟩ := Sample.locate_linesText
  obtain ⟨hdefined, hstands⟩ := hfaults Sample.linesSource 6 "Unexpected token"
  obtain ⟨fault, hfault⟩ := hdefined.mpr (by decide)
  obtain ⟨-, -, hstands⟩ := hstands fault hfault
  obtain ⟨hline, hcolumn⟩ := hstands.eq_of_locate hend
  have hshown := hstands.numbered
  rw [hline] at hshown
  have hlast : (Sample.linesText.splitOn '\n')[2]? = some " b".toList := by decide
  have htext : " b".toList = fault.lineText.toList := Option.some.inj (hlast.symm.trans hshown)
  exact ⟨hfeed, hend, (hordered _ 3 6 _ _ hfeed hend).1.mpr (by decide),
    (hexact _ 7).1.mpr (.inr (by decide)), fault, hfault, (String.toList_injective htext).symm,
    hcolumn, hstands⟩

end SuiteOutline
