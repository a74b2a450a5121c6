import SuiteOutline.Proofs.Encoded
import SuiteOutline.Proofs.Numeral
import SuiteOutline.Proofs.Utf16
import SuiteOutline.Value.Literal

/-! String literals as they are written, in pieces: characters that stand for themselves, and escape
sequences, each with the UTF-16 code units that it stands for. The value of a literal has the units
of its pieces. -/
namespace SuiteOutline

/-- The control characters that have a letter of their own. -/
def controls : List (Char × CodeUnit) :=
  [('n', .ofNat 0x0A), ('t', .ofNat 0x09), ('r', .ofNat 0x0D), ('b', .ofNat 0x08),
    ('f', .ofNat 0x0C), ('v', .ofNat 0x0B), ('0', .ofNat 0x00)]

/-- What a backslash may stand in front of to join two lines. -/
def lineBreaks : List (List Char) := [['\r', '\n'], ['\n'], ['\r'], ['\u2028'], ['\u2029']]

inductive Escape where
  | control (name : Char) (code : CodeUnit) (h : (name, code) ∈ controls)
  | byte (a b : Digit 16)
  | unit (a b c d : Digit 16)
  | point (ds : List (Digit 16)) (hne : ds ≠ []) (h : Digit.number ds < 0x110000)
  | octal (ds : List (Digit 8)) (hne : ds ≠ []) (hlength : ds.length ≤ 3)
  | continuation (lineBreak : List Char) (h : lineBreak ∈ lineBreaks)
  | other (c : Char) (hcontrol : c ∉ controls.map (·.1)) (hoctal : c ∉ octalAlphabet)
      (hbreak : [c] ∉ lineBreaks)

namespace Escape

/-- How an escape is written, the backslash included. -/
def spelling : Escape → List Char
  | control name _ _ => ['\\', name]
  | byte a b => ['\\', 'x', a.char, b.char]
  | unit a b c d => ['\\', 'u', a.char, b.char, c.char, d.char]
  | point ds _ _ => Source.bracedEscape ++ ds.map Digit.char ++ ['\x7d']
  | octal ds _ _ => '\\' :: ds.map Digit.char
  | continuation lineBreak _ => '\\' :: lineBreak
  | other c _ _ _ => ['\\', c]

/-- The code units that an escape stands for. -/
def units : Escape → List CodeUnit
  | control _ code _ => [code]
  | byte a b => [.ofNat (Digit.number [a, b])]
  | unit a b c d => [.ofNat (Digit.number [a, b, c, d])]
  | point ds _ h => CodePoint.utf16 ⟨Digit.number ds, h⟩
  | octal ds _ _ => [.ofNat (Digit.number ds)]
  | continuation _ _ => []
  | other c _ _ _ => (CodePoint.ofChar c).utf16

/-! What each form is decoded to. -/

theorem decode_controls : controls.all (fun control =>
    decide (decodeEscape? ['\\', control.1] = some [control.2.point])) = true := by
  decide

theorem decode_lineBreaks : lineBreaks.all (fun lineBreak =>
    decide (decodeEscape? ('\\' :: lineBreak) = some [])) = true := by
  decide

theorem isContinuation_iff {body : List Char} : isContinuation body = true ↔ body ∈ lineBreaks := by
  simp [isContinuation, lineBreaks, or_assoc]

theorem mem_controls_of_simpleEscape? {c s : Char} (h : simpleEscape? c = some s) :
    c ∈ controls.map (·.1) := by
  unfold simpleEscape? at h
  split at h
  case h_8 => cases h
  all_goals decide

/-- Several octal digits are read as a number. -/
theorem decodeEscape?_of_isOctal {body : List Char} (hlength : 2 ≤ body.length)
    (hall : body.all isOctal = true) : decodeEscape? ('\\' :: body) = codePoint? 8 body := by
  have hbreak : isContinuation body = false := by
    have hnone : lineBreaks.all (fun lineBreak => !lineBreak.all isOctal) = true := by decide
    by_contra hbreak
    have hbody := isContinuation_iff.mp (Bool.eq_true_of_not_eq_false hbreak)
    have := List.all_eq_true.mp hnone body hbody
    rw [hall] at this
    cases this
  unfold decodeEscape?
  simp only [List.drop_one, List.tail_cons]
  split
  case h_1 | h_2 | h_3 => simp [isOctal] at hall
  case h_4 =>
    rw [hbreak, if_neg Bool.false_ne_true]
    split
    · simp at hlength
    · have hne : body ≠ [] := by
        rintro rfl
        simp at hlength
      rw [if_pos (by simp [hne, hall])]

theorem decodeEscape?_octal {ds : List (Digit 8)} (hne : ds ≠ []) :
    decodeEscape? ('\\' :: ds.map Digit.char) = codePoint? 8 (ds.map Digit.char) := by
  match ds with
  | [] => exact absurd rfl hne
  | [d] =>
    -- a single zero is the control character of that number
    have hall : ∀ (value : Fin 8) (capital : Bool),
        decodeEscape? ['\\', (Digit.mk value capital).char] =
          codePoint? 8 [(Digit.mk value capital).char] := by decide
    exact hall d.value d.capital
  | a :: b :: ds =>
    apply decodeEscape?_of_isOctal
    · simp
    · simp [Digit.isOctal_char]

theorem decodeEscape?_other {c : Char} (hcontrol : c ∉ controls.map (·.1))
    (hoctal : c ∉ octalAlphabet) (hbreak : [c] ∉ lineBreaks) :
    decodeEscape? ['\\', c] = some [.ofChar c] := by
  have hbreak' : isContinuation [c] = false :=
    Bool.eq_false_iff.mpr (mt isContinuation_iff.mp hbreak)
  have hoctal' : isOctal c = false := Bool.eq_false_iff.mpr (mt mem_octalAlphabet hoctal)
  have hsimple : simpleEscape? c = none := by
    cases h : simpleEscape? c with
    | none => rfl
    | some s => exact absurd (mem_controls_of_simpleEscape? h) hcontrol
  unfold decodeEscape?
  simp only [List.drop_one, List.tail_cons, hbreak', Bool.false_eq_true, if_false, hsimple, hoctal']

theorem utf16_of_val_lt {p : CodePoint} (h : p.val < 0x10000) :
    CodePoint.utf16 p = [.ofNat p.val] := by
  unfold CodePoint.utf16
  rw [if_pos h]

/-- A number of hexadecimal or octal digits so few is a code unit. -/
theorem decode_number {base : Nat} (hbase : base ≤ 16) (hten : base ≠ 10) {ds : List (Digit base)}
    (hne : ds ≠ []) (hlength : base ^ ds.length ≤ 0x10000) :
    ∃ t, codePoint? base (ds.map Digit.char) = some t ∧
      Text.utf16 t = [.ofNat (Digit.number ds)] := by
  have hlt := Nat.lt_of_lt_of_le (Digit.number_lt ds) hlength
  refine ⟨_, Digit.codePoint?_map_char hbase hten hne (by omega), ?_⟩
  rw [Text.utf16_cons, utf16_of_val_lt hlt]
  rfl

/-- An escape is decoded to what it stands for. -/
theorem decode_spelling (e : Escape) :
    ∃ t, decodeEscape? e.spelling = some t ∧ Text.utf16 t = e.units := by
  cases e with
  | control name code h =>
    have hdecode := of_decide_eq_true (List.all_eq_true.mp decode_controls _ h)
    refine ⟨_, hdecode, ?_⟩
    rw [Text.utf16_cons, CodePoint.utf16_point]
    rfl
  | byte a b =>
    have hsmall : 16 ^ 2 ≤ 0x10000 := by decide
    obtain ⟨t, ht, hunits⟩ :=
      decode_number (by decide) (by decide) (List.cons_ne_nil a [b]) hsmall
    refine ⟨t, ?_, hunits⟩
    unfold spelling decodeEscape?
    simpa only [List.drop_one, List.tail_cons, List.map_cons, List.map_nil] using ht
  | unit a b c d =>
    have hbrace : a.char ≠ '\x7b' := by
      intro h
      have hmem := (Digit.char_facts (le_refl 16) a).1
      rw [h] at hmem
      exact absurd hmem (by decide)
    have hsmall : 16 ^ 4 ≤ 0x10000 := by decide
    obtain ⟨t, ht, hunits⟩ :=
      decode_number (by decide) (by decide) (List.cons_ne_nil a [b, c, d]) hsmall
    refine ⟨t, ?_, hunits⟩
    unfold spelling decodeEscape?
    simpa only [List.drop_one, List.tail_cons, List.map_cons, List.map_nil] using ht
  | point ds hne h =>
    have hdigits : (ds.map Digit.char ++ ['\x7d']).dropLast = ds.map Digit.char :=
      List.dropLast_concat
    refine ⟨[⟨Digit.number ds, h⟩], ?_, List.append_nil _⟩
    change codePoint? 16 (ds.map Digit.char ++ ['\x7d']).dropLast = _
    rw [hdigits]
    exact Digit.codePoint?_map_char (by decide) (by decide) hne h
  | octal ds hne hlength =>
    have hsmall : 8 ^ ds.length ≤ 0x10000 :=
      Nat.le_trans (Nat.pow_le_pow_right (by decide) hlength) (by decide)
    rw [spelling, decodeEscape?_octal hne]
    exact decode_number (by decide) (by decide) hne hsmall
  | continuation lineBreak h =>
    exact ⟨[], of_decide_eq_true (List.all_eq_true.mp decode_lineBreaks _ h), rfl⟩
  | other c hcontrol hoctal hbreak =>
    exact ⟨_, decodeEscape?_other hcontrol hoctal hbreak, List.append_nil _⟩

end Escape

/-- A piece of a string literal: a character that stands for itself, or an escape. -/
inductive Piece where
  | raw (c : Char)
  | escape (e : Escape)

namespace Piece

def spelling : Piece → List Char
  | raw c => [c]
  | escape e => e.spelling

def units : Piece → List CodeUnit
  | raw c => (CodePoint.ofChar c).utf16
  | escape e => e.units

def spelled (ps : List Piece) : List Char := ps.flatMap spelling

/-- The spans of the escapes among pieces that begin at a byte. -/
def marks (byte : Nat) : List Piece → List Span
  | [] => []
  | raw c :: ps => marks (byte + c.utf8Size) ps
  | escape e :: ps =>
    ⟨byte, byte + utf8Length e.spelling⟩ :: marks (byte + utf8Length e.spelling) ps

end Piece

namespace Source

variable {src : Source}

theorem Indexed.offset_of_append (hsrc : src.Indexed) {front rest : List Char}
    (h : src.text.toList = front ++ rest) : src.offset (utf8Length front) = .ok front.length := by
  have hfront : src.text.toList.take front.length = front := by rw [h, List.take_left]
  have hle : front.length ≤ src.text.toList.length := by
    rw [h, List.length_append]
    omega
  have hoffset := hsrc.offset_eq hle
  rwa [hfront] at hoffset

theorem slice_of_append {front middle rest : List Char}
    (h : src.text.toList = front ++ middle ++ rest) :
    src.slice front.length (front ++ middle).length = middle := by
  rw [slice, Array.toList_extract, List.extract_eq_drop_take', h, List.take_left, List.drop_left]

/-- Only the escapes among the children matter. -/
theorem cookFrom_filter (src : Source) (cursor stop : Nat) (cs : List Node) :
    src.cookFrom cursor stop (cs.filter (·.symbol = .escapeSequence)) =
      src.cookFrom cursor stop cs := by
  induction cs generalizing cursor with
  | nil => rfl
  | cons c cs ih =>
    by_cases hsymbol : c.symbol = .escapeSequence
    · rw [List.filter_cons_of_pos (by simpa using hsymbol)]
      simp only [cookFrom, ih]
    · rw [List.filter_cons_of_neg (by simpa using hsymbol), ih, cookFrom, if_neg hsymbol]

theorem cookFrom_escape {cursor stop : Nat} {c : Node} {cs : List Node} {place : Span}
    {decoded rest : Text} (hsymbol : c.symbol = .escapeSequence) (hplace : src.spanOf c = .ok place)
    (hdecoded : decodeEscape? (src.slice place.start place.stop) = some decoded)
    (hrest : src.cookFrom place.stop stop cs = .ok rest) :
    src.cookFrom cursor stop (c :: cs) =
      .ok (Text.ofChars (src.slice cursor place.start) ++ decoded ++ rest) := by
  rw [cookFrom, if_pos hsymbol, hplace]
  simp only [bind_eq_ok, pure_eq_ok, Except.ok.injEq, exists_eq_left', hdecoded, hrest]

/-- An escape after characters that stand for themselves: both are read, and then what follows. -/
theorem cookFrom_spelling (hsrc : src.Indexed) {e : Escape} {front pending rest : List Char}
    {c : Node} {cs : List Node} {stop : Nat} {t : Text}
    (htext : src.text.toList = front ++ pending ++ e.spelling ++ rest)
    (hsymbol : c.symbol = .escapeSequence)
    (hspan : c.span = ⟨utf8Length (front ++ pending), utf8Length (front ++ pending ++ e.spelling)⟩)
    (ht : src.cookFrom (front ++ pending ++ e.spelling).length stop cs = .ok t) :
    ∃ u, src.cookFrom front.length stop (c :: cs) = .ok u ∧
      u.utf16 = (Text.ofChars pending).utf16 ++ (e.units ++ t.utf16) := by
  have hpending := htext
  rw [List.append_assoc (front ++ pending)] at hpending
  have hplace : src.spanOf c = .ok ⟨(front ++ pending).length,
      (front ++ pending ++ e.spelling).length⟩ := by
    rw [spanOf_eq_ok, startOf, stopOf, Node.start, Node.stop, hspan]
    exact ⟨hsrc.offset_of_append hpending, hsrc.offset_of_append htext⟩
  obtain ⟨decoded, hdecoded, hescape⟩ := e.decode_spelling
  rw [← slice_of_append htext] at hdecoded
  refine ⟨_, cookFrom_escape hsymbol hplace hdecoded ht, ?_⟩
  rw [slice_of_append hpending, Text.utf16_append, Text.utf16_append, hescape, List.append_assoc]

/-- The text in front is done up to the cursor; between it and the pieces left there are only
characters that stand for themselves. -/
theorem cookFrom_pieces (hsrc : src.Indexed) {ps : List Piece} {front pending rest : List Char}
    {cs : List Node} (htext : src.text.toList = front ++ pending ++ Piece.spelled ps ++ rest)
    (hsymbols : ∀ c ∈ cs, c.symbol = .escapeSequence)
    (hmarks : cs.map Node.span = Piece.marks (utf8Length (front ++ pending)) ps) :
    ∃ t, src.cookFrom front.length (front ++ pending ++ Piece.spelled ps).length cs = .ok t ∧
      t.utf16 = (Text.ofChars pending).utf16 ++ ps.flatMap Piece.units := by
  induction ps generalizing front pending cs with
  | nil =>
    obtain rfl : cs = [] := List.map_eq_nil_iff.mp hmarks
    rw [Piece.spelled, List.flatMap_nil, List.append_nil] at htext ⊢
    refine ⟨_, rfl, ?_⟩
    rw [slice_of_append htext, List.flatMap_nil, List.append_nil]
  | cons p ps ih =>
    -- a character that stands for itself is added to those pending; an escape is where they end
    cases p with
    | raw c =>
      have hspelled : front ++ pending ++ Piece.spelled (.raw c :: ps) =
          front ++ (pending ++ [c]) ++ Piece.spelled ps := by
        simp [Piece.spelled, Piece.spelling]
      have hbyte : utf8Length (front ++ pending) + c.utf8Size =
          utf8Length (front ++ (pending ++ [c])) := by
        rw [← List.append_assoc, utf8Length_append (front ++ pending)]
        rfl
      rw [hspelled] at htext ⊢
      rw [Piece.marks, hbyte] at hmarks
      obtain ⟨t, ht, hunits⟩ := ih htext hsymbols hmarks
      refine ⟨t, ht, ?_⟩
      have hlast : (Text.ofChars (pending ++ [c])).utf16 =
          (Text.ofChars pending).utf16 ++ (CodePoint.ofChar c).utf16 := by
        rw [Text.ofChars, List.map_append, Text.utf16_append, List.map_singleton,
          Text.utf16_singleton]
        rfl
      rw [hunits, hlast, List.append_assoc]
      rfl
    | escape e =>
      have hspelled : front ++ pending ++ Piece.spelled (.escape e :: ps) =
          front ++ pending ++ e.spelling ++ [] ++ Piece.spelled ps := by
        simp [Piece.spelled, Piece.spelling]
      have hbyte : utf8Length (front ++ pending) + utf8Length e.spelling =
          utf8Length (front ++ pending ++ e.spelling ++ []) := by
        rw [List.append_nil, utf8Length_append (front ++ pending)]
      rw [hspelled] at htext ⊢
      rw [Piece.marks, hbyte] at hmarks
      obtain ⟨c, cs, rfl, hspan, hmarks⟩ := List.map_eq_cons_iff.mp hmarks
      obtain ⟨hsymbol, hsymbols⟩ := List.forall_mem_cons.mp hsymbols
      obtain ⟨t, ht, hunits⟩ := ih htext hsymbols hmarks
      rw [List.append_nil] at htext hspan ht
      rw [List.append_assoc (front ++ pending ++ e.spelling)] at htext
      obtain ⟨u, hu, hread⟩ := cookFrom_spelling hsrc htext hsymbol hspan ht
      refine ⟨u, ?_, ?_⟩
      · rw [List.append_nil]
        exact hu
      · rw [hread, hunits]
        rfl

/-- A node that covers some text cuts the text of the source in three. -/
theorem Indexed.exists_cut (hsrc : src.Indexed) {n : Node} {covered : List Char}
    (hstart : IsBoundary src.text.toList n.start) (hstop : IsBoundary src.text.toList n.stop)
    (hchars : src.charsOf n = .ok covered) (hne : covered ≠ []) :
    ∃ front rest, src.text.toList = front ++ covered ++ rest ∧ utf8Length front = n.start ∧
      src.spanOf n = .ok ⟨front.length, (front ++ covered).length⟩ := by
  obtain ⟨j, hj, hnstart⟩ := hstart
  obtain ⟨k, hk, hnstop⟩ := hstop
  have hspan := hsrc.spanOf_eq hj hk hnstart hnstop
  have hcovered : (src.text.toList.take k).drop j = covered := by
    rw [charsOf, hspan] at hchars
    rw [← List.extract_eq_drop_take', ← Array.toList_extract]
    exact Except.ok.inj hchars
  have hlength : j + covered.length = k := by
    have hpos := List.length_pos_iff.mpr hne
    have hcut := congrArg List.length hcovered
    rw [List.length_drop, List.length_take] at hcut
    omega
  have hfront : src.text.toList.take j ++ covered = src.text.toList.take k := by
    conv_rhs => rw [← List.take_append_drop j (src.text.toList.take k)]
    rw [List.take_take, Nat.min_eq_left (by omega), hcovered]
  refine ⟨src.text.toList.take j, src.text.toList.drop k, ?_, hnstart, ?_⟩
  · rw [hfront, List.take_append_drop]
  · rw [hspan, hfront, List.length_take, List.length_take, Nat.min_eq_left hj, Nat.min_eq_left hk]

/-- Strings are cooked correctly. A quoted literal that is written in pieces, just the escapes among
them marked in the tree, has the code units of its pieces. So a text written in any mixture of
escapes is read back, with its surrogates joined. -/
theorem stringValue_of_pieces {src : Source} (hsrc : src.Indexed) {n : Node} {quote : Char}
    {pieces : List Piece} (hstart : IsBoundary src.text.toList n.start)
    (hstop : IsBoundary src.text.toList n.stop)
    (hchars : src.charsOf n = .ok (quote :: (Piece.spelled pieces ++ [quote])))
    (hmarks : (n.children.filter (·.symbol = .escapeSequence)).map Node.span =
      Piece.marks (n.start + quote.utf8Size) pieces) :
    ∃ t, src.stringValue n = .ok t ∧ t.utf16 = pieces.flatMap Piece.units ∧
      ∀ s : Text, s.utf16 = pieces.flatMap Piece.units → t = s.joinSurrogates := by
  obtain ⟨front, rest, htext, hfront, hspan⟩ :=
    hsrc.exists_cut hstart hstop hchars (List.cons_ne_nil _ _)
  have hopened : front ++ (quote :: (Piece.spelled pieces ++ [quote])) =
      front ++ [quote] ++ [] ++ Piece.spelled pieces ++ [quote] := by simp
  have hbyte : n.start + quote.utf8Size = utf8Length (front ++ [quote] ++ []) := by
    rw [List.append_nil, utf8Length_append, hfront]
    rfl
  rw [hopened] at htext hspan
  rw [List.append_assoc (front ++ [quote] ++ [] ++ Piece.spelled pieces)] at htext
  rw [hbyte] at hmarks
  have hplace : src.inside n = .ok ⟨(front ++ [quote]).length,
      (front ++ [quote] ++ [] ++ Piece.spelled pieces).length⟩ := by
    rw [inside, hspan]
    simp
  have hsymbols : ∀ c ∈ n.children.filter (·.symbol = .escapeSequence),
      c.symbol = .escapeSequence := fun c hc => by simpa using (List.mem_filter.mp hc).2
  obtain ⟨t, ht, hunits⟩ := cookFrom_pieces hsrc htext hsymbols hmarks
  rw [cookFrom_filter] at ht
  change t.utf16 = pieces.flatMap Piece.units at hunits
  refine ⟨t.joinSurrogates, ?_, ?_, fun s hs => ?_⟩
  · rw [stringValue, hplace]
    simp only [bind_eq_ok, pure_eq_ok]
    exact ⟨_, rfl, t, ht, rfl⟩
  · rw [Text.utf16_joinSurrogates, hunits]
  · rw [← Text.ofUtf16_utf16, ← Text.ofUtf16_utf16, hunits, hs]

/-- A surrogate pair in escapes of two forms, and between them and the end a byte, an octal number, a
line continuation and a letter that needs no escape. -/
theorem stringValue_of_pieces_sample :
    let escape (start stop : Nat) : Node := ⟨.escapeSequence, ⟨start, stop⟩, none, true, false, []⟩
    let n : Node := ⟨.string, ⟨0, 31⟩, none, true, false, [escape 3 9, escape 9 17, escape 17 21,
      escape 21 25, escape 25 28, escape 28 30]⟩
    let text := ['\'', 'é'] ++ "\\uD83D\\u\x7bDE00\x7d\\x41\\101\\\r\n\\q'".toList
    let src : Source := ⟨none, text.toArray, .ofText text, n⟩
    src.stringValue n = .ok (Text.ofChars ['é', '😀', 'A', 'A', 'q']) := by
  intro escape n text src
  let high : Escape := .unit ⟨13, true⟩ ⟨8, true⟩ ⟨3, true⟩ ⟨13, true⟩
  let low : Escape :=
    .point [⟨13, true⟩, ⟨14, true⟩, ⟨0, true⟩, ⟨0, true⟩] (by decide) (by decide)
  let pieces : List Piece := [.raw 'é', .escape high, .escape low,
    .escape (.byte ⟨4, false⟩ ⟨1, false⟩),
    .escape (.octal [⟨1, false⟩, ⟨0, false⟩, ⟨1, false⟩] (by decide) (by decide)),
    .escape (.continuation ['\r', '\n'] (by decide)),
    .escape (.other 'q' (by decide) (by decide) (by decide))]
  have hchars : src.charsOf n = .ok ('\'' :: (Piece.spelled pieces ++ ['\''])) := by decide
  have hmarks : (n.children.filter (·.symbol = .escapeSequence)).map Node.span =
      Piece.marks (n.start + '\''.utf8Size) pieces := by decide
  have hsrc : src.Indexed := rfl
  obtain ⟨t, ht, -, hread⟩ :=
    stringValue_of_pieces hsrc (by decide) (by decide) hchars hmarks
  have hwritten : (Text.ofChars ['é', '😀', 'A', 'A', 'q']).utf16 = pieces.flatMap Piece.units := by
    decide
  rw [ht, hread _ hwritten]
  decide

end Source
end SuiteOutline
