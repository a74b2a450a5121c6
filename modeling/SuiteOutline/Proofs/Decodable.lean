import SuiteOutline.Proofs.Literal
import SuiteOutline.Proofs.SyntaxErrors

/-! The strings of a source have values. Escapes are searched on the walk, and only in a text where
a braced one occurs; they are decoded among all children of a string. Where the escapes of strings
are named nodes the search meets them all, and what it lets pass can be decoded. -/
namespace SuiteOutline

namespace Source

variable {src : Source} {filename : Option String} {text : List Char} {tree : Node}

/-- The escapes in the strings that a walk meets are named, and spelled as the grammar has them. -/
def StringEscapesFormed (src : Source) : Prop :=
  ∀ n ∈ src.root.walk, n.symbol = .string → ∀ e ∈ n.children, e.symbol = .escapeSequence →
    e.named = true ∧ ∃ raw, src.charsOf e = .ok raw ∧ IsEscape raw

/-- What a string holds has passed the search: it is on the walk, and so is its string. -/
theorem escapesDecode_of_ofTree (h : ofTree filename text tree = .ok src)
    (hformed : src.StringEscapesFormed) {n : Node} (hn : n ∈ src.root.walk)
    (hstring : n.symbol = .string) : src.EscapesDecode n.children := by
  intro e he hsymbol
  obtain ⟨hnamed, raw, hraw, hescape⟩ := hformed n hn hstring e he hsymbol
  have hchild : e ∈ n.namedChildren := List.mem_filter.mpr ⟨he, hnamed⟩
  have hwalk : e ∈ src.root.walk :=
    Node.mem_walk_trans hn (Node.mem_walk_of_mem_namedChildren hchild)
  have hrange : isOutOfRange raw = .ok false := isOutOfRange_of_ofTree h hwalk hsymbol hraw
  exact ⟨raw, hraw, hescape.isSome_decode hrange⟩

/-- Without braced escapes in the text nothing is found among nodes that can be read. -/
theorem firstOutOfRange?_of_not_occursIn {ns : List Node}
    (hread : ∀ n ∈ ns, ∃ raw, src.charsOf n = .ok raw)
    (h : ¬occursIn bracedEscape src.text.toList = true) : src.firstOutOfRange? ns = .ok none := by
  induction ns with
  | nil => rfl
  | cons n ns ih =>
    obtain ⟨⟨raw, hraw⟩, hns⟩ := List.forall_mem_cons.mp hread
    by_cases hsymbol : n.symbol = .escapeSequence
    · have hrange : isOutOfRange raw = .ok false := isOutOfRange_of_not_occursIn hraw h
      rw [firstOutOfRange?_cons_of_escape hsymbol hraw hrange, if_neg Bool.false_ne_true, ih hns]
    · rw [firstOutOfRange?, if_neg hsymbol, ih hns]

/-- The text is searched as if the search were never left out. -/
theorem outOfRange?_eq_firstOutOfRange? (hspans : src.SpansInText) (hsrc : src.Indexed) :
    src.outOfRange? = src.firstOutOfRange? src.root.walk := by
  unfold outOfRange?
  split
  case isTrue => rfl
  case isFalse hoccurs =>
    have hread : ∀ n ∈ src.root.walk, ∃ raw, src.charsOf n = .ok raw := by
      intro n hn
      exact hspans.exists_charsOf hsrc (Node.reaches_of_mem_walk hn).mem_nodes
    exact (firstOutOfRange?_of_not_occursIn hread hoccurs).symm

/-- The strings of a source have values, if their escapes are named nodes of the grammar's forms.
And a text without braced escapes need not be searched: the search would find nothing. -/
theorem strings_decode (hspans : (unchecked filename text tree).SpansInText) :
    (∀ src, ofTree filename text tree = .ok src → src.StringEscapesFormed →
      ∀ n ∈ tree.walk, n.symbol = .string → ∃ t, src.stringValue n = .ok t) ∧
    (¬bracedEscape <:+: text →
      (unchecked filename text tree).firstOutOfRange? tree.walk = .ok none) ∧
    (unchecked filename text tree).outOfRange? =
      (unchecked filename text tree).firstOutOfRange? tree.walk := by
  have hsearch := outOfRange?_eq_firstOutOfRange? hspans rfl
  refine ⟨fun src h hformed n hn hstring => ?_, fun hplain => ?_, hsearch⟩
  · obtain rfl : src = unchecked filename text tree := ofTree_eq_ok h
    have hdecode := escapesDecode_of_ofTree h hformed hn hstring
    obtain ⟨span, hspan, -⟩ := hspans.exists_span rfl (Node.reaches_of_mem_walk hn).mem_nodes
    exact hdecode.stringValue_ok ⟨span, hspan⟩
  · have hoccurs : ¬occursIn bracedEscape text = true := mt occursIn_iff_isInfix.mp hplain
    have hleft : (unchecked filename text tree).outOfRange? = .ok none := if_neg hoccurs
    exact hsearch.symm.trans hleft

end Source

namespace Sample

def lastText : List Char := "é;'\\u\x7b10ffff\x7d\\0'".toList

/-- The escape of the last code point. -/
def lastEscape : Node := node none .escapeSequence 4 14 []

def nulEscape : Node := node none .escapeSequence 14 16 []

def lastString : Node :=
  node none .string 3 17
    [token (.other "'") 3 4, lastEscape, nulEscape, token (.other "'") 16 17]

def lastTree : Node :=
  node none (.other "program") 0 17
    [node none .expressionStatement 0 3 [node none .identifier 0 2 []],
     node none .expressionStatement 3 17 [lastString]]

theorem string_mem_walk {n : Node} : n ∈ lastTree.walk ∧ n.symbol = .string ↔ n = lastString := by
  have hfilter : lastTree.walk.filter (fun n => decide (n.symbol = .string)) = [lastString] := rfl
  rw [mem_and_symbol_iff hfilter, List.mem_singleton]

theorem escape_mem_lastString {e : Node} :
    e ∈ lastString.children ∧ e.symbol = .escapeSequence ↔ e = lastEscape ∨ e = nulEscape := by
  have hfilter : lastString.children.filter (fun e => decide (e.symbol = .escapeSequence)) =
      [lastEscape, nulEscape] := rfl
  rw [mem_and_symbol_iff hfilter, List.mem_cons, List.mem_singleton]

theorem stringEscapesFormed_last :
    (Source.unchecked none lastText lastTree).StringEscapesFormed := by
  intro n hn hstring e he hsymbol
  obtain rfl := string_mem_walk.mp ⟨hn, hstring⟩
  rcases escape_mem_lastString.mp ⟨he, hsymbol⟩ with rfl | rfl
  · have hhex : "10ffff".toList ⊆ hexAlphabet := by decide
    have hraw : (Source.unchecked none lastText lastTree).charsOf lastEscape =
        .ok (Source.bracedEscape ++ "10ffff".toList ++ ['\x7d']) := by decide
    exact ⟨rfl, _, hraw, .braced (fun _ hc => hhex hc) (by decide)⟩
  · have hoctal : ['0'] ⊆ octalAlphabet := by decide
    have hraw : (Source.unchecked none lastText lastTree).charsOf nulEscape = .ok ['\\', '0'] := by
      decide
    exact ⟨rfl, _, hraw, .octal (fun _ hc => hoctal hc) (by decide) (by decide)⟩

/-- A brace that is spelled without one. -/
def braceText : List Char := "'\\u007b'".toList

def braceTree : Node :=
  node none (.other "program") 0 8
    [node none .expressionStatement 0 8
      [node none .string 0 8 [node none .escapeSequence 1 7 []]]]

end Sample

/-- The last code point is in range; a text that spells the brace by its number is not searched. -/
theorem Source.strings_decode_sample :
    (∃ src t, ofTree none Sample.lastText Sample.lastTree = .ok src ∧ src.StringEscapesFormed ∧
      src.stringValue Sample.lastString = .ok t) ∧
    ¬bracedEscape <:+: Sample.braceText ∧
      (unchecked none Sample.braceText Sample.braceTree).firstOutOfRange? Sample.braceTree.walk =
        .ok none := by
  have hplain : ¬bracedEscape <:+: Sample.braceText := by
    rw [← occursIn_iff_isInfix]
    decide
  refine ⟨?_, hplain, ?_⟩
  · have hspans : (unchecked none Sample.lastText Sample.lastTree).SpansInText := by
      unfold SpansInText
      decide
    obtain ⟨hwalk, hstring⟩ := Sample.string_mem_walk.mpr rfl
    obtain ⟨t, ht⟩ := (strings_decode hspans).1 _ rfl Sample.stringEscapesFormed_last
      Sample.lastString hwalk hstring
    exact ⟨_, t, rfl, Sample.stringEscapesFormed_last, ht⟩
  · have hspans : (unchecked none Sample.braceText Sample.braceTree).SpansInText := by
      unfold SpansInText
      decide
    exact (strings_decode hspans).2.1 hplain

end SuiteOutline
