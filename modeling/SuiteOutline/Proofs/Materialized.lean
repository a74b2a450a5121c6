import SuiteOutline.Proofs.Denotes

/-! An expression is given the value that it denotes, and no value if code stands anywhere in it. -/
namespace SuiteOutline
namespace Node

/-- The parts of an expression in which code may stand. There is none in a literal, in a name or
in a substitution that is a bare identifier; in what is no literal at all it may stand anywhere. -/
def parts (n : Node) : List Node :=
  match n.symbol with
  | .parenthesizedExpression => n.members.head?.toList
  | .array => n.children.filter isItem
  | .object => n.members
  | .pair => (n.child? .value).toList
  | .templateString => (n.children.filter isSubstitution).filterMap fun c =>
      c.members.head?.filter fun e => e.kind ≠ .identifier
  | .string | .number | .trueLiteral | .falseLiteral | .nullLiteral | .regex => []
  | _ => n.children

inductive Holds : Node → Node → Prop
  | self (n : Node) : Holds n n
  | part {n c m : Node} (hc : c ∈ n.parts) (hm : Holds c m) : Holds n m

/-- Calls, functions and identifiers; and shorthands, methods, spreads and computed keys. -/
def IsCode (n : Node) : Prop :=
  Kind.ofSymbol n.symbol ∈ [.call, .function, .arrow, .identifier] ∨
    n.symbol ∈ [.shorthandPropertyIdentifier, .methodDefinition, .spreadElement] ∨
    n.symbol = .pair ∧ (n.child? .key).any (·.symbol = .other "computed_property_name")

end Node

namespace Source

variable (src : Source)

/-- Neither an expression with a value nor an entry of an object. -/
def Valueless (n : Node) : Prop :=
  (∀ v, ¬src.Denotes n v) ∧ ∀ entry, ¬src.EntryDenotes n entry

variable {src}

theorem exists_denotes_of_mem_items {ns : List Node} {vs : List Value} (h : src.ItemsDenote ns vs)
    {n : Node} (hn : n ∈ ns) : ∃ v, src.Denotes n v := by
  induction ns generalizing vs with
  | nil => cases hn
  | cons m ns ih =>
    obtain ⟨v, rest, hv, hrest, -⟩ := itemsDenote_cons_iff.mp h
    rcases List.mem_cons.mp hn with rfl | hn
    · exact ⟨v, hv⟩
    · exact ih hrest hn

theorem exists_denotes_of_mem_entries {ns : List Node} {entries : List (Text × Value)}
    (h : src.EntriesDenote ns entries) {n : Node} (hn : n ∈ ns) :
    ∃ entry, src.EntryDenotes n entry := by
  induction ns generalizing entries with
  | nil => cases hn
  | cons m ns ih =>
    cases h with
    | cons hentry hrest =>
      rcases List.mem_cons.mp hn with rfl | hn
      · exact ⟨_, hentry⟩
      · exact ih hrest hn

theorem bare_of_rendered {stop cursor : Nat} {cs : List Node} {t : List Char}
    (h : src.Rendered stop cursor cs t) {c e : Node} (hc : c ∈ cs) (he : c.members.head? = some e) :
    e.kind = .identifier := by
  induction h with
  | last => cases hc
  | name _ he' hbare _ _ ih =>
    rcases List.mem_cons.mp hc with rfl | hc
    · rw [he] at he'
      cases he'
      exact hbare
    · exact ih hc

theorem not_denotes {n : Node} (hparens : n.symbol ≠ .parenthesizedExpression)
    (hkind : Kind.ofSymbol n.symbol ∉ [.literal, .template, .array, .object]) (v : Value) :
    ¬src.Denotes n v := by
  rw [denotes_iff, Node.unwrap_of_ne hparens]
  rintro (h | ⟨t, h, -⟩ | ⟨h, -⟩ | ⟨h, -⟩)
  · exact not_literalOf (fun hliteral => hkind (by simp [hliteral])) v h
  · exact not_templateOf (fun htemplate => hkind (by simp [htemplate, Kind.ofSymbol])) t h
  · simp [h, Kind.ofSymbol] at hkind
  · simp [h, Kind.ofSymbol] at hkind

theorem not_entryDenotes {n : Node} (h : n.symbol ≠ .pair) (entry : Text × Value) :
    ¬src.EntryDenotes n entry := by
  intro hentry
  cases hentry with
  | pair hsymbol => exact h hsymbol

theorem valueless_of_isCode {n : Node} (h : n.IsCode) : src.Valueless n := by
  rcases h with hkind | hsymbol | ⟨hpair, hcomputed⟩
  · simp only [List.mem_cons, List.not_mem_nil, or_false] at hkind
    refine ⟨not_denotes ?_ ?_, not_entryDenotes ?_⟩
    · intro hsymbol
      simp [hsymbol, Kind.ofSymbol] at hkind
    · rcases hkind with h | h | h | h <;> simp [h]
    · intro hsymbol
      simp [hsymbol, Kind.ofSymbol] at hkind
  · simp only [List.mem_cons, List.not_mem_nil, or_false] at hsymbol
    refine ⟨not_denotes ?_ ?_, not_entryDenotes ?_⟩ <;>
      rcases hsymbol with h | h | h <;> simp [h, Kind.ofSymbol]
  · refine ⟨not_denotes (by simp [hpair]) (by simp [hpair, Kind.ofSymbol]), fun entry hentry => ?_⟩
    cases hentry with
    | pair _ hkey hk =>
      simp only [hkey, Option.any_some, decide_eq_true_eq] at hcomputed
      cases hk with
      | _ h => simp [hcomputed] at h

/-- Code in a part of an expression leaves the whole without a value. -/
theorem valueless_of_part {n c : Node} (hc : c ∈ n.parts) (h : src.Valueless c) :
    src.Valueless n := by
  unfold Node.parts at hc
  cases hsymbol : n.symbol with
  | parenthesizedExpression =>
    simp only [hsymbol, Option.mem_toList] at hc
    refine ⟨fun v hv => ?_, not_entryDenotes (by simp [hsymbol])⟩
    obtain ⟨d, hd, hv⟩ := (denotes_parens hsymbol).mp hv
    rw [hc] at hd
    cases hd
    exact h.1 v hv
  | array =>
    simp only [hsymbol] at hc
    refine ⟨fun v hv => ?_, not_entryDenotes (by simp [hsymbol])⟩
    obtain ⟨vs, ⟨-, hitems⟩, -⟩ := (denotes_array hsymbol).mp hv
    obtain ⟨w, hw⟩ := exists_denotes_of_mem_items hitems hc
    exact h.1 w hw
  | object =>
    simp only [hsymbol] at hc
    refine ⟨fun v hv => ?_, not_entryDenotes (by simp [hsymbol])⟩
    obtain ⟨entries, hentries, -⟩ := (denotes_object hsymbol).mp hv
    obtain ⟨entry, hentry⟩ := exists_denotes_of_mem_entries hentries hc
    exact h.2 entry hentry
  | pair =>
    simp only [hsymbol, Option.mem_toList] at hc
    refine ⟨not_denotes (by simp [hsymbol]) (by simp [hsymbol, Kind.ofSymbol]), fun entry hentry => ?_⟩
    cases hentry with
    | pair _ _ _ hvalue hv =>
      rw [hc] at hvalue
      cases hvalue
      exact h.1 _ hv
  | templateString =>
    simp only [hsymbol, List.mem_filterMap] at hc
    obtain ⟨substitution, hsubstitution, hfirst⟩ := hc
    obtain ⟨hfirst, hbare⟩ := Option.filter_eq_some_iff.mp hfirst
    refine ⟨fun v hv => ?_, not_entryDenotes (by simp [hsymbol])⟩
    obtain ⟨t, ⟨-, -, hrendered⟩, -⟩ := (denotes_template hsymbol).mp hv
    simp [bare_of_rendered hrendered hsubstitution hfirst] at hbare
  | string | number | trueLiteral | falseLiteral | nullLiteral | regex => simp [hsymbol] at hc
  | _ =>
    exact ⟨not_denotes (by simp [hsymbol]) (by simp [hsymbol, Kind.ofSymbol]),
      not_entryDenotes (by simp [hsymbol])⟩

theorem valueless_of_holds {n m : Node} (h : n.Holds m) (hm : m.IsCode) : src.Valueless n := by
  induction h with
  | self n => exact valueless_of_isCode hm
  | part hc _ ih => exact valueless_of_part hc (ih hm)

/-- In a source with well-formed escapes, an expression that there is room for and whose keys can be
written has exactly the value that it denotes, and none if there is any code in it. -/
theorem value_denotes {filename : Option String} {text : List Char} {tree : Node}
    (hsrc : ofTree filename text tree = .ok src) (hmeasured : src.Measured)
    (hescapes : src.EscapesFormed) {n : Node} (hn : n ∈ src.root.nodes) {room : Nat}
    (hnesting : n.nesting ≤ room) (hkeys : src.KeysPrint n) :
    ∃ r, src.valueWithin room n = .ok r ∧ (∀ v, r = some v ↔ src.Denotes n v) ∧
      ∀ m, n.Holds m → m.IsCode → r = none := by
  have hlegible := legible_ofTree hsrc hmeasured hescapes
  obtain ⟨r, hr, hdenotes⟩ := settles_valueWithin hlegible hn hkeys hnesting
  refine ⟨r, hr, hdenotes, fun m hm hcode => ?_⟩
  have hvalueless : src.Valueless n := valueless_of_holds hm hcode
  exact Option.eq_none_iff_forall_ne_some.mpr fun v hv => hvalueless.1 v ((hdenotes v).mp hv)

end Source

namespace Sample

/-- A key comes twice, one item is null, and one is a template. -/
def literalText : List Char :=
  "(\x7b1: 2, b: [\"\\t\", null, `$\x7bx\x7d`], 1: 3\x7d)".toList

def literalTree : Node :=
  node none .parenthesizedExpression 0 39
    [node none .object 1 38
      [node none .pair 2 6
        [node (some .key) .number 2 3 [], node (some .value) .number 5 6 []],
       node none .pair 8 31
        [node (some .key) .propertyIdentifier 8 9 [],
         node (some .value) .array 11 31
          [token .leftBracket 11 12,
           node none .string 12 16 [node none .escapeSequence 13 15 []], token .comma 16 17,
           node none .nullLiteral 18 22 [], token .comma 22 23,
           node none .templateString 24 30
            [node none .templateSubstitution 25 29 [node none .identifier 27 28 []]],
           token .rightBracket 30 31]],
       node none .pair 33 37
        [node (some .key) .number 33 34 [], node (some .value) .number 36 37 []]]]

def literalSource : Source := ⟨none, literalText.toArray, .ofText literalText, literalTree⟩

theorem ofTree_literalTree : Source.ofTree none literalText literalTree = .ok literalSource := by
  rfl

theorem measured_literalSource : literalSource.Measured := by
  have hw : literalTree.WellFormed literalText := by decide
  exact (Source.wellFormed_ofTree ofTree_literalTree hw).measured

theorem escapesFormed_literalSource : literalSource.EscapesFormed := by
  have hwalked : literalTree.nodes.filter (·.symbol = .escapeSequence) =
      literalTree.walk.filter (·.symbol = .escapeSequence) := rfl
  have hspelled : ∀ e ∈ literalTree.nodes, e.symbol = .escapeSequence →
      (literalSource.charsOf e).toOption = some ['\\', 't'] := by decide
  constructor
  · intro e he hsymbol
    have hmem : e ∈ literalTree.nodes.filter (·.symbol = .escapeSequence) :=
      List.mem_filter.mpr ⟨he, decide_eq_true hsymbol⟩
    rw [hwalked] at hmem
    exact (List.mem_filter.mp hmem).1
  · intro e he hsymbol raw hraw
    have htab := hspelled e he hsymbol
    rw [hraw] at htab
    cases htab
    exact .single (by decide) (by decide) (by decide)

theorem keysPrint_literalTree : literalSource.KeysPrint literalTree := by
  have hone : ∀ m ∈ literalTree.nodes, ∀ key ∈ m.child? .key, key.symbol = .number →
      (literalSource.charsOf key).toOption.bind Number.read? = some (.integer 1) := by
    decide
  intro m hm _ key hkey hsymbol cs i hcs hread
  have hread' := hone m hm key hkey hsymbol
  rw [hcs] at hread'
  cases hread.symm.trans hread'
  exact Nat.one_lt_pow (by decide) (by decide)

/-- The value of the sample, the items of its list aside. -/
def isLiteralValue : Value → Bool
  | .object [(k, .number x), (l, .list items)] => k = Text.ofString "1" ∧ x = .integer 3 ∧
    l = Text.ofString "b" ∧ items.length = 3
  | _ => false

theorem eq_of_isLiteralValue {v : Value} (h : isLiteralValue v = true) :
    ∃ items, v = .object [(Text.ofString "1", .number (.integer 3)),
      (Text.ofString "b", .list items)] ∧ items.length = 3 := by
  unfold isLiteralValue at h
  split at h
  · simp only [decide_eq_true_eq] at h
    obtain ⟨rfl, rfl, rfl, hlength⟩ := h
    exact ⟨_, rfl, hlength⟩
  · cases h

end Sample

namespace Source

/-- The key that comes twice has its first place and its last value. -/
theorem value_denotes_sample :
    Sample.literalTree.nesting = 2 ∧ ∃ items,
      Sample.literalSource.Denotes Sample.literalTree (.object
        [(Text.ofString "1", .number (.integer 3)), (Text.ofString "b", .list items)]) ∧
      items.length = 3 := by
  have hnesting : Sample.literalTree.nesting ≤ 2 := by decide
  obtain ⟨r, hr, hdenotes, -⟩ := value_denotes Sample.ofTree_literalTree
    Sample.measured_literalSource Sample.escapesFormed_literalSource
    Sample.literalTree.self_mem_nodes hnesting Sample.keysPrint_literalTree
  have hcheck : (Sample.literalSource.valueWithin 2 Sample.literalTree).toOption.any
      (·.any Sample.isLiteralValue) = true := by
    decide +kernel
  obtain ⟨_, hvalue, hshape⟩ := exists_ok_of_any hcheck
  cases hr.symm.trans hvalue
  cases r with
  | none => cases hshape
  | some v =>
    obtain ⟨items, rfl, hlength⟩ := Sample.eq_of_isLiteralValue hshape
    exact ⟨by decide, items, (hdenotes _).mp rfl, hlength⟩

end Source
end SuiteOutline
