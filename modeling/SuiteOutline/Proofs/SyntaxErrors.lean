import Mathlib.Data.Nat.Digits.Defs
import SuiteOutline.Proofs.Escape
import SuiteOutline.Proofs.Position
import SuiteOutline.Proofs.Subtree
import SuiteOutline.Proofs.Translation

/-! Syntax errors are found where they are. The search for one leaves out what has none below it and
still ends at the first; escapes out of range are looked for only in trees without errors. -/
namespace SuiteOutline

/-- The first element of a list that has the property. -/
def IsFirst {α : Type} (p : α → Prop) (as : List α) (a : α) : Prop :=
  ∃ before behind, as = before ++ a :: behind ∧ p a ∧ ∀ b ∈ before, ¬p b

theorem IsFirst.mem {α : Type} {p : α → Prop} {as : List α} {a : α} (h : IsFirst p as a) :
    a ∈ as := by
  obtain ⟨before, behind, rfl, -⟩ := h
  simp

theorem IsFirst.holds {α : Type} {p : α → Prop} {as : List α} {a : α} (h : IsFirst p as a) :
    p a := by
  obtain ⟨-, -, -, ha, -⟩ := h
  exact ha

theorem isFirst_cons_of_not {α : Type} {p : α → Prop} {a b : α} {as : List α} (h : ¬p b)
    (hfirst : IsFirst p as a) : IsFirst p (b :: as) a := by
  obtain ⟨before, behind, rfl, ha, hbefore⟩ := hfirst
  exact ⟨b :: before, behind, rfl, ha, List.forall_mem_cons.mpr ⟨h, hbefore⟩⟩

namespace Node

theorem anyHasError_eq (cs : List Node) : anyHasError cs = cs.any hasError := by
  induction cs with
  | nil => rfl
  | cons c cs ih => rw [anyHasError, ih, List.any_cons]

theorem hasError_eq (n : Node) : n.hasError = (n.isFault || n.children.any hasError) := by
  cases n
  rw [hasError, anyHasError_eq]

/-- A tree has an error if one of its nodes marks one. -/
theorem hasError_iff {n : Node} : n.hasError = true ↔ ∃ m ∈ n.nodes, m.isFault = true := by
  induction n using childrenInduction with
  | node n ih =>
    rw [hasError_eq, Bool.or_eq_true, List.any_eq_true]
    constructor
    · intro h
      rcases h with h | ⟨c, hc, h⟩
      · exact ⟨n, n.self_mem_nodes, h⟩
      · obtain ⟨m, hm, hfault⟩ := (ih c hc).mp h
        exact ⟨m, mem_nodes_iff.mpr (.inr ⟨c, hc, hm⟩), hfault⟩
    · intro ⟨m, hm, hfault⟩
      rcases mem_nodes_iff.mp hm with rfl | ⟨c, hc, hm⟩
      · exact .inl hfault
      · exact .inr ⟨c, hc, (ih c hc).mpr ⟨m, hm, hfault⟩⟩

/-- The search from a stack finds the first fault in the trees on it, one after the other: where a
tree has no error, leaving it out changes nothing. -/
theorem firstErrorFrom_eq {fuel : Nat} {stack : List Node} (h : (stack.map size).sum ≤ fuel) :
    firstErrorFrom fuel stack = (stack.flatMap nodes).find? isFault := by
  -- each step takes one node off the stack, so the nodes below the stack bound the steps
  induction fuel generalizing stack with
  | zero =>
    cases stack with
    | nil => rfl
    | cons n stack =>
      rw [List.map_cons, List.sum_cons, size_eq] at h
      omega
  | succ fuel ih =>
    cases stack with
    | nil => rfl
    | cons n stack =>
      rw [List.map_cons, List.sum_cons, size_eq] at h
      rw [firstErrorFrom, List.flatMap_cons]
      by_cases hfault : n.isFault = true
      · rw [if_pos hfault, nodes_eq, List.cons_append, List.find?_cons_of_pos hfault]
      rw [if_neg hfault]
      by_cases herror : n.hasError = true
      · have hfuel : ((n.children ++ stack).map size).sum ≤ fuel := by
          rw [List.map_append, List.sum_append]
          omega
        rw [if_pos herror, ih hfuel, nodes_eq, List.cons_append, List.find?_cons_of_neg hfault,
          List.flatMap_append]
      · have hnone : n.nodes.find? isFault = none := by
          rw [List.find?_eq_none]
          intro m hm hfault
          exact herror (hasError_iff.mpr ⟨m, hm, hfault⟩)
        rw [if_neg herror, ih (by omega), List.find?_append, hnone, Option.none_or]

theorem firstError?_eq (n : Node) : n.firstError? = n.nodes.find? isFault := by
  rw [firstError?, firstErrorFrom_eq (by simp)]
  simp

/-- A tree with an error has a first one, and the search finds it. -/
theorem exists_firstError? {n : Node} (h : n.hasError = true) :
    ∃ bad, n.firstError? = some bad ∧ IsFirst (·.isFault = true) n.nodes bad := by
  obtain ⟨m, hm, hfault⟩ := hasError_iff.mp h
  cases hfound : n.firstError? with
  | none =>
    rw [firstError?_eq, List.find?_eq_none] at hfound
    exact absurd hfault (hfound m hm)
  | some bad =>
    rw [firstError?_eq] at hfound
    obtain ⟨hbad, before, behind, hsplit, hbefore⟩ := List.find?_eq_some_iff_append.mp hfound
    exact ⟨bad, rfl, before, behind, hsplit, hbad, fun m hm => by simpa using hbefore m hm⟩

end Node

/-! Escapes in braces. -/

/-- What a hexadecimal digit stands for, by its place in the alphabet: letters come twice. -/
def hexDigit (c : Char) : Nat :=
  let place := hexAlphabet.idxOf c
  if place < 16 then place else place - 6

def hexValue (ds : List Char) : Nat := Nat.ofDigits 16 (ds.map hexDigit).reverse

/-- An escape that spells a number above every code point, in braces. -/
def SpellsAbove (raw : List Char) : Prop :=
  ∃ ds, raw = Source.bracedEscape ++ ds ++ ['\x7d'] ∧ 0x10FFFF < hexValue ds

theorem ofDigits_eq (base : Nat) (ds : List Nat) :
    ofDigits base ds = Nat.ofDigits base ds.reverse := by
  rw [ofDigits, Nat.ofDigits_eq_foldr, List.foldr_reverse]
  congr 1
  funext n d
  rw [Nat.cast_id, Nat.mul_comm, Nat.add_comm]

theorem digit?_of_hexAlphabet {c : Char} (hc : c ∈ hexAlphabet) :
    digit? 16 c = some (hexDigit c) := by
  have hall : hexAlphabet.all (fun c => digit? 16 c = some (hexDigit c)) = true := by decide
  exact of_decide_eq_true (List.all_eq_true.mp hall c hc)

theorem digitRun?_of_hexAlphabet {ds : List Char} (hds : ∀ c ∈ ds, c ∈ hexAlphabet) {after : Bool}
    (hafter : after = true ∨ ds ≠ []) : digitRun? 16 after ds = some (ds.map hexDigit) := by
  induction ds generalizing after with
  | nil => simpa [digitRun?] using hafter
  | cons c ds ih =>
    obtain ⟨hc, hds⟩ := List.forall_mem_cons.mp hds
    have hmark : c ≠ '_' := (isPlainDigit_hex c hc).2.2.2.1
    rw [digitRun?, if_neg hmark, digit?_of_hexAlphabet hc, ih hds (.inl rfl)]
    rfl

/-- Hexadecimal digits are read as the number they spell. -/
theorem readInteger?_of_hexAlphabet {ds : List Char} (hds : ∀ c ∈ ds, c ∈ hexAlphabet)
    (hne : ds ≠ []) : readInteger? (.base 16) ds = some (hexValue ds : Int) := by
  have hrun : digitRun? 16 false ds = some (ds.map hexDigit) :=
    digitRun?_of_hexAlphabet hds (.inr hne)
  rw [readInteger?_of_run (by decide) hne (fun c hc => isPlainDigit_hex c (hds c hc)) hrun
    (List.length_map _), ofDigits_eq, hexValue]

/-- Only one of the grammar's forms begins as escapes in braces do. -/
theorem IsEscape.eq_braced {raw : List Char} (h : IsEscape raw)
    (hbraced : Source.bracedEscape <+: raw) :
    ∃ ds, raw = Source.bracedEscape ++ ds ++ ['\x7d'] ∧ (∀ c ∈ ds, c ∈ hexAlphabet) ∧ ds ≠ [] := by
  obtain ⟨rest, hrest⟩ := hbraced
  cases h with
  | single => simp [Source.bracedEscape] at hrest
  | @octal ds hds =>
    have hmem : 'u' ∈ ds := by
      rw [← (List.cons.inj hrest).2]
      exact List.mem_cons_self
    exact absurd (hds 'u' hmem) (by decide)
  | byte => simp [Source.bracedEscape] at hrest
  | @unit a b c d hhex =>
    have hbrace : '\x7b' = a := (List.cons.inj (List.cons.inj (List.cons.inj hrest).2).2).1
    exact absurd (hhex a List.mem_cons_self) (hbrace ▸ by decide)
  | @braced ds hds hne => exact ⟨ds, rfl, hds, hne⟩
  | @line c e hc =>
    have hletter : 'u' = c := (List.cons.inj (List.cons.inj hrest).2).1
    exact absurd hc (hletter ▸ by decide)

/-- Of the grammar's escapes those out of range are the ones that spell a number above every code
point; all others are passed. -/
theorem IsEscape.isOutOfRange_eq {raw : List Char} (h : IsEscape raw) :
    ∃ above, Source.isOutOfRange raw = .ok above ∧ (above = true ↔ SpellsAbove raw) := by
  by_cases hbraced : Source.bracedEscape <+: raw
  · obtain ⟨ds, rfl, hds, hne⟩ := h.eq_braced hbraced
    refine ⟨_, Source.isOutOfRange_braced (readInteger?_of_hexAlphabet hds hne), ?_⟩
    rw [decide_eq_true_iff]
    constructor
    · intro hlt
      exact ⟨ds, rfl, by omega⟩
    · rintro ⟨ds', hraw, hlt⟩
      rw [List.append_assoc, List.append_assoc, List.append_cancel_left_eq,
        List.append_cancel_right_eq] at hraw
      rw [hraw]
      omega
  · have hplain : ¬Source.bracedEscape.isPrefixOf raw = true := by
      rwa [List.isPrefixOf_iff_prefix]
    refine ⟨false, if_neg hplain, ?_⟩
    simp only [Bool.false_eq_true, false_iff]
    rintro ⟨ds, rfl, -⟩
    rw [List.append_assoc] at hbraced
    exact hbraced (List.prefix_append _ _)

namespace Source

variable {src : Source}

/-- The node is an escape sequence and spells a number above every code point. -/
def EscapesAbove (src : Source) (n : Node) : Prop :=
  n.symbol = .escapeSequence ∧ ∃ raw, src.charsOf n = .ok raw ∧ SpellsAbove raw

/-- Every escape sequence among the nodes can be read and is of one of the grammar's forms. -/
def EscapesRead (src : Source) (ns : List Node) : Prop :=
  ∀ e ∈ ns, e.symbol = .escapeSequence → ∃ raw, src.charsOf e = .ok raw ∧ IsEscape raw

theorem firstOutOfRange?_cons_of_escape {n : Node} {ns : List Node} {raw : List Char} {above : Bool}
    (hsymbol : n.symbol = .escapeSequence) (hraw : src.charsOf n = .ok raw)
    (habove : isOutOfRange raw = .ok above) :
    src.firstOutOfRange? (n :: ns) = if above then .ok (some n) else src.firstOutOfRange? ns := by
  rw [firstOutOfRange?, if_pos hsymbol, hraw]
  change (isOutOfRange raw >>= _) = _
  rw [habove]
  cases above <;> rfl

/-- The search among nodes ends at the first escape out of range, or finds none. -/
theorem firstOutOfRange?_eq {ns : List Node} (h : src.EscapesRead ns) :
    ∃ found, src.firstOutOfRange? ns = .ok found ∧
      (∀ e ∈ found, IsFirst src.EscapesAbove ns e) ∧
      (found = none → ∀ e ∈ ns, ¬src.EscapesAbove e) := by
  induction ns with
  | nil => exact ⟨none, rfl, by simp, by simp⟩
  | cons n ns ih =>
    obtain ⟨hn, hns⟩ := List.forall_mem_cons.mp h
    obtain ⟨found, hfound, hfirst, hnone⟩ := ih hns
    -- a node that is passed over leaves the search to the rest
    have hpass : ¬src.EscapesAbove n → (∀ e ∈ found, IsFirst src.EscapesAbove (n :: ns) e) ∧
        (found = none → ∀ e ∈ n :: ns, ¬src.EscapesAbove e) := fun hout =>
      ⟨fun e he => isFirst_cons_of_not hout (hfirst e he),
        fun he => List.forall_mem_cons.mpr ⟨hout, hnone he⟩⟩
    by_cases hsymbol : n.symbol = .escapeSequence
    · obtain ⟨raw, hraw, hescape⟩ := hn hsymbol
      obtain ⟨above, habove, hiff⟩ := hescape.isOutOfRange_eq
      have hiff : above = true ↔ src.EscapesAbove n := by
        rw [hiff]
        constructor
        · intro hspells
          exact ⟨hsymbol, raw, hraw, hspells⟩
        · rintro ⟨-, raw', hraw', hspells⟩
          obtain rfl : raw = raw' := Except.ok.inj (hraw.symm.trans hraw')
          exact hspells
      rw [firstOutOfRange?_cons_of_escape hsymbol hraw habove]
      cases above with
      | true =>
        refine ⟨some n, rfl, fun e he => ?_, nofun⟩
        obtain rfl : n = e := Option.some.inj he
        exact ⟨[], ns, rfl, hiff.mp rfl, by simp⟩
      | false => exact ⟨found, hfound, hpass fun hout => Bool.false_ne_true (hiff.mpr hout)⟩
    · rw [firstOutOfRange?, if_neg hsymbol]
      exact ⟨found, hfound, hpass fun hout => hsymbol hout.1⟩

theorem outOfRange?_eq (h : src.EscapesRead src.root.walk) :
    ∃ found, src.outOfRange? = .ok found ∧
      (∀ e ∈ found, IsFirst src.EscapesAbove src.root.walk e) ∧
      (found = none → ∀ e ∈ src.root.walk, ¬src.EscapesAbove e) := by
  unfold outOfRange?
  cases hoccurs : occursIn bracedEscape src.text.toList with
  | true => exact firstOutOfRange?_eq h
  | false =>
    have hout : ∀ e, ¬src.EscapesAbove e := by
      rintro e ⟨-, raw, hraw, ds, hspells, -⟩
      have hbegins : bracedEscape <+: raw := by
        rw [hspells, List.append_assoc]
        exact List.prefix_append _ _
      rw [occursIn_of_charsOf hraw hbegins] at hoccurs
      cases hoccurs
    exact ⟨none, rfl, by simp, fun _ e _ => hout e⟩

end Source

/-! Places in the text. -/

theorem exists_getElem?_offsetTable (index : Nat) {text : List Char} {byte : Nat}
    (h : byte ≤ utf8Length text) :
    ∃ k ≤ text.length, (offsetTable index text)[byte]? = some (index + k) := by
  induction text generalizing index byte with
  | nil =>
    obtain rfl : byte = 0 := by simpa using h
    exact ⟨0, Nat.le_refl _, rfl⟩
  | cons c cs ih =>
    rw [utf8Length_cons] at h
    rw [offsetTable]
    by_cases hfirst : byte < c.utf8Size
    · refine ⟨0, Nat.zero_le _, ?_⟩
      rw [List.getElem?_append_left (by simpa using hfirst),
        List.getElem?_replicate_of_lt hfirst, Nat.add_zero]
    · have hrest : byte - c.utf8Size ≤ utf8Length cs := by omega
      obtain ⟨k, hk, hentry⟩ := ih (index + 1) hrest
      refine ⟨k + 1, Nat.succ_le_succ hk, ?_⟩
      rw [List.getElem?_append_right (by simp; omega), List.length_replicate, hentry]
      congr 1
      omega

namespace Source

variable {src : Source}

theorem Indexed.exists_offset (hsrc : src.Indexed) {byte : Nat}
    (h : byte ≤ utf8Length src.text.toList) : ∃ k ≤ src.text.size, src.offset byte = .ok k := by
  obtain ⟨k, hk, hentry⟩ := exists_getElem?_offsetTable 0 h
  refine ⟨k, hk, ?_⟩
  rw [offset, hsrc, Offsets.get?_ofText_eq h, hentry, Nat.zero_add]

theorem SpansInText.exists_span (hspans : src.SpansInText) (hsrc : src.Indexed) {n : Node}
    (hn : n ∈ src.root.nodes) : ∃ span, src.spanOf n = .ok span ∧ span.start ≤ src.text.size := by
  obtain ⟨hle, hstop⟩ := hspans n hn
  obtain ⟨start, hsize, hstart⟩ := hsrc.exists_offset (Nat.le_trans hle hstop)
  obtain ⟨stop, -, hstop⟩ := hsrc.exists_offset hstop
  exact ⟨⟨start, stop⟩, spanOf_eq_ok.mpr ⟨hstart, hstop⟩, hsize⟩

theorem SpansInText.exists_charsOf (hspans : src.SpansInText) (hsrc : src.Indexed) {n : Node}
    (hn : n ∈ src.root.nodes) : ∃ raw, src.charsOf n = .ok raw := by
  obtain ⟨span, hspan, -⟩ := hspans.exists_span hsrc hn
  exact ⟨_, bind_eq_ok.mpr ⟨span, hspan, rfl⟩⟩

/-! Trees with errors. -/

/-- A text with its tree, before the tree is searched for errors. -/
def unchecked (filename : Option String) (text : List Char) (tree : Node) : Source :=
  ⟨filename, text.toArray, .ofText text, tree⟩

/-- The tree makes no source, and what is reported stands where the node starts. -/
def RejectedAt (filename : Option String) (text : List Char) (tree bad : Node) : Prop :=
  ∃ k fault, (unchecked filename text tree).startOf bad = .ok k ∧
    ofTree filename text tree = .error (.unparsed fault) ∧ fault.filename = filename ∧
    fault.StandsAt text k

variable {filename : Option String} {text : List Char} {tree : Node}

theorem rejectedAt_of_faultAt (hspans : (unchecked filename text tree).SpansInText) {bad : Node}
    (hbad : bad ∈ tree.nodes) (message : String)
    (h : ∀ k, (unchecked filename text tree).startOf bad = .ok k →
      ofTree filename text tree = .error ((unchecked filename text tree).faultAt k message)) :
    RejectedAt filename text tree bad := by
  obtain ⟨span, hspan, hsize⟩ := hspans.exists_span rfl hbad
  have hstart := (spanOf_eq_ok.mp hspan).1
  obtain ⟨fault, hfault, -, hfilename, hstands⟩ := standsAt_faultAt _ message hsize
  have hreject := h _ hstart
  rw [hfault] at hreject
  exact ⟨span.start, fault, hstart, hreject, hfilename, hstands⟩

theorem SpansInText.exists_errorMessage {src : Source} (hspans : src.SpansInText)
    (hsrc : src.Indexed) {bad : Node} (hbad : bad ∈ src.root.nodes) :
    ∃ message, src.errorMessage bad = .ok message := by
  obtain ⟨raw, hraw⟩ := hspans.exists_charsOf hsrc hbad
  unfold errorMessage
  split
  case isTrue => exact ⟨_, rfl⟩
  case isFalse =>
    simp only [bind_eq_ok, hraw]
    cases hword : firstWord? raw with
    | none => exact ⟨_, raw, rfl, by rw [hword]; rfl⟩
    | some word => exact ⟨_, raw, rfl, by rw [hword]; rfl⟩

/-- The search finds an error, so what is reported is never put at the root for want of one. -/
theorem rejectedAt_of_hasError (hspans : (unchecked filename text tree).SpansInText)
    (herror : tree.hasError = true) {bad : Node} (hfound : tree.firstError? = some bad)
    (hbad : bad ∈ tree.nodes) : RejectedAt filename text tree bad := by
  obtain ⟨message, hmessage⟩ := hspans.exists_errorMessage rfl hbad
  apply rejectedAt_of_faultAt hspans hbad message
  intro k hk
  unfold ofTree
  rw [unchecked] at hmessage hk
  simp only [herror, if_true, hfound, Option.getD_some, hmessage, hk]
  rfl

theorem rejectedAt_of_outOfRange? (hspans : (unchecked filename text tree).SpansInText)
    (herror : tree.hasError = false) {escape : Node}
    (hfound : (unchecked filename text tree).outOfRange? = .ok (some escape))
    (hescape : escape ∈ tree.nodes) : RejectedAt filename text tree escape := by
  apply rejectedAt_of_faultAt hspans hescape "Code point out of bounds"
  intro k hk
  unfold ofTree
  rw [unchecked] at hfound hk
  simp only [herror, Bool.false_eq_true, if_false, hfound]
  change (startOf _ escape >>= _) = _
  rw [hk]
  rfl

theorem ofTree_of_outOfRange? (herror : tree.hasError = false)
    (hnone : (unchecked filename text tree).outOfRange? = .ok none) :
    ofTree filename text tree = .ok (unchecked filename text tree) := by
  unfold ofTree
  rw [unchecked] at hnone
  simp only [herror, Bool.false_eq_true, if_false, hnone]
  rfl

/-- What becomes of a tree: its first error is reported, or else its first escape out of range, or
else it makes a source. -/
theorem ofTree_cases (hspans : (unchecked filename text tree).SpansInText)
    (hread : (unchecked filename text tree).EscapesRead tree.walk) :
    (tree.hasError = true ∧ ∃ bad, tree.firstError? = some bad ∧
      IsFirst (·.isFault = true) tree.nodes bad ∧ RejectedAt filename text tree bad) ∨
    (tree.hasError = false ∧ ∃ e, IsFirst (unchecked filename text tree).EscapesAbove tree.walk e ∧
      RejectedAt filename text tree e) ∨
    (tree.hasError = false ∧ (∀ e ∈ tree.walk, ¬(unchecked filename text tree).EscapesAbove e) ∧
      ofTree filename text tree = .ok (unchecked filename text tree)) := by
  cases herror : tree.hasError with
  | true =>
    obtain ⟨bad, hfound, hfirst⟩ := Node.exists_firstError? herror
    exact .inl ⟨rfl, bad, hfound, hfirst,
      rejectedAt_of_hasError hspans herror hfound hfirst.mem⟩
  | false =>
    obtain ⟨found, hfound, hfirst, hnone⟩ := outOfRange?_eq hread
    cases found with
    | none => exact .inr (.inr ⟨rfl, hnone rfl, ofTree_of_outOfRange? herror hfound⟩)
    | some e =>
      have hfirst := hfirst e rfl
      have hmem := (Node.reaches_of_mem_walk hfirst.mem).mem_nodes
      exact .inr (.inl ⟨rfl, e, hfirst, rejectedAt_of_outOfRange? hspans herror hfound hmem⟩)

/-- Syntax errors are found and placed exactly. A tree makes no source if it has a node that marks an
error, or, failing that, if the walk comes to an escape above every code point. What is reported is
the first of these nodes, each before its children: of the faults anonymous ones too, and the root is
never reported in place of one; of the escapes the first on the walk. -/
theorem syntaxErrors_exact (filename : Option String) (text : List Char) (tree : Node)
    (hspans : (unchecked filename text tree).SpansInText)
    (hescapes : ∀ e ∈ tree.walk, e.symbol = .escapeSequence →
      ∀ raw, (unchecked filename text tree).charsOf e = .ok raw → IsEscape raw) :
    ((∃ fault, ofTree filename text tree = .error (.unparsed fault)) ↔
      (∃ n ∈ tree.nodes, n.isFault = true) ∨ (¬∃ n ∈ tree.nodes, n.isFault = true) ∧
        ∃ e ∈ tree.walk, (unchecked filename text tree).EscapesAbove e) ∧
    (∀ failure, ofTree filename text tree = .error failure → ∃ fault, failure = .unparsed fault) ∧
    ((∃ n ∈ tree.nodes, n.isFault = true) → ∃ bad, tree.firstError? = some bad ∧
      IsFirst (·.isFault = true) tree.nodes bad ∧ RejectedAt filename text tree bad) ∧
    ((¬∃ n ∈ tree.nodes, n.isFault = true) →
      (∃ e ∈ tree.walk, (unchecked filename text tree).EscapesAbove e) →
      ∃ e, IsFirst (unchecked filename text tree).EscapesAbove tree.walk e ∧
        RejectedAt filename text tree e) := by
  have hread : (unchecked filename text tree).EscapesRead tree.walk := by
    intro e he hsymbol
    obtain ⟨raw, hraw⟩ := hspans.exists_charsOf rfl (Node.reaches_of_mem_walk he).mem_nodes
    exact ⟨raw, hraw, hescapes e he hsymbol raw hraw⟩
  rw [← Node.hasError_iff]
  rcases ofTree_cases hspans hread with ⟨herror, bad, hfound, hfirst, hreject⟩ |
    ⟨herror, e, hfirst, hreject⟩ | ⟨herror, hnone, hok⟩
  · obtain ⟨-, fault, -, hfault, -⟩ := id hreject
    refine ⟨iff_of_true ⟨fault, hfault⟩ (.inl herror), fun failure h => ⟨fault, ?_⟩,
      fun _ => ⟨bad, hfound, hfirst, hreject⟩, fun hnot => absurd herror hnot⟩
    exact (Except.error.inj (hfault.symm.trans h)).symm
  · obtain ⟨-, fault, -, hfault, -⟩ := id hreject
    have hnot : ¬tree.hasError = true := Bool.not_eq_true _ ▸ herror
    refine ⟨iff_of_true ⟨fault, hfault⟩ (.inr ⟨hnot, e, hfirst.mem, hfirst.holds⟩),
      fun failure h => ⟨fault, ?_⟩, fun h => absurd h hnot, fun _ _ => ⟨e, hfirst, hreject⟩⟩
    exact (Except.error.inj (hfault.symm.trans h)).symm
  · have hnot : ¬tree.hasError = true := Bool.not_eq_true _ ▸ herror
    rw [hok]
    refine ⟨iff_of_false (fun ⟨_, h⟩ => ?_) ?_, fun _ h => ?_, fun h => absurd h hnot,
      fun _ ⟨e, he, habove⟩ => absurd habove (hnone e he)⟩
    · cases h
    · rintro (h | ⟨-, e, he, habove⟩)
      · exact hnot h
      · exact hnone e he habove
    · cases h

end Source

/-! A call that is not closed, with a stray sign behind it, and two escapes. -/
namespace Sample

def unclosedText : List Char := "é(\n#".toList

/-- The bracket that is put in is an anonymous node. -/
def unclosedTree : Node :=
  node none (.other "program") 0 5
    [node none .expressionStatement 0 3
      [node none .callExpression 0 3
        [node (some .function) .identifier 0 2 [],
         node (some .arguments) .arguments 2 3
          [token (.other "(") 2 3, ⟨.other ")", ⟨3, 3⟩, none, false, true, []⟩]]],
     node none .error 4 5 []]

def escapesText : List Char := "é;'\\u\x7b41\x7d\\u\x7b110000\x7d'".toList

/-- The escape that is in range. -/
def letterEscape : Node := node none .escapeSequence 4 10 []

def highEscape : Node := node none .escapeSequence 10 20 []

def escapesTree : Node :=
  node none (.other "program") 0 21
    [node none .expressionStatement 0 3 [node none .identifier 0 2 []],
     node none .expressionStatement 3 21 [node none .string 3 21 [letterEscape, highEscape]]]

theorem mem_and_symbol_iff {ns found : List Node} {symbol : Symbol}
    (h : ns.filter (fun n => decide (n.symbol = symbol)) = found) {n : Node} :
    n ∈ ns ∧ n.symbol = symbol ↔ n ∈ found := by
  rw [← h, List.mem_filter, decide_eq_true_iff]

theorem escape_mem_walk {e : Node} : e ∈ escapesTree.walk ∧ e.symbol = .escapeSequence ↔
    e = letterEscape ∨ e = highEscape := by
  have hfilter : escapesTree.walk.filter (fun e => decide (e.symbol = .escapeSequence)) =
      [letterEscape, highEscape] := rfl
  rw [mem_and_symbol_iff hfilter, List.mem_cons, List.mem_singleton]

theorem charsOf_letterEscape :
    (Source.unchecked none escapesText escapesTree).charsOf letterEscape =
      .ok (Source.bracedEscape ++ ['4', '1'] ++ ['\x7d']) := by decide

theorem charsOf_highEscape :
    (Source.unchecked none escapesText escapesTree).charsOf highEscape =
      .ok (Source.bracedEscape ++ "110000".toList ++ ['\x7d']) := by decide

theorem isEscape_letterEscape : IsEscape (Source.bracedEscape ++ ['4', '1'] ++ ['\x7d']) := by
  have hhex : ['4', '1'] ⊆ hexAlphabet := by decide
  exact .braced (fun _ hc => hhex hc) (by decide)

theorem isEscape_highEscape : IsEscape (Source.bracedEscape ++ "110000".toList ++ ['\x7d']) := by
  have hhex : "110000".toList ⊆ hexAlphabet := by decide
  exact .braced (fun _ hc => hhex hc) (by decide)

end Sample

/-- The call lacks its bracket at the third character; of the escapes the second is reported. -/
theorem Source.syntaxErrors_exact_sample :
    (∃ fault, ofTree none Sample.unclosedText Sample.unclosedTree = .error (.unparsed fault) ∧
      fault.line = 1 ∧ fault.column = 3) ∧
    ∃ fault, ofTree none Sample.escapesText Sample.escapesTree = .error (.unparsed fault) ∧
      fault.line = 1 ∧ fault.column = 10 := by
  constructor
  · have hspans : (unchecked none Sample.unclosedText Sample.unclosedTree).SpansInText := by
      unfold SpansInText
      decide
    have hplain : ∀ e ∈ Sample.unclosedTree.walk, e.symbol ≠ .escapeSequence := by decide
    obtain ⟨-, -, hfirst, -⟩ :=
      syntaxErrors_exact none Sample.unclosedText Sample.unclosedTree hspans
        fun e he hsymbol => absurd hsymbol (hplain e he)
    obtain ⟨bad, hbad, -, k, fault, hk, hfault, -, hstands⟩ := hfirst (by decide)
    cases hbad
    obtain rfl : 2 = k := Except.ok.inj hk
    have hplace : Position.locate Sample.unclosedText 2 = .ok ⟨1, 3⟩ :=
      Position.locate_eq_ok.mpr ⟨2, rfl, by decide, by decide⟩
    exact ⟨fault, hfault, hstands.eq_of_locate hplace⟩
  · have hspans : (unchecked none Sample.escapesText Sample.escapesTree).SpansInText := by
      unfold SpansInText
      decide
    have hescapes : ∀ e ∈ Sample.escapesTree.walk, e.symbol = .escapeSequence →
        ∀ raw, (unchecked none Sample.escapesText Sample.escapesTree).charsOf e = .ok raw →
          IsEscape raw := by
      intro e he hsymbol raw hraw
      rcases Sample.escape_mem_walk.mp ⟨he, hsymbol⟩ with rfl | rfl
      · cases Sample.charsOf_letterEscape.symm.trans hraw
        exact Sample.isEscape_letterEscape
      · cases Sample.charsOf_highEscape.symm.trans hraw
        exact Sample.isEscape_highEscape
    obtain ⟨-, -, -, hfirst⟩ :=
      syntaxErrors_exact none Sample.escapesText Sample.escapesTree hspans hescapes
    obtain ⟨e, hfirst, k, fault, hk, hfault, -, hstands⟩ := hfirst (by decide)
      ⟨Sample.highEscape, (Sample.escape_mem_walk.mpr (.inr rfl)).1, rfl, _,
        Sample.charsOf_highEscape, _, rfl, by decide⟩
    obtain ⟨hsymbol, raw, hraw, hspells⟩ := hfirst.holds
    rcases Sample.escape_mem_walk.mp ⟨hfirst.mem, hsymbol⟩ with rfl | rfl
    · cases Sample.charsOf_letterEscape.symm.trans hraw
      obtain ⟨above, habove, hiff⟩ := Sample.isEscape_letterEscape.isOutOfRange_eq
      obtain rfl : false = above := Except.ok.inj habove
      cases hiff.mpr hspells
    · obtain rfl : 9 = k := Except.ok.inj hk
      have hplace : Position.locate Sample.escapesText 9 = .ok ⟨1, 10⟩ :=
        Position.locate_eq_ok.mpr ⟨9, rfl, by decide, by decide⟩
      exact ⟨fault, hfault, hstands.eq_of_locate hplace⟩

end SuiteOutline
