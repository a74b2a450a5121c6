import SuiteOutline.Proofs.ReplicaOutline
import SuiteOutline.Proofs.WellFormed

/-! Outlines move with the text: put behind another text, a source has the same outline, with every
offset larger by the number of characters in front. Offsets in the tree are in bytes, and the
characters in front may turn an ASCII text into one that is not. -/
namespace SuiteOutline

namespace Node

mutual
/-- The tree with every span so many bytes later. -/
def shift (d : Nat) : Node → Node
  | ⟨symbol, span, role, named, missing, children⟩ =>
    ⟨symbol, span.shift d, role, named, missing, shiftAll d children⟩

def shiftAll (d : Nat) : List Node → List Node
  | [] => []
  | c :: cs => shift d c :: shiftAll d cs
end

theorem shiftAll_eq (d : Nat) (cs : List Node) : shiftAll d cs = cs.map (shift d) := by
  induction cs with
  | nil => rfl
  | cons c cs ih => rw [shiftAll, ih, List.map_cons]

theorem shift_eq (d : Nat) (n : Node) :
    n.shift d = { n with span := n.span.shift d, children := n.children.map (shift d) } := by
  cases n
  rw [shift, shiftAll_eq]

theorem start_shift (d : Nat) (n : Node) : (n.shift d).start = n.start + d := by
  rw [shift_eq]
  rfl

theorem stop_shift (d : Nat) (n : Node) : (n.shift d).stop = n.stop + d := by
  rw [shift_eq]
  rfl

end Node

/-! Both ways to convert an offset agree, and conversion moves along with the text. -/

theorem offsetTable_add (index d : Nat) (text : List Char) :
    offsetTable (index + d) text = (offsetTable index text).map (· + d) := by
  induction text generalizing index with
  | nil => rfl
  | cons c cs ih =>
    rw [offsetTable, offsetTable, List.map_append, List.map_replicate, ← ih, Nat.add_right_comm]

theorem getElem?_offsetTable_append (index byte : Nat) (front text : List Char) :
    (offsetTable index (front ++ text))[byte + utf8Length front]? =
      ((offsetTable index text)[byte]?).map (· + front.length) := by
  induction front generalizing index with
  | nil => simp
  | cons c cs ih =>
    have hskip : byte + utf8Length (c :: cs) =
        (List.replicate c.utf8Size index).length + (byte + utf8Length cs) := by
      rw [utf8Length_cons, List.length_replicate]
      omega
    rw [List.cons_append, offsetTable, hskip, List.getElem?_append_right (Nat.le_add_right _ _),
      Nat.add_sub_cancel_left, ih, offsetTable_add, List.getElem?_map, Option.map_map]
    congr 1
    funext k
    simp only [Function.comp_apply, List.length_cons]
    omega

theorem Offsets.get?_ofText_eq {text : List Char} {byte : Nat} (hbyte : byte ≤ utf8Length text) :
    (Offsets.ofText text).get? byte = (offsetTable 0 text)[byte]? := by
  unfold Offsets.ofText
  split
  case isTrue h =>
    have hlength := utf8Length_of_ascii h
    have htake : (text.take byte).all (·.toNat < 0x80) = true := by
      rw [List.all_eq_true] at h ⊢
      exact fun c hc => h c (List.mem_of_mem_take hc)
    have hbytes : utf8Length (text.take byte) = byte := by
      rw [utf8Length_of_ascii htake, List.length_take]
      omega
    have hle : byte ≤ text.length := by omega
    have htable := getElem?_offsetTable 0 hle
    rw [hbytes, Nat.zero_add] at htable
    rw [htable]
    rfl
  case isFalse => rw [Offsets.get?, List.getElem?_toArray]

theorem Offsets.get?_ofText_append (front : List Char) {text : List Char} {byte : Nat}
    (hbyte : byte ≤ utf8Length text) :
    (Offsets.ofText (front ++ text)).get? (byte + utf8Length front) =
      ((Offsets.ofText text).get? byte).map (· + front.length) := by
  have hsum : byte + utf8Length front ≤ utf8Length (front ++ text) := by
    rw [utf8Length_append]
    omega
  rw [get?_ofText_eq hsum, get?_ofText_eq hbyte, getElem?_offsetTable_append]

namespace Source

variable (src : Source)

/-- The source with a text put in front of its own. -/
def after (front : List Char) : Source where
  filename := src.filename
  text := (front ++ src.text.toList).toArray
  offsets := .ofText (front ++ src.text.toList)
  root := src.root.shift (utf8Length front)

/-- The nodes stand in the text. -/
def SpansInText : Prop :=
  ∀ n ∈ src.root.nodes, n.start ≤ n.stop ∧ n.stop ≤ utf8Length src.text.toList

variable {src}

theorem Indexed.offset_after (hsrc : src.Indexed) (front : List Char) {byte : Nat}
    (hbyte : byte ≤ utf8Length src.text.toList) :
    (src.after front).offset (byte + utf8Length front) =
      carry front.length (· + front.length) (src.offset byte) := by
  have hget : (src.after front).offsets.get? (byte + utf8Length front) =
      ((Offsets.ofText src.text.toList).get? byte).map (· + front.length) :=
    Offsets.get?_ofText_append front hbyte
  rw [← hsrc] at hget
  unfold offset
  rw [hget]
  cases src.offsets.get? byte <;> rfl

theorem slice_after (front : List Char) (start stop : Nat) :
    (src.after front).slice (start + front.length) (stop + front.length) =
      src.slice start stop := by
  unfold slice
  rw [Array.toList_extract, Array.toList_extract]
  change (front ++ src.text.toList).extract _ _ = _
  rw [List.extract_eq_take_drop, List.extract_eq_take_drop, Nat.add_comm start,
    ← List.drop_drop, List.drop_left]
  congr 1
  omega

section

variable (hsrc : src.Indexed) (hspans : src.SpansInText) (front : List Char) {n : Node}
  (hn : n ∈ src.root.nodes)
include hsrc hspans hn

theorem startOf_after :
    (src.after front).startOf (n.shift (utf8Length front)) =
      carry front.length (· + front.length) (src.startOf n) := by
  obtain ⟨hle, hstop⟩ := hspans n hn
  unfold startOf
  rw [n.start_shift]
  exact hsrc.offset_after front (Nat.le_trans hle hstop)

theorem stopOf_after :
    (src.after front).stopOf (n.shift (utf8Length front)) =
      carry front.length (· + front.length) (src.stopOf n) := by
  unfold stopOf
  rw [n.stop_shift]
  exact hsrc.offset_after front (hspans n hn).2

/-- A string or template that ends at the very front would be read differently: what stands between
its quotes is then taken to reach to the end of the whole text. -/
theorem inside_after (hstop : src.stopOf n ≠ .ok 0) :
    (src.after front).inside (n.shift (utf8Length front)) =
      carry front.length (·.shift front.length) (src.inside n) := by
  have hspan : (src.after front).spanOf (n.shift (utf8Length front)) =
      carry front.length (·.shift front.length) (src.spanOf n) := by
    unfold spanOf
    refine bind_carry (startOf_after hsrc hspans front hn) fun start => ?_
    exact bind_carry (stopOf_after hsrc hspans front hn) fun stop => rfl
  unfold inside
  rw [hspan]
  cases hplace : src.spanOf n with
  | error e => rfl
  | ok place =>
    have hpos : place.stop ≠ 0 := by
      intro h
      rw [(spanOf_eq_ok.mp hplace).2, h] at hstop
      exact hstop rfl
    have hpos' : place.stop + front.length ≠ 0 := by omega
    change Except.ok (Span.mk (place.start + front.length + 1)
        ((if place.stop + front.length = 0 then _ else place.stop + front.length) - 1)) =
      Except.ok (Span.shift front.length
        ⟨place.start + 1, (if place.stop = 0 then _ else place.stop) - 1⟩)
    simp only [if_neg hpos, if_neg hpos', Span.shift, Except.ok.injEq, Span.mk.injEq]
    omega

end

end Source

/-- A source behind another text looks like the source. -/
def Replica.after {src : Source} (hsrc : src.Indexed) (hspans : src.SpansInText)
    (hquoted : ∀ n ∈ src.root.nodes, n.isQuoted = true → src.stopOf n ≠ .ok 0)
    (front : List Char) : Replica src (src.after front) where
  node := Node.shift (utf8Length front)
  shift := front.length
  Met := (· ∈ src.root.nodes)
  filename := rfl
  symbol n := by rw [n.shift_eq]
  role n := by rw [n.shift_eq]
  named n := by rw [n.shift_eq]
  children {n} hn := by
    rw [n.shift_eq]
    exact .of_forall fun c => Node.mem_nodes_of_child hn
  startOf := Source.startOf_after hsrc hspans front
  stopOf := Source.stopOf_after hsrc hspans front
  slice := Source.slice_after front
  inside {n} hn hq := Source.inside_after hsrc hspans front hn (hquoted n hn hq)

namespace Sample

/-- A call whose argument is a string of no width at the front of the text. -/
def collapsed : Source where
  filename := none
  text := "cy.a()".toList.toArray
  offsets := .ofText "cy.a()".toList
  root := node none (.other "program") 0 6
    [node none .callExpression 0 6
      [node (some .function) .memberExpression 0 4
        [node (some .object) .identifier 0 2 [], node (some .property) .propertyIdentifier 3 4 []],
       node (some .arguments) .arguments 4 6 [node none .string 0 0 []]]]

end Sample

namespace Context

/-- How many characters each text among the arguments of commands has. -/
def literalLengths (o : Outline) : List Nat :=
  (o.used.getD []).flatMap fun u => u.literals.map fun l =>
    match l.2 with
    | .text t => t.length
    | _ => 0

/-- Outlines do not move with the text if a string of no width stands at its front: its value is
read up to the end of the text there, and is empty anywhere else. -/
theorem not_forall_outline_after :
    ¬ ∀ (src : Source) (front : List Char) (options : Options) (v : Vocabulary) (room : Room),
      src.Indexed → src.SpansInText →
      (outline ⟨src.after front, options, v, room⟩).outcome =
        carry front.length (·.shift front.length) (outline ⟨src, options, v, room⟩).outcome := by
  intro h
  have hspans : Sample.collapsed.SpansInText := by
    unfold Source.SpansInText
    decide
  have hsame := congrArg (fun x => x.toOption.map literalLengths)
    (h Sample.collapsed [' '] {} {} .worker rfl hspans)
  revert hsame
  decide

/-- Outlines move with the text: behind another text a source has the same outline with every offset
larger by the number of characters in front, or fails in the same way. -/
theorem outline_after {src : Source} (hsrc : src.Indexed) (hspans : src.SpansInText)
    (hquoted : ∀ n ∈ src.root.nodes, n.isQuoted = true → src.stopOf n ≠ .ok 0)
    (front : List Char) (options : Options) (v : Vocabulary) (room : Room) :
    (outline ⟨src.after front, options, v, room⟩).outcome =
      carry front.length (·.shift front.length) (outline ⟨src, options, v, room⟩).outcome :=
  (Replica.after hsrc hspans hquoted front).outline_replica options v room
    src.root.self_mem_nodes rfl

/-- The sample behind a line with a letter of two bytes. -/
theorem outline_after_sample :
    Sample.source.Indexed ∧ Sample.source.SpansInText ∧
      (∀ n ∈ Sample.source.root.nodes, n.isQuoted = true → Sample.source.stopOf n ≠ .ok 0) ∧
      ∃ o, (outline ⟨Sample.source.after "// ü\n".toList, {}, {}, .worker⟩).outcome = .ok o ∧
        o.tests.map (·.map fun t => (t.span, t.scope.map (·.span))) =
          some [(⟨5, 40⟩, [⟨5, 40⟩])] ∧
        carry 5 (·.shift 5) (outline ⟨Sample.source, {}, {}, .worker⟩).outcome = .ok o := by
  have hsrc : Sample.source.Indexed := rfl
  have hspans : Sample.source.SpansInText := by
    unfold Source.SpansInText
    decide
  have hquoted : ∀ n ∈ Sample.source.root.nodes, n.isQuoted = true →
      Sample.source.stopOf n ≠ .ok 0 := by
    decide
  have hcheck : (outline
      ⟨Sample.source.after "// ü\n".toList, {}, {}, .worker⟩).outcome.toOption.any
      (fun o => o.tests.map (·.map fun t => (t.span, t.scope.map (·.span))) =
        some [(⟨5, 40⟩, [⟨5, 40⟩])]) = true := by
    decide
  obtain ⟨o, ho, htests⟩ := exists_ok_of_any hcheck
  have hmoved := outline_after hsrc hspans hquoted "// ü\n".toList {} {} .worker
  exact ⟨hsrc, hspans, hquoted, o, ho, of_decide_eq_true htests, hmoved.symm.trans ho⟩

end Context
end SuiteOutline
