import SuiteOutline.Proofs.Denotes
import SuiteOutline.Proofs.Numeral
import SuiteOutline.Scope

/-! Names, keys and values are always read, but for one reason: an integer that is spelled in few
letters may take more decimal digits than are ever written. -/
namespace SuiteOutline

/-- A computation fails for no other reasons than these. -/
def FailsOnly {α : Type} (x : Except Failure α) (P : Failure → Prop) : Prop :=
  ∀ e, x = .error e → P e

namespace FailsOnly

variable {α β : Type} {x : Except Failure α} {P Q : Failure → Prop}

theorem ok (a : α) : FailsOnly (.ok a) P := nofun

theorem of_ok (h : ∃ a, x = .ok a) : FailsOnly x P := by
  obtain ⟨a, rfl⟩ := h
  exact ok a

theorem mono (h : FailsOnly x P) (hPQ : ∀ e, P e → Q e) : FailsOnly x Q :=
  fun e he => hPQ e (h e he)

theorem bind {f : α → Except Failure β} (hx : FailsOnly x P)
    (hf : ∀ a, x = .ok a → FailsOnly (f a) P) : FailsOnly (x >>= f) P := by
  intro e he
  cases x with
  | error e' => exact hx e (congrArg Except.error (Except.error.inj he))
  | ok a => exact hf a rfl e he

theorem map (h : FailsOnly x P) (f : α → β) : FailsOnly (x.map f) P := by
  intro e he
  cases x with
  | error e' => exact h e (congrArg Except.error (Except.error.inj he))
  | ok a => cases he

theorem getD {ι : Type} {o : Option ι} {f : ι → Except Failure α} {a : α}
    (h : ∀ i, o = some i → FailsOnly (f i) P) : FailsOnly ((o.map f).getD (.ok a)) P := by
  cases o with
  | none => exact ok a
  | some i => exact h i rfl

theorem consValue {head : Except Failure (Option α)} {tail : Except Failure (Option (List α))}
    (hhead : FailsOnly head P) (htail : FailsOnly tail P) : FailsOnly (consValue head tail) P := by
  refine hhead.bind fun r _ => ?_
  cases r with
  | none => exact ok none
  | some a => exact htail.bind fun rest _ => ok _

end FailsOnly

/-- A number can be written unless it is an integer of too many digits. -/
theorem Source.numberText_eq_error {x : Number} {e : Failure} :
    numberText x = .error e ↔
      e = .tooManyDigits ∧ ∃ i, x = .integer i ∧ 10 ^ digitLimit ≤ i.natAbs := by
  unfold numberText
  cases x with
  | real y => simp [Number.text?]
  | integer i =>
    rw [Number.text?, writeInteger?, Nat.pow_eq]
    by_cases hshort : i.natAbs < 10 ^ digitLimit
    · have hle : ¬10 ^ digitLimit ≤ i.natAbs := by omega
      simp [hshort, hle]
    · have hle : 10 ^ digitLimit ≤ i.natAbs := by omega
      simp [hshort, hle, eq_comm]

/-- The node of which an object member takes its name; a computed key is none of those that are
read. -/
def Node.keyNode? (m : Node) : Option Node :=
  match m.symbol with
  | .pair => m.child? .key
  | .methodDefinition => m.child? .name
  | _ => none

namespace Source

variable (src : Source)

/-- A number that can be read, but is an integer of too many digits to be written. -/
def Unwritable (n : Node) : Prop :=
  n.symbol = .number ∧ ∃ cs i, src.charsOf n = .ok cs ∧ Number.read? cs = some (.integer i) ∧
    10 ^ digitLimit ≤ i.natAbs

/-- A pair has a key that cannot be written. -/
def HasUnwritableKey (n : Node) : Prop :=
  ∃ m ∈ n.nodes, m.symbol = .pair ∧ ∃ key, m.child? .key = some key ∧ src.Unwritable key

variable {src}

theorem HasUnwritableKey.mono {n m : Node} (h : src.HasUnwritableKey m) (hm : m ∈ n.nodes) :
    src.HasUnwritableKey n := by
  obtain ⟨k, hk, hkey⟩ := h
  exact ⟨k, Node.mem_nodes_trans hm hk, hkey⟩

theorem not_unwritable {n : Node} (h : n.symbol ≠ .number) : ¬src.Unwritable n :=
  fun hn => h hn.1

/-- The number that a node spells is unwritable if the node is. -/
theorem unwritable_iff {n : Node} (h : n.symbol = .number) {cs : List Char}
    (hcs : src.charsOf n = .ok cs) :
    src.Unwritable n ↔
      ∃ i, Number.read? cs = some (.integer i) ∧ 10 ^ digitLimit ≤ i.natAbs := by
  constructor
  · rintro ⟨-, cs', i, hcs', hread, hlong⟩
    cases hcs.symm.trans hcs'
    exact ⟨i, hread, hlong⟩
  · rintro ⟨i, hread, hlong⟩
    exact ⟨h, cs, i, hcs, hread, hlong⟩

theorem map_some_eq_error {α : Type} {x : Except Failure α} {e : Failure} :
    x.map some = .error e ↔ x = .error e := by
  cases x <;> simp [Except.map]

section

variable {n : Node} (hsrc : src.Legible) (hn : n ∈ src.root.nodes)
include hsrc hn

/-- Parentheses aside, a literal has the value that it stands for. -/
theorem Legible.literalValue_settles : Settles (src.literalValue n) (src.LiteralOf n.unwrap) := by
  have hmem : n.unwrap ∈ src.root.nodes := Node.mem_nodes_unwrap hn
  have hunwrap : src.literalValue n.unwrap = src.literalValue n := by
    unfold literalValue
    simp only [Node.unwrap_unwrap]
  rw [← hunwrap]
  exact settles_literalValue hsrc hmem n.unwrap_unwrap

theorem Legible.keyName_eq_error {e : Failure} :
    src.keyName n = .error e ↔ e = .tooManyDigits ∧ src.Unwritable n := by
  by_cases hsymbol : n.symbol = .number
  case neg =>
    -- only a number is written, and all else can be read
    obtain ⟨r, hr, -⟩ := settles_keyName hsrc hn fun h => absurd h hsymbol
    simp [hr, not_unwritable hsymbol]
  case pos =>
    obtain ⟨cs, hcs⟩ := hsrc.charsOf_ok hn
    rw [unwritable_iff hsymbol hcs, keyName_of_number hsymbol hcs]
    cases hread : Number.read? cs with
    | none => simp
    | some x =>
      simp only [Option.elim_some, map_some_eq_error, numberText_eq_error, Option.some.injEq]

theorem Legible.memberName_eq_error {e : Failure} :
    src.memberName n = .error e ↔
      e = .tooManyDigits ∧ ∃ key, n.keyNode? = some key ∧ src.Unwritable key := by
  have hkey : ∀ role, (n.child? role).elim (.ok none) src.keyName = .error e ↔
      e = .tooManyDigits ∧ ∃ key, n.child? role = some key ∧ src.Unwritable key := by
    intro role
    cases hchild : n.child? role with
    | none => simp
    | some key =>
      have hmem : key ∈ src.root.nodes := Node.mem_nodes_of_child? hn hchild
      simpa using hsrc.keyName_eq_error hmem
  obtain ⟨cs, hcs⟩ := hsrc.charsOf_ok hn
  unfold memberName Node.keyNode?
  cases hsymbol : n.symbol with
  | pair => exact hkey .key
  | methodDefinition => exact hkey .name
  | shorthandPropertyIdentifier => simp [hcs, Except.map]
  | _ => simp

end

/-! Templates have a text, or none, in every source: nothing in them is ever written as a number. -/

theorem Legible.templateFrom_ok (hsrc : src.Legible) (strict : Bool) {cs : List Node}
    (hcs : ∀ c ∈ cs, c ∈ src.root.nodes) (cursor stop : Nat) :
    ∃ r, src.templateFrom strict cursor stop cs = .ok r := by
  induction cs generalizing cursor with
  | nil => exact ⟨_, rfl⟩
  | cons c cs ih =>
    obtain ⟨hc, hcs⟩ := List.forall_mem_cons.mp hcs
    by_cases hsub : c.isSubstitution = true
    · obtain ⟨place, hplace⟩ := hsrc.measured c hc
      cases he : c.members.head? with
      | none => exact ⟨none, templateFrom_empty strict cursor stop cs hsub hplace he⟩
      | some e =>
        obtain ⟨shown, hshown⟩ := hsrc.charsOf_ok (Node.mem_nodes_unwrap_of_head hc he)
        obtain ⟨rest, hrest⟩ := ih hcs place.stop
        rw [templateFrom_cons strict cursor stop hsub hplace he hshown, hrest]
        split
        · exact ⟨_, rfl⟩
        · exact ⟨none, rfl⟩
    · rw [templateFrom_skip strict cursor stop cs hsub]
      exact ih hcs cursor

theorem Legible.template_ok (hsrc : src.Legible) (strict : Bool) {n : Node}
    (hn : n ∈ src.root.nodes) : ∃ r, src.template strict n = .ok r := by
  have hmem : n.unwrap ∈ src.root.nodes := Node.mem_nodes_unwrap hn
  obtain ⟨place, hplace⟩ := hsrc.inside_ok hmem
  have hchildren : ∀ c ∈ n.unwrap.children, c ∈ src.root.nodes := fun c =>
    Node.mem_nodes_of_child hmem
  obtain ⟨r, hr⟩ := hsrc.templateFrom_ok strict hchildren place.start place.stop
  exact ⟨r.map Text.ofChars, by rw [template_of_inside strict hplace, hr]; rfl⟩

/-! Names of tests and suites. -/

theorem Legible.nameFrom_eq_error (hsrc : src.Legible) {arg : Node} (harg : arg ∈ src.root.nodes)
    {e : Failure} :
    src.nameFrom arg = .error e ↔ e = .tooManyDigits ∧ src.Unwritable arg.unwrap := by
  have hmem : arg.unwrap ∈ src.root.nodes := Node.mem_nodes_unwrap harg
  obtain ⟨cs, hcs⟩ := hsrc.charsOf_ok hmem
  by_cases hsymbol : arg.unwrap.symbol = .number
  case pos =>
    have hkind : arg.kind = .literal := by simp [Node.kind, hsymbol, Kind.ofSymbol]
    have hvalue : src.literalValue arg = .ok ((Number.read? cs).map Value.number) := by
      simp [literalValue, hsymbol, hcs, Except.map]
    rw [unwritable_iff hsymbol hcs, nameFrom, hkind, hvalue]
    simp only [Bind.bind, Except.bind]
    cases hread : Number.read? cs with
    | none => simp [pure, Except.pure]
    | some x =>
      simp only [Option.map_some, displayed, map_some_eq_error, numberText_eq_error,
        Option.some.injEq]
  case neg =>
    have hok : ∃ r, src.nameFrom arg = .ok r := by
      unfold nameFrom
      cases hkind : arg.kind with
      | literal =>
        obtain ⟨v, hv, hliteral⟩ := hsrc.literalValue_settles harg
        rw [hv]
        cases v with
        | none => exact ⟨none, rfl⟩
        | some v =>
          cases v with
          | number x =>
            -- no other node than a number stands for a number
            cases (hliteral _).mp rfl with
            | number h => exact absurd h hsymbol
          | _ => exact ⟨_, rfl⟩
      | template => exact hsrc.template_ok false harg
      | identifier => exact ⟨_, by rw [hcs]; rfl⟩
      | _ => exact ⟨none, rfl⟩
    obtain ⟨r, hr⟩ := hok
    simp [hr, not_unwritable hsymbol]

theorem Legible.scopeName_eq_error (hsrc : src.Legible) {call : Node}
    (hcall : call ∈ src.root.nodes) {e : Failure} :
    src.scopeName call = .error e ↔ e = .tooManyDigits ∧
      ∃ arg, call.callArguments.head? = some arg ∧ src.Unwritable arg.unwrap := by
  unfold scopeName
  cases hargs : call.callArguments with
  | nil => simp
  | cons arg rest =>
    have harg : call.Reaches arg := Node.reaches_callArguments (by simp [hargs])
    have hname := hsrc.nameFrom_eq_error (harg.mem_nodes_of_mem hcall) (e := e)
    have hbind : (src.nameFrom arg >>= fun name =>
        pure (name.getD (unparseable arg.kindName))) = .error e ↔ src.nameFrom arg = .error e := by
      cases src.nameFrom arg <;> simp [Bind.bind, Except.bind, pure, Except.pure]
    exact hbind.trans (by simpa using hname)

/-! Values. -/

theorem failsOnly_itemValues {room : Nat} {P : Failure → Prop} {cs : List Node}
    (h : ∀ c ∈ cs, FailsOnly (src.valueWithin room c) P) (expecting : Bool) :
    FailsOnly (src.itemValues room expecting cs) P := by
  induction expecting, cs using Node.slotInduction with
  | nil expecting => exact .ok _
  | skip expecting c cs hslot ih =>
    rw [itemValues_skip room expecting cs hslot]
    exact ih (List.forall_mem_cons.mp h).2
  | comma expecting c cs hcomma ih =>
    rw [itemValues_comma room expecting cs hcomma]
    cases expecting with
    | true => exact .ok _
    | false => exact ih (List.forall_mem_cons.mp h).2
  | item expecting c cs hitem ih =>
    obtain ⟨hc, hcs⟩ := List.forall_mem_cons.mp h
    rw [itemValues_item room expecting cs hitem]
    exact hc.consValue (ih hcs)

theorem failsOnly_entryValues {room : Nat} {P : Failure → Prop} {cs : List Node}
    (hname : ∀ c ∈ cs, c.symbol = .pair → FailsOnly (src.memberName c) P)
    (hvalue : ∀ c ∈ cs, ∀ e, c.child? .value = some e → FailsOnly (src.valueWithin room e) P) :
    FailsOnly (src.entryValues room cs) P := by
  induction cs with
  | nil => exact .ok _
  | cons c cs ih =>
    obtain ⟨hn, hname⟩ := List.forall_mem_cons.mp hname
    obtain ⟨hv, hvalue⟩ := List.forall_mem_cons.mp hvalue
    rw [entryValues_cons]
    split
    · exact ih hname hvalue
    split
    · exact .ok _
    case isFalse hpair =>
      refine (hn (Classical.not_not.mp hpair)).bind fun key _ => ?_
      cases key with
      | none => exact .ok _
      | some key => exact ((FailsOnly.getD hv).map _).consValue (ih hname hvalue)

/-- The value of an expression is only missed where the key of a pair in it cannot be written. -/
theorem Legible.failsOnly_valueWithin (hsrc : src.Legible) {n : Node} (hn : n ∈ src.root.nodes)
    (room : Nat) :
    FailsOnly (src.valueWithin room n) fun e => e = .tooManyDigits ∧ src.HasUnwritableKey n := by
  induction n using Node.belowInduction generalizing room with
  | node n ih =>
    have hbelow : ∀ c ∈ n.children, ∀ m ∈ c.nodes, ∀ room, FailsOnly (src.valueWithin room m)
        fun e => e = .tooManyDigits ∧ src.HasUnwritableKey n := by
      intro c hc m hm room
      have hmem : m ∈ n.nodes := Node.mem_nodes_trans (Node.mem_nodes_of_mem_children hc) hm
      exact (ih c hc m hm (Node.mem_nodes_trans hn hmem) room).mono fun e he =>
        ⟨he.1, he.2.mono hmem⟩
    rw [valueWithin_eq]
    cases hsymbol : n.symbol with
    | parenthesizedExpression =>
      refine .getD fun c hc => ?_
      have hmember := Node.mem_members (List.mem_of_mem_head? hc)
      exact hbelow c (Node.mem_children_of_mem_namedChildren hmember) c c.self_mem_nodes room
    | templateString => exact (FailsOnly.of_ok (hsrc.template_ok true hn)).map _
    | object =>
      cases room with
      | zero => exact .ok _
      | succ room =>
        refine FailsOnly.map (failsOnly_entryValues ?_ ?_) _
        · intro c hc hpair e he
          have hmem : c ∈ src.root.nodes := Node.mem_nodes_of_child hn hc
          obtain ⟨rfl, key, hkey, hlong⟩ := (hsrc.memberName_eq_error hmem).mp he
          have hchild : c.child? .key = some key := by simpa [Node.keyNode?, hpair] using hkey
          exact ⟨rfl, c, Node.mem_nodes_of_mem_children hc, hpair, key, hchild, hlong⟩
        · intro c hc e he
          exact hbelow c hc e (Node.mem_nodes_of_child? c.self_mem_nodes he) room
    | array =>
      cases room with
      | zero => exact .ok _
      | succ room =>
        exact (failsOnly_itemValues (fun c hc => hbelow c hc c c.self_mem_nodes room) true).map _
    | _ =>
      obtain ⟨r, hr, -⟩ := hsrc.literalValue_settles hn
      exact .of_ok ⟨r, hr⟩

/-- Display names, member names and values are read in every source with well-formed escapes, but
for an integer of too many digits where a name or a key is written: the first argument of a call,
the key of a member, or a key somewhere in an expression. -/
theorem reading_fails_only_unwritable {filename : Option String} {text : List Char} {tree : Node}
    (hsrc : ofTree filename text tree = .ok src) (hmeasured : src.Measured)
    (hescapes : src.EscapesFormed) {n : Node} (hn : n ∈ src.root.nodes) (e : Failure) :
    (src.scopeName n = .error e ↔ e = .tooManyDigits ∧
        ∃ arg, n.callArguments.head? = some arg ∧ src.Unwritable arg.unwrap) ∧
      (src.memberName n = .error e ↔ e = .tooManyDigits ∧
        ∃ key, n.keyNode? = some key ∧ src.Unwritable key) ∧
      (∀ room, src.valueWithin room n = .error e →
        e = .tooManyDigits ∧ src.HasUnwritableKey n) := by
  have hlegible := legible_ofTree hsrc hmeasured hescapes
  exact ⟨hlegible.scopeName_eq_error hn, hlegible.memberName_eq_error hn,
    fun room => hlegible.failsOnly_valueWithin hn room e⟩

end Source

/-! A hexadecimal integer is read whatever its size. -/

theorem ofDigits_replicate_zero (base : Nat) (d k : Nat) :
    ofDigits base (d :: List.replicate k 0) = d * base ^ k := by
  have hfold : ∀ acc,
      (List.replicate k 0).foldl (fun n d => n * base + d) acc = acc * base ^ k := by
    induction k with
    | zero => intro acc; simp
    | succ k ih =>
      intro acc
      rw [List.replicate_succ, List.foldl_cons, ih, Nat.add_zero, pow_succ', Nat.mul_assoc]
  simpa [ofDigits] using hfold d

namespace Sample

/-- `0x1` and so many zeros. -/
def hugeNumeral (k : Nat) : List Char := '0' :: 'x' :: '1' :: List.replicate k '0'

theorem read?_hugeNumeral (k : Nat) :
    Number.read? (hugeNumeral k) = some (.integer (16 ^ k : Nat)) := by
  let ds : List (Digit 16) := ⟨1, false⟩ :: List.replicate k ⟨0, false⟩
  have htext : '0' :: 'x' :: ds.map Digit.char = hugeNumeral k := by
    simp only [ds, List.map_cons, List.map_replicate]
    rfl
  have hvalues : Digit.values ds = 1 :: List.replicate k 0 := by
    simp only [ds, Digit.values, List.map_cons, List.map_replicate]
    rfl
  have hnumber : Digit.number ds = 16 ^ k := by
    rw [← Digit.ofDigits_values, hvalues, ofDigits_replicate_zero, Nat.one_mul]
  have hmark : ('x', 16) ∈ radixMarks := by decide
  rw [← htext, (Number.read?_mark_digits hmark (List.cons_ne_nil _ _)).1, hnumber]

/-- The text `it(0x1…)`. -/
def hugeText (k : Nat) : List Char := ['i', 't', '('] ++ hugeNumeral k ++ [')']

def hugeNumber (k : Nat) : Node := node none .number 3 (k + 6) []

def hugeCall (k : Nat) : Node :=
  node none .callExpression 0 (k + 7)
    [node (some .function) .identifier 0 2 [],
     node (some .arguments) .arguments 2 (k + 7) [hugeNumber k]]

def hugeTree (k : Nat) : Node :=
  node none (.other "program") 0 (k + 7) [node none .expressionStatement 0 (k + 7) [hugeCall k]]

def hugeSource (k : Nat) : Source := ⟨none, (hugeText k).toArray, .same, hugeTree k⟩

theorem ofText_hugeText (k : Nat) : Offsets.ofText (hugeText k) = .same := by
  refine if_pos (List.all_eq_true.mpr fun c hc => ?_)
  simp only [hugeText, hugeNumeral, List.mem_append, List.mem_cons, List.mem_replicate] at hc
  have hletter : c ∈ ['i', 't', '(', '0', 'x', '1', ')'] := by
    simp only [List.mem_cons]
    tauto
  have hascii : ['i', 't', '(', '0', 'x', '1', ')'].all (·.toNat < 0x80) = true := by decide
  exact List.all_eq_true.mp hascii c hletter

theorem ofTree_hugeTree (k : Nat) :
    Source.ofTree none (hugeText k) (hugeTree k) = .ok (hugeSource k) := by
  have hescapes : ∀ src : Source, src.firstOutOfRange? (hugeTree k).walk = .ok none := fun _ => rfl
  have herror : (hugeTree k).hasError = false := rfl
  have hrange : (hugeSource k).outOfRange? = .ok none := by
    unfold Source.outOfRange?
    split
    · exact hescapes _
    · rfl
  unfold Source.ofTree
  rw [ofText_hugeText, herror]
  change (hugeSource k).outOfRange? >>= _ = _
  rw [hrange]
  rfl

theorem spanOf_hugeSource (k : Nat) (n : Node) : (hugeSource k).spanOf n = .ok n.span := rfl

theorem measured_hugeSource (k : Nat) : (hugeSource k).Measured :=
  fun n _ => ⟨n.span, spanOf_hugeSource k n⟩

theorem escapesFormed_hugeSource (k : Nat) : (hugeSource k).EscapesFormed := by
  have hnone : ∀ e ∈ (hugeSource k).root.nodes, e.symbol ≠ .escapeSequence := by
    have hall : (hugeTree k).nodes.all (·.symbol ≠ .escapeSequence) = true := rfl
    exact fun e he => of_decide_eq_true (List.all_eq_true.mp hall e he)
  exact ⟨fun e he h => absurd h (hnone e he), fun e he h => absurd h (hnone e he)⟩

theorem charsOf_hugeNumber (k : Nat) :
    (hugeSource k).charsOf (hugeNumber k) = .ok (hugeNumeral k) := by
  have hlength : (hugeNumeral k).length = k + 3 := by simp [hugeNumeral]
  have hslice : (hugeSource k).slice 3 (k + 6) = hugeNumeral k := by
    have htake : (hugeNumeral k ++ [')']).take (k + 3) = hugeNumeral k := List.take_left' hlength
    simpa [Source.slice, hugeSource, hugeText, List.extract_eq_take_drop] using htake
  unfold Source.charsOf
  rw [spanOf_hugeSource]
  exact congrArg Except.ok hslice

theorem unwritable_hugeNumber :
    (hugeSource digitLimit).Unwritable (hugeNumber digitLimit).unwrap := by
  have hlong : 10 ^ digitLimit ≤ ((16 ^ digitLimit : Nat) : Int).natAbs :=
    Nat.pow_le_pow_left (by decide) digitLimit
  exact ⟨rfl, _, _, charsOf_hugeNumber digitLimit, read?_hugeNumeral digitLimit, hlong⟩

theorem hugeCall_mem (k : Nat) : hugeCall k ∈ (hugeSource k).root.nodes := by
  have hnodes : (hugeTree k).nodes = hugeTree k ::
      node none .expressionStatement 0 (k + 7) [hugeCall k] :: (hugeCall k).nodes := rfl
  change hugeCall k ∈ (hugeTree k).nodes
  rw [hnodes]
  exact .tail _ (.tail _ (hugeCall k).self_mem_nodes)

theorem not_pair_of_mem_hugeCall {k : Nat} {m : Node} (hm : m ∈ (hugeCall k).nodes) :
    m.symbol ≠ .pair := by
  have hall : (hugeCall k).nodes.all (·.symbol ≠ .pair) = true := rfl
  exact of_decide_eq_true (List.all_eq_true.mp hall m hm)

end Sample

namespace Source

/-- The name of the test is missed, and nothing else of its call. -/
theorem reading_fails_only_unwritable_huge :
    (Sample.hugeSource digitLimit).scopeName (Sample.hugeCall digitLimit) = .error .tooManyDigits ∧
      ∀ e, (Sample.hugeSource digitLimit).memberName (Sample.hugeCall digitLimit) ≠ .error e ∧
        ∀ room, (Sample.hugeSource digitLimit).valueWithin room (Sample.hugeCall digitLimit) ≠
          .error e := by
  have hreading := reading_fails_only_unwritable (Sample.ofTree_hugeTree digitLimit)
    (Sample.measured_hugeSource digitLimit) (Sample.escapesFormed_hugeSource digitLimit)
    (Sample.hugeCall_mem digitLimit)
  have hname := (hreading .tooManyDigits).1.mpr ⟨rfl, _, rfl, Sample.unwritable_hugeNumber⟩
  refine ⟨hname, fun e => ⟨?_, ?_⟩⟩
  · intro he
    obtain ⟨-, key, hkey, -⟩ := (hreading e).2.1.mp he
    cases hkey
  · intro room he
    obtain ⟨-, m, hm, hpair, -⟩ := (hreading e).2.2 room he
    exact Sample.not_pair_of_mem_hugeCall hm hpair

/-- Not every call can be named. -/
theorem not_forall_scopeName_ok :
    ¬∀ (text : List Char) (tree : Node) (src : Source), ofTree none text tree = .ok src →
      src.Measured → src.EscapesFormed → ∀ call ∈ src.root.nodes, call.isCall = true →
        ∃ name, src.scopeName call = .ok name := by
  intro h
  obtain ⟨name, hname⟩ := h _ _ _ (Sample.ofTree_hugeTree digitLimit)
    (Sample.measured_hugeSource digitLimit) (Sample.escapesFormed_hugeSource digitLimit) _
    (Sample.hugeCall_mem digitLimit) rfl
  have hlegible := legible_ofTree (Sample.ofTree_hugeTree digitLimit)
    (Sample.measured_hugeSource digitLimit) (Sample.escapesFormed_hugeSource digitLimit)
  have hfails := (hlegible.scopeName_eq_error (Sample.hugeCall_mem digitLimit)).mpr
    ⟨rfl, _, rfl, Sample.unwritable_hugeNumber⟩
  exact nomatch hname.symm.trans hfails

end Source
end SuiteOutline
