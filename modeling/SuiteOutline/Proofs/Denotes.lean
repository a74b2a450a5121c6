import Mathlib.Data.List.Chain
import SuiteOutline.Proofs.Entries
import SuiteOutline.Proofs.Literal
import SuiteOutline.Proofs.Nesting

/-! Expressions that are literal through and through. What such an expression denotes is said apart
from how it is computed, and the computation gives exactly that, or nothing for any other. -/
namespace SuiteOutline
namespace Node

/-- No comma follows another one, nor comes first where an item is expected. -/
def HoleFree (expecting : Bool) (cs : List Node) : Prop :=
  (expecting = true → ∀ c ∈ (cs.filter isSlot).head?, c.symbol ≠ .comma) ∧
    (cs.filter isSlot).IsChain fun a b => a.symbol = .comma → b.symbol ≠ .comma

theorem holeFree_nil (expecting : Bool) : HoleFree expecting [] := ⟨nofun, .nil⟩

theorem holeFree_skip {expecting : Bool} {c : Node} {cs : List Node} (h : ¬c.isSlot = true) :
    HoleFree expecting (c :: cs) ↔ HoleFree expecting cs := by
  unfold HoleFree
  rw [List.filter_cons_of_neg h]

theorem holeFree_comma {expecting : Bool} {c : Node} {cs : List Node} (h : c.symbol = .comma) :
    HoleFree expecting (c :: cs) ↔ expecting = false ∧ HoleFree true cs := by
  have hslot : c.isSlot = true := by simp [isSlot, h]
  unfold HoleFree
  rw [List.filter_cons_of_pos hslot, List.isChain_cons]
  simp [h]

theorem holeFree_item {expecting : Bool} {c : Node} {cs : List Node} (h : c.isItem = true) :
    HoleFree expecting (c :: cs) ↔ HoleFree false cs := by
  obtain ⟨hslot, hcomma⟩ : c.isSlot = true ∧ c.symbol ≠ .comma := by simpa [isItem] using h
  unfold HoleFree
  rw [List.filter_cons_of_pos hslot, List.isChain_cons]
  simp [hcomma]

end Node

namespace Source

variable (src : Source)

mutual
/-- The value of an expression, parentheses aside. -/
inductive Denotes : Node → Value → Prop
  | literal {n : Node} {v : Value} (h : src.LiteralOf n.unwrap v) : Denotes n v
  | template {n : Node} {t : Text} (h : src.TemplateOf n.unwrap t) : Denotes n (.text t)
  | array {n : Node} {vs : List Value} (h : n.unwrap.symbol = .array)
      (hfull : Node.HoleFree true n.unwrap.children)
      (hitems : ItemsDenote (n.unwrap.children.filter Node.isItem) vs) : Denotes n (.list vs)
  | object {n : Node} {entries : List (Text × Value)} (h : n.unwrap.symbol = .object)
      (hentries : EntriesDenote n.unwrap.members entries) : Denotes n (.object (keyed entries))

inductive ItemsDenote : List Node → List Value → Prop
  | nil : ItemsDenote [] []
  | cons {n : Node} {ns : List Node} {v : Value} {vs : List Value} (h : Denotes n v)
      (hs : ItemsDenote ns vs) : ItemsDenote (n :: ns) (v :: vs)

/-- A plain pair of a key and a value. -/
inductive EntryDenotes : Node → Text × Value → Prop
  | pair {n key e : Node} {k : Text} {v : Value} (h : n.symbol = .pair)
      (hkey : n.child? .key = some key) (hk : src.KeyOf key k) (hvalue : n.child? .value = some e)
      (hv : Denotes e v) : EntryDenotes n (k, v)

inductive EntriesDenote : List Node → List (Text × Value) → Prop
  | nil : EntriesDenote [] []
  | cons {n : Node} {ns : List Node} {entry : Text × Value} {entries : List (Text × Value)}
      (h : EntryDenotes n entry) (hs : EntriesDenote ns entries) :
      EntriesDenote (n :: ns) (entry :: entries)
end

/-- The integers among the keys of pairs can be written. -/
def KeysPrint (n : Node) : Prop :=
  ∀ m ∈ n.nodes, m.symbol = .pair → ∀ key, m.child? .key = some key → key.symbol = .number →
    ∀ cs i, src.charsOf key = .ok cs → Number.read? cs = some (.integer i) →
      i.natAbs < 10 ^ digitLimit

variable {src}

theorem KeysPrint.mono {n m : Node} (h : src.KeysPrint n) (hm : m ∈ n.nodes) : src.KeysPrint m :=
  fun k hk => h k (Node.mem_nodes_trans hm hk)

/-! Items. -/

theorem itemsDenote_cons_iff {n : Node} {ns : List Node} {vs : List Value} :
    src.ItemsDenote (n :: ns) vs ↔
      ∃ v rest, src.Denotes n v ∧ src.ItemsDenote ns rest ∧ vs = v :: rest := by
  constructor
  · intro hcons
    cases hcons with
    | cons h hs => exact ⟨_, _, h, hs, rfl⟩
  · rintro ⟨v, rest, h, hs, rfl⟩
    exact .cons h hs

theorem settles_itemValues {room : Nat} {cs : List Node}
    (h : ∀ c ∈ cs, Settles (src.valueWithin room c) (src.Denotes c)) (expecting : Bool) :
    Settles (src.itemValues room expecting cs) fun vs =>
      Node.HoleFree expecting cs ∧ src.ItemsDenote (cs.filter Node.isItem) vs := by
  induction expecting, cs using Node.slotInduction with
  | nil expecting =>
    refine .some ⟨Node.holeFree_nil _, .nil⟩ ?_
    rintro vs ws ⟨-, ⟨⟩⟩ ⟨-, ⟨⟩⟩
    rfl
  | skip expecting c cs hslot ih =>
    rw [itemValues_skip room expecting cs hslot,
      List.filter_cons_of_neg (Node.not_isItem_of_not_isSlot hslot)]
    simp only [Node.holeFree_skip hslot]
    exact ih (List.forall_mem_cons.mp h).2
  | comma expecting c cs hcomma ih =>
    rw [itemValues_comma room expecting cs hcomma,
      List.filter_cons_of_neg (Node.not_isItem_of_comma hcomma)]
    simp only [Node.holeFree_comma hcomma]
    cases expecting with
    | true => exact .none fun vs hvs => Bool.noConfusion hvs.1.1
    | false => exact (ih (List.forall_mem_cons.mp h).2).congr fun vs => by simp
  | item expecting c cs hitem ih =>
    obtain ⟨hc, hcs⟩ := List.forall_mem_cons.mp h
    rw [itemValues_item room expecting cs hitem, List.filter_cons_of_pos hitem]
    refine (hc.consValue (ih hcs)).congr fun vs => ?_
    rw [Node.holeFree_item hitem, itemsDenote_cons_iff]
    constructor
    · rintro ⟨v, rest, hv, ⟨hfull, hrest⟩, rfl⟩
      exact ⟨hfull, v, rest, hv, hrest, rfl⟩
    · rintro ⟨hfull, v, rest, hv, hrest, rfl⟩
      exact ⟨v, rest, hv, ⟨hfull, hrest⟩, rfl⟩

/-! Entries. -/

theorem entriesDenote_cons_iff {n : Node} {ns : List Node} (h : n.symbol = .pair)
    {entries : List (Text × Value)} :
    src.EntriesDenote (n :: ns) entries ↔ ∃ k v rest,
      (∃ key, n.child? .key = some key ∧ src.KeyOf key k) ∧
      (∃ e, n.child? .value = some e ∧ src.Denotes e v) ∧
      src.EntriesDenote ns rest ∧ entries = (k, v) :: rest := by
  constructor
  · intro hcons
    cases hcons with
    | cons hentry hrest =>
      cases hentry with
      | pair _ hkey hk hvalue hv =>
        exact ⟨_, _, _, ⟨_, hkey, hk⟩, ⟨_, hvalue, hv⟩, hrest, rfl⟩
  · rintro ⟨k, v, rest, ⟨key, hkey, hk⟩, ⟨e, hvalue, hv⟩, hrest, rfl⟩
    exact .cons (.pair h hkey hk hvalue hv) hrest

theorem settles_memberName (hsrc : src.Legible) {m : Node} (hm : m ∈ src.root.nodes)
    (hsymbol : m.symbol = .pair) (hkeys : src.KeysPrint m) :
    Settles (src.memberName m) fun k => ∃ key, m.child? .key = some key ∧ src.KeyOf key k := by
  have hname : src.memberName m = ((m.child? .key).map src.keyName).getD (.ok none) := by
    rw [memberName, hsymbol]
    cases m.child? .key <;> rfl
  rw [hname]
  refine .getD fun key hkey => ?_
  exact settles_keyName hsrc (Node.mem_nodes_of_child? hm hkey)
    (hkeys m m.self_mem_nodes hsymbol key hkey)

/-- A pair without a name gives nothing, whatever its value. -/
theorem settles_pair {name : Except Failure (Option Text)}
    {value : Except Failure (Option Value)} {tail : Except Failure (Option (List (Text × Value)))}
    {N : Text → Prop} {V : Value → Prop} {T : List (Text × Value) → Prop}
    (hname : Settles name N) (hvalue : Settles value V) (htail : Settles tail T) :
    Settles (do
      match ← name with
      | none => return none
      | some key => consValue (value.map (·.map (key, ·))) tail)
      fun ps => ∃ k v rest, N k ∧ V v ∧ T rest ∧ ps = (k, v) :: rest := by
  obtain ⟨r, rfl, hN⟩ := hname
  cases r with
  | none => exact .none fun ps ⟨k, _, _, hk, _⟩ => nomatch (hN k).mpr hk
  | some key =>
    refine ((hvalue.map _).consValue htail).congr fun ps => ?_
    constructor
    · rintro ⟨_, rest, ⟨v, hv, rfl⟩, hrest, rfl⟩
      exact ⟨key, v, rest, (hN key).mp rfl, hv, hrest, rfl⟩
    · rintro ⟨k, v, rest, hk, hv, hrest, rfl⟩
      cases (hN k).mpr hk
      exact ⟨_, rest, ⟨v, hv, rfl⟩, hrest, rfl⟩

theorem settles_entryValues (hsrc : src.Legible) {room : Nat} {cs : List Node}
    (hcs : ∀ c ∈ cs, c ∈ src.root.nodes) (hkeys : ∀ c ∈ cs, src.KeysPrint c)
    (h : ∀ c ∈ cs, c.symbol = .pair → ∀ e, c.child? .value = some e →
      Settles (src.valueWithin room e) (src.Denotes e)) :
    Settles (src.entryValues room cs) (src.EntriesDenote (cs.filter Node.isMember)) := by
  induction cs with
  | nil =>
    refine .some .nil ?_
    rintro ps qs ⟨⟩ ⟨⟩
    rfl
  | cons c cs ih =>
    obtain ⟨hc, hcs⟩ := List.forall_mem_cons.mp hcs
    obtain ⟨hkey, hkeys⟩ := List.forall_mem_cons.mp hkeys
    obtain ⟨hvalue, h⟩ := List.forall_mem_cons.mp h
    have htail := ih hcs hkeys h
    rw [entryValues_cons]
    by_cases hmember : c.isMember = true
    · rw [List.filter_cons_of_pos hmember, if_neg (by simp [hmember])]
      by_cases hpair : c.symbol = .pair
      · rw [if_neg (by simp [hpair])]
        refine (settles_pair (settles_memberName hsrc hc hpair hkey) (.getD (hvalue hpair))
          htail).congr fun ps => ?_
        rw [entriesDenote_cons_iff hpair]
      · rw [if_pos hpair]
        refine .none fun ps hps => ?_
        cases hps with
        | cons hentry _ =>
          cases hentry with
          | pair h => exact hpair h
    · rw [List.filter_cons_of_neg hmember, if_pos (by simpa using hmember)]
      exact htail

/-! Expressions. -/

theorem not_literalOf {n : Node} (h : Kind.ofSymbol n.symbol ≠ .literal) (v : Value) :
    ¬src.LiteralOf n v := by
  intro hv
  apply h
  cases hv with
  | _ h => rw [h]; rfl

theorem not_templateOf {n : Node} (h : n.symbol ≠ .templateString) (t : Text) :
    ¬src.TemplateOf n t := by
  intro ht
  cases ht with
  | intro hsymbol => exact h hsymbol

/-- The four forms of expressions with a value. -/
theorem denotes_iff {n : Node} {v : Value} :
    src.Denotes n v ↔ src.LiteralOf n.unwrap v ∨ (∃ t, src.TemplateOf n.unwrap t ∧ .text t = v) ∨
      (n.unwrap.symbol = .array ∧ ∃ vs, (Node.HoleFree true n.unwrap.children ∧
        src.ItemsDenote (n.unwrap.children.filter Node.isItem) vs) ∧ .list vs = v) ∨
      (n.unwrap.symbol = .object ∧
        ∃ ps, src.EntriesDenote n.unwrap.members ps ∧ .object (keyed ps) = v) := by
  constructor
  · intro h
    cases h with
    | literal h => exact .inl h
    | template h => exact .inr (.inl ⟨_, h, rfl⟩)
    | array h hfull hitems => exact .inr (.inr (.inl ⟨h, _, ⟨hfull, hitems⟩, rfl⟩))
    | object h hentries => exact .inr (.inr (.inr ⟨h, _, hentries, rfl⟩))
  · rintro (h | ⟨t, h, rfl⟩ | ⟨h, vs, ⟨hfull, hitems⟩, rfl⟩ | ⟨h, ps, hentries, rfl⟩)
    · exact .literal h
    · exact .template h
    · exact .array h hfull hitems
    · exact .object h hentries

/-- Parentheses denote what stands in them. -/
theorem denotes_parens {n : Node} (h : n.symbol = .parenthesizedExpression) {v : Value} :
    src.Denotes n v ↔ ∃ c, n.members.head? = some c ∧ src.Denotes c v := by
  cases hc : n.members.head? with
  | none =>
    have hself : n.unwrap = n := by
      rw [Node.unwrap_eq, if_pos h, hc]
      rfl
    rw [denotes_iff, hself]
    simp [h, not_literalOf, not_templateOf, Kind.ofSymbol]
  | some c =>
    rw [denotes_iff, Node.unwrap_of_head? h hc, ← denotes_iff]
    simp

theorem denotes_template {n : Node} (h : n.symbol = .templateString) {v : Value} :
    src.Denotes n v ↔ ∃ t, src.TemplateOf n t ∧ .text t = v := by
  rw [denotes_iff, Node.unwrap_of_ne (by simp [h])]
  simp [h, not_literalOf, Kind.ofSymbol]

theorem denotes_array {n : Node} (h : n.symbol = .array) {v : Value} :
    src.Denotes n v ↔ ∃ vs, (Node.HoleFree true n.children ∧
      src.ItemsDenote (n.children.filter Node.isItem) vs) ∧ .list vs = v := by
  rw [denotes_iff, Node.unwrap_of_ne (by simp [h])]
  simp [h, not_literalOf, not_templateOf, Kind.ofSymbol]

theorem denotes_object {n : Node} (h : n.symbol = .object) {v : Value} :
    src.Denotes n v ↔ ∃ ps, src.EntriesDenote n.members ps ∧ .object (keyed ps) = v := by
  rw [denotes_iff, Node.unwrap_of_ne (by simp [h])]
  simp [h, not_literalOf, not_templateOf, Kind.ofSymbol]

theorem settles_object (hsrc : src.Legible) {n : Node} (hn : n ∈ src.root.nodes)
    (hsymbol : n.symbol = .object) (hkeys : src.KeysPrint n) {room : Nat}
    (h : ∀ c ∈ n.children, c.symbol = .pair → ∀ e, c.child? .value = some e →
      Settles (src.valueWithin room e) (src.Denotes e)) :
    Settles ((src.entryValues room n.children).map (·.map fun ps => .object (entriesOf ps)))
      (src.Denotes n) := by
  have hchildren : ∀ c ∈ n.children, c ∈ src.root.nodes := fun c => Node.mem_nodes_of_child hn
  have hprint : ∀ c ∈ n.children, src.KeysPrint c := fun c hc =>
    hkeys.mono (Node.mem_nodes_of_mem_children hc)
  refine ((settles_entryValues hsrc hchildren hprint h).map _).congr fun v => ?_
  simp only [denotes_object hsymbol, entriesOf_eq_keyed, Node.members]

theorem settles_array {n : Node} (hsymbol : n.symbol = .array) {room : Nat}
    (h : ∀ c ∈ n.children, Settles (src.valueWithin room c) (src.Denotes c)) :
    Settles ((src.itemValues room true n.children).map (·.map .list)) (src.Denotes n) := by
  exact ((settles_itemValues h true).map _).congr fun v => (denotes_array hsymbol).symm

/-- With room for its nesting, an expression is given the value that it denotes. -/
theorem settles_valueWithin (hsrc : src.Legible) {n : Node} (hn : n ∈ src.root.nodes)
    (hkeys : src.KeysPrint n) {room : Nat} (hroom : n.nesting ≤ room) :
    Settles (src.valueWithin room n) (src.Denotes n) := by
  induction n using Node.belowInduction generalizing room with
  | node n ih =>
    have hbelow : ∀ c ∈ n.children, ∀ m ∈ c.nodes, ∀ room, m.nesting ≤ room →
        Settles (src.valueWithin room m) (src.Denotes m) := by
      intro c hc m hm room hroom
      have hmem : m ∈ n.nodes := Node.mem_nodes_trans (Node.mem_nodes_of_mem_children hc) hm
      exact ih c hc m hm (Node.mem_nodes_trans hn hmem) (hkeys.mono hmem) hroom
    rw [valueWithin_eq]
    rw [Node.nesting_eq] at hroom
    cases hsymbol : n.symbol with
    | parenthesizedExpression =>
      simp only [hsymbol] at hroom
      have hfirst : ∀ c, n.members.head? = some c →
          Settles (src.valueWithin room c) (src.Denotes c) := by
        intro c hc
        have hmember := Node.mem_members (List.mem_of_mem_head? hc)
        have hmem := Node.mem_children_of_mem_namedChildren hmember
        have hle := Node.nesting_le_nestingOf hmem
        exact hbelow c hmem c c.self_mem_nodes room (by omega)
      exact (Settles.getD hfirst).congr fun v => (denotes_parens hsymbol).symm
    | templateString =>
      exact ((settles_template hsrc hn hsymbol).map _).congr fun v =>
        (denotes_template hsymbol).symm
    | object =>
      simp only [hsymbol] at hroom
      obtain ⟨room, rfl⟩ : ∃ r, room = r + 1 := ⟨room - 1, by omega⟩
      refine settles_object hsrc hn hsymbol hkeys fun c hc hpair e he => ?_
      -- a pair is one level of the tree, but none of nesting
      have hnested : c.nesting = Node.nestingOf c.children := by rw [Node.nesting_eq, hpair]
      have hmem := (Node.child?_eq_some he).1
      have hle := Node.nesting_le_nestingOf hmem
      have hle' := Node.nesting_le_nestingOf hc
      exact hbelow c hc e (Node.mem_nodes_of_mem_children hmem) room (by omega)
    | array =>
      simp only [hsymbol] at hroom
      obtain ⟨room, rfl⟩ : ∃ r, room = r + 1 := ⟨room - 1, by omega⟩
      refine settles_array hsymbol fun c hc => ?_
      have hle := Node.nesting_le_nestingOf hc
      exact hbelow c hc c c.self_mem_nodes room (by omega)
    | _ =>
      have hself : n.unwrap = n := Node.unwrap_of_ne (by simp [hsymbol])
      refine (settles_literalValue hsrc hn hself).congr fun v => ?_
      rw [denotes_iff, hself]
      simp [hsymbol, not_templateOf]

end Source
end SuiteOutline
