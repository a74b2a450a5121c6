import SuiteOutline.Proofs.Value

/-! How deep arrays and objects are nested. Room for that many levels is all that a value takes:
with more of it nothing changes. -/
namespace SuiteOutline
namespace Node

/-- Commas and items: what stands in an array but for its brackets and comments. -/
def isSlot (c : Node) : Bool := c.symbol ∉ [.leftBracket, .rightBracket, .comment]

def isItem (c : Node) : Bool := c.isSlot && c.symbol ≠ .comma

mutual
/-- How deep arrays and objects are nested in each other, parentheses aside. -/
def nesting : Node → Nat
  | ⟨symbol, _, _, _, _, children⟩ =>
    match symbol with
    | .array | .object => nestingOf children + 1
    | .parenthesizedExpression | .pair => nestingOf children
    | _ => 0

def nestingOf : List Node → Nat
  | [] => 0
  | c :: cs => max c.nesting (nestingOf cs)
end

theorem nesting_eq (n : Node) : n.nesting = match n.symbol with
    | .array | .object => nestingOf n.children + 1
    | .parenthesizedExpression | .pair => nestingOf n.children
    | _ => 0 := by
  cases n with
  | mk symbol => cases symbol <;> rfl

theorem nesting_le_nestingOf {c : Node} {cs : List Node} (h : c ∈ cs) :
    c.nesting ≤ nestingOf cs := by
  induction cs with
  | nil => cases h
  | cons d cs ih =>
    rw [nestingOf]
    rcases List.mem_cons.mp h with rfl | h
    · omega
    · have := ih h
      omega

section

variable {c : Node}

theorem isSlot_of_comma (h : c.symbol = .comma) : c.isSlot = true := by simp [isSlot, h]

theorem not_isItem_of_comma (h : c.symbol = .comma) : ¬c.isItem = true := by simp [isItem, h]

theorem isItem_iff : c.isItem = true ↔ c.isSlot = true ∧ c.symbol ≠ .comma := by simp [isItem]

theorem not_isItem_of_not_isSlot (h : ¬c.isSlot = true) : ¬c.isItem = true := fun hitem =>
  h (isItem_iff.mp hitem).1

end

/-- The children of an array from the first on: some are passed over, a comma opens a place and an
item fills it. -/
@[elab_as_elim] theorem slotInduction {motive : Bool → List Node → Prop}
    (nil : ∀ expecting, motive expecting [])
    (skip : ∀ expecting c cs, ¬c.isSlot = true → motive expecting cs → motive expecting (c :: cs))
    (comma : ∀ expecting c cs, c.symbol = .comma → motive true cs → motive expecting (c :: cs))
    (item : ∀ expecting c cs, c.isItem = true → motive false cs → motive expecting (c :: cs))
    (expecting : Bool) (cs : List Node) : motive expecting cs := by
  induction cs generalizing expecting with
  | nil => exact nil expecting
  | cons c cs ih =>
    by_cases hslot : c.isSlot = true
    · by_cases hcomma : c.symbol = .comma
      · exact comma expecting c cs hcomma (ih true)
      · exact item expecting c cs (isItem_iff.mpr ⟨hslot, hcomma⟩) (ih false)
    · exact skip expecting c cs hslot (ih expecting)

end Node

namespace Source

variable {src : Source}

theorem itemValues_skip (room : Nat) (expecting : Bool) {c : Node} (cs : List Node)
    (h : ¬c.isSlot = true) :
    src.itemValues room expecting (c :: cs) = src.itemValues room expecting cs := by
  unfold Node.isSlot at h
  rw [decide_eq_true_eq, Classical.not_not] at h
  simp only [List.mem_cons, List.not_mem_nil, or_false] at h
  rw [itemValues]
  rcases h with h | h | h <;> rw [h]

theorem itemValues_comma (room : Nat) (expecting : Bool) {c : Node} (cs : List Node)
    (h : c.symbol = .comma) :
    src.itemValues room expecting (c :: cs) =
      if expecting then .ok none else src.itemValues room true cs := by
  rw [itemValues, h]

theorem itemValues_item (room : Nat) (expecting : Bool) {c : Node} (cs : List Node)
    (h : c.isItem = true) :
    src.itemValues room expecting (c :: cs) =
      consValue (src.valueWithin room c) (src.itemValues room false cs) := by
  rw [itemValues]
  cases hsymbol : c.symbol <;> first
    | rfl
    | simp [Node.isItem, Node.isSlot, hsymbol] at h

theorem itemValues_congr {room room' : Nat} {expecting : Bool} {cs : List Node}
    (h : ∀ c ∈ cs, src.valueWithin room c = src.valueWithin room' c) :
    src.itemValues room expecting cs = src.itemValues room' expecting cs := by
  induction expecting, cs using Node.slotInduction with
  | nil expecting => rfl
  | skip expecting c cs hslot ih =>
    rw [itemValues_skip room expecting cs hslot, itemValues_skip room' expecting cs hslot]
    exact ih (List.forall_mem_cons.mp h).2
  | comma expecting c cs hcomma ih =>
    rw [itemValues_comma room expecting cs hcomma, itemValues_comma room' expecting cs hcomma,
      ih (List.forall_mem_cons.mp h).2]
  | item expecting c cs hitem ih =>
    obtain ⟨hc, hcs⟩ := List.forall_mem_cons.mp h
    rw [itemValues_item room expecting cs hitem, itemValues_item room' expecting cs hitem, hc,
      ih hcs]

theorem entryValues_congr {room room' : Nat} {cs : List Node}
    (h : ∀ c ∈ cs, c.symbol = .pair → ∀ e, c.child? .value = some e →
      src.valueWithin room e = src.valueWithin room' e) :
    src.entryValues room cs = src.entryValues room' cs := by
  induction cs with
  | nil => rfl
  | cons c cs ih =>
    obtain ⟨hc, hcs⟩ := List.forall_mem_cons.mp h
    rw [entryValues_cons, entryValues_cons, ih hcs]
    by_cases hpair : c.symbol = .pair
    · have hvalue : (c.child? .value).map (src.valueWithin room) =
          (c.child? .value).map (src.valueWithin room') :=
        Option.map_congr fun e he => hc hpair e he
      rw [hvalue]
    · rw [if_pos hpair, if_pos hpair]

/-- Room beyond what the nesting takes makes no difference. -/
theorem valueWithin_of_nesting_le {n : Node} {room room' : Nat} (h : n.nesting ≤ room)
    (h' : n.nesting ≤ room') : src.valueWithin room n = src.valueWithin room' n := by
  induction n using Node.belowInduction generalizing room room' with
  | node n ih =>
    rw [valueWithin_eq, valueWithin_eq]
    rw [Node.nesting_eq] at h h'
    cases hsymbol : n.symbol with
    | parenthesizedExpression =>
      simp only [hsymbol] at h h'
      have hfirst : n.members.head?.map (src.valueWithin room) =
          n.members.head?.map (src.valueWithin room') := by
        refine Option.map_congr fun c hc => ?_
        have hmem := Node.mem_children_of_mem_namedChildren
          (Node.mem_members (List.mem_of_mem_head? hc))
        have hle := Node.nesting_le_nestingOf hmem
        exact ih c hmem c c.self_mem_nodes (by omega) (by omega)
      simp only [hfirst]
    | object =>
      simp only [hsymbol] at h h'
      obtain ⟨room, rfl⟩ : ∃ r, room = r + 1 := ⟨room - 1, by omega⟩
      obtain ⟨room', rfl⟩ : ∃ r, room' = r + 1 := ⟨room' - 1, by omega⟩
      have hentries : src.entryValues room n.children = src.entryValues room' n.children := by
        refine entryValues_congr fun c hc hpair e he => ?_
        have hnested : c.nesting = Node.nestingOf c.children := by rw [Node.nesting_eq, hpair]
        have hmem := (Node.child?_eq_some he).1
        have hle := Node.nesting_le_nestingOf hmem
        have hle' := Node.nesting_le_nestingOf hc
        exact ih c hc e (Node.mem_nodes_of_mem_children hmem) (by omega) (by omega)
      simp only [hentries]
    | array =>
      simp only [hsymbol] at h h'
      obtain ⟨room, rfl⟩ : ∃ r, room = r + 1 := ⟨room - 1, by omega⟩
      obtain ⟨room', rfl⟩ : ∃ r, room' = r + 1 := ⟨room' - 1, by omega⟩
      have hitems : src.itemValues room true n.children = src.itemValues room' true n.children := by
        refine itemValues_congr fun c hc => ?_
        have hle := Node.nesting_le_nestingOf hc
        exact ih c hc c c.self_mem_nodes (by omega) (by omega)
      simp only [hitems]
    | _ => rfl

end Source
end SuiteOutline
