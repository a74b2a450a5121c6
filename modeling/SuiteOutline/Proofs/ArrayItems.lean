import SuiteOutline.Proofs.Materialized

/-! Arrays by position. Brackets and comments aside, items and commas alternate, so an item stands
in the list at the number of the commas in front of it. A comma that finds no item in front of it
leaves the array without a value; one at the end adds nothing. -/
namespace SuiteOutline
namespace Node

/-- How many commas there are. -/
def commas (cs : List Node) : Nat := cs.countP (·.symbol = .comma)

/-- No item follows another one, nor comes first where a comma is expected. -/
def ItemsParted (expecting : Bool) (cs : List Node) : Prop :=
  (expecting = false → ∀ c ∈ (cs.filter isSlot).head?, c.symbol = .comma) ∧
    (cs.filter isSlot).IsChain fun a b => a.symbol ≠ .comma → b.symbol = .comma

instance HoleFree.decidable (expecting : Bool) (cs : List Node) :
    Decidable (HoleFree expecting cs) :=
  inferInstanceAs (Decidable (
    (expecting = true → ∀ c ∈ (cs.filter isSlot).head?, c.symbol ≠ .comma) ∧
      (cs.filter isSlot).IsChain fun a b => a.symbol = .comma → b.symbol ≠ .comma))

instance ItemsParted.decidable (expecting : Bool) (cs : List Node) :
    Decidable (ItemsParted expecting cs) :=
  inferInstanceAs (Decidable (
    (expecting = false → ∀ c ∈ (cs.filter isSlot).head?, c.symbol = .comma) ∧
      (cs.filter isSlot).IsChain fun a b => a.symbol ≠ .comma → b.symbol = .comma))

section

variable {expecting : Bool} {c : Node} {cs : List Node}

theorem itemsParted_skip (h : ¬c.isSlot = true) :
    ItemsParted expecting (c :: cs) ↔ ItemsParted expecting cs := by
  unfold ItemsParted
  rw [List.filter_cons_of_neg h]

theorem itemsParted_comma (h : c.symbol = .comma) :
    ItemsParted expecting (c :: cs) ↔ ItemsParted true cs := by
  unfold ItemsParted
  rw [List.filter_cons_of_pos (isSlot_of_comma h), List.isChain_cons]
  simp [h]

theorem itemsParted_item (h : c.isItem = true) :
    ItemsParted expecting (c :: cs) ↔ expecting = true ∧ ItemsParted false cs := by
  obtain ⟨hslot, hcomma⟩ := isItem_iff.mp h
  unfold ItemsParted
  rw [List.filter_cons_of_pos hslot, List.isChain_cons]
  simp [hcomma]

theorem commas_cons_of_comma (h : c.symbol = .comma) : commas (c :: cs) = commas cs + 1 := by
  simp [commas, h]

theorem commas_cons_of_ne (h : c.symbol ≠ .comma) : commas (c :: cs) = commas cs := by
  simp [commas, h]

/-- In front of an item there are as many commas as items, or one more if the last item read has not
got its comma yet. -/
theorem commas_eq_countP {front back : List Node} (hfull : HoleFree expecting (front ++ c :: back))
    (hparted : ItemsParted expecting (front ++ c :: back)) (hitem : c.isItem = true) :
    commas front = front.countP isItem + if expecting then 0 else 1 := by
  induction expecting, front using slotInduction with
  | nil expecting =>
    obtain ⟨rfl, -⟩ := (itemsParted_item hitem).mp hparted
    rfl
  | skip expecting d front hslot ih =>
    have hne : d.symbol ≠ .comma := fun h => hslot (isSlot_of_comma h)
    rw [commas_cons_of_ne hne, List.countP_cons_of_neg (not_isItem_of_not_isSlot hslot)]
    exact ih ((holeFree_skip hslot).mp hfull) ((itemsParted_skip hslot).mp hparted)
  | comma expecting d front hcomma ih =>
    obtain ⟨rfl, hrest⟩ := (holeFree_comma hcomma).mp hfull
    -- This is the comma that was still to come, so from here on the counts are the same.
    have hcount := ih hrest ((itemsParted_comma hcomma).mp hparted)
    rw [commas_cons_of_comma hcomma, List.countP_cons_of_neg (not_isItem_of_comma hcomma), hcount]
    rfl
  | item expecting d front hd ih =>
    obtain ⟨rfl, hrest⟩ := (itemsParted_item hd).mp hparted
    have hcount := ih ((holeFree_item hd).mp hfull) hrest
    rw [commas_cons_of_ne (isItem_iff.mp hd).2, List.countP_cons_of_pos hd, hcount]
    rfl

end

end Node

/-- Two places in a list are the same if as many of what is counted are in front of them. -/
theorem front_eq_of_countP {α : Type} {p : α → Bool} {front front' back back' : List α} {a a' : α}
    (h : front ++ a :: back = front' ++ a' :: back') (ha : p a = true) (ha' : p a' = true)
    (hcount : front.countP p = front'.countP p) : front = front' := by
  rcases List.append_eq_append_iff.mp h with ⟨mid, rfl, hmid⟩ | ⟨mid, rfl, hmid⟩
  all_goals
    cases mid with
    | nil => simp
    | cons b mid =>
      obtain ⟨rfl, -⟩ := List.cons.inj hmid
      simp [List.countP_append, ha, ha'] at hcount

theorem exists_front_of_filter {α : Type} {p : α → Bool} {as : List α} {i : Nat} {a : α}
    (h : (as.filter p)[i]? = some a) :
    ∃ front back, as = front ++ a :: back ∧ p a = true ∧ front.countP p = i := by
  obtain ⟨hi, hget⟩ := List.getElem?_eq_some_iff.mp h
  have hsplit : as.filter p = (as.filter p).take i ++ a :: (as.filter p).drop (i + 1) := by
    rw [← hget, ← List.drop_eq_getElem_cons hi, List.take_append_drop]
  have htaken : ((as.filter p).take i).length = i := List.length_take_of_le (Nat.le_of_lt hi)
  -- The list is cut twice: where those in front have been kept, and behind what is skipped then.
  obtain ⟨l, r, rfl, hl, hr⟩ := List.filter_eq_append_iff.mp hsplit
  obtain ⟨skipped, back, hback, hskipped, ha, -⟩ := List.filter_eq_cons_iff.mp hr
  refine ⟨l ++ skipped, back, by rw [hback, List.append_assoc], ha, ?_⟩
  rw [List.countP_append, List.countP_eq_zero.mpr hskipped, List.countP_eq_length_filter, hl,
    htaken]
  rfl

theorem consValue_eq_some {α : Type} {head : Except Failure (Option α)}
    {tail : Except Failure (Option (List α))} {l : List α} :
    consValue head tail = .ok (some l) ↔
      ∃ a as, head = .ok (some a) ∧ tail = .ok (some as) ∧ a :: as = l := by
  simp only [consValue, bind_eq_ok]
  constructor
  · rintro ⟨first, hhead, h⟩
    cases first with
    | none => cases h
    | some a =>
      simp only [bind_eq_ok, pure_eq_ok] at h
      obtain ⟨rest, htail, h⟩ := h
      obtain ⟨as, rfl, rfl⟩ := Option.map_eq_some_iff.mp h
      exact ⟨a, as, hhead, htail, rfl⟩
  · rintro ⟨a, as, hhead, htail, rfl⟩
    refine ⟨some a, hhead, ?_⟩
    simp only [bind_eq_ok, pure_eq_ok]
    exact ⟨some as, htail, rfl⟩

namespace Source

variable {src : Source} {room : Nat} {expecting : Bool}

/-- The values of an array's items make a list, if each has one and there are no holes. -/
theorem itemValues_eq_some {cs : List Node} {vs : List Value} :
    src.itemValues room expecting cs = .ok (some vs) ↔ Node.HoleFree expecting cs ∧
      List.Forall₂ (fun c v => src.valueWithin room c = .ok (some v))
        (cs.filter Node.isItem) vs := by
  induction expecting, cs using Node.slotInduction generalizing vs with
  | nil expecting =>
    rw [itemValues, List.filter_nil, List.forall₂_nil_left_iff]
    simp [Node.holeFree_nil, eq_comm]
  | skip expecting c cs hslot ih =>
    rw [itemValues_skip room expecting cs hslot, Node.holeFree_skip hslot,
      List.filter_cons_of_neg (Node.not_isItem_of_not_isSlot hslot), ih]
  | comma expecting c cs hcomma ih =>
    rw [itemValues_comma room expecting cs hcomma, Node.holeFree_comma hcomma,
      List.filter_cons_of_neg (Node.not_isItem_of_comma hcomma)]
    cases expecting with
    | true => simp
    | false => simp [ih]
  | item expecting c cs hitem ih =>
    rw [itemValues_item room expecting cs hitem, Node.holeFree_item hitem,
      List.filter_cons_of_pos hitem, consValue_eq_some, List.forall₂_cons_left_iff]
    simp only [ih]
    constructor
    · rintro ⟨v, rest, hv, ⟨hfull, hrest⟩, rfl⟩
      exact ⟨hfull, v, rest, hv, hrest, rfl⟩
    · rintro ⟨hfull, v, rest, hv, hrest, rfl⟩
      exact ⟨v, rest, hv, ⟨hfull, hrest⟩, rfl⟩

theorem itemValues_passed {cs : List Node} (h : ∀ c ∈ cs, ¬c.isSlot = true) :
    src.itemValues room expecting cs = .ok (some []) := by
  induction cs with
  | nil => rfl
  | cons c cs ih =>
    obtain ⟨hc, hcs⟩ := List.forall_mem_cons.mp h
    rw [itemValues_skip room expecting cs hc, ih hcs]

/-- Behind the last item of an array without holes a comma changes nothing. -/
theorem itemValues_trailing {front back : List Node} {c : Node} (hcomma : c.symbol = .comma)
    (hback : ∀ d ∈ back, ¬d.isSlot = true)
    (hfull : Node.HoleFree expecting (front ++ c :: back)) :
    src.itemValues room expecting (front ++ c :: back) =
      src.itemValues room expecting (front ++ back) := by
  induction expecting, front using Node.slotInduction with
  | nil expecting =>
    obtain ⟨rfl, -⟩ := (Node.holeFree_comma hcomma).mp hfull
    rw [List.nil_append, itemValues_comma room false back hcomma]
    exact (itemValues_passed hback).trans (itemValues_passed hback).symm
  | skip expecting d front hslot ih =>
    rw [List.cons_append, List.cons_append, itemValues_skip room expecting _ hslot,
      itemValues_skip room expecting _ hslot]
    exact ih ((Node.holeFree_skip hslot).mp hfull)
  | comma expecting d front hd ih =>
    obtain ⟨rfl, hrest⟩ := (Node.holeFree_comma hd).mp hfull
    rw [List.cons_append, List.cons_append, itemValues_comma room false _ hd,
      itemValues_comma room false _ hd, ih hrest]
  | item expecting d front hd ih =>
    rw [List.cons_append, List.cons_append, itemValues_item room expecting _ hd,
      itemValues_item room expecting _ hd, ih ((Node.holeFree_item hd).mp hfull)]

/-- An array as a list of its items: when it is one, and which item stands where. -/
structure ListsItems (whole : Except Failure (Option Value))
    (item : Node → Except Failure (Option Value)) (cs : List Node) : Prop where
  isList_iff : (∃ vs, whole = .ok (some (.list vs))) ↔
    Node.HoleFree true cs ∧ ∀ c ∈ cs, c.isItem = true → ∃ v, item c = .ok (some v)
  /-- At an index there is the value of an item with so many commas in front of it. -/
  at_iff : ∀ vs, whole = .ok (some (.list vs)) → ∀ i v, vs[i]? = some v ↔
    ∃ front c back, cs = front ++ c :: back ∧ c.isItem = true ∧ Node.commas front = i ∧
      item c = .ok (some v)
  /-- There is only one such item. -/
  place_unique : ∀ vs, whole = .ok (some (.list vs)) → ∀ front c back front' c' back',
    cs = front ++ c :: back → cs = front' ++ c' :: back' → c.isItem = true → c'.isItem = true →
    Node.commas front = Node.commas front' → front = front'

theorem ListsItems.congr {whole : Except Failure (Option Value)}
    {item item' : Node → Except Failure (Option Value)} {cs : List Node}
    (h : ListsItems whole item cs) (hitem : ∀ c ∈ cs, item c = item' c) :
    ListsItems whole item' cs where
  isList_iff := by
    rw [h.isList_iff]
    refine and_congr_right fun _ => forall₂_congr fun c hc => ?_
    rw [hitem c hc]
  at_iff vs hvs i v := by
    rw [h.at_iff vs hvs]
    refine exists_congr fun front => exists_congr fun c => exists_congr fun back => ?_
    refine and_congr_right fun hcs => ?_
    rw [hitem c (by simp [hcs])]
  place_unique := h.place_unique

theorem listsItems_of_itemsParted {whole : Except Failure (Option Value)} {cs : List Node}
    (hparted : Node.ItemsParted true cs) (hwhole : ∀ vs, whole = .ok (some (.list vs)) ↔
      src.itemValues room true cs = .ok (some vs)) :
    ListsItems whole (src.valueWithin room) cs where
  isList_iff := by
    simp only [hwhole, itemValues_eq_some, exists_and_left]
    refine and_congr_right fun _ => ⟨?_, fun h => ?_⟩
    · rintro ⟨vs, hvs⟩ c hc hitem
      obtain ⟨i, hi⟩ := List.getElem?_of_mem (List.mem_filter.mpr ⟨hc, hitem⟩)
      obtain ⟨v, -, hv⟩ := forall₂_getElem? hvs hi
      exact ⟨v, hv⟩
    · exact exists_forall₂ fun c hc => h c (List.mem_of_mem_filter hc) (List.mem_filter.mp hc).2
  at_iff vs hvs i v := by
    obtain ⟨hfull, hitems⟩ := itemValues_eq_some.mp ((hwhole vs).mp hvs)
    constructor
    · intro hv
      obtain ⟨c, hc, hcv⟩ := forall₂_getElem? hitems.flip hv
      obtain ⟨front, back, rfl, hitem, hcount⟩ := exists_front_of_filter hc
      refine ⟨front, c, back, rfl, hitem, ?_, hcv⟩
      rw [Node.commas_eq_countP hfull hparted hitem, hcount]
      rfl
    · rintro ⟨front, c, back, rfl, hitem, rfl, hcv⟩
      have hplace :
          ((front ++ c :: back).filter Node.isItem)[front.countP Node.isItem]? = some c := by
        rw [List.filter_append, List.filter_cons_of_pos hitem, List.countP_eq_length_filter]
        simp
      obtain ⟨w, hw, hcw⟩ := forall₂_getElem? hitems hplace
      rw [hcv] at hcw
      cases hcw
      rw [Node.commas_eq_countP hfull hparted hitem]
      exact hw
  place_unique vs hvs front c back front' c' back' hcs hcs' hitem hitem' hcommas := by
    obtain ⟨hfull, -⟩ := itemValues_eq_some.mp ((hwhole vs).mp hvs)
    have hcount := Node.commas_eq_countP (hcs ▸ hfull) (hcs ▸ hparted) hitem
    have hcount' := Node.commas_eq_countP (hcs' ▸ hfull) (hcs' ▸ hparted) hitem'
    refine front_eq_of_countP (hcs.symm.trans hcs') hitem hitem' ?_
    simpa [hcount, hcount'] using hcommas

theorem valueWithin_of_array {n : Node} (harray : n.symbol = .array) (room : Nat) :
    src.valueWithin (room + 1) n = (src.itemValues room true n.children).map (·.map .list) := by
  rw [valueWithin_eq, harray]

theorem valueWithin_eq_list {n : Node} (harray : n.symbol = .array) {vs : List Value} :
    src.valueWithin (room + 1) n = .ok (some (.list vs)) ↔
      src.itemValues room true n.children = .ok (some vs) := by
  rw [valueWithin_of_array harray]
  cases src.itemValues room true n.children with
  | error e => simp [Except.map]
  | ok found => cases found <;> simp [Except.map]

/-- Where items never follow each other without a comma, an array makes a list unless there is a
hole or an item without a value, and the item with so many commas in front of it stands at that
index. An array that there is room for holds the values that its items have by themselves in that
room. A trailing comma adds nothing. -/
theorem array_by_position {n : Node} (harray : n.symbol = .array)
    (hparted : Node.ItemsParted true n.children) :
    (∀ room, ListsItems (src.valueWithin (room + 1) n) (src.valueWithin room) n.children) ∧
    (∀ room, n.nesting ≤ room →
      ListsItems (src.valueWithin room n) (src.valueWithin room) n.children) ∧
    ∀ front c back, n.children = front ++ c :: back → c.symbol = .comma →
      (∀ d ∈ back, ¬d.isSlot = true) → Node.HoleFree true n.children → ∀ room,
        src.valueWithin room { n with children := front ++ back } = src.valueWithin room n := by
  have hlists (room : Nat) :
      ListsItems (src.valueWithin (room + 1) n) (src.valueWithin room) n.children :=
    listsItems_of_itemsParted hparted fun vs => valueWithin_eq_list harray
  refine ⟨hlists, fun room hnesting => ?_, fun front c back hchildren hcomma hback hfull room => ?_⟩
  · -- An item is nested less deep than the array, so the level that the array takes is not missed.
    simp only [Node.nesting_eq n, harray] at hnesting
    obtain ⟨inner, rfl⟩ : ∃ inner, room = inner + 1 := ⟨room - 1, by omega⟩
    refine (hlists inner).congr fun c hc => ?_
    have hle := Node.nesting_le_nestingOf hc
    exact valueWithin_of_nesting_le (by omega) (by omega)
  · cases room with
    | zero => rw [valueWithin_eq, valueWithin_eq, harray]
    | succ room =>
      rw [hchildren] at hfull
      rw [valueWithin_of_array (n := n) harray, hchildren, itemValues_trailing hcomma hback hfull]
      exact valueWithin_of_array (n := { n with children := front ++ back }) harray room

end Source

/-! The text `[true,/**/null,]`, and its array without the last comma. -/
namespace Sample

def trailingArray : Node :=
  node none .array 0 16
    [token .leftBracket 0 1, node none .trueLiteral 1 5 [], token .comma 5 6,
     node none .comment 6 10 [], node none .nullLiteral 10 14 [], token .comma 14 15,
     token .rightBracket 15 16]

def plainArray : Node :=
  node none .array 0 16
    [token .leftBracket 0 1, node none .trueLiteral 1 5 [], token .comma 5 6,
     node none .comment 6 10 [], node none .nullLiteral 10 14 [], token .rightBracket 15 16]

def trailingSource : Source :=
  ⟨none, "[true,/**/null,]".toList.toArray, .same,
    node none (.other "program") 0 16 [trailingArray]⟩

end Sample

namespace Source

/-- The comment does not count, and nothing comes of the last comma. -/
theorem array_by_position_sample :
    Node.ItemsParted true Sample.trailingArray.children ∧
    Sample.trailingArray.nesting ≤ 1 ∧
    (∃ vs, Sample.trailingSource.valueWithin 1 Sample.trailingArray = .ok (some (.list vs)) ∧
      vs[1]? = some .null) ∧
    ∀ room, Sample.trailingSource.valueWithin room Sample.plainArray =
      Sample.trailingSource.valueWithin room Sample.trailingArray := by
  have hparted : Node.ItemsParted true Sample.trailingArray.children := by decide
  have hnesting : Sample.trailingArray.nesting ≤ 1 := by decide
  have hvalue : Sample.trailingSource.valueWithin 1 Sample.trailingArray =
    .ok (some (.list [.bool true, .null])) := rfl
  obtain ⟨-, hown, htrailing⟩ :=
    @array_by_position Sample.trailingSource Sample.trailingArray rfl hparted
  refine ⟨hparted, hnesting, ⟨_, hvalue, ((hown 1 hnesting).at_iff _ hvalue 1 .null).mpr ?_⟩, ?_⟩
  · exact ⟨Sample.trailingArray.children.take 4, Sample.node none .nullLiteral 10 14 [],
      Sample.trailingArray.children.drop 5, rfl, rfl, rfl, rfl⟩
  · exact htrailing (Sample.trailingArray.children.take 5) (Sample.token .comma 14 15)
      [Sample.token .rightBracket 15 16] rfl rfl (by decide) (by decide)

end Source
end SuiteOutline
