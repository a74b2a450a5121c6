import SuiteOutline.Proofs.Calls

/-! The way into a callee ends at an identifier exactly if the callee is a chain of names. -/
namespace SuiteOutline
namespace Node

/-- The expression is a chain: the links in front of the last one, and the last one with the calls
made of it in the expression itself. -/
inductive Chained : Node → List Link → Link → Prop
  | name {n : Node} (h : n.symbol = .identifier ∨ n.symbol = .undefined) : Chained n [] ⟨n, 0⟩
  | parens {n c : Node} {ls : List Link} {l : Link} (h : n.symbol = .parenthesizedExpression)
      (hc : n.members.head? = some c) (hchain : Chained c ls l) : Chained n ls l
  | member {n p c : Node} {ls : List Link} {l : Link} (h : n.symbol = .memberExpression)
      (hp : n.property? = some p) (hc : n.child? .object = some c) (hchain : Chained c ls l) :
      Chained n (ls ++ [l]) ⟨p, 0⟩
  | call {n c x : Node} {ls : List Link} {calls : Nat} (h : n.isCall = true)
      (hc : n.child? .function = some c) (hchain : Chained c ls ⟨x, calls⟩) :
      Chained n ls ⟨x, calls + 1⟩

theorem descendFirst_eq (calls : Nat) (met : List Link) (cs : List Node) :
    descendFirst calls met cs =
      ((cs.filter isMember).head?.map (descend calls met)).getD ⟨met, false⟩ := by
  induction cs with
  | nil => rfl
  | cons c cs ih =>
    rw [descendFirst, ih]
    cases hc : c.isMember <;> simp [hc]

theorem descendAs_eq (role : Role) (calls : Nat) (met : List Link) (cs : List Node) :
    descendAs role calls met cs =
      ((cs.find? (·.role == some role)).map (descend calls met)).getD ⟨met, false⟩ := by
  induction cs with
  | nil => rfl
  | cons c cs ih =>
    rw [descendAs, ih, List.find?_cons]
    cases c.role == some role <;> rfl

theorem descend_eq (calls : Nat) (met : List Link) (n : Node) :
    n.descend calls met = match n.symbol with
      | .parenthesizedExpression =>
        (n.members.head?.map (descend calls met)).getD ⟨met, false⟩
      | .identifier | .undefined => ⟨⟨n, calls⟩ :: met, true⟩
      | .memberExpression =>
        match n.property? with
        | some p => ((n.child? .object).map (descend 0 (⟨p, calls⟩ :: met))).getD
            ⟨⟨p, calls⟩ :: met, false⟩
        | none => ⟨met, false⟩
      | .callExpression =>
        if n.isCall then ((n.child? .function).map (descend (calls + 1) met)).getD ⟨met, false⟩
        else ⟨met, false⟩
      | _ => ⟨met, false⟩ := by
  cases n with
  | mk symbol => cases symbol <;> simp only [descend, descendFirst_eq, descendAs_eq] <;> rfl

/-- The way into a chain meets all its links. -/
theorem Chained.descend_eq {n : Node} {ls : List Link} {l : Link} (h : n.Chained ls l) (calls : Nat)
    (met : List Link) :
    n.descend calls met = ⟨ls ++ ⟨l.name, l.calls + calls⟩ :: met, true⟩ := by
  induction h generalizing calls met with
  | name h => rcases h with h | h <;> simp [Node.descend_eq, h]
  | parens h hc _ ih =>
    rw [Node.descend_eq, h]
    simp [hc, ih]
  | member h hp hc _ ih => simp [Node.descend_eq calls, h, hp, hc, ih]
  | call h hc _ ih =>
    simp [Node.descend_eq calls, (isCall_iff.mp h).1, h, hc, ih]
    omega

theorem chained_of_descend {n : Node} {calls : Nat} {met : List Link}
    (h : (n.descend calls met).complete = true) : ∃ ls l, n.Chained ls l := by
  induction n using childrenInduction generalizing calls met with
  | node n ih =>
    rw [descend_eq] at h
    split at h
    case h_1 hsymbol =>
      cases hc : n.members.head? with
      | none => simp [hc] at h
      | some c =>
        rw [hc] at h
        have hmem := mem_members (List.mem_of_mem_head? hc)
        obtain ⟨ls, l, hchain⟩ := ih c (mem_children_of_mem_namedChildren hmem) h
        exact ⟨ls, l, .parens hsymbol hc hchain⟩
    case h_2 hsymbol => exact ⟨[], ⟨n, 0⟩, .name (.inl hsymbol)⟩
    case h_3 hsymbol => exact ⟨[], ⟨n, 0⟩, .name (.inr hsymbol)⟩
    case h_4 hsymbol =>
      split at h
      case h_1 p hp =>
        cases hc : n.child? .object with
        | none => simp [hc] at h
        | some c =>
          rw [hc] at h
          obtain ⟨ls, l, hchain⟩ := ih c (child?_eq_some hc).1 h
          exact ⟨ls ++ [l], ⟨p, 0⟩, .member hsymbol hp hc hchain⟩
      case h_2 => cases h
    case h_5 =>
      split at h
      case isTrue hcall =>
        cases hc : n.child? .function with
        | none => simp [hc] at h
        | some c =>
          rw [hc] at h
          obtain ⟨ls, ⟨x, k⟩, hchain⟩ := ih c (child?_eq_some hc).1 h
          exact ⟨ls, ⟨x, k + 1⟩, .call hcall hc hchain⟩
      case isFalse => cases h
    case h_6 => cases h

end Node

/-- A call has segments if its callee is a chain, and they are the texts of the links. -/
theorem Source.segments?_eq_some {src : Source} {call : Node} {segments : List String} :
    src.segments? call = .ok (some segments) ↔
      call.isCall = true ∧ ∃ c ls l, call.child? .function = some c ∧ c.Chained ls l ∧
        List.Forall₂ (fun link s => link.text src = .ok s) (ls ++ [l]) segments := by
  simp only [segments?, bind_eq_ok, pure_eq_ok]
  constructor
  · rintro ⟨names, hnames, h⟩
    split at h
    case isFalse => cases h
    case isTrue hcomplete =>
      cases h
      unfold Node.calleeDescent at hcomplete hnames
      split at hcomplete
      case isFalse => cases hcomplete
      case isTrue hcall =>
        cases hc : call.child? .function with
        | none => simp [hc] at hcomplete
        | some c =>
          simp only [hc, Option.map_some, Option.getD_some, hcall, if_true] at hcomplete hnames
          obtain ⟨ls, l, hchain⟩ := Node.chained_of_descend hcomplete
          rw [hchain.descend_eq, mapM_eq_ok] at hnames
          exact ⟨hcall, c, ls, l, rfl, hchain, hnames⟩
  · rintro ⟨hcall, c, ls, l, hc, hchain, hnames⟩
    have hdescent : call.calleeDescent = ⟨ls ++ [l], true⟩ := by
      simp [Node.calleeDescent, hcall, hc, hchain.descend_eq]
    rw [hdescent]
    exact ⟨segments, mapM_eq_ok.mpr hnames, rfl⟩

namespace Node

/-- A name as chains are built of. -/
def isName (n : Node) : Bool :=
  n.symbol = .identifier || n.symbol = .undefined || n.symbol = .propertyIdentifier ||
    n.symbol = .privatePropertyIdentifier

/-- What is called, and what a property is read from, are named nodes. -/
def CalleesNamed (root : Node) : Prop :=
  ∀ n ∈ root.nodes, ∀ c ∈ n.children, c.role = some .function ∨ c.role = some .object →
    c.named = true

instance (root : Node) : Decidable root.CalleesNamed :=
  inferInstanceAs (Decidable (∀ n ∈ root.nodes, ∀ c ∈ n.children,
    c.role = some .function ∨ c.role = some .object → c.named = true))

theorem CalleesNamed.mem_walk {root n c : Node} (h : root.CalleesNamed) {role : Role}
    (hrole : role = .function ∨ role = .object) (hn : n ∈ root.walk)
    (hc : n.child? role = some c) : c ∈ root.walk := by
  obtain ⟨hmem, hr⟩ := child?_eq_some hc
  have hnamed : c.named = true := by
    refine h n (reaches_of_mem_walk hn).mem_nodes c hmem ?_
    rcases hrole with rfl | rfl
    · exact .inl hr
    · exact .inr hr
  exact mem_walk_trans hn (mem_walk_of_mem_namedChildren (List.mem_filter.mpr ⟨hmem, hnamed⟩))

theorem property?_eq_some {n p : Node} (h : n.property? = some p) :
    n.child? .property = some p ∧ p.isName = true := by
  obtain ⟨hp, hsymbol⟩ := Option.filter_eq_some_iff.mp h
  refine ⟨hp, ?_⟩
  simp only [Bool.or_eq_true, decide_eq_true_eq] at hsymbol
  rcases hsymbol with h | h <;> simp [isName, h]

theorem unwrap_of_ne {n : Node} (h : n.symbol ≠ .parenthesizedExpression) : n.unwrap = n := by
  rw [unwrap_eq, if_neg h]

theorem unwrap_of_head? {n c : Node} (h : n.symbol = .parenthesizedExpression)
    (hc : n.members.head? = some c) : n.unwrap = c.unwrap := by
  rw [unwrap_eq, if_pos h, hc, Option.map_some, Option.getD_some]

theorem unwrap_of_none {n : Node} (h : n.symbol = .parenthesizedExpression)
    (hc : n.members.head? = none) : n.unwrap = n := by
  rw [unwrap_eq, if_pos h, hc, Option.map_none, Option.getD_none]

theorem unwrap_unwrap (n : Node) : n.unwrap.unwrap = n.unwrap := by
  induction n using childrenInduction with
  | node n ih =>
    by_cases h : n.symbol = .parenthesizedExpression
    · cases hc : n.members.head? with
      | none => rw [unwrap_of_none h hc, unwrap_of_none h hc]
      | some c =>
        have hmem := mem_members (List.mem_of_mem_head? hc)
        rw [unwrap_of_head? h hc, ih c (mem_children_of_mem_namedChildren hmem)]
    · rw [unwrap_of_ne h, unwrap_of_ne h]

theorem kind_unwrap (n : Node) : n.unwrap.kind = n.kind := by
  rw [kind, kind, unwrap_unwrap]

theorem kind_unwrap_eq_member {n : Node} :
    n.unwrap.kind = .member ↔ n.unwrap.symbol = .memberExpression := by
  rw [kind, unwrap_unwrap]
  cases n.unwrap.symbol <;> simp [Kind.ofSymbol]
  split <;> simp

theorem symbol_unwrap_of_template {n : Node} (h : n.kind = .template) :
    n.unwrap.symbol = .templateString := by
  revert h
  unfold kind
  cases n.unwrap.symbol <;> simp [Kind.ofSymbol]
  split <;> simp

namespace Chained

variable {n : Node} {ls : List Link} {l : Link}

/-- The last link of a property access is the property, and the object is a chain too. -/
theorem object (h : n.Chained ls l) (hmember : n.unwrap.symbol = .memberExpression) :
    l.calls = 0 ∧ n.unwrap.property? = some l.name ∧
      ∃ c ls' l', n.unwrap.child? .object = some c ∧ ls = ls' ++ [l'] ∧ c.Chained ls' l' := by
  induction h with
  | name h =>
    rcases h with h | h <;> rw [unwrap_of_ne (by simp [h]), h] at hmember <;> cases hmember
  | parens h hc _ ih =>
    rw [unwrap_of_head? h hc] at hmember ⊢
    exact ih hmember
  | member h hp hc hchain =>
    rw [unwrap_of_ne (by simp [h])]
    exact ⟨rfl, hp, _, _, _, hc, rfl, hchain⟩
  | call h =>
    have hsymbol := (isCall_iff.mp h).1
    rw [unwrap_of_ne (by simp [hsymbol]), hsymbol] at hmember
    cases hmember

/-- A chain of several links whose last one is not called is a property access. -/
theorem symbol_unwrap (h : n.Chained ls l) (hls : ls ≠ []) (hcalls : l.calls = 0) :
    n.unwrap.symbol = .memberExpression := by
  induction h with
  | name => exact absurd rfl hls
  | parens h hc _ ih =>
    rw [unwrap_of_head? h hc]
    exact ih hls hcalls
  | member h => rw [unwrap_of_ne (by simp [h]), h]
  | call => cases hcalls

/-- Where the last link of a chain is called, the innermost of these calls is on the walk. -/
theorem innermost_call {root x : Node} (hnamed : root.CalleesNamed) {calls : Nat}
    (h : n.Chained ls ⟨x, calls + 1⟩) (hn : n ∈ root.nodes) :
    ∃ m ∈ n.walk, m.isCall = true ∧ ∃ c, m.child? .function = some c ∧ c.Chained ls ⟨x, 0⟩ := by
  generalize hl : (⟨x, calls + 1⟩ : Link) = l at h
  induction h generalizing calls with
  | name => cases hl
  | parens _ hc _ ih =>
    have hmem := mem_members (List.mem_of_mem_head? hc)
    have hchild := mem_nodes_of_mem_children (mem_children_of_mem_namedChildren hmem)
    obtain ⟨m, hm, hinner⟩ := ih (mem_nodes_trans hn hchild) hl
    exact ⟨m, mem_walk_iff.mpr (.inr ⟨_, hmem, hm⟩), hinner⟩
  | member => cases hl
  | @call n c x' ls k hcall hc hchain ih =>
    cases hl
    cases k with
    | zero => exact ⟨n, n.self_mem_walk, hcall, c, hc, hchain⟩
    | succ k =>
      obtain ⟨hmem, hrole⟩ := child?_eq_some hc
      have hchild : c ∈ n.namedChildren :=
        List.mem_filter.mpr ⟨hmem, hnamed n hn c hmem (.inl hrole)⟩
      obtain ⟨m, hm, hinner⟩ := ih (mem_nodes_trans hn (mem_nodes_of_mem_children hmem)) rfl
      exact ⟨m, mem_walk_iff.mpr (.inr ⟨c, hchild, hm⟩), hinner⟩

theorem reaches_last (h : n.Chained ls l) : n.Reaches l.name ∧ l.name.isName = true := by
  induction h with
  | @name n h =>
    refine ⟨.refl n, ?_⟩
    rcases h with h | h <;> simp [isName, h]
  | parens _ hc _ ih =>
    exact ⟨(reaches_of_mem_members (List.mem_of_mem_head? hc)).trans ih.1, ih.2⟩
  | member _ hp =>
    obtain ⟨hp, hname⟩ := property?_eq_some hp
    exact ⟨reaches_child? hp, hname⟩
  | call _ hc _ ih => exact ⟨(reaches_child? hc).trans ih.1, ih.2⟩

end Chained
end Node
end SuiteOutline
