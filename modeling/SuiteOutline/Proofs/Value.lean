import SuiteOutline.Proofs.Subtree
import SuiteOutline.Value.Materialize

/-! Values of expressions, one equation for each form of node. -/
namespace SuiteOutline

/-- As induction on the children, with the hypothesis for all that is below them too: the value of
an object's entry is two levels down. -/
@[elab_as_elim] theorem Node.belowInduction {motive : Node → Prop}
    (node : ∀ n : Node, (∀ c ∈ n.children, ∀ m ∈ c.nodes, motive m) → motive n) (n : Node) :
    motive n := by
  have h : ∀ m ∈ n.nodes, motive m := by
    induction n using childrenInduction with
    | node n ih =>
      intro m hm
      rcases mem_nodes_iff.mp hm with rfl | ⟨c, hc, hm⟩
      · exact node m ih
      · exact ih c hc m hm
  exact h n n.self_mem_nodes

namespace Source

variable (src : Source)

theorem firstValue_eq (room : Nat) (cs : List Node) :
    src.firstValue room cs =
      ((cs.filter Node.isMember).head?.map (src.valueWithin room)).getD (.ok none) := by
  induction cs with
  | nil => rfl
  | cons c cs ih =>
    rw [firstValue, ih]
    cases hc : c.isMember <;> simp [hc]

theorem roleValue_eq (room : Nat) (cs : List Node) :
    src.roleValue room cs =
      ((cs.find? (·.role == some .value)).map (src.valueWithin room)).getD (.ok none) := by
  induction cs with
  | nil => rfl
  | cons c cs ih =>
    rw [roleValue, ih, List.find?_cons]
    cases c.role == some .value <;> rfl

theorem valueWithin_eq (room : Nat) (n : Node) :
    src.valueWithin room n = match n.symbol with
      | .parenthesizedExpression => (n.members.head?.map (src.valueWithin room)).getD (.ok none)
      | .templateString => (src.template true n).map (·.map .text)
      | .object =>
        match room with
        | 0 => .ok none
        | room + 1 =>
          (src.entryValues room n.children).map (·.map fun ps => .object (entriesOf ps))
      | .array =>
        match room with
        | 0 => .ok none
        | room + 1 => (src.itemValues room true n.children).map (·.map .list)
      | _ => src.literalValue n := by
  cases n with
  | mk symbol =>
    cases symbol with
    | parenthesizedExpression => exact src.firstValue_eq room _
    | _ => rfl

theorem entryValues_cons (room : Nat) (c : Node) (cs : List Node) :
    src.entryValues room (c :: cs) =
      if !c.isMember then src.entryValues room cs
      else if c.symbol ≠ .pair then .ok none
      else (do
        match ← src.memberName c with
        | none => return none
        | some key =>
          consValue ((((c.child? .value).map (src.valueWithin room)).getD (.ok none)).map
            (·.map (key, ·))) (src.entryValues room cs)) := by
  cases c
  rw [entryValues, roleValue_eq]
  rfl

end Source
end SuiteOutline
