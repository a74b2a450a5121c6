import SuiteOutline.Proofs.ReplicaOutline
import SuiteOutline.Proofs.WellFormed

/-! Comments are invisible: an outline is the same without them. -/
namespace SuiteOutline
namespace Node

mutual
/-- The node without the comments below it. -/
def uncommented : Node → Node
  | ⟨symbol, span, role, named, missing, children⟩ =>
    ⟨symbol, span, role, named, missing, uncommentedAll children⟩

def uncommentedAll : List Node → List Node
  | [] => []
  | c :: cs => if c.symbol = .comment then uncommentedAll cs else uncommented c :: uncommentedAll cs
end

theorem uncommented_eq (n : Node) :
    n.uncommented = { n with children := uncommentedAll n.children } := by
  cases n
  rw [uncommented]

theorem thinned_uncommentedAll {kept : Node → Prop} {cs : List Node} (hkept : ∀ c ∈ cs, kept c)
    (hcomments : ∀ c ∈ cs, c.symbol = .comment → c.IsBareComment) :
    Thinned uncommented kept IsBareComment cs (uncommentedAll cs) := by
  induction cs with
  | nil =>
    rw [uncommentedAll]
    exact .nil
  | cons c cs ih =>
    obtain ⟨hc, hkept⟩ := List.forall_mem_cons.mp hkept
    obtain ⟨hcomment, hcomments⟩ := List.forall_mem_cons.mp hcomments
    rw [uncommentedAll]
    split
    case isTrue hsymbol => exact .drop (hcomment hsymbol) (ih hkept hcomments)
    case isFalse => exact .keep hc (ih hkept hcomments)

end Node

def Source.uncommented (src : Source) : Source := { src with root := src.root.uncommented }

/-- A source without its comments looks like the source. -/
def Replica.uncommented (src : Source)
    (hcomments : ∀ n ∈ src.root.nodes, n.symbol = .comment → n.IsBareComment) :
    Replica src src.uncommented :=
  .ofNodes src Node.uncommented (· ∈ src.root.nodes) src.root.uncommented
    (fun n => by rw [n.uncommented_eq]) (fun n => by rw [n.uncommented_eq])
    (fun n => by rw [n.uncommented_eq]) (fun n => by rw [n.uncommented_eq]) fun {n} hn => by
      have hmet : ∀ c ∈ n.children, c ∈ src.root.nodes := fun c => Node.mem_nodes_of_child hn
      rw [n.uncommented_eq]
      exact Node.thinned_uncommentedAll hmet fun c hc => hcomments c (hmet c hc)

namespace Context

/-- Comments are invisible: without them a source has the same outline, or fails in the same way. -/
theorem outline_uncommented (src : Source)
    (hcomments : ∀ n ∈ src.root.nodes, n.symbol = .comment → n.role = none ∧ n.children = [])
    (options : Options) (v : Vocabulary) (room : Room) :
    (outline ⟨src.uncommented, options, v, room⟩).outcome =
      (outline ⟨src, options, v, room⟩).outcome := by
  have hbare : ∀ n ∈ src.root.nodes, n.symbol = .comment → n.IsBareComment :=
    fun n hn hsymbol => ⟨hsymbol, (hcomments n hn hsymbol).1, (hcomments n hn hsymbol).2⟩
  have h := (Replica.uncommented src hbare).outline_replica options v room
    src.root.self_mem_nodes rfl
  change _ = carry 0 (Outline.shift 0) _ at h
  rwa [Outline.shift_zero, carry_zero_id] at h

end Context

namespace Sample

/-- A comment in front of an argument, and one in front of an item. -/
def commentedText : List Char := "cy.get(/**/[1,/**/2])".toList

def commentedTree : Node :=
  node none (.other "program") 0 21
    [node none .callExpression 0 21
      [node (some .function) .memberExpression 0 6
        [node (some .object) .identifier 0 2 [],
         node (some .property) .propertyIdentifier 3 6 []],
       node (some .arguments) .arguments 6 21
        [node none .comment 7 11 [],
         node none .array 11 20
          [token .leftBracket 11 12, node none .number 12 13 [], token .comma 13 14,
           node none .comment 14 18 [], node none .number 18 19 [], token .rightBracket 19 20]]]]

def commented : Source := ⟨none, commentedText.toArray, .ofText commentedText, commentedTree⟩

end Sample

namespace Context

/-- The array is the first argument and has a value, with the comments and without them. -/
theorem outline_uncommented_sample :
    (∀ n ∈ Sample.commentedTree.nodes, n.symbol = .comment → n.role = none ∧ n.children = []) ∧
      Sample.commentedTree.nodes.length = 14 ∧
      Sample.commentedTree.uncommented.nodes.length = 12 ∧
      ∃ o, (outline ⟨Sample.commented.uncommented, {}, {}, .worker⟩).outcome = .ok o ∧
        o.used.map (·.map fun u => (u.arguments.map (·.span), u.literals.map (·.1))) =
          some [([⟨11, 20⟩], [0])] ∧
        (outline ⟨Sample.commented, {}, {}, .worker⟩).outcome = .ok o := by
  have hcomments : ∀ n ∈ Sample.commentedTree.nodes, n.symbol = .comment →
      n.role = none ∧ n.children = [] := by
    have hall : Sample.commentedTree.nodes.all (fun n =>
        n.symbol ≠ .comment || (n.role = none && n.children.isEmpty)) = true := by decide
    intro n hn hsymbol
    have hbare := List.all_eq_true.mp hall n hn
    simpa [hsymbol] using hbare
  have hcheck : (outline ⟨Sample.commented, {}, {}, .worker⟩).outcome.toOption.any (fun o =>
      o.used.map (·.map fun u => (u.arguments.map (·.span), u.literals.map (·.1))) =
        some [([⟨11, 20⟩], [0])]) = true := by
    decide
  obtain ⟨o, ho, hused⟩ := exists_ok_of_any hcheck
  have hsame := outline_uncommented Sample.commented hcomments {} {} .worker
  exact ⟨hcomments, by decide, by decide, o, hsame.trans ho, of_decide_eq_true hused, ho⟩

end Context
end SuiteOutline
