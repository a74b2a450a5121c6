import SuiteOutline.Proofs.Descent
import SuiteOutline.Proofs.Shift

/-! Replicas of a source. The nodes of a replica are those of the source, maybe without some of the
comments, and everything stands the same number of characters later. Here: the tree looks the same
from every node. -/
namespace SuiteOutline

/-- The second list is the image of the first, with some elements left out. -/
inductive Thinned {α β : Type} (f : α → β) (kept dropped : α → Prop) : List α → List β → Prop
  | nil : Thinned f kept dropped [] []
  | keep {a : α} {as : List α} {bs : List β} (ha : kept a) (h : Thinned f kept dropped as bs) :
      Thinned f kept dropped (a :: as) (f a :: bs)
  | drop {a : α} {as : List α} {bs : List β} (ha : dropped a) (h : Thinned f kept dropped as bs) :
      Thinned f kept dropped (a :: as) bs

namespace Thinned

variable {α β : Type} {f : α → β} {kept dropped : α → Prop} {as as' : List α} {bs bs' : List β}

theorem append (h : Thinned f kept dropped as bs) (h' : Thinned f kept dropped as' bs') :
    Thinned f kept dropped (as ++ as') (bs ++ bs') := by
  induction h with
  | nil => exact h'
  | keep ha _ ih => exact .keep ha ih
  | drop ha _ ih => exact .drop ha ih

theorem of_forall (h : ∀ a ∈ as, kept a) : Thinned f kept dropped as (as.map f) := by
  induction as with
  | nil => exact .nil
  | cons a as ih =>
    exact .keep (h a List.mem_cons_self) (ih fun b hb => h b (List.mem_cons_of_mem a hb))

/-- What a filter lets through is the same if it lets nothing through that was left out. -/
theorem filter_eq (h : Thinned f kept dropped as bs) {p : α → Bool} {q : β → Bool}
    (hkept : ∀ a, q (f a) = p a) (hdropped : ∀ a, dropped a → p a = false) :
    bs.filter q = (as.filter p).map f ∧ ∀ a ∈ as.filter p, kept a := by
  induction h with
  | nil => exact ⟨rfl, by simp⟩
  | @keep a as bs ha _ ih =>
    cases hp : p a with
    | false => simpa [hkept, hp] using ih
    | true => simpa [hkept, hp, ha] using ih
  | @drop a as bs ha _ ih => simpa [hdropped a ha] using ih

theorem filter (h : Thinned f kept dropped as bs) {p : α → Bool} {q : β → Bool}
    (hkept : ∀ a, q (f a) = p a) : Thinned f kept dropped (as.filter p) (bs.filter q) := by
  induction h with
  | nil => exact .nil
  | @keep a as bs ha _ ih =>
    cases hp : p a with
    | false => simpa [hkept, hp] using ih
    | true => simpa [hkept, hp] using .keep ha ih
  | @drop a as bs ha _ ih =>
    cases hp : p a with
    | false => simpa [hp] using ih
    | true => simpa [hp] using .drop ha ih

end Thinned

/-- A comment without parts and without a role. -/
structure Node.IsBareComment (n : Node) : Prop where
  symbol : n.symbol = .comment
  role : n.role = none
  leaf : n.children = []

/-- A list is what remains of it if nothing is dropped. -/
theorem thinned_self (cs : List Node) :
    Thinned id (fun _ => True) Node.IsBareComment cs (id cs) := by
  have hall : Thinned id (fun _ => True) Node.IsBareComment cs (cs.map id) :=
    .of_forall fun _ _ => trivial
  rwa [List.map_id] at hall

/-- A string or a template, whose value is what stands between its first and last character. -/
def Node.isQuoted (n : Node) : Bool := n.symbol = .string || n.symbol = .templateString

/-- A source that looks the same from every node, whatever it goes by. -/
structure Likeness (src copy : Source) where
  node : Node → Node
  /-- How many characters later everything stands. -/
  shift : Nat
  /-- The nodes for which this holds: those of the tree. -/
  Met : Node → Prop
  symbol : ∀ n, (node n).symbol = n.symbol
  role : ∀ n, (node n).role = n.role
  named : ∀ n, (node n).named = n.named
  children : ∀ {n}, Met n →
    Thinned node Met Node.IsBareComment n.children (node n).children
  startOf : ∀ {n}, Met n → copy.startOf (node n) = carry shift (· + shift) (src.startOf n)
  stopOf : ∀ {n}, Met n → copy.stopOf (node n) = carry shift (· + shift) (src.stopOf n)
  slice : ∀ start stop, copy.slice (start + shift) (stop + shift) = src.slice start stop
  inside : ∀ {n}, Met n → n.isQuoted = true →
    copy.inside (node n) = carry shift (·.shift shift) (src.inside n)

structure Replica (src copy : Source) extends Likeness src copy where
  filename : copy.filename = src.filename

/-- Another tree over the same text, with nodes that stand where they stood. -/
def Replica.ofNodes (src : Source) (node : Node → Node) (Met : Node → Prop) (root : Node)
    (symbol : ∀ n, (node n).symbol = n.symbol) (role : ∀ n, (node n).role = n.role)
    (named : ∀ n, (node n).named = n.named) (span : ∀ n, (node n).span = n.span)
    (children : ∀ {n}, Met n → Thinned node Met Node.IsBareComment n.children (node n).children) :
    Replica src { src with root } where
  node := node
  shift := 0
  Met := Met
  filename := rfl
  symbol := symbol
  role := role
  named := named
  children := children
  startOf {n} _ := by
    have hstart : (node n).start = n.start := congrArg Span.start (span n)
    unfold Source.startOf
    rw [hstart]
    exact (carry_zero_id (src.offset n.start)).symm
  stopOf {n} _ := by
    have hstop : (node n).stop = n.stop := congrArg Span.stop (span n)
    unfold Source.stopOf
    rw [hstop]
    exact (carry_zero_id (src.offset n.stop)).symm
  slice _ _ := rfl
  inside {n} _ _ := by
    have hspan : ({ src with root } : Source).spanOf (node n) = src.spanOf n := by
      unfold Source.spanOf Source.startOf Source.stopOf Node.start Node.stop
      rw [span]
      rfl
    unfold Source.inside
    rw [hspan, Span.shift_zero]
    exact (carry_zero_id _).symm

def Link.map (f : Node → Node) (l : Link) : Link := ⟨f l.name, l.calls⟩

def Descent.map (f : Node → Node) (d : Descent) : Descent := ⟨d.links.map (·.map f), d.complete⟩

namespace Likeness

variable {src copy : Source} (r : Likeness src copy) {n : Node}

theorem isMember_node (c : Node) : (r.node c).isMember = c.isMember := by
  simp only [Node.isMember, r.named, r.symbol]

theorem members_node (hn : r.Met n) :
    (r.node n).members = n.members.map r.node ∧ ∀ c ∈ n.members, r.Met c := by
  refine (r.children hn).filter_eq r.isMember_node fun c hc => ?_
  simp [Node.isMember, hc.symbol]

theorem child?_node (hn : r.Met n) (role : Role) :
    (r.node n).child? role = (n.child? role).map r.node ∧ ∀ c ∈ n.child? role, r.Met c := by
  obtain ⟨heq, hmet⟩ := (r.children hn).filter_eq (p := (·.role == some role))
    (q := (·.role == some role)) (fun c => by rw [r.role]) fun c hc => by simp [hc.role]
  rw [Node.child?, Node.child?, ← List.head?_filter, ← List.head?_filter, heq, List.head?_map]
  exact ⟨rfl, fun c hc => hmet c (List.mem_of_mem_head? hc)⟩

theorem unwrap_node (hn : r.Met n) :
    (r.node n).unwrap = r.node n.unwrap ∧ r.Met n.unwrap := by
  induction n using Node.childrenInduction with
  | node n ih =>
    obtain ⟨hmembers, hmet⟩ := r.members_node hn
    rw [Node.unwrap_eq, Node.unwrap_eq n, r.symbol, hmembers, List.head?_map]
    split
    · cases hc : n.members.head? with
      | none => exact ⟨rfl, hn⟩
      | some c =>
        have hmem := List.mem_of_mem_head? hc
        have hchild := Node.mem_children_of_mem_namedChildren (Node.mem_members hmem)
        exact ih c hchild (hmet c hmem)
    · exact ⟨rfl, hn⟩

theorem isCall_node (hn : r.Met n) : (r.node n).isCall = n.isCall := by
  rw [Node.isCall, Node.isCall, (r.child?_node hn .arguments).1, r.symbol]
  cases n.child? .arguments with
  | none => rfl
  | some list => simp [r.symbol]

theorem callArguments_node (hn : r.Met n) :
    (r.node n).callArguments = n.callArguments.map r.node ∧ ∀ arg ∈ n.callArguments, r.Met arg := by
  obtain ⟨heq, hmet⟩ := r.child?_node hn .arguments
  rw [Node.callArguments, Node.callArguments, heq]
  cases hlist : n.child? .arguments with
  | none => exact ⟨rfl, by simp⟩
  | some list =>
    simp only [Option.map_some, r.symbol]
    split
    · exact r.members_node (hmet list hlist)
    · exact ⟨rfl, by simp⟩

theorem callee?_node (hn : r.Met n) :
    (r.node n).callee? = n.callee?.map r.node ∧ ∀ c ∈ n.callee?, r.Met c := by
  obtain ⟨heq, hmet⟩ := r.child?_node hn .function
  rw [Node.callee?, Node.callee?, heq]
  cases hc : n.child? .function with
  | none => exact ⟨rfl, by simp⟩
  | some c =>
    obtain ⟨hunwrap, hmetc⟩ := r.unwrap_node (hmet c hc)
    refine ⟨congrArg some hunwrap, ?_⟩
    rintro d ⟨⟩
    exact hmetc

theorem kind_node (hn : r.Met n) : (r.node n).kind = n.kind := by
  obtain ⟨hunwrap, hmet⟩ := r.unwrap_node hn
  rw [Node.kind, Node.kind, hunwrap, r.symbol, r.isCall_node hmet]

theorem kindName_node (hn : r.Met n) : (r.node n).kindName = n.kindName := by
  rw [Node.kindName, Node.kindName, r.kind_node hn, (r.unwrap_node hn).1, r.symbol]

theorem isFunction_node (hn : r.Met n) : (r.node n).isFunction = n.isFunction := by
  rw [Node.isFunction, Node.isFunction, r.kind_node hn]

theorem property?_node (hn : r.Met n) :
    (r.node n).property? = n.property?.map r.node ∧ ∀ p ∈ n.property?, r.Met p := by
  obtain ⟨heq, hmet⟩ := r.child?_node hn .property
  rw [Node.property?, Node.property?, heq]
  refine ⟨?_, fun p hp => hmet p (Option.filter_eq_some_iff.mp hp).1⟩
  cases n.child? .property with
  | none => rfl
  | some p =>
    simp only [Option.map_some, Option.filter_some, r.symbol]
    split <;> rfl

/-- The way into a callee is the same, and it meets nodes of the tree only. -/
theorem descend_node (hn : r.Met n) (calls : Nat) {met : List Link}
    (hmet : ∀ l ∈ met, r.Met l.name) :
    (r.node n).descend calls (met.map (·.map r.node)) = (n.descend calls met).map r.node ∧
      ∀ l ∈ (n.descend calls met).links, r.Met l.name := by
  induction n using Node.childrenInduction generalizing calls met with
  | node n ih =>
    rw [Node.descend_eq, Node.descend_eq calls met n, r.symbol]
    split
    case h_1 =>
      obtain ⟨hmembers, hmembersMet⟩ := r.members_node hn
      rw [hmembers, List.head?_map]
      cases hc : n.members.head? with
      | none => exact ⟨rfl, hmet⟩
      | some c =>
        have hmem := List.mem_of_mem_head? hc
        have hchild := Node.mem_children_of_mem_namedChildren (Node.mem_members hmem)
        exact ih c hchild (hmembersMet c hmem) calls hmet
    case h_2 | h_3 => exact ⟨rfl, List.forall_mem_cons.mpr ⟨hn, hmet⟩⟩
    case h_4 =>
      obtain ⟨hproperty, hpropertyMet⟩ := r.property?_node hn
      rw [hproperty]
      cases hp : n.property? with
      | none => exact ⟨rfl, hmet⟩
      | some p =>
        have hmet' : ∀ l ∈ (⟨p, calls⟩ : Link) :: met, r.Met l.name :=
          List.forall_mem_cons.mpr ⟨hpropertyMet p hp, hmet⟩
        obtain ⟨hobject, hobjectMet⟩ := r.child?_node hn .object
        simp only [Option.map_some, hobject]
        cases hc : n.child? .object with
        | none => exact ⟨rfl, hmet'⟩
        | some c => exact ih c (Node.child?_eq_some hc).1 (hobjectMet c hc) 0 hmet'
    case h_5 =>
      rw [r.isCall_node hn]
      split
      · obtain ⟨hfunction, hfunctionMet⟩ := r.child?_node hn .function
        rw [hfunction]
        cases hc : n.child? .function with
        | none => exact ⟨rfl, hmet⟩
        | some c => exact ih c (Node.child?_eq_some hc).1 (hfunctionMet c hc) (calls + 1) hmet
      · exact ⟨rfl, hmet⟩
    case h_6 => exact ⟨rfl, hmet⟩

theorem calleeDescent_node (hn : r.Met n) :
    (r.node n).calleeDescent = n.calleeDescent.map r.node ∧
      ∀ l ∈ n.calleeDescent.links, r.Met l.name := by
  rw [Node.calleeDescent, Node.calleeDescent, r.isCall_node hn]
  split
  · obtain ⟨hfunction, hmet⟩ := r.child?_node hn .function
    rw [hfunction]
    cases hc : n.child? .function with
    | none => exact ⟨rfl, by simp⟩
    | some c => exact r.descend_node (hmet c hc) 0 (List.forall_mem_nil _)
  · exact ⟨rfl, by simp⟩

theorem nameNode?_node (hn : r.Met n) :
    (r.node n).nameNode? = n.nameNode?.map r.node ∧ ∀ m ∈ n.nameNode?, r.Met m := by
  have hself : ∀ m ∈ some n, r.Met m := by
    rintro m ⟨⟩
    exact hn
  induction n using Node.childrenInduction with
  | node n ih =>
    rw [Node.nameNode?_eq, Node.nameNode?_eq n, r.symbol]
    split
    case h_1 =>
      obtain ⟨hmembers, hmet⟩ := r.members_node hn
      rw [hmembers, List.head?_map]
      cases hc : n.members.head? with
      | none => exact ⟨rfl, hself⟩
      | some c =>
        have hmem := List.mem_of_mem_head? hc
        have hchild := Node.mem_children_of_mem_namedChildren (Node.mem_members hmem)
        have hmetc := hmet c hmem
        exact ih c hchild hmetc (by rintro m ⟨⟩; exact hmetc)
    case h_2 =>
      rw [r.isCall_node hn]
      split
      · obtain ⟨hfunction, hmet⟩ := r.child?_node hn .function
        rw [hfunction]
        cases hc : n.child? .function with
        | none => exact ⟨rfl, by simp⟩
        | some c =>
          have hmetc := hmet c hc
          exact ih c (Node.child?_eq_some hc).1 hmetc (by rintro m ⟨⟩; exact hmetc)
      · exact ⟨rfl, hself⟩
    case h_3 => exact r.child?_node hn .property
    case h_4 => exact ⟨rfl, hself⟩

/-- A call's name stands where it stood, be it at the name or at the call itself. -/
theorem anchor_node (hn : r.Met n) :
    (r.node n).anchor?.getD (r.node n) = r.node (n.anchor?.getD n) ∧
      r.Met (n.anchor?.getD n) := by
  obtain ⟨hfunction, hmet⟩ := r.child?_node hn .function
  rw [Node.anchor?, Node.anchor?, hfunction]
  cases hc : n.child? .function with
  | none => exact ⟨rfl, hn⟩
  | some c =>
    obtain ⟨hname, hnameMet⟩ := r.nameNode?_node (hmet c hc)
    simp only [Option.map_some, Option.bind_some, hname]
    cases hm : c.nameNode? with
    | none => exact ⟨rfl, hn⟩
    | some m => exact ⟨rfl, hnameMet m hm⟩

end Likeness
end SuiteOutline
