import SuiteOutline.Proofs.Denotes
import SuiteOutline.Proofs.ReplicaCalls

/-! Parentheses are transparent: what is read off an expression is the same when all parentheses in
it are taken away. -/
namespace SuiteOutline
namespace Node

mutual
/-- The node with all parentheses opened: what they hold takes their place among the children and
plays their role. Empty parentheses stay. -/
def opened : Node → Node
  | ⟨symbol, span, role, named, missing, children⟩ =>
    if symbol = .parenthesizedExpression then
      match openedFirst children with
      | some inner => { inner with role }
      | none => ⟨symbol, span, role, named, missing, openedAll children⟩
    else ⟨symbol, span, role, named, missing, openedAll children⟩

def openedFirst : List Node → Option Node
  | [] => none
  | c :: cs => if c.isMember then some (opened c) else openedFirst cs

def openedAll : List Node → List Node
  | [] => []
  | c :: cs => opened c :: openedAll cs
end

theorem openedFirst_eq (cs : List Node) :
    openedFirst cs = (cs.filter isMember).head?.map opened := by
  induction cs with
  | nil => rfl
  | cons c cs ih =>
    rw [openedFirst, ih]
    cases hc : c.isMember <;> simp [hc]

theorem openedAll_eq (cs : List Node) : openedAll cs = cs.map opened := by
  induction cs with
  | nil => rfl
  | cons c cs ih => rw [openedAll, ih, List.map_cons]

/-- An opened node is what the parentheses hold, with opened children, in the node's own role. -/
theorem opened_eq (n : Node) :
    n.opened = { n.unwrap with role := n.role, children := n.unwrap.children.map opened } := by
  induction n using childrenInduction with
  | node n ih =>
    obtain ⟨symbol, span, role, named, missing, children⟩ := n
    rw [opened, openedFirst_eq, openedAll_eq, unwrap_eq]
    by_cases hparens : symbol = .parenthesizedExpression
    case neg => simp only [hparens, if_false]
    case pos =>
      simp only [hparens, if_true, members]
      cases hhead : (children.filter isMember).head? with
      | none => rfl
      | some m =>
        have hmem : m ∈ children := List.mem_of_mem_filter (List.mem_of_mem_head? hhead)
        simp only [Option.map_some, Option.getD_some, ih m hmem]

@[simp] theorem symbol_opened (n : Node) : n.opened.symbol = n.unwrap.symbol := by rw [opened_eq]

@[simp] theorem span_opened (n : Node) : n.opened.span = n.unwrap.span := by rw [opened_eq]

@[simp] theorem role_opened (n : Node) : n.opened.role = n.role := by rw [opened_eq]

theorem named_opened (n : Node) : n.opened.named = n.unwrap.named := by rw [opened_eq]

@[simp] theorem children_opened (n : Node) : n.opened.children = n.unwrap.children.map opened := by
  rw [opened_eq]

theorem child?_opened (n : Node) (role : Role) :
    n.opened.child? role = (n.unwrap.child? role).map opened := by
  have hrole : (fun c : Node => c.role == some role) ∘ opened = fun c => c.role == some role := by
    funext c
    exact congrArg (· == some role) (role_opened c)
  rw [child?, child?, children_opened, List.find?_map, hrole]

/-- What parentheses hold is a member of them. -/
theorem isMember_unwrap {n : Node} (h : n.isMember = true) : n.unwrap.isMember = true := by
  induction n using childrenInduction with
  | node n ih =>
    rw [unwrap_eq]
    split
    case isFalse => exact h
    case isTrue =>
      cases hhead : n.members.head? with
      | none => exact h
      | some m =>
        have hmem := List.mem_filter.mp (List.mem_of_mem_head? hhead)
        exact ih m hmem.1 hmem.2

/-- Parentheses that cannot be opened hold nothing. -/
theorem members_unwrap {n : Node} (h : n.unwrap.symbol = .parenthesizedExpression) :
    n.unwrap.members = [] := by
  induction n using childrenInduction with
  | node n ih =>
    rw [unwrap_eq] at h ⊢
    split
    case isFalse hsymbol =>
      rw [if_neg hsymbol] at h
      exact absurd h hsymbol
    case isTrue hsymbol =>
      rw [if_pos hsymbol] at h
      cases hhead : n.members.head? with
      | none => simpa using hhead
      | some m =>
        rw [hhead] at h
        have hmem := List.mem_of_mem_filter (List.mem_of_mem_head? hhead)
        exact ih m hmem h

/-- The children of what parentheses hold are below the parentheses. -/
theorem exists_above_of_mem_unwrap {n c : Node} (h : c ∈ n.unwrap.children) :
    ∃ d ∈ n.children, c ∈ d.nodes := by
  rcases mem_nodes_iff.mp n.reaches_unwrap.mem_nodes with hself | ⟨d, hd, hmem⟩
  · rw [hself] at h
    exact ⟨c, h, c.self_mem_nodes⟩
  · exact ⟨d, hd, mem_nodes_of_child hmem h⟩

/-- Parentheses stand only where an expression may: never as members of objects or as parts of
strings and templates, never as lists of arguments, properties or keys, and never around
punctuation. -/
def ParensPlaced (root : Node) : Prop :=
  ∀ n ∈ root.nodes, ∀ c ∈ n.children, c.symbol = .parenthesizedExpression → c.named = true ∧
    n.symbol ∉ [.object, .string, .templateString] ∧
    c.role ∉ [some .arguments, some .property, some .key, some .name] ∧
    c.unwrap.symbol ∉ [.comma, .leftBracket, .rightBracket]

instance (root : Node) : Decidable root.ParensPlaced :=
  inferInstanceAs (Decidable (∀ n ∈ root.nodes, ∀ c ∈ n.children,
    c.symbol = .parenthesizedExpression → c.named = true ∧
    n.symbol ∉ [.object, .string, .templateString] ∧
    c.role ∉ [some .arguments, some .property, some .key, some .name] ∧
    c.unwrap.symbol ∉ [.comma, .leftBracket, .rightBracket]))

namespace ParensPlaced

variable {n : Node}

theorem mono {m : Node} (h : n.ParensPlaced) (hm : m ∈ n.nodes) : m.ParensPlaced :=
  fun k hk => h k (mem_nodes_trans hm hk)

theorem unwrap (h : n.ParensPlaced) : n.unwrap.ParensPlaced := h.mono n.reaches_unwrap.mem_nodes

theorem child (h : n.ParensPlaced) {c : Node} (hc : c ∈ n.children) : c.ParensPlaced :=
  h.mono (mem_nodes_of_mem_children hc)

/-- A child in such a role is no parentheses. -/
theorem unwrap_of_role (h : n.ParensPlaced) {role : Role} {c : Node} (hc : n.child? role = some c)
    (hrole : some role ∈ [some Role.arguments, some .property, some .key, some .name]) :
    c.unwrap = c := by
  obtain ⟨hmem, hplays⟩ := child?_eq_some hc
  refine unwrap_of_ne fun hparens => ?_
  have hother := (h n n.self_mem_nodes c hmem hparens).2.2.1
  rw [hplays] at hother
  exact hother hrole

/-- A child of such a node is no parentheses. -/
theorem unwrap_of_parent (h : n.ParensPlaced)
    (hsymbol : n.symbol ∈ [Symbol.object, .string, .templateString]) {c : Node}
    (hc : c ∈ n.children) : c.unwrap = c := by
  refine unwrap_of_ne fun hparens => ?_
  exact (h n n.self_mem_nodes c hc hparens).2.1 hsymbol

theorem isMember_opened (h : n.ParensPlaced) {c : Node} (hc : c ∈ n.children) :
    c.opened.isMember = c.isMember := by
  by_cases hparens : c.symbol = .parenthesizedExpression
  case pos =>
    have hnamed := (h n n.self_mem_nodes c hc hparens).1
    have hmember : c.isMember = true := by simp [isMember, hnamed, hparens]
    have hinner := isMember_unwrap hmember
    rw [hmember]
    simpa [isMember, named_opened] using hinner
  case neg => simp [isMember, named_opened, unwrap_of_ne hparens]

theorem members_opened (h : n.ParensPlaced) : n.opened.members = n.unwrap.members.map opened := by
  rw [members, members, children_opened, List.filter_map]
  refine congrArg _ (List.filter_congr fun c hc => ?_)
  exact h.unwrap.isMember_opened hc

/-- No parentheses are left in front of an opened node. -/
theorem unwrap_opened (h : n.ParensPlaced) : n.opened.unwrap = n.opened := by
  rw [unwrap_eq]
  split
  case isFalse => rfl
  case isTrue hparens =>
    rw [symbol_opened] at hparens
    rw [h.members_opened, members_unwrap hparens]
    rfl

/-! Calls and kinds. -/

theorem isCall_opened (h : n.ParensPlaced) : n.opened.isCall = n.unwrap.isCall := by
  rw [isCall, isCall, symbol_opened, child?_opened]
  cases hlist : n.unwrap.child? .arguments with
  | none => rfl
  | some list =>
    have hplain := h.unwrap.unwrap_of_role hlist (by simp)
    simp [hplain]

theorem callArguments_opened (h : n.ParensPlaced) :
    n.opened.callArguments = n.unwrap.callArguments.map opened := by
  rw [callArguments, callArguments, child?_opened]
  cases hlist : n.unwrap.child? .arguments with
  | none => rfl
  | some list =>
    have hplain := h.unwrap.unwrap_of_role hlist (by simp)
    have hmembers := (h.unwrap.child (child?_eq_some hlist).1).members_opened
    simp only [Option.map_some, symbol_opened, hmembers, hplain]
    split <;> rfl

theorem kind_opened (h : n.ParensPlaced) : n.opened.kind = n.kind := by
  rw [kind, kind, h.unwrap_opened, symbol_opened, h.isCall_opened]

theorem kindName_opened (h : n.ParensPlaced) : n.opened.kindName = n.kindName := by
  rw [kindName, kindName, h.kind_opened, h.unwrap_opened, symbol_opened]

theorem isFunction_opened (h : n.ParensPlaced) : n.opened.isFunction = n.isFunction := by
  rw [isFunction, isFunction, h.kind_opened]

theorem property?_opened (h : n.ParensPlaced) :
    n.opened.property? = n.unwrap.property?.map opened := by
  rw [property?, property?, child?_opened]
  cases hp : n.unwrap.child? .property with
  | none => rfl
  | some p =>
    have hplain := h.unwrap.unwrap_of_role hp (by simp)
    simp only [Option.map_some, Option.filter_some, symbol_opened, hplain]
    split <;> rfl

end ParensPlaced

/-- A function that takes parentheses for what they hold does not tell a node from what it is
unwrapped to. -/
theorem apply_unwrap {α : Type} {f : Node → α} (empty : α)
    (h : ∀ n : Node, n.symbol = .parenthesizedExpression →
      f n = (n.members.head?.map f).getD empty) (n : Node) : f n.unwrap = f n := by
  induction n using childrenInduction with
  | node n ih =>
    by_cases hparens : n.symbol = .parenthesizedExpression
    case neg => rw [unwrap_of_ne hparens]
    case pos =>
      cases hhead : n.members.head? with
      | none => rw [unwrap_eq, if_pos hparens, hhead, Option.map_none, Option.getD_none]
      | some m =>
        have hmem := List.mem_of_mem_filter (List.mem_of_mem_head? hhead)
        rw [unwrap_of_head? hparens hhead, ih m hmem, h n hparens, hhead, Option.map_some,
          Option.getD_some]

/-- The way into parentheses is the way into what they hold. -/
theorem descend_unwrap (calls : Nat) (met : List Link) (n : Node) :
    n.unwrap.descend calls met = n.descend calls met := by
  refine apply_unwrap ⟨met, false⟩ (fun n hparens => ?_) n
  rw [descend_eq calls met n, hparens]

end Node

namespace Source

variable (src : Source) {n : Node}

/-! An opened node stands where what the parentheses hold stands. -/

theorem startOf_opened (n : Node) : src.startOf n.opened = src.startOf n.unwrap := by
  rw [startOf, startOf, Node.start, Node.start, Node.span_opened]

theorem stopOf_opened (n : Node) : src.stopOf n.opened = src.stopOf n.unwrap := by
  rw [stopOf, stopOf, Node.stop, Node.stop, Node.span_opened]

theorem spanOf_opened (n : Node) : src.spanOf n.opened = src.spanOf n.unwrap := by
  rw [spanOf, spanOf, startOf_opened, stopOf_opened]

theorem charsOf_opened (n : Node) : src.charsOf n.opened = src.charsOf n.unwrap := by
  rw [charsOf, charsOf, spanOf_opened]

theorem inside_opened (n : Node) : src.inside n.opened = src.inside n.unwrap := by
  rw [inside, inside, spanOf_opened]

theorem linkText_opened (n : Node) (calls : Nat) :
    (⟨n.opened, calls⟩ : Link).text src = (⟨n.unwrap, calls⟩ : Link).text src := by
  rw [Link.text, Link.text, textOf, textOf, charsOf_opened]

end Source

/-- Two ways that end alike and meet names of the same texts. -/
def Descent.ReadsAs (src : Source) (d e : Descent) : Prop :=
  d.links.map (·.text src) = e.links.map (·.text src) ∧ d.complete = e.complete

namespace Source

variable {src : Source} {n : Node}

/-- The way into a callee reads the same without parentheses: each step into a child goes past the
parentheses around it. -/
theorem readsAs_descend_opened (h : n.ParensPlaced) (calls : Nat) {met met' : List Link}
    (hmet : met'.map (·.text src) = met.map (·.text src)) :
    (n.opened.descend calls met').ReadsAs src (n.descend calls met) := by
  induction n using Node.belowInduction generalizing calls met met' with
  | node n ih =>
    have hchild : ∀ c ∈ n.unwrap.children, ∀ calls {met met' : List Link},
        met'.map (·.text src) = met.map (·.text src) →
        (c.opened.descend calls met').ReadsAs src (c.descend calls met) := by
      intro c hc calls met met' hmet
      obtain ⟨d, hd, hbelow⟩ := Node.exists_above_of_mem_unwrap hc
      exact ih d hd c hbelow (h.unwrap.child hc) calls hmet
    rw [← Node.descend_unwrap calls met n, Node.descend_eq, Node.descend_eq calls met n.unwrap,
      Node.symbol_opened]
    split
    case h_1 hparens =>
      rw [h.members_opened, Node.members_unwrap hparens]
      exact ⟨hmet, rfl⟩
    case h_2 | h_3 =>
      refine ⟨?_, rfl⟩
      rw [List.map_cons, List.map_cons, linkText_opened, hmet]
    case h_4 =>
      rw [h.property?_opened]
      cases hp : n.unwrap.property? with
      | none => exact ⟨hmet, rfl⟩
      | some p =>
        -- the opened property is another node, but it stands where the property stands
        have hplain := h.unwrap.unwrap_of_role (Node.property?_eq_some hp).1 (by simp)
        have hmet' : ((⟨p.opened, calls⟩ : Link) :: met').map (·.text src) =
            ((⟨p, calls⟩ : Link) :: met).map (·.text src) := by
          rw [List.map_cons, List.map_cons, linkText_opened, hplain, hmet]
        simp only [Option.map_some, Node.child?_opened]
        cases hc : n.unwrap.child? .object with
        | none => exact ⟨hmet', rfl⟩
        | some c => exact hchild c (Node.child?_eq_some hc).1 0 hmet'
    case h_5 =>
      rw [h.isCall_opened]
      split
      case isTrue =>
        rw [Node.child?_opened]
        cases hc : n.unwrap.child? .function with
        | none => exact ⟨hmet, rfl⟩
        | some c => exact hchild c (Node.child?_eq_some hc).1 (calls + 1) hmet
      case isFalse => exact ⟨hmet, rfl⟩
    case h_6 => exact ⟨hmet, rfl⟩

theorem readsAs_calleeDescent_opened (h : n.ParensPlaced) :
    n.opened.calleeDescent.ReadsAs src n.unwrap.calleeDescent := by
  rw [Node.calleeDescent, Node.calleeDescent, h.isCall_opened, Node.child?_opened]
  split
  case isTrue =>
    cases hc : n.unwrap.child? .function with
    | none => exact ⟨rfl, rfl⟩
    | some c => exact readsAs_descend_opened (h.unwrap.child (Node.child?_eq_some hc).1) 0 rfl
  case isFalse => exact ⟨rfl, rfl⟩

theorem segments?_opened (h : n.ParensPlaced) :
    src.segments? n.opened = src.segments? n.unwrap := by
  have hreads : n.opened.calleeDescent.ReadsAs src n.unwrap.calleeDescent :=
    readsAs_calleeDescent_opened h
  obtain ⟨hlinks, hcomplete⟩ := hreads
  have hnames : n.opened.calleeDescent.links.mapM (·.text src) =
      n.unwrap.calleeDescent.links.mapM (·.text src) := by
    have hread := congrArg (fun texts => texts.mapM (id : Except Failure String → _)) hlinks
    simpa only [List.mapM_map, Function.id_comp] using hread
  rw [segments?, segments?, hnames, hcomplete]

/-! Values. -/

theorem cookFrom_opened {cs : List Node} (h : ∀ c ∈ cs, c.unwrap = c) (cursor stop : Nat) :
    src.cookFrom cursor stop (cs.map Node.opened) = src.cookFrom cursor stop cs := by
  induction cs generalizing cursor with
  | nil => rfl
  | cons c cs ih =>
    obtain ⟨hc, hcs⟩ := List.forall_mem_cons.mp h
    simp only [List.map_cons, cookFrom, Node.symbol_opened, spanOf_opened, hc, ih hcs]

theorem stringValue_opened (h : n.ParensPlaced) (hsymbol : n.unwrap.symbol = .string) :
    src.stringValue n.opened = src.stringValue n.unwrap := by
  have hplain : ∀ c ∈ n.unwrap.children, c.unwrap = c :=
    fun c hc => h.unwrap.unwrap_of_parent (by simp [hsymbol]) hc
  simp only [stringValue, inside_opened, Node.children_opened, cookFrom_opened hplain]

theorem literalValue_opened (h : n.ParensPlaced) :
    src.literalValue n.opened = src.literalValue n := by
  simp only [literalValue, h.unwrap_opened, Node.symbol_opened, charsOf_opened]
  split
  case h_1 hsymbol => rw [stringValue_opened h hsymbol]
  all_goals rfl

theorem templateFrom_opened {strict : Bool} {cs : List Node} (hplain : ∀ c ∈ cs, c.unwrap = c)
    (h : ∀ c ∈ cs, c.ParensPlaced) (cursor stop : Nat) :
    src.templateFrom strict cursor stop (cs.map Node.opened) =
      src.templateFrom strict cursor stop cs := by
  induction cs generalizing cursor with
  | nil => rfl
  | cons c cs ih =>
    obtain ⟨hc, hcs⟩ := List.forall_mem_cons.mp hplain
    obtain ⟨hplaced, hall⟩ := List.forall_mem_cons.mp h
    simp only [List.map_cons, templateFrom, Node.named_opened, Node.symbol_opened, startOf_opened,
      stopOf_opened, hplaced.members_opened, hc, ih hcs hall, List.head?_map]
    cases hhead : c.members.head? with
    | none => rfl
    | some m =>
      have hm := hplaced.child (List.mem_of_mem_filter (List.mem_of_mem_head? hhead))
      simp only [Option.map_some, hm.unwrap_opened, hm.kind_opened, Node.kind_unwrap,
        charsOf_opened]

theorem template_opened (h : n.ParensPlaced) (hsymbol : n.unwrap.symbol = .templateString)
    (strict : Bool) : src.template strict n.opened = src.template strict n := by
  have hplain : ∀ c ∈ n.unwrap.children, c.unwrap = c :=
    fun c hc => h.unwrap.unwrap_of_parent (by simp [hsymbol]) hc
  have hall : ∀ c ∈ n.unwrap.children, c.ParensPlaced := fun c => h.unwrap.child
  simp only [template, h.unwrap_opened, inside_opened, Node.children_opened,
    templateFrom_opened hplain hall]

theorem keyName_opened (h : n.ParensPlaced) (hplain : n.unwrap = n) :
    src.keyName n.opened = src.keyName n := by
  simp only [keyName, Node.symbol_opened, charsOf_opened, hplain]
  split
  case h_4 hsymbol => rw [stringValue_opened h (by rw [hplain, hsymbol]), hplain]
  all_goals rfl

theorem memberName_opened (h : n.ParensPlaced) (hplain : n.unwrap = n) :
    src.memberName n.opened = src.memberName n := by
  have hkey : ∀ role, some role ∈ [some Role.arguments, some .property, some .key, some .name] →
      ((n.child? role).map Node.opened).elim (.ok none) src.keyName =
        (n.child? role).elim (.ok none) src.keyName := by
    intro role hrole
    cases hc : n.child? role with
    | none => rfl
    | some c =>
      have hplaced := h.child (Node.child?_eq_some hc).1
      exact keyName_opened hplaced (h.unwrap_of_role hc hrole)
  simp only [memberName, Node.symbol_opened, charsOf_opened, Node.child?_opened, hplain]
  split
  case h_2 => exact hkey .key (by simp)
  case h_3 => exact hkey .name (by simp)
  all_goals rfl

/-- The value of parentheses is that of what they hold. -/
theorem valueWithin_unwrap (room : Nat) (n : Node) :
    src.valueWithin room n.unwrap = src.valueWithin room n := by
  refine Node.apply_unwrap (.ok none) (fun n hparens => ?_) n
  rw [valueWithin_eq src room n, hparens]

theorem entryValues_opened {room : Nat} {cs : List Node} (hplain : ∀ c ∈ cs, c.unwrap = c)
    (h : ∀ c ∈ cs, c.ParensPlaced)
    (hvalue : ∀ c ∈ cs, ∀ v ∈ c.children, src.valueWithin room v.opened = src.valueWithin room v) :
    src.entryValues room (cs.map Node.opened) = src.entryValues room cs := by
  induction cs with
  | nil => rfl
  | cons c cs ih =>
    obtain ⟨hc, hcs⟩ := List.forall_mem_cons.mp hplain
    obtain ⟨hplaced, hall⟩ := List.forall_mem_cons.mp h
    obtain ⟨hbelow, hvalue⟩ := List.forall_mem_cons.mp hvalue
    have hmember : c.opened.isMember = c.isMember := by
      simp only [Node.isMember, Node.named_opened, Node.symbol_opened, hc]
    have hroom : ((c.child? .value).map Node.opened).map (src.valueWithin room) =
        (c.child? .value).map (src.valueWithin room) := by
      cases hv : c.child? .value with
      | none => rfl
      | some v => exact congrArg some (hbelow v (Node.child?_eq_some hv).1)
    rw [List.map_cons, entryValues_cons, entryValues_cons, hmember, Node.symbol_opened,
      Node.child?_opened, memberName_opened hplaced hc, ih hcs hall hvalue, hc, hroom]

/-- Parentheses in an array are an item, and so is what they hold. -/
theorem isItem_opened {c : Node} (h : n.ParensPlaced) (hc : c ∈ n.children)
    (hparens : c.symbol = .parenthesizedExpression) : c.opened.isItem = true := by
  obtain ⟨hnamed, -, -, hinner⟩ := h n n.self_mem_nodes c hc hparens
  have hmember : c.isMember = true := by simp [Node.isMember, hnamed, hparens]
  have hcomment : c.unwrap.symbol ≠ .comment := by
    have hinner := Node.isMember_unwrap hmember
    rw [Node.isMember, Bool.and_eq_true, bne_iff_ne] at hinner
    exact hinner.2
  simp only [List.mem_cons, List.not_mem_nil, or_false, not_or] at hinner
  simp [Node.isItem, Node.isSlot, hinner, hcomment]

theorem itemValues_opened {room : Nat} {cs : List Node}
    (hitem : ∀ c ∈ cs, c.symbol = .parenthesizedExpression → c.opened.isItem = true)
    (hvalue : ∀ c ∈ cs, src.valueWithin room c.opened = src.valueWithin room c)
    (expecting : Bool) :
    src.itemValues room expecting (cs.map Node.opened) = src.itemValues room expecting cs := by
  induction cs generalizing expecting with
  | nil => rfl
  | cons c cs ih =>
    obtain ⟨hc, hcs⟩ := List.forall_mem_cons.mp hitem
    obtain ⟨hv, hvs⟩ := List.forall_mem_cons.mp hvalue
    by_cases hparens : c.symbol = .parenthesizedExpression
    case pos =>
      have hself : c.isItem = true := by simp [Node.isItem, Node.isSlot, hparens]
      rw [List.map_cons, itemValues_item room expecting _ (hc hparens),
        itemValues_item room expecting _ hself, hv, ih hcs hvs]
    case neg =>
      have hplain := Node.unwrap_of_ne hparens
      simp only [List.map_cons, itemValues, Node.symbol_opened, hplain, hv, ih hcs hvs]

/-- An expression has the same value without parentheses. An entry's value is two levels below its
object, so the induction is on all that is below. -/
theorem valueWithin_opened (h : n.ParensPlaced) (room : Nat) :
    src.valueWithin room n.opened = src.valueWithin room n := by
  induction n using Node.belowInduction generalizing room with
  | node n ih =>
    have hbelow : ∀ c ∈ n.unwrap.children, ∀ m ∈ c.nodes, ∀ room,
        src.valueWithin room m.opened = src.valueWithin room m := by
      intro c hc m hm room
      obtain ⟨d, hd, hmem⟩ := Node.exists_above_of_mem_unwrap hc
      exact ih d hd m (Node.mem_nodes_trans hmem hm) ((h.unwrap.child hc).mono hm) room
    rw [← valueWithin_unwrap room n, valueWithin_eq, valueWithin_eq src room n.unwrap,
      Node.symbol_opened, h.members_opened, Node.children_opened]
    split
    case h_1 hparens => rw [Node.members_unwrap hparens, List.map_nil]
    case h_2 hsymbol =>
      rw [template_opened h hsymbol, template, template, Node.unwrap_unwrap]
    case h_3 hsymbol =>
      cases room with
      | zero => rfl
      | succ room =>
        have hplain : ∀ c ∈ n.unwrap.children, c.unwrap = c :=
          fun c hc => h.unwrap.unwrap_of_parent (by simp [hsymbol]) hc
        have hall : ∀ c ∈ n.unwrap.children, c.ParensPlaced := fun c => h.unwrap.child
        have hvalue : ∀ c ∈ n.unwrap.children, ∀ v ∈ c.children,
            src.valueWithin room v.opened = src.valueWithin room v :=
          fun c hc v hv => hbelow c hc v (Node.mem_nodes_of_mem_children hv) room
        simp only [entryValues_opened hplain hall hvalue]
    case h_4 =>
      cases room with
      | zero => rfl
      | succ room =>
        have hitem : ∀ c ∈ n.unwrap.children, c.symbol = .parenthesizedExpression →
            c.opened.isItem = true := fun c => isItem_opened h.unwrap
        have hvalue : ∀ c ∈ n.unwrap.children,
            src.valueWithin room c.opened = src.valueWithin room c :=
          fun c hc => hbelow c hc c c.self_mem_nodes room
        simp only [itemValues_opened hitem hvalue]
    case h_5 => rw [literalValue_opened h, literalValue, literalValue, Node.unwrap_unwrap]

/-! Names. -/

theorem nameFrom_opened (h : n.ParensPlaced) : src.nameFrom n.opened = src.nameFrom n := by
  rw [nameFrom, nameFrom, h.kind_opened]
  split
  case h_1 => rw [literalValue_opened h]
  case h_2 hkind => rw [template_opened h (Node.symbol_unwrap_of_template hkind)]
  case h_3 => rw [h.unwrap_opened, charsOf_opened]
  case h_4 => rfl

theorem scopeName_opened (h : n.ParensPlaced) :
    src.scopeName n.opened = src.scopeName n.unwrap := by
  rw [scopeName, scopeName, h.callArguments_opened]
  cases hargs : n.unwrap.callArguments with
  | nil => rfl
  | cons arg args =>
    have hmem : arg ∈ n.unwrap.callArguments := by rw [hargs]; exact List.mem_cons_self
    have harg := h.unwrap.mono (Node.reaches_callArguments hmem).mem_nodes
    simp only [List.map_cons, nameFrom_opened harg, harg.kindName_opened]

/-- What is asked of expressions has the same answer for both nodes. -/
structure ReadsAlike (src : Source) (m n : Node) : Prop where
  kind : m.kind = n.kind
  kindName : m.kindName = n.kindName
  isFunction : m.isFunction = n.isFunction
  segments : src.segments? m = src.segments? n
  value : ∀ room, src.valueWithin room m = src.valueWithin room n
  scopeName : src.scopeName m = src.scopeName n

/-- Parentheses are transparent: a node without any parentheses in it reads as what it is unwrapped
to, and has its own kind and value. It also has its own segments and its own name, but for
parentheses around something that is called: they are no call and have no arguments. -/
theorem parens_transparent (hplaced : src.root.ParensPlaced) (hn : n ∈ src.root.nodes) :
    src.ReadsAlike n.opened n.unwrap ∧
      n.opened.kind = n.kind ∧ n.opened.kindName = n.kindName ∧
      n.opened.isFunction = n.isFunction ∧
      (∀ room, src.valueWithin room n.opened = src.valueWithin room n) ∧
      ((n.unwrap ≠ n → n.unwrap.isCall = false) → src.segments? n.opened = src.segments? n) ∧
      ((n.unwrap ≠ n → n.callArguments = [] ∧ n.unwrap.callArguments = []) →
        src.scopeName n.opened = src.scopeName n) := by
  have h := hplaced.mono hn
  have hkindName : n.unwrap.kindName = n.kindName := by
    rw [Node.kindName, Node.kindName, n.kind_unwrap, n.unwrap_unwrap]
  have halike : src.ReadsAlike n.opened n.unwrap :=
    { kind := h.kind_opened.trans n.kind_unwrap.symm
      kindName := h.kindName_opened.trans hkindName.symm
      isFunction := by rw [h.isFunction_opened, Node.isFunction, Node.isFunction, n.kind_unwrap]
      segments := segments?_opened h
      value room := (valueWithin_opened h room).trans (valueWithin_unwrap room n).symm
      scopeName := scopeName_opened h }
  refine ⟨halike, h.kind_opened, h.kindName_opened, h.isFunction_opened, valueWithin_opened h,
    fun hcall => ?_, fun hargs => ?_⟩
  · by_cases hplain : n.unwrap = n
    case pos => rw [segments?_opened h, hplain]
    case neg =>
      have hparens : n.isCall = false := by
        refine Bool.eq_false_iff.mpr fun hself => hplain (Node.unwrap_of_ne ?_)
        simp [(Node.isCall_iff.mp hself).1]
      rw [segments?_opened h, segments?_of_not_isCall src (hcall hplain),
        segments?_of_not_isCall src hparens]
  · by_cases hplain : n.unwrap = n
    case pos => rw [scopeName_opened h, hplain]
    case neg =>
      obtain ⟨houter, hinner⟩ := hargs hplain
      rw [scopeName_opened h, scopeName, scopeName, houter, hinner]

end Source

namespace Sample

/-- Parentheses at every level, and around the call itself. -/
def parensText : List Char := "(((cy).a)(([(1),\x7bb:((2)),c:`$\x7b(d)\x7d`\x7d])))".toList

def parensArgument : Node :=
  node none .parenthesizedExpression 10 38
    [node none .array 11 37
      [token .leftBracket 11 12,
       node none .parenthesizedExpression 12 15 [node none .number 13 14 []],
       token .comma 15 16,
       node none .object 16 36
        [node none .pair 17 24
          [node (some .key) .propertyIdentifier 17 18 [],
           node (some .value) .parenthesizedExpression 19 24
            [node none .parenthesizedExpression 20 23 [node none .number 21 22 []]]],
         node none .pair 25 35
          [node (some .key) .propertyIdentifier 25 26 [],
           node (some .value) .templateString 27 35
            [node none .templateSubstitution 28 34
              [node none .parenthesizedExpression 30 33 [node none .identifier 31 32 []]]]]],
       token .rightBracket 36 37]]

def parensCall : Node :=
  node none .callExpression 1 39
    [node (some .function) .parenthesizedExpression 1 9
      [node none .memberExpression 2 8
        [node (some .object) .parenthesizedExpression 2 6 [node none .identifier 3 5 []],
         node (some .property) .propertyIdentifier 7 8 []]],
     node (some .arguments) .arguments 9 39 [parensArgument]]

def parensStatement : Node := node none .parenthesizedExpression 0 40 [parensCall]

def parens : Source :=
  ⟨none, parensText.toArray, .ofText parensText,
    node none (.other "program") 0 40 [node none .expressionStatement 0 40 [parensStatement]]⟩

end Sample

namespace Source

/-- No parentheses are left, and the callee and the value of the argument are still read. -/
theorem parens_transparent_sample :
    Sample.parens.root.ParensPlaced ∧ Sample.parensCall ∈ Sample.parens.root.nodes ∧
      (∀ m ∈ Sample.parensCall.opened.nodes, m.symbol ≠ .parenthesizedExpression) ∧
      Sample.parens.segments? Sample.parensCall.opened = .ok (some ["cy", "a"]) ∧
      Sample.parens.scopeName Sample.parensCall.opened =
        .ok (unparseable "ArrayExpression") ∧
      ∃ v, Sample.parens.valueWithin 2 Sample.parensArgument = .ok (some v) ∧
        Sample.parens.valueWithin 2 Sample.parensArgument.opened = .ok (some v) := by
  have hplaced : Sample.parens.root.ParensPlaced := by decide
  have hcall : Sample.parensCall ∈ Sample.parens.root.nodes := List.mem_of_getElem? (i := 3) rfl
  have hargument : Sample.parensArgument ∈ Sample.parens.root.nodes :=
    List.mem_of_getElem? (i := 10) rfl
  have hsegments : Sample.parens.segments? Sample.parensCall = .ok (some ["cy", "a"]) := rfl
  have hname : Sample.parens.scopeName Sample.parensCall =
      .ok (unparseable "ArrayExpression") := rfl
  obtain ⟨halike, -⟩ := parens_transparent hplaced hcall
  obtain ⟨-, -, -, -, hvalue, -⟩ := parens_transparent hplaced hargument
  exact ⟨hplaced, hcall, by decide, halike.segments.trans hsegments, halike.scopeName.trans hname,
    _, rfl, hvalue 2⟩

end Source

namespace Sample

def parensNameText : List Char := "(a)()".toList

def parensNameCall : Node :=
  node none .callExpression 0 5
    [node (some .function) .parenthesizedExpression 0 3 [node none .identifier 1 2 []],
     node (some .arguments) .arguments 3 5 []]

def parensName : Source :=
  ⟨none, parensNameText.toArray, .ofText parensNameText,
    node none (.other "program") 0 5 [node none .expressionStatement 0 5 [parensNameCall]]⟩

/-- The call with each child's unwrapped node stretched over the place of the child. -/
def stretchedNameCall : Node :=
  { parensNameCall with
    children := parensNameCall.children.map fun c =>
      { c.unwrap with span := c.span, role := c.role } }

end Sample

namespace Source

/-- Parentheses around a call are no call, so they have no segments where the call has some. Nor may
what parentheses hold be stretched over their place: the name that is called is then `(a)`. -/
theorem parens_around_call_read_apart :
    (¬∀ src : Source, src.root.ParensPlaced → ∀ n ∈ src.root.nodes, src.ReadsAlike n.opened n) ∧
      Sample.parensName.root.ParensPlaced ∧
      ¬Sample.parensName.ReadsAlike Sample.stretchedNameCall Sample.parensNameCall := by
  refine ⟨fun h => ?_, by decide, fun h => ?_⟩
  · have hplaced : Sample.parens.root.ParensPlaced := by decide
    have hstatement : Sample.parensStatement ∈ Sample.parens.root.nodes :=
      List.mem_of_getElem? (i := 2) rfl
    have hsegments := (h Sample.parens hplaced Sample.parensStatement hstatement).segments
    have hopened : Sample.parens.segments? Sample.parensStatement.opened =
        .ok (some ["cy", "a"]) := rfl
    have hself : Sample.parens.segments? Sample.parensStatement = .ok none := rfl
    rw [hopened, hself] at hsegments
    cases hsegments
  · have hstretched : Sample.parensName.segments? Sample.stretchedNameCall =
        .ok (some ["(a)"]) := rfl
    have hself : Sample.parensName.segments? Sample.parensNameCall = .ok (some ["a"]) := rfl
    have hsegments := h.segments
    rw [hstretched, hself] at hsegments
    revert hsegments
    simp

end Source
end SuiteOutline
