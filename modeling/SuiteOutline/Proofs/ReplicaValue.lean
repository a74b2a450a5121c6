import SuiteOutline.Proofs.Replica
import SuiteOutline.Proofs.Value

/-! What is read off the text of a replica: names, values and scopes are those of the source, and
only the places move. -/
namespace SuiteOutline
namespace Likeness

variable {src copy : Source} (r : Likeness src copy) {n : Node}

theorem spanOf_node (hn : r.Met n) :
    copy.spanOf (r.node n) = carry r.shift (·.shift r.shift) (src.spanOf n) := by
  unfold Source.spanOf
  refine bind_carry (r.startOf hn) fun start => ?_
  exact bind_carry (r.stopOf hn) fun stop => rfl

theorem charsOf_node (hn : r.Met n) :
    copy.charsOf (r.node n) = carry r.shift id (src.charsOf n) := by
  unfold Source.charsOf
  refine bind_carry (r.spanOf_node hn) fun span => ?_
  exact congrArg Except.ok (r.slice span.start span.stop)

theorem textOf_node (hn : r.Met n) :
    copy.textOf (r.node n) = carry r.shift id (src.textOf n) := by
  unfold Source.textOf
  exact bind_carry (r.charsOf_node hn) fun cs => rfl

theorem segments?_node (hn : r.Met n) :
    copy.segments? (r.node n) = carry r.shift id (src.segments? n) := by
  obtain ⟨hdescent, hmet⟩ := r.calleeDescent_node hn
  have htexts : ∀ l ∈ n.calleeDescent.links,
      (l.map r.node).text copy = carry r.shift id (l.text src) := by
    intro l hl
    unfold Link.text
    exact bind_carry (r.textOf_node (hmet l hl)) fun name => rfl
  unfold Source.segments?
  rw [hdescent]
  refine bind_carry (mapM_carry htexts) fun names => ?_
  rw [List.map_id]
  rfl

theorem dotted?_node (hn : r.Met n) :
    copy.dotted? (r.node n) = carry r.shift id (src.dotted? n) := by
  unfold Source.dotted?
  exact bind_carry (r.segments?_node hn) fun segments => rfl

/-! Literals and templates. A comment that was left out is neither an escape nor a substitution. -/

theorem cookFrom_thinned {cs ds : List Node} (h : Thinned r.node r.Met Node.IsBareComment cs ds)
    (cursor stop : Nat) :
    copy.cookFrom (cursor + r.shift) (stop + r.shift) ds =
      carry r.shift id (src.cookFrom cursor stop cs) := by
  induction h generalizing cursor with
  | nil =>
    rw [Source.cookFrom, Source.cookFrom, r.slice]
    rfl
  | @keep c cs ds hc _ ih =>
    rw [Source.cookFrom, Source.cookFrom, r.symbol]
    split
    · refine bind_carry (r.spanOf_node hc) fun place => ?_
      simp only [Span.shift, r.slice]
      cases decodeEscape? (src.slice place.start place.stop) with
      | none => rfl
      | some decoded => exact bind_carry (ih place.stop) fun rest => rfl
    · exact ih cursor
  | @drop c cs ds hc _ ih =>
    rw [Source.cookFrom, hc.symbol]
    exact ih cursor

theorem stringValue_node (hn : r.Met n) (hsymbol : n.symbol = .string) :
    copy.stringValue (r.node n) = carry r.shift id (src.stringValue n) := by
  have hquoted : n.isQuoted = true := by simp [Node.isQuoted, hsymbol]
  unfold Source.stringValue
  refine bind_carry (r.inside hn hquoted) fun place => ?_
  exact bind_carry (r.cookFrom_thinned (r.children hn) place.start place.stop) fun t => rfl

theorem literalValue_node (hn : r.Met n) :
    copy.literalValue (r.node n) = carry r.shift id (src.literalValue n) := by
  obtain ⟨hunwrap, hmet⟩ := r.unwrap_node hn
  unfold Source.literalValue
  simp only [hunwrap, r.symbol]
  cases hsymbol : n.unwrap.symbol with
  | string => exact map_carry (r.stringValue_node hmet hsymbol) fun t => rfl
  | number => exact map_carry (r.charsOf_node hmet) fun cs => rfl
  | regex => exact map_carry (r.charsOf_node hmet) fun cs => rfl
  | _ => rfl

theorem templateFrom_thinned {cs ds : List Node}
    (h : Thinned r.node r.Met Node.IsBareComment cs ds) (strict : Bool) (cursor stop : Nat) :
    copy.templateFrom strict (cursor + r.shift) (stop + r.shift) ds =
      carry r.shift id (src.templateFrom strict cursor stop cs) := by
  induction h generalizing cursor with
  | nil =>
    rw [Source.templateFrom, Source.templateFrom, r.slice]
    rfl
  | @keep c cs ds hc _ ih =>
    rw [Source.templateFrom, Source.templateFrom, r.named, r.symbol]
    split
    · obtain ⟨hmembers, hmet⟩ := r.members_node hc
      refine bind_carry (r.startOf hc) fun start => ?_
      rw [hmembers, List.head?_map]
      cases hhead : c.members.head? with
      | none => rfl
      | some inner =>
        obtain ⟨hunwrap, hinner⟩ := r.unwrap_node (hmet inner (List.mem_of_mem_head? hhead))
        simp only [Option.map_some, hunwrap, r.kind_node hinner]
        split
        · rfl
        · refine bind_carry (r.charsOf_node hinner) fun shown => ?_
          refine bind_carry (r.stopOf hc) fun next => ?_
          refine bind_carry (ih next) fun rest => ?_
          simp only [r.slice]
          rfl
    · exact ih cursor
  | @drop c cs ds hc _ ih =>
    rw [Source.templateFrom, hc.symbol]
    simpa using ih cursor

theorem template_node (hn : r.Met n) (strict : Bool)
    (hsymbol : n.unwrap.symbol = .templateString) :
    copy.template strict (r.node n) = carry r.shift id (src.template strict n) := by
  obtain ⟨hunwrap, hmet⟩ := r.unwrap_node hn
  have hquoted : n.unwrap.isQuoted = true := by simp [Node.isQuoted, hsymbol]
  unfold Source.template
  rw [hunwrap]
  refine bind_carry (r.inside hmet hquoted) fun place => ?_
  exact bind_carry (r.templateFrom_thinned (r.children hmet) strict place.start place.stop)
    fun t => rfl

/-- Writing a number does not depend on where it stands. -/
theorem numberText_carry (d : Nat) (number : Number) :
    Source.numberText number = carry d id (Source.numberText number) := by
  unfold Source.numberText
  cases number.text? .plain <;> rfl

theorem keyName_node (hn : r.Met n) :
    copy.keyName (r.node n) = carry r.shift id (src.keyName n) := by
  unfold Source.keyName
  rw [r.symbol]
  cases hsymbol : n.symbol with
  | propertyIdentifier => exact map_carry (r.charsOf_node hn) fun cs => rfl
  | identifier => exact map_carry (r.charsOf_node hn) fun cs => rfl
  | privatePropertyIdentifier => exact map_carry (r.charsOf_node hn) fun cs => rfl
  | string => exact map_carry (r.stringValue_node hn hsymbol) fun t => rfl
  | number =>
    refine bind_carry (r.charsOf_node hn) fun cs => ?_
    simp only [id_eq]
    cases Number.read? cs with
    | none => rfl
    | some number => exact bind_carry (numberText_carry r.shift number) fun t => rfl
  | _ => rfl

/-- A name is read off the child that plays the role, if there is one. -/
theorem roleName_node (hn : r.Met n) (role : Role) :
    ((r.node n).child? role).elim (.ok none) copy.keyName =
      carry r.shift id ((n.child? role).elim (.ok none) src.keyName) := by
  obtain ⟨hchild, hmet⟩ := r.child?_node hn role
  rw [hchild]
  cases hc : n.child? role with
  | none => rfl
  | some key => exact r.keyName_node (hmet key hc)

theorem memberName_node (hn : r.Met n) :
    copy.memberName (r.node n) = carry r.shift id (src.memberName n) := by
  unfold Source.memberName
  rw [r.symbol]
  cases n.symbol with
  | shorthandPropertyIdentifier => exact map_carry (r.charsOf_node hn) fun cs => rfl
  | pair => exact r.roleName_node hn .key
  | methodDefinition => exact r.roleName_node hn .name
  | _ => rfl

/-! Values of expressions, by induction on the tree; the items and entries of a node are gone
through together with their images. -/

theorem consValue_carry {α : Type} {d : Nat} {head head' : Except Failure (Option α)}
    {tail tail' : Except Failure (Option (List α))} (hhead : head' = carry d id head)
    (htail : tail' = carry d id tail) :
    consValue head' tail' = carry d id (consValue head tail) := by
  unfold consValue
  refine bind_carry hhead fun a => ?_
  simp only [id_eq]
  cases a with
  | none => rfl
  | some a => exact bind_carry htail fun as => rfl

theorem itemValues_thinned {cs ds : List Node} {room : Nat}
    (h : Thinned r.node r.Met Node.IsBareComment cs ds)
    (hvalue : ∀ c ∈ cs, r.Met c →
      copy.valueWithin room (r.node c) = carry r.shift id (src.valueWithin room c))
    (expecting : Bool) :
    copy.itemValues room expecting ds = carry r.shift id (src.itemValues room expecting cs) := by
  induction h generalizing expecting with
  | nil =>
    rw [Source.itemValues, Source.itemValues]
    rfl
  | @keep c cs ds hc _ ih =>
    have ih := ih fun d hd => hvalue d (List.mem_cons_of_mem c hd)
    rw [Source.itemValues, Source.itemValues, r.symbol]
    split
    case h_1 | h_2 | h_3 => exact ih expecting
    case h_4 =>
      split
      · rfl
      · exact ih true
    case h_5 => exact consValue_carry (hvalue c List.mem_cons_self hc) (ih false)
  | @drop c cs ds hc _ ih =>
    rw [Source.itemValues, hc.symbol]
    exact ih (fun d hd => hvalue d (List.mem_cons_of_mem c hd)) expecting

theorem entryValues_thinned {cs ds : List Node} {room : Nat}
    (h : Thinned r.node r.Met Node.IsBareComment cs ds)
    (hvalue : ∀ c ∈ cs, ∀ v ∈ c.child? .value, r.Met v →
      copy.valueWithin room (r.node v) = carry r.shift id (src.valueWithin room v)) :
    copy.entryValues room ds = carry r.shift id (src.entryValues room cs) := by
  induction h with
  | nil =>
    rw [Source.entryValues, Source.entryValues]
    rfl
  | @keep c cs ds hc _ ih =>
    have ih := ih fun d hd => hvalue d (List.mem_cons_of_mem c hd)
    obtain ⟨hchild, hmet⟩ := r.child?_node hc .value
    have hentry : (((r.node c).child? .value).map (copy.valueWithin room)).getD (.ok none) =
        carry r.shift id (((c.child? .value).map (src.valueWithin room)).getD (.ok none)) := by
      rw [hchild]
      cases hv : c.child? .value with
      | none => rfl
      | some v => exact hvalue c List.mem_cons_self v hv (hmet v hv)
    rw [Source.entryValues_cons, Source.entryValues_cons, r.isMember_node, r.symbol]
    split
    · exact ih
    · split
      · rfl
      · refine bind_carry (r.memberName_node hc) fun name => ?_
        simp only [id_eq]
        cases name with
        | none => rfl
        | some key => exact consValue_carry (map_carry hentry fun v => rfl) ih
  | @drop c cs ds hc _ ih =>
    have hmember : c.isMember = false := by simp [Node.isMember, hc.symbol]
    rw [Source.entryValues_cons, hmember]
    exact ih fun d hd => hvalue d (List.mem_cons_of_mem c hd)

theorem valueWithin_node (hn : r.Met n) (room : Nat) :
    copy.valueWithin room (r.node n) = carry r.shift id (src.valueWithin room n) := by
  induction n using Node.belowInduction generalizing room with
  | node n ih =>
    rw [Source.valueWithin_eq, Source.valueWithin_eq, r.symbol]
    split
    case h_1 =>
      obtain ⟨hmembers, hmet⟩ := r.members_node hn
      rw [hmembers, List.head?_map]
      cases hc : n.members.head? with
      | none => rfl
      | some c =>
        have hmem := List.mem_of_mem_head? hc
        have hchild := Node.mem_children_of_mem_namedChildren (Node.mem_members hmem)
        exact ih c hchild c c.self_mem_nodes (hmet c hmem) room
    case h_2 hsymbol =>
      have hunwrap : n.unwrap = n := Node.unwrap_of_ne (by simp [hsymbol])
      exact map_carry (r.template_node hn true (by rw [hunwrap, hsymbol])) fun t => rfl
    case h_3 =>
      cases room with
      | zero => rfl
      | succ room =>
        refine map_carry (r.entryValues_thinned (r.children hn) fun c hc v hv hmet => ?_)
          fun ps => rfl
        exact ih c hc v (Node.mem_nodes_of_child? c.self_mem_nodes hv) hmet room
    case h_4 =>
      cases room with
      | zero => rfl
      | succ room =>
        refine map_carry (r.itemValues_thinned (r.children hn) (fun c hc hmet => ?_) true)
          fun items => rfl
        exact ih c hc c c.self_mem_nodes hmet room
    case h_5 => exact r.literalValue_node hn

/-! Display names and scopes. -/

theorem displayed_carry (d : Nat) (v : Value) : displayed v = carry d id (displayed v) := by
  cases v with
  | number number => exact map_carry (numberText_carry d number) fun t => rfl
  | _ => rfl

theorem nameFrom_node (hn : r.Met n) :
    copy.nameFrom (r.node n) = carry r.shift id (src.nameFrom n) := by
  obtain ⟨hunwrap, hmet⟩ := r.unwrap_node hn
  unfold Source.nameFrom
  rw [r.kind_node hn, hunwrap]
  cases hkind : n.kind with
  | literal =>
    refine bind_carry (r.literalValue_node hn) fun v => ?_
    simp only [id_eq]
    cases v with
    | none => rfl
    | some v => exact displayed_carry r.shift v
  | template => exact r.template_node hn false (Node.symbol_unwrap_of_template hkind)
  | identifier => exact bind_carry (r.charsOf_node hmet) fun cs => rfl
  | _ => rfl

theorem scopeName_node (hn : r.Met n) :
    copy.scopeName (r.node n) = carry r.shift id (src.scopeName n) := by
  obtain ⟨hargs, hmet⟩ := r.callArguments_node hn
  unfold Source.scopeName
  rw [hargs]
  cases hcall : n.callArguments with
  | nil => rfl
  | cons arg args =>
    have harg : r.Met arg := hmet arg (by simp [hcall])
    refine bind_carry (r.nameFrom_node harg) fun name => ?_
    rw [r.kindName_node harg]
    rfl

theorem frame_node (hn : r.Met n) (v : Vocabulary) (name : String) :
    copy.frame v (r.node n) name = carry r.shift (·.shift r.shift) (src.frame v n name) := by
  unfold Source.frame
  refine bind_carry (r.scopeName_node hn) fun shown => ?_
  exact bind_carry (r.spanOf_node hn) fun span => rfl

theorem scope_map {ns : List Node} (hns : ∀ n ∈ ns, r.Met n) (v : Vocabulary)
    (included : String → Bool) :
    copy.scope v included (ns.map r.node) =
      carry r.shift (List.map (·.shift r.shift)) (src.scope v included ns) := by
  induction ns with
  | nil => rfl
  | cons n ns ih =>
    obtain ⟨hn, hns⟩ := List.forall_mem_cons.mp hns
    rw [List.map_cons, Source.scope, Source.scope]
    refine bind_carry (r.dotted?_node hn) fun name => ?_
    simp only [id_eq]
    cases name.filter included with
    | none => exact ih hns
    | some name =>
      refine bind_carry (r.frame_node hn v name) fun f => ?_
      exact bind_carry (ih hns) fun fs => rfl

end Likeness
end SuiteOutline
