import SuiteOutline.Proofs.ReplicaValue

/-! The calls of a replica: a walk meets the same nodes but for the comments left out, and each call
is the usage or the other call that it was, moved. -/
namespace SuiteOutline

theorem InnerCall.command?_shift (d : Nat) (call : InnerCall) :
    (call.shift d).command? = call.command?.map (·.shift d) := by
  cases call <;> rfl

theorem InnerCall.other?_shift (d : Nat) (call : InnerCall) :
    (call.shift d).other? = call.other?.map (·.shift d) := by
  cases call <;> rfl

/-! Elements that give nothing may be left out of a run over a list. -/

theorem Traced.collect_cons_of_none {α β : Type} {f : α → Traced (Option β)} {a : α}
    (h : (f a).outcome = .ok none) (as : List α) :
    (collect f (a :: as)).outcome = (collect f as).outcome := by
  rw [collect, outcome_bind, h]
  change (collect f as >>= fun rest => Pure.pure ([] ++ rest)).outcome = _
  rw [outcome_bind]
  cases (collect f as).outcome <;> rfl

theorem Traced.gather_cons_of_nil {α β : Type} {f : α → Traced (List β)} {a : α}
    (h : (f a).outcome = .ok []) (as : List α) :
    (gather f (a :: as)).outcome = (gather f as).outcome := by
  rw [gather, outcome_bind, h]
  change (gather f as >>= fun rest => Pure.pure ([] ++ rest)).outcome = _
  rw [outcome_bind]
  cases (gather f as).outcome <;> rfl

namespace Thinned

variable {α β γ δ : Type} {f : α → β} {kept dropped : α → Prop} {as : List α} {bs : List β}

theorem flatMap {f' : γ → δ} {kept' dropped' : γ → Prop} {g : α → List γ} {g' : β → List δ}
    (h : Thinned f kept dropped as bs)
    (hkept : ∀ a ∈ as, kept a → Thinned f' kept' dropped' (g a) (g' (f a)))
    (hdropped : ∀ a, dropped a → Thinned f' kept' dropped' (g a) []) :
    Thinned f' kept' dropped' (as.flatMap g) (bs.flatMap g') := by
  induction h with
  | nil => exact .nil
  | @keep a as bs ha _ ih =>
    rw [List.flatMap_cons, List.flatMap_cons]
    exact (hkept a List.mem_cons_self ha).append (ih fun b hb => hkept b (List.mem_cons_of_mem a hb))
  | @drop a as bs ha _ ih =>
    rw [List.flatMap_cons, ← List.nil_append (List.flatMap _ _)]
    exact (hdropped a ha).append (ih fun b hb => hkept b (List.mem_cons_of_mem a hb))

/-- What was left out gives nothing, so as much is collected without it. -/
theorem collect {g : α → Traced (Option γ)} {k : β → Traced (Option δ)} {s : γ → δ} {d : Nat}
    (h : Thinned f kept dropped as bs)
    (hkept : ∀ a, kept a → (k (f a)).outcome = carry d (Option.map s) (g a).outcome)
    (hdropped : ∀ a, dropped a → (g a).outcome = .ok none) :
    (Traced.collect k bs).outcome = carry d (List.map s) (Traced.collect g as).outcome := by
  induction h with
  | nil => rfl
  | keep ha _ ih =>
    unfold Traced.collect
    refine Traced.outcome_bind_carry (hkept _ ha) fun b => ?_
    refine Traced.outcome_bind_carry ih fun rest => ?_
    cases b <;> rfl
  | drop ha _ ih => rw [Traced.collect_cons_of_none (hdropped _ ha), ih]

theorem gather {g : α → Traced (List γ)} {k : β → Traced (List δ)} {s : γ → δ} {d : Nat}
    (h : Thinned f kept dropped as bs)
    (hkept : ∀ a, kept a → (k (f a)).outcome = carry d (List.map s) (g a).outcome)
    (hdropped : ∀ a, dropped a → (g a).outcome = .ok []) :
    (Traced.gather k bs).outcome = carry d (List.map s) (Traced.gather g as).outcome := by
  induction h with
  | nil => rfl
  | keep ha _ ih =>
    unfold Traced.gather
    refine Traced.outcome_bind_carry (hkept _ ha) fun found => ?_
    refine Traced.outcome_bind_carry ih fun rest => ?_
    exact congrArg Except.ok (List.map_append).symm
  | drop ha _ ih => rw [Traced.gather_cons_of_nil (hdropped _ ha), ih]

end Thinned

/-- Only a call has a name. -/
theorem Source.segments?_of_not_isCall (src : Source) {n : Node} (h : n.isCall = false) :
    src.segments? n = .ok none := by
  unfold segments? Node.calleeDescent
  rw [h]
  rfl

theorem Source.dotted?_of_not_isCall (src : Source) {n : Node} (h : n.isCall = false) :
    src.dotted? n = .ok none := by
  unfold dotted?
  rw [src.segments?_of_not_isCall h]
  rfl

theorem innerCallAt_of_not_isCall (src : Source) (v : Vocabulary) (room : Nat)
    (wanted : InnerChoice) {n : Node} (h : n.isCall = false) :
    (innerCallAt src v room wanted n).outcome = .ok none := by
  unfold innerCallAt
  rw [src.segments?_of_not_isCall h]
  rfl

theorem Node.IsBareComment.isCall {n : Node} (h : n.IsBareComment) : n.isCall = false := by
  simp [Node.isCall, h.symbol]

theorem Node.IsBareComment.namedChildren {n : Node} (h : n.IsBareComment) :
    n.namedChildren = [] := by
  rw [Node.namedChildren, h.leaf, List.filter_nil]

namespace Likeness

variable {src copy : Source} (r : Likeness src copy) {n : Node} (v : Vocabulary) (room : Nat)

theorem namedChildren_thinned (hn : r.Met n) :
    Thinned r.node r.Met Node.IsBareComment n.namedChildren (r.node n).namedChildren :=
  (r.children hn).filter r.named

theorem walk_thinned (hn : r.Met n) :
    Thinned r.node r.Met Node.IsBareComment n.walk (r.node n).walk := by
  induction n using Node.childrenInduction with
  | node n ih =>
    rw [Node.walk_eq, Node.walk_eq (r.node n)]
    refine .keep hn ((r.namedChildren_thinned hn).flatMap (fun c hc hmet => ?_) fun c hc => ?_)
    · exact ih c (Node.mem_children_of_mem_namedChildren hc) hmet
    · rw [Node.walk_eq, hc.namedChildren]
      exact .drop hc .nil

/-! Calls and the arguments of calls. -/

theorem describeArguments_map {args : List Node} (hargs : ∀ arg ∈ args, r.Met arg) :
    describeArguments copy (args.map r.node) =
      carry r.shift (List.map (·.shift r.shift)) (describeArguments src args) := by
  refine mapM_carry fun arg harg => ?_
  have hmet := hargs arg harg
  unfold describeArgument
  refine bind_carry (r.spanOf_node hmet) fun span => ?_
  rw [r.kindName_node hmet]
  rfl

theorem literalArguments_map {args : List Node} (hargs : ∀ arg ∈ args, r.Met arg) (index : Nat) :
    literalArguments copy room index (args.map r.node) =
      carry r.shift id (literalArguments src room index args) := by
  induction args generalizing index with
  | nil => rfl
  | cons arg args ih =>
    obtain ⟨harg, hargs⟩ := List.forall_mem_cons.mp hargs
    rw [List.map_cons, literalArguments, literalArguments]
    refine bind_carry (r.valueWithin_node harg room) fun value => ?_
    exact bind_carry (ih hargs (index + 1)) fun values => rfl

theorem usage?_node (hn : r.Met n) (segments : List String) :
    (usage? copy v room (r.node n) segments).outcome =
      carry r.shift (Option.map (·.shift r.shift)) (usage? src v room n segments).outcome := by
  obtain ⟨hcallee, hcalleeMet⟩ := r.callee?_node hn
  obtain ⟨hargs, hargsMet⟩ := r.callArguments_node hn
  unfold usage?
  rw [hcallee]
  match segments with
  | [] | [_] => rfl
  | root :: name :: more =>
    cases hc : n.callee? with
    | none => rfl
    | some callee =>
      have hmet := hcalleeMet callee hc
      obtain ⟨hproperty, hpropertyMet⟩ := r.child?_node hmet .property
      simp only [Option.map_some, r.kind_node hmet, hproperty, hargs]
      split
      · rfl
      split
      · refine Traced.outcome_bind_carry (r.startOf hn) fun place => ?_
        rfl
      cases hp : callee.child? .property with
      | none => rfl
      | some property =>
        refine Traced.outcome_bind_carry (r.startOf (hpropertyMet property hp)) fun start => ?_
        refine Traced.outcome_bind_carry (r.stopOf hn) fun stop => ?_
        refine Traced.outcome_bind_carry (r.describeArguments_map hargsMet) fun arguments => ?_
        exact Traced.outcome_bind_carry (r.literalArguments_map room hargsMet 0) fun literals => rfl

theorem otherCall_node (hn : r.Met n) (name : String) :
    otherCall copy (r.node n) name =
      carry r.shift (·.shift r.shift) (otherCall src n name) := by
  obtain ⟨hanchor, hanchorMet⟩ := r.anchor_node hn
  obtain ⟨hargs, hargsMet⟩ := r.callArguments_node hn
  unfold otherCall
  rw [hanchor, hargs]
  refine bind_carry (r.startOf hanchorMet) fun start => ?_
  refine bind_carry (r.spanOf_node hn) fun place => ?_
  exact bind_carry (r.describeArguments_map hargsMet) fun arguments => rfl

theorem innerCallAt_node (hn : r.Met n) (wanted : InnerChoice) :
    (innerCallAt copy v room wanted (r.node n)).outcome =
      carry r.shift (Option.map (·.shift r.shift)) (innerCallAt src v room wanted n).outcome := by
  unfold innerCallAt
  refine Traced.outcome_bind_carry (r.segments?_node hn) fun segments => ?_
  simp only [id_eq]
  cases segments with
  | none => rfl
  | some segments =>
    simp only
    split
    · split
      · refine Traced.outcome_bind_carry (r.usage?_node v room hn segments) fun u => ?_
        cases u <;> rfl
      · rfl
    · split
      · exact Traced.outcome_bind_carry (r.otherCall_node hn _) fun o => rfl
      · rfl

theorem innerCalls_node (hn : r.Met n) (wanted : InnerChoice) :
    (innerCalls copy v room wanted (r.node n)).outcome =
      carry r.shift (·.shift r.shift) (innerCalls src v room wanted n).outcome := by
  unfold innerCalls
  have hcalls := (r.walk_thinned hn).collect (fun m hm => r.innerCallAt_node v room hm wanted)
    fun m hm => innerCallAt_of_not_isCall src v room wanted hm.isCall
  refine Traced.outcome_bind_carry hcalls fun calls => ?_
  have hcommands := byPosition_shift (InnerCall.command?_shift r.shift)
    (CommandUsage.span_shift r.shift) calls
  have hothers := byPosition_shift (InnerCall.other?_shift r.shift)
    (OtherCall.span_shift r.shift) calls
  unfold byPosition at hcommands hothers
  simp only [hcommands, hothers]
  rfl

theorem innerCalls?_node (hn : r.Met n) (asked : Bool) :
    (innerCalls? copy v room asked (r.node n)).outcome =
      carry r.shift (Option.map (·.shift r.shift)) (innerCalls? src v room asked n).outcome := by
  unfold innerCalls?
  split
  · exact Traced.outcome_bind_carry (r.innerCalls_node v room hn {}) fun calls => rfl
  · rfl

end Likeness
end SuiteOutline
