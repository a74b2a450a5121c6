import SuiteOutline.Proofs.ReplicaOutline

/-! The name that a script goes by shows in its failures, and nowhere else. -/
namespace SuiteOutline

/-- A failure without the name of the file. -/
def Failure.unnamed : Failure → Failure
  | unparsed e => unparsed { e with filename := none }
  | commandName e => commandName { e with filename := none }
  | e => e

/-- Outcomes that differ at most in the name of a file. -/
inductive Alike {α : Type} : Except Failure α → Except Failure α → Prop
  | ok (a : α) : Alike (.ok a) (.ok a)
  | error {e e' : Failure} (h : e.unnamed = e'.unnamed) : Alike (.error e) (.error e')

namespace Alike

variable {α β : Type}

theorem refl (x : Except Failure α) : Alike x x := by
  cases x with
  | ok a => exact .ok a
  | error e => exact .error rfl

theorem of_eq {x y : Except Failure α} (h : x = y) : Alike x y := h ▸ refl x

theorem eq_ok_iff {x y : Except Failure α} (h : Alike x y) {a : α} : x = .ok a ↔ y = .ok a := by
  cases h with
  | ok => rfl
  | error => simp

theorem bind {x y : Except Failure α} {k l : α → Except Failure β} (h : Alike x y)
    (hk : ∀ a, Alike (k a) (l a)) : Alike (x >>= k) (y >>= l) := by
  cases h with
  | ok a => exact hk a
  | error h => exact .error h

theorem outcome_bind {x y : Traced α} {k l : α → Traced β} (h : Alike x.outcome y.outcome)
    (hk : ∀ a, Alike (k a).outcome (l a).outcome) : Alike (x >>= k).outcome (y >>= l).outcome := by
  rw [Traced.outcome_bind, Traced.outcome_bind]
  exact h.bind hk

theorem collect {f g : α → Traced (Option β)} (h : ∀ a, Alike (f a).outcome (g a).outcome)
    (as : List α) : Alike (Traced.collect f as).outcome (Traced.collect g as).outcome := by
  induction as with
  | nil => exact refl _
  | cons a as ih =>
    rw [Traced.collect, Traced.collect]
    exact outcome_bind (h a) fun b => outcome_bind ih fun bs => refl _

theorem gather {f g : α → Traced (List β)} (h : ∀ a, Alike (f a).outcome (g a).outcome)
    (as : List α) : Alike (Traced.gather f as).outcome (Traced.gather g as).outcome := by
  induction as with
  | nil => exact refl _
  | cons a as ih =>
    rw [Traced.gather, Traced.gather]
    exact outcome_bind (h a) fun bs => outcome_bind ih fun rest => refl _

end Alike

namespace Source

/-- The source under another name. -/
def renamed (src : Source) (name : Option String) : Source := { src with filename := name }

/-- From every node, a source looks the same under another name. -/
def likeness (src : Source) (name : Option String) : Likeness src (src.renamed name) where
  node := id
  shift := 0
  Met _ := True
  symbol _ := rfl
  role _ := rfl
  named _ := rfl
  children {n} _ := by
    have h := thinned_self n.children
    rwa [id_eq] at h
  startOf {n} _ := (carry_zero_id (src.startOf n)).symm
  stopOf {n} _ := (carry_zero_id (src.stopOf n)).symm
  slice _ _ := rfl
  inside {n} _ _ := by
    have h := (carry_zero_id (src.inside n)).symm
    rwa [← Span.shift_zero] at h

@[simp] theorem likeness_node (src : Source) (name : Option String) :
    (src.likeness name).node = id := rfl

@[simp] theorem likeness_shift (src : Source) (name : Option String) :
    (src.likeness name).shift = 0 := rfl

end Source

theorem carry_zero {α : Type} {f : α → α} (h : f = id) (x : Except Failure α) :
    carry 0 f x = x := by
  rw [h, carry_zero_id]

namespace Context

variable (src : Source) (name : Option String) (options : Options) (v : Vocabulary) (room : Room)

theorem test_renamed (call : Node) (test : String) (ancestors : List Node) :
    (Context.test ⟨src.renamed name, options, v, room⟩ call test ancestors).outcome =
      (Context.test ⟨src, options, v, room⟩ call test ancestors).outcome := by
  have h := (src.likeness name).test_node options v room (n := call) trivial test
    (fun m (_ : m ∈ ancestors) => trivial)
  rw [src.likeness_node, List.map_id] at h
  exact h.trans (carry_zero (by simp) _)

theorem hook_renamed (call : Node) (hook : String) (ancestors : List Node) :
    (Context.hook ⟨src.renamed name, options, v, room⟩ call hook ancestors).outcome =
      (Context.hook ⟨src, options, v, room⟩ call hook ancestors).outcome := by
  have h := (src.likeness name).hook_node options v room (n := call) trivial hook
    (fun m (_ : m ∈ ancestors) => trivial)
  rw [src.likeness_node, List.map_id] at h
  exact h.trans (carry_zero (by simp) _)

theorem usage?_renamed (levels : Nat) (call : Node) (segments : List String) :
    (usage? (src.renamed name) v levels call segments).outcome =
      (usage? src v levels call segments).outcome :=
  ((src.likeness name).usage?_node v levels (n := call) trivial segments).trans
    (carry_zero (by simp) _)

/-- A bad name is the one failure with the name of the file. -/
theorem definition_renamed (call : Node) :
    Alike (Context.definition ⟨src.renamed name, options, v, room⟩ call).outcome
      (Context.definition ⟨src, options, v, room⟩ call).outcome := by
  have hbad : ∀ message : String, Alike
      (liftM ((src.renamed name).startOf call) >>= fun location =>
        (Traced.fail (.commandName { message, location, filename := name }) :
          Traced (Option Finding))).outcome
      (liftM (src.startOf call) >>= fun location =>
        (Traced.fail (.commandName { message, location, filename := src.filename }) :
          Traced (Option Finding))).outcome := by
    intro message
    exact .outcome_bind (.refl _) fun location => .error rfl
  unfold Context.definition
  simp only
  cases call.callArguments.head? with
  | none => exact hbad _
  | some first =>
    cases call.callArguments.getLast? with
    | none => exact hbad _
    | some last =>
      simp only
      split
      · exact hbad _
      case isFalse hstring =>
      split
      · exact .refl _
      have hname := ((src.likeness name).stringValue_node (n := first.unwrap) trivial
        (not_not.mp hstring)).trans (carry_zero_id _)
      have hinner := ((src.likeness name).inner_node options v room (n := last.unwrap) trivial
        room.inner).trans (carry_zero (by simp) _)
      refine .outcome_bind (.of_eq hname) fun value => ?_
      refine .outcome_bind (.refl _) fun span => ?_
      exact .outcome_bind (.of_eq hinner) fun inner => .refl _

theorem inspect_renamed (x : Visit) :
    Alike (Context.inspect ⟨src.renamed name, options, v, room⟩ x).outcome
      (Context.inspect ⟨src, options, v, room⟩ x).outcome := by
  unfold Context.inspect
  refine .outcome_bind (.refl _) fun segments => ?_
  cases segments with
  | none => exact .refl _
  | some segments =>
    simp only
    split
    · split
      · exact definition_renamed src name options v room x.node
      · exact .refl _
    split
    · split
      · exact .outcome_bind (.of_eq (usage?_renamed src name v room.file x.node segments))
          fun u => .refl _
      · exact .refl _
    split
    · split
      · exact .of_eq (test_renamed src name options v room x.node _ x.ancestors)
      · exact .refl _
    split
    · split
      · exact .of_eq (hook_renamed src name options v room x.node _ x.ancestors)
      · exact .refl _
    · exact .refl _

theorem inspectScenario_renamed (x : Visit) :
    (Context.inspectScenario ⟨src.renamed name, options, v, room⟩ x).outcome =
      (Context.inspectScenario ⟨src, options, v, room⟩ x).outcome := by
  have h := (src.likeness name).inspectScenario_visit options v room (x := x)
    ⟨trivial, fun _ _ => trivial⟩
  have hvisit : (src.likeness name).visit x = x := by simp [Likeness.visit]
  rw [hvisit] at h
  exact h.trans (carry_zero (by simp) _)

theorem scenarios_renamed :
    Alike (Context.scenarios ⟨src.renamed name, options, v, room⟩).outcome
      (Context.scenarios ⟨src, options, v, room⟩).outcome := by
  unfold Context.scenarios
  refine .outcome_bind (.gather (fun x => ?_) _) fun findings => .refl _
  exact .of_eq (inspectScenario_renamed src name options v room x)

/-- Under another name, an outline is the same, and a failure differs in the name alone. -/
theorem outline_renamed :
    Alike (Context.outline ⟨src.renamed name, options, v, room⟩).outcome
      (Context.outline ⟨src, options, v, room⟩).outcome := by
  unfold Context.outline
  refine .outcome_bind (.collect (inspect_renamed src name options v room) _) fun findings => ?_
  simp only
  split
  · exact .outcome_bind (scenarios_renamed src name options v room) fun found => .refl _
  · exact .refl _

end Context

/-! Scripts. -/

namespace Source

variable (src : Source) (name : Option String)

theorem firstOutOfRange?_renamed (ns : List Node) :
    (src.renamed name).firstOutOfRange? ns = src.firstOutOfRange? ns := by
  induction ns with
  | nil => rfl
  | cons n ns ih =>
    rw [firstOutOfRange?, firstOutOfRange?, ih]
    rfl

theorem outOfRange?_renamed : (src.renamed name).outOfRange? = src.outOfRange? := by
  unfold outOfRange?
  rw [firstOutOfRange?_renamed]
  rfl

theorem unnamed_faultAt (offset : Nat) (message : String) :
    ((src.renamed name).faultAt offset message).unnamed = (src.faultAt offset message).unnamed := by
  unfold faultAt
  simp only [renamed]
  split <;> rfl

theorem fails_renamed (n : Node) (message : String) :
    Alike (do throw ((src.renamed name).faultAt (← (src.renamed name).startOf n) message))
      ((do throw (src.faultAt (← src.startOf n) message) : Except Failure Source).map
        (·.renamed name)) := by
  have hstart : (src.renamed name).startOf n = src.startOf n := rfl
  rw [hstart]
  cases src.startOf n with
  | error e => exact .error rfl
  | ok place => exact .error (src.unnamed_faultAt name place message)

theorem ofTree_renamed (text : List Char) (tree : Node) (old : Option String) :
    Alike (ofTree name text tree) ((ofTree old text tree).map (·.renamed name)) := by
  have hsource : (⟨name, text.toArray, .ofText text, tree⟩ : Source) =
      renamed ⟨old, text.toArray, .ofText text, tree⟩ name := rfl
  unfold ofTree
  simp only [hsource]
  generalize (⟨old, text.toArray, .ofText text, tree⟩ : Source) = src
  cases tree.hasError with
  | true =>
    generalize tree.firstError?.getD tree = bad
    have hmessage : (src.renamed name).errorMessage bad = src.errorMessage bad := rfl
    simp only [hmessage, if_true]
    cases src.errorMessage bad with
    | error e => exact .error rfl
    | ok message => exact src.fails_renamed name bad message
  | false =>
    simp only [outOfRange?_renamed, Bool.false_eq_true, if_false]
    cases src.outOfRange? with
    | error e => exact .error rfl
    | ok found =>
      cases found with
      | none => exact .ok _
      | some escape => exact src.fails_renamed name escape _

end Source

/-- The name of a script does not show in its outline. -/
theorem outlineScript_renamed (room : Room) (options : Options) (v : Vocabulary) (s : Script)
    (name old : Option String) :
    Alike (outlineScript room options v name s).outcome
      (outlineScript room options v old s).outcome := by
  unfold outlineScript
  split
  case isTrue => exact .ok _
  case isFalse =>
    have htree := Source.ofTree_renamed name s.text s.tree old
    rw [Traced.outcome_bind, Traced.outcome_bind]
    simp only [Traced.outcome_liftM]
    cases hold : Source.ofTree old s.text s.tree with
    | error e =>
      rw [hold] at htree
      cases hnew : Source.ofTree name s.text s.tree with
      | ok src => rw [hnew] at htree; cases htree
      | error e' =>
        rw [hnew] at htree
        cases htree with
        | error h => exact .error h
    | ok src =>
      rw [hold] at htree
      rw [htree.eq_ok_iff.mpr rfl]
      exact Context.outline_renamed src name options v room

theorem outcome_outlineNamed (room : Room) (options : Options) (v : Vocabulary) (name : String)
    (s : Script) : (outlineNamed room options v name s).outcome =
      (outlineScript room options v (some name) s).outcome := by
  unfold outlineNamed
  rw [Traced.outcome_bind]
  cases (outlineScript room options v (some name) s).outcome <;> rfl

end SuiteOutline
