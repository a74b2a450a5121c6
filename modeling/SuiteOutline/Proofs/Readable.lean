import SuiteOutline.Proofs.Descent
import SuiteOutline.Proofs.InnerCalls
import SuiteOutline.Proofs.Unwritable

/-! Calls can be read wherever the tree is as the grammar has it and numbers are short enough to be
written: their names, the usages they make, the calls below a function and the frames around it. -/
namespace SuiteOutline

/-- A computation goes on from one that succeeds. -/
theorem exists_bind_eq_ok {α β : Type} {x : Except Failure α} {f : α → Except Failure β}
    (hx : ∃ a, x = .ok a) (hf : ∀ a, x = .ok a → ∃ b, f a = .ok b) : ∃ b, (x >>= f) = .ok b := by
  obtain ⟨a, ha⟩ := hx
  obtain ⟨b, hb⟩ := hf a ha
  exact ⟨b, bind_eq_ok.mpr ⟨a, ha, hb⟩⟩

namespace Traced

variable {α β : Type}

/-- A computation has a result, whatever it logs. -/
def Succeeds (x : Traced α) : Prop := ∃ a, x.outcome = .ok a

namespace Succeeds

theorem pure (a : α) : (Pure.pure a : Traced α).Succeeds := ⟨a, rfl⟩

theorem note (level : Level) (message : String) : (Traced.note level message).Succeeds :=
  ⟨(), rfl⟩

theorem bind {x : Traced α} {f : α → Traced β} (hx : x.Succeeds)
    (hf : ∀ a, x.outcome = .ok a → (f a).Succeeds) : (x >>= f).Succeeds := by
  obtain ⟨b, hb⟩ := exists_bind_eq_ok hx hf
  exact ⟨b, by rw [outcome_bind, hb]⟩

/-- What is followed by computations that succeed is all that can fail. -/
theorem bind_eq_error {x : Traced α} {f : α → Traced β} (hf : ∀ a, (f a).Succeeds) {e : Failure} :
    (x >>= f).outcome = .error e ↔ x.outcome = .error e := by
  rw [outcome_bind]
  cases x.outcome with
  | error e' => simp [Bind.bind, Except.bind]
  | ok a =>
    obtain ⟨b, hb⟩ := hf a
    constructor
    · intro h
      cases hb.symm.trans h
    · intro h
      cases h

theorem collect {f : α → Traced (Option β)} {as : List α} (h : ∀ a ∈ as, (f a).Succeeds) :
    (Traced.collect f as).Succeeds :=
  ⟨_, collect_eq_ok.mpr ⟨h, rfl⟩⟩

theorem gather {f : α → Traced (List β)} {as : List α} (h : ∀ a ∈ as, (f a).Succeeds) :
    (Traced.gather f as).Succeeds :=
  ⟨_, gather_eq_ok.mpr ⟨h, rfl⟩⟩

end Succeeds
end Traced

namespace Node

/-- The names met on the way into an expression stand in it, also where the way breaks off. -/
theorem mem_nodes_of_mem_descend {n : Node} {calls : Nat} {met : List Link} {l : Link}
    (h : l ∈ (n.descend calls met).links) : l ∈ met ∨ l.name ∈ n.nodes := by
  induction n using childrenInduction generalizing calls met with
  | node n ih =>
    have hbelow : ∀ c ∈ n.children, ∀ {calls met}, l ∈ (c.descend calls met).links →
        l ∈ met ∨ l.name ∈ n.nodes := by
      intro c hc calls met hl
      exact (ih c hc hl).imp_right fun hname => mem_nodes_trans (mem_nodes_of_mem_children hc) hname
    have hchild : ∀ role {calls met},
        l ∈ (((n.child? role).map (descend calls met)).getD ⟨met, false⟩).links →
        l ∈ met ∨ l.name ∈ n.nodes := by
      intro role calls met hl
      cases hc : n.child? role with
      | none => exact .inl (by simpa [hc] using hl)
      | some c => exact hbelow c (child?_eq_some hc).1 (by simpa [hc] using hl)
    rw [descend_eq] at h
    split at h
    case h_1 =>
      cases hc : n.members.head? with
      | none => exact .inl (by simpa [hc] using h)
      | some c =>
        have hmem := mem_members (List.mem_of_mem_head? hc)
        exact hbelow c (mem_children_of_mem_namedChildren hmem) (by simpa [hc] using h)
    case h_2 | h_3 =>
      rcases List.mem_cons.mp h with rfl | h
      · exact .inr n.self_mem_nodes
      · exact .inl h
    case h_4 =>
      split at h
      case h_1 p hp =>
        -- the property is met before what it is read from
        rcases hchild .object h with h | h
        · rcases List.mem_cons.mp h with rfl | h
          · exact .inr (mem_nodes_of_child? n.self_mem_nodes (property?_eq_some hp).1)
          · exact .inl h
        · exact .inr h
      case h_2 => exact .inl h
    case h_5 =>
      split at h
      · exact hchild .function h
      · exact .inl h
    case h_6 => exact .inl h

/-- Every pair of an object has a value. -/
def PairsValued (root : Node) : Prop :=
  ∀ m ∈ root.nodes, m.symbol = .pair → ∃ value, m.child? .value = some value

end Node

namespace Source

/-- No number that is a name or a key takes too many digits. Only the names of tests and suites are
ever written. -/
structure Writable (src : Source) (v : Vocabulary) : Prop where
  name : ∀ call ∈ src.root.nodes, ∀ name, src.dotted? call = .ok (some name) →
    v.isTestOrSuite name = true → ∀ arg ∈ call.callArguments.head?, ¬src.Unwritable arg.unwrap
  key : ∀ m ∈ src.root.nodes, ∀ key ∈ m.keyNode?, ¬src.Unwritable key

/-- All that reading a source relies on. -/
structure Readable (src : Source) (v : Vocabulary) : Prop where
  legible : src.Legible
  valued : src.root.PairsValued
  writable : src.Writable v

variable {src : Source} {v : Vocabulary} {n : Node}

/-- The names of a call are read, whether or not it has all of them, if its parts have places. -/
theorem exists_segments?_eq_ok (h : ∀ m ∈ n.nodes, ∃ span, src.spanOf m = .ok span) :
    ∃ segments, src.segments? n = .ok segments := by
  have hlinks : ∀ l ∈ n.calleeDescent.links, l.name ∈ n.nodes := by
    intro l hl
    unfold Node.calleeDescent at hl
    split at hl
    case isFalse => cases hl
    case isTrue =>
      cases hc : n.child? .function with
      | none => simp [hc] at hl
      | some c =>
        have hmem : c ∈ n.nodes := Node.mem_nodes_of_child? n.self_mem_nodes hc
        have hl : l ∈ (c.descend 0 []).links := by simpa [hc] using hl
        rcases Node.mem_nodes_of_mem_descend hl with hl | hl
        · cases hl
        · exact Node.mem_nodes_trans hmem hl
  have htexts : ∀ l ∈ n.calleeDescent.links, ∃ s, l.text src = .ok s := by
    intro l hl
    obtain ⟨span, hspan⟩ := h l.name (hlinks l hl)
    exact ⟨_, by simp only [Link.text, textOf, charsOf, hspan]; rfl⟩
  exact exists_bind_eq_ok (exists_mapM_eq_ok htexts) fun names _ => ⟨_, rfl⟩

section

variable (hsrc : src.Legible) (hn : n ∈ src.root.nodes)
include hsrc hn

theorem Legible.startOf_ok : ∃ start, src.startOf n = .ok start := by
  obtain ⟨span, hspan⟩ := hsrc.measured n hn
  exact ⟨span.start, (spanOf_eq_ok.mp hspan).1⟩

theorem Legible.stopOf_ok : ∃ stop, src.stopOf n = .ok stop := by
  obtain ⟨span, hspan⟩ := hsrc.measured n hn
  exact ⟨span.stop, (spanOf_eq_ok.mp hspan).2⟩

theorem Legible.segments?_ok : ∃ segments, src.segments? n = .ok segments :=
  exists_segments?_eq_ok fun m hm => hsrc.measured m (Node.mem_nodes_trans hn hm)

theorem Legible.dotted?_ok : ∃ name, src.dotted? n = .ok name := by
  obtain ⟨segments, hs⟩ := hsrc.segments?_ok hn
  exact ⟨_, dotted?_eq_ok.mpr ⟨segments, hs, rfl⟩⟩

end

namespace Readable

section

variable (hsrc : src.Readable v) (hn : n ∈ src.root.nodes)
include hsrc hn

theorem memberName_ok : ∃ name, src.memberName n = .ok name := by
  by_contra hfails
  obtain ⟨e, he⟩ := exists_error_iff.mpr hfails
  obtain ⟨-, key, hkey, hlong⟩ := (hsrc.legible.memberName_eq_error hn).mp he
  exact hsrc.writable.key n hn key hkey hlong

theorem value_ok (room : Nat) : ∃ r, src.valueWithin room n = .ok r := by
  by_contra hfails
  obtain ⟨e, he⟩ := exists_error_iff.mpr hfails
  obtain ⟨-, m, hm, hpair, key, hkey, hlong⟩ :=
    hsrc.legible.failsOnly_valueWithin hn room e he
  have hnode : m.keyNode? = some key := by rw [Node.keyNode?, hpair, hkey]
  exact hsrc.writable.key m (Node.mem_nodes_trans hn hm) key hnode hlong

/-- The name of a test or suite can be written, so it has a frame. -/
theorem frame_ok {name : String} (hname : src.dotted? n = .ok (some name))
    (hincluded : v.isTestOrSuite name = true) : ∃ f, src.frame v n name = .ok f := by
  have hshown : ∃ shown, src.scopeName n = .ok shown := by
    by_contra hfails
    obtain ⟨e, he⟩ := exists_error_iff.mpr hfails
    obtain ⟨-, arg, harg, hlong⟩ := (hsrc.legible.scopeName_eq_error hn).mp he
    exact hsrc.writable.name n hn name hname hincluded arg harg hlong
  exact exists_bind_eq_ok hshown fun _ _ =>
    exists_bind_eq_ok (hsrc.legible.measured n hn) fun _ _ => ⟨_, rfl⟩

end

theorem literalArguments_ok (hsrc : src.Readable v) {args : List Node}
    (hargs : ∀ arg ∈ args, arg ∈ src.root.nodes) (room index : Nat) :
    ∃ literals, literalArguments src room index args = .ok literals := by
  induction args generalizing index with
  | nil => exact ⟨[], rfl⟩
  | cons arg args ih =>
    obtain ⟨harg, hargs⟩ := List.forall_mem_cons.mp hargs
    exact exists_bind_eq_ok (hsrc.value_ok harg room) fun _ _ =>
      exists_bind_eq_ok (ih hargs (index + 1)) fun _ _ => ⟨_, rfl⟩

theorem usage?_succeeds (hsrc : src.Readable v) (hn : n ∈ src.root.nodes)
    (room : Nat) (segments : List String) : (usage? src v room n segments).Succeeds := by
  unfold usage?
  split
  case h_2 => exact .pure none
  case h_1 root name more callee hcallee =>
    dsimp only
    split
    · exact .pure none
    split
    · exact .bind (hsrc.legible.startOf_ok hn) fun _ _ =>
        .bind (.note _ _) fun _ _ => .pure none
    split
    · exact .pure none
    case h_2 property hproperty =>
      have hmem : property ∈ src.root.nodes := by
        have hreach := (Node.reaches_callee? hcallee).trans (Node.reaches_child? hproperty)
        exact hreach.mem_nodes_of_mem hn
      have hargs : ∀ arg ∈ n.callArguments, arg ∈ src.root.nodes := fun arg harg =>
        Node.mem_nodes_of_mem_callArguments hn harg
      exact .bind (hsrc.legible.startOf_ok hmem) fun _ _ =>
        .bind (hsrc.legible.stopOf_ok hn) fun _ _ =>
        .bind (hsrc.legible.measured.describeArguments_ok hn) fun _ _ =>
        .bind (hsrc.literalArguments_ok hargs room 0) fun _ _ => .pure _

theorem innerCallAt_succeeds (hsrc : src.Readable v) (hn : n ∈ src.root.nodes)
    (room : Nat) (wanted : InnerChoice) : (innerCallAt src v room wanted n).Succeeds := by
  refine .bind (hsrc.legible.segments?_ok hn) fun segments _ => ?_
  cases segments with
  | none => exact .pure none
  | some segments =>
    dsimp only
    split
    · split
      · exact .bind (hsrc.usage?_succeeds hn room segments) fun _ _ => .pure _
      · exact .pure none
    split
    · exact .bind (hsrc.legible.measured.otherCall_of_mem_nodes hn _) fun _ _ => .pure _
    · exact .pure none

theorem innerCalls?_succeeds (hsrc : src.Readable v) (hn : n ∈ src.root.nodes) (room : Nat)
    (asked : Bool) : (innerCalls? src v room asked n).Succeeds := by
  have hwalk : ∀ m ∈ n.walk, (innerCallAt src v room {} m).Succeeds := fun m hm =>
    hsrc.innerCallAt_succeeds ((Node.reaches_of_mem_walk hm).mem_nodes_of_mem hn) room {}
  unfold innerCalls?
  split
  · exact .bind (.bind (.collect hwalk) fun _ _ => .pure _) fun _ _ => .pure _
  · exact .pure none

theorem scope_ok (hsrc : src.Readable v) {included : String → Bool}
    (hincluded : ∀ name, included name = true → v.isTestOrSuite name = true) {ns : List Node}
    (hns : ∀ n ∈ ns, n ∈ src.root.nodes) : ∃ frames, src.scope v included ns = .ok frames := by
  induction ns with
  | nil => exact ⟨[], rfl⟩
  | cons n ns ih =>
    obtain ⟨hn, hns⟩ := List.forall_mem_cons.mp hns
    refine exists_bind_eq_ok (hsrc.legible.dotted?_ok hn) fun name hname => ?_
    split
    · exact ih hns
    case h_2 name hfilter =>
      obtain ⟨rfl, hkind⟩ := Option.filter_eq_some_iff.mp hfilter
      exact exists_bind_eq_ok (hsrc.frame_ok hn hname (hincluded name hkind)) fun _ _ =>
        exists_bind_eq_ok (ih hns) fun _ _ => ⟨_, rfl⟩

end Readable
end Source
end SuiteOutline
