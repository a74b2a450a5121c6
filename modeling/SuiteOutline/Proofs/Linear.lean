import SuiteOutline.Proofs.ChainPrefix
import SuiteOutline.Proofs.Readable

/-! Callees written out in a line. The way from a callee down to the identifier that it is built on
is cut into stretches, one for each name; a name is followed by a marker for each call around it. -/
namespace SuiteOutline

/-- Lists that correspond are related to the same lists. -/
theorem forall₂_congr_of_forall₂ {α β γ : Type} {Q : α → β → Prop} {R : α → γ → Prop}
    {S : β → γ → Prop} {as : List α} {bs : List β} {cs : List γ} (h : List.Forall₂ Q as bs)
    (hiff : ∀ a b c, Q a b → (R a c ↔ S b c)) : List.Forall₂ R as cs ↔ List.Forall₂ S bs cs := by
  induction h generalizing cs with
  | nil => rw [List.forall₂_nil_left_iff, List.forall₂_nil_left_iff]
  | @cons a b _ _ hq _ ih =>
    rw [List.forall₂_cons_left_iff, List.forall₂_cons_left_iff]
    simp only [hiff a b _ hq, ih]

namespace Node

/-- One step down a callee: into parentheses, to what is called, to what a plainly named property is
read from. -/
inductive LeadsTo : Node → Node → Prop
  | parens {n c : Node} (h : n.symbol = .parenthesizedExpression) (hc : n.members.head? = some c) :
      LeadsTo n c
  | call {n c : Node} (h : n.isCall = true) (hc : n.child? .function = some c) : LeadsTo n c
  | member {n p c : Node} (h : n.symbol = .memberExpression) (hp : n.property? = some p)
      (hc : n.child? .object = some c) : LeadsTo n c

/-- The steps down from an expression end at an identifier. The way has all nodes, the outermost
first. -/
inductive WayIn : Node → List Node → Prop
  | identifier {n : Node} (h : n.symbol = .identifier ∨ n.symbol = .undefined) : WayIn n [n]
  | step {n c : Node} {way : List Node} (h : n.LeadsTo c) (hway : WayIn c way) : WayIn n (n :: way)

theorem LeadsTo.unique {n c c' : Node} (h : n.LeadsTo c) (h' : n.LeadsTo c') : c = c' := by
  cases h <;> cases h' <;> simp_all [isCall_iff]

theorem LeadsTo.not_identifier {n c : Node} (h : n.LeadsTo c) :
    ¬(n.symbol = .identifier ∨ n.symbol = .undefined) := by
  cases h <;> simp_all [isCall_iff]

/-- There is at most one way in. -/
theorem WayIn.unique {n : Node} {way way' : List Node} (h : n.WayIn way) (h' : n.WayIn way') :
    way = way' := by
  induction h generalizing way' with
  | identifier hsymbol =>
    cases h' with
    | identifier => rfl
    | step hstep => exact absurd hsymbol hstep.not_identifier
  | step hstep _ ih =>
    cases h' with
    | identifier hsymbol => exact absurd hsymbol hstep.not_identifier
    | step hstep' hway' =>
      cases hstep.unique hstep'
      rw [ih hway']

/-- A way in is one into a chain of names. -/
theorem WayIn.chained {n : Node} {way : List Node} (h : n.WayIn way) : ∃ ls l, n.Chained ls l := by
  induction h with
  | identifier hsymbol => exact ⟨[], _, .name hsymbol⟩
  | step hstep _ ih =>
    obtain ⟨ls, ⟨x, calls⟩, hchain⟩ := ih
    cases hstep with
    | parens h hc => exact ⟨_, _, .parens h hc hchain⟩
    | call h hc => exact ⟨_, _, .call h hc hchain⟩
    | member h hp hc => exact ⟨_, _, .member h hp hc hchain⟩

/-- The name an expression adds to a chain: the property it reads, or itself. -/
def linkName? (n : Node) : Option Node :=
  match n.symbol with
  | .memberExpression => n.property?
  | .identifier | .undefined => some n
  | _ => none

/-- Calls and parentheses stand around an expression and add no name to the chain. -/
def isWrapper (n : Node) : Bool := n.symbol = .parenthesizedExpression || n.isCall

theorem linkName?_of_isWrapper {n : Node} (h : n.isWrapper = true) : n.linkName? = none := by
  simp only [isWrapper, Bool.or_eq_true, decide_eq_true_eq] at h
  rcases h with h | h
  · simp [linkName?, h]
  · simp [linkName?, (isCall_iff.mp h).1]

end Node

/-- The part of a way in that one name is responsible for. -/
structure Stretch where
  /-- What stands around the named expression, outermost first. -/
  around : List Node
  /-- The property access or the identifier that the name is read off from. -/
  base : Node

namespace Stretch

def nodes (s : Stretch) : List Node := s.around ++ [s.base]

/-- How many calls are made of the named expression directly. -/
def calls (s : Stretch) : Nat := s.around.countP Node.isCall

/-- The stretch belongs to the link. -/
structure Carries (s : Stretch) (l : Link) : Prop where
  around : ∀ n ∈ s.around, n.isWrapper = true
  name : s.base.linkName? = some l.name
  calls : s.calls = l.calls

/-- What is written for a stretch: its name, and a marker for each call. -/
def Writes (src : Source) (s : Stretch) (segment : String) : Prop :=
  ∃ name text, (∀ n ∈ s.around, n.isWrapper = true) ∧ s.base.linkName? = some name ∧
    src.textOf name = .ok text ∧ segment = marked text s.calls

variable {src : Source} {s : Stretch} {l : Link}

theorem Writes.carries {segment : String} (h : s.Writes src segment) : ∃ l, s.Carries l := by
  obtain ⟨name, _, haround, hname, -⟩ := h
  exact ⟨⟨name, s.calls⟩, haround, hname, rfl⟩

theorem Carries.writes_iff (h : s.Carries l) {segment : String} :
    s.Writes src segment ↔ l.text src = .ok segment := by
  rw [Link.text_eq_ok]
  constructor
  · intro ⟨name, text, _, hname, htext, hsegment⟩
    have hlink : name = l.name := Option.some.inj (hname.symm.trans h.name)
    exact ⟨text, hlink ▸ htext, h.calls ▸ hsegment.symm⟩
  · intro ⟨text, htext, hsegment⟩
    exact ⟨l.name, text, h.around, h.name, htext, h.calls ▸ hsegment.symm⟩

/-- Put one more node around a stretch. -/
def wrap (n : Node) (s : Stretch) : Stretch := ⟨n :: s.around, s.base⟩

theorem Carries.wrap_parens (h : s.Carries l) {n : Node}
    (hn : n.symbol = .parenthesizedExpression) : (wrap n s).Carries l where
  around := List.forall_mem_cons.mpr ⟨by simp [Node.isWrapper, hn], h.around⟩
  name := h.name
  calls := by
    have hcall : ¬ n.isCall = true := fun hcall => by simp [(Node.isCall_iff.mp hcall).1] at hn
    rw [← h.calls]
    exact List.countP_cons_of_neg hcall

theorem Carries.wrap_call {x n : Node} {calls : Nat} (h : s.Carries ⟨x, calls⟩)
    (hn : n.isCall = true) : (wrap n s).Carries ⟨x, calls + 1⟩ where
  around := List.forall_mem_cons.mpr ⟨by simp [Node.isWrapper, hn], h.around⟩
  name := h.name
  calls := by
    have hcalls : s.around.countP Node.isCall = calls := h.calls
    rw [← hcalls]
    exact List.countP_cons_of_pos hn

theorem Carries.base_not_isWrapper (h : s.Carries l) : ¬ s.base.isWrapper = true := by
  intro hwrapper
  have hname := h.name
  rw [Node.linkName?_of_isWrapper hwrapper] at hname
  cases hname

/-- The wrappers at the front of a way belong to its first name. -/
theorem Carries.takeWhile_nodes (h : s.Carries l) (way : List Node) :
    (s.nodes ++ way).takeWhile Node.isWrapper = s.around := by
  rw [nodes, List.append_assoc, List.takeWhile_append_of_pos h.around, List.singleton_append,
    List.takeWhile_cons_of_neg h.base_not_isWrapper, List.append_nil]

theorem carries_of_writes {stretches : List Stretch} {segments : List String}
    (h : List.Forall₂ (Writes src) stretches.reverse segments) :
    ∀ s ∈ stretches, ∃ l, s.Carries l := by
  intro s hs
  obtain ⟨_, _, hwrites⟩ := exists_of_forall₂ h.flip (List.mem_reverse.mpr hs)
  exact Writes.carries hwrites

/-- What is written for the stretches are names with the markers of the stretches' calls. -/
theorem exists_marked {stretches : List Stretch} {segments : List String}
    (h : List.Forall₂ (Writes src) stretches segments) :
    ∃ links : List (String × Nat), segments = links.map (fun link => marked link.1 link.2) ∧
      links.map Prod.snd = stretches.map calls := by
  induction h with
  | nil => exact ⟨[], rfl, rfl⟩
  | @cons s segment _ _ hwrites _ ih =>
    obtain ⟨_, text, -, -, -, hsegment⟩ := hwrites
    obtain ⟨links, hlinks, hcalls⟩ := ih
    refine ⟨(text, s.calls) :: links, ?_, ?_⟩
    · rw [hsegment, hlinks, List.map_cons]
    · rw [List.map_cons, hcalls, List.map_cons]

/-- A way can be cut at its names in one manner only. -/
theorem eq_of_flatMap_nodes {as bs : List Stretch} (ha : ∀ a ∈ as, ∃ l, a.Carries l)
    (hb : ∀ b ∈ bs, ∃ l, b.Carries l) (h : as.flatMap nodes = bs.flatMap nodes) : as = bs := by
  induction as generalizing bs with
  | nil =>
    cases bs with
    | nil => rfl
    | cons b bs => simp [nodes] at h
  | cons a as ih =>
    cases bs with
    | nil => simp [nodes] at h
    | cons b bs =>
      rw [List.forall_mem_cons] at ha hb
      obtain ⟨⟨_, hcarries⟩, ha⟩ := ha
      obtain ⟨⟨_, hcarries'⟩, hb⟩ := hb
      rw [List.flatMap_cons, List.flatMap_cons] at h
      have haround : a.around = b.around := by
        rw [← hcarries.takeWhile_nodes, h, hcarries'.takeWhile_nodes]
      rw [nodes, nodes, haround, List.append_assoc, List.append_assoc,
        List.append_cancel_left_eq] at h
      obtain ⟨hbase, hrest⟩ := List.cons.inj h
      have hsame : a = b := by
        cases a
        cases b
        rw [mk.injEq]
        exact ⟨haround, hbase⟩
      rw [hsame, ih ha hb hrest]

/-- The calls on a way are those of its stretches. -/
theorem sum_calls {stretches : List Stretch} (h : ∀ s ∈ stretches, ∃ l, s.Carries l) :
    (stretches.map calls).sum = (stretches.flatMap nodes).countP Node.isCall := by
  induction stretches with
  | nil => rfl
  | cons s rest ih =>
    rw [List.forall_mem_cons] at h
    obtain ⟨⟨_, hcarries⟩, hrest⟩ := h
    have hbase : ¬ s.base.isCall = true := fun hcall =>
      hcarries.base_not_isWrapper (by simp [Node.isWrapper, hcall])
    rw [List.map_cons, List.sum_cons, ih hrest, List.flatMap_cons, List.countP_append, nodes,
      List.countP_append, List.countP_cons_of_neg hbase, List.countP_nil, Nat.add_zero, calls]

end Stretch

/-- The way into a chain, cut at its names. -/
theorem Node.Chained.exists_wayIn {n : Node} {ls : List Link} {l : Link} (h : n.Chained ls l) :
    ∃ first rest, n.WayIn (List.flatMap Stretch.nodes (first :: rest)) ∧ first.Carries l ∧
      List.Forall₂ Stretch.Carries rest.reverse ls := by
  induction h with
  | @name n hsymbol =>
    refine ⟨⟨[], n⟩, [], .identifier hsymbol, ⟨by simp, ?_, rfl⟩, .nil⟩
    rcases hsymbol with h | h <;> simp [linkName?, h]
  | @parens n _ _ _ hsymbol hc _ ih =>
    obtain ⟨first, rest, hway, hfirst, hrest⟩ := ih
    exact ⟨first.wrap n, rest, .step (.parens hsymbol hc) hway, hfirst.wrap_parens hsymbol, hrest⟩
  | @member n p _ _ _ hsymbol hp hc _ ih =>
    -- a property starts a stretch of its own
    obtain ⟨first, rest, hway, hfirst, hrest⟩ := ih
    refine ⟨⟨[], n⟩, first :: rest, .step (.member hsymbol hp hc) hway, ⟨by simp, ?_, rfl⟩, ?_⟩
    · simpa [linkName?, hsymbol] using hp
    · rw [List.reverse_cons]
      exact List.rel_append hrest (.cons hfirst .nil)
  | @call n _ _ _ _ hcall hc _ ih =>
    obtain ⟨first, rest, hway, hfirst, hrest⟩ := ih
    exact ⟨first.wrap n, rest, .step (.call hcall hc) hway, hfirst.wrap_call hcall, hrest⟩

namespace Source

variable {src : Source} {way : List Node} {segments : List String}

/-- The segments are the names on the way, from the identifier outwards, each with a marker for each
call made of it. -/
def Spells (src : Source) (way : List Node) (segments : List String) : Prop :=
  ∃ stretches : List Stretch, way = stretches.flatMap Stretch.nodes ∧
    List.Forall₂ (Stretch.Writes src) stretches.reverse segments

/-- The way into a chain spells the texts of the chain's links. -/
theorem spells_iff_of_chained {n : Node} {ls : List Link} {l : Link} (hchain : n.Chained ls l)
    (hway : n.WayIn way) :
    src.Spells way segments ↔
      List.Forall₂ (fun link s => link.text src = .ok s) (ls ++ [l]) segments := by
  obtain ⟨first, rest, hcut, hfirst, hrest⟩ := hchain.exists_wayIn
  have hcarried : List.Forall₂ Stretch.Carries (first :: rest).reverse (ls ++ [l]) := by
    rw [List.reverse_cons]
    exact List.rel_append hrest (.cons hfirst .nil)
  have hsegments : List.Forall₂ (Stretch.Writes src) (first :: rest).reverse segments ↔
      List.Forall₂ (fun link s => link.text src = .ok s) (ls ++ [l]) segments :=
    forall₂_congr_of_forall₂ hcarried fun _ _ _ hcarries => hcarries.writes_iff
  rw [← hsegments]
  constructor
  · -- the stretches given can only be those of the chain
    intro ⟨stretches, hstretches, hwrites⟩
    have hcarries : ∀ s ∈ first :: rest, ∃ link, s.Carries link := fun s hs => by
      obtain ⟨link, _, hlink⟩ := exists_of_forall₂ hcarried.flip (List.mem_reverse.mpr hs)
      exact ⟨link, hlink⟩
    have hsame : stretches = first :: rest :=
      Stretch.eq_of_flatMap_nodes (Stretch.carries_of_writes hwrites) hcarries
        (hstretches.symm.trans (hway.unique hcut))
    rwa [hsame] at hwrites
  · intro hwrites
    exact ⟨first :: rest, hway.unique hcut, hwrites⟩

/-- A call has segments if there is a way in, and they are what the way spells. -/
theorem segments?_eq_spells {call : Node} :
    src.segments? call = .ok (some segments) ↔
      call.isCall = true ∧ ∃ callee way, call.child? .function = some callee ∧ callee.WayIn way ∧
        src.Spells way segments := by
  rw [segments?_eq_some]
  constructor
  · intro ⟨hcall, callee, ls, l, hcallee, hchain, hnames⟩
    obtain ⟨first, rest, hway, -⟩ := hchain.exists_wayIn
    exact ⟨hcall, callee, _, hcallee, hway, (spells_iff_of_chained hchain hway).mpr hnames⟩
  · intro ⟨hcall, callee, way, hcallee, hway, hspells⟩
    obtain ⟨ls, l, hchain⟩ := hway.chained
    exact ⟨hcall, callee, ls, l, hcallee, hchain, (spells_iff_of_chained hchain hway).mp hspells⟩

theorem isSome_of_chained {call c : Node} {found : Option (List String)} {ls : List Link} {l : Link}
    (h : src.segments? call = .ok found) (hcall : call.isCall = true)
    (hc : call.child? .function = some c) (hchain : c.Chained ls l) : found.isSome = true := by
  have hcomplete : call.calleeDescent.complete = true := by
    simp [Node.calleeDescent, hcall, hc, hchain.descend_eq]
  simp only [segments?, bind_eq_ok, pure_eq_ok, hcomplete, if_true] at h
  obtain ⟨names, -, rfl⟩ := h
  rfl

/-- The markers written are as many as the calls on the way. -/
theorem Spells.markers (h : src.Spells way segments) :
    ∃ links : List (String × Nat), segments = links.map (fun link => marked link.1 link.2) ∧
      (links.map Prod.snd).sum = way.countP Node.isCall := by
  obtain ⟨stretches, rfl, hwrites⟩ := h
  obtain ⟨links, hlinks, hcalls⟩ := Stretch.exists_marked hwrites
  refine ⟨links, hlinks, ?_⟩
  rw [hcalls, List.map_reverse, List.sum_reverse]
  exact Stretch.sum_calls (Stretch.carries_of_writes hwrites)

/-- A call is written out in a line. It has segments if it is a call with a way in from its callee to
an identifier, and they are what the way spells, with as many markers as there are calls on the way.
Where all parts of the call have a place, looking for segments does not fail. -/
theorem callee_linearised (src : Source) (call : Node) :
    (∀ segments, src.segments? call = .ok (some segments) ↔
      call.isCall = true ∧ ∃ callee way, call.child? .function = some callee ∧ callee.WayIn way ∧
        src.Spells way segments) ∧
    (∀ segments, src.segments? call = .ok (some segments) →
      ∀ callee way, call.child? .function = some callee → callee.WayIn way →
        ∃ links : List (String × Nat), segments = links.map (fun link => marked link.1 link.2) ∧
          (links.map Prod.snd).sum = way.countP Node.isCall) ∧
    ((∀ n ∈ call.nodes, ∃ span, src.spanOf n = .ok span) →
      ∃ found, src.segments? call = .ok found ∧
        (found.isSome = true ↔ call.isCall = true ∧
          ∃ callee way, call.child? .function = some callee ∧ callee.WayIn way)) := by
  refine ⟨fun segments => segments?_eq_spells, fun segments hsegments callee way hcallee hway => ?_,
    fun hspans => ?_⟩
  · obtain ⟨-, callee', way', hcallee', hway', hspells⟩ := segments?_eq_spells.mp hsegments
    obtain rfl : callee = callee' := Option.some.inj (hcallee.symm.trans hcallee')
    rw [hway.unique hway']
    exact hspells.markers
  · obtain ⟨found, hfound⟩ := exists_segments?_eq_ok hspans
    refine ⟨found, hfound, fun hsome => ?_, fun ⟨hcall, callee, way, hcallee, hway⟩ => ?_⟩
    · obtain ⟨segments, rfl⟩ := Option.isSome_iff_exists.mp hsome
      obtain ⟨hcall, callee, way, hcallee, hway, -⟩ := segments?_eq_spells.mp hfound
      exact ⟨hcall, callee, way, hcallee, hway⟩
    · obtain ⟨ls, l, hchain⟩ := hway.chained
      exact isSome_of_chained hfound hcall hcallee hchain

end Source

/-! A call of a property that is called, of a call in parentheses. -/
namespace Sample

def linkedText : List Char := "(a()).b()()".toList

def linkedName : Node := node (some .function) .identifier 1 2 []

/-- The call `a()`. -/
def linkedInner : Node :=
  node none .callExpression 1 4 [linkedName, node (some .arguments) .arguments 2 4 []]

def linkedParens : Node :=
  node (some .object) .parenthesizedExpression 0 5 [linkedInner]

/-- The property access `(a()).b`. -/
def linkedMember : Node :=
  node (some .function) .memberExpression 0 7
    [linkedParens, node (some .property) .propertyIdentifier 6 7 []]

def linkedCallee : Node :=
  node (some .function) .callExpression 0 9
    [linkedMember, node (some .arguments) .arguments 7 9 []]

def linkedCall : Node :=
  node none .callExpression 0 11 [linkedCallee, node (some .arguments) .arguments 9 11 []]

def linkedSource : Source := ⟨none, linkedText.toArray, .ofText linkedText, linkedCall⟩

theorem ofTree_linkedCall : Source.ofTree none linkedText linkedCall = .ok linkedSource := rfl

theorem wayIn_linkedCallee :
    linkedCallee.WayIn [linkedCallee, linkedMember, linkedParens, linkedInner, linkedName] := by
  apply Node.WayIn.step (.call rfl rfl)
  apply Node.WayIn.step (.member rfl rfl rfl)
  apply Node.WayIn.step (.parens rfl rfl)
  apply Node.WayIn.step (.call rfl rfl)
  exact .identifier (.inl rfl)

end Sample

namespace Source

/-- Each of the two names is called once. -/
theorem callee_linearised_sample :
    (∀ n ∈ Sample.linkedCall.nodes, ∃ span, Sample.linkedSource.spanOf n = .ok span) ∧
      (∃ found, Sample.linkedSource.segments? Sample.linkedCall = .ok found ∧
        found.isSome = true) ∧
      Sample.linkedSource.segments? Sample.linkedCall = .ok (some ["a()", "b()"]) ∧
      ∃ links : List (String × Nat),
        ["a()", "b()"] = links.map (fun link => marked link.1 link.2) ∧
        (links.map Prod.snd).sum = 2 := by
  obtain ⟨hvalue, hmarkers, hdefined⟩ := callee_linearised Sample.linkedSource Sample.linkedCall
  have hw : Sample.linkedCall.WellFormed Sample.linkedText := by decide
  have hspans : Sample.linkedSource.Measured :=
    (wellFormed_ofTree Sample.ofTree_linkedCall hw).measured
  obtain ⟨found, hfound, hsome⟩ := hdefined hspans
  have hsegments : Sample.linkedSource.segments? Sample.linkedCall = .ok (some ["a()", "b()"]) := by
    refine (hvalue _).mpr ⟨rfl, Sample.linkedCallee, _, rfl, Sample.wayIn_linkedCallee, ?_⟩
    refine ⟨[⟨[Sample.linkedCallee], Sample.linkedMember⟩,
      ⟨[Sample.linkedParens, Sample.linkedInner], Sample.linkedName⟩], rfl, ?_⟩
    refine .cons ⟨_, "a", by decide, rfl, rfl, ?_⟩ (.cons ⟨_, "b", by decide, rfl, rfl, ?_⟩ .nil)
    · decide
    · decide
  exact ⟨hspans, ⟨found, hfound, hsome.mpr ⟨rfl, _, _, rfl, Sample.wayIn_linkedCallee⟩⟩, hsegments,
    hmarkers _ hsegments _ _ rfl Sample.wayIn_linkedCallee⟩

end Source
end SuiteOutline
