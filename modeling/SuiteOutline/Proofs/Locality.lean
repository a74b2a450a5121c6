import Mathlib.Data.Option.NAry
import SuiteOutline.Proofs.ReplicaOutline
import SuiteOutline.Proofs.WellFormed

/-! An outline is local to the statements at the top: the outline of statements one after the other
is put together from the outlines of each group of them. -/
namespace SuiteOutline

def Node.keeping (n : Node) (cs : List Node) : Node := { n with children := cs }

/-- The source with other nodes at its top. -/
def Source.keeping (src : Source) (cs : List Node) : Source :=
  { src with root := src.root.keeping cs }

namespace Context

def keeping (c : Context) (cs : List Node) : Context := { c with source := c.source.keeping cs }

/-! A node that is no call adds nothing to what is around a visited one. -/

section

variable (c : Context) {outer : Node} (h : outer.isCall = false)
include h

theorem scope_cons (included : String → Bool) (ns : List Node) :
    c.source.scope c.vocabulary included (outer :: ns) =
      c.source.scope c.vocabulary included ns := by
  rw [Source.scope, c.source.dotted?_of_not_isCall h]
  rfl

theorem anyTest_cons (ns : List Node) : c.anyTest (outer :: ns) = c.anyTest ns := by
  rw [anyTest, c.source.dotted?_of_not_isCall h]
  rfl

theorem inspect_outer (n : Node) (enclosing : List Node) :
    c.inspect ⟨n, enclosing ++ [outer]⟩ = c.inspect ⟨n, enclosing⟩ := by
  have hancestors : (⟨n, enclosing ++ [outer]⟩ : Visit).ancestors = outer :: enclosing.reverse := by
    simp [Visit.ancestors]
  have htest (name : String) :
      c.test n name (outer :: enclosing.reverse) = c.test n name enclosing.reverse := by
    unfold test
    rw [c.scope_cons h]
  have hhook (name : String) :
      c.hook n name (outer :: enclosing.reverse) = c.hook n name enclosing.reverse := by
    unfold hook
    rw [c.scope_cons h, c.anyTest_cons h]
  unfold inspect
  simp only [hancestors, htest, hhook]
  rfl

theorem inspectScenario_outer (n : Node) (enclosing : List Node) :
    c.inspectScenario ⟨n, enclosing ++ [outer]⟩ = c.inspectScenario ⟨n, enclosing⟩ := by
  have hancestors : (⟨n, enclosing ++ [outer]⟩ : Visit).ancestors = outer :: enclosing.reverse := by
    simp [Visit.ancestors]
  have hscenario (name : String) :
      c.scenario n name (outer :: enclosing.reverse) = c.scenario n name enclosing.reverse := by
    unfold scenario
    rw [c.scope_cons h]
  unfold inspectScenario
  simp only [hancestors, hscenario]
  rfl

end

end Context

namespace Node

/-- The visits to the named ones of the nodes and to all below them, with nothing around. -/
def tours (cs : List Node) : List Visit := (cs.filter (·.named)).flatMap (tour [])

theorem tours_append (cs ds : List Node) : tours (cs ++ ds) = tours cs ++ tours ds := by
  rw [tours, List.filter_append, List.flatMap_append, tours, tours]

/-- What is around a tour is around each of its visits. -/
theorem tour_append (enclosing outer : List Node) (n : Node) :
    n.tour (enclosing ++ outer) =
      (n.tour enclosing).map fun x => ⟨x.node, x.enclosing ++ outer⟩ := by
  induction n using childrenInduction generalizing enclosing with
  | node n ih =>
    rw [tour_eq, tour_eq enclosing, List.map_cons, List.map_flatMap]
    congr 1
    refine List.flatMap_congr fun c hc => ?_
    exact ih c (mem_children_of_mem_namedChildren hc) (n :: enclosing)

theorem visits_keeping (n : Node) (cs : List Node) :
    (n.keeping cs).visits =
      ⟨n.keeping cs, []⟩ :: (tours cs).map fun x => ⟨x.node, x.enclosing ++ [n.keeping cs]⟩ := by
  rw [visits_eq_tour, tour_eq, tours, List.map_flatMap]
  congr 1
  exact List.flatMap_congr fun c _ => tour_append [] [n.keeping cs] c

end Node

/-- The tree is asked for its visits only. -/
def Replica.keeping (src : Source) (cs : List Node) : Replica src (src.keeping cs) :=
  .ofNodes src id (fun _ => True) (src.root.keeping cs) (fun n => Eq.refl n.symbol)
    (fun n => Eq.refl n.role) (fun n => Eq.refl n.named) (fun n => Eq.refl n.span)
    fun {n} _ => thinned_self n.children

namespace Context

variable (c : Context) {cs ds : List Node}

theorem inspect_keeping (x : Visit) : ((c.keeping cs).inspect x).outcome = (c.inspect x).outcome := by
  have h := (Replica.keeping c.source cs).inspect_visit c.options c.vocabulary c.room (x := x)
    ⟨trivial, fun _ _ => trivial⟩
  change ((c.keeping cs).inspect ⟨x.node, x.enclosing.map id⟩).outcome =
    carry 0 (Option.map (Finding.shift 0)) (c.inspect x).outcome at h
  rwa [List.map_id, Finding.shift_zero, Option.map_id, carry_zero_id] at h

theorem inspectScenario_keeping (x : Visit) :
    ((c.keeping cs).inspectScenario x).outcome = (c.inspectScenario x).outcome := by
  have h := (Replica.keeping c.source cs).inspectScenario_visit c.options c.vocabulary c.room
    (x := x) ⟨trivial, fun _ _ => trivial⟩
  change ((c.keeping cs).inspectScenario ⟨x.node, x.enclosing.map id⟩).outcome =
    carry 0 (List.map (ScenarioFinding.shift 0)) (c.inspectScenario x).outcome at h
  rwa [List.map_id, ScenarioFinding.shift_zero, List.map_id_fun, carry_zero_id] at h

/-- The visits from the children on, with the root around each. -/
theorem thinned_tours (cs : List Node) (root : Node) :
    Thinned (fun x => (⟨x.node, x.enclosing ++ [root]⟩ : Visit)) (fun _ => True) (fun _ => False)
      (Node.tours cs) ((Node.tours cs).map fun x => ⟨x.node, x.enclosing ++ [root]⟩) :=
  .of_forall fun _ _ => trivial

/-- What the walks over a tree find, if its root is no call: what they find from its children on. -/
theorem collect_keeping (h : (c.source.root.keeping cs).isCall = false) :
    (Traced.collect (c.keeping cs).inspect (c.source.root.keeping cs).visits).outcome =
      (Traced.collect c.inspect (Node.tours cs)).outcome := by
  rw [Node.visits_keeping, Traced.collect_cons_of_none ((c.keeping cs).inspect_of_not_isCall h)]
  have hmap := (thinned_tours cs (c.source.root.keeping cs)).collect (g := c.inspect)
    (k := (c.keeping cs).inspect) (s := id) (d := 0)
    (fun x _ => by rw [inspect_keeping, c.inspect_outer h, Option.map_id, carry_zero_id])
    fun _ hx => hx.elim
  rwa [List.map_id_fun, carry_zero_id] at hmap

theorem gather_keeping (h : (c.source.root.keeping cs).isCall = false) :
    (Traced.gather (c.keeping cs).inspectScenario (c.source.root.keeping cs).visits).outcome =
      (Traced.gather c.inspectScenario (Node.tours cs)).outcome := by
  rw [Node.visits_keeping,
    Traced.gather_cons_of_nil ((c.keeping cs).inspectScenario_of_not_isCall h)]
  have hmap := (thinned_tours cs (c.source.root.keeping cs)).gather (g := c.inspectScenario)
    (k := (c.keeping cs).inspectScenario) (s := id) (d := 0)
    (fun x _ => by
      rw [inspectScenario_keeping, c.inspectScenario_outer h, List.map_id_fun, carry_zero_id])
    fun _ hx => hx.elim
  rwa [List.map_id_fun, carry_zero_id] at hmap

/-- The outline that the findings of both walks make. -/
def ofBoth (findings : List Finding) (more : List ScenarioFinding) : Outline :=
  { Outline.ofFindings c.options c.vocabulary findings with
    scenarios := given c.options.scenarios (more.filterMap (·.scenario?))
    errors := byLocation (findings.filterMap (·.problem?) ++ more.filterMap (·.problem?)) }

/-- The second walk is made only if it is asked for; without it nothing more is found. -/
theorem outline_eq_ofBoth {o : Outline} :
    c.outline.outcome = .ok o ↔
      ∃ findings more,
        (Traced.collect c.inspect c.source.root.visits).outcome = .ok findings ∧
        (if c.options.scenarios then
          (Traced.gather c.inspectScenario c.source.root.visits).outcome else .ok []) = .ok more ∧
        o = c.ofBoth findings more := by
  have hsort := (sorts_le.on Diagnostic.location).sortBy_append
  rw [outline_eq_ok]
  refine exists_congr fun findings => ?_
  rw [exists_and_left]
  refine and_congr_right fun _ => ?_
  cases hs : c.options.scenarios with
  | false =>
    have hplain : c.ofBoth findings [] = .ofFindings c.options c.vocabulary findings := by
      simp [ofBoth, hs, given, Outline.ofFindings]
    simp [← hplain]
  | true =>
    have hboth (more : List ScenarioFinding) : c.ofBoth findings more =
        { Outline.ofFindings c.options c.vocabulary findings with
          scenarios := some (more.filterMap (·.scenario?))
          errors := byLocation (byLocation (findings.filterMap (·.problem?)) ++
            more.filterMap (·.problem?)) } := by
      simp only [ofBoth, hs, given, if_true, byLocation, hsort]
    simp [hboth]

/-- What the two walks find from some nodes on. -/
structure Yields (cs : List Node) (findings : List Finding) (more : List ScenarioFinding) :
    Prop where
  findings : (Traced.collect c.inspect (Node.tours cs)).outcome = .ok findings
  more : (if c.options.scenarios then (Traced.gather c.inspectScenario (Node.tours cs)).outcome
    else .ok []) = .ok more

theorem outline_keeping_eq_ok (h : (c.source.root.keeping cs).isCall = false) {o : Outline} :
    (c.keeping cs).outline.outcome = .ok o ↔
      ∃ findings more, c.Yields cs findings more ∧ o = c.ofBoth findings more := by
  have hcollect := c.collect_keeping h
  have hgather := c.gather_keeping h
  rw [outline_eq_ofBoth]
  refine exists_congr fun findings => exists_congr fun more => ?_
  constructor
  · rintro ⟨hfindings, hmore, rfl⟩
    exact ⟨⟨hcollect.symm.trans hfindings, by rw [← hgather]; exact hmore⟩, rfl⟩
  · rintro ⟨⟨hfindings, hmore⟩, rfl⟩
    exact ⟨hcollect.trans hfindings, by rw [← hgather] at hmore; exact hmore, rfl⟩

theorem yields_append_iff {findings : List Finding} {more : List ScenarioFinding} :
    c.Yields (cs ++ ds) findings more ↔
      ∃ f m f' m', c.Yields cs f m ∧ c.Yields ds f' m' ∧ findings = f ++ f' ∧ more = m ++ m' := by
  have hmore : (if c.options.scenarios then
      (Traced.gather c.inspectScenario (Node.tours (cs ++ ds))).outcome else .ok []) = .ok more ↔
      ∃ m m', (if c.options.scenarios then
          (Traced.gather c.inspectScenario (Node.tours cs)).outcome else .ok []) = .ok m ∧
        (if c.options.scenarios then
          (Traced.gather c.inspectScenario (Node.tours ds)).outcome else .ok []) = .ok m' ∧
        more = m ++ m' := by
    rw [Node.tours_append]
    cases c.options.scenarios with
    | false => simp [eq_comm]
    | true => exact Traced.gather_append_eq_ok
  constructor
  · rintro ⟨hfirst, hsecond⟩
    rw [Node.tours_append] at hfirst
    obtain ⟨f, f', hf, hf', rfl⟩ := Traced.collect_append_eq_ok.mp hfirst
    obtain ⟨m, m', hm, hm', rfl⟩ := hmore.mp hsecond
    exact ⟨f, m, f', m', ⟨hf, hm⟩, ⟨hf', hm'⟩, rfl, rfl⟩
  · rintro ⟨f, m, f', m', ⟨hf, hm⟩, ⟨hf', hm'⟩, rfl, rfl⟩
    refine ⟨?_, hmore.mpr ⟨m, m', hm, hm', rfl⟩⟩
    rw [Node.tours_append]
    exact Traced.collect_append_eq_ok.mpr ⟨f, f', hf, hf', rfl⟩

end Context

/-- The list that two lists of records make, in the order of the text; both are there or neither. -/
def joined {α : Type} (span : α → Span) : Option (List α) → Option (List α) → Option (List α) :=
  Option.map₂ fun l l' => byPosition span (l ++ l')

/-- The hooks of a kind, if the kind was looked for. -/
def Outline.hooksOf? (o : Outline) (kind : String) : Option (List Hook) :=
  o.hooks.bind (·.lookup kind)

/-- An outline is put together from two others. -/
structure Outline.Joins (o a b : Outline) : Prop where
  added : o.added = joined (·.span) a.added b.added
  used : o.used = joined (·.span) a.used b.used
  tests : o.tests = joined (·.span) a.tests b.tests
  kinds : o.hooks.map (·.map (·.1)) = a.hooks.map (·.map (·.1)) ∧
    o.hooks.map (·.map (·.1)) = b.hooks.map (·.map (·.1))
  hooks : ∀ kind, o.hooksOf? kind = joined (·.span) (a.hooksOf? kind) (b.hooksOf? kind)
  scenarios : o.scenarios = Option.map₂ (· ++ ·) a.scenarios b.scenarios
  errors : o.errors.Perm (a.errors ++ b.errors)
  errors_sorted : o.errors.Pairwise fun d e => d.location ≤ e.location

theorem given_joined {α β : Type} (asked : Bool) (span : β → Span) (select : α → Option β)
    (l l' : List α) :
    given asked (byPosition span ((l ++ l').filterMap select)) =
      joined span (given asked (byPosition span (l.filterMap select)))
        (given asked (byPosition span (l'.filterMap select))) := by
  rw [List.filterMap_append, byPosition_append]
  cases asked <;> rfl

theorem lookup_map {β : Type} (g : String → β) (kinds : List String) (kind : String) :
    (kinds.map fun k => (k, g k)).lookup kind = given (kinds.contains kind) (g kind) := by
  induction kinds with
  | nil => rfl
  | cons k kinds ih =>
    rw [List.map_cons, List.lookup_cons, ih, List.contains_cons]
    by_cases h : kind = k
    · simp [h, given]
    · simp [beq_false_of_ne h]

namespace Context

variable (c : Context)

theorem hooksOf?_ofBoth (findings : List Finding) (more : List ScenarioFinding) (kind : String) :
    (c.ofBoth findings more).hooksOf? kind =
      given (c.options.hooks && (distinct c.vocabulary.hooks).contains kind)
        (byPosition (·.span) (findings.filterMap (·.hookOf? kind))) := by
  cases hh : c.options.hooks with
  | false => simp [Outline.hooksOf?, ofBoth, Outline.ofFindings, given, hh]
  | true =>
    have hlookup := lookup_map (fun k => byPosition (·.span) (findings.filterMap (·.hookOf? k)))
      (distinct c.vocabulary.hooks) kind
    simpa [Outline.hooksOf?, ofBoth, Outline.ofFindings, given, hh] using hlookup

theorem joins_ofBoth (f f' : List Finding) (m m' : List ScenarioFinding) :
    (c.ofBoth (f ++ f') (m ++ m')).Joins (c.ofBoth f m) (c.ofBoth f' m') where
  added := given_joined ..
  used := given_joined ..
  tests := given_joined ..
  kinds := by
    simp only [ofBoth, Outline.ofFindings, map_given, List.map_map, Function.comp_def, and_self]
  hooks kind := by
    rw [hooksOf?_ofBoth, hooksOf?_ofBoth, hooksOf?_ofBoth]
    exact given_joined ..
  scenarios := by
    simp only [ofBoth, List.filterMap_append]
    cases c.options.scenarios <;> rfl
  errors := by
    have hparts := (byLocation_perm (f.filterMap (·.problem?) ++ m.filterMap (·.problem?))).append
      (byLocation_perm (f'.filterMap (·.problem?) ++ m'.filterMap (·.problem?)))
    refine (byLocation_perm _).trans (.trans ?_ hparts.symm)
    rw [List.filterMap_append, List.filterMap_append, List.append_assoc, List.append_assoc]
    exact (List.perm_append_comm_assoc _ _ _).append_left _
  errors_sorted := pairwise_byLocation _

/-- A root that is a call with neither group of children is none with both. -/
theorem isCall_keeping_append {n : Node} {as bs : List Node} (has : (n.keeping as).isCall = false)
    (hbs : (n.keeping bs).isCall = false) : (n.keeping (as ++ bs)).isCall = false := by
  unfold Node.isCall Node.child? Node.keeping at *
  rw [List.find?_append]
  cases hfind : as.find? (·.role == some .arguments) with
  | none => simpa using hbs
  | some list => simpa [hfind] using has

/-- Outlining is local to the nodes at the top of the tree: it fails if and only if it fails on one
of two groups that they fall into, and otherwise the outline is put together from those of the two
groups. The root must not be a call itself, with either group: no root is one but for a call
expression. -/
theorem outline_append {as bs : List Node} (has : (c.source.root.keeping as).isCall = false)
    (hbs : (c.source.root.keeping bs).isCall = false) :
    ((∃ e, (c.keeping (as ++ bs)).outline.outcome = .error e) ↔
      (∃ e, (c.keeping as).outline.outcome = .error e) ∨
        ∃ e, (c.keeping bs).outline.outcome = .error e) ∧
    ∀ o a b, (c.keeping (as ++ bs)).outline.outcome = .ok o →
      (c.keeping as).outline.outcome = .ok a → (c.keeping bs).outline.outcome = .ok b →
      o.Joins a b := by
  have hboth := isCall_keeping_append has hbs
  have hjoin : ∀ a b, (c.keeping as).outline.outcome = .ok a →
      (c.keeping bs).outline.outcome = .ok b →
      ∃ o, (c.keeping (as ++ bs)).outline.outcome = .ok o ∧ o.Joins a b := by
    intro a b ha hb
    obtain ⟨f, m, hfm, rfl⟩ := (c.outline_keeping_eq_ok has).mp ha
    obtain ⟨f', m', hfm', rfl⟩ := (c.outline_keeping_eq_ok hbs).mp hb
    have hyields := c.yields_append_iff.mpr ⟨f, m, f', m', hfm, hfm', rfl, rfl⟩
    exact ⟨_, (c.outline_keeping_eq_ok hboth).mpr ⟨_, _, hyields, rfl⟩, c.joins_ofBoth f f' m m'⟩
  have hsplit : ∀ o, (c.keeping (as ++ bs)).outline.outcome = .ok o →
      (∃ a, (c.keeping as).outline.outcome = .ok a) ∧
        ∃ b, (c.keeping bs).outline.outcome = .ok b := by
    intro o ho
    obtain ⟨findings, more, hyields, -⟩ := (c.outline_keeping_eq_ok hboth).mp ho
    obtain ⟨f, m, f', m', hfm, hfm', -, -⟩ := c.yields_append_iff.mp hyields
    exact ⟨⟨_, (c.outline_keeping_eq_ok has).mpr ⟨f, m, hfm, rfl⟩⟩,
      ⟨_, (c.outline_keeping_eq_ok hbs).mpr ⟨f', m', hfm', rfl⟩⟩⟩
  constructor
  · rw [exists_error_iff, exists_error_iff, exists_error_iff, ← not_and_or, not_iff_not]
    constructor
    · rintro ⟨o, ho⟩
      exact hsplit o ho
    · rintro ⟨⟨a, ha⟩, b, hb⟩
      obtain ⟨o, ho, -⟩ := hjoin a b ha hb
      exact ⟨o, ho⟩
  · intro o a b ho ha hb
    obtain ⟨o', ho', hjoins⟩ := hjoin a b ha hb
    rw [ho] at ho'
    cases ho'
    exact hjoins

/-- In the sample the function alone comes first, then the whole test: the usages of both alternate
in the order of the text. -/
theorem outline_append_sample :
    (Sample.tree.keeping [Sample.body]).isCall = false ∧
      (Sample.tree.keeping Sample.tree.children).isCall = false ∧
      ∃ o a b,
        (keeping ⟨Sample.source, {}, {}, .worker⟩
          ([Sample.body] ++ Sample.tree.children)).outline.outcome = .ok o ∧
        (keeping ⟨Sample.source, {}, {}, .worker⟩ [Sample.body]).outline.outcome = .ok a ∧
        (keeping ⟨Sample.source, {}, {}, .worker⟩ Sample.tree.children).outline.outcome = .ok b ∧
        a.used.map (·.map (·.span)) = some [⟨17, 26⟩, ⟨27, 34⟩] ∧
        o.used.map (·.map (·.span)) = some [⟨17, 26⟩, ⟨17, 26⟩, ⟨27, 34⟩, ⟨27, 34⟩] ∧
        o.Joins a b := by
  have hfunction : (Sample.tree.keeping [Sample.body]).isCall = false := rfl
  have htest : (Sample.tree.keeping Sample.tree.children).isCall = false := rfl
  have hwhole : (keeping ⟨Sample.source, {}, {}, .worker⟩
      ([Sample.body] ++ Sample.tree.children)).outline.outcome.toOption.any (fun o =>
        o.used.map (·.map (·.span)) = some [⟨17, 26⟩, ⟨17, 26⟩, ⟨27, 34⟩, ⟨27, 34⟩]) = true := by
    decide
  have hfirst : (keeping ⟨Sample.source, {}, {}, .worker⟩
      [Sample.body]).outline.outcome.toOption.any (fun o =>
        o.used.map (·.map (·.span)) = some [⟨17, 26⟩, ⟨27, 34⟩]) = true := by
    decide
  have hsecond : (keeping ⟨Sample.source, {}, {}, .worker⟩
      Sample.tree.children).outline.outcome.toOption.any (fun _ => true) = true := by
    decide
  obtain ⟨o, ho, hused⟩ := exists_ok_of_any hwhole
  obtain ⟨a, ha, hfirstUsed⟩ := exists_ok_of_any hfirst
  obtain ⟨b, hb, -⟩ := exists_ok_of_any hsecond
  exact ⟨hfunction, htest, o, a, b, ho, ha, hb, of_decide_eq_true hfirstUsed,
    of_decide_eq_true hused,
    (outline_append ⟨Sample.source, {}, {}, .worker⟩ hfunction htest).2 o a b ho ha hb⟩

end Context
end SuiteOutline
