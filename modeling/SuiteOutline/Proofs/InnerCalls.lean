import SuiteOutline.Proofs.Place
import SuiteOutline.Proofs.Room
import SuiteOutline.Proofs.WellFormed

/-! The calls inside a function against those of the whole outline: the same usages of commands, cut
to the function, and every other call that has a name. -/
namespace SuiteOutline

variable {src : Source} {v : Vocabulary} {room : Nat}

/-- The usage less the values of its arguments. -/
def CommandUsage.withoutLiterals (u : CommandUsage) : CommandUsage := { u with literals := [] }

theorem usage?_some_of_some {room' : Nat} {call : Node} {segments : List String} {u : CommandUsage}
    {found : Option CommandUsage} (hu : (usage? src v room call segments).outcome = .ok (some u))
    (hfound : (usage? src v room' call segments).outcome = .ok found) :
    ∃ literals, found = some { u with literals } := by
  obtain ⟨names, callee, property, rfl, hcallee, hkind, hnames, hproperty, hstart, hstop,
    harguments, -, hchain⟩ := usage?_eq_some.mp hu
  obtain ⟨start, hstart', stop, hstop', arguments, harguments', literals, -, rfl⟩ :=
    (usage?_of_guards hcallee hkind hnames hproperty).mp hfound
  cases hstart.symm.trans hstart'
  cases hstop.symm.trans hstop'
  cases harguments.symm.trans harguments'
  exact ⟨literals, by rw [← hchain]⟩

/-- The room bears on nothing but the values of arguments. -/
theorem usage?_withoutLiterals {room' : Nat} {call : Node} {segments : List String}
    {found found' : Option CommandUsage}
    (h : (usage? src v room call segments).outcome = .ok found)
    (h' : (usage? src v room' call segments).outcome = .ok found') :
    found.map CommandUsage.withoutLiterals = found'.map CommandUsage.withoutLiterals := by
  cases found with
  | some u =>
    obtain ⟨literals, rfl⟩ := usage?_some_of_some h h'
    rfl
  | none =>
    cases found' with
    | none => rfl
    | some u =>
      obtain ⟨literals, hnone⟩ := usage?_some_of_some h' h
      cases hnone

namespace Source

/-- The usage that a node makes of a command, if it makes one; its arguments are read with that
room. -/
def usageAt? (src : Source) (v : Vocabulary) (room : Nat) (n : Node) : Option CommandUsage :=
  match src.segments? n with
  | .ok (some segments) =>
    if v.isCommand (dotted segments) then (usage? src v room n segments).found? else none
  | _ => none

/-- The name by which a node calls something that is no command. -/
def otherName? (src : Source) (v : Vocabulary) (n : Node) : Option String :=
  match src.dotted? n with
  | .ok (some name) => if v.isCommand name then none else some name
  | _ => none

theorem usageAt?_eq_some {n : Node} {u : CommandUsage} :
    src.usageAt? v room n = some u ↔ src.Uses v room n u := by
  unfold usageAt? Uses
  constructor
  · intro h
    split at h
    case h_1 segments hs =>
      split at h
      case isTrue hcommand =>
        refine ⟨segments, hs, hcommand, ?_⟩
        unfold Traced.found? at h
        split at h
        case h_1 hu => rw [hu, h]
        case h_2 => cases h
      case isFalse => cases h
    case h_2 => cases h
  · rintro ⟨segments, hs, hcommand, hu⟩
    simp [hs, hcommand, Traced.found?_eq hu]

/-- The call's name begins as commands do, but it is no usage of one. -/
def Declines (src : Source) (v : Vocabulary) (room : Nat) (call : Node) : Prop :=
  ∃ segments, src.segments? call = .ok (some segments) ∧ v.isCommand (dotted segments) = true ∧
    (usage? src v room call segments).outcome = .ok none

/-- Reading the node's name, and the usage if the name is that of a command, does not fail. -/
def Reads (src : Source) (v : Vocabulary) (room : Nat) (n : Node) : Prop :=
  ∃ segments, src.segments? n = .ok segments ∧
    ∀ s, segments = some s → v.isCommand (dotted s) = true →
      ∃ u, (usage? src v room n s).outcome = .ok u

theorem Reads.usageAt?_withoutLiterals {room' : Nat} {n : Node} (h : src.Reads v room n)
    (h' : src.Reads v room' n) :
    (src.usageAt? v room n).map CommandUsage.withoutLiterals =
      (src.usageAt? v room' n).map CommandUsage.withoutLiterals := by
  obtain ⟨segments, hs, husage⟩ := h
  obtain ⟨segments', hs', husage'⟩ := h'
  cases hs.symm.trans hs'
  cases segments with
  | none => simp [usageAt?, hs]
  | some segments =>
    cases hcommand : v.isCommand (dotted segments) with
    | false => simp [usageAt?, hs, hcommand]
    | true =>
      obtain ⟨u, hu⟩ := husage segments rfl hcommand
      obtain ⟨u', hu'⟩ := husage' segments rfl hcommand
      simp only [usageAt?, hs, hcommand, if_true, Traced.found?_eq hu, Traced.found?_eq hu']
      exact usage?_withoutLiterals hu hu'

/-- No call is counted twice; left out are those without a name and those that decline. -/
theorem Reads.accounted {n : Node} (h : src.Reads v room n) :
    (src.usageAt? v room n = none ∨ src.otherName? v n = none) ∧
      (src.usageAt? v room n = none ∧ src.otherName? v n = none ↔
        src.segments? n = .ok none ∨ src.Declines v room n) := by
  obtain ⟨segments, hs, husage⟩ := h
  have hname : src.dotted? n = .ok (segments.map dotted) := dotted?_eq_ok.mpr ⟨_, hs, rfl⟩
  cases segments with
  | none => simp [usageAt?, otherName?, hs, hname]
  | some segments =>
    cases hcommand : v.isCommand (dotted segments) with
    | false => simp [usageAt?, otherName?, Declines, hs, hname, hcommand]
    | true =>
      obtain ⟨u, hu⟩ := husage segments rfl hcommand
      simp [usageAt?, otherName?, Declines, hs, hname, hcommand, hu, Traced.found?_eq hu]

theorem reads_of_innerCallAt {n : Node} {found : Option InnerCall}
    (h : (innerCallAt src v room {} n).outcome = .ok found) : src.Reads v room n := by
  rcases innerCallAt_eq_ok.mp h with ⟨hs, -⟩ | ⟨segments, hs, h⟩
  · exact ⟨none, hs, nofun⟩
  · refine ⟨some segments, hs, ?_⟩
    rintro _ ⟨⟩ hcommand
    simp only [hcommand, Bool.true_eq_false, true_and, false_and, or_false] at h
    obtain ⟨u, hu, -⟩ := h
    exact ⟨u, hu⟩

/-- The calls of a list that are no commands, each with its name. -/
def othersAmong (src : Source) (v : Vocabulary) (ns : List Node) : List (Node × String) :=
  ns.filterMap fun n => (src.otherName? v n).map (n, ·)

end Source

/-- What a node adds to the calls inside a function: the usage if it makes one, or else the record
of the other call, and that is the only thing that can fail. -/
theorem innerCallAt_outcome {n : Node} (h : src.Reads v room n) :
    (innerCallAt src v room {} n).outcome =
      match src.otherName? v n with
      | none => .ok ((src.usageAt? v room n).map .command)
      | some name => (otherCall src n name).map fun o => some (.other o) := by
  obtain ⟨segments, hs, husage⟩ := h
  cases segments with
  | none =>
    have hname : src.dotted? n = .ok none := Source.dotted?_eq_ok.mpr ⟨_, hs, rfl⟩
    simp only [Source.otherName?, Source.usageAt?, hs, hname]
    exact innerCallAt_eq_ok.mpr (.inl ⟨hs, rfl⟩)
  | some segments =>
    have hname : src.dotted? n = .ok (some (dotted segments)) :=
      Source.dotted?_eq_ok.mpr ⟨_, hs, rfl⟩
    cases hcommand : v.isCommand (dotted segments) with
    | true =>
      obtain ⟨u, hu⟩ := husage segments rfl hcommand
      simp only [Source.otherName?, Source.usageAt?, hs, hname, hcommand, if_true,
        Traced.found?_eq hu]
      exact innerCallAt_eq_ok.mpr (.inr ⟨segments, hs, .inl ⟨hcommand, rfl, u, hu, rfl⟩⟩)
    | false =>
      simp only [Source.otherName?, hname, hcommand, Bool.false_eq_true, if_false]
      simp only [innerCallAt, Traced.outcome_bind, Traced.outcome_liftM, hs]
      change (if v.isCommand (dotted segments) = true then _ else _ : Traced _).outcome = _
      rw [if_neg (by simp [hcommand])]
      change (liftM (otherCall src n (dotted segments)) >>= _ : Traced _).outcome = _
      rw [Traced.outcome_bind, Traced.outcome_liftM]
      cases otherCall src n (dotted segments) <;> rfl

/-- The calls of a list of nodes, told apart: all usages, and a record for each other call. -/
theorem collect_innerCallAt {ns : List Node} (h : ∀ n ∈ ns, src.Reads v room n) :
    (Traced.collect (innerCallAt src v room {}) ns).outcome.map
        (fun found => (found.filterMap (·.command?), found.filterMap (·.other?))) =
      ((src.othersAmong v ns).mapM fun p => otherCall src p.1 p.2).map
        fun others => (ns.filterMap (src.usageAt? v room), others) := by
  induction ns with
  | nil => rfl
  | cons n ns ih =>
    have hrest := ih fun m hm => h m (List.mem_cons_of_mem n hm)
    have hat := innerCallAt_outcome (h n List.mem_cons_self)
    simp only [Traced.collect, Traced.outcome_bind, Traced.outcome_pure, hat]
    -- only the outcomes for the rest of the list matter from here on
    generalize (Traced.collect (innerCallAt src v room {}) ns).outcome = collected at hrest ⊢
    cases hother : src.otherName? v n with
    | none =>
      have hothers : src.othersAmong v (n :: ns) = src.othersAmong v ns := by
        simp [Source.othersAmong, hother]
      rw [hothers]
      clear ih h hat
      generalize (src.othersAmong v ns).mapM (fun p => otherCall src p.1 p.2) = recorded
        at hrest ⊢
      cases husage : src.usageAt? v room n <;> cases collected <;> cases recorded <;>
        simp_all [Except.map, bind, Except.bind, InnerCall.command?, InnerCall.other?]
    | some name =>
      have husage : src.usageAt? v room n = none :=
        (h n List.mem_cons_self).accounted.1.resolve_right (by simp [hother])
      have hothers : src.othersAmong v (n :: ns) = (n, name) :: src.othersAmong v ns := by
        simp [Source.othersAmong, hother]
      rw [hothers, List.mapM_cons]
      clear ih h hat
      generalize (src.othersAmong v ns).mapM (fun p => otherCall src p.1 p.2) = recorded
        at hrest ⊢
      cases hcall : otherCall src n name <;> cases collected <;> cases recorded <;>
        simp_all [Except.map, bind, Except.bind, pure, Except.pure, InnerCall.command?,
          InnerCall.other?]

theorem innerCalls_outcome {f : Node} (h : ∀ n ∈ f.walk, src.Reads v room n) :
    (innerCalls src v room {} f).outcome =
      ((src.othersAmong v f.walk).mapM fun p => otherCall src p.1 p.2).map fun others =>
        ⟨byPosition (·.span) (f.walk.filterMap (src.usageAt? v room)),
          byPosition (·.span) others⟩ := by
  have hsplit := collect_innerCallAt h
  simp only [innerCalls, Traced.outcome_bind, Traced.outcome_pure]
  generalize (Traced.collect (innerCallAt src v room {}) f.walk).outcome = collected at hsplit ⊢
  generalize (src.othersAmong v f.walk).mapM (fun p => otherCall src p.1 p.2) = recorded
    at hsplit ⊢
  cases collected <;> cases recorded <;> simp only [Except.map, reduceCtorEq] at hsplit
  · cases hsplit
    rfl
  · obtain ⟨hcommands, hothers⟩ := Prod.mk.inj (Except.ok.inj hsplit)
    rw [← hcommands, ← hothers]
    rfl

/-- With any other room the calls inside a function are the same, but for the values of
arguments. -/
theorem innerCalls_withoutLiterals {room' : Nat} {f : Node} {calls : InnerCalls}
    (h : ∀ n ∈ f.walk, src.Reads v room n)
    (hcalls : (innerCalls src v room' {} f).outcome = .ok calls) :
    calls.commands.map (·.withoutLiterals) =
      (byPosition (·.span) (f.walk.filterMap (src.usageAt? v room))).map (·.withoutLiterals) ∧
    ∃ others, (src.othersAmong v f.walk).mapM (fun p => otherCall src p.1 p.2) = .ok others ∧
      calls.others = byPosition (·.span) others := by
  have hreads : ∀ n ∈ f.walk, src.Reads v room' n := by
    intro n hn
    simp only [innerCalls, Traced.outcome_bind_eq_ok] at hcalls
    obtain ⟨found, hfound, -⟩ := hcalls
    obtain ⟨b, hb⟩ := (Traced.collect_eq_ok.mp hfound).1 n hn
    exact Source.reads_of_innerCallAt hb
  rw [innerCalls_outcome hreads] at hcalls
  cases hothers : (src.othersAmong v f.walk).mapM fun p => otherCall src p.1 p.2 with
  | error e =>
    rw [hothers] at hcalls
    cases hcalls
  | ok others =>
    rw [hothers] at hcalls
    cases hcalls
    refine ⟨?_, others, rfl, rfl⟩
    have hspan : ∀ u : CommandUsage, u.withoutLiterals.span = u.span := fun u => rfl
    rw [map_byPosition _ hspan, map_byPosition _ hspan, List.map_filterMap, List.map_filterMap]
    have hsame := fun n hn => (hreads n hn).usageAt?_withoutLiterals (h n hn)
    rw [List.filterMap_congr hsame]

namespace Context

variable {c : Context}

section

variable (hr : c.vocabulary.isCommand c.vocabulary.registrationPath = false)
  (hused : c.options.used = true) {visit : Visit} {found : Option Finding}

include hr hused

/-- A visit to a call that uses a command finds the usage: no registration has such a name. -/
theorem inspect_of_uses {u : CommandUsage}
    (h : c.source.Uses c.vocabulary c.room.file visit.node u) :
    (c.inspect visit).outcome = .ok (some (.usage u)) := by
  obtain ⟨segments, hs, hcommand, hu⟩ := h
  have hpart := Vocabulary.part?_of_isCommand hr hcommand
  rw [inspect_eq_ok, Source.callPart?_eq_some.mpr ⟨hs, hpart⟩]
  refine ⟨⟨_, hs⟩, ?_⟩
  simp [Options.wants, hused, examine, hu]

theorem usage?_of_inspect (h : (c.inspect visit).outcome = .ok found) :
    found.bind (·.usage?) = c.source.usageAt? c.vocabulary c.room.file visit.node := by
  ext u
  rw [Source.usageAt?_eq_some]
  constructor
  · intro hu
    obtain ⟨f, rfl, hf⟩ := Option.bind_eq_some_iff.mp hu
    rw [Finding.usage?_eq_some.mp hf] at h
    cases finds_of_inspect h with
    | usage huses => exact huses
  · intro hu
    rw [inspect_of_uses hr hused hu] at h
    cases h
    rfl

theorem reads_of_inspect (h : (c.inspect visit).outcome = .ok found) :
    c.source.Reads c.vocabulary c.room.file visit.node := by
  obtain ⟨⟨segments, hs⟩, h⟩ := inspect_eq_ok.mp h
  refine ⟨segments, hs, ?_⟩
  rintro s rfl hcommand
  have hpart := Vocabulary.part?_of_isCommand hr hcommand
  rw [Source.callPart?_eq_some.mpr ⟨hs, hpart⟩] at h
  simp only [Options.wants, hused, if_true, examine, Traced.outcome_bind_eq_ok] at h
  obtain ⟨u, hu, -⟩ := h
  exact ⟨u, hu⟩

/-- The file-level pass lists the usages of all nodes on the walk. -/
theorem used_of_outline {o : Outline} (ho : c.outline.outcome = .ok o) :
    o.used = some (byPosition (·.span)
      (c.source.root.walk.filterMap (c.source.usageAt? c.vocabulary c.room.file))) ∧
    ∀ n ∈ c.source.root.walk, c.source.Reads c.vocabulary c.room.file n := by
  obtain ⟨findings, hfindings, ho⟩ := outline_eq_ok.mp ho
  obtain ⟨hall, rfl⟩ := Traced.collect_eq_ok.mp hfindings
  rw [← Node.map_node_visits]
  constructor
  · have hfound : ∀ w ∈ c.source.root.visits, ((c.inspect w).found?.bind (·.usage?)) =
        c.source.usageAt? c.vocabulary c.room.file w.node := by
      intro w hw
      obtain ⟨b, hb⟩ := hall w hw
      rw [Traced.found?_eq hb, usage?_of_inspect hr hused hb]
    have hused' : o.used = (Outline.ofFindings c.options c.vocabulary
        (c.source.root.visits.filterMap fun w => (c.inspect w).found?)).used := by
      rcases ho with ⟨-, rfl⟩ | ⟨-, more, -, rfl⟩ <;> rfl
    rw [hused', Outline.ofFindings, given_eq_some, List.filterMap_filterMap,
      List.filterMap_congr hfound, List.filterMap_map]
    exact ⟨hused, rfl⟩
  · intro n hn
    obtain ⟨w, hw, rfl⟩ := List.mem_map.mp hn
    obtain ⟨b, hb⟩ := hall w hw
    exact reads_of_inspect hr hused hb

end

end Context

namespace Source

/-- All usages of a source by position, each with the way to its call. -/
def placedUsages (src : Source) (v : Vocabulary) (room : Nat) : List (List Nat × CommandUsage) :=
  byPosition (·.2.span) (src.root.places.filterMap fun p => (src.usageAt? v room p.2).map (p.1, ·))

theorem map_snd_byPosition (placed : List (List Nat × CommandUsage)) :
    (byPosition (·.2.span) placed).map (·.2) = byPosition (·.span) (placed.map (·.2)) :=
  map_byPosition _ (fun _ => rfl) placed

theorem map_snd_placed (places : List (List Nat × Node)) :
    (places.filterMap fun p => (src.usageAt? v room p.2).map (p.1, ·)).map (·.2) =
      (places.map (·.2)).filterMap (src.usageAt? v room) := by
  rw [List.map_filterMap, List.filterMap_map]
  refine List.filterMap_congr fun p _ => ?_
  simp

theorem map_snd_placedUsages :
    (src.placedUsages v room).map (·.2) =
      byPosition (·.span) (src.root.walk.filterMap (src.usageAt? v room)) := by
  rw [placedUsages, map_snd_byPosition, map_snd_placed, Node.map_snd_places]

/-- The usages whose way goes on from that of a node are those that the walk from the node meets. -/
theorem map_snd_filter_placedUsages {way : List Nat} {f : Node} (hf : (way, f) ∈ src.root.places) :
    ((src.placedUsages v room).filter fun p => way.isPrefixOf p.1).map (·.2) =
      byPosition (·.span) (f.walk.filterMap (src.usageAt? v room)) := by
  have hfilter : (src.root.places.filterMap fun p => (src.usageAt? v room p.2).map (p.1, ·)).filter
        (fun p => way.isPrefixOf p.1) =
      (src.root.places.filter fun p => way.isPrefixOf p.1).filterMap
        fun p => (src.usageAt? v room p.2).map (p.1, ·) := by
    rw [List.filter_filterMap, List.filterMap_filter]
    refine List.filterMap_congr fun p _ => ?_
    cases src.usageAt? v room p.2 <;> simp [Option.filter]
  rw [placedUsages, filter_byPosition, map_snd_byPosition, hfilter,
    map_snd_placed, Node.filter_places hf, List.map_map, ← Node.map_snd_places]
  rfl

theorem Measured.describeArguments_ok (h : src.Measured) {n : Node} (hn : n ∈ src.root.nodes) :
    ∃ arguments, describeArguments src n.callArguments = .ok arguments := by
  refine exists_mapM_eq_ok fun arg harg => ?_
  have hreach := Node.reaches_callArguments harg
  obtain ⟨span, hspan⟩ := h arg (Node.mem_nodes_trans hn hreach.mem_nodes)
  exact ⟨⟨arg.kindName, span⟩, by simp [describeArgument, hspan]⟩

theorem Measured.otherCall_of_mem_nodes (h : src.Measured) {n : Node} (hn : n ∈ src.root.nodes)
    (name : String) : ∃ o, otherCall src n name = .ok o := by
  have hanchor : n.Reaches (n.anchor?.getD n) := by
    cases ha : n.anchor? with
    | none => exact .refl n
    | some a =>
      obtain ⟨callee, hcallee, ha⟩ := Node.reaches_anchor? ha
      exact (Node.reaches_child? hcallee).trans ha
  obtain ⟨place, hplace⟩ := h n hn
  obtain ⟨span, hspan⟩ := h _ (Node.mem_nodes_trans hn hanchor.mem_nodes)
  have hstart := (spanOf_eq_ok.mp hspan).1
  obtain ⟨arguments, harguments⟩ := h.describeArguments_ok hn
  exact ⟨⟨name, ⟨span.start, place.stop⟩, place.start, arguments⟩,
    otherCall_eq_ok.mpr ⟨rfl, hstart, hplace, harguments⟩⟩

theorem Measured.othersAmong_ok (h : src.Measured) {f : Node} (hf : f ∈ src.root.walk) :
    ∃ others, (src.othersAmong v f.walk).mapM (fun p => otherCall src p.1 p.2) = .ok others := by
  refine exists_mapM_eq_ok fun p hp => ?_
  obtain ⟨n, hn, hname⟩ := List.mem_filterMap.mp hp
  obtain ⟨name, -, rfl⟩ := Option.map_eq_some_iff.mp hname
  have hreach := Node.reaches_of_mem_walk (Node.mem_walk_trans hf hn)
  exact h.otherCall_of_mem_nodes hreach.mem_nodes name

end Source

namespace Context

/-- The calls inside a function agree with the outline of the whole source. Its usages are those of
the outline whose way goes on from the function's, in the same order, but for the values of
arguments that are nested too deep for either; its other calls are one for each call with a name
that does not begin as commands do. No call is in both lists, and those in neither have no name or
decline. -/
theorem innerCalls_agree_with_used {options : Options} {room : Room} {o : Outline}
    (hr : v.isCommand v.registrationPath = false) (hused : options.used = true)
    (ho : (outline ⟨src, options, v, room⟩).outcome = .ok o) {way : List Nat} {f : Node}
    (hf : (way, f) ∈ src.root.places) (levels : Nat) :
    o.used = some ((src.placedUsages v room.file).map (·.2)) ∧
    (∀ calls, (innerCalls src v levels {} f).outcome = .ok calls →
      calls.commands.map (·.withoutLiterals) =
        ((src.placedUsages v room.file).filter fun p => way.isPrefixOf p.1).map
          (·.2.withoutLiterals) ∧
      ∃ others, (src.othersAmong v f.walk).mapM (fun p => otherCall src p.1 p.2) = .ok others ∧
        calls.others = byPosition (·.span) others) ∧
    ((∀ n ∈ f.walk, src.Fits v (min room.file levels) n) →
      (innerCalls src v levels {} f).outcome =
        ((src.othersAmong v f.walk).mapM fun p => otherCall src p.1 p.2).map (fun others =>
          ⟨((src.placedUsages v room.file).filter fun p => way.isPrefixOf p.1).map (·.2),
            byPosition (·.span) others⟩) ∧
      (src.Measured → ∃ calls, (innerCalls src v levels {} f).outcome = .ok calls)) ∧
    ∀ n ∈ f.walk, (src.usageAt? v room.file n = none ∨ src.otherName? v n = none) ∧
      (src.usageAt? v room.file n = none ∧ src.otherName? v n = none ↔
        src.segments? n = .ok none ∨ src.Declines v room.file n) := by
  obtain ⟨hall, hreads⟩ := used_of_outline (c := ⟨src, options, v, room⟩) hr hused ho
  have hfwalk : f ∈ src.root.walk := Node.mem_walk_of_mem_places hf
  have hwalk : ∀ n ∈ f.walk, src.Reads v room.file n := fun n hn =>
    hreads n (Node.mem_walk_trans hfwalk hn)
  have hplaced : ((src.placedUsages v room.file).filter fun p => way.isPrefixOf p.1).map (·.2) =
      byPosition (·.span) (f.walk.filterMap (src.usageAt? v room.file)) :=
    Source.map_snd_filter_placedUsages hf
  refine ⟨hall.trans (by rw [Source.map_snd_placedUsages]), fun calls hcalls => ?_, fun hfits => ?_,
    fun n hn => (hwalk n hn).accounted⟩
  · have hbare : ((src.placedUsages v room.file).filter fun p => way.isPrefixOf p.1).map
          (·.2.withoutLiterals) =
        (byPosition (·.span) (f.walk.filterMap (src.usageAt? v room.file))).map
          (·.withoutLiterals) := by
      rw [← hplaced, List.map_map]
      rfl
    rw [hbare]
    exact innerCalls_withoutLiterals hwalk hcalls
  · -- Where all arguments fit, the calls are read as if with the room of the whole source.
    have hsame : innerCalls src v levels {} f = innerCalls src v room.file {} f :=
      innerCalls_of_fits (by omega) (by omega) hfits {}
    have hinner := innerCalls_outcome hwalk
    rw [hsame, hplaced]
    refine ⟨hinner, fun hmeasured => ?_⟩
    obtain ⟨others, hothers⟩ := hmeasured.othersAmong_ok (v := v) hfwalk
    exact ⟨_, by rw [hinner, hothers]; rfl⟩

/-- The body of the sample's test makes both usages and the other call. -/
theorem innerCalls_agree_with_used_sample :
    ∃ o calls, (outline ⟨Sample.source, {}, {}, .worker⟩).outcome = .ok o ∧
      ([0, 0, 1, 1], Sample.body) ∈ Sample.source.root.places ∧
      (innerCalls Sample.source {} Room.worker.inner {} Sample.body).outcome = .ok calls ∧
      o.used = some ((Sample.source.placedUsages {} Room.worker.file).map (·.2)) ∧
      calls.commands.map (·.withoutLiterals) =
        ((Sample.source.placedUsages {} Room.worker.file).filter fun p =>
          [0, 0, 1, 1].isPrefixOf p.1).map (·.2.withoutLiterals) ∧
      ((Sample.source.placedUsages {} Room.worker.file).filter fun p =>
        [0, 0, 1, 1].isPrefixOf p.1).map (·.2.name) = ["get", "click"] ∧
      (Sample.source.othersAmong {} Sample.body.walk).map (·.2) = ["f"] := by
  have hcheck : (outline ⟨Sample.source, {}, {}, .worker⟩).outcome.toOption.any
      (fun _ => true) = true := by
    decide +kernel
  obtain ⟨o, ho, -⟩ := exists_ok_of_any hcheck
  have hplace : ([0, 0, 1, 1], Sample.body) ∈ Sample.source.root.places :=
    List.mem_of_getElem? (i := 7) rfl
  have hmeasured : Sample.source.Measured :=
    (Source.wellFormed_ofTree Sample.ofTree_tree Sample.wellFormed_tree).measured
  have hnesting : ∀ n ∈ Sample.body.walk, ∀ arg ∈ n.callArguments,
      arg.nesting ≤ min Room.worker.file Room.worker.inner := by decide +kernel
  obtain ⟨hused, hbare, hexact, -⟩ := innerCalls_agree_with_used (by decide +kernel) rfl ho hplace
    Room.worker.inner
  obtain ⟨calls, hcalls⟩ := (hexact fun n hn _ _ _ => hnesting n hn).2 hmeasured
  exact ⟨o, calls, ho, hplace, hcalls, hused, (hbare calls hcalls).1, by decide +kernel,
    by decide +kernel⟩

end Context

/-! The text `it(0,()=>cy.a({a:[[…]],a:true}))`, with as many pairs of brackets as there are levels.
Only the last of the two values is kept. -/
namespace Sample

def brackets : (levels start : Nat) → List Node
  | 0, _ => []
  | levels + 1, start =>
    let stop := start + 2 * (levels + 1)
    [node none .array start stop
      (token .leftBracket start (start + 1) :: brackets levels (start + 1) ++
        [token .rightBracket (stop - 1) stop])]

def deepText (levels : Nat) : List Char :=
  "it(0,()=>cy.a(\x7ba:".toList ++ List.replicate levels '[' ++ List.replicate levels ']' ++
    ",a:true\x7d))".toList

def deepCall (levels : Nat) : Node :=
  let stop := 17 + 2 * levels
  node (some .body) .callExpression 9 (stop + 9)
    [node (some .function) .memberExpression 9 13
      [node (some .object) .identifier 9 11 [],
       node (some .property) .propertyIdentifier 12 13 []],
     node (some .arguments) .arguments 13 (stop + 9)
      [node none .object 14 (stop + 8)
        [node none .pair 15 stop
          (node (some .key) .propertyIdentifier 15 16 [] ::
            (brackets levels 17).map fun n => { n with role := some .value }),
         node none .pair (stop + 1) (stop + 7)
          [node (some .key) .propertyIdentifier (stop + 1) (stop + 2) [],
           node (some .value) .trueLiteral (stop + 3) (stop + 7) []]]]]

def deepFunction (levels : Nat) : Node :=
  node none .arrowFunction 5 (26 + 2 * levels)
    [node none (.other "formal_parameters") 5 7 [], deepCall levels]

def deepTree (levels : Nat) : Node :=
  let stop := 27 + 2 * levels
  node none (.other "program") 0 stop
    [node none .expressionStatement 0 stop
      [node none .callExpression 0 stop
        [node (some .function) .identifier 0 2 [],
         node (some .arguments) .arguments 2 stop
          [node none .number 3 4 [], deepFunction levels]]]]

def deepSource (levels : Nat) : Source :=
  ⟨none, (deepText levels).toArray, .same, deepTree levels⟩

end Sample

namespace Context

/-- A usage inside a function may not be one of the outline: an argument nested between the two
limits has a value in only one of them. -/
theorem not_forall_inner_usage_used :
    ¬∀ (src : Source) (v : Vocabulary) (options : Options) (o : Outline) (way : List Nat) (f : Node)
      (calls : InnerCalls), v.isCommand v.registrationPath = false → options.used = true →
      (outline ⟨src, options, v, .worker⟩).outcome = .ok o → (way, f) ∈ src.root.places →
      (innerCalls src v Room.worker.inner {} f).outcome = .ok calls →
      ∀ u ∈ calls.commands, u ∈ o.used.getD [] := by
  intro hall
  have hused : (outline ⟨Sample.deepSource 491, {}, {}, .worker⟩).outcome.toOption.any
      (fun o => (o.used.getD []).all fun u => !u.literals.isEmpty) = true := by
    decide +kernel
  have hinner : (innerCalls (Sample.deepSource 491) {} Room.worker.inner {}
      (Sample.deepFunction 491)).outcome.toOption.any
        (fun calls => calls.commands.any fun u => u.literals.isEmpty) = true := by
    decide +kernel
  obtain ⟨o, ho, hvalued⟩ := exists_ok_of_any hused
  obtain ⟨calls, hcalls, hbare⟩ := exists_ok_of_any hinner
  obtain ⟨u, hu, hempty⟩ := List.any_eq_true.mp hbare
  have hplace : ([0, 0, 1, 1], Sample.deepFunction 491) ∈ (Sample.deepSource 491).root.places :=
    List.mem_of_getElem? (i := 6) rfl
  have hmem := hall _ _ _ _ _ _ _ (by decide +kernel) rfl ho hplace hcalls u hu
  have hfull := List.all_eq_true.mp hvalued u hmem
  rw [hempty] at hfull
  cases hfull

end Context
end SuiteOutline
