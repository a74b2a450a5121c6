import SuiteOutline.Proofs.Factories
import SuiteOutline.Proofs.Site

/-! Suites are kept pure: each statement directly in the body of a suite that calls something other
than tests, suites, hooks and factories is reported, once and at its place, and nothing else is
reported in this way. A suite whose name is no literal is only remarked on. -/
namespace SuiteOutline

/-- How the report of a statement begins. -/
def purityTag : String := "[PURE DESCRIBE]"

def Diagnostic.isPurity (d : Diagnostic) : Bool :=
  (Text.ofString purityTag).isPrefixOf d.message

theorem Diagnostic.isPurity_iff {d : Diagnostic} :
    d.isPurity = true ↔ Text.ofString purityTag <+: d.message :=
  List.isPrefixOf_iff_prefix

/-- A message that begins in another way is no report. -/
theorem Diagnostic.isPurity_eq_false {d : Diagnostic} {head : Text}
    (hhead : head <+: d.message) (hlength : head.length ≤ (Text.ofString purityTag).length)
    (hother : head.isPrefixOf (Text.ofString purityTag) = false) : d.isPurity = false := by
  rw [← Bool.not_eq_true, isPurity_iff]
  intro htag
  have hprefix := List.prefix_of_prefix_length_le hhead htag hlength
  rw [List.isPrefixOf_iff_prefix.mpr hprefix] at hother
  cases hother

/-- What is in front of a list is in front of what the list has before a foreign element. -/
theorem prefix_of_prefix_append {α : Type} {tag front rest : List α} {x : α} (hx : x ∉ tag)
    (h : tag <+: front ++ x :: rest) : tag <+: front := by
  induction front generalizing tag with
  | nil =>
    cases tag with
    | nil => exact List.nil_prefix
    | cons y tag =>
      obtain ⟨rfl, -⟩ := List.cons_prefix_cons.mp h
      exact absurd List.mem_cons_self hx
  | cons a front ih =>
    cases tag with
    | nil => exact List.nil_prefix
    | cons y tag =>
      obtain ⟨rfl, hrest⟩ := List.cons_prefix_cons.mp h
      exact List.cons_prefix_cons.mpr ⟨rfl, ih (fun hx' => hx (List.mem_cons_of_mem _ hx')) hrest⟩

/-- A message that begins with a name is a report only if the name begins like one. -/
theorem Diagnostic.prefix_of_isPurity {d : Diagnostic} {name : String}
    (htold : d.message.TellsOf name) (h : d.isPurity = true) :
    Text.ofString purityTag <+: Text.ofString name := by
  obtain ⟨rest, hmessage⟩ := htold
  rw [isPurity_iff, ← hmessage, List.append_assoc] at h
  have hcolon : CodePoint.ofChar ':' ∉ Text.ofString purityTag := by decide
  exact prefix_of_prefix_append hcolon h

namespace Context

variable {c : Context}

/-! The statements of a suite. -/

/-- The name that a statement calls although a suite should not. -/
def strayCall? (c : Context) (statement : Node) : Option String :=
  (c.statementCall? statement).toOption.join.filter (!allowedInSuite c.vocabulary ·)

theorem strayCall?_eq_some {statement : Node} {name : String} :
    c.strayCall? statement = some name ↔ statement.symbol = .expressionStatement ∧
      (∃ e, statement.members.head? = some e ∧ c.source.dotted? e.unwrap = .ok (some name)) ∧
      allowedInSuite c.vocabulary name = false := by
  unfold strayCall? statementCall?
  by_cases hsymbol : statement.symbol = .expressionStatement
  case neg => simp [hsymbol, Except.toOption]
  case pos =>
    cases hhead : statement.members.head? with
    | none => simp [hsymbol, Except.toOption]
    | some e =>
      cases hname : c.source.dotted? e.unwrap with
      | error e => simp [hsymbol, hname, Except.toOption]
      | ok called => simp [hsymbol, hname, Except.toOption, Option.filter_eq_some_iff]

/-- What a suite is told of a statement that calls this name. -/
structure Reports (c : Context) (suite : String) (statement : Node) (name : String)
    (d : Diagnostic) : Prop where
  message : d.message = Text.ofString
    s!"[PURE DESCRIBE] '{suite}' should only call tests or hooks. Found '{name}'"
  isPurity : d.isPurity = true
  location : c.source.startOf statement = .ok d.location
  severity : d.severity = .error

theorem isPurity_of_message {suite name : String} {d : Diagnostic} (h : d.message = Text.ofString
    s!"[PURE DESCRIBE] '{suite}' should only call tests or hooks. Found '{name}'") :
    d.isPurity = true := by
  have htag : Text.ofString purityTag <+: Text.ofString "[PURE DESCRIBE] '" :=
    List.isPrefixOf_iff_prefix.mp (by decide)
  rw [Diagnostic.isPurity_iff, h]
  simp only [toString, Text.ofString_append, List.append_assoc]
  exact htag.trans (List.prefix_append _ _)

theorem forall₂_of_impurities {suite : String} {statements : List Node} {ds : List Diagnostic}
    (h : c.impurities suite statements = .ok ds) :
    List.Forall₂ (fun n d => ∃ name, c.strayCall? n = some name ∧ c.Reports suite n name d)
      (statements.filter fun n => (c.strayCall? n).isSome) ds := by
  induction statements generalizing ds with
  | nil =>
    cases h
    exact .nil
  | cons n ns ih =>
    simp only [impurities, bind_eq_ok] at h
    obtain ⟨called, hcalled, h⟩ := h
    have hstray : c.strayCall? n = called.filter (!allowedInSuite c.vocabulary ·) := by
      rw [strayCall?, hcalled]
      rfl
    split at h
    case h_1 hnone =>
      rw [List.filter_cons_of_neg (by simp [hstray, hnone])]
      exact ih h
    case h_2 name hname =>
      simp only [bind_eq_ok, pure_eq_ok] at h
      obtain ⟨d, hd, rest, hrest, rfl⟩ := h
      obtain ⟨hmessage, hlocation, hseverity⟩ := problemAt_eq_ok hd
      rw [List.filter_cons_of_pos (by simp [hstray, hname])]
      exact .cons ⟨name, hstray.trans hname, hmessage, isPurity_of_message hmessage, hlocation,
        hseverity⟩ (ih hrest)

/-! The suites of a tree. -/

/-- A call with two arguments or more of which the first, the name, is no literal. -/
def isUnnamed (call : Node) : Bool :=
  match call.callArguments with
  | title :: _ :: _ => title.kind ≠ .literal
  | _ => false

theorem isUnnamed_of_args {call title f : Site} {rest : List Site}
    (h : call.callArguments = title :: f :: rest) :
    isUnnamed call.node = decide (title.node.kind ≠ .literal) := by
  rw [isUnnamed, ← call.map_node_callArguments, h]
  rfl

/-- What is remarked on a suite whose name is no literal. -/
structure Remarks (c : Context) (visit : Visit) (d : Diagnostic) : Prop where
  location : c.source.startOf visit.node = .ok d.location
  severity : d.severity = .info
  isPurity : d.isPurity = false

/-- The statements of which a suite is told: those directly in the block of its function that make a
stray call. -/
def offencesIn (c : Context) (call : Site) : List Site :=
  match call.callArguments with
  | title :: f :: _ =>
    if title.node.kind = .literal ∧ f.node.isFunction = true then
      match (f.unwrap.child? .body).filter (·.node.symbol = .statementBlock) with
      | some body => body.members.filter fun s => (c.strayCall? s.node).isSome
      | none => []
    else []
  | _ => []

/-- A statement directly in the body of a visited suite calls that name, which is none of those that
a suite should call. -/
structure Offends (c : Context) (call : Site) (suite : String) (statement : Site) (name : String) :
    Prop where
  visited : call ∈ c.source.root.sites
  called : c.source.dotted? call.node = .ok (some suite)
  isSuite : c.vocabulary.isSuite suite = true
  body : ∃ title f rest body, call.callArguments = title :: f :: rest ∧
    title.node.kind = .literal ∧ f.node.isFunction = true ∧ f.unwrap.child? .body = some body ∧
    body.node.symbol = .statementBlock ∧ statement ∈ body.members
  calls : statement.node.symbol = .expressionStatement ∧
    ∃ e, statement.node.members.head? = some e ∧ c.source.dotted? e.unwrap = .ok (some name)
  outside : c.vocabulary.isTest name = false ∧ c.vocabulary.isSuite name = false ∧
    c.vocabulary.isHook name = false ∧ c.vocabulary.isScenario name = false

theorem mem_offencesIn {call statement : Site} :
    statement ∈ c.offencesIn call ↔ ∃ title f rest body, call.callArguments = title :: f :: rest ∧
      title.node.kind = .literal ∧ f.node.isFunction = true ∧ f.unwrap.child? .body = some body ∧
      body.node.symbol = .statementBlock ∧ statement ∈ body.members ∧
      (c.strayCall? statement.node).isSome = true := by
  unfold offencesIn
  constructor
  · intro h
    split at h
    case h_2 => cases h
    case h_1 title f rest hargs =>
      split at h
      case isFalse => cases h
      case isTrue hboth =>
        split at h
        case h_2 => cases h
        case h_1 body hbody =>
          obtain ⟨hbody, hblock⟩ := Option.filter_eq_some_iff.mp hbody
          obtain ⟨hmem, hstray⟩ := List.mem_filter.mp h
          exact ⟨title, f, rest, body, hargs, hboth.1, hboth.2, hbody, of_decide_eq_true hblock,
            hmem, hstray⟩
  · intro ⟨title, f, rest, body, hargs, htitle, hf, hbody, hblock, hmem, hstray⟩
    have hfilter : (f.unwrap.child? .body).filter (·.node.symbol = .statementBlock) = some body :=
      Option.filter_eq_some_iff.mpr ⟨hbody, decide_eq_true hblock⟩
    simp only [hargs, htitle, hf, and_self, if_true, hfilter]
    exact List.mem_filter.mpr ⟨hmem, hstray⟩

/-- Above a statement that a suite is told of there are the block, the function, parentheses, the
arguments and then the suite. -/
theorem above_of_mem_offencesIn {call statement : Site} (h : statement ∈ c.offencesIn call) :
    ∃ i j list,
      (statement.above.drop 2).dropWhile (fun p => p.2.symbol = .parenthesizedExpression) =
        (j, list) :: (i, call.node) :: call.above := by
  obtain ⟨title, f, rest, body, hargs, -, -, hbody, -, hmem, -⟩ := mem_offencesIn.mp h
  obtain ⟨_, -, hstatement⟩ := Site.mem_children.mp (Site.mem_children_of_mem_members hmem)
  obtain ⟨_, -, hinside⟩ := Site.mem_children.mp (Site.mem_children_of_child? hbody)
  have hf : f ∈ call.callArguments := by simp [hargs]
  obtain ⟨list, hlist, hsymbol, hf⟩ := Site.exists_list_of_mem_callArguments hf
  obtain ⟨i, -, habove⟩ := Site.mem_children.mp hlist
  obtain ⟨j, -, hargument⟩ := Site.mem_children.mp (Site.mem_children_of_mem_members hf)
  obtain ⟨between, hbetween, hparens⟩ := f.exists_above_unwrap
  refine ⟨i, j, list.node, ?_⟩
  have hdrop : statement.above.drop 2 =
      between ++ (j, list.node) :: (i, call.node) :: call.above := by
    rw [hstatement, hinside, hbetween, hargument, habove]
    rfl
  rw [hdrop, List.dropWhile_append_of_pos (fun p hp => decide_eq_true (hparens p hp)),
    List.dropWhile_cons_of_neg (by simp [hsymbol])]

theorem eq_of_mem_offencesIn {call other statement : Site} (h : statement ∈ c.offencesIn call)
    (hother : statement ∈ c.offencesIn other) : call = other := by
  obtain ⟨i, j, list, habove⟩ := above_of_mem_offencesIn h
  obtain ⟨i', j', list', habove'⟩ := above_of_mem_offencesIn hother
  simp only [habove, List.cons.injEq, Prod.mk.injEq] at habove'
  obtain ⟨-, ⟨-, hnode⟩, hup⟩ := habove'
  obtain ⟨node, above⟩ := call
  obtain ⟨node', above'⟩ := other
  exact congrArg₂ Site.mk hnode hup

/-- The statements that all the visited suites are told of. -/
def offences (c : Context) : List Site :=
  (c.source.root.sites.filter fun s => c.callsSuite s.visit).flatMap c.offencesIn

theorem in_of_mem_offences {s : Site} (h : s ∈ c.offences) : Site.In c.source.root s := by
  obtain ⟨call, hcall, hs⟩ := List.mem_flatMap.mp h
  obtain ⟨title, f, rest, body, hargs, -, -, hbody, -, hmem, -⟩ := mem_offencesIn.mp hs
  have hin := Node.in_of_mem_sites (List.mem_of_mem_filter hcall)
  have hf : f ∈ call.callArguments := by simp [hargs]
  obtain ⟨list, hlist, -, hf⟩ := Site.exists_list_of_mem_callArguments hf
  have hargument := (hin.child hlist).child (Site.mem_children_of_mem_members hf)
  exact (hargument.unwrap.child (Site.mem_children_of_child? hbody)).child
    (Site.mem_children_of_mem_members hmem)

theorem nodup_offencesIn (c : Context) (call : Site) : (c.offencesIn call).Nodup := by
  unfold offencesIn
  split
  case h_2 => exact List.nodup_nil
  case h_1 =>
    split
    case isFalse => exact List.nodup_nil
    case isTrue =>
      split
      · exact ((Site.nodup_children _).filter _).filter _
      · exact List.nodup_nil

/-- No statement is reported twice, however suites are nested. -/
theorem nodup_way_offences (c : Context) : (c.offences.map Site.way).Nodup := by
  have hnodup : c.offences.Nodup := by
    refine List.nodup_flatMap.mpr ⟨fun call _ => c.nodup_offencesIn call, ?_⟩
    refine (c.source.root.nodup_sites.filter _).imp fun {call other} hne s hs hother => ?_
    exact hne (eq_of_mem_offencesIn hs hother)
  refine hnodup.map_on fun s hs t ht h => ?_
  exact (in_of_mem_offences hs).eq_of_way (in_of_mem_offences ht) h

theorem allowedInSuite_eq_false {v : Vocabulary} {name : String} :
    allowedInSuite v name = false ↔ v.isTest name = false ∧ v.isSuite name = false ∧
      v.isHook name = false ∧ v.isScenario name = false := by
  simp [allowedInSuite, Vocabulary.isTestOrSuite, and_assoc]

theorem offends_of_mem {call s : Site} {suite name : String} (hvisited : call ∈ c.source.root.sites)
    (hcalled : c.source.dotted? call.node = .ok (some suite))
    (hsuite : c.vocabulary.isSuite suite = true) (hs : s ∈ c.offencesIn call)
    (hname : c.strayCall? s.node = some name) : c.Offends call suite s name := by
  obtain ⟨title, f, rest, body, hargs, htitle, hf, hbody, hblock, hmem, -⟩ := mem_offencesIn.mp hs
  obtain ⟨hsymbol, he, hother⟩ := strayCall?_eq_some.mp hname
  exact ⟨hvisited, hcalled, hsuite, ⟨title, f, rest, body, hargs, htitle, hf, hbody, hblock, hmem⟩,
    ⟨hsymbol, he⟩, allowedInSuite_eq_false.mp hother⟩

theorem mem_offences_iff {s : Site} :
    s ∈ c.offences ↔ ∃ call suite name, c.Offends call suite s name := by
  simp only [offences, List.mem_flatMap, List.mem_filter]
  constructor
  · intro ⟨call, ⟨hvisited, hcalls⟩, hs⟩
    obtain ⟨suite, hcalled, hsuite⟩ := Source.goesBy_iff.mp hcalls
    obtain ⟨_, _, _, _, -, -, -, -, -, -, hstray⟩ := mem_offencesIn.mp hs
    obtain ⟨name, hname⟩ := Option.isSome_iff_exists.mp hstray
    exact ⟨call, suite, name, offends_of_mem hvisited hcalled hsuite hs hname⟩
  · intro ⟨call, suite, name, h⟩
    obtain ⟨title, f, rest, body, hargs, htitle, hf, hbody, hblock, hmem⟩ := h.body
    have hname : c.strayCall? s.node = some name :=
      strayCall?_eq_some.mpr ⟨h.calls.1, h.calls.2, allowedInSuite_eq_false.mpr h.outside⟩
    exact ⟨call, ⟨h.visited, Source.goesBy_iff.mpr ⟨suite, h.called, h.isSuite⟩⟩,
      mem_offencesIn.mpr ⟨title, f, rest, body, hargs, htitle, hf, hbody, hblock, hmem,
        by simp [hname]⟩⟩

/-! What suites are told. -/

/-- The statement is an offence, and this is its report. -/
def Reported (c : Context) (s : Site) (d : Diagnostic) : Prop :=
  ∃ call suite name, c.Offends call suite s name ∧ c.Reports suite s.node name d

/-- All that some suites are told: a report for each offence, a remark on each suite that is not
named by a literal, and errors that are no reports. -/
structure Told (c : Context) (calls : List Site) (reports remarks others : List Diagnostic) :
    Prop where
  reports : List.Forall₂ c.Reported (calls.flatMap c.offencesIn) reports
  remarks : List.Forall₂ c.Remarks ((calls.map Site.visit).filter fun v => isUnnamed v.node) remarks
  others : ∀ d ∈ others, d.severity = .error ∧ d.isPurity = false

theorem Told.append {calls calls' : List Site} {reports reports' remarks remarks' others others' :
    List Diagnostic} (h : c.Told calls reports remarks others)
    (h' : c.Told calls' reports' remarks' others') :
    c.Told (calls ++ calls') (reports ++ reports') (remarks ++ remarks') (others ++ others') := by
  refine ⟨?_, ?_, ?_⟩
  · rw [List.flatMap_append]
    exact List.rel_append h.reports h'.reports
  · rw [List.map_append, List.filter_append]
    exact List.rel_append h.remarks h'.remarks
  · exact List.forall_mem_append.mpr ⟨h.others, h'.others⟩

/-- A suite that is neither told of statements nor unnamed is told other things, if any. -/
theorem told_others {call : Site} {others : List Diagnostic} (hnone : c.offencesIn call = [])
    (hnamed : isUnnamed call.node = false)
    (hothers : ∀ d ∈ others, d.severity = .error ∧ d.isPurity = false) :
    c.Told [call] [] [] others := by
  refine ⟨?_, ?_, hothers⟩
  · rw [List.flatMap_singleton, hnone]
    exact .nil
  · rw [List.map_singleton, List.filter_singleton]
    simp [Site.visit, hnamed]

/-- A message that begins unlike a report is something else. -/
theorem told_other {call : Site} {message : Text} (head : Text) {n : Node} {d : Diagnostic}
    (hnone : c.offencesIn call = []) (hnamed : isUnnamed call.node = false)
    (hd : c.problemAt message n = .ok d) (hhead : head <+: message)
    (hlength : head.length ≤ (Text.ofString purityTag).length)
    (hother : head.isPrefixOf (Text.ofString purityTag) = false) : c.Told [call] [] [] [d] := by
  obtain ⟨rfl, -, hseverity⟩ := problemAt_eq_ok hd
  refine told_others hnone hnamed fun d' hd' => ?_
  obtain rfl := List.mem_singleton.mp hd'
  exact ⟨hseverity, Diagnostic.isPurity_eq_false hhead hlength hother⟩

theorem told_remark {call title f : Site} {rest : List Site} {message : Text} {d : Diagnostic}
    (hargs : call.callArguments = title :: f :: rest) (hkind : title.node.kind ≠ .literal)
    (hd : c.problemAt message call.node = .ok d)
    (hhead : Text.ofString "[M" <+: message) :
    c.Told [call] [] [{ d with severity := .info }] [] := by
  obtain ⟨rfl, hlocation, -⟩ := problemAt_eq_ok hd
  refine ⟨?_, ?_, by simp⟩
  · simp [offencesIn, hargs, hkind]
  · have hremark : c.Remarks call.visit { d with severity := .info } :=
      ⟨hlocation, rfl, Diagnostic.isPurity_eq_false hhead (by decide) (by decide)⟩
    simpa [Site.visit, isUnnamed_of_args hargs, hkind] using hremark

/-- The statements of a block are reported one by one. -/
theorem told_of_impurities {call title f body : Site} {rest : List Site} {suite : String}
    {ds : List Diagnostic} (hvisited : call ∈ c.source.root.sites)
    (hcalled : c.source.dotted? call.node = .ok (some suite))
    (hsuite : c.vocabulary.isSuite suite = true) (hargs : call.callArguments = title :: f :: rest)
    (htitle : title.node.kind = .literal) (hf : f.node.isFunction = true)
    (hbody : f.unwrap.child? .body = some body) (hblock : body.node.symbol = .statementBlock)
    (h : c.impurities suite body.node.members = .ok ds) : c.Told [call] ds [] [] := by
  have hoffences : c.offencesIn call =
      body.members.filter fun s => (c.strayCall? s.node).isSome := by
    simp [offencesIn, hargs, htitle, hf, hbody, hblock, Option.filter]
  have hreports := forall₂_of_impurities h
  rw [← body.map_node_members, List.filter_map, List.forall₂_map_left_iff] at hreports
  refine ⟨?_, ?_, by simp⟩
  · rw [List.flatMap_singleton, hoffences]
    refine ((List.forall₂_and_left _ _).mpr ⟨fun s hs => hs, hreports⟩).imp fun s d hs => ?_
    obtain ⟨hmem, name, hname, hreport⟩ := hs
    exact ⟨call, suite, name,
      offends_of_mem hvisited hcalled hsuite (hoffences ▸ hmem) hname, hreport⟩
  · simp [Site.visit, isUnnamed_of_args hargs, htitle]

/-- A suite with fewer than two arguments is told so. -/
theorem told_of_few {call : Site} {suite : String} {d : Diagnostic}
    (hfew : ∀ title f rest, call.node.callArguments ≠ title :: f :: rest)
    (hd : c.problemAt (Text.ofString s!"'{suite}' has insufficient number of arguments")
      call.node = .ok d) : c.Told [call] [] [] [d] := by
  have hnone : c.offencesIn call = [] := by
    unfold offencesIn
    split
    case h_1 title f rest hargs =>
      have hnodes := call.map_node_callArguments
      rw [hargs] at hnodes
      exact absurd hnodes.symm (hfew _ _ _)
    case h_2 => rfl
  have hnamed : isUnnamed call.node = false := by
    unfold isUnnamed
    split
    case h_1 title f rest hargs => exact absurd hargs (hfew _ _ _)
    case h_2 => rfl
  refine told_other (Text.ofString "'") hnone hnamed hd ?_ (by decide) (by decide)
  simp only [toString, Text.ofString_append, List.append_assoc]
  exact List.prefix_append _ _

/-- A suite whose second argument is no function is told so. -/
theorem told_of_not_isFunction {call title f : Site} {rest : List Site} {d : Diagnostic}
    (hargs : call.callArguments = title :: f :: rest) (htitle : title.node.kind = .literal)
    (hf : f.node.isFunction = false)
    (hd : c.problemAt (Text.ofString s!"function expected, but found {f.node.kindName}")
      f.node = .ok d) : c.Told [call] [] [] [d] := by
  have hnone : c.offencesIn call = [] := by simp [offencesIn, hargs, hf]
  have hnamed : isUnnamed call.node = false := by simp [isUnnamed_of_args hargs, htitle]
  have hhead : Text.ofString "f" <+: Text.ofString "function expected, but found " :=
    List.isPrefixOf_iff_prefix.mp (by decide)
  refine told_other (Text.ofString "f") hnone hnamed hd ?_ (by decide) (by decide)
  simp only [toString, Text.ofString_append]
  exact hhead.trans (List.prefix_append _ _)

/-- A suite is told one kind of thing only. -/
theorem exists_told_of_checksSuite {call : Site} {ds : List Diagnostic}
    (hvisited : call ∈ c.source.root.sites) (hsuite : c.callsSuite call.visit = true)
    (h : c.ChecksSuite call.visit ds) :
    ∃ reports remarks others, ds = reports ++ remarks ++ others ∧
      c.Told [call] reports remarks others := by
  obtain ⟨suite, hcalled, h⟩ := h
  have hfamily : c.vocabulary.isSuite suite = true := by
    simpa [callsSuite, Source.goesBy, hcalled] using hsuite
  have hnodes := call.map_node_callArguments
  change c.suiteProblems call.node suite = .ok ds at h
  unfold suiteProblems at h
  split at h
  case h_2 hfew =>
    simp only [bind_eq_ok, pure_eq_ok] at h
    obtain ⟨d, hd, rfl⟩ := h
    exact ⟨[], [], [d], rfl, told_of_few hfew hd⟩
  case h_1 title f rest hargs =>
    rw [hargs] at hnodes
    obtain ⟨t, others, hsites, rfl, hrest⟩ := List.map_eq_cons_iff.mp hnodes
    obtain ⟨g, more, rfl, rfl, -⟩ := List.map_eq_cons_iff.mp hrest
    split at h
    case isTrue hkind =>
      simp only [bind_eq_ok, pure_eq_ok] at h
      obtain ⟨d, hd, rfl⟩ := h
      refine ⟨[], [_], [], rfl, told_remark hsites hkind hd ?_⟩
      have hhead : Text.ofString "[M" <+: Text.ofString "[MAYBE FACTORY] '" :=
        List.isPrefixOf_iff_prefix.mp (by decide)
      simp only [toString, Text.ofString_append, List.append_assoc]
      exact hhead.trans (List.prefix_append _ _)
    case isFalse hkind =>
      have hkind : t.node.kind = .literal := not_not.mp hkind
      split at h
      case isTrue hfunction =>
        simp only [bind_eq_ok, pure_eq_ok] at h
        obtain ⟨d, hd, rfl⟩ := h
        rw [Bool.not_eq_true'] at hfunction
        exact ⟨[], [], [d], rfl, told_of_not_isFunction hsites hkind hfunction hd⟩
      case isFalse hfunction =>
        have hfunction : g.node.isFunction = true := by simpa using hfunction
        rw [← g.node_unwrap, ← Site.map_node_child?, Option.filter_map] at h
        cases hbody : (g.unwrap.child? .body).filter (·.node.symbol = .statementBlock) with
        | none =>
          have hnone : c.offencesIn call = [] := by simp [offencesIn, hsites, hbody]
          have hnamed : isUnnamed call.node = false := by simp [isUnnamed_of_args hsites, hkind]
          simp only [Function.comp_def, hbody, Option.map_none, pure_eq_ok] at h
          exact ⟨[], [], [], h.symm, told_others hnone hnamed (by simp)⟩
        | some body =>
          simp only [Function.comp_def, hbody, Option.map_some] at h
          obtain ⟨hbody, hblock⟩ := Option.filter_eq_some_iff.mp hbody
          exact ⟨ds, [], [], by simp, told_of_impurities hvisited hcalled hfamily hsites hkind
            hfunction hbody (of_decide_eq_true hblock) h⟩

theorem exists_told {calls : List Site} {told : List (List Diagnostic)}
    (hcalls : ∀ call ∈ calls, call ∈ c.source.root.sites ∧ c.callsSuite call.visit = true)
    (h : List.Forall₂ (fun call ds => c.ChecksSuite call.visit ds) calls told) :
    ∃ reports remarks others, told.flatten.Perm (reports ++ remarks ++ others) ∧
      c.Told calls reports remarks others := by
  induction h with
  | nil => exact ⟨[], [], [], .refl _, .nil, .nil, by simp⟩
  | @cons call ds calls told hcall _ ih =>
    obtain ⟨⟨hvisited, hsuite⟩, hrest⟩ := List.forall_mem_cons.mp hcalls
    obtain ⟨reports, remarks, others, hds, hone⟩ := exists_told_of_checksSuite hvisited hsuite hcall
    obtain ⟨reports', remarks', others', hperm, hall⟩ := ih hrest
    refine ⟨_, _, _, ?_, hone.append hall⟩
    rw [List.flatten_cons, hds]
    refine (hperm.append_left _).trans ?_
    classical
    rw [List.perm_iff_count]
    intro d
    simp only [List.count_append]
    omega

/-- What a call of a factory is told is told of it by name. -/
theorem MakesOfFactory.tellsOf {visit : Visit} {made : Option Scenario × List Diagnostic}
    (h : c.MakesOfFactory visit made) {d : Diagnostic} (hd : d ∈ made.2) :
    d.severity = .error ∧ ∃ name, c.source.dotted? visit.node = .ok (some name) ∧
      d.message.TellsOf name := by
  cases h with
  | rejected _ hname htold _ hseverity =>
    obtain rfl := List.mem_singleton.mp hd
    exact ⟨hseverity, _, hname, htold⟩
  | scenario _ _ hname _ _ hmembers _ =>
    obtain ⟨part, hpart, hproblem⟩ := List.mem_filterMap.mp hd
    obtain ⟨m, rfl, hm⟩ := Option.bind_eq_some_iff.mp hproblem
    obtain rfl := FactoryMember.problem?_eq_some.mp hm
    obtain ⟨member, -, cls, -, -, hmakes⟩ := exists_of_forall₂ hmembers hpart
    cases hmakes with
    | problem _ _ _ hseverity htold => exact ⟨hseverity, _, hname, htold⟩

/-- Where the scenarios are found, the problems are a report for each offence, a remark for each
visited suite that is not named by a literal, and other errors; these look like reports only if a
factory goes by such a name. Every offence is a statement of its own, and the scenarios are found
wherever pairs have values and numbers that are names or keys can be written. -/
theorem purity_reported_once (c : Context) :
    (∀ scenarios problems, c.scenarios.outcome = .ok (scenarios, problems) →
      ∃ offences reports remarks others,
        (offences.map Site.way).Nodup ∧
        (∀ s ∈ offences, c.source.root.at? s.way = some s.node) ∧
        (∀ s, s ∈ offences ↔ ∃ call suite name, c.Offends call suite s name) ∧
        problems.Perm (reports ++ remarks ++ others) ∧
        List.Forall₂ c.Reported offences reports ∧
        List.Forall₂ c.Remarks
          ((c.source.root.visits.filter c.callsSuite).filter fun v => isUnnamed v.node) remarks ∧
        ∀ d ∈ others, d.severity = .error ∧ (d.isPurity = true →
          ∃ visit ∈ c.source.root.visits, ∃ name, c.callsFactory visit = true ∧
            c.source.dotted? visit.node = .ok (some name) ∧
            Text.ofString purityTag <+: Text.ofString name)) ∧
    (c.source.Readable c.vocabulary →
      ∃ scenarios problems, c.scenarios.outcome = .ok (scenarios, problems)) := by
  refine ⟨fun scenarios problems h => ?_, scenarios_succeed⟩
  obtain ⟨more, hmore, -, rfl⟩ := scenarios_eq_ok.mp h
  obtain ⟨made, told, hmade, htold, -, hproblems⟩ := exists_made_of_gather hmore
  rw [← Node.map_visit_sites, List.filter_map, List.forall₂_map_left_iff] at htold
  obtain ⟨reports, remarks, others, hperm, hall⟩ := exists_told
    (fun call hcall => List.mem_filter.mp hcall) htold
  refine ⟨c.offences, reports, remarks, others ++ made.flatMap (·.2), c.nodup_way_offences,
    fun s hs => Node.at?_way (in_of_mem_offences hs), fun s => mem_offences_iff, ?_, hall.reports,
    ?_, ?_⟩
  · have hlast := hproblems.trans (List.perm_append_comm.trans (hperm.append_right _))
    rwa [List.append_assoc] at hlast
  · rw [← Node.map_visit_sites, List.filter_map]
    exact hall.remarks
  · intro d hd
    rcases List.mem_append.mp hd with hd | hd
    · obtain ⟨hseverity, hother⟩ := hall.others d hd
      exact ⟨hseverity, fun htag => by simp [hother] at htag⟩
    · obtain ⟨one, hone, hd⟩ := List.mem_flatMap.mp hd
      obtain ⟨visit, hvisit, hmakes⟩ := exists_of_forall₂ hmade hone
      obtain ⟨hvisit, hfactory⟩ := List.mem_filter.mp hvisit
      obtain ⟨hseverity, name, hname, htells⟩ := hmakes.tellsOf hd
      exact ⟨hseverity, fun htag => ⟨visit, hvisit, name, hfactory, hname,
        Diagnostic.prefix_of_isPurity htells htag⟩⟩

end Context

/-! A suite with a stray call in it, a suite with one in it in parentheses, and a suite that is not
named by a literal. -/
namespace Sample

def impureText : List Char :=
  ("d(\"a\",()=>\x7bx();d(\"b\",(()=>\x7by();\x7d));" ++
    "d(n,()=>\x7bz();\x7d);\x7d)").toList

def plainStatement (place : Nat) : Node :=
  node none .expressionStatement place (place + 4)
    [node none .callExpression place (place + 3)
      [node (some .function) .identifier place (place + 1) [],
       node (some .arguments) .arguments (place + 1) (place + 3) []]]

def innerSuite : Node :=
  node none .callExpression 15 34
    [node (some .function) .identifier 15 16 [],
     node (some .arguments) .arguments 16 34
      [node none .string 17 20 [node none (.other "string_fragment") 18 19 []],
       node none .parenthesizedExpression 21 33
        [node none .arrowFunction 22 32
          [node none (.other "formal_parameters") 22 24 [],
           node (some .body) .statementBlock 26 32 [plainStatement 27]]]]]

def unnamedSuite : Node :=
  node none .callExpression 35 50
    [node (some .function) .identifier 35 36 [],
     node (some .arguments) .arguments 36 50
      [node none .identifier 37 38 [],
       node none .arrowFunction 39 49
        [node none (.other "formal_parameters") 39 41 [],
         node (some .body) .statementBlock 43 49 [plainStatement 44]]]]

def impureTree : Node :=
  node none .callExpression 0 53
    [node (some .function) .identifier 0 1 [],
     node (some .arguments) .arguments 1 53
      [node none .string 2 5 [node none (.other "string_fragment") 3 4 []],
       node none .arrowFunction 6 52
        [node none (.other "formal_parameters") 6 8 [],
         node (some .body) .statementBlock 10 52
          [plainStatement 11, node none .expressionStatement 15 35 [innerSuite],
           node none .expressionStatement 35 51 [unnamedSuite]]]]]

def impureContext : Context :=
  ⟨⟨none, impureText.toArray, .ofText impureText, impureTree⟩, {}, { suites := ["d"] }, .worker⟩

theorem ofTree_impureTree :
    Source.ofTree none impureText impureTree = .ok impureContext.source := rfl

end Sample

namespace Context

/-- The outer suite and the one in parentheses are told of one statement each, and the last suite is
remarked on. -/
theorem purity_reported_once_sample :
    ∃ scenarios problems offences reports remarks others,
      Sample.impureContext.scenarios.outcome = .ok (scenarios, problems) ∧
      (offences.map Site.way).Nodup ∧ List.Forall₂ Sample.impureContext.Reported offences reports ∧
      List.Forall₂ Sample.impureContext.Remarks
        ((Sample.impureContext.source.root.visits.filter
          Sample.impureContext.callsSuite).filter fun v => isUnnamed v.node) remarks ∧
      problems.Perm (reports ++ remarks ++ others) ∧
      Sample.impureContext.offences.map Site.way = [[1, 1, 1, 0], [1, 1, 1, 1, 0, 1, 1, 0, 1, 0]] ∧
      problems.map (fun d => (d.location, d.severity, d.isPurity)) =
        [(11, .error, true), (27, .error, true), (35, .info, false)] := by
  have hreadable : Sample.impureContext.source.Readable Sample.impureContext.vocabulary :=
    Source.readable_of_plain Sample.ofTree_impureTree (fun n _ => ⟨n.span, rfl⟩) (by decide)
  have hcheck : Sample.impureContext.scenarios.outcome.toOption.any (fun found =>
      decide (found.2.map (fun d => (d.location, d.severity, d.isPurity)) =
        [(11, .error, true), (27, .error, true), (35, .info, false)])) = true := by
    decide
  obtain ⟨hpure, hsucceeds⟩ := purity_reported_once Sample.impureContext
  obtain ⟨scenarios, problems, h⟩ := hsucceeds hreadable
  obtain ⟨offences, reports, remarks, others, hnodup, -, -, hperm, hreports, hremarks, -⟩ :=
    hpure scenarios problems h
  rw [h] at hcheck
  exact ⟨scenarios, problems, offences, reports, remarks, others, h, hnodup, hreports, hremarks,
    hperm, by decide, of_decide_eq_true hcheck⟩

/-- Not every offence is reported: where a key cannot be written, nothing is. -/
theorem not_forall_offences_reported :
    ¬∀ (text : List Char) (tree : Node) (src : Source) (v : Vocabulary) (call statement : Site)
      (suite name : String), Source.ofTree none text tree = .ok src → src.Measured →
        src.EscapesFormed → src.root.PairsValued →
        Offends ⟨src, {}, v, .worker⟩ call suite statement name →
        ∃ found problems, (scenarios ⟨src, {}, v, .worker⟩).outcome = .ok (found, problems) ∧
          ∃ d ∈ problems, Reported ⟨src, {}, v, .worker⟩ statement d := by
  intro h
  have hvisited : ∃ above, ⟨Sample.straySuite, above⟩ ∈
      (Sample.hugeKeySource digitLimit).root.sites := ⟨_, List.mem_of_getElem? (i := 2) rfl⟩
  obtain ⟨above, hvisited⟩ := hvisited
  have hsuite : (Sample.hugeKeySource digitLimit).dotted? Sample.straySuite = .ok (some "d") :=
    Sample.dotted?_hugeKeySource digitLimit rfl (by decide) (by decide) rfl
  have hname : ∃ e, Sample.strayStatement.members.head? = some e ∧
      (Sample.hugeKeySource digitLimit).dotted? e.unwrap = .ok (some "x") :=
    ⟨_, rfl, Sample.dotted?_hugeKeySource digitLimit rfl (by decide) (by decide) rfl⟩
  have hoffends : ∃ statement,
      (Sample.hugeKeyContext digitLimit).Offends ⟨Sample.straySuite, above⟩ "d" statement "x" :=
    ⟨_, hvisited, hsuite, by decide, ⟨_, _, _, _, rfl, rfl, rfl, rfl, rfl, List.mem_cons_self⟩,
      ⟨rfl, hname⟩, by decide⟩
  obtain ⟨statement, hoffends⟩ := hoffends
  obtain ⟨found, problems, hfound, -⟩ := h _ _ _ _ _ statement _ _
    (Sample.ofTree_hugeKeyTree digitLimit) (Sample.measured_hugeKeySource digitLimit)
    (Sample.escapesFormed_hugeKeySource digitLimit) (Sample.pairsValued_hugeKeyTree digitLimit)
    hoffends
  exact scenarios_hugeKeyContext (found, problems) hfound

end Context
end SuiteOutline
