import SuiteOutline.Proofs.Scenario

/-! Records moved along the text: every offset in them grows by the same number, and all else stays.
An outcome is carried along if its result is, and a failure that has a place moves with it. -/
namespace SuiteOutline

def Span.shift (d : Nat) (s : Span) : Span := ⟨s.start + d, s.stop + d⟩

def Argument.shift (d : Nat) (a : Argument) : Argument := { a with span := a.span.shift d }

def CommandUsage.shift (d : Nat) (u : CommandUsage) : CommandUsage :=
  { u with span := u.span.shift d, arguments := u.arguments.map (·.shift d) }

def OtherCall.shift (d : Nat) (o : OtherCall) : OtherCall :=
  { o with
    span := o.span.shift d
    rootStart := o.rootStart + d
    arguments := o.arguments.map (·.shift d) }

def InnerCall.shift (d : Nat) : InnerCall → InnerCall
  | command u => command (u.shift d)
  | other o => other (o.shift d)

def InnerCalls.shift (d : Nat) (calls : InnerCalls) : InnerCalls where
  commands := calls.commands.map (·.shift d)
  others := calls.others.map (·.shift d)

def CommandDefinition.shift (d : Nat) (c : CommandDefinition) : CommandDefinition :=
  { c with span := c.span.shift d, inner := c.inner.map (·.shift d) }

def Frame.shift (d : Nat) (f : Frame) : Frame := { f with span := f.span.shift d }

def TestCase.shift (d : Nat) (t : TestCase) : TestCase :=
  { t with
    scope := t.scope.map (·.shift d)
    span := t.span.shift d
    body := t.body.shift d
    inner := t.inner.map (·.shift d) }

def Hook.shift (d : Nat) (h : Hook) : Hook where
  scope := h.scope.map (·.shift d)
  span := h.span.shift d
  body := h.body.shift d
  inner := h.inner.map (·.shift d)

def ScenarioFunction.shift (d : Nat) (f : ScenarioFunction) : ScenarioFunction :=
  { f with span := f.span.shift d, body := f.body.shift d, inner := f.inner.map (·.shift d) }

def Scenario.shift (d : Nat) (s : Scenario) : Scenario :=
  { s with
    scope := s.scope.map (·.shift d)
    span := s.span.shift d
    functions := s.functions.map (·.shift d) }

def Diagnostic.shift (d : Nat) (e : Diagnostic) : Diagnostic := { e with location := e.location + d }

def Finding.shift (d : Nat) : Finding → Finding
  | definition c => definition (c.shift d)
  | usage u => usage (u.shift d)
  | test t => test (t.shift d)
  | hook kind h => hook kind (h.shift d)
  | problem e => problem (e.shift d)

def FactoryMember.shift (d : Nat) : FactoryMember → FactoryMember
  | function f => function (f.shift d)
  | problem e => problem (e.shift d)

def ScenarioFinding.shift (d : Nat) : ScenarioFinding → ScenarioFinding
  | scenario s => scenario (s.shift d)
  | problem e => problem (e.shift d)

def Outline.shift (d : Nat) (o : Outline) : Outline where
  added := o.added.map (·.map (·.shift d))
  used := o.used.map (·.map (·.shift d))
  tests := o.tests.map (·.map (·.shift d))
  hooks := o.hooks.map (·.map fun kind => (kind.1, kind.2.map (·.shift d)))
  scenarios := o.scenarios.map (·.map (·.shift d))
  errors := o.errors.map (·.shift d)

/-- Of the failures of an outline only a bad command name has an offset. -/
def Failure.shift (d : Nat) : Failure → Failure
  | commandName fault => commandName { fault with location := fault.location + d }
  | e => e

/-! Nothing moves by zero. -/

@[simp] theorem Span.shift_zero : Span.shift 0 = id := rfl

@[simp] theorem Argument.shift_zero : Argument.shift 0 = id := rfl

@[simp] theorem CommandUsage.shift_zero : CommandUsage.shift 0 = id := by
  funext u
  simp [shift]

@[simp] theorem OtherCall.shift_zero : OtherCall.shift 0 = id := by
  funext o
  simp [shift]

@[simp] theorem InnerCalls.shift_zero : InnerCalls.shift 0 = id := by
  funext calls
  simp [shift]

@[simp] theorem CommandDefinition.shift_zero : CommandDefinition.shift 0 = id := by
  funext c
  simp [shift]

@[simp] theorem Frame.shift_zero : Frame.shift 0 = id := rfl

@[simp] theorem TestCase.shift_zero : TestCase.shift 0 = id := by
  funext t
  simp [shift]

@[simp] theorem Hook.shift_zero : Hook.shift 0 = id := by
  funext h
  simp [shift]

@[simp] theorem ScenarioFunction.shift_zero : ScenarioFunction.shift 0 = id := by
  funext f
  simp [shift]

@[simp] theorem Scenario.shift_zero : Scenario.shift 0 = id := by
  funext s
  simp [shift]

@[simp] theorem Diagnostic.shift_zero : Diagnostic.shift 0 = id := rfl

@[simp] theorem Finding.shift_zero : Finding.shift 0 = id := by
  funext f
  cases f <;> simp [shift]

@[simp] theorem ScenarioFinding.shift_zero : ScenarioFinding.shift 0 = id := by
  funext f
  cases f <;> simp [shift]

@[simp] theorem Outline.shift_zero : Outline.shift 0 = id := by
  funext o
  simp [shift]

@[simp] theorem Failure.shift_zero : Failure.shift 0 = id := by
  funext e
  cases e <;> rfl

/-! The order of records is the same wherever they stand. -/

@[simp] theorem Span.precedes_shift (d : Nat) (a b : Span) :
    (a.shift d).precedes (b.shift d) = a.precedes b := by
  rw [Bool.eq_iff_iff, Span.precedes_iff, Span.precedes_iff]
  simp only [shift]
  omega

/-- What is selected from moved elements is what was selected, moved. -/
theorem filterMap_shift {α β : Type} {select : α → Option β} {f : α → α} {g : β → β}
    (h : ∀ a, select (f a) = (select a).map g) (l : List α) :
    (l.map f).filterMap select = (l.filterMap select).map g := by
  rw [List.filterMap_map, List.map_filterMap]
  exact List.filterMap_congr fun a _ => h a

theorem byPosition_shift {α β : Type} {select : α → Option β} {f : α → α} {g : β → β}
    {span : β → Span} {d : Nat} (h : ∀ a, select (f a) = (select a).map g)
    (hspan : ∀ b, span (g b) = (span b).shift d) (l : List α) :
    byPosition span ((l.map f).filterMap select) = (byPosition span (l.filterMap select)).map g := by
  have hle : ∀ a b, (span a).precedes (span b) = (span (g a)).precedes (span (g b)) := by
    intro a b
    rw [hspan, hspan, Span.precedes_shift]
  rw [filterMap_shift h]
  exact (map_sortBy g hle _).symm

theorem byLocation_shift (d : Nat) (l : List Diagnostic) :
    byLocation (l.map (·.shift d)) = (byLocation l).map (·.shift d) :=
  (map_sortBy _ (fun a b => by simp [Diagnostic.shift]) l).symm

theorem CommandUsage.span_shift (d : Nat) (u : CommandUsage) :
    (u.shift d).span = u.span.shift d := rfl

theorem OtherCall.span_shift (d : Nat) (o : OtherCall) : (o.shift d).span = o.span.shift d := rfl

theorem CommandDefinition.span_shift (d : Nat) (c : CommandDefinition) :
    (c.shift d).span = c.span.shift d := rfl

theorem TestCase.span_shift (d : Nat) (t : TestCase) : (t.shift d).span = t.span.shift d := rfl

theorem Hook.span_shift (d : Nat) (h : Hook) : (h.shift d).span = h.span.shift d := rfl

theorem Finding.definition?_shift (d : Nat) (f : Finding) :
    (f.shift d).definition? = f.definition?.map (·.shift d) := by
  cases f <;> rfl

theorem Finding.usage?_shift (d : Nat) (f : Finding) :
    (f.shift d).usage? = f.usage?.map (·.shift d) := by
  cases f <;> rfl

theorem Finding.test?_shift (d : Nat) (f : Finding) :
    (f.shift d).test? = f.test?.map (·.shift d) := by
  cases f <;> rfl

theorem Finding.hookOf?_shift (d : Nat) (kind : String) (f : Finding) :
    (f.shift d).hookOf? kind = (f.hookOf? kind).map (·.shift d) := by
  cases f with
  | hook k h => by_cases hk : k = kind <;> simp [shift, hookOf?, hk]
  | _ => rfl

theorem Finding.problem?_shift (d : Nat) (f : Finding) :
    (f.shift d).problem? = f.problem?.map (·.shift d) := by
  cases f <;> rfl

theorem Outline.ofFindings_shift (d : Nat) (options : Options) (v : Vocabulary)
    (findings : List Finding) :
    Outline.ofFindings options v (findings.map (·.shift d)) =
      (Outline.ofFindings options v findings).shift d := by
  simp only [ofFindings, shift, map_given, List.map_map, Outline.mk.injEq]
  refine ⟨given_congr fun _ => ?_, given_congr fun _ => ?_, given_congr fun _ => ?_,
    given_congr fun _ => List.map_congr_left fun kind _ => Prod.ext rfl ?_, rfl, ?_⟩
  · exact byPosition_shift (Finding.definition?_shift d) (CommandDefinition.span_shift d) findings
  · exact byPosition_shift (Finding.usage?_shift d) (CommandUsage.span_shift d) findings
  · exact byPosition_shift (Finding.test?_shift d) (TestCase.span_shift d) findings
  · exact byPosition_shift (Finding.hookOf?_shift d kind) (Hook.span_shift d) findings
  · rw [filterMap_shift (Finding.problem?_shift d), byLocation_shift]

variable {α β γ δ : Type} {d : Nat}

/-- An outcome with its result changed and its failure moved. -/
def carry (d : Nat) (f : α → β) : Except Failure α → Except Failure β
  | .ok a => .ok (f a)
  | .error e => .error (e.shift d)

@[simp] theorem carry_ok (f : α → β) (a : α) : carry d f (.ok a) = .ok (f a) := rfl

@[simp] theorem carry_error (f : α → β) (e : Failure) :
    carry d f (.error e) = .error (e.shift d) := rfl

theorem carry_zero_id (x : Except Failure α) : carry 0 id x = x := by
  cases x <;> simp

/-- Computations that are carried along step by step are carried along together. -/
theorem bind_carry {x : Except Failure α} {x' : Except Failure γ} {f : α → γ} {g : β → δ}
    {k : α → Except Failure β} {k' : γ → Except Failure δ} (hx : x' = carry d f x)
    (hk : ∀ a, k' (f a) = carry d g (k a)) : (x' >>= k') = carry d g (x >>= k) := by
  subst hx
  cases x with
  | error e => rfl
  | ok a => exact hk a

theorem map_carry {x : Except Failure α} {x' : Except Failure γ} {f : α → γ} {g : β → δ}
    {k : α → β} {k' : γ → δ} (hx : x' = carry d f x) (hk : ∀ a, k' (f a) = g (k a)) :
    x'.map k' = carry d g (x.map k) := by
  subst hx
  cases x with
  | error e => rfl
  | ok a => exact congrArg Except.ok (hk a)

theorem mapM_carry {f : α → γ} {g : β → δ} {k : α → Except Failure β} {k' : γ → Except Failure δ}
    {l : List α} (hk : ∀ a ∈ l, k' (f a) = carry d g (k a)) :
    (l.map f).mapM k' = carry d (List.map g) (l.mapM k) := by
  induction l with
  | nil => rfl
  | cons a l ih =>
    rw [List.map_cons, List.mapM_cons, List.mapM_cons]
    refine bind_carry (hk a List.mem_cons_self) fun b => ?_
    exact bind_carry (ih fun a' ha' => hk a' (List.mem_cons_of_mem a ha')) fun bs => rfl

theorem Traced.outcome_bind_carry {x : Traced α} {x' : Traced γ} {f : α → γ} {g : β → δ}
    {k : α → Traced β} {k' : γ → Traced δ} (hx : x'.outcome = carry d f x.outcome)
    (hk : ∀ a, (k' (f a)).outcome = carry d g (k a).outcome) :
    (x' >>= k').outcome = carry d g (x >>= k).outcome := by
  rw [outcome_bind, outcome_bind]
  exact bind_carry hx hk

end SuiteOutline
