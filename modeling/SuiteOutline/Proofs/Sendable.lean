import Mathlib.Data.List.Basic
import SuiteOutline.Document.Renderable
import SuiteOutline.Document.Reserved

/-! Which outlines can be sent, and which are sent in full: what decides are the texts and the literal
values that their records hold. -/
namespace SuiteOutline

/-! Names. -/

theorem CodePoint.isSurrogate_ofChar (c : Char) : (CodePoint.ofChar c).isSurrogate = false := by
  have hvalid := c.valid
  simp only [UInt32.isValidChar, Nat.isValidChar] at hvalid
  have hval : (CodePoint.ofChar c).val = c.val.toNat := rfl
  simp only [isSurrogate, hval, Bool.and_eq_false_imp, decide_eq_true_eq, decide_eq_false_iff_not]
  omega

/-- Characters are no surrogates. -/
@[simp] theorem Text.hasSurrogate_ofString (s : String) :
    (Text.ofString s).hasSurrogate = false := by
  simp [hasSurrogate, ofString, ofChars, CodePoint.isSurrogate_ofChar]

/-- The index of an argument is no reserved name. -/
theorem isReserved_toString (i : Nat) : isReserved (Text.ofString (toString i)) = false := by
  rw [Nat.toString_eq_ofList_toDigits, Text.ofString, String.toList_ofList]
  cases hdigits : Nat.toDigits 10 i with
  | nil => rfl
  | cons c cs =>
    have hc : c ≠ '_' := by
      rintro rfl
      exact Nat.underscore_not_in_toDigits (hdigits ▸ List.mem_cons_self)
    have hpoint : CodePoint.ofChar '_' ≠ CodePoint.ofChar c := by
      intro h
      have hval : '_'.toNat = c.toNat := congrArg (fun p : CodePoint => p.val) h
      exact hc (Char.toNat_inj.mp hval).symm
    rw [isReserved, Bool.eq_false_iff, ne_eq, List.isPrefixOf_iff_prefix]
    rintro ⟨rest, hrest⟩
    exact hpoint (List.cons.inj hrest).1

/-! Values. -/

namespace Value

/-- A value that can be sent: its numbers are finite and not too long, its texts well formed. What
stands under a reserved name does not count. -/
inductive Sendable : Value → Prop
  | null : Sendable null
  | bool (b : Bool) : Sendable (bool b)
  | number {n : Number} (h : n.isRenderable = true) : Sendable (number n)
  | text {t : Text} (h : t.hasSurrogate = false) : Sendable (text t)
  | list {items : List Value} (h : ∀ v ∈ items, Sendable v) : Sendable (list items)
  | object {entries : List (Text × Value)}
      (keys : ∀ e ∈ entries, isReserved e.1 = false → e.1.hasSurrogate = false)
      (values : ∀ e ∈ entries, isReserved e.1 = false → Sendable e.2) : Sendable (object entries)

/-- A value without reserved names. -/
inductive Unreserved : Value → Prop
  | null : Unreserved null
  | bool (b : Bool) : Unreserved (bool b)
  | number (n : Number) : Unreserved (number n)
  | text (t : Text) : Unreserved (text t)
  | list {items : List Value} (h : ∀ v ∈ items, Unreserved v) : Unreserved (list items)
  | object {entries : List (Text × Value)} (keys : ∀ e ∈ entries, isReserved e.1 = false)
      (values : ∀ e ∈ entries, Unreserved e.2) : Unreserved (object entries)

theorem allRenderable_withoutReserved {items : List Value} :
    allRenderable (itemsWithoutReserved items) = true ↔
      ∀ v ∈ items, v.withoutReserved.isRenderable = true := by
  induction items with
  | nil => simp [itemsWithoutReserved, allRenderable]
  | cons v items ih => simp [itemsWithoutReserved, allRenderable, ih]

theorem entriesRenderable_withoutReserved {entries : List (Text × Value)} :
    entriesRenderable (entriesWithoutReserved entries) = true ↔
      ∀ e ∈ entries, isReserved e.1 = false →
        e.1.hasSurrogate = false ∧ e.2.withoutReserved.isRenderable = true := by
  induction entries with
  | nil => simp [entriesWithoutReserved, entriesRenderable]
  | cons e entries ih =>
    rw [entriesWithoutReserved, List.forall_mem_cons]
    by_cases hreserved : isReserved e.1 = true
    · simp [hreserved, ih]
    · simp [hreserved, entriesRenderable, ih]

theorem Sendable.isRenderable {v : Value} (h : v.Sendable) :
    v.withoutReserved.isRenderable = true := by
  induction h with
  | null | bool => rfl
  | number h => exact h
  | text h => simp [withoutReserved, Value.isRenderable, h]
  | list _ ih =>
    rw [withoutReserved, Value.isRenderable]
    exact allRenderable_withoutReserved.mpr ih
  | object hkeys _ ih =>
    rw [withoutReserved, Value.isRenderable]
    exact entriesRenderable_withoutReserved.mpr fun e he hreserved =>
      ⟨hkeys e he hreserved, ih e he hreserved⟩

theorem sendable_of_isRenderable : ∀ v : Value, v.withoutReserved.isRenderable = true → v.Sendable
  | null, _ => .null
  | bool b, _ => .bool b
  | number _, h => .number h
  | text t, h => .text (by simpa [withoutReserved, Value.isRenderable] using h)
  | list items, h => by
    rw [withoutReserved, Value.isRenderable, allRenderable_withoutReserved] at h
    exact .list fun v hv => sendable_of_isRenderable v (h v hv)
  | object entries, h => by
    rw [withoutReserved, Value.isRenderable, entriesRenderable_withoutReserved] at h
    exact .object (fun e he hreserved => (h e he hreserved).1) fun e he hreserved =>
      sendable_of_isRenderable e.2 (h e he hreserved).2
decreasing_by
  · have hsize := List.sizeOf_lt_of_mem hv
    simp only [list.sizeOf_spec]
    omega
  · obtain ⟨key, v⟩ := e
    have hsize := List.sizeOf_lt_of_mem he
    simp only [Prod.mk.sizeOf_spec, object.sizeOf_spec] at hsize ⊢
    omega

theorem isRenderable_withoutReserved_iff {v : Value} :
    v.withoutReserved.isRenderable = true ↔ v.Sendable :=
  ⟨sendable_of_isRenderable v, Sendable.isRenderable⟩

theorem itemsWithoutReserved_eq {items : List Value} (h : ∀ v ∈ items, v.withoutReserved = v) :
    itemsWithoutReserved items = items := by
  induction items with
  | nil => rfl
  | cons v items ih =>
    obtain ⟨hv, hitems⟩ := List.forall_mem_cons.mp h
    rw [itemsWithoutReserved, hv, ih hitems]

theorem entriesWithoutReserved_eq {entries : List (Text × Value)}
    (hkeys : ∀ e ∈ entries, isReserved e.1 = false)
    (hvalues : ∀ e ∈ entries, e.2.withoutReserved = e.2) :
    entriesWithoutReserved entries = entries := by
  induction entries with
  | nil => rfl
  | cons e entries ih =>
    obtain ⟨hkey, hkeys⟩ := List.forall_mem_cons.mp hkeys
    obtain ⟨hvalue, hvalues⟩ := List.forall_mem_cons.mp hvalues
    rw [entriesWithoutReserved, hkey, hvalue, ih hkeys hvalues]
    rfl

theorem Unreserved.withoutReserved_eq {v : Value} (h : v.Unreserved) : v.withoutReserved = v := by
  induction h with
  | null | bool | number | text => rfl
  | list _ ih => rw [withoutReserved, itemsWithoutReserved_eq ih]
  | object hkeys _ ih => rw [withoutReserved, entriesWithoutReserved_eq hkeys ih]

end Value

/-! What records hold. -/

def CommandUsage.values (u : CommandUsage) : List Value := u.literals.map (·.2)

/-- The literal values in the calls inside a function. -/
def innerValues : Option InnerCalls → List Value
  | none => []
  | some inner => inner.commands.flatMap (·.values)

def scopeTexts (scope : List Frame) : List Text := scope.map (·.name)

namespace Outline

/-- The hooks whose kind is no reserved name. -/
def sentHooks (o : Outline) : List Hook :=
  ((o.hooks.getD []).filter fun entry => !isReserved (Text.ofString entry.1)).flatMap (·.2)

theorem mem_sentHooks {o : Outline} {k : Hook} :
    k ∈ o.sentHooks ↔
      ∃ entry ∈ o.hooks.getD [], isReserved (Text.ofString entry.1) = false ∧ k ∈ entry.2 := by
  simp only [sentHooks, List.mem_flatMap, List.mem_filter, Bool.not_eq_true', and_assoc]

/-- The texts that come from literals of the outlined text, or from messages about them. -/
def texts (o : Outline) : List Text :=
  (o.added.getD []).map (·.name) ++
    (o.tests.getD []).flatMap (fun t => t.name :: scopeTexts t.scope) ++
    o.sentHooks.flatMap (scopeTexts ·.scope) ++
    (o.scenarios.getD []).flatMap (fun s => scopeTexts s.scope ++ s.functions.map (·.name)) ++
    o.errors.map (·.message)

/-- The literal values of all calls. -/
def values (o : Outline) : List Value :=
  (o.added.getD []).flatMap (innerValues ·.inner) ++
    (o.used.getD []).flatMap (·.values) ++
    (o.tests.getD []).flatMap (innerValues ·.inner) ++
    o.sentHooks.flatMap (innerValues ·.inner) ++
    (o.scenarios.getD []).flatMap (·.functions.flatMap (innerValues ·.inner))

/-- An outline that can be sent: its texts are well formed, and its values can be sent. -/
structure Sendable (o : Outline) : Prop where
  texts : ∀ t ∈ o.texts, t.hasSurrogate = false
  values : ∀ v ∈ o.values, v.Sendable

/-- An outline without reserved names. -/
structure Unreserved (o : Outline) : Prop where
  kinds : ∀ entry ∈ o.hooks.getD [], isReserved (Text.ofString entry.1) = false
  values : ∀ v ∈ o.values, v.Unreserved

end Outline

/-! Documents. -/

namespace Document

/-- None of the fields has a reserved name. -/
def Named (fields : List (String × Document)) : Prop :=
  ∀ f ∈ fields, isReserved (Text.ofString f.1) = false

/-- All of the fields hold what has the property. -/
def Each (P : Document → Prop) (fields : List (String × Document)) : Prop := ∀ f ∈ fields, P f.2

/-- A property of documents that is decided by the texts and values in them. -/
structure Leafwise (P : Document → Prop) (T : Text → Prop) (V : Value → Prop) : Prop where
  int : ∀ n, P (int n)
  bool : ∀ b, P (bool b)
  text : ∀ t, P (text t) ↔ T t
  string : ∀ s, T (Text.ofString s)
  value : ∀ v, P (value v) ↔ V v
  list : ∀ items, P (list items) ↔ ∀ d ∈ items, P d
  record : ∀ fields, Named fields → (P (record fields) ↔ Each P fields)

section

variable {P : Document → Prop} {T : Text → Prop} {V : Value → Prop}

@[simp] theorem named_nil : Named [] := List.forall_mem_nil _

@[simp] theorem named_cons {f : String × Document} {fields : List (String × Document)} :
    Named (f :: fields) ↔ isReserved (Text.ofString f.1) = false ∧ Named fields :=
  List.forall_mem_cons

@[simp] theorem named_append {front back : List (String × Document)} :
    Named (front ++ back) ↔ Named front ∧ Named back := List.forall_mem_append

@[simp] theorem each_nil : Each P [] := List.forall_mem_nil _

@[simp] theorem each_cons {f : String × Document} {fields : List (String × Document)} :
    Each P (f :: fields) ↔ P f.2 ∧ Each P fields := List.forall_mem_cons

@[simp] theorem each_append {front back : List (String × Document)} :
    Each P (front ++ back) ↔ Each P front ∧ Each P back := List.forall_mem_append

@[simp] theorem named_ofSpan (s : Span) : Named (ofSpan s) := by simp +decide [ofSpan]

@[simp] theorem named_ofBody (s : Span) : Named (ofBody s) := by simp +decide [ofBody]

@[simp] theorem named_ofLiterals (literals : List (Nat × Value)) : Named (ofLiterals literals) := by
  unfold ofLiterals
  split <;> simp +decide

@[simp] theorem named_ofInner (inner : Option InnerCalls) : Named (ofInner inner) := by
  cases inner <;> simp +decide [ofInner]

@[simp] theorem named_flag {name : String} {b : Bool} :
    Named (flag name b) ↔ b = true → isReserved (Text.ofString name) = false := by
  cases b <;> simp [flag]

@[simp] theorem named_optional {name : String} {d : Option Document} :
    Named (optional name d) ↔ d.isSome = true → isReserved (Text.ofString name) = false := by
  cases d <;> simp [optional]

@[simp] theorem each_optional {name : String} {d : Option Document} :
    Each P (optional name d) ↔ ∀ e ∈ d, P e := by
  cases d <;> simp [optional]

namespace Leafwise

variable (h : Leafwise P T V)

include h

theorem ofString (s : String) : P (Document.string s) := (h.text _).mpr (h.string s)

theorem ofSpan (s : Span) : Each P (ofSpan s) := by simp [Document.ofSpan, nat, h.int]

theorem ofBody (s : Span) : Each P (ofBody s) := by simp [Document.ofBody, nat, h.int]

theorem flag (name : String) (b : Bool) : Each P (flag name b) := by
  cases b <;> simp [Document.flag, h.bool]

theorem ofArguments (args : List Argument) : P (ofArguments args).2 := by
  refine (h.list _).mpr (List.forall_mem_map.mpr fun a _ => ?_)
  rw [ofArgument, h.record _ (by simp +decide)]
  simp [h.ofString, h.ofSpan]

theorem ofLiterals {literals : List (Nat × Value)} :
    Each P (ofLiterals literals) ↔ ∀ p ∈ literals, V p.2 := by
  unfold Document.ofLiterals
  split
  case isTrue hempty => simp [List.isEmpty_iff.mp hempty]
  case isFalse =>
    rw [each_cons, h.record, Each, List.forall_mem_map]
    · simp only [h.value, each_nil, and_true]
    · exact List.forall_mem_map.mpr fun p _ => isReserved_toString p.1

theorem ofUsage {u : CommandUsage} : P (ofUsage u) ↔ ∀ v ∈ u.values, V v := by
  have hchain : P (Document.list (u.chain.map Document.string)) :=
    (h.list _).mpr (List.forall_mem_map.mpr fun s _ => h.ofString s)
  rw [Document.ofUsage, h.record _ (by simp +decide [Document.ofArguments]), CommandUsage.values,
    List.forall_mem_map]
  simp only [each_append, each_cons, each_nil, h.ofString, h.ofSpan, h.ofArguments, h.ofLiterals,
    hchain, true_and, and_true]

theorem ofOtherCall (c : OtherCall) : P (ofOtherCall c) := by
  rw [Document.ofOtherCall, h.record _ (by simp +decide [Document.ofArguments])]
  simp [nat, h.ofString, h.int, h.ofArguments]

theorem ofInner {inner : Option InnerCalls} :
    Each P (ofInner inner) ↔ ∀ v ∈ innerValues inner, V v := by
  cases inner with
  | none => simp [Document.ofInner, innerValues]
  | some inner =>
    have hothers : P (Document.list (inner.others.map Document.ofOtherCall)) :=
      (h.list _).mpr (List.forall_mem_map.mpr fun c _ => h.ofOtherCall c)
    simp only [Document.ofInner, each_cons, each_nil, hothers, and_true, h.list,
      List.forall_mem_map, h.ofUsage, innerValues, List.forall_mem_flatMap]

theorem ofDefinition {d : CommandDefinition} :
    P (ofDefinition d) ↔ T d.name ∧ ∀ v ∈ innerValues d.inner, V v := by
  rw [Document.ofDefinition, h.record _ (by simp +decide)]
  simp only [List.cons_append, each_cons, each_append, h.text, h.ofSpan, h.ofInner, true_and]

theorem ofScope {scope : List Frame} : P (ofScope scope).2 ↔ ∀ t ∈ scopeTexts scope, T t := by
  have hframe : ∀ f : Frame, P (ofFrame f) ↔ T f.name := by
    intro f
    rw [Document.ofFrame, h.record _ (by simp +decide)]
    simp only [each_append, each_cons, each_nil, h.text, h.ofString, h.ofSpan, h.flag, and_true]
  simp only [Document.ofScope, h.list, List.forall_mem_map, hframe, scopeTexts]

theorem ofTest {t : TestCase} :
    P (ofTest t) ↔ (∀ s ∈ t.name :: scopeTexts t.scope, T s) ∧
      ∀ v ∈ innerValues t.inner, V v := by
  rw [Document.ofTest, h.record _ (by simp +decide [Document.ofScope])]
  simp only [each_append, each_cons, each_nil, h.text, h.ofScope, h.ofSpan, h.ofBody, h.ofInner,
    h.flag, and_true, List.forall_mem_cons]

theorem ofHook {k : Hook} :
    P (ofHook k) ↔ (∀ s ∈ scopeTexts k.scope, T s) ∧ ∀ v ∈ innerValues k.inner, V v := by
  rw [Document.ofHook, h.record _ (by simp +decide [Document.ofScope])]
  simp only [List.cons_append, each_append, each_cons, h.ofScope, h.ofSpan, h.ofBody, h.ofInner,
    true_and]

theorem ofScenario {s : Scenario} :
    P (ofScenario s) ↔
      (∀ t ∈ scopeTexts s.scope ++ s.functions.map (·.name), T t) ∧
        ∀ v ∈ s.functions.flatMap (innerValues ·.inner), V v := by
  have hfunction : ∀ f : ScenarioFunction,
      P (ofScenarioFunction f) ↔ T f.name ∧ ∀ v ∈ innerValues f.inner, V v := by
    intro f
    rw [Document.ofScenarioFunction, h.record _ (by simp +decide)]
    simp only [List.cons_append, each_append, each_cons, h.text, h.ofSpan, h.ofBody, h.ofInner,
      true_and]
  rw [Document.ofScenario, h.record _ (by simp +decide [Document.ofScope])]
  simp only [each_append, each_cons, each_nil, h.ofString, h.ofScope, h.ofSpan, h.list,
    List.forall_mem_map, hfunction, true_and, and_true, List.forall_mem_append,
    List.forall_mem_flatMap, forall_and, and_assoc]

theorem ofDiagnostic {d : Diagnostic} : P (ofDiagnostic d) ↔ T d.message := by
  rw [Document.ofDiagnostic, h.record _ (by simp +decide)]
  simp [nat, h.text, h.int, h.ofString]

theorem optional_list {α : Type} {of : α → Document} {records : Option (List α)} :
    (∀ d ∈ records.map fun rs => Document.list (rs.map of), P d) ↔
      ∀ r ∈ records.getD [], P (of r) := by
  cases records with
  | none => simp
  | some rs => simp [h.list]

/-- Texts and values decide on the document of an outline, once the hooks are seen to. -/
theorem ofOutline {o : Outline}
    (hhooks : (∀ d ∈ o.hooks.map ofHooks, P d) ↔ ∀ k ∈ o.sentHooks, P (Document.ofHook k)) :
    P (ofOutline o) ↔ (∀ t ∈ o.texts, T t) ∧ ∀ v ∈ o.values, V v := by
  rw [Document.ofOutline, h.record _ (by simp +decide)]
  simp only [each_append, each_cons, each_nil, each_optional, h.optional_list, hhooks,
    h.ofDefinition, h.ofUsage, h.ofTest, h.ofHook, h.ofScenario, h.list, h.ofDiagnostic,
    List.forall_mem_map, Outline.texts, Outline.values, List.forall_mem_append,
    List.forall_mem_flatMap, forall_and, and_true]
  tauto

end Leafwise

end

/-! Documents that can be sent. -/

/-- A document that can be sent once what stands under reserved names is left out. -/
def Sendable (d : Document) : Prop := d.withoutReserved.isRenderable = true

theorem allRenderable_withoutReserved {items : List Document} :
    allRenderable (itemsWithoutReserved items) = true ↔ ∀ d ∈ items, d.Sendable := by
  induction items with
  | nil => simp [itemsWithoutReserved, allRenderable]
  | cons d items ih => simp [itemsWithoutReserved, allRenderable, ih, Sendable]

theorem fieldsRenderable_withoutReserved {fields : List (String × Document)} :
    fieldsRenderable (fieldsWithoutReserved fields) = true ↔
      ∀ f ∈ fields, isReserved (Text.ofString f.1) = false → f.2.Sendable := by
  induction fields with
  | nil => simp [fieldsWithoutReserved, fieldsRenderable]
  | cons f fields ih =>
    rw [fieldsWithoutReserved, List.forall_mem_cons]
    by_cases hreserved : isReserved (Text.ofString f.1) = true
    · simp [hreserved, ih]
    · simp [hreserved, fieldsRenderable, ih, Sendable]

theorem leafwise_sendable :
    Leafwise Sendable (fun t => t.hasSurrogate = false) Value.Sendable where
  int _ := rfl
  bool _ := rfl
  text t := by simp [Sendable, withoutReserved, isRenderable]
  string := Text.hasSurrogate_ofString
  value _ := Value.isRenderable_withoutReserved_iff
  list _ := allRenderable_withoutReserved
  record fields hnamed := by
    rw [Sendable, withoutReserved, isRenderable, fieldsRenderable_withoutReserved, Each]
    exact forall₂_congr fun f hf => by simp [hnamed f hf]

/-- An outline can be sent if the texts and values can that it holds. -/
theorem sendable_ofOutline_iff {o : Outline} : (ofOutline o).Sendable ↔ o.Sendable := by
  have hhooks : (∀ d ∈ o.hooks.map ofHooks, d.Sendable) ↔
      ∀ k ∈ o.sentHooks, (ofHook k).Sendable := by
    simp only [Outline.mem_sentHooks]
    cases o.hooks with
    | none => simp
    | some hooks =>
      simp only [Option.map_some, Option.mem_some_iff, forall_eq', Option.getD_some]
      rw [ofHooks, Sendable, withoutReserved, isRenderable, fieldsRenderable_withoutReserved,
        List.forall_mem_map]
      simp only [leafwise_sendable.list, List.forall_mem_map]
      constructor
      · rintro hall k ⟨entry, hentry, hkind, hk⟩
        exact hall entry hentry hkind k hk
      · intro hall entry hentry hkind k hk
        exact hall k ⟨entry, hentry, hkind, hk⟩
  rw [leafwise_sendable.ofOutline hhooks]
  exact ⟨fun ⟨htexts, hvalues⟩ => ⟨htexts, hvalues⟩, fun ⟨htexts, hvalues⟩ => ⟨htexts, hvalues⟩⟩

/-! Documents that are sent in full. -/

theorem itemsWithoutReserved_eq_iff {items : List Document} :
    itemsWithoutReserved items = items ↔ ∀ d ∈ items, d.withoutReserved = d := by
  induction items with
  | nil => simp [itemsWithoutReserved]
  | cons d items ih => simp [itemsWithoutReserved, ih]

theorem fieldsWithoutReserved_eq_iff {fields : List (String × Document)} (h : Named fields) :
    fieldsWithoutReserved fields = fields ↔ Each (fun d => d.withoutReserved = d) fields := by
  induction fields with
  | nil => simp [fieldsWithoutReserved]
  | cons f fields ih =>
    obtain ⟨hname, hfields⟩ := named_cons.mp h
    obtain ⟨name, d⟩ := f
    simp [fieldsWithoutReserved, hname, ih hfields]

theorem leafwise_kept :
    Leafwise (fun d => d.withoutReserved = d) (fun _ => True) fun v => v.withoutReserved = v where
  int _ := rfl
  bool _ := rfl
  text _ := by simp [withoutReserved]
  string _ := trivial
  value v := by simp [withoutReserved]
  list items := by rw [withoutReserved, list.injEq, itemsWithoutReserved_eq_iff]
  record fields hnamed := by
    rw [withoutReserved, record.injEq, fieldsWithoutReserved_eq_iff hnamed]

/-- Nothing is left out of an outline without reserved names. -/
theorem withoutReserved_ofOutline {o : Outline} (h : o.Unreserved) :
    (ofOutline o).withoutReserved = ofOutline o := by
  obtain ⟨hkinds, hvalues⟩ := h
  have hhooks : (∀ d ∈ o.hooks.map ofHooks, d.withoutReserved = d) ↔
      ∀ k ∈ o.sentHooks, (ofHook k).withoutReserved = ofHook k := by
    simp only [Outline.mem_sentHooks]
    cases hhooks : o.hooks with
    | none => simp
    | some hooks =>
      rw [hhooks, Option.getD_some] at hkinds
      simp only [Option.map_some, Option.mem_some_iff, forall_eq', Option.getD_some]
      rw [ofHooks, leafwise_kept.record, Each, List.forall_mem_map]
      · simp only [leafwise_kept.list, List.forall_mem_map]
        constructor
        · rintro hall k ⟨entry, hentry, -, hk⟩
          exact hall entry hentry k hk
        · intro hall entry hentry k hk
          exact hall k ⟨entry, hentry, hkinds entry hentry, hk⟩
      · exact List.forall_mem_map.mpr hkinds
  refine (leafwise_kept.ofOutline hhooks).mpr ⟨fun _ _ => trivial, fun v hv => ?_⟩
  exact (hvalues v hv).withoutReserved_eq

end Document

end SuiteOutline
