import SuiteOutline.Proofs.Descent
import SuiteOutline.Proofs.Escape
import SuiteOutline.Proofs.Value
import SuiteOutline.Proofs.WellFormed

/-! Literals, templates and keys, each with what it stands for said apart from how it is read. In a
source whose escapes are of the grammar's forms, reading one never fails. -/
namespace SuiteOutline

/-- A computation succeeds, and gives what the predicate holds of, or nothing if it holds of none. -/
def Settles {α : Type} (x : Except Failure (Option α)) (P : α → Prop) : Prop :=
  ∃ r, x = .ok r ∧ ∀ a, r = some a ↔ P a

namespace Settles

variable {α β : Type} {x : Except Failure (Option α)} {P Q : α → Prop}

theorem congr (h : Settles x P) (hPQ : ∀ a, P a ↔ Q a) : Settles x Q := by
  obtain ⟨r, hr, hP⟩ := h
  exact ⟨r, hr, fun a => (hP a).trans (hPQ a)⟩

theorem none (h : ∀ a, ¬P a) : Settles (.ok .none) P :=
  ⟨_, rfl, fun a => ⟨nofun, fun ha => absurd ha (h a)⟩⟩

theorem some {b : α} (hb : P b) (hunique : ∀ a a', P a → P a' → a = a') :
    Settles (.ok (.some b)) P := by
  refine ⟨_, rfl, fun a => ⟨?_, fun ha => congrArg Option.some (hunique b a hb ha)⟩⟩
  rintro ⟨⟩
  exact hb

theorem map (h : Settles x P) (f : α → β) :
    Settles (x.map (·.map f)) fun b => ∃ a, P a ∧ f a = b := by
  obtain ⟨r, rfl, hP⟩ := h
  refine ⟨r.map f, rfl, fun b => ?_⟩
  rw [Option.map_eq_some_iff]
  exact exists_congr fun a => and_congr_left fun _ => hP a

theorem getD {ι : Type} {o : Option ι} {f : ι → Except Failure (Option α)} {P : ι → α → Prop}
    (h : ∀ i, o = Option.some i → Settles (f i) (P i)) :
    Settles ((o.map f).getD (.ok .none)) fun a => ∃ i, o = Option.some i ∧ P i a := by
  cases o with
  | none => exact .none fun a ⟨i, hi, _⟩ => nomatch hi
  | some i => exact (h i rfl).congr fun a => by simp

/-- A head that gives nothing ends a list, so the rest must succeed only for the list to be there. -/
theorem consValue {tail : Except Failure (Option (List α))} {R : List α → Prop} (hx : Settles x P)
    (htail : Settles tail R) :
    Settles (consValue x tail) fun l => ∃ a as, P a ∧ R as ∧ l = a :: as := by
  obtain ⟨r, rfl, hP⟩ := hx
  obtain ⟨rest, rfl, hR⟩ := htail
  cases r with
  | none => exact .none fun l ⟨a, _, ha, _⟩ => nomatch (hP a).mpr ha
  | some b =>
    refine ⟨rest.map (b :: ·), rfl, fun l => ?_⟩
    rw [Option.map_eq_some_iff]
    constructor
    · rintro ⟨as, has, rfl⟩
      exact ⟨b, as, (hP b).mp rfl, (hR as).mp has, rfl⟩
    · rintro ⟨a, as, ha, has, rfl⟩
      cases (hP a).mpr ha
      exact ⟨as, (hR as).mpr has, rfl⟩

end Settles

/-- Numbers can be written, but for integers of too many digits. -/
theorem exists_text? {x : Number} (h : ∀ i, x = .integer i → i.natAbs < 10 ^ digitLimit) :
    ∃ s, x.text? .plain = some s := by
  cases x with
  | integer i =>
    refine ⟨toString i, ?_⟩
    rw [Number.text?, writeInteger?, Nat.pow_eq, if_pos (h i rfl)]
  | real x => exact ⟨_, rfl⟩

def Node.isSubstitution (c : Node) : Bool := c.named && c.symbol = .templateSubstitution

namespace Source

variable (src : Source)

/-- What a literal stands for. A regular expression stands for its own text. -/
inductive LiteralOf : Node → Value → Prop
  | string {n : Node} {t : Text} (h : n.symbol = .string) (ht : src.stringValue n = .ok t) :
      LiteralOf n (.text t)
  | number {n : Node} {cs : List Char} {x : Number} (h : n.symbol = .number)
      (hcs : src.charsOf n = .ok cs) (hx : Number.read? cs = some x) : LiteralOf n (.number x)
  | true {n : Node} (h : n.symbol = .trueLiteral) : LiteralOf n (.bool true)
  | false {n : Node} (h : n.symbol = .falseLiteral) : LiteralOf n (.bool false)
  | null {n : Node} (h : n.symbol = .nullLiteral) : LiteralOf n .null
  | regex {n : Node} {cs : List Char} (h : n.symbol = .regex) (hcs : src.charsOf n = .ok cs) :
      LiteralOf n (.text (Text.ofChars cs))

/-- A template is rendered from a place on, given the substitutions that are left: all are bare
identifiers, and placeholders of their names stand between the pieces of text. -/
inductive Rendered (stop : Nat) : Nat → List Node → List Char → Prop
  | last (cursor : Nat) : Rendered stop cursor [] (src.slice cursor stop)
  | name {cursor : Nat} {c e : Node} {cs : List Node} {place : Span} {shown rest : List Char}
      (hplace : src.spanOf c = .ok place) (he : c.members.head? = some e)
      (hbare : e.kind = .identifier) (hshown : src.charsOf e.unwrap = .ok shown)
      (hrest : Rendered stop place.stop cs rest) :
      Rendered stop cursor (c :: cs) (src.slice cursor place.start ++ placeholder shown ++ rest)

/-- The text of a template whose substitutions are bare identifiers. -/
inductive TemplateOf : Node → Text → Prop
  | intro {n : Node} {place : Span} {cs : List Char} (h : n.symbol = .templateString)
      (hplace : src.inside n = .ok place)
      (hcs : src.Rendered place.stop place.start (n.children.filter Node.isSubstitution) cs) :
      TemplateOf n (Text.ofChars cs)

/-- What a key spells: an identifier, a string or a number. A computed key spells nothing. -/
inductive KeyOf : Node → Text → Prop
  | name {n : Node} {cs : List Char}
      (h : n.symbol ∈ [.propertyIdentifier, .identifier, .privatePropertyIdentifier])
      (hcs : src.charsOf n = .ok cs) : KeyOf n (Text.ofChars cs)
  | string {n : Node} {t : Text} (h : n.symbol = .string) (ht : src.stringValue n = .ok t) :
      KeyOf n t
  | number {n : Node} {cs : List Char} {x : Number} {s : String} (h : n.symbol = .number)
      (hcs : src.charsOf n = .ok cs) (hx : Number.read? cs = some x) (hs : x.text? .plain = some s) :
      KeyOf n (Text.ofString s)

/-- Every node has a span, and every escape sequence a meaning. -/
structure Legible : Prop where
  measured : src.Measured
  escapes : ∀ e ∈ src.root.nodes, e.symbol = .escapeSequence → ∀ raw, src.charsOf e = .ok raw →
    (decodeEscape? raw).isSome = true

/-- The escape sequences are named nodes below named ones, and spelled as the grammar has them. -/
structure EscapesFormed : Prop where
  walked : ∀ e ∈ src.root.nodes, e.symbol = .escapeSequence → e ∈ src.root.walk
  spelled : ∀ e ∈ src.root.nodes, e.symbol = .escapeSequence → ∀ raw, src.charsOf e = .ok raw →
    IsEscape raw

variable {src}

theorem literalOf_unique {n : Node} (v w : Value) (hv : src.LiteralOf n v)
    (hw : src.LiteralOf n w) : v = w := by
  cases hv <;> cases hw <;> simp_all

theorem keyOf_unique {n : Node} (k l : Text) (hk : src.KeyOf n k) (hl : src.KeyOf n l) : k = l := by
  cases hk <;> cases hl <;> simp_all

theorem legible_ofTree {filename : Option String} {text : List Char} {tree : Node}
    (h : ofTree filename text tree = .ok src) (hmeasured : src.Measured)
    (hescapes : src.EscapesFormed) : src.Legible := by
  refine ⟨hmeasured, fun e he hsymbol raw hraw => ?_⟩
  have hrange := isOutOfRange_of_ofTree h (hescapes.walked e he hsymbol) hsymbol hraw
  exact (hescapes.spelled e he hsymbol raw hraw).isSome_decode hrange

namespace Legible

variable {n : Node} (hsrc : src.Legible) (hn : n ∈ src.root.nodes)
include hsrc hn

theorem charsOf_ok : ∃ cs, src.charsOf n = .ok cs := by
  obtain ⟨span, hspan⟩ := hsrc.measured n hn
  exact ⟨_, by rw [charsOf, hspan]; rfl⟩

theorem inside_ok : ∃ place, src.inside n = .ok place := by
  obtain ⟨span, hspan⟩ := hsrc.measured n hn
  exact ⟨_, by rw [inside, hspan]; rfl⟩

end Legible

/-- The escapes in a string can be read and have a meaning. -/
def EscapesDecode (src : Source) (cs : List Node) : Prop :=
  ∀ c ∈ cs, c.symbol = .escapeSequence →
    ∃ raw, src.charsOf c = .ok raw ∧ (decodeEscape? raw).isSome = true

theorem EscapesDecode.cookFrom_ok {cs : List Node} (h : src.EscapesDecode cs) (cursor stop : Nat) :
    ∃ t, src.cookFrom cursor stop cs = .ok t := by
  induction cs generalizing cursor with
  | nil => exact ⟨_, rfl⟩
  | cons c cs ih =>
    obtain ⟨hc, hcs⟩ := List.forall_mem_cons.mp h
    rw [cookFrom]
    split
    case isTrue hsymbol =>
      obtain ⟨raw, hraw, hmeaning⟩ := hc hsymbol
      obtain ⟨place, hplace, hslice⟩ := bind_eq_ok.mp hraw
      rw [← pure_eq_ok.mp hslice] at hmeaning
      obtain ⟨decoded, hdecoded⟩ := Option.isSome_iff_exists.mp hmeaning
      obtain ⟨rest, hrest⟩ := ih hcs place.stop
      refine ⟨Text.ofChars (src.slice cursor place.start) ++ decoded ++ rest, ?_⟩
      rw [hplace]
      simp only [bind_eq_ok, pure_eq_ok, Except.ok.injEq, exists_eq_left', hdecoded, hrest]
    case isFalse => exact ih hcs cursor

theorem EscapesDecode.stringValue_ok {n : Node} (h : src.EscapesDecode n.children)
    (hspan : ∃ span, src.spanOf n = .ok span) : ∃ t, src.stringValue n = .ok t := by
  obtain ⟨span, hspan⟩ := hspan
  have hplace : ∃ place, src.inside n = .ok place := ⟨_, by rw [inside, hspan]; rfl⟩
  obtain ⟨place, hplace⟩ := hplace
  obtain ⟨t, ht⟩ := h.cookFrom_ok place.start place.stop
  refine ⟨t.joinSurrogates, ?_⟩
  rw [stringValue, hplace]
  simp only [bind_eq_ok, pure_eq_ok]
  exact ⟨_, rfl, t, ht, rfl⟩

section

variable {n : Node} (hsrc : src.Legible) (hn : n ∈ src.root.nodes)
include hsrc hn

theorem Legible.stringValue_ok : ∃ t, src.stringValue n = .ok t := by
  have hdecode : src.EscapesDecode n.children := by
    intro c hc hsymbol
    have hmem := Node.mem_nodes_of_child hn hc
    obtain ⟨raw, hraw⟩ := hsrc.charsOf_ok hmem
    exact ⟨raw, hraw, hsrc.escapes c hmem hsymbol raw hraw⟩
  exact hdecode.stringValue_ok (hsrc.measured n hn)

theorem settles_literalValue (hself : n.unwrap = n) :
    Settles (src.literalValue n) (src.LiteralOf n) := by
  obtain ⟨cs, hcs⟩ := hsrc.charsOf_ok hn
  obtain ⟨t, ht⟩ := hsrc.stringValue_ok hn
  unfold literalValue
  simp only [hself]
  cases hsymbol : n.symbol with
  | string =>
    rw [ht]
    exact .some (.string hsymbol ht) literalOf_unique
  | number =>
    rw [hcs]
    change Settles (.ok ((Number.read? cs).map Value.number)) _
    cases hread : Number.read? cs with
    | none =>
      refine .none fun v hv => ?_
      cases hv with
      | number _ hcs' hx =>
        rw [hcs] at hcs'
        cases hcs'
        simp [hread] at hx
      | _ h => simp [hsymbol] at h
    | some x => exact .some (.number hsymbol hcs hread) literalOf_unique
  | regex =>
    rw [hcs]
    exact .some (.regex hsymbol hcs) literalOf_unique
  | trueLiteral => exact .some (.true hsymbol) literalOf_unique
  | falseLiteral => exact .some (.false hsymbol) literalOf_unique
  | nullLiteral => exact .some (.null hsymbol) literalOf_unique
  | _ =>
    refine .none fun v hv => ?_
    cases hv with
    | _ h => simp [hsymbol] at h

omit hsrc hn in
/-- A number is spelled as it is written, if it can be read. -/
theorem keyName_of_number {cs : List Char} (hsymbol : n.symbol = .number)
    (hcs : src.charsOf n = .ok cs) :
    src.keyName n = (Number.read? cs).elim (.ok none) fun x => (numberText x).map some := by
  rw [keyName, hsymbol, hcs]
  simp only [Bind.bind, Except.bind]
  cases Number.read? cs with
  | none => rfl
  | some x => cases htext : numberText x <;> simp [htext, Except.map, pure, Except.pure]

/-- Integers of up to so many digits can be written. -/
theorem settles_keyName (hprints : n.symbol = .number → ∀ cs i, src.charsOf n = .ok cs →
    Number.read? cs = some (.integer i) → i.natAbs < 10 ^ digitLimit) :
    Settles (src.keyName n) (src.KeyOf n) := by
  obtain ⟨cs, hcs⟩ := hsrc.charsOf_ok hn
  obtain ⟨t, ht⟩ := hsrc.stringValue_ok hn
  unfold keyName
  cases hsymbol : n.symbol with
  | propertyIdentifier | identifier | privatePropertyIdentifier =>
    rw [hcs]
    exact .some (.name (by simp [hsymbol]) hcs) keyOf_unique
  | string =>
    rw [ht]
    exact .some (.string hsymbol ht) keyOf_unique
  | number =>
    have hname := keyName_of_number hsymbol hcs
    rw [keyName, hsymbol] at hname
    rw [hname]
    cases hread : Number.read? cs with
    | none =>
      refine .none fun k hk => ?_
      cases hk with
      | number _ hcs' hx =>
        rw [hcs] at hcs'
        cases hcs'
        simp [hread] at hx
      | name h => simp [hsymbol] at h
      | string h => simp [hsymbol] at h
    | some x =>
      obtain ⟨s, hs⟩ := exists_text? fun i hi => hprints hsymbol cs i hcs (hread.trans (hi ▸ rfl))
      have htext : numberText x = .ok (Text.ofString s) := by
        unfold numberText
        rw [hs]
      rw [Option.elim_some, htext]
      exact .some (.number hsymbol hcs hread hs) keyOf_unique
  | _ =>
    refine .none fun k hk => ?_
    cases hk with
    | _ h => simp [hsymbol] at h

end

/-! Templates. -/

theorem rendered_cons_iff {stop cursor : Nat} {c e : Node} {cs : List Node} {place : Span}
    {shown t : List Char} (hplace : src.spanOf c = .ok place) (he : c.members.head? = some e)
    (hshown : src.charsOf e.unwrap = .ok shown) :
    src.Rendered stop cursor (c :: cs) t ↔ e.kind = .identifier ∧
      ∃ rest, src.Rendered stop place.stop cs rest ∧
        src.slice cursor place.start ++ placeholder shown ++ rest = t := by
  constructor
  · intro h
    cases h with
    | name hplace' he' hbare hshown' hrest =>
      rw [hplace] at hplace'
      cases hplace'
      rw [he] at he'
      cases he'
      rw [hshown] at hshown'
      cases hshown'
      exact ⟨hbare, _, hrest, rfl⟩
  · rintro ⟨hbare, rest, hrest, rfl⟩
    exact .name hplace he hbare hshown hrest

theorem rendered_unique {stop cursor : Nat} {cs : List Node} (t u : List Char)
    (ht : src.Rendered stop cursor cs t) (hu : src.Rendered stop cursor cs u) : t = u := by
  induction ht generalizing u with
  | last => cases hu; rfl
  | name hplace he _ hshown _ ih =>
    obtain ⟨-, rest, hrest, rfl⟩ := (rendered_cons_iff hplace he hshown).mp hu
    rw [ih rest hrest]

theorem templateFrom_skip (strict : Bool) (cursor stop : Nat) {c : Node} (cs : List Node)
    (hsub : ¬c.isSubstitution = true) :
    src.templateFrom strict cursor stop (c :: cs) = src.templateFrom strict cursor stop cs := by
  rw [templateFrom, ← Node.isSubstitution, if_neg hsub]

theorem templateFrom_empty (strict : Bool) (cursor stop : Nat) {c : Node} (cs : List Node)
    {place : Span} (hsub : c.isSubstitution = true) (hplace : src.spanOf c = .ok place)
    (he : c.members.head? = none) : src.templateFrom strict cursor stop (c :: cs) = .ok none := by
  rw [templateFrom, ← Node.isSubstitution, if_pos hsub, (spanOf_eq_ok.mp hplace).1, he]
  rfl

/-- A substitution shows the text of its expression. In a strict template there is no text with any
but an identifier. -/
theorem templateFrom_cons (strict : Bool) (cursor stop : Nat) {c e : Node} {cs : List Node}
    {place : Span} {shown : List Char} (hsub : c.isSubstitution = true)
    (hplace : src.spanOf c = .ok place) (he : c.members.head? = some e)
    (hshown : src.charsOf e.unwrap = .ok shown) :
    src.templateFrom strict cursor stop (c :: cs) =
      if strict = true → e.kind = .identifier then (src.templateFrom strict place.stop stop cs).map
        (·.map (src.slice cursor place.start ++ placeholder shown ++ ·))
      else .ok none := by
  obtain ⟨hstart, hstop⟩ := spanOf_eq_ok.mp hplace
  rw [templateFrom, ← Node.isSubstitution, if_pos hsub, hstart, he, Option.map_some]
  change (if (strict && decide (e.unwrap.kind ≠ .identifier)) = true then Except.ok none else
    (src.charsOf e.unwrap >>= fun shown => src.stopOf c >>= fun next =>
      src.templateFrom strict next stop cs >>= fun rest =>
        pure (rest.map (src.slice cursor place.start ++ placeholder shown ++ ·)))) = _
  rw [e.kind_unwrap, hshown, hstop]
  by_cases hbare : strict = true → e.kind = .identifier
  · rw [if_pos hbare, if_neg (by simpa using hbare)]
    change (src.templateFrom strict place.stop stop cs >>= fun rest =>
      pure (rest.map (src.slice cursor place.start ++ placeholder shown ++ ·))) = _
    cases src.templateFrom strict place.stop stop cs <;> rfl
  · rw [if_neg hbare, if_pos (by simpa using hbare)]

theorem settles_templateFrom (hsrc : src.Legible) {cs : List Node}
    (hcs : ∀ c ∈ cs, c ∈ src.root.nodes) (cursor stop : Nat) :
    Settles (src.templateFrom true cursor stop cs)
      (src.Rendered stop cursor (cs.filter Node.isSubstitution)) := by
  induction cs generalizing cursor with
  | nil => exact .some (.last cursor) rendered_unique
  | cons c cs ih =>
    obtain ⟨hc, hcs⟩ := List.forall_mem_cons.mp hcs
    by_cases hsub : c.isSubstitution = true
    · rw [List.filter_cons_of_pos hsub]
      obtain ⟨place, hplace⟩ := hsrc.measured c hc
      cases he : c.members.head? with
      | none =>
        rw [templateFrom_empty true cursor stop cs hsub hplace he]
        refine .none fun t ht => ?_
        cases ht with
        | name _ he' => simp [he] at he'
      | some e =>
        obtain ⟨shown, hshown⟩ := hsrc.charsOf_ok (Node.mem_nodes_unwrap_of_head hc he)
        rw [templateFrom_cons true cursor stop hsub hplace he hshown]
        split
        case isTrue hbare =>
          refine ((ih hcs place.stop).map _).congr fun t => ?_
          rw [rendered_cons_iff hplace he hshown, and_iff_right (hbare rfl)]
        case isFalse hbare =>
          exact .none fun t ht => hbare fun _ => ((rendered_cons_iff hplace he hshown).mp ht).1
    · rw [List.filter_cons_of_neg hsub, templateFrom_skip true cursor stop cs hsub]
      exact ih hcs cursor

theorem template_of_inside (strict : Bool) {n : Node} {place : Span}
    (hplace : src.inside n.unwrap = .ok place) :
    src.template strict n =
      (src.templateFrom strict place.start place.stop n.unwrap.children).map
        (·.map Text.ofChars) := by
  unfold template
  simp only [hplace]
  change (src.templateFrom strict place.start place.stop n.unwrap.children >>= fun t =>
    pure (t.map Text.ofChars)) = _
  cases src.templateFrom strict place.start place.stop n.unwrap.children <;> rfl

theorem settles_template (hsrc : src.Legible) {n : Node} (hn : n ∈ src.root.nodes)
    (hsymbol : n.symbol = .templateString) :
    Settles (src.template true n) (src.TemplateOf n) := by
  have hself : n.unwrap = n := Node.unwrap_of_ne (by simp [hsymbol])
  obtain ⟨place, hplace⟩ := hsrc.inside_ok hn
  rw [template_of_inside true (by rwa [hself]), hself]
  have hchildren : ∀ c ∈ n.children, c ∈ src.root.nodes := fun c => Node.mem_nodes_of_child hn
  refine ((settles_templateFrom hsrc hchildren _ _).map _).congr fun t => ?_
  constructor
  · rintro ⟨cs, hcs, rfl⟩
    exact .intro hsymbol hplace hcs
  · rintro ⟨-, hplace', hcs⟩
    rw [hplace] at hplace'
    cases hplace'
    exact ⟨_, hcs, rfl⟩

end Source
end SuiteOutline
