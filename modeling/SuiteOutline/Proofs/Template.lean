import SuiteOutline.Proofs.Literal

/-! Templates keep their text. The substitutions cut what stands between the backticks into chunks;
a template is rendered with a placeholder in the place of each, and every chunk stays as it is. -/
namespace SuiteOutline

/-- The stretches of a span that others leave of it: one before each of them, and one at the end. -/
def Span.gaps (outer : Span) (inner : List Span) : List Span :=
  List.zipWith Span.mk (outer.start :: inner.map (·.stop)) (inner.map (·.start) ++ [outer.stop])

theorem Span.gaps_cons (outer s : Span) (ss : List Span) :
    outer.gaps (s :: ss) = ⟨outer.start, s.start⟩ :: gaps ⟨s.stop, outer.stop⟩ ss := rfl

/-- Chunks with pieces between them. -/
def weave {α : Type} : List (List α) → List (List α) → List α
  | chunk :: chunks, piece :: pieces => chunk ++ piece ++ weave chunks pieces
  | chunks, _ => chunks.flatten

namespace Node

def substitutions (n : Node) : List Node := n.children.filter isSubstitution

/-- What stands in a substitution, parentheses aside. -/
def expression? (c : Node) : Option Node := c.members.head?.map (·.unwrap)

/-- A substitution holds an expression; in a strict template, an identifier. -/
def Shown (strict : Bool) (c : Node) : Prop :=
  ∃ e, c.expression? = some e ∧ (strict = true → e.kind = .identifier)

theorem shown_false_iff {c : Node} : c.Shown false ↔ c.expression? ≠ none := by
  simp [Shown, Option.ne_none_iff_exists']

theorem shown_true_iff {c : Node} :
    c.Shown true ↔ ∃ e, c.expression? = some e ∧ e.kind = .identifier := by
  simp [Shown]

theorem Shown.lenient {strict : Bool} {c : Node} (h : c.Shown strict) : c.Shown false := by
  obtain ⟨e, he, -⟩ := h
  exact ⟨e, he, nofun⟩

end Node

namespace Source

variable (src : Source)

def textAt (s : Span) : List Char := src.slice s.start s.stop

/-- The expression in a substitution has this text. -/
def Encloses (c : Node) (raw : List Char) : Prop :=
  ∃ e, c.expression? = some e ∧ src.charsOf e = .ok raw

/-- The substitutions of a template stand at these spans, one after the other in the place between
its backticks, and their expressions have a text. -/
structure LaidOut (n : Node) (place : Span) (spans : List Span) : Prop where
  inside : src.inside n = .ok place
  measured : List.Forall₂ (fun c s => src.spanOf c = .ok s) n.substitutions spans
  readable : ∀ c ∈ n.substitutions, ∀ e, c.expression? = some e → ∃ raw, src.charsOf e = .ok raw
  within : ∀ s ∈ spans, s.start ≤ s.stop ∧ s.Inside place
  ordered : spans.Pairwise fun a b => a.stop ≤ b.start

variable {src} {strict : Bool}

theorem slice_append {i j k : Nat} (hij : i ≤ j) (hjk : j ≤ k) :
    src.slice i j ++ src.slice j k = src.slice i k := by
  rw [slice, slice, ← Array.toList_append, Array.extract_append_extract, Nat.min_eq_left hij,
    Nat.max_eq_right hjk, slice]

/-- With the spans' own texts between them, the chunks make the whole text again. -/
theorem weave_gaps {outer : Span} {spans : List Span}
    (hwithin : ∀ s ∈ spans, s.start ≤ s.stop ∧ s.Inside outer)
    (hordered : spans.Pairwise fun a b => a.stop ≤ b.start) :
    weave ((outer.gaps spans).map src.textAt) (spans.map src.textAt) = src.textAt outer := by
  induction spans generalizing outer with
  | nil => simp [Span.gaps, weave]
  | cons s ss ih =>
    obtain ⟨hs, hss⟩ := List.forall_mem_cons.mp hwithin
    obtain ⟨hafter, hordered⟩ := List.pairwise_cons.mp hordered
    obtain ⟨hle, hfrom, hto⟩ := hs
    -- What is left begins where this span stops, and the spans after it lie within it.
    have hrest : weave ((Span.gaps ⟨s.stop, outer.stop⟩ ss).map src.textAt) (ss.map src.textAt) =
        src.slice s.stop outer.stop :=
      ih (fun t ht => ⟨(hss t ht).1, hafter t ht, (hss t ht).2.2⟩) hordered
    rw [Span.gaps_cons, List.map_cons, List.map_cons, weave, hrest]
    simp only [textAt]
    rw [slice_append hfrom hle, slice_append (Nat.le_trans hfrom hle) hto]

/-- Substitutions that are written as their placeholders have these for their texts. -/
theorem map_placeholder {cs : List Node} {spans : List Span} {raws : List (List Char)}
    (hspans : List.Forall₂ (fun c s => src.spanOf c = .ok s) cs spans)
    (hraws : List.Forall₂ (fun c raw => src.charsOf c = .ok (placeholder raw)) cs raws) :
    raws.map placeholder = spans.map src.textAt := by
  induction hspans generalizing raws with
  | nil =>
    cases hraws
    rfl
  | @cons c s _ _ hs _ ih =>
    obtain ⟨raw, raws, hraw, hrest, rfl⟩ := List.forall₂_cons_left_iff.mp hraws
    have hown : src.charsOf c = .ok (src.textAt s) := by
      rw [charsOf, hs]
      rfl
    rw [hown] at hraw
    rw [List.map_cons, List.map_cons, ih hrest, Except.ok.inj hraw]

/-- What the loop over the children makes of substitutions that all show: from the cursor on, the
chunks are kept. -/
theorem templateFrom_of_shown {cs : List Node} {spans : List Span} {raws : List (List Char)}
    (hspans : List.Forall₂ (fun c s => src.spanOf c = .ok s) (cs.filter Node.isSubstitution) spans)
    (hraws : List.Forall₂ src.Encloses (cs.filter Node.isSubstitution) raws)
    (hshown : ∀ c ∈ cs.filter Node.isSubstitution, c.Shown strict) (cursor stop : Nat) :
    src.templateFrom strict cursor stop cs =
      .ok (some (weave ((Span.gaps ⟨cursor, stop⟩ spans).map src.textAt)
        (raws.map placeholder))) := by
  induction cs generalizing cursor spans raws with
  | nil =>
    cases hspans
    cases hraws
    simp [templateFrom, Span.gaps, weave, textAt]
  | cons c cs ih =>
    by_cases hsub : c.isSubstitution = true
    · rw [List.filter_cons_of_pos hsub] at hspans hraws hshown
      obtain ⟨hc, hcs⟩ := List.forall_mem_cons.mp hshown
      obtain ⟨place, spans, hplace, hrest, rfl⟩ := List.forall₂_cons_left_iff.mp hspans
      obtain ⟨raw, raws, ⟨e, he, hraw⟩, hraws', rfl⟩ := List.forall₂_cons_left_iff.mp hraws
      obtain ⟨m, hm, rfl⟩ := Option.map_eq_some_iff.mp he
      have hbare : strict = true → m.kind = .identifier := by
        obtain ⟨e, he', hbare⟩ := hc
        rw [he] at he'
        cases he'
        rwa [m.kind_unwrap] at hbare
      rw [templateFrom_cons strict cursor stop hsub hplace hm hraw, if_pos hbare,
        ih hrest hraws' hcs]
      rfl
    · rw [List.filter_cons_of_neg hsub] at hspans hraws hshown
      rw [templateFrom_skip strict cursor stop cs hsub]
      exact ih hspans hraws hshown cursor

/-- One substitution that does not show is enough for there to be no text. -/
theorem templateFrom_of_not_shown {cs : List Node}
    (hspans : ∀ c ∈ cs.filter Node.isSubstitution, ∃ s, src.spanOf c = .ok s)
    (hreadable : ∀ c ∈ cs.filter Node.isSubstitution, ∀ e, c.expression? = some e →
      ∃ raw, src.charsOf e = .ok raw)
    (h : ∃ c ∈ cs.filter Node.isSubstitution, ¬c.Shown strict) (cursor stop : Nat) :
    src.templateFrom strict cursor stop cs = .ok none := by
  induction cs generalizing cursor with
  | nil => simp at h
  | cons c cs ih =>
    by_cases hsub : c.isSubstitution = true
    · rw [List.filter_cons_of_pos hsub] at hspans hreadable h
      obtain ⟨⟨place, hplace⟩, hspans⟩ := List.forall_mem_cons.mp hspans
      obtain ⟨hc, hreadable⟩ := List.forall_mem_cons.mp hreadable
      cases hm : c.members.head? with
      | none => exact templateFrom_empty strict cursor stop cs hsub hplace hm
      | some m =>
        have he : c.expression? = some m.unwrap := by rw [Node.expression?, hm, Option.map_some]
        obtain ⟨raw, hraw⟩ := hc m.unwrap he
        rw [templateFrom_cons strict cursor stop hsub hplace hm hraw]
        split
        case isTrue hbare =>
          have hshown : c.Shown strict := ⟨m.unwrap, he, by rwa [m.kind_unwrap]⟩
          -- This one shows, so the one that does not is among the rest.
          have hrest : ∃ d ∈ cs.filter Node.isSubstitution, ¬d.Shown strict := by
            obtain ⟨d, hd, hnot⟩ := h
            rcases List.mem_cons.mp hd with rfl | hd
            · exact absurd hshown hnot
            · exact ⟨d, hd, hnot⟩
          rw [ih hspans hreadable hrest]
          rfl
        case isFalse => rfl
    · rw [List.filter_cons_of_neg hsub] at hspans hreadable h
      rw [templateFrom_skip strict cursor stop cs hsub]
      exact ih hspans hreadable h cursor

namespace LaidOut

variable {n : Node} {place : Span} {spans : List Span} {raws : List (List Char)}

theorem exists_encloses (h : src.LaidOut n place spans)
    (hheld : ∀ c ∈ n.substitutions, c.expression? ≠ none) :
    ∃ raws, List.Forall₂ src.Encloses n.substitutions raws := by
  refine exists_forall₂ fun c hc => ?_
  obtain ⟨e, he⟩ := Option.ne_none_iff_exists'.mp (hheld c hc)
  obtain ⟨raw, hraw⟩ := h.readable c hc e he
  exact ⟨raw, e, he, hraw⟩

theorem template_of_shown (h : src.LaidOut n.unwrap place spans)
    (hshown : ∀ c ∈ n.unwrap.substitutions, c.Shown strict)
    (hraws : List.Forall₂ src.Encloses n.unwrap.substitutions raws) :
    src.template strict n = .ok (some (Text.ofChars
      (weave ((place.gaps spans).map src.textAt) (raws.map placeholder)))) := by
  rw [template_of_inside strict h.inside, templateFrom_of_shown h.measured hraws hshown]
  rfl

theorem template_of_not_shown (h : src.LaidOut n.unwrap place spans)
    (hnot : ∃ c ∈ n.unwrap.substitutions, ¬c.Shown strict) :
    src.template strict n = .ok none := by
  have hspans : ∀ c ∈ n.unwrap.substitutions, ∃ s, src.spanOf c = .ok s := by
    intro c hc
    obtain ⟨s, -, hs⟩ := exists_of_forall₂ h.measured.flip hc
    exact ⟨s, hs⟩
  rw [template_of_inside strict h.inside, templateFrom_of_not_shown hspans h.readable hnot]
  rfl

theorem exists_template_iff (h : src.LaidOut n.unwrap place spans) :
    (∃ t, src.template strict n = .ok (some t)) ↔ ∀ c ∈ n.unwrap.substitutions, c.Shown strict := by
  refine ⟨fun ht c hc => ?_, fun hshown => ?_⟩
  · by_contra hnot
    obtain ⟨t, ht⟩ := ht
    rw [h.template_of_not_shown ⟨c, hc, hnot⟩] at ht
    cases ht
  · obtain ⟨raws, hraws⟩ := h.exists_encloses fun c hc =>
      Node.shown_false_iff.mp (hshown c hc).lenient
    exact ⟨_, h.template_of_shown hshown hraws⟩

theorem template_eq_none_iff (h : src.LaidOut n.unwrap place spans) :
    src.template strict n = .ok none ↔ ∃ c ∈ n.unwrap.substitutions, ¬c.Shown strict := by
  refine ⟨fun hnone => ?_, h.template_of_not_shown⟩
  by_contra! hshown
  obtain ⟨t, ht⟩ := h.exists_template_iff.mpr hshown
  rw [hnone] at ht
  cases ht

end LaidOut

/-- A template whose substitutions stand in order between its backticks has no text if one of them
is empty. Otherwise its text is what stands between the backticks, but with placeholders of the
expressions for the substitutions. A strict template has this text if every expression is an
identifier. So where substitutions are written as placeholders are, nothing changes at all. -/
theorem template_keeps_chunks {n : Node} {place : Span} {spans : List Span}
    (hlaid : src.LaidOut n.unwrap place spans) :
    (src.template false n = .ok none ↔ ∃ c ∈ n.unwrap.substitutions, c.expression? = none) ∧
    ((∀ c ∈ n.unwrap.substitutions, c.expression? ≠ none) →
      ∃ raws, List.Forall₂ src.Encloses n.unwrap.substitutions raws) ∧
    (∀ raws, List.Forall₂ src.Encloses n.unwrap.substitutions raws →
      src.template false n = .ok (some (Text.ofChars
        (weave ((place.gaps spans).map src.textAt) (raws.map placeholder))))) ∧
    weave ((place.gaps spans).map src.textAt) (spans.map src.textAt) = src.textAt place ∧
    ((∃ t, src.template true n = .ok (some t)) ↔
      ∀ c ∈ n.unwrap.substitutions, ∃ e, c.expression? = some e ∧ e.kind = .identifier) ∧
    ((¬∃ t, src.template true n = .ok (some t)) → src.template true n = .ok none) ∧
    (∀ t, src.template true n = .ok (some t) → src.template false n = .ok (some t)) ∧
    ((∀ c ∈ n.unwrap.substitutions,
        ∃ raw, src.Encloses c raw ∧ src.charsOf c = .ok (placeholder raw)) →
      src.template false n = .ok (some (Text.ofChars (src.textAt place)))) := by
  have hlenient (raws) (hraws : List.Forall₂ src.Encloses n.unwrap.substitutions raws) :
      src.template false n = .ok (some (Text.ofChars
        (weave ((place.gaps spans).map src.textAt) (raws.map placeholder)))) := by
    refine hlaid.template_of_shown (fun c hc => ?_) hraws
    obtain ⟨raw, -, e, he, -⟩ := exists_of_forall₂ hraws.flip hc
    exact ⟨e, he, nofun⟩
  have hwhole : weave ((place.gaps spans).map src.textAt) (spans.map src.textAt) =
      src.textAt place := weave_gaps hlaid.within hlaid.ordered
  refine ⟨?_, hlaid.exists_encloses, hlenient, hwhole, ?_, fun hnot => ?_, fun t ht => ?_,
    fun hown => ?_⟩
  · rw [hlaid.template_eq_none_iff]
    simp [Node.shown_false_iff]
  · rw [hlaid.exists_template_iff]
    simp only [Node.shown_true_iff]
  · rw [hlaid.exists_template_iff] at hnot
    exact hlaid.template_of_not_shown (by simpa using hnot)
  · have hshown := hlaid.exists_template_iff.mp ⟨t, ht⟩
    obtain ⟨raws, hraws⟩ := hlaid.exists_encloses fun c hc =>
      Node.shown_false_iff.mp (hshown c hc).lenient
    rw [hlenient raws hraws, ← hlaid.template_of_shown hshown hraws, ht]
  · obtain ⟨raws, hraws⟩ := exists_forall₂ hown
    rw [hlenient raws (hraws.imp fun _ _ h => h.1),
      map_placeholder hlaid.measured (hraws.imp fun _ _ h => h.2), hwhole]

end Source

/-! The text `` `é${(x)}${y.z}` ``. -/
namespace Sample

def parenthesizedSubstitution : Node :=
  node none .templateSubstitution 3 9
    [token (.other "$\x7b") 3 5,
     node none .parenthesizedExpression 5 8
       [token (.other "(") 5 6, node none .identifier 6 7 [], token (.other ")") 7 8],
     token (.other "\x7d") 8 9]

def propertySubstitution : Node :=
  node none .templateSubstitution 9 15
    [token (.other "$\x7b") 9 11,
     node none .memberExpression 11 14
       [node (some .object) .identifier 11 12 [], token (.other ".") 12 13,
        node (some .property) .propertyIdentifier 13 14 []],
     token (.other "\x7d") 14 15]

def mixedTemplate : Node :=
  node none .templateString 0 16
    [token (.other "`") 0 1, node none (.other "string_fragment") 1 3 [],
     parenthesizedSubstitution, propertySubstitution, token (.other "`") 15 16]

def mixedText : List Char := "`é$\x7b(x)\x7d$\x7by.z\x7d`".toList

def mixedSource : Source := ⟨none, mixedText.toArray, .ofText mixedText, mixedTemplate⟩

end Sample

namespace Source

/-- Parentheses are left out, and a strict template takes no property. -/
theorem template_keeps_chunks_sample :
    Sample.mixedSource.LaidOut Sample.mixedTemplate.unwrap ⟨1, 14⟩ [⟨2, 8⟩, ⟨8, 14⟩] ∧
    Sample.mixedSource.template false Sample.mixedTemplate =
      .ok (some (Text.ofChars "é$\x7bx\x7d$\x7by.z\x7d".toList)) ∧
    Sample.mixedSource.template true Sample.mixedTemplate = .ok none := by
  have hencloses : List.Forall₂ Sample.mixedSource.Encloses
      Sample.mixedTemplate.unwrap.substitutions ["x".toList, "y.z".toList] :=
    .cons ⟨_, rfl, rfl⟩ (.cons ⟨_, rfl, rfl⟩ .nil)
  have hlaid : Sample.mixedSource.LaidOut Sample.mixedTemplate.unwrap ⟨1, 14⟩
      [⟨2, 8⟩, ⟨8, 14⟩] := by
    refine ⟨rfl, .cons rfl (.cons rfl .nil), fun c hc e he => ?_, ?_, by decide⟩
    · obtain ⟨raw, -, e', he', hraw⟩ := exists_of_forall₂ hencloses.flip hc
      rw [he] at he'
      cases he'
      exact ⟨raw, hraw⟩
    · simp [Span.Inside]
  obtain ⟨-, -, hlenient, -, hstrict, hnone, -⟩ := template_keeps_chunks hlaid
  refine ⟨hlaid, ?_, hnone fun ht => ?_⟩
  · rw [hlenient _ hencloses]
    rfl
  · obtain ⟨e, he, hkind⟩ := hstrict.mp ht Sample.propertySubstitution (.tail _ (.head _))
    cases he
    cases hkind

end Source
end SuiteOutline
