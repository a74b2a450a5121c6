import SuiteOutline.Proofs.Listing

/-! The list for some paths is the union of the lists for each of them. A path that cannot be listed
stops the run, and the first one decides what is said. -/
namespace SuiteOutline

theorem find?_distinct {α : Type} [BEq α] [LawfulBEq α] (p : α → Bool) (l : List α) :
    (distinct l).find? p = l.find? p := by
  induction l with
  | nil => rfl
  | cons a l ih =>
    rw [distinct, List.find?_cons, List.find?_cons, ← ih]
    cases ha : p a with
    | true => rfl
    | false =>
      -- only copies of `a` are left out, and none of them is looked for
      have hkept : ∀ b, decide ((b != a) = true ∧ p b = true) = p b := by
        intro b
        by_cases hb : b = a
        · simp [hb, ha]
        · simp [hb]
      simp only [List.find?_filter, hkept]

namespace Disk

variable {d : Disk}

/-- Why a path cannot be listed. -/
inductive Faulty (d : Disk) (path : String) : PathFault → Prop
  | missing (h : d.find? path = none) : Faulty d path (.missing path)
  | unsupported {content : FileContent} (h : d.find? path = some (.file content))
      (js : endsWith ".js" path = false) (ts : endsWith ".ts" path = false) :
      Faulty d path (.unsupported path)
  | special {t : FileTree} (h : d.find? path = some t) (no_file : ∀ content, t ≠ .file content)
      (no_directory : ∀ es, t ≠ .directory es) : Faulty d path (.special path)

theorem expand_eq_error {path : String} {e : PathFault} :
    d.expand path = .error e ↔ d.Faulty path e := by
  constructor
  · intro h
    unfold expand at h
    split at h
    · next hfind =>
      cases h
      exact .missing hfind
    · next content hfind =>
      split at h
      case isTrue => cases h
      case isFalse hending =>
        have hending : endsWith ".js" path = false ∧ endsWith ".ts" path = false := by
          simpa using hending
        cases h
        exact .unsupported hfind hending.1 hending.2
    · cases h
    · next t hfile hdirectory hfind =>
      cases h
      exact .special hfind hfile hdirectory
  · intro h
    unfold expand
    cases h with
    | missing hfind => rw [hfind]
    | unsupported hfind hjs hts => simp [hfind, hjs, hts]
    | @special t hfind hfile hdirectory =>
      rw [hfind]
      cases t with
      | file content => exact absurd rfl (hfile content)
      | directory es => exact absurd rfl (hdirectory es)
      | device | link | deadLink => rfl

theorem exists_expand_iff {path : String} :
    (∃ own, d.expand path = .ok own) ↔ ∀ e, ¬d.Faulty path e := by
  simp only [← expand_eq_error]
  cases d.expand path <;> simp

/-! All paths. -/

/-- The first path that cannot be listed stops the run. -/
theorem expandAll_eq_error {paths : List String} {e : PathFault} :
    d.expandAll paths = .error e ↔
      ∃ path, paths.find? (fun p => !(d.expand p).isOk) = some path ∧ d.expand path = .error e := by
  induction paths with
  | nil => simp [expandAll]
  | cons path paths ih =>
    rw [expandAll, List.find?_cons]
    cases hown : d.expand path with
    | error e' => simp [hown, Except.isOk, Except.toBool, bind, Except.bind]
    | ok own =>
      have hrest : (d.expandAll paths >>= fun rest => pure (own ++ rest)) = .error e ↔
          d.expandAll paths = .error e := by
        cases d.expandAll paths <;> simp [bind, Except.bind, pure, Except.pure]
      exact hrest.trans ih

theorem exists_resolve_iff {paths : List String} :
    (∃ files, d.resolve paths = .ok files) ↔ ∀ path ∈ paths, ∃ own, d.expand path = .ok own := by
  constructor
  · rintro ⟨files, hfiles⟩
    exact (resolve_eq_ok_iff.mp hfiles).1
  · intro h
    have hall : ∃ all, d.expandAll (distinct paths) = .ok all :=
      exists_expandAll_iff.mpr fun path hpath => h path (mem_distinct.mp hpath)
    obtain ⟨all, hall⟩ := hall
    refine ⟨sortedNames all, ?_⟩
    rw [resolve, hall]
    rfl

/-- Neither the order of the paths nor how often they are given tells in a list. -/
theorem resolve_eq_ok_congr {paths paths' files : List String}
    (h : ∀ path, path ∈ paths ↔ path ∈ paths') :
    d.resolve paths = .ok files ↔ d.resolve paths' = .ok files := by
  simp only [resolve_eq_ok_iff, h]

/-- A run fails as its first faulty path does. -/
theorem resolve_eq_error {paths : List String} {e : PathFault} :
    d.resolve paths = .error e ↔
      ∃ before path after, paths = before ++ path :: after ∧
        (∀ p ∈ before, ∀ e, ¬d.Faulty p e) ∧ d.Faulty path e := by
  have hresolve : d.resolve paths = .error e ↔ d.expandAll (distinct paths) = .error e := by
    rw [resolve]
    cases d.expandAll (distinct paths) <;> simp [bind, Except.bind, pure, Except.pure]
  have hok : ∀ p, (d.expand p).isOk = true ↔ ∀ e, ¬d.Faulty p e := by
    intro p
    rw [← exists_expand_iff]
    cases d.expand p <;> simp [Except.isOk, Except.toBool]
  rw [hresolve, expandAll_eq_error, find?_distinct]
  simp only [List.find?_eq_some_iff_append, expand_eq_error, Bool.not_not, hok]
  constructor
  · rintro ⟨path, ⟨-, before, after, hsplit, hbefore⟩, hfaulty⟩
    exact ⟨before, path, after, hsplit, hbefore, hfaulty⟩
  · rintro ⟨before, path, after, hsplit, hbefore, hfaulty⟩
    have hbad : (!(d.expand path).isOk) = true := by
      rw [expand_eq_error.mpr hfaulty]
      rfl
    exact ⟨path, ⟨hbad, before, after, hsplit, hbefore⟩, hfaulty⟩

theorem exists_resolve_append_iff {paths more : List String} :
    (∃ files, d.resolve (paths ++ more) = .ok files) ↔
      (∃ files, d.resolve paths = .ok files) ∧ ∃ files, d.resolve more = .ok files := by
  simp only [exists_resolve_iff, List.forall_mem_append]

theorem mem_resolve_append {paths more files l l' : List String} (h : d.resolve paths = .ok l)
    (h' : d.resolve more = .ok l') (hfiles : d.resolve (paths ++ more) = .ok files)
    (listed : String) : listed ∈ files ↔ listed ∈ l ∨ listed ∈ l' := by
  obtain ⟨-, -, hmem⟩ := resolve_eq_ok_iff.mp h
  obtain ⟨-, -, hmem'⟩ := resolve_eq_ok_iff.mp h'
  obtain ⟨-, -, hboth⟩ := resolve_eq_ok_iff.mp hfiles
  rw [hboth, hmem, hmem']
  constructor
  · rintro ⟨path, hpath, hlisted⟩
    exact (List.mem_append.mp hpath).imp (fun hp => ⟨path, hp, hlisted⟩) fun hp =>
      ⟨path, hp, hlisted⟩
  · rintro (⟨path, hpath, hlisted⟩ | ⟨path, hpath, hlisted⟩)
    · exact ⟨path, List.mem_append_left more hpath, hlisted⟩
    · exact ⟨path, List.mem_append_right paths hpath, hlisted⟩

/-- A single path lists itself, or what lies below it. -/
theorem mem_resolve_singleton {path : String} {files : List String}
    (h : d.resolve [path] = .ok files) (listed : String) :
    listed ∈ files ↔
      (listed = path ∧ ∃ content, d.find? path = some (.file content)) ∨
      ∃ es, d.find? path = some (.directory es) ∧
        ∃ inner ∈ FileTree.allScriptPaths es, listed = joinPath path inner := by
  obtain ⟨hall, -, hmem⟩ := resolve_eq_ok_iff.mp h
  obtain ⟨own, hown⟩ := hall path List.mem_cons_self
  have hlisted : listed ∈ files ↔ listed ∈ own := by
    rw [hmem]
    simp [hown]
  rw [hlisted]
  obtain ⟨content, hfind, -, rfl⟩ | ⟨es, hfind, rfl⟩ := expand_cases hown
  · simp [hfind]
  · simp [hfind, eq_comm]

/-- Paths that were given before change nothing, not even what is said of a faulty one. -/
theorem resolve_append_of_subset {paths more : List String} (h : ∀ path ∈ more, path ∈ paths) :
    d.resolve (paths ++ more) = d.resolve paths := by
  cases hpaths : d.resolve paths with
  | ok files =>
    have hmem : ∀ path, path ∈ paths ++ more ↔ path ∈ paths := by
      intro path
      rw [List.mem_append]
      exact ⟨fun hpath => hpath.elim id (h path), .inl⟩
    exact (resolve_eq_ok_congr hmem).mpr hpaths
  | error e =>
    obtain ⟨before, path, after, rfl, hbefore, hfaulty⟩ := resolve_eq_error.mp hpaths
    refine resolve_eq_error.mpr ⟨before, path, after ++ more, ?_, hbefore, hfaulty⟩
    rw [List.append_assoc, List.cons_append]

/-- Listing is a union. Two lists of paths can be listed together if each of them can, and then all
that is in either list is listed once, in ascending order; a single path lists itself or what lies
below it. Other orders of the paths, and paths given again, change nothing. A run that fails tells
the first path that is missing, a file that is no script, or neither a file nor a directory. -/
theorem resolve_is_union (d : Disk) :
    (∀ paths more, (∃ files, d.resolve (paths ++ more) = .ok files) ↔
      (∃ files, d.resolve paths = .ok files) ∧ ∃ files, d.resolve more = .ok files) ∧
    (∀ paths more l l' files, d.resolve paths = .ok l → d.resolve more = .ok l' →
      d.resolve (paths ++ more) = .ok files →
      files.Pairwise (· < ·) ∧ ∀ listed, listed ∈ files ↔ listed ∈ l ∨ listed ∈ l') ∧
    (∀ path files, d.resolve [path] = .ok files → ∀ listed, listed ∈ files ↔
      (listed = path ∧ ∃ content, d.find? path = some (.file content)) ∨
      ∃ es, d.find? path = some (.directory es) ∧
        ∃ inner ∈ FileTree.allScriptPaths es, listed = joinPath path inner) ∧
    (∀ paths paths' files, (∀ path, path ∈ paths ↔ path ∈ paths') →
      (d.resolve paths = .ok files ↔ d.resolve paths' = .ok files)) ∧
    (∀ paths more, (∀ path ∈ more, path ∈ paths) → d.resolve (paths ++ more) = d.resolve paths) ∧
    ∀ paths e, d.resolve paths = .error e ↔ ∃ before path after, paths = before ++ path :: after ∧
      (∀ p ∈ before, ∀ e, ¬d.Faulty p e) ∧ d.Faulty path e := by
  refine ⟨fun paths more => exists_resolve_append_iff, ?_, ?_, ?_, ?_,
    fun paths e => resolve_eq_error⟩
  · intro paths more l l' files h h' hfiles
    exact ⟨(resolve_eq_ok_iff.mp hfiles).2.1, mem_resolve_append h h' hfiles⟩
  · intro path files h
    exact mem_resolve_singleton h
  · intro paths paths' files h
    exact resolve_eq_ok_congr h
  · intro paths more h
    exact resolve_append_of_subset h

/-- A directory and a file in it are listed together; of two faulty paths the first is told. -/
theorem resolve_is_union_sample :
    (∃ files, Sample.misnamed.resolve (["."] ++ ["a.js"]) = .ok files ∧
      ∀ listed, listed ∈ files ↔ listed ∈ ["./a.js", "./b.js"] ∨ listed ∈ ["a.js"]) ∧
    Sample.misnamed.resolve (["a.js", "c.js", "d.js"] ++ ["a.js"]) = .error (.missing "c.js") := by
  have hfile : Sample.misnamed.resolve ["a.js"] = .ok ["a.js"] := by decide
  obtain ⟨hboth, hunion, -, -, hagain, hfirst⟩ := resolve_is_union Sample.misnamed
  constructor
  · obtain ⟨files, hfiles⟩ :=
      (hboth ["."] ["a.js"]).mpr ⟨⟨_, Sample.resolve_misnamed⟩, ⟨_, hfile⟩⟩
    exact ⟨files, hfiles, (hunion _ _ _ _ _ Sample.resolve_misnamed hfile hfiles).2⟩
  · have hgood : ∀ p ∈ ["a.js"], ∀ e, ¬Sample.misnamed.Faulty p e := by
      intro p hp
      obtain rfl := List.mem_singleton.mp hp
      exact exists_expand_iff.mp ⟨["a.js"], by decide⟩
    rw [hagain _ _ (by simp)]
    exact (hfirst _ _).mpr ⟨["a.js"], "c.js", ["d.js"], rfl, hgood, .missing (by decide)⟩

end Disk
end SuiteOutline
