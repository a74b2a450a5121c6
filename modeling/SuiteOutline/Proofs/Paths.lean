import Mathlib.Data.List.Basic
import SuiteOutline.Files.Disk

/-! Paths by their parts, and what the parts lead to: each part is one step through a tree, and a path
is a walk. -/
namespace SuiteOutline

/-! Parts. -/

theorem pathParts_eq_splitOn (path : String) :
    pathParts path = (path.toList.splitOn '/').map String.ofList := by
  rw [pathParts]
  refine congrArg (List.map String.ofList) ?_
  induction path.toList with
  | nil => rfl
  | cons c cs ih =>
    rw [List.foldr_cons, ih, List.splitOn_cons_eq_if_modifyHead]
    by_cases hc : c = '/'
    · simp [hc]
    · simp only [if_neg hc, beq_eq_false_iff_ne.mpr hc, Bool.false_eq_true, if_false]
      cases hparts : cs.splitOn '/' with
      | nil => exact absurd hparts (List.splitOn_ne_nil '/' cs)
      | cons p ps => rfl

theorem pathParts_ne_nil (path : String) : pathParts path ≠ [] := by
  rw [pathParts_eq_splitOn]
  simp

theorem pathParts_append_slash (a b : String) :
    pathParts (a ++ "/" ++ b) = pathParts a ++ pathParts b := by
  have hchars : (a ++ "/" ++ b).toList = a.toList ++ '/' :: b.toList := by simp
  rw [pathParts_eq_splitOn, pathParts_eq_splitOn, pathParts_eq_splitOn, hchars,
    List.splitOn_append_cons_self, List.map_append]

theorem pathParts_of_not_mem {name : String} (h : '/' ∉ name.toList) : pathParts name = [name] := by
  rw [pathParts_eq_splitOn, List.splitOn_eq_singleton h]
  simp

/-- A path is told by its parts. -/
theorem pathParts_injective : Function.Injective pathParts := by
  intro a b hab
  rw [pathParts_eq_splitOn, pathParts_eq_splitOn] at hab
  have hlists : a.toList.splitOn '/' = b.toList.splitOn '/' :=
    List.map_injective_iff.mpr (fun _ _ h => String.ofList_injective h) hab
  have hjoined := congrArg (List.intercalate ['/']) hlists
  rw [List.intercalate_splitOn, List.intercalate_splitOn] at hjoined
  exact String.toList_injective hjoined

/-- Names without a slash are the parts of some path. -/
theorem exists_pathParts_eq {names : List String} (hne : names ≠ [])
    (h : ∀ name ∈ names, '/' ∉ name.toList) : ∃ path, pathParts path = names := by
  refine ⟨String.ofList (['/'].intercalate (names.map String.toList)), ?_⟩
  rw [pathParts_eq_splitOn, String.toList_ofList, List.splitOn_intercalate]
  · simp
  · simpa using h
  · simpa using hne

/-- The parts of a path, a slash at its end aside. -/
def stem (path : String) : List String :=
  if endsWith "/" path then (pathParts path).dropLast else pathParts path

theorem endsWith_slash_iff {path : String} :
    endsWith "/" path = true ↔ ∃ front, path = front ++ "/" := by
  rw [endsWith, List.isSuffixOf_iff_suffix]
  constructor
  · rintro ⟨front, hfront⟩
    exact ⟨String.ofList front, String.toList_injective (by simpa using hfront.symm)⟩
  · rintro ⟨front, rfl⟩
    exact ⟨front.toList, by simp⟩

/-- A script's name does not end in a slash. -/
theorem not_endsWith_slash {path : String}
    (h : (endsWith ".js" path || endsWith ".ts" path) = true) : endsWith "/" path = false := by
  refine Bool.eq_false_iff.mpr fun hslash => ?_
  obtain ⟨front, rfl⟩ := endsWith_slash_iff.mp hslash
  simp only [endsWith, Bool.or_eq_true, List.isSuffixOf_iff_suffix] at h
  rcases h with ⟨rest, hrest⟩ | ⟨rest, hrest⟩ <;> simpa using congrArg List.getLast? hrest

theorem pathParts_concat_slash (front : String) :
    pathParts (front ++ "/") = pathParts front ++ [""] := by
  have hempty : pathParts "" = [""] := pathParts_of_not_mem (by simp)
  rw [← hempty, ← pathParts_append_slash, String.append_empty]

theorem pathParts_eq_stem (path : String) :
    pathParts path = if endsWith "/" path then stem path ++ [""] else stem path := by
  unfold stem
  split
  case isTrue h =>
    obtain ⟨front, rfl⟩ := endsWith_slash_iff.mp h
    rw [pathParts_concat_slash, List.dropLast_concat]
  case isFalse => rfl

/-- Below a directory, the parts of a name follow those of the directory. -/
theorem pathParts_joinPath {directory : String} (h : directory ≠ "") (name : String) :
    pathParts (joinPath directory name) = stem directory ++ pathParts name := by
  rw [joinPath, stem]
  by_cases hslash : endsWith "/" directory = true
  · obtain ⟨front, rfl⟩ := endsWith_slash_iff.mp hslash
    rw [if_pos (by simp [hslash]), if_pos hslash, pathParts_concat_slash, List.dropLast_concat,
      pathParts_append_slash]
  · rw [if_neg (by simp [h, hslash]), if_neg hslash, pathParts_append_slash]

theorem beginsWith_joinPath {directory : String} (h : directory ≠ "") (name : String) :
    beginsWith "/" (joinPath directory name) = beginsWith "/" directory := by
  have hchars : ∃ rest, (joinPath directory name).toList = directory.toList ++ rest := by
    rw [joinPath]
    split
    · exact ⟨name.toList, by simp⟩
    · exact ⟨'/' :: name.toList, by simp⟩
  obtain ⟨rest, hrest⟩ := hchars
  rw [beginsWith, beginsWith, hrest]
  cases hdirectory : directory.toList with
  | nil => exact absurd (String.toList_eq_nil_iff.mp hdirectory) h
  | cons c cs => rfl

theorem joinPath_ne_empty {directory : String} (h : directory ≠ "") (name : String) :
    joinPath directory name ≠ "" := by
  unfold joinPath
  split <;> simp [h]

/-! Trees. -/

/-- A name that an entry of a directory can have. -/
structure IsEntryName (name : String) : Prop where
  ne_empty : name ≠ ""
  ne_point : name ≠ "."
  ne_points : name ≠ ".."
  no_slash : '/' ∉ name.toList

instance (name : String) : Decidable (IsEntryName name) :=
  decidable_of_iff (name ≠ "" ∧ name ≠ "." ∧ name ≠ ".." ∧ '/' ∉ name.toList)
    ⟨fun ⟨hempty, hpoint, hpoints, hslash⟩ => ⟨hempty, hpoint, hpoints, hslash⟩,
      fun h => ⟨h.ne_empty, h.ne_point, h.ne_points, h.no_slash⟩⟩

namespace FileTree

/-- In every directory the names are such as entries can have, and none is given twice. -/
inductive Proper : FileTree → Prop
  | file (content : FileContent) : Proper (file content)
  | device (content : Option FileContent) : Proper (device content)
  | directory {es : List (String × FileTree)} (nodup : (es.map (·.1)).Nodup)
      (names : ∀ e ∈ es, IsEntryName e.1) (below : ∀ e ∈ es, Proper e.2) : Proper (directory es)
  | link {outer : List FileTree} {target : FileTree} (around : ∀ t ∈ outer, Proper t)
      (there : Proper target) : Proper (link outer target)
  | deadLink : Proper deadLink

/-- What lies below the entries of a directory, by the names that lead there. -/
inductive Below : List (String × FileTree) → List String → FileTree → Prop
  | entry {es : List (String × FileTree)} {name : String} {t : FileTree} (h : (name, t) ∈ es) :
      Below es [name] t
  | deeper {es : List (String × FileTree)} {name : String} {names : List String}
      {t u : FileTree} (h : (name, u) ∈ es) (below : Below u.entries names t) :
      Below es (name :: names) t

/-- Names that lead to a script, none of them hidden. -/
def areScriptNames (names : List String) : Bool :=
  names.all (!isHidden ·) && names.getLast?.any (endsWith ".js")

theorem areScriptNames_singleton (name : String) :
    areScriptNames [name] = (!isHidden name && endsWith ".js" name) := by
  simp [areScriptNames]

theorem areScriptNames_cons {names : List String} (h : names ≠ []) (name : String) :
    areScriptNames (name :: names) = (!isHidden name && areScriptNames names) := by
  obtain ⟨last, hlast⟩ := Option.isSome_iff_exists.mp (List.getLast?_isSome.mpr h)
  simp [areScriptNames, List.getLast?_cons, hlast, Bool.and_assoc]

theorem Below.ne_nil {es : List (String × FileTree)} {names : List String} {t : FileTree}
    (h : Below es names t) : names ≠ [] := by
  cases h <;> exact List.cons_ne_nil _ _

theorem not_below_nil {names : List String} {t : FileTree} : ¬Below [] names t := by
  rintro (h | ⟨h, -⟩) <;> cases h

/-- What passes from a directory to its entries holds of all that lies below. -/
theorem Below.of_entries {P : FileTree → Prop}
    (hentry : ∀ {t u : FileTree} {name : String}, P t → (name, u) ∈ t.entries → P u)
    {t u : FileTree} {names : List String} (h : Below t.entries names u) (ht : P t) : P u := by
  generalize hes : t.entries = es at h
  induction h generalizing t with
  | entry h =>
    subst hes
    exact hentry ht h
  | deeper h _ ih =>
    subst hes
    exact ih (hentry ht h) rfl

theorem Proper.of_mem {t u : FileTree} {name : String} (ht : t.Proper)
    (h : (name, u) ∈ t.entries) : IsEntryName name ∧ u.Proper := by
  induction ht with
  | file | device | deadLink => cases h
  | directory _ hnames hbelow => exact ⟨hnames _ h, hbelow _ h⟩
  | link _ _ _ ih => exact ih h

theorem Proper.isEntryName_of_below {t u : FileTree} {names : List String} (ht : t.Proper)
    (h : Below t.entries names u) : ∀ name ∈ names, IsEntryName name := by
  generalize hes : t.entries = es at h
  induction h generalizing t with
  | entry h =>
    subst hes
    simpa using (ht.of_mem h).1
  | deeper h _ ih =>
    subst hes
    exact List.forall_mem_cons.mpr ⟨(ht.of_mem h).1, ih (ht.of_mem h).2 rfl⟩

theorem Proper.mem_scriptPaths {name path : String} {t : FileTree} (ht : t.Proper) :
    path ∈ scriptPaths name t ↔ isHidden name = false ∧
      ((path = name ∧ endsWith ".js" name = true) ∨
        ∃ inner ∈ allScriptPaths t.entries, path = name ++ "/" ++ inner) := by
  induction ht with
  | file | device | deadLink | directory =>
    by_cases hhidden : isHidden name = true <;> by_cases hjs : endsWith ".js" name = true <;>
      simp [scriptPaths, allScriptPaths, entries, hhidden, hjs, eq_comm]
  | link _ _ _ ih =>
    rw [scriptPaths, entries]
    exact ih

theorem mem_allScriptPaths {path : String} {es : List (String × FileTree)} :
    path ∈ allScriptPaths es ↔ ∃ e ∈ es, path ∈ scriptPaths e.1 e.2 := by
  induction es with
  | nil => simp [allScriptPaths]
  | cons e es ih => simp [allScriptPaths, ih]

/-- The scripts that are listed for a directory are all that lie below it and are not hidden. -/
theorem Proper.mem_allScriptPaths_iff {t : FileTree} (ht : t.Proper) {path : String} :
    path ∈ allScriptPaths t.entries ↔
      ∃ u, Below t.entries (pathParts path) u ∧ areScriptNames (pathParts path) = true := by
  induction ht generalizing path with
  | file | device | deadLink =>
    constructor
    · rintro ⟨⟩
    · rintro ⟨u, h, -⟩
      exact absurd h not_below_nil
  | link _ _ _ ih => exact ih
  | @directory es hnodup hnames hbelow ih =>
    have hname : ∀ e ∈ es, pathParts e.1 = [e.1] := fun e he =>
      pathParts_of_not_mem (hnames e he).no_slash
    rw [entries, mem_allScriptPaths]
    constructor
    · rintro ⟨e, he, hmem⟩
      obtain ⟨hvisible, ⟨rfl, hjs⟩ | ⟨inner, hinner, rfl⟩⟩ :=
        (hbelow e he).mem_scriptPaths.mp hmem
      · refine ⟨e.2, ?_, ?_⟩
        · rw [hname e he]
          exact .entry he
        · rw [hname e he, areScriptNames_singleton, hvisible, hjs]
          rfl
      · obtain ⟨u, hu, hscript⟩ := (ih e he).mp hinner
        refine ⟨u, ?_, ?_⟩
        · rw [pathParts_append_slash, hname e he]
          exact .deeper he hu
        · rw [pathParts_append_slash, hname e he, List.singleton_append,
            areScriptNames_cons hu.ne_nil, hvisible, hscript]
          rfl
    · rintro ⟨u, hu, hscript⟩
      generalize hparts : pathParts path = names at hu hscript
      cases hu with
      | @entry _ name _ h =>
        obtain rfl : path = name := pathParts_injective (hparts.trans (hname _ h).symm)
        rw [areScriptNames_singleton, Bool.and_eq_true, Bool.not_eq_true'] at hscript
        exact ⟨_, h, (hbelow _ h).mem_scriptPaths.mpr ⟨hscript.1, .inl ⟨rfl, hscript.2⟩⟩⟩
      | @deeper _ name names _ v h hu =>
        obtain ⟨inner, rfl⟩ := exists_pathParts_eq hu.ne_nil fun n hn =>
          ((hbelow _ h).isEntryName_of_below hu n hn).no_slash
        rw [areScriptNames_cons hu.ne_nil, Bool.and_eq_true, Bool.not_eq_true'] at hscript
        have hpath : path = name ++ "/" ++ inner := pathParts_injective <| by
          rw [hparts, pathParts_append_slash, hname _ h]
          rfl
        have hinner := (ih _ h).mpr ⟨u, hu, hscript.2⟩
        exact ⟨_, h, (hbelow _ h).mem_scriptPaths.mpr ⟨hscript.1, .inr ⟨inner, hinner, hpath⟩⟩⟩

end FileTree

end SuiteOutline
