import SuiteOutline.Proofs.Listing

/-! Files by their places in a tree without links. A path leads to the place that its parts spell, and
what is listed twice was spelled in two ways. -/
namespace SuiteOutline

namespace FileTree

/-- What the names lead to, each an entry of the one before. -/
def at? (t : FileTree) (names : List String) : Option FileTree := names.foldlM child? t

/-- No entry of a directory is a link. -/
inductive Linkless : FileTree → Prop
  | file (content : FileContent) : Linkless (file content)
  | device (content : Option FileContent) : Linkless (device content)
  | directory {es : List (String × FileTree)} (below : ∀ e ∈ es, Linkless e.2) :
      Linkless (directory es)

theorem Linkless.of_mem {t u : FileTree} {name : String} (ht : t.Linkless)
    (h : (name, u) ∈ t.entries) : u.Linkless := by
  cases ht with
  | file | device => cases h
  | directory hbelow => exact hbelow _ h

theorem Linkless.of_child? {t u : FileTree} {name : String} (ht : t.Linkless)
    (h : t.child? name = some u) : u.Linkless := by
  obtain ⟨front, back, hentries, -⟩ := List.lookup_eq_some_iff.mp h
  exact ht.of_mem (hentries ▸ List.mem_append_right front List.mem_cons_self)

theorem Linkless.of_below {t u : FileTree} {names : List String} (ht : t.Linkless)
    (h : Below t.entries names u) : u.Linkless :=
  h.of_entries (fun ht hmem => ht.of_mem hmem) ht

theorem Linkless.target?_eq {t : FileTree} (ht : t.Linkless) : t.target? = some t := by
  cases ht <;> rfl

/-- Without links one arrives where the name stands. -/
theorem Linkless.arrive?_eq {t : FileTree} (ht : t.Linkless) (outer : List FileTree) :
    t.arrive? outer = some ⟨outer, t⟩ := by
  cases ht <;> rfl

end FileTree

namespace Spot

/-- A place in the tree: the names that lead there from the outermost directory, with the directories
that they pass around it. -/
inductive At (root : FileTree) : List String → Spot → Prop
  | root : At root [] ⟨[], root⟩
  | child {names : List String} {s : Spot} {name : String} {t : FileTree} (h : At root names s)
      (hchild : s.here.child? name = some t) : At root (names ++ [name]) ⟨s.here :: s.outer, t⟩

variable {root : FileTree} {names : List String} {s e : Spot}

theorem At.at?_eq (h : At root names s) : root.at? names = some s.here := by
  induction h with
  | root => rfl
  | child _ hchild ih =>
    rw [FileTree.at?] at ih ⊢
    rw [List.foldlM_append, ih]
    simpa using hchild

theorem At.getLastD_outer (h : At root names s) : s.outer.getLastD s.here = root := by
  induction h with
  | root => rfl
  | child _ _ ih => rw [List.getLastD_cons, ih]

theorem At.proper (h : At root names s) (hroot : root.Proper) : s.Proper := by
  induction h with
  | root => exact ⟨hroot, by simp⟩
  | child _ hchild ih =>
    have hmem := ih.here.lookup_eq_some_iff.mp hchild
    exact ⟨(ih.here.of_mem hmem).2, List.forall_mem_cons.mpr ⟨ih.here, ih.outer⟩⟩

theorem At.linkless (h : At root names s) (hroot : root.Linkless) : s.here.Linkless := by
  induction h with
  | root => exact hroot
  | child _ hchild ih => exact ih.of_child? hchild

theorem Step.at_advance {part : String} (hroot : root.Linkless) (h : Step s part e)
    (hs : At root names s) : At root (advance names part) e := by
  unfold advance
  cases h with
  | stay hpart => rwa [if_pos (by simpa using hpart)]
  | top hpart =>
    subst hpart
    cases hs
    exact .root
  | up hpart harrives =>
    subst hpart
    cases hs with
    | child h hchild =>
      rw [(h.linkless hroot).arrive?_eq] at harrives
      cases harrives
      rw [if_neg (by decide), if_pos rfl, List.dropLast_concat]
      exact h
  | down hempty hpoint hpoints hlookup harrives =>
    rw [((hs.linkless hroot).of_child? hlookup).arrive?_eq] at harrives
    cases harrives
    rw [if_neg (by simp [hempty, hpoint]), if_neg hpoints]
    exact .child hs hlookup

/-- The parts of a path lead to the place that they spell. -/
theorem At.foldl_advance {parts : List String} (hroot : root.Linkless) (hs : At root names s)
    (h : s.follow? parts = some e) : At root (parts.foldl advance names) e := by
  induction parts generalizing s names with
  | nil =>
    cases h
    exact hs
  | cons part parts ih =>
    obtain ⟨m, hstep, hrest⟩ := Option.bind_eq_some_iff.mp h
    exact ih (Step.at_advance hroot (.of_step? hstep) hs) hrest

end Spot

theorem foldl_advance_of_isEntryName {names : List String} (h : ∀ name ∈ names, IsEntryName name)
    (done : List String) : names.foldl advance done = done ++ names := by
  induction names generalizing done with
  | nil => simp
  | cons name names ih =>
    obtain ⟨hname, hnames⟩ := List.forall_mem_cons.mp h
    have hadvance : advance done name = done ++ [name] := by
      rw [advance, if_neg (by simp [hname.ne_empty, hname.ne_point]), if_neg hname.ne_points]
    rw [List.foldl_cons, hadvance, ih hnames, List.append_assoc, List.singleton_append]

namespace Disk

/-- The working directory and those around it are one tree, with the working directory at `home`. -/
def StandsIn (d : Disk) (root : FileTree) (home : List String) : Prop :=
  Spot.At root home ⟨d.outer, d.work⟩

/-- The place that a path spells. -/
def place (home : List String) (path : String) : List String :=
  (pathParts path).foldl advance (if beginsWith "/" path then [] else home)

variable {d : Disk} {root : FileTree} {home : List String}

theorem StandsIn.proper (hd : d.StandsIn root home) (hroot : root.Proper) : d.Proper := by
  obtain ⟨hwork, houter⟩ := Spot.At.proper hd hroot
  exact ⟨hwork, houter⟩

theorem StandsIn.at_start (hd : d.StandsIn root home) (path : String) :
    Spot.At root (if beginsWith "/" path then [] else home) (d.start path) := by
  unfold start
  split
  case isTrue =>
    have hlast : d.root = root := Spot.At.getLastD_outer hd
    rw [hlast]
    exact .root
  case isFalse => exact hd

/-- What a path leads to is what lies at its place. -/
theorem StandsIn.at?_place (hd : d.StandsIn root home) (hroot : root.Linkless) {path : String}
    {t : FileTree} (h : d.find? path = some t) : root.at? (place home path) = some t := by
  obtain ⟨-, outer, hfollow⟩ := find?_eq_some_iff.mp h
  exact ((hd.at_start path).foldl_advance hroot hfollow).at?_eq

theorem StandsIn.linkless_of_find? (hd : d.StandsIn root home) (hroot : root.Linkless)
    {path : String} {t : FileTree} (h : d.find? path = some t) : t.Linkless := by
  obtain ⟨-, outer, hfollow⟩ := find?_eq_some_iff.mp h
  exact ((hd.at_start path).foldl_advance hroot hfollow).linkless hroot

/-- Without links, what is given to be listed is there. -/
theorem Gives.target?_eq (hd : d.StandsIn root home) (hroot : root.Linkless) {path : String}
    {names : List String} {t : FileTree} (h : d.Gives path names t) : t.target? = some t := by
  cases h with
  | itself => rfl
  | below h hbelow => exact ((hd.linkless_of_find? hroot h).of_below hbelow).target?_eq

theorem foldl_advance_stem (path : String) (done : List String) :
    (stem path).foldl advance done = (pathParts path).foldl advance done := by
  rw [pathParts_eq_stem]
  split
  case isTrue => rw [List.foldl_append]; rfl
  case isFalse => rfl

theorem Gives.beginsWith_eq (hd : d.Proper) {path listed : String} {names : List String}
    {t : FileTree} (h : d.Gives path names t) (hlisted : pathParts listed = stem path ++ names) :
    beginsWith "/" listed = beginsWith "/" path := by
  obtain ⟨rfl, -⟩ | ⟨es, inner, hfind, -, rfl⟩ := h.listed_cases hd hlisted
  · rfl
  · exact beginsWith_joinPath (find?_eq_some_iff.mp hfind).1 inner

theorem Gives.isEntryName (hd : d.Proper) {path : String} {names : List String}
    {t : FileTree} (h : d.Gives path names t) : ∀ name ∈ names, IsEntryName name := by
  cases h with
  | itself => simp
  | below h hbelow => exact (hd.of_find? h).isEntryName_of_below hbelow

/-- The place of what is listed is below that of its path. -/
theorem Gives.place_eq (hd : d.Proper) {path listed : String} {names : List String}
    {t : FileTree} (h : d.Gives path names t) (hlisted : pathParts listed = stem path ++ names) :
    place home listed = place home path ++ names := by
  rw [place, place, h.beginsWith_eq hd hlisted, hlisted, List.foldl_append, foldl_advance_stem,
    foldl_advance_of_isEntryName (h.isEntryName hd)]

/-- A path whose parts are names of entries, a slash at its end aside. -/
def IsPlain (path : String) : Prop := ∀ part ∈ stem path, IsEntryName part

theorem empty_mem_stem {path : String} (h : beginsWith "/" path = true) : "" ∈ stem path := by
  rw [beginsWith, List.isPrefixOf_iff_prefix] at h
  obtain ⟨rest, hrest⟩ := h
  have hpath : path = "" ++ "/" ++ String.ofList rest :=
    String.toList_injective (by simpa using hrest.symm)
  have hparts : pathParts path = "" :: pathParts (String.ofList rest) := by
    have hempty : pathParts "" = [""] := pathParts_of_not_mem (by simp)
    rw [hpath, pathParts_append_slash, hempty, List.singleton_append]
  unfold stem
  split
  case isTrue => rw [hparts, List.dropLast_cons_of_ne_nil (pathParts_ne_nil _)]; simp
  case isFalse => simp [hparts]

theorem place_of_isPlain {path : String} (h : IsPlain path) :
    place home path = home ++ stem path := by
  have hrelative : beginsWith "/" path = false :=
    Bool.eq_false_iff.mpr fun habsolute => (h "" (empty_mem_stem habsolute)).ne_empty rfl
  rw [place, hrelative, ← foldl_advance_stem, foldl_advance_of_isEntryName h]
  rfl

/-- The first path lies on a way down from the other, but is not spelled as going on from there, and
both give something at one place to be listed. -/
def SpelledApart (d : Disk) (home : List String) (path other : String) : Prop :=
  ∃ way names t u, d.Gives path names t ∧ d.Gives other (way ++ names) u ∧
    place home path = place home other ++ way ∧ stem path ≠ stem other ++ way

/-- Of two ways to one place, one goes on where the other ends. -/
theorem spelledApart_of_place_eq (hd : d.Proper) {path other listed again : String}
    {names names' : List String} {t u : FileTree} (h : d.Gives path names t)
    (h' : d.Gives other names' u) (hlisted : pathParts listed = stem path ++ names)
    (hagain : pathParts again = stem other ++ names')
    (hplace : place home listed = place home again) (hne : listed ≠ again) :
    SpelledApart d home path other ∨ SpelledApart d home other path := by
  rw [h.place_eq hd hlisted, h'.place_eq hd hagain] at hplace
  have hparts : stem path ++ names ≠ stem other ++ names' := by
    rw [← hlisted, ← hagain]
    exact fun heq => hne (pathParts_injective heq)
  obtain ⟨way, hway, rfl⟩ | ⟨way, hway, rfl⟩ := List.append_eq_append_iff.mp hplace
  · refine .inr ⟨way, names', u, t, h', h, hway, fun hstem => hparts ?_⟩
    rw [hstem, List.append_assoc]
  · refine .inl ⟨way, names, t, u, h, h', hway, fun hstem => hparts ?_⟩
    rw [hstem, List.append_assoc]

/-- A list holds each path once, and two of its paths lead to one place just if two paths that were
given spell the way there apart. Paths that are plain never do. -/
theorem listed_twice_iff (hd : d.StandsIn root home) (hroot : root.Proper)
    (hlinks : root.Linkless) {paths files : List String} (h : d.resolve paths = .ok files) :
    files.Pairwise (· < ·) ∧
    (∀ listed ∈ files, ∃ t, d.find? listed = some t ∧ root.at? (place home listed) = some t) ∧
    ((∃ listed ∈ files, ∃ again ∈ files, listed ≠ again ∧
        place home listed = place home again) ↔
      ∃ path ∈ paths, ∃ other ∈ paths, SpelledApart d home path other) ∧
    ((∀ path ∈ paths, IsPlain path) → ∀ listed ∈ files, ∀ again ∈ files,
      place home listed = place home again → listed = again) := by
  have hproper := hd.proper hroot
  obtain ⟨hsorted, hmem⟩ := resolve_eq_ok hproper h
  have htwice : (∃ listed ∈ files, ∃ again ∈ files, listed ≠ again ∧
        place home listed = place home again) ↔
      ∃ path ∈ paths, ∃ other ∈ paths, SpelledApart d home path other := by
    constructor
    · rintro ⟨listed, hlisted, again, hagain, hne, hplace⟩
      obtain ⟨path, hpath, names, t, hgives, hparts⟩ := (hmem listed).mp hlisted
      obtain ⟨other, hother, names', u, hgives', hparts'⟩ := (hmem again).mp hagain
      obtain hapart | hapart :=
        spelledApart_of_place_eq hproper hgives hgives' hparts hparts' hplace hne
      · exact ⟨path, hpath, other, hother, hapart⟩
      · exact ⟨other, hother, path, hpath, hapart⟩
    · rintro ⟨path, hpath, other, hother, way, names, t, u, hgives, hgives', hplace, hstem⟩
      obtain ⟨listed, hlisted⟩ := hgives.exists_listed hproper
      obtain ⟨again, hagain⟩ := hgives'.exists_listed hproper
      refine ⟨listed, (hmem listed).mpr ⟨path, hpath, names, t, hgives, hlisted⟩,
        again, (hmem again).mpr ⟨other, hother, _, u, hgives', hagain⟩, ?_, ?_⟩
      · rintro rfl
        rw [hlisted, ← List.append_assoc] at hagain
        exact hstem (List.append_cancel_right hagain)
      · rw [hgives.place_eq hproper hlisted, hgives'.place_eq hproper hagain, hplace,
          List.append_assoc]
  refine ⟨hsorted, fun listed hlisted => ?_, htwice, fun hplain listed hlisted again hagain => ?_⟩
  · obtain ⟨path, -, names, t, hgives, hparts⟩ := (hmem listed).mp hlisted
    have hfind : d.find? listed = some t :=
      (hgives.find?_eq hproper hparts).trans (hgives.target?_eq hd hlinks)
    exact ⟨t, hfind, hd.at?_place hlinks hfind⟩
  · intro hplace
    by_contra hne
    obtain ⟨path, hpath, other, hother, way, names, t, u, -, -, hway, hstem⟩ :=
      htwice.mp ⟨listed, hlisted, again, hagain, hne, hplace⟩
    rw [place_of_isPlain (hplain path hpath), place_of_isPlain (hplain other hother),
      List.append_assoc] at hway
    exact hstem (List.append_cancel_left hway)

namespace Sample

def script : FileTree := .file ⟨.empty, .blank⟩

/-- A tree with a script two levels below the working directory. -/
def nested : FileTree :=
  .directory [("work", .directory [("e2e", .directory [("a.js", script)])])]

def nestedDisk : Disk := ⟨"/work", .directory [("e2e", .directory [("a.js", script)])], [nested]⟩

theorem standsIn_nested : nestedDisk.StandsIn nested ["work"] :=
  .child .root rfl

theorem proper_single {name : String} {t : FileTree} (hname : IsEntryName name) (ht : t.Proper) :
    (FileTree.directory [(name, t)]).Proper :=
  .directory (by simp) (by simpa using hname) (by simpa using ht)

theorem proper_nested : nested.Proper := by
  have hscript : script.Proper := .file _
  have hfolder : (FileTree.directory [("a.js", script)]).Proper :=
    proper_single (by decide) hscript
  exact proper_single (by decide) (proper_single (by decide) hfolder)

theorem linkless_single {name : String} {t : FileTree} (ht : t.Linkless) :
    (FileTree.directory [(name, t)]).Linkless :=
  .directory (by simpa using ht)

theorem linkless_nested : nested.Linkless :=
  linkless_single (linkless_single (linkless_single (.file _)))

theorem resolve_nested :
    nestedDisk.resolve ["e2e", "."] = .ok ["./e2e/a.js", "e2e/a.js"] := by decide

end Sample

/-- A directory and the working directory around it give one file under two paths. -/
theorem listed_twice_iff_sample :
    Sample.nestedDisk.resolve ["e2e", "."] = .ok ["./e2e/a.js", "e2e/a.js"] ∧
      ∃ path ∈ ["e2e", "."], ∃ other ∈ ["e2e", "."],
        SpelledApart Sample.nestedDisk ["work"] path other := by
  obtain ⟨-, -, htwice, -⟩ :=
    listed_twice_iff Sample.standsIn_nested Sample.proper_nested Sample.linkless_nested
      Sample.resolve_nested
  refine ⟨Sample.resolve_nested, htwice.mp ?_⟩
  exact ⟨"./e2e/a.js", by simp, "e2e/a.js", by simp, by decide, by decide⟩

/-- Not every file is listed once. -/
theorem not_forall_listed_once :
    ¬∀ (d : Disk) (root : FileTree) (home paths files : List String), d.StandsIn root home →
      root.Proper → root.Linkless → d.resolve paths = .ok files →
      ∀ listed ∈ files, ∀ again ∈ files,
        place home listed = place home again → listed = again := by
  intro hall
  have heq := hall _ _ _ _ _ Sample.standsIn_nested Sample.proper_nested Sample.linkless_nested
    Sample.resolve_nested "./e2e/a.js" (by simp) "e2e/a.js" (by simp) (by decide)
  exact absurd heq (by decide)

end Disk
end SuiteOutline
