import SuiteOutline.Proofs.Paths
import SuiteOutline.Proofs.Schedule
import SuiteOutline.Tree.Preorder

/-! The files that paths stand for: what is listed, and what is there to be read. -/
namespace SuiteOutline

open FileTree (Below areScriptNames)

namespace FileTree

/-- What is there in the end, when links are followed. -/
def target? : FileTree → Option FileTree
  | file content => some (file content)
  | device content => some (device content)
  | directory es => some (directory es)
  | link _ target => target.target?
  | deadLink => none

namespace Proper

variable {t : FileTree}

theorem nodup_names (ht : t.Proper) : (t.entries.map (·.1)).Nodup := by
  induction ht with
  | file | device | deadLink => exact List.nodup_nil
  | directory hnodup => exact hnodup
  | link _ _ _ ih => exact ih

theorem lookup_eq_some_iff (ht : t.Proper) {name : String} {u : FileTree} :
    t.entries.lookup name = some u ↔ (name, u) ∈ t.entries :=
  lookup_eq_some_iff_of_nodup ht.nodup_names

/-- What a directory holds makes a directory, also where a link leads to it. -/
theorem directory_entries (ht : t.Proper) : (FileTree.directory t.entries).Proper :=
  .directory ht.nodup_names (fun _ he => (ht.of_mem he).1) fun _ he => (ht.of_mem he).2

theorem map_here_arrive? (ht : t.Proper) (outer : List FileTree) :
    (t.arrive? outer).map (·.here) = t.target? := by
  induction ht generalizing outer with
  | file | device | directory | deadLink => rfl
  | link _ _ _ ih => exact ih _

/-- Where something is held, one arrives in a directory. -/
theorem exists_arrive?_eq (ht : t.Proper) (h : t.entries ≠ []) (outer : List FileTree) :
    ∃ outer', t.arrive? outer = some ⟨outer', FileTree.directory t.entries⟩ := by
  induction ht generalizing outer with
  | file | device | deadLink => exact absurd rfl h
  | directory => exact ⟨outer, rfl⟩
  | link _ _ _ ih => exact ih h _

theorem of_below {names : List String} {u : FileTree} (ht : t.Proper)
    (h : Below t.entries names u) : u.Proper :=
  h.of_entries (fun ht hmem => (ht.of_mem hmem).2) ht

theorem bind_content?_target? (ht : t.Proper) : t.target?.bind content? = t.content? := by
  induction ht with
  | file | device | directory | deadLink => rfl
  | link _ _ _ ih => exact ih

end Proper

end FileTree

/-! Steps. -/

namespace Spot

/-- What a part of a path does. -/
inductive Step : Spot → String → Spot → Prop
  | stay {outer : List FileTree} {es : List (String × FileTree)} {part : String}
      (h : part = "" ∨ part = ".") : Step ⟨outer, .directory es⟩ part ⟨outer, .directory es⟩
  | top {es : List (String × FileTree)} {part : String} (h : part = "..") :
      Step ⟨[], .directory es⟩ part ⟨[], .directory es⟩
  | up {t : FileTree} {outer : List FileTree} {es : List (String × FileTree)} {part : String}
      {e : Spot} (h : part = "..") (arrives : t.arrive? outer = some e) :
      Step ⟨t :: outer, .directory es⟩ part e
  | down {outer : List FileTree} {es : List (String × FileTree)} {name : String} {t : FileTree}
      {e : Spot} (ne_empty : name ≠ "") (ne_point : name ≠ ".") (ne_points : name ≠ "..")
      (h : es.lookup name = some t) (arrives : t.arrive? (.directory es :: outer) = some e) :
      Step ⟨outer, .directory es⟩ name e

theorem step?_directory (outer : List FileTree) (es : List (String × FileTree)) (part : String) :
    step? ⟨outer, .directory es⟩ part =
      if part = "" || part = "." then some ⟨outer, .directory es⟩
      else if part = ".." then
        match outer with
        | [] => some ⟨outer, .directory es⟩
        | t :: outer => t.arrive? outer
      else (es.lookup part).bind (FileTree.arrive? (.directory es :: outer)) := by
  cases outer <;> rfl

theorem Step.of_step? {s e : Spot} {part : String} (h : s.step? part = some e) : Step s part e := by
  obtain ⟨outer, here⟩ := s
  cases here with
  | file | device | link | deadLink => cases h
  | directory es =>
    rw [step?_directory] at h
    split at h
    case isTrue hstay =>
      cases h
      exact .stay (by simpa using hstay)
    case isFalse hstay =>
      split at h
      case isTrue hup =>
        cases outer with
        | nil =>
          cases h
          exact .top hup
        | cons t outer => exact .up hup h
      case isFalse hup =>
        have hname : part ≠ "" ∧ part ≠ "." := by simpa using hstay
        obtain ⟨t, hlookup, harrives⟩ := Option.bind_eq_some_iff.mp h
        exact .down hname.1 hname.2 hup hlookup harrives

theorem follow?_cons (s : Spot) (part : String) (parts : List String) :
    s.follow? (part :: parts) = (s.step? part).bind (·.follow? parts) := rfl

theorem follow?_append (s : Spot) (front back : List String) :
    s.follow? (front ++ back) = (s.follow? front).bind (·.follow? back) :=
  List.foldlM_append

/-- An empty part changes nothing. -/
theorem eq_of_follow?_empty {s e : Spot} (h : s.follow? [""] = some e) : s = e := by
  obtain ⟨m, hstep, hrest⟩ := Option.bind_eq_some_iff.mp h
  cases hrest
  cases Step.of_step? hstep with
  | stay => rfl
  | top hup | up hup => exact absurd hup (by decide)
  | down hempty => exact absurd rfl hempty

/-- All trees of a place are proper. -/
structure Proper (s : Spot) : Prop where
  here : s.here.Proper
  outer : ∀ t ∈ s.outer, t.Proper

theorem Proper.of_arrive? {t : FileTree} {outer : List FileTree} {e : Spot} (ht : t.Proper)
    (houter : ∀ u ∈ outer, u.Proper) (h : t.arrive? outer = some e) : e.Proper := by
  induction ht generalizing outer with
  | deadLink => cases h
  | link haround _ _ ih => exact ih haround h
  | file content =>
    cases h
    exact ⟨.file content, houter⟩
  | device content =>
    cases h
    exact ⟨.device content, houter⟩
  | directory hnodup hnames hbelow =>
    cases h
    exact ⟨.directory hnodup hnames hbelow, houter⟩

theorem Step.proper {s e : Spot} {part : String} (h : Step s part e) (hs : s.Proper) :
    e.Proper := by
  obtain ⟨hhere, houter⟩ := hs
  cases h with
  | stay | top => exact ⟨hhere, houter⟩
  | up _ harrives =>
    obtain ⟨ht, houter⟩ := List.forall_mem_cons.mp houter
    exact .of_arrive? ht houter harrives
  | down _ _ _ hlookup harrives =>
    exact .of_arrive? (hhere.of_mem (hhere.lookup_eq_some_iff.mp hlookup)).2
      (List.forall_mem_cons.mpr ⟨hhere, houter⟩) harrives

/-- What each step keeps holds where the parts of a path lead. -/
theorem of_follow? {P : Spot → Prop} (hstep : ∀ s part e, Step s part e → P s → P e) {s e : Spot}
    {parts : List String} (h : s.follow? parts = some e) (hs : P s) : P e := by
  induction parts generalizing s with
  | nil =>
    cases h
    exact hs
  | cons part parts ih =>
    obtain ⟨m, hm, hrest⟩ := Option.bind_eq_some_iff.mp h
    exact ih hrest (hstep s part m (.of_step? hm) hs)

theorem Proper.of_follow? {s e : Spot} {parts : List String} (h : s.follow? parts = some e)
    (hs : s.Proper) : e.Proper :=
  Spot.of_follow? (fun _ _ _ hstep hs => hstep.proper hs) h hs

theorem step?_of_mem {es : List (String × FileTree)} {name : String} {u : FileTree}
    (hes : (FileTree.directory es).Proper) (h : (name, u) ∈ es) (outer : List FileTree) :
    step? ⟨outer, .directory es⟩ name = u.arrive? (.directory es :: outer) := by
  obtain ⟨hempty, hpoint, hpoints, -⟩ := (hes.of_mem h).1
  have hlookup : es.lookup name = some u := hes.lookup_eq_some_iff.mpr h
  rw [step?_directory, if_neg (by simp [hempty, hpoint]), if_neg hpoints, hlookup]
  rfl

/-- The names of what lies below a directory lead there. -/
theorem map_here_follow?_of_below {es : List (String × FileTree)} {names : List String}
    {t : FileTree} (hes : (FileTree.directory es).Proper) (h : Below es names t)
    (outer : List FileTree) :
    (follow? ⟨outer, .directory es⟩ names).map (·.here) = t.target? := by
  induction h generalizing outer with
  | @entry es name t hmem =>
    rw [follow?_cons, step?_of_mem hes hmem, ← (hes.of_mem hmem).2.map_here_arrive?]
    cases t.arrive? (.directory es :: outer) <;> rfl
  | @deeper es name names t u hmem hbelow ih =>
    have hu := (hes.of_mem hmem).2
    have hheld : u.entries ≠ [] := fun hnil => FileTree.not_below_nil (hnil ▸ hbelow)
    obtain ⟨outer', harrive⟩ := hu.exists_arrive?_eq hheld (.directory es :: outer)
    rw [follow?_cons, step?_of_mem hes hmem, harrive]
    exact ih hu.directory_entries outer'

end Spot

/-! What is listed. -/

namespace Disk

/-- All trees of a disk are proper. -/
structure Proper (d : Disk) : Prop where
  work : d.work.Proper
  outer : ∀ t ∈ d.outer, t.Proper

theorem Proper.root {d : Disk} (hd : d.Proper) : d.root.Proper := by
  rw [Disk.root, List.getLastD_eq_getLast?]
  cases hlast : d.outer.getLast? with
  | none => exact hd.work
  | some t => exact hd.outer t (List.mem_of_getLast? hlast)

theorem Proper.start {d : Disk} (hd : d.Proper) (path : String) : (d.start path).Proper := by
  unfold Disk.start
  split
  · exact ⟨hd.root, by simp⟩
  · exact ⟨hd.work, hd.outer⟩

theorem find?_eq_some_iff {d : Disk} {path : String} {t : FileTree} :
    d.find? path = some t ↔
      path ≠ "" ∧ ∃ outer, (d.start path).follow? (pathParts path) = some ⟨outer, t⟩ := by
  unfold find?
  split
  case isTrue h => simp [h]
  case isFalse h =>
    rw [Option.map_eq_some_iff]
    constructor
    · rintro ⟨⟨outer, here⟩, hfollow, rfl⟩
      exact ⟨h, outer, hfollow⟩
    · rintro ⟨-, outer, hfollow⟩
      exact ⟨_, hfollow, rfl⟩

/-- A slash at the end of a path leads no further. -/
theorem exists_follow?_stem {d : Disk} {path : String} {t : FileTree} (h : d.find? path = some t) :
    ∃ outer, (d.start path).follow? (stem path) = some ⟨outer, t⟩ := by
  obtain ⟨-, outer, hfollow⟩ := find?_eq_some_iff.mp h
  rw [pathParts_eq_stem] at hfollow
  split at hfollow
  case isTrue =>
    rw [Spot.follow?_append] at hfollow
    obtain ⟨m, hstem, hslash⟩ := Option.bind_eq_some_iff.mp hfollow
    obtain rfl := Spot.eq_of_follow?_empty hslash
    exact ⟨outer, hstem⟩
  case isFalse => exact ⟨outer, hfollow⟩

theorem Proper.of_find? {d : Disk} (hd : d.Proper) {path : String} {t : FileTree}
    (h : d.find? path = some t) : t.Proper := by
  obtain ⟨-, outer, hfollow⟩ := find?_eq_some_iff.mp h
  exact (Spot.Proper.of_follow? hfollow (hd.start path)).here

/-- What a path gives to be listed, by the names below it: itself, or the scripts below it. -/
inductive Gives (d : Disk) (path : String) : List String → FileTree → Prop
  | itself {content : FileContent} (h : d.find? path = some (.file content))
      (ending : (endsWith ".js" path || endsWith ".ts" path) = true) :
      Gives d path [] (.file content)
  | below {es : List (String × FileTree)} {names : List String} {t : FileTree}
      (h : d.find? path = some (.directory es)) (below : Below es names t)
      (script : areScriptNames names = true) : Gives d path names t

/-- A path below a directory leads on from where the directory does. -/
theorem find?_of_below {d : Disk} (hd : d.Proper) {path inner : String}
    {es : List (String × FileTree)} {t : FileTree} (h : d.find? path = some (.directory es))
    (hbelow : Below es (pathParts inner) t) : d.find? (joinPath path inner) = t.target? := by
  obtain ⟨hpath, -⟩ := find?_eq_some_iff.mp h
  obtain ⟨outer, hstem⟩ := exists_follow?_stem h
  have hstart : d.start (joinPath path inner) = d.start path := by
    rw [start, start, beginsWith_joinPath hpath]
  rw [find?, if_neg (joinPath_ne_empty hpath inner), pathParts_joinPath hpath, hstart,
    Spot.follow?_append, hstem]
  exact Spot.map_here_follow?_of_below (hd.of_find? h) hbelow outer

theorem stem_of_ending {path : String}
    (h : (endsWith ".js" path || endsWith ".ts" path) = true) : stem path = pathParts path := by
  rw [stem, not_endsWith_slash h]
  rfl

/-- The names below a directory are the parts of a path. -/
theorem exists_inner {d : Disk} (hd : d.Proper) {path : String}
    {es : List (String × FileTree)} {names : List String} {t : FileTree}
    (h : d.find? path = some (.directory es)) (hbelow : Below es names t) :
    ∃ inner, pathParts inner = names :=
  exists_pathParts_eq hbelow.ne_nil fun name hname =>
    ((hd.of_find? h).isEntryName_of_below hbelow name hname).no_slash

theorem Gives.exists_listed {d : Disk} (hd : d.Proper) {path : String} {names : List String}
    {t : FileTree} (h : d.Gives path names t) : ∃ listed, pathParts listed = stem path ++ names := by
  cases h with
  | itself _ hending => exact ⟨path, by rw [stem_of_ending hending, List.append_nil]⟩
  | below h hbelow =>
    obtain ⟨inner, rfl⟩ := exists_inner hd h hbelow
    exact ⟨joinPath path inner, pathParts_joinPath (find?_eq_some_iff.mp h).1 inner⟩

/-- What is listed is the path itself, or a path below it. -/
theorem Gives.listed_cases {d : Disk} (hd : d.Proper) {path listed : String} {names : List String}
    {t : FileTree} (h : d.Gives path names t) (hlisted : pathParts listed = stem path ++ names) :
    (listed = path ∧ d.find? path = t.target?) ∨
      ∃ es inner, d.find? path = some (.directory es) ∧ Below es (pathParts inner) t ∧
        listed = joinPath path inner := by
  cases h with
  | itself h hending =>
    rw [List.append_nil, stem_of_ending hending] at hlisted
    exact .inl ⟨pathParts_injective hlisted, h⟩
  | @below es _ _ h hbelow =>
    obtain ⟨inner, rfl⟩ := exists_inner hd h hbelow
    rw [← pathParts_joinPath (find?_eq_some_iff.mp h).1] at hlisted
    exact .inr ⟨es, inner, h, hbelow, pathParts_injective hlisted⟩

/-- What is listed leads to what was found, or to where that links. -/
theorem Gives.find?_eq {d : Disk} (hd : d.Proper) {path listed : String} {names : List String}
    {t : FileTree} (h : d.Gives path names t) (hlisted : pathParts listed = stem path ++ names) :
    d.find? listed = t.target? := by
  obtain ⟨rfl, hfind⟩ | ⟨es, inner, hfind, hbelow, rfl⟩ := h.listed_cases hd hlisted
  · exact hfind
  · exact find?_of_below hd hfind hbelow

theorem expand_cases {d : Disk} {path : String} {files : List String}
    (h : d.expand path = .ok files) :
    (∃ content, d.find? path = some (.file content) ∧
      (endsWith ".js" path || endsWith ".ts" path) = true ∧ files = [path]) ∨
    ∃ es, d.find? path = some (.directory es) ∧
      files = (FileTree.allScriptPaths es).map (joinPath path) := by
  unfold expand at h
  split at h
  · cases h
  · next content hfind =>
    split at h
    case isFalse => cases h
    case isTrue hending =>
      cases h
      exact .inl ⟨content, hfind, hending, rfl⟩
  · next es hfind =>
    cases h
    exact .inr ⟨es, hfind, rfl⟩
  · cases h

theorem mem_expand {d : Disk} (hd : d.Proper) {path listed : String} {files : List String}
    (h : d.expand path = .ok files) :
    listed ∈ files ↔
      ∃ names t, d.Gives path names t ∧ pathParts listed = stem path ++ names := by
  obtain ⟨content, hfind, hending, rfl⟩ | ⟨es, hfind, rfl⟩ := expand_cases h
  · constructor
    · intro hlisted
      obtain rfl := List.mem_singleton.mp hlisted
      exact ⟨[], _, .itself hfind hending, by rw [stem_of_ending hending, List.append_nil]⟩
    · rintro ⟨names, t, hgives, hlisted⟩
      cases hgives with
      | itself =>
        rw [List.append_nil, stem_of_ending hending] at hlisted
        exact List.mem_singleton.mpr (pathParts_injective hlisted)
      | below hdirectory => cases hfind.symm.trans hdirectory
  · obtain ⟨hpath, -⟩ := find?_eq_some_iff.mp hfind
    have hes := hd.of_find? hfind
    constructor
    · intro hlisted
      obtain ⟨inner, hinner, rfl⟩ := List.mem_map.mp hlisted
      obtain ⟨t, hbelow, hscript⟩ := hes.mem_allScriptPaths_iff.mp hinner
      exact ⟨pathParts inner, t, .below hfind hbelow hscript, pathParts_joinPath hpath inner⟩
    · rintro ⟨names, t, hgives, hlisted⟩
      cases hgives with
      | itself hfile => cases hfind.symm.trans hfile
      | below hdirectory hbelow hscript =>
        cases hfind.symm.trans hdirectory
        obtain ⟨inner, rfl⟩ := exists_inner hd hfind hbelow
        rw [← pathParts_joinPath hpath] at hlisted
        have hinner := hes.mem_allScriptPaths_iff.mpr ⟨t, hbelow, hscript⟩
        exact List.mem_map.mpr ⟨inner, hinner, (pathParts_injective hlisted).symm⟩

theorem expandAll_cons_eq_ok {d : Disk} {path : String} {paths files : List String} :
    d.expandAll (path :: paths) = .ok files ↔
      ∃ own rest, d.expand path = .ok own ∧ d.expandAll paths = .ok rest ∧ files = own ++ rest := by
  rw [expandAll]
  cases d.expand path with
  | error e => simp [bind, Except.bind]
  | ok own =>
    cases d.expandAll paths with
    | error e => simp [bind, Except.bind]
    | ok rest => simp [bind, Except.bind, pure, Except.pure, eq_comm]

theorem exists_expandAll_iff {d : Disk} {paths : List String} :
    (∃ files, d.expandAll paths = .ok files) ↔ ∀ path ∈ paths, ∃ own, d.expand path = .ok own := by
  induction paths with
  | nil => simp [expandAll]
  | cons path paths ih =>
    rw [List.forall_mem_cons, ← ih]
    simp only [expandAll_cons_eq_ok]
    constructor
    · rintro ⟨files, own, rest, hown, hrest, -⟩
      exact ⟨⟨own, hown⟩, rest, hrest⟩
    · rintro ⟨⟨own, hown⟩, rest, hrest⟩
      exact ⟨own ++ rest, own, rest, hown, hrest, rfl⟩

theorem mem_expandAll_iff {d : Disk} {paths files : List String} {listed : String}
    (h : d.expandAll paths = .ok files) :
    listed ∈ files ↔ ∃ path ∈ paths, ∃ own, d.expand path = .ok own ∧ listed ∈ own := by
  induction paths generalizing files with
  | nil =>
    cases h
    simp
  | cons path paths ih =>
    obtain ⟨own, rest, hown, hrest, rfl⟩ := expandAll_cons_eq_ok.mp h
    have hfirst : (∃ files, d.expand path = .ok files ∧ listed ∈ files) ↔ listed ∈ own := by
      simp [hown]
    rw [List.mem_append, ih hrest, List.exists_mem_cons_iff, hfirst]

/-- The list holds what each of the paths stands for, in ascending order. -/
theorem resolve_eq_ok_iff {d : Disk} {paths files : List String} :
    d.resolve paths = .ok files ↔
      (∀ path ∈ paths, ∃ own, d.expand path = .ok own) ∧ files.Pairwise (· < ·) ∧
        ∀ listed, listed ∈ files ↔
          ∃ path ∈ paths, ∃ own, d.expand path = .ok own ∧ listed ∈ own := by
  have hresolve : d.resolve paths = .ok files ↔
      ∃ all, d.expandAll (distinct paths) = .ok all ∧ sortedNames all = files := by
    rw [resolve]
    cases d.expandAll (distinct paths) <;> simp [bind, Except.bind, pure, Except.pure]
  have hall : (∃ all, d.expandAll (distinct paths) = .ok all) ↔
      ∀ path ∈ paths, ∃ own, d.expand path = .ok own := by
    rw [exists_expandAll_iff]
    simp only [mem_distinct]
  rw [hresolve, ← hall]
  constructor
  · rintro ⟨all, hfiles, rfl⟩
    refine ⟨⟨all, hfiles⟩, pairwise_sortedNames all, fun listed => ?_⟩
    rw [mem_sortedNames, mem_expandAll_iff hfiles]
    simp only [mem_distinct]
  · rintro ⟨⟨all, hfiles⟩, hsorted, hmem⟩
    refine ⟨all, hfiles, (pairwise_sortedNames all).eq_of_mem_iff hsorted fun listed => ?_⟩
    rw [mem_sortedNames, mem_expandAll_iff hfiles, hmem]
    simp only [mem_distinct]

/-- The list holds what the paths give, in ascending order. -/
theorem resolve_eq_ok {d : Disk} (hd : d.Proper) {paths files : List String}
    (h : d.resolve paths = .ok files) :
    files.Pairwise (· < ·) ∧ ∀ listed, listed ∈ files ↔
      ∃ path ∈ paths, ∃ names t, d.Gives path names t ∧
        pathParts listed = stem path ++ names := by
  obtain ⟨hall, hsorted, hmem⟩ := resolve_eq_ok_iff.mp h
  refine ⟨hsorted, fun listed => ?_⟩
  rw [hmem]
  refine exists_congr fun path => and_congr_right fun hpath => ?_
  obtain ⟨own, hown⟩ := hall path hpath
  rw [← mem_expand hd hown]
  simp [hown]

theorem read_eq_ok_iff {d : Disk} {path : String} {content : FileContent} :
    d.read path = .ok content ↔ (d.find? path).bind FileTree.content? = some content := by
  rw [read]
  cases (d.find? path).bind FileTree.content? <;> simp

/-- A path stands for an entry below one that was given, under names that are listed; the entry has
a property. -/
def ListedBelow (d : Disk) (paths : List String) (P : FileTree → Prop) (listed : String) : Prop :=
  ∃ path ∈ paths, ∃ es names t, d.find? path = some (.directory es) ∧ Below es names t ∧
    areScriptNames names = true ∧ P t ∧ pathParts listed = stem path ++ names

theorem ListedBelow.congr {d : Disk} (hd : d.Proper) {paths : List String}
    {P Q : FileTree → Prop} (hPQ : ∀ t, t.Proper → (P t ↔ Q t)) (listed : String) :
    d.ListedBelow paths P listed ↔ d.ListedBelow paths Q listed := by
  have himp : ∀ {P Q : FileTree → Prop}, (∀ t, t.Proper → P t → Q t) →
      d.ListedBelow paths P listed → d.ListedBelow paths Q listed := by
    rintro P Q hPQ ⟨path, hpath, es, names, t, hfind, hbelow, hscript, hP, hparts⟩
    have ht : t.Proper := (hd.of_find? hfind).of_below hbelow
    exact ⟨path, hpath, es, names, t, hfind, hbelow, hscript, hPQ t ht hP, hparts⟩
  exact ⟨himp fun t ht => (hPQ t ht).mp, himp fun t ht => (hPQ t ht).mpr⟩

/-- Where a path in a list leads to no file, it stands for an entry below a path that was given. -/
theorem listed_iff_of_not_file {d : Disk} (hd : d.Proper) {paths files : List String}
    (h : d.resolve paths = .ok files) {P : Option FileTree → Prop}
    (hfile : ∀ content, ¬P (some (.file content))) (listed : String) :
    (listed ∈ files ∧ P (d.find? listed)) ↔ d.ListedBelow paths (fun t => P t.target?) listed := by
  obtain ⟨-, hmem⟩ := resolve_eq_ok hd h
  constructor
  · rintro ⟨hlisted, hP⟩
    obtain ⟨path, hpath, names, t, hgives, hparts⟩ := (hmem listed).mp hlisted
    rw [hgives.find?_eq hd hparts] at hP
    cases hgives with
    | itself => exact absurd hP (hfile _)
    | @below es _ _ hdirectory hbelow hscript =>
      exact ⟨path, hpath, es, names, t, hdirectory, hbelow, hscript, hP, hparts⟩
  · rintro ⟨path, hpath, es, names, t, hdirectory, hbelow, hscript, hP, hparts⟩
    have hgives : d.Gives path names t := .below hdirectory hbelow hscript
    refine ⟨(hmem listed).mpr ⟨path, hpath, names, t, hgives, hparts⟩, ?_⟩
    rwa [hgives.find?_eq hd hparts]

/-- The paths in a list that lead nowhere, that lead to no file, and that cannot be read. Each
stands for an entry below a path that was given, under a script's name: for a dead link or a link to
one, for whatever is and links to no file, and for whatever holds nothing to be read. -/
theorem listed_unreadable_iff {d : Disk} (hd : d.Proper) {paths files : List String}
    (h : d.resolve paths = .ok files) (listed : String) :
    ((listed ∈ files ∧ d.find? listed = none) ↔
      d.ListedBelow paths (fun t => t.target? = none) listed) ∧
    ((listed ∈ files ∧ ∀ content, d.find? listed ≠ some (.file content)) ↔
      d.ListedBelow paths (fun t => ∀ content, t.target? ≠ some (.file content)) listed) ∧
    ((listed ∈ files ∧ ∀ content, d.read listed ≠ .ok content) ↔
      d.ListedBelow paths (fun t => t.content? = none) listed) := by
  refine ⟨?_, ?_, ?_⟩
  · exact listed_iff_of_not_file (P := fun found => found = none) hd h (by simp) listed
  · exact listed_iff_of_not_file (P := fun found => ∀ content, found ≠ some (.file content)) hd h
      (by simp) listed
  · have hread : (∀ content, d.read listed ≠ .ok content) ↔
        (d.find? listed).bind FileTree.content? = none := by
      simp only [ne_eq, read_eq_ok_iff, Option.eq_none_iff_forall_ne_some]
    rw [hread, listed_iff_of_not_file (P := fun found => found.bind FileTree.content? = none) hd h
      (by simp [FileTree.content?])]
    exact ListedBelow.congr hd (fun t ht => by rw [ht.bind_content?_target?]) listed

namespace Sample

/-- A working directory with a file, and a directory that has a script's name. -/
def misnamed : Disk :=
  ⟨"/", .directory [("a.js", .file ⟨.empty, .blank⟩), ("b.js", .directory [])], []⟩

theorem proper_misnamed : misnamed.Proper := by
  refine ⟨.directory (by decide) (by decide) ?_, by simp [misnamed]⟩
  simp only [List.forall_mem_cons, List.not_mem_nil, false_imp_iff, implies_true, and_true]
  exact ⟨.file _, .directory (by simp) (by simp) (by simp)⟩

theorem resolve_misnamed : misnamed.resolve ["."] = .ok ["./a.js", "./b.js"] := by decide

/-- Scripts' names for a directory, a link that leads nowhere and a device that reads as an empty
file. -/
def oddities : Disk :=
  ⟨"/", .directory [("b.js", .directory []), ("gone.js", .deadLink),
    ("null.js", .device (some ⟨.empty, .blank⟩))], []⟩

theorem proper_oddities : oddities.Proper := by
  refine ⟨.directory (by decide) (by decide) ?_, by simp [oddities]⟩
  simp only [List.forall_mem_cons, List.not_mem_nil, false_imp_iff, implies_true, and_true]
  exact ⟨.directory (by simp) (by simp) (by simp), .deadLink, .device _⟩

theorem resolve_oddities :
    oddities.resolve ["."] = .ok ["./b.js", "./gone.js", "./null.js"] := by decide

theorem listedBelow_oddities {P : FileTree → Prop} {t : FileTree} (name : String)
    (h : oddities.work.entries.lookup name = some t) (hP : P t)
    (hscript : areScriptNames [name] = true) (hparts : pathParts ("./" ++ name) = [".", name]) :
    oddities.ListedBelow ["."] P ("./" ++ name) :=
  ⟨".", by simp, _, [name], t, rfl, .entry (proper_oddities.work.lookup_eq_some_iff.mp h), hscript,
    hP, hparts⟩

end Sample

/-- The directory is listed and cannot be read, the link leads nowhere, the device is no file. -/
theorem listed_unreadable_iff_sample :
    Sample.oddities.resolve ["."] = .ok ["./b.js", "./gone.js", "./null.js"] ∧
      (∀ content, Sample.oddities.read "./b.js" ≠ .ok content) ∧
      Sample.oddities.find? "./gone.js" = none ∧
      ∀ content, Sample.oddities.find? "./null.js" ≠ some (.file content) := by
  have hlisted := listed_unreadable_iff Sample.proper_oddities Sample.resolve_oddities
  obtain ⟨-, -, hdirectory⟩ := hlisted "./b.js"
  obtain ⟨hlink, -, -⟩ := hlisted "./gone.js"
  obtain ⟨-, hdevice, -⟩ := hlisted "./null.js"
  refine ⟨Sample.resolve_oddities, (hdirectory.mpr ?_).2, (hlink.mpr ?_).2, (hdevice.mpr ?_).2⟩
  · exact Sample.listedBelow_oddities "b.js" rfl rfl (by decide) (by decide)
  · exact Sample.listedBelow_oddities "gone.js" rfl rfl (by decide) (by decide)
  · exact Sample.listedBelow_oddities "null.js" rfl (by simp [FileTree.target?]) (by decide)
      (by decide)

/-- Not all that is listed is a file to be read. -/
theorem not_forall_listed_file :
    ¬∀ (d : Disk) (paths files : List String), d.Proper → d.resolve paths = .ok files →
      ∀ listed ∈ files, ∃ content, d.find? listed = some (.file content) ∧
        d.read listed = .ok content := by
  intro hall
  obtain ⟨content, hfind, -⟩ := hall Sample.misnamed ["."] _ Sample.proper_misnamed
    Sample.resolve_misnamed "./b.js" (by simp)
  cases hfind

end Disk
end SuiteOutline
