import SuiteOutline.Proofs.Entries
import SuiteOutline.Proofs.Outcome
import SuiteOutline.Proofs.PoolRun
import SuiteOutline.Proofs.Sorting

/-! The outcome of a pool does not depend on its schedule: results are the same for every order of
reports, and a failure is that of a job that fails. -/
namespace SuiteOutline

/-! Names in order. -/

theorem sorts_names : Sorts fun a b : String => !decide (b < a) where
  total a b := by
    simp only [Bool.not_eq_true', decide_eq_false_iff_not]
    exact (em (b < a)).elim (fun h => .inr (String.lt_asymm h)) .inl
  trans a b c hab hbc := by
    simp only [Bool.not_eq_true', decide_eq_false_iff_not, String.not_lt] at hab hbc ⊢
    exact String.le_trans hab hbc

theorem mem_sortedNames {names : List String} {name : String} :
    name ∈ sortedNames names ↔ name ∈ names := by
  rw [sortedNames, mem_sortBy, mem_distinct]

theorem nodup_sortedNames (names : List String) : (sortedNames names).Nodup :=
  (sortBy_perm _ _).nodup_iff.mpr (nodup_distinct names)

theorem pairwise_sortedNames (names : List String) : (sortedNames names).Pairwise (· < ·) := by
  have hle := sorts_names.pairwise_sortBy (distinct names)
  refine (hle.and (nodup_sortedNames names)).imp fun {a b} h => ?_
  obtain ⟨hle, hne⟩ := h
  simp only [Bool.not_eq_true', decide_eq_false_iff_not, String.not_lt] at hle
  by_contra hlt
  exact hne (String.le_antisymm hle (String.not_lt.mp hlt))

/-- The order does not tell in which order, or how often, the names were given. -/
theorem sortedNames_congr {names names' : List String} (h : ∀ name, name ∈ names ↔ name ∈ names') :
    sortedNames names = sortedNames names' := by
  refine (pairwise_sortedNames names).eq_of_mem_iff (pairwise_sortedNames names') fun name => ?_
  rw [mem_sortedNames, mem_sortedNames, h]

/-! Reports and results. -/

section

variable {α : Type} {job : String → Except Failure α}

theorem takeReports_eq_ok {order : List String} {reports : List (String × α)} :
    takeReports job order = .ok reports ↔
      reports.map (·.1) = order ∧ ∀ p ∈ reports, job p.1 = .ok p.2 := by
  induction order generalizing reports with
  | nil => cases reports <;> simp [takeReports]
  | cons name order ih =>
    simp only [takeReports, bind_eq_ok, pure_eq_ok, ih]
    constructor
    · rintro ⟨a, ha, rest, ⟨rfl, hrest⟩, rfl⟩
      exact ⟨rfl, List.forall_mem_cons.mpr ⟨ha, hrest⟩⟩
    · rintro ⟨hnames, hall⟩
      cases reports with
      | nil => cases hnames
      | cons p rest =>
        cases hnames
        obtain ⟨hp, hrest⟩ := List.forall_mem_cons.mp hall
        exact ⟨p.2, hp, rest, ⟨rfl, hrest⟩, rfl⟩

/-- The failure of a run is that of some job. -/
theorem takeReports_eq_error {order : List String} {e : Failure}
    (h : takeReports job order = .error e) : ∃ name ∈ order, job name = .error e := by
  induction order with
  | nil => cases h
  | cons name order ih =>
    rw [takeReports] at h
    cases hjob : job name with
    | error e' =>
      rw [hjob] at h
      cases h
      exact ⟨name, List.mem_cons_self, hjob⟩
    | ok a =>
      rw [hjob] at h
      cases hrest : takeReports job order with
      | ok rest =>
        rw [hrest] at h
        cases h
      | error e' =>
        rw [hrest] at h
        cases h
        obtain ⟨other, hother, hfails⟩ := ih hrest
        exact ⟨other, List.mem_cons_of_mem name hother, hfails⟩

/-- Reports are looked up as the jobs themselves, whatever their order. -/
theorem lookup_reports {reports : List (String × α)} (h : ∀ p ∈ reports, job p.1 = .ok p.2)
    {name : String} (hname : name ∈ reports.map (·.1)) :
    reports.lookup name = (job name).toOption := by
  induction reports with
  | nil => cases hname
  | cons p reports ih =>
    obtain ⟨other, a⟩ := p
    obtain ⟨hp, hrest⟩ := List.forall_mem_cons.mp h
    by_cases heq : name = other
    · subst heq
      simp [hp, Except.toOption]
    · have hbeq : (name == other) = false := by simpa using heq
      rw [List.lookup_cons, hbeq]
      exact ih hrest ((List.mem_cons.mp hname).resolve_left heq)

theorem filterMap_reports {reports : List (String × α)} {order ordered : List String}
    (h : takeReports job order = .ok reports) (hperm : order.Perm ordered) :
    ordered.filterMap (fun name => (reports.lookup name).map (name, ·)) =
      ordered.filterMap fun name => (job name).toOption.map (name, ·) := by
  obtain ⟨rfl, hall⟩ := takeReports_eq_ok.mp h
  refine List.filterMap_congr fun name hname => ?_
  rw [lookup_reports hall (hperm.mem_iff.mpr hname)]

end

/-- Reports come from all the jobs handed in, and from each once. -/
def Schedule.Permutes (schedule : Schedule) : Prop := ∀ names, (schedule names).Perm names

section

variable {α : Type} {workers : Int} {schedule : Schedule} {names : List String}
  {job : String → Except Failure α}

/-- The pool has results if no job fails, and they are those of the jobs in the order of the
names. -/
theorem runPool_eq_ok_iff (hworkers : 1 ≤ workers) (hschedule : schedule.Permutes)
    {entries : List (String × α)} :
    runPool workers schedule names job = .ok entries ↔
      (∀ name ∈ names, ∃ a, job name = .ok a) ∧
        entries = (sortedNames names).filterMap fun name => (job name).toOption.map (name, ·) := by
  have hperm := hschedule (sortedNames names)
  simp only [runPool, if_neg (by omega : ¬workers ≤ 0), bind_eq_ok, pure_eq_ok]
  constructor
  · rintro ⟨reports, hreports, rfl⟩
    refine ⟨fun name hname => ?_, filterMap_reports hreports hperm⟩
    obtain ⟨hnames, hall⟩ := takeReports_eq_ok.mp hreports
    have hmem : name ∈ reports.map (·.1) := by
      rw [hnames, hperm.mem_iff, mem_sortedNames]
      exact hname
    obtain ⟨p, hp, rfl⟩ := List.mem_map.mp hmem
    exact ⟨p.2, hall p hp⟩
  · rintro ⟨hall, rfl⟩
    have hok : ∃ reports, takeReports job (schedule (sortedNames names)) = .ok reports := by
      by_contra hfails
      obtain ⟨e, he⟩ := exists_error_iff.mpr hfails
      obtain ⟨name, hname, hjob⟩ := takeReports_eq_error he
      obtain ⟨a, ha⟩ := hall name (mem_sortedNames.mp (hperm.mem_iff.mp hname))
      cases ha.symm.trans hjob
    obtain ⟨reports, hreports⟩ := hok
    exact ⟨reports, hreports, filterMap_reports hreports hperm⟩

theorem runPool_eq_error (hworkers : 1 ≤ workers) (hschedule : schedule.Permutes) {e : Failure}
    (h : runPool workers schedule names job = .error e) : ∃ name ∈ names, job name = .error e := by
  rw [runPool, if_neg (by omega)] at h
  dsimp only at h
  cases hreports : takeReports job (schedule (sortedNames names)) with
  | ok reports =>
    rw [hreports] at h
    cases h
  | error e' =>
    rw [hreports] at h
    cases h
    obtain ⟨name, hname, hjob⟩ := takeReports_eq_error hreports
    exact ⟨name, mem_sortedNames.mp ((hschedule _).mem_iff.mp hname), hjob⟩

/-- What a run over the names may come to: all results, one for each name and in their order, or the
failure of one of the jobs that fail. -/
structure Settled (names : List String) (job : String → Except Failure α)
    (r : Except Failure (List (String × α))) : Prop where
  results : (∀ name ∈ names, ∃ a, job name = .ok a) →
    ∃ entries, r = .ok entries ∧ (entries.map (·.1)).Pairwise (· < ·) ∧
      (∀ name, name ∈ entries.map (·.1) ↔ name ∈ names) ∧ ∀ p ∈ entries, job p.1 = .ok p.2
  failure : (∃ name ∈ names, ∃ e, job name = .error e) →
    ∃ name ∈ names, ∃ e, job name = .error e ∧ r = .error e
  only : ∀ name ∈ names, ∀ e, job name = .error e →
    (∀ other ∈ names, other ≠ name → ∃ a, job other = .ok a) → r = .error e

theorem settled_runPool (hworkers : 1 ≤ workers) (hschedule : schedule.Permutes) :
    Settled names job (runPool workers schedule names job) := by
  have hfailure : (∃ name ∈ names, ∃ e, job name = .error e) →
      ∃ name ∈ names, ∃ e, job name = .error e ∧ runPool workers schedule names job = .error e := by
    rintro ⟨name, hname, e, hjob⟩
    cases hrun : runPool workers schedule names job with
    | ok entries =>
      obtain ⟨a, ha⟩ := ((runPool_eq_ok_iff hworkers hschedule).mp hrun).1 name hname
      cases ha.symm.trans hjob
    | error e' =>
      obtain ⟨other, hother, hfails⟩ := runPool_eq_error hworkers hschedule hrun
      exact ⟨other, hother, e', hfails, rfl⟩
  refine ⟨fun hall => ?_, hfailure, fun name hname e hjob hothers => ?_⟩
  · have hkeys : ((sortedNames names).filterMap fun name =>
        (job name).toOption.map (name, ·)).map (·.1) = sortedNames names := by
      rw [List.map_filterMap]
      refine (List.filterMap_congr fun name hname => ?_).trans List.filterMap_some
      obtain ⟨a, ha⟩ := hall name (mem_sortedNames.mp hname)
      simp [ha, Except.toOption]
    refine ⟨_, (runPool_eq_ok_iff hworkers hschedule).mpr ⟨hall, rfl⟩, ?_, fun name => ?_, ?_⟩
    · rw [hkeys]
      exact pairwise_sortedNames names
    · rw [hkeys]
      exact mem_sortedNames
    · intro p hp
      obtain ⟨name, -, hentry⟩ := List.mem_filterMap.mp hp
      obtain ⟨a, ha, rfl⟩ := Option.map_eq_some_iff.mp hentry
      cases hjob : job name with
      | error e => simp [hjob, Except.toOption] at ha
      | ok b =>
        rw [hjob] at ha
        cases ha
        rfl
  · obtain ⟨other, hother, e', hfails, hrun⟩ := hfailure ⟨name, hname, e, hjob⟩
    by_cases heq : other = name
    · subst heq
      cases hfails.symm.trans hjob
      exact hrun
    · obtain ⟨a, ha⟩ := hothers other hother heq
      cases ha.symm.trans hfails

/-! Runs, step by step. -/

/-- A schedule that puts one list in another order and leaves the others. -/
def Schedule.placing (ordered order : List String) : Schedule := fun names =>
  if names = ordered then order else names

theorem Schedule.permutes_placing {ordered order : List String} (h : order.Perm ordered) :
    (Schedule.placing ordered order).Permutes := by
  intro names
  unfold placing
  split
  case isTrue heq => exact heq ▸ h
  case isFalse => exact .refl names

/-- The runs of a pool end as the pool does over the orders of reports. -/
theorem exists_run_iff (hworkers : 1 ≤ workers) {r : Except Failure (List (String × α))} :
    (∃ s, PoolRun workers job (.initial (sortedNames names)) s ∧ s.Over ∧
        s.result (sortedNames names) = r) ↔
      ∃ schedule : Schedule, schedule.Permutes ∧ runPool workers schedule names job = r := by
  constructor
  · rintro ⟨s, hrun, hover, rfl⟩
    obtain ⟨-, hkept, hresults, hfailed⟩ := hrun.sound
    obtain ⟨hcoming, hwaiting, hrunning, hended⟩ := hover
    cases hfailure : s.failure with
    | none =>
      have hperm : (s.taken.map (·.1)).Perm (sortedNames names) := by
        simpa [PoolState.names, hcoming, hwaiting, hrunning, hended hfailure] using hkept hfailure
      have hreports : takeReports job (s.taken.map (·.1)) = .ok s.taken :=
        takeReports_eq_ok.mpr ⟨rfl, hresults⟩
      refine ⟨.placing (sortedNames names) _, Schedule.permutes_placing hperm, ?_⟩
      rw [runPool, if_neg (by omega), PoolState.result, hfailure]
      simp only [Schedule.placing, if_true, hreports]
      rfl
    | some e =>
      -- the job that failed might as well have been the first to report
      obtain ⟨name, hname, hjob⟩ := hfailed e hfailure
      have hperm := (List.perm_cons_erase hname).symm
      refine ⟨.placing (sortedNames names) _, Schedule.permutes_placing hperm, ?_⟩
      rw [runPool, if_neg (by omega), PoolState.result, hfailure]
      simp only [Schedule.placing, if_true, takeReports, hjob]
      rfl
  · rintro ⟨schedule, hschedule, rfl⟩
    have hperm := (hschedule (sortedNames names)).symm
    have hhanded := PoolRun.handInAll workers job (sortedNames names) [] []
    obtain ⟨s, hrun, hover, hs⟩ := PoolRun.reportAll job hworkers hperm []
    refine ⟨s, hhanded.trans hrun, hover, ?_⟩
    rw [runPool, if_neg (by omega)]
    dsimp only
    cases hreports : takeReports job (schedule (sortedNames names)) with
    | error e =>
      rw [hreports] at hs
      rw [PoolState.result, hs]
      rfl
    | ok reports =>
      rw [hreports] at hs
      rw [PoolState.result, hs.1, hs.2]
      rfl

end

/-! Scripts. -/

/-- Where names are not given twice, an entry is found by its name. -/
theorem lookup_eq_some_iff_of_nodup {β : Type} {l : List (String × β)}
    (h : (l.map (·.1)).Nodup) {name : String} {b : β} :
    l.lookup name = some b ↔ (name, b) ∈ l := by
  induction l with
  | nil => simp
  | cons p l ih =>
    obtain ⟨other, c⟩ := p
    obtain ⟨hnew, hrest⟩ := List.nodup_cons.mp h
    by_cases heq : name = other
    · subst heq
      have hnone : (name, b) ∉ l := fun hmem =>
        hnew (List.mem_map.mpr ⟨_, hmem, rfl⟩)
      simp [hnone, eq_comm]
    · have hbeq : (name == other) = false := by simpa using heq
      rw [List.lookup_cons, hbeq, ih hrest]
      simp [heq]

section

variable {room : Room} {options : Options} {v : Vocabulary}
  {scripts scripts' : List (String × Script)}

theorem lastOutline_of_append {before after : List (String × Script)} {name : String} {s : Script}
    (h : scripts = before ++ (name, s) :: after) (hlast : name ∉ after.map (·.1)) :
    lastOutline room options v scripts name = (outlineNamed room options v name s).outcome := by
  have hnone : after.reverse.lookup name = none := by
    rw [List.lookup_eq_none_iff]
    intro p hp
    have hmem : p.1 ∈ after.map (·.1) := List.mem_map_of_mem (List.mem_reverse.mp hp)
    simp only [bne_iff_ne]
    rintro rfl
    exact hlast hmem
  have hlookup : scripts.reverse.lookup name = some s := by
    simp [h, List.lookup_append, hnone]
  rw [lastOutline, hlookup]

theorem lastOutline_congr (hperm : scripts.Perm scripts') (h : (scripts.map (·.1)).Nodup) :
    lastOutline room options v scripts = lastOutline room options v scripts' := by
  have h' : (scripts'.map (·.1)).Nodup := (hperm.map _).nodup_iff.mp h
  have hreverse : ∀ l : List (String × Script), (l.map (·.1)).Nodup →
      (l.reverse.map (·.1)).Nodup := by
    intro l hl
    rwa [List.map_reverse, List.nodup_reverse]
  have hlookup : ∀ name, scripts.reverse.lookup name = scripts'.reverse.lookup name := by
    intro name
    ext s
    rw [lookup_eq_some_iff_of_nodup (hreverse _ h), lookup_eq_some_iff_of_nodup (hreverse _ h'),
      List.mem_reverse, List.mem_reverse, hperm.mem_iff]
  funext name
  rw [lastOutline, lastOutline, hlookup]

/-- Two runs over the same jobs: one has results if the other does, and the same; where at most one
job fails, the failure is the same too. -/
structure Agree {α : Type} (names : List String) (job : String → Except Failure α)
    (r r' : Except Failure (List (String × α))) : Prop where
  results : ∀ entries, r = .ok entries ↔ r' = .ok entries
  failure : (∀ a ∈ names, ∀ b ∈ names, (∃ e, job a = .error e) → (∃ e, job b = .error e) → a = b) →
    r = r'

/-- What two runs come to depends neither on the workers nor on the schedule, nor on the order of
the names. -/
theorem agree_runPool {α : Type} {job : String → Except Failure α} {names names' : List String}
    {workers workers' : Int} {schedule schedule' : Schedule} (hworkers : 1 ≤ workers)
    (hworkers' : 1 ≤ workers') (hschedule : schedule.Permutes) (hschedule' : schedule'.Permutes)
    (hnames : ∀ name, name ∈ names ↔ name ∈ names') :
    Agree names job (runPool workers schedule names job)
      (runPool workers' schedule' names' job) := by
  have hresults : ∀ entries, runPool workers schedule names job = .ok entries ↔
      runPool workers' schedule' names' job = .ok entries := by
    intro entries
    rw [runPool_eq_ok_iff hworkers hschedule, runPool_eq_ok_iff hworkers' hschedule',
      sortedNames_congr hnames]
    simp only [hnames]
  refine ⟨hresults, fun hone => ?_⟩
  cases hrun : runPool workers schedule names job with
  | ok entries => exact ((hresults entries).mp hrun).symm
  | error e =>
    cases hrun' : runPool workers' schedule' names' job with
    | ok entries => cases hrun.symm.trans ((hresults entries).mpr hrun')
    | error e' =>
      obtain ⟨a, ha, hjob⟩ := runPool_eq_error hworkers hschedule hrun
      obtain ⟨b, hb, hjob'⟩ := runPool_eq_error hworkers' hschedule' hrun'
      obtain rfl := hone a ha b ((hnames b).mpr hb) ⟨e, hjob⟩ ⟨e', hjob'⟩
      rw [hjob] at hjob'
      cases hjob'
      rfl

end

/-- Runs over many names do not depend on scheduling. A run always ends, and it comes to the results
of all jobs or to the failure of one that fails; the pool itself comes to just that over the orders
of reports. Outlines of named scripts depend neither on the order of the scripts nor on the workers,
and of scripts with one name on the last. -/
theorem outcome_independent_of_schedule {α : Type} (names : List String)
    (job : String → Except Failure α) {workers : Int} (hworkers : 1 ≤ workers) :
    (WellFounded fun t s : PoolState α => PoolStep workers job s t) ∧
    (∀ s : PoolState α, s.Over ∨ ∃ t, PoolStep workers job s t) ∧
    (∀ s, PoolRun workers job (.initial (sortedNames names)) s → s.Over →
      Settled names job (s.result (sortedNames names))) ∧
    (∀ r, (∃ s, PoolRun workers job (.initial (sortedNames names)) s ∧ s.Over ∧
        s.result (sortedNames names) = r) ↔
      ∃ schedule : Schedule, schedule.Permutes ∧ runPool workers schedule names job = r) ∧
    ∀ (room : Room) (options : Options) (v : Vocabulary) (schedule : Schedule)
      (scripts : List (String × Script)), schedule.Permutes →
      Settled (scripts.map (·.1)) (lastOutline room options v scripts)
        (outlineScripts room options v workers schedule scripts) ∧
      (∀ before name s after, scripts = before ++ (name, s) :: after → name ∉ after.map (·.1) →
        lastOutline room options v scripts name = (outlineNamed room options v name s).outcome) ∧
      ∀ (workers' : Int) (schedule' : Schedule) (scripts' : List (String × Script)),
        1 ≤ workers' → schedule'.Permutes → scripts.Perm scripts' → (scripts.map (·.1)).Nodup →
        Agree (scripts.map (·.1)) (lastOutline room options v scripts)
          (outlineScripts room options v workers schedule scripts)
          (outlineScripts room options v workers' schedule' scripts') := by
  refine ⟨PoolStep.wellFounded, PoolStep.over_or_exists hworkers, fun s hrun hover => ?_,
    fun r => exists_run_iff hworkers, fun room options v schedule scripts hschedule => ⟨?_, ?_, ?_⟩⟩
  · obtain ⟨schedule, hschedule, hpool⟩ := (exists_run_iff hworkers).mp ⟨s, hrun, hover, rfl⟩
    rw [← hpool]
    exact settled_runPool hworkers hschedule
  · exact settled_runPool hworkers hschedule
  · intro before name s after hsplit hlast
    exact lastOutline_of_append hsplit hlast
  · intro workers' schedule' scripts' hworkers' hschedule' hperm hnodup
    rw [outlineScripts, outlineScripts, ← lastOutline_congr hperm hnodup]
    exact agree_runPool hworkers hworkers' hschedule hschedule' fun name =>
      (hperm.map (·.1)).mem_iff

namespace Sample

/-- A job that fails for one name. -/
def failingJob (name : String) : Except Failure Nat :=
  if name = "b" then .error .badEscape else .ok name.length

end Sample

/-- With two workers there are runs that end, and they all end with the one failure. -/
theorem outcome_independent_of_schedule_sample :
    (∃ s, PoolRun 2 Sample.failingJob (.initial (sortedNames ["b", "a", "b"])) s ∧ s.Over) ∧
      ∀ s, PoolRun 2 Sample.failingJob (.initial (sortedNames ["b", "a", "b"])) s → s.Over →
        s.result (sortedNames ["b", "a", "b"]) = .error .badEscape := by
  obtain ⟨-, -, hsettled, hruns, -⟩ := outcome_independent_of_schedule ["b", "a", "b"]
    Sample.failingJob (by decide : (1 : Int) ≤ 2)
  constructor
  · obtain ⟨s, hrun, hover, -⟩ := (hruns _).mpr ⟨.inOrder, fun names => .refl names, rfl⟩
    exact ⟨s, hrun, hover⟩
  · intro s hrun hover
    refine (hsettled s hrun hover).only "b" (by simp) _ (if_pos rfl) fun other _ hne => ?_
    exact ⟨other.length, if_neg hne⟩

end SuiteOutline
