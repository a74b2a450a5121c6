import Mathlib.Data.List.Perm.Basic
import Mathlib.Logic.Relation
import Mathlib.Order.WellFounded
import SuiteOutline.Pool

/-! A pool at work, one step at a time. Jobs start, end and are reported in any order, and after a
failure the jobs that wait are cancelled while some of them may still start. Every run ends, and
every order of reports can come about. -/
namespace SuiteOutline

/-- Names not handed in yet, handed in and waiting, running, and ended but not reported; the results
taken in; and the failure that was reported, if one was. -/
structure PoolState (α : Type) where
  coming : List String
  waiting : List String
  running : List String
  ended : List String
  taken : List (String × α)
  failure : Option Failure

namespace PoolState

variable {α : Type}

def initial (ordered : List String) : PoolState α := ⟨ordered, [], [], [], [], none⟩

/-- The names that the pool still holds, or has a result of. -/
def names (s : PoolState α) : List String :=
  s.coming ++ s.waiting ++ s.running ++ s.ended ++ s.taken.map (·.1)

/-- Nothing is left to do. After a failure, results are no longer taken in. -/
def Over (s : PoolState α) : Prop :=
  s.coming = [] ∧ s.waiting = [] ∧ s.running = [] ∧ (s.failure = none → s.ended = [])

/-- What the run comes to. -/
def result (ordered : List String) (s : PoolState α) : Except Failure (List (String × α)) :=
  match s.failure with
  | some e => .error e
  | none => .ok (ordered.filterMap fun name => (s.taken.lookup name).map (name, ·))

/-- Steps that are left at most. -/
def rank (s : PoolState α) : Nat :=
  4 * s.coming.length + 3 * s.waiting.length + 2 * s.running.length + s.ended.length

end PoolState

section

variable {α : Type} (workers : Int) (job : String → Except Failure α)

/-- What can happen next. Reports are taken in once all names are handed in. -/
inductive PoolStep : PoolState α → PoolState α → Prop
  | handIn {s : PoolState α} {name : String} {rest : List String} (h : s.coming = name :: rest) :
      PoolStep s { s with coming := rest, waiting := s.waiting ++ [name] }
  | start {s : PoolState α} {name : String} (h : name ∈ s.waiting)
      (hfree : (s.running.length : Int) < workers) :
      PoolStep s { s with waiting := s.waiting.erase name, running := name :: s.running }
  | finish {s : PoolState α} {name : String} (h : name ∈ s.running) :
      PoolStep s { s with running := s.running.erase name, ended := name :: s.ended }
  | take {s : PoolState α} {name : String} {a : α} (hcoming : s.coming = [])
      (hfailure : s.failure = none) (h : name ∈ s.ended) (hjob : job name = .ok a) :
      PoolStep s { s with ended := s.ended.erase name, taken := s.taken ++ [(name, a)] }
  | fail {s : PoolState α} {name : String} {e : Failure} (hcoming : s.coming = [])
      (hfailure : s.failure = none) (h : name ∈ s.ended) (hjob : job name = .error e) :
      PoolStep s { s with ended := s.ended.erase name, failure := some e }
  | cancel {s : PoolState α} {name : String} (hfailure : s.failure.isSome = true)
      (h : name ∈ s.waiting) : PoolStep s { s with waiting := s.waiting.erase name }

/-- A run of the pool from one state to another. -/
def PoolRun : PoolState α → PoolState α → Prop := Relation.ReflTransGen (PoolStep workers job)

end

namespace PoolStep

variable {α : Type} {workers : Int} {job : String → Except Failure α} {s t : PoolState α}

theorem rank_lt (h : PoolStep workers job s t) : t.rank < s.rank := by
  unfold PoolState.rank
  cases h with
  | handIn h =>
    simp only [h, List.length_cons, List.length_append, List.length_nil]
    omega
  | start h | finish h =>
    have hlength := List.length_erase_add_one h
    simp only [List.length_cons]
    omega
  | take _ _ h | fail _ _ h | cancel _ h =>
    have hlength := List.length_erase_add_one h
    dsimp only
    omega

/-- No run goes on for ever. -/
theorem wellFounded : WellFounded fun t s : PoolState α => PoolStep workers job s t :=
  Subrelation.wf (fun h => h.rank_lt) (measure PoolState.rank).wf

/-- With a worker at hand, a pool that is not done can go on. -/
theorem over_or_exists (hworkers : 1 ≤ workers) (s : PoolState α) :
    s.Over ∨ ∃ t, PoolStep workers job s t := by
  cases hcoming : s.coming with
  | cons name rest => exact .inr ⟨_, .handIn hcoming⟩
  | nil =>
    cases hrunning : s.running with
    | cons name rest =>
      have hmem : name ∈ s.running := by simp [hrunning]
      exact .inr ⟨_, .finish hmem⟩
    | nil =>
      cases hwaiting : s.waiting with
      | cons name rest =>
        have hmem : name ∈ s.waiting := by simp [hwaiting]
        have hfree : (s.running.length : Int) < workers := by
          simp only [hrunning, List.length_nil]
          omega
        exact .inr ⟨_, .start hmem hfree⟩
      | nil =>
        cases hfailure : s.failure with
        | some e => exact .inl ⟨hcoming, hwaiting, hrunning, by simp [hfailure]⟩
        | none =>
          cases hended : s.ended with
          | nil => exact .inl ⟨hcoming, hwaiting, hrunning, fun _ => hended⟩
          | cons name rest =>
            have hmem : name ∈ s.ended := by simp [hended]
            cases hjob : job name with
            | ok a => exact .inr ⟨_, .take hcoming hfailure hmem hjob⟩
            | error e => exact .inr ⟨_, .fail hcoming hfailure hmem hjob⟩

/-- A step moves a name on; only a failure and what is cancelled after it drop out. -/
theorem count_names (h : PoolStep workers job s t) (x : String) :
    t.names.count x ≤ s.names.count x ∧
      (t.failure = none → t.names.count x = s.names.count x) := by
  unfold PoolState.names
  cases h with
  | handIn h =>
    simp only [h, List.count_append, List.count_cons, List.count_nil]
    omega
  | start h | finish h =>
    have hcount := (List.perm_cons_erase h).count_eq x
    simp only [List.count_append, List.count_cons] at hcount ⊢
    omega
  | take _ _ h =>
    have hcount := (List.perm_cons_erase h).count_eq x
    simp only [List.map_append, List.map_cons, List.map_nil, List.count_append, List.count_cons,
      List.count_nil] at hcount ⊢
    omega
  | fail _ _ h =>
    have hcount := (List.perm_cons_erase h).count_eq x
    simp only [List.count_append, List.count_cons] at hcount ⊢
    exact ⟨by omega, nofun⟩
  | cancel hsome h =>
    have hcount := (List.perm_cons_erase h).count_eq x
    simp only [List.count_append, List.count_cons] at hcount ⊢
    refine ⟨by omega, fun hnone => ?_⟩
    simp [hnone] at hsome

end PoolStep

variable {α : Type} {workers : Int} {job : String → Except Failure α}

/-- What holds all along a run over these names. -/
structure PoolState.Sound (ordered : List String) (job : String → Except Failure α)
    (s : PoolState α) : Prop where
  known : ∀ name ∈ s.names, name ∈ ordered
  kept : s.failure = none → s.names.Perm ordered
  results : ∀ p ∈ s.taken, job p.1 = .ok p.2
  failed : ∀ e, s.failure = some e → ∃ name ∈ ordered, job name = .error e

theorem PoolStep.sound {ordered : List String} {s t : PoolState α} (h : PoolStep workers job s t)
    (hs : s.Sound ordered job) : t.Sound ordered job := by
  have hknown : ∀ name ∈ t.names, name ∈ ordered := by
    intro name hname
    refine hs.known name (List.count_pos_iff.mp ?_)
    exact Nat.lt_of_lt_of_le (List.count_pos_iff.mpr hname) (h.count_names name).1
  have hkept : t.failure = none → s.failure = none → t.names.Perm ordered := fun ht hnone =>
    (List.perm_iff_count.mpr fun x => (h.count_names x).2 ht).trans (hs.kept hnone)
  cases h with
  | handIn | start | finish => exact ⟨hknown, fun h => hkept h h, hs.results, hs.failed⟩
  | take _ hfailure _ hjob =>
    refine ⟨hknown, fun h => hkept h h, ?_, hs.failed⟩
    intro p hp
    rcases List.mem_append.mp hp with hp | hp
    · exact hs.results p hp
    · obtain rfl := List.mem_singleton.mp hp
      exact hjob
  | @fail name e _ _ hmem hjob =>
    refine ⟨hknown, nofun, hs.results, ?_⟩
    rintro _ ⟨rfl⟩
    exact ⟨name, hs.known name (by simp [PoolState.names, hmem]), hjob⟩
  | cancel hsome =>
    refine ⟨hknown, fun h => ?_, hs.results, hs.failed⟩
    rw [h] at hsome
    cases hsome

theorem PoolRun.sound {ordered : List String} {s : PoolState α}
    (h : PoolRun workers job (.initial ordered) s) : s.Sound ordered job := by
  induction h with
  | refl => exact ⟨by simp [PoolState.names, PoolState.initial],
      fun _ => by simp [PoolState.names, PoolState.initial], nofun, nofun⟩
  | tail _ hstep ih => exact hstep.sound ih

/-! Every order of reports can come about. -/

section

variable (workers job)

theorem PoolRun.handInAll (coming waiting : List String) (taken : List (String × α)) :
    PoolRun workers job ⟨coming, waiting, [], [], taken, none⟩
      ⟨[], waiting ++ coming, [], [], taken, none⟩ := by
  induction coming generalizing waiting with
  | nil =>
    rw [List.append_nil]
    exact .refl
  | cons name coming ih =>
    have hrest := ih (waiting ++ [name])
    rw [List.append_assoc, List.singleton_append] at hrest
    exact .head (.handIn rfl) hrest

theorem PoolRun.cancelAll (waiting : List String) (taken : List (String × α)) (e : Failure) :
    PoolRun workers job ⟨[], waiting, [], [], taken, some e⟩
      ⟨[], [], [], [], taken, some e⟩ := by
  induction waiting with
  | nil => exact .refl
  | cons name waiting ih =>
    have hstep : PoolStep workers job ⟨[], name :: waiting, [], [], taken, some e⟩
        ⟨[], (name :: waiting).erase name, [], [], taken, some e⟩ :=
      .cancel rfl List.mem_cons_self
    rw [List.erase_cons_head] at hstep
    exact .head hstep ih

end

/-- One job after the other, in the order given. -/
theorem PoolRun.reportAll (job : String → Except Failure α) (hworkers : 1 ≤ workers)
    {order waiting : List String} (hperm : waiting.Perm order) (taken : List (String × α)) :
    ∃ s : PoolState α, PoolRun workers job ⟨[], waiting, [], [], taken, none⟩ s ∧ s.Over ∧
      match takeReports job order with
      | .ok reports => s.failure = none ∧ s.taken = taken ++ reports
      | .error e => s.failure = some e := by
  induction order generalizing waiting taken with
  | nil =>
    obtain rfl := hperm.eq_nil
    exact ⟨_, .refl, ⟨rfl, rfl, rfl, fun _ => rfl⟩, by simp [takeReports]⟩
  | cons name order ih =>
    have hmem : name ∈ waiting := hperm.mem_iff.mpr List.mem_cons_self
    have hrest : (waiting.erase name).Perm order := by
      simpa using hperm.erase name
    have hfree : (([] : List String).length : Int) < workers := by
      simp only [List.length_nil]
      omega
    have hended : PoolRun workers job ⟨[], waiting, [], [], taken, none⟩
        ⟨[], waiting.erase name, [], [name], taken, none⟩ := by
      refine .head (.start hmem hfree) (.head (.finish List.mem_cons_self) ?_)
      rw [List.erase_cons_head]
    rw [takeReports]
    cases hjob : job name with
    | error e =>
      have hfail : PoolStep workers job ⟨[], waiting.erase name, [], [name], taken, none⟩
          ⟨[], waiting.erase name, [], [name].erase name, taken, some e⟩ :=
        .fail rfl rfl List.mem_cons_self hjob
      rw [List.erase_cons_head] at hfail
      have hcancel := PoolRun.cancelAll workers job (waiting.erase name) taken e
      exact ⟨_, (hended.tail hfail).trans hcancel, ⟨rfl, rfl, rfl, fun _ => rfl⟩, rfl⟩
    | ok a =>
      have htake : PoolStep workers job ⟨[], waiting.erase name, [], [name], taken, none⟩
          ⟨[], waiting.erase name, [], [name].erase name, taken ++ [(name, a)], none⟩ :=
        .take rfl rfl List.mem_cons_self hjob
      rw [List.erase_cons_head] at htake
      obtain ⟨s, hrun, hover, hs⟩ := ih hrest (taken ++ [(name, a)])
      refine ⟨s, (hended.tail htake).trans hrun, hover, ?_⟩
      cases hreports : takeReports job order with
      | error e =>
        rw [hreports] at hs
        exact hs
      | ok reports =>
        rw [hreports] at hs
        exact ⟨hs.1, by simpa using hs.2⟩

end SuiteOutline
