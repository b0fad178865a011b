import Tracebed.Lib.PyText
import Tracebed.Lib.Table

/-!
# The Cadence of the Scheduler

A `Scheduler` keeps a due time for each job. A tick calls a job once for each interval past its due
time, up to a bound, and then skips the backlog (`runs_elapsed`). Times are exact rationals of
milliseconds.
-/

open Py Table List

namespace Tracebed

/-- `_MAX_CATCH_UP_RUNS_PER_TICK`. -/
def maxCatchUpRunsPerTick : ℕ := 100000

/-- `ScheduledJob`; its construction refuses an empty name and an interval that is not positive. -/
structure ScheduledJob where
  name : PyStr
  interval : ℚ
  named : name ≠ []
  positive : 0 < interval

/-- The whole intervals of the job between two instants. -/
def ScheduledJob.elapsed (job : ScheduledJob) (start now : ℚ) : ℤ := ⌊(now - start) / job.interval⌋

/-- The calls of `job.run` with whether they raised, the newest first. -/
abbrev Calls := List (PyStr × Bool)

/-- `Scheduler`: `_due_at_ms`, the calls made and what the last tick returned. -/
structure Scheduler where
  dueAt : PyStr → ℚ
  calls : Calls
  fired : List (PyStr × ℕ)

namespace Scheduler

variable {jobs : List ScheduledJob} {job other : ScheduledJob} {s : Scheduler} {start now due : ℚ}
  {left count : ℕ} {calls : Calls} {onTime : Prop}

/-- `__init__`; a duplicate name is a `ValueError` that lists the names. -/
def init (start : ℚ) (jobs : List ScheduledJob) : Except (List PyStr) Scheduler :=
  if (jobs.map ScheduledJob.name).Nodup then
    .ok ⟨fun name => start + (jobs.find? (·.name = name)).elim 0 ScheduledJob.interval, [], []⟩
  else .error ((jobs.map ScheduledJob.name).insertionSort (· ≤ ·))

/-- `SCHEDULER_JOB_RUNS` of a job, which counts the calls that raised too. -/
def runs (job : ScheduledJob) (calls : Calls) : ℕ := calls.countP (·.1 = job.name)

-- whether a call raises may depend on all calls before it
variable (raises : Calls → PyStr → Bool)

/-- The loop of one job, `left` runs below the bound of a tick. -/
def catchUp (job : ScheduledJob) (now : ℚ) : ℕ → ℚ → ℕ → Calls → ℚ × ℕ × Calls
  | 0, due, count, calls => (if due ≤ now then now + job.interval else due, count, calls)
  | left + 1, due, count, calls =>
    if due ≤ now then
      catchUp job now left (due + job.interval) (count + 1)
        ((job.name, raises calls job.name) :: calls)
    else (due, count, calls)

/-- One job of a tick. -/
def serve (now : ℚ) (s : Scheduler) (job : ScheduledJob) : Scheduler :=
  let r := catchUp raises job now maxCatchUpRunsPerTick (s.dueAt job.name) 0 s.calls
  { dueAt := Function.update s.dueAt job.name r.1
    calls := r.2.2
    fired := if r.2.1 = 0 then s.fired else s.fired ++ [(job.name, r.2.1)] }

/-- `tick` at a reading of the clock. -/
def tick (jobs : List ScheduledJob) (s : Scheduler) (now : ℚ) : Scheduler :=
  jobs.foldl (serve raises now) { s with fired := [] }

/-! ### The pace of a job -/

/-- When a job is due, and how often it has run. -/
def pace (job : ScheduledJob) (s : Scheduler) : ℚ × ℕ := (s.dueAt job.name, runs job s.calls)

/-- A job has not run more often than its interval allows and is not due before the next one; on
time, it is due right then. -/
structure Paced (job : ScheduledJob) (start now : ℚ) (onTime : Prop) (p : ℚ × ℕ) : Prop where
  ran : start + p.2 * job.interval ≤ now
  next : start + (p.2 + 1) * job.interval ≤ p.1
  sharp : onTime → p.1 = start + (p.2 + 1) * job.interval

/-- A job on time, served up to `now`, has run once per elapsed interval. -/
theorem Paced.elapsed {p : ℚ × ℕ} (h : Paced job start now onTime p) (hon : onTime)
    (hnow : now < p.1) : job.elapsed start now = p.2 := by
  have hran := h.ran
  rw [h.sharp hon] at hnow
  rw [ScheduledJob.elapsed, Int.floor_eq_iff, le_div_iff₀ job.positive, div_lt_iff₀ job.positive]
  push_cast
  constructor <;> linarith

/-- The loop of a job keeps its pace, on time unless the bound stops it. -/
theorem catchUp_paced (h : Paced job start now onTime (due, runs job calls))
    (hleft : onTime → now < start + (runs job calls + left + 1) * job.interval) :
    Paced job start now onTime ((catchUp raises job now left due count calls).1,
        runs job (catchUp raises job now left due count calls).2.2) ∧
      now < (catchUp raises job now left due count calls).1 := by
  have hpos := job.positive
  obtain ⟨hran, hnext, hsharp⟩ := h
  dsimp only at hran hnext hsharp
  induction left generalizing due count calls with
  | zero =>
    rw [catchUp]
    split_ifs with hdue
    · refine ⟨⟨hran, by dsimp only; linarith, fun hon => ?_⟩, by dsimp only; linarith⟩
      have := hleft hon
      have := hsharp hon
      push_cast at *
      linarith
    · exact ⟨⟨hran, hnext, hsharp⟩, not_le.mp hdue⟩
  | succ left ih =>
    rw [catchUp]
    split_ifs with hdue
    · have hruns : runs job ((job.name, raises calls job.name) :: calls) = runs job calls + 1 := by
        simp [runs]
      apply ih <;> rw [hruns] <;> push_cast at hleft ⊢
      · exact fun hon => by linarith [hleft hon]
      · linarith
      · linarith
      · exact fun hon => by linarith [hsharp hon]
    · exact ⟨⟨hran, hnext, hsharp⟩, not_le.mp hdue⟩

/-- The loop of a job calls no other. -/
theorem runs_catchUp (hne : job.name ≠ other.name) :
    runs job (catchUp raises other now left due count calls).2.2 = runs job calls := by
  induction left generalizing due count calls with
  | zero => rfl
  | succ left ih =>
    rw [catchUp]
    split_ifs
    · rw [ih]
      simp [runs, hne.symm]
    · rfl

theorem pace_foldl_serve (h : job.name ∉ jobs.map ScheduledJob.name) :
    pace job (jobs.foldl (serve raises now) s) = pace job s := by
  induction jobs generalizing s with
  | nil => rfl
  | cons other jobs ih =>
    obtain ⟨hne, h⟩ := not_or.mp (mt mem_cons.mpr h)
    rw [foldl_cons, ih h]
    exact Prod.ext (Function.update_of_ne hne _ _) (runs_catchUp raises hne)

theorem tick_paced (hnames : (jobs.map ScheduledJob.name).Nodup) (hjob : job ∈ jobs)
    (h : Paced job start now onTime (pace job s)) (howed : onTime →
      now < start + ((pace job s).2 + maxCatchUpRunsPerTick + 1) * job.interval) :
    Paced job start now onTime (pace job (tick raises jobs s now)) ∧
      now < (pace job (tick raises jobs s now)).1 := by
  obtain ⟨before, after, rfl⟩ := append_of_mem hjob
  rw [map_append, map_cons, nodup_middle, nodup_cons, mem_append, not_or] at hnames
  have hsame : pace job (before.foldl (serve raises now) { s with fired := [] }) = pace job s :=
    pace_foldl_serve raises hnames.1.1
  rw [tick, foldl_append, foldl_cons, pace_foldl_serve raises hnames.1.2]
  rw [← hsame] at h howed
  simp only [pace, serve, Function.update_self]
  exact catchUp_paced raises h howed

/-- The ticks of a run keep the pace of each job; it stays on time if no tick owes it more than
the bound. -/
theorem ticks_paced (hnames : (jobs.map ScheduledJob.name).Nodup) (hjob : job ∈ jobs)
    {readings : List ℚ} (hmono : (now :: readings).IsChain (· ≤ ·))
    (h : Paced job start now onTime (pace job s)) (hnow : now < (pace job s).1)
    (howed : onTime → (now :: readings).IsChain fun t t' =>
      job.elapsed start t' - job.elapsed start t ≤ maxCatchUpRunsPerTick) :
    Paced job start (readings.getLastD now) onTime
        (pace job (readings.foldl (tick raises jobs) s)) ∧
      readings.getLastD now < (pace job (readings.foldl (tick raises jobs) s)).1 := by
  induction readings generalizing now s with
  | nil => exact ⟨h, hnow⟩
  | cons t readings ih =>
    obtain ⟨hle, hmono⟩ := isChain_cons_cons.mp hmono
    rw [getLastD_cons, foldl_cons]
    obtain ⟨hpaced, hlt⟩ := tick_paced raises hnames hjob ⟨h.ran.trans hle, h.next, h.sharp⟩ <| by
      intro hon
      have howes := (isChain_cons_cons.mp (howed hon)).1
      rw [h.elapsed hon hnow, ScheduledJob.elapsed, sub_le_iff_le_add, ← Int.lt_add_one_iff,
        Int.floor_lt, div_lt_iff₀ job.positive] at howes
      push_cast at howes
      linarith
    exact ih hmono hpaced hlt fun hon => (isChain_cons_cons.mp (howed hon)).2

/-- **The cadence does not depend on the ticks.** Whatever raises and however often the clock is
read, a job has run at most once per interval since the start, and exactly as often if no tick
owes it more runs than the bound. -/
theorem runs_elapsed (hnames : (jobs.map ScheduledJob.name).Nodup) {readings : List ℚ}
    (hmono : (start :: readings).IsChain (· ≤ ·)) :
    ∃ s, init start jobs = .ok s ∧ ∀ job ∈ jobs,
      (runs job (readings.foldl (tick raises jobs) s).calls : ℤ) ≤
          job.elapsed start (readings.getLastD start) ∧
        (((start :: readings).IsChain fun t t' =>
            job.elapsed start t' - job.elapsed start t ≤ maxCatchUpRunsPerTick) →
          runs job (readings.foldl (tick raises jobs) s).calls =
            job.elapsed start (readings.getLastD start)) := by
  refine ⟨_, if_pos hnames, fun job hjob => ?_⟩
  have hpos := job.positive
  -- a name is found at its own job
  have hfind : jobs.find? (·.name = job.name) = some job := by
    cases hfind : jobs.find? (·.name = job.name) with
    | none => simpa using find?_eq_none.mp hfind job hjob
    | some other => rw [Table.Keyed.eq_of_key hnames (mem_of_find?_eq_some hfind) hjob
        (by simpa using find?_some hfind)]
  have hstart : pace job ⟨fun name => start + (jobs.find? (·.name = name)).elim 0
      ScheduledJob.interval, [], []⟩ = (start + job.interval, 0) := by
    simp [pace, hfind, runs]
  have hpaced : ∀ onTime, Paced job start start onTime (start + job.interval, 0) := by
    intro onTime
    constructor <;> simp
  rw [← hstart] at hpaced
  obtain ⟨hpaced, hlt⟩ := ticks_paced raises hnames hjob hmono (hpaced _) (by simpa [hstart]) id
  refine ⟨?_, fun howed => (hpaced.elapsed howed hlt).symm⟩
  rw [ScheduledJob.elapsed, Int.le_floor, le_div_iff₀ hpos]
  push_cast
  exact le_sub_iff_add_le'.mpr hpaced.ran

def sampleJob : ScheduledJob := ⟨str "gc", 1000, by decide, by norm_num⟩

/-- A job that always raises, read after two and a half seconds and after seven. -/
theorem runs_elapsed_sample : ∃ s, init 0 [sampleJob] = .ok s ∧
    runs sampleJob ([2500, 7000].foldl (tick (fun _ _ => true) [sampleJob]) s).calls = 7 := by
  have hmono : [(0 : ℚ), 2500, 7000].IsChain (· ≤ ·) := by norm_num
  have hnames : ([sampleJob].map ScheduledJob.name).Nodup := by simp
  obtain ⟨s, hs, hruns⟩ := runs_elapsed (fun _ _ => true) hnames hmono
  have hexact := (hruns sampleJob (by simp)).2 (by
    norm_num [ScheduledJob.elapsed, sampleJob, maxCatchUpRunsPerTick])
  refine ⟨s, hs, Int.natCast_inj.mp (hexact.trans ?_)⟩
  norm_num [ScheduledJob.elapsed, sampleJob]

end Scheduler

end Tracebed
