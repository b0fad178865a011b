import Tracebed.LiftStatistics
import Tracebed.Lib.Json

/-!
# The Kill Switch

`workers/killswitch.py`: a cell (an agent type and a memory type) is disabled if its daily lift
estimates were adverse on every day of an unbroken window, each with enough observations, and its
latest one-sided p-value survives the correction across all cells. A day is the ordinal of a UTC
date, and a history is the list of snapshots the store returned, in any order. Which cells are
written does not depend on the order of cells and snapshots (`apply_disables_iff`).
-/

open Py Fallible StepUp List

namespace Tracebed.KillSwitch

/-- `StratumKey`: an agent type and a memory type. -/
abbrev StratumKey := AgentTypeId × MemType

/-- `TriggerReason`. -/
inductive TriggerReason
  | taskQualityLift
  | safetyViolationRate
  deriving DecidableEq

/-- `TriggerReason.value`. -/
def TriggerReason.text : TriggerReason → PyStr
  | taskQualityLift => str "task_quality_lift"
  | safetyViolationRate => str "safety_violation_rate"

/-- `AdverseDirection.value`. -/
def AdverseDirection.text : AdverseDirection → PyStr
  | .lower => str "lower"
  | .higher => str "higher"

/-- `DailyLiftSnapshot`: one day's estimate of one cell. -/
structure DailyLiftSnapshot where
  day : ℤ
  estimate : LiftEstimate
  scoringEpochId : Option ℤ

/-- The fields of `KillswitchConfig` that the evaluation reads. -/
structure KillswitchConfig where
  windowDays : ℤ
  minCellN : ℤ

/-! ### One cell -/

/-- `SustainedResult`. -/
structure SustainedResult where
  sustained : Bool
  minNSatisfied : Bool
  latestEstimate : Option LiftEstimate
  daysCovered : ℕ

/-- The day lies in the window. -/
def inWindow (start now : ℤ) (snap : DailyLiftSnapshot) : Bool :=
  start ≤ snap.day && snap.day ≤ now

/-- The snapshot was judged under the expected epoch, if one is expected. -/
def epochOk (expected : Option ℤ) (snap : DailyLiftSnapshot) : Bool :=
  expected.all fun e => snap.scoringEpochId = some e

/-- One turn of the loop that fills `by_day`. -/
def collect (start now : ℤ) (expected : Option ℤ) (byDay : List (ℤ × LiftEstimate))
    (snap : DailyLiftSnapshot) : Except KillswitchError (List (ℤ × LiftEstimate)) :=
  if inWindow start now snap = false then .ok byDay
  else if (byDay.lookup snap.day).isSome then
    .error (.valueError "two DailyLiftSnapshots for one day")
  else if epochOk expected snap = false then .error .crossEpochComparison
  else .ok (byDay ++ [(snap.day, snap.estimate)])

/-- `now - timedelta(days=days)`: dates start with ordinal 1. -/
def minusDays (now days : ℤ) : Except KillswitchError ℤ :=
  if 1 ≤ now - days then .ok (now - days) else .error .overflowError

variable (cfg : KillswitchConfig)

def requiredDays (start : ℤ) : List ℤ :=
  (range cfg.windowDays.toNat).map fun i : ℕ => start + i

def enoughObservations (est : LiftEstimate) : Bool :=
  cfg.minCellN ≤ est.nTreatment && cfg.minCellN ≤ est.nControl

/-- The second half of `evaluate_sustained`: the verdict on the collected days. -/
def sustainedResult (start now : ℤ) (direction : AdverseDirection)
    (byDay : List (ℤ × LiftEstimate)) : SustainedResult :=
  let daysCovered := (requiredDays cfg start).countP fun d => (byDay.lookup d).isSome
  let latest := byDay.lookup now
  if (daysCovered : ℤ) ≠ cfg.windowDays then ⟨false, false, latest, daysCovered⟩
  else
    let windowEstimates := (requiredDays cfg start).filterMap (byDay.lookup ·)
    ⟨windowEstimates.all (isAdverse · direction), windowEstimates.all (enoughObservations cfg),
      latest, daysCovered⟩

/-- `evaluate_sustained`. -/
def evaluateSustained (history : List DailyLiftSnapshot) (cfg : KillswitchConfig) (now : ℤ)
    (direction : AdverseDirection) (expectedEpoch : Option ℤ) :
    Except KillswitchError SustainedResult := do
  ensure (1 ≤ cfg.windowDays) (.valueError "window_days must be at least 1")
  ensure (1 ≤ cfg.minCellN) (.valueError "min_cell_n must be at least 1")
  let start ← minusDays now (cfg.windowDays - 1)
  let byDay ← history.foldlM (collect start now expectedEpoch) []
  .ok (sustainedResult cfg start now direction byDay)

/-! ### The grid -/

/-- `history_by_cell`: a mapping from cells to histories. -/
structure Grid where
  cells : List (StratumKey × List DailyLiftSnapshot)
  nodup : (cells.map Prod.fst).Nodup

/-- The same cells with the same snapshots, listed in another order. -/
def Grid.Reordered (grid grid' : Grid) : Prop :=
  ∃ cells, List.Forall₂ (fun c c' => c'.1 = c.1 ∧ c'.2.Perm c.2) grid.cells cells ∧
    grid'.cells.Perm cells

/-- `TriggerDecision`. -/
structure TriggerDecision where
  agentTypeId : AgentTypeId
  memType : MemType
  reason : TriggerReason
  shouldDisable : Bool
  sustained : Bool
  minNSatisfied : Bool
  bhSignificant : Bool
  latestEstimate : Option LiftEstimate
  evidence : Dict

variable (direction : AdverseDirection)

/-- The part of `_evidence` that describes an estimate. -/
def estimateEvidence (estimate : LiftEstimate) : Dict :=
  [(str "lower_bound", .float estimate.lowerBound),
    (str "point_estimate", .float estimate.pointEstimate),
    (str "p_value", .float estimate.pValue),
    (str "n_treatment", .int estimate.nTreatment),
    (str "n_control", .int estimate.nControl),
    (str "confidence", .float estimate.confidence),
    (str "directional_p_value", .float (directionalPValue estimate direction))]

/-- `_evidence`, as `evaluate_grid` calls it. -/
def evidence (reason : TriggerReason) (direction : AdverseDirection) (cfg : KillswitchConfig)
    (epoch : Option ℤ) (result : SustainedResult) (bhSignificant : Bool) : Dict :=
  [(str "source", .str (str "auto_killswitch")),
    (str "reason", .str reason.text),
    (str "adverse_direction", .str direction.text),
    (str "sustained", .bool result.sustained),
    (str "min_n_satisfied", .bool result.minNSatisfied),
    (str "bh_significant", .bool bhSignificant),
    (str "days_covered", .int result.daysCovered),
    (str "window_days", .int cfg.windowDays)] ++
    (result.latestEstimate.map (estimateEvidence direction)).getD [] ++
    (epoch.map fun e => [(str "scoring_epoch_id", .int e)]).getD []

/-- The p-value a cell enters the correction with. -/
def cellPValue (result : SustainedResult) : PyFloat :=
  match result.latestEstimate with
  | some latest => directionalPValue latest direction
  | none => .fin 1

/-- One cell's decision. -/
def decision (reason : TriggerReason) (direction : AdverseDirection) (cfg : KillswitchConfig)
    (epoch : Option ℤ) (key : StratumKey) (result : SustainedResult) (bhSignificant : Bool) :
    TriggerDecision where
  agentTypeId := key.1
  memType := key.2
  reason := reason
  shouldDisable := result.sustained && result.minNSatisfied && bhSignificant
  sustained := result.sustained
  minNSatisfied := result.minNSatisfied
  bhSignificant := bhSignificant
  latestEstimate := result.latestEstimate
  evidence := evidence reason direction cfg epoch result bhSignificant

/-- The arguments of `evaluate_grid` besides the grid. -/
structure Evaluation where
  cfg : KillswitchConfig
  reason : TriggerReason
  direction : AdverseDirection
  bhAlpha : PyFloat
  scoringEpochId : Option ℤ
  now : ℤ

variable (e : Evaluation)

/-- `KillswitchGridEvaluator.evaluate_grid`, with the day of the evaluation. -/
def evaluateGrid (grid : Grid) : Except KillswitchError (List (StratumKey × TriggerDecision)) := do
  let results ← grid.cells.mapM fun cell =>
    evaluateSustained cell.2 e.cfg e.now e.direction e.scoringEpochId
  let rejected ← benjaminiHochberg (results.map (cellPValue e.direction)) e.bhAlpha
  .ok (((grid.cells.map Prod.fst).zip (results.zip rejected)).map fun (key, result, bh) =>
    (key, decision e.reason e.direction e.cfg e.scoringEpochId key result bh))

/-- A row that `write_killswitch_state` writes. -/
structure KillswitchWrite where
  projectId : ProjectId
  agentTypeId : AgentTypeId
  memType : MemType
  disabled : Bool
  evidence : Dict
  changedAt : ℤ

/-- `KillswitchGridEvaluator.apply`, on a store that takes its writes: the rows it writes, in
order. -/
def apply (project : ProjectId) (decisions : List (StratumKey × TriggerDecision)) (moment : ℤ) :
    List KillswitchWrite :=
  (decisions.filter (·.2.shouldDisable)).map fun d =>
    ⟨project, d.1.1, d.1.2, true, d.2.evidence, moment⟩

/-- The cell a row is about. -/
def KillswitchWrite.key (w : KillswitchWrite) : StratumKey := (w.agentTypeId, w.memType)

/-! ### What the window holds -/

def window (start now : ℤ) (history : List DailyLiftSnapshot) : List DailyLiftSnapshot :=
  history.filter (inWindow start now)

theorem lookup_isSome_iff {byDay : List (ℤ × LiftEstimate)} {d : ℤ} :
    (byDay.lookup d).isSome ↔ d ∈ byDay.map Prod.fst := by
  rw [List.lookup_isSome_iff, List.mem_map]
  simp only [beq_iff_eq, eq_comm (a := d)]

variable {s : DailyLiftSnapshot}

/-- A snapshot of the window is taken exactly if its day is new and its epoch the expected
one. -/
theorem collect_eq_ok {start now : ℤ} {expected : Option ℤ} {acc acc' : List (ℤ × LiftEstimate)}
    (hin : inWindow start now s = true) :
    collect start now expected acc s = .ok acc' ↔
      s.day ∉ acc.map Prod.fst ∧ epochOk expected s = true ∧
        acc' = acc ++ [(s.day, s.estimate)] := by
  rw [← lookup_isSome_iff, collect, hin]
  cases hl : (acc.lookup s.day).isSome with
  | true => simp
  | false =>
    cases he : epochOk expected s with
    | false => simp
    | true => simp [eq_comm]

/-- The loop accepts a history exactly if the days of the window are new and distinct and
every snapshot of the window is of the expected epoch; it collects the window. -/
theorem collect_ok_iff (start now : ℤ) (expected : Option ℤ) (history : List DailyLiftSnapshot)
    (acc byDay : List (ℤ × LiftEstimate)) :
    history.foldlM (collect start now expected) acc = .ok byDay ↔
      byDay = acc ++ (window start now history).map (fun s => (s.day, s.estimate)) ∧
      ((window start now history).map (·.day)).Nodup ∧
      (∀ s ∈ window start now history, s.day ∉ acc.map Prod.fst) ∧
      ∀ s ∈ window start now history, epochOk expected s = true := by
  induction history generalizing acc with
  | nil =>
    refine ⟨fun h => ?_, fun h => ?_⟩
    · cases h
      exact ⟨by simp [window], by simp [window], by simp [window], by simp [window]⟩
    · rw [h.1]
      simp [window, pure, Except.pure]
  | cons s history ih =>
    rw [foldlM_cons, bind_eq_ok]
    cases hin : inWindow start now s with
    | false =>
      have hwin : window start now (s :: history) = window start now history :=
        filter_cons_of_neg (by simp [hin])
      have hstep : collect start now expected acc s = .ok acc := if_pos hin
      rw [hwin, ← ih acc, hstep]
      simp
    | true =>
      have hwin : window start now (s :: history) = s :: window start now history :=
        filter_cons_of_pos hin
      rw [hwin, map_cons, map_cons, nodup_cons, forall_mem_cons, forall_mem_cons]
      constructor
      · rintro ⟨acc', hacc, h⟩
        obtain ⟨hnew, hepoch, rfl⟩ := (collect_eq_ok hin).mp hacc
        obtain ⟨rfl, hnodup, hdays, hepochs⟩ := (ih _).mp h
        have hdays' : ∀ t ∈ window start now history, t.day ∉ acc.map Prod.fst ∧ t.day ≠ s.day := by
          intro t ht
          simpa [not_or] using hdays t ht
        refine ⟨by simp, ⟨?_, hnodup⟩, ⟨hnew, fun t ht => (hdays' t ht).1⟩, hepoch, hepochs⟩
        intro hmem
        obtain ⟨t, ht, hday⟩ := mem_map.mp hmem
        exact (hdays' t ht).2 hday
      · rintro ⟨rfl, ⟨hnot, hnodup⟩, ⟨hnew, hdays⟩, hepoch, hepochs⟩
        refine ⟨_, (collect_eq_ok hin).mpr ⟨hnew, hepoch, rfl⟩, (ih _).mpr ?_⟩
        refine ⟨by simp, hnodup, fun t ht => ?_, hepochs⟩
        have hne : t.day ≠ s.day := fun he => hnot (he ▸ mem_map_of_mem ht)
        simpa [hne] using hdays t ht

/-! ### What a cell's result says -/

namespace Evaluation

/-- The parameters of an evaluation that no cell influences are sound. -/
structure Sound (e : Evaluation) : Prop where
  windowDays : 1 ≤ e.cfg.windowDays
  minCellN : 1 ≤ e.cfg.minCellN
  start : 1 ≤ e.now - (e.cfg.windowDays - 1)

/-- The first day of the window. -/
def start : ℤ := e.now - (e.cfg.windowDays - 1)

/-- The snapshots of a history that lie in the window of an evaluation. -/
def window (history : List DailyLiftSnapshot) : List DailyLiftSnapshot :=
  KillSwitch.window e.start e.now history

/-- The window of a history is accepted: no day twice, and one epoch if one is expected. -/
def Accepts (history : List DailyLiftSnapshot) : Prop :=
  ((e.window history).map (·.day)).Nodup ∧
    ∀ s ∈ e.window history, epochOk e.scoringEpochId s = true

/-- The estimates of the window, by day. -/
def byDay (history : List DailyLiftSnapshot) : List (ℤ × LiftEstimate) :=
  (e.window history).map fun s => (s.day, s.estimate)

/-- The result of an accepted cell. -/
def result (history : List DailyLiftSnapshot) : SustainedResult :=
  sustainedResult e.cfg e.start e.now e.direction (e.byDay history)

variable {e : Evaluation} {d : ℤ} {history history' : List DailyLiftSnapshot} {grid grid' : Grid}

theorem mem_requiredDays : d ∈ requiredDays e.cfg e.start ↔ e.start ≤ d ∧ d ≤ e.now := by
  rw [requiredDays, mem_map]
  constructor
  · rintro ⟨i, hi, rfl⟩
    have hi := mem_range.mp hi
    simp only [start]
    omega
  · rintro ⟨h₁, h₂⟩
    refine ⟨(d - e.start).toNat, mem_range.mpr ?_, ?_⟩
    · simp only [start] at *
      omega
    · omega

theorem mem_window : s ∈ e.window history ↔ s ∈ history ∧ e.start ≤ s.day ∧ s.day ≤ e.now := by
  rw [window, KillSwitch.window, mem_filter, inWindow, Bool.and_eq_true,
    decide_eq_true_eq, decide_eq_true_eq]

theorem evaluateSustained_ok_iff (e : Evaluation) (history : List DailyLiftSnapshot)
    (r : SustainedResult) :
    evaluateSustained history e.cfg e.now e.direction e.scoringEpochId = .ok r ↔
      e.Sound ∧ e.Accepts history ∧ r = e.result history := by
  constructor
  · intro h
    obtain ⟨_, hdays, h⟩ := bind_eq_ok.mp h
    obtain ⟨_, hmin, h⟩ := bind_eq_ok.mp h
    obtain ⟨first, hstart, h⟩ := bind_eq_ok.mp h
    obtain ⟨days, hby, h⟩ := bind_eq_ok.mp h
    have hdays : 1 ≤ e.cfg.windowDays := of_decide_eq_true (ensure_eq_ok.mp hdays)
    have hmin : 1 ≤ e.cfg.minCellN := of_decide_eq_true (ensure_eq_ok.mp hmin)
    rw [minusDays] at hstart
    split at hstart
    · rename_i hdate
      cases hstart
      obtain ⟨rfl, hnodup, -, hepochs⟩ := (collect_ok_iff _ _ _ _ _ _).mp hby
      cases h
      exact ⟨⟨hdays, hmin, hdate⟩, ⟨hnodup, hepochs⟩, rfl⟩
    · cases hstart
  · rintro ⟨⟨hdays, hmin, hdate⟩, ⟨hnodup, hepochs⟩, rfl⟩
    have hby : history.foldlM (collect e.start e.now e.scoringEpochId) [] = .ok (e.byDay history) :=
      (collect_ok_iff _ _ _ _ _ _).mpr ⟨rfl, hnodup, fun _ _ => not_mem_nil, hepochs⟩
    refine guard_ok (ensure_eq_ok.mpr (decide_eq_true hdays)) ?_
    refine guard_ok (ensure_eq_ok.mpr (decide_eq_true hmin)) ?_
    exact bind_ok (if_pos hdate) (bind_ok hby rfl)

theorem lookup_byDay (h : e.Accepts history) {est : LiftEstimate} :
    (e.byDay history).lookup d = some est ↔
      ∃ s ∈ e.window history, s.day = d ∧ s.estimate = est := by
  have hfound : ∀ {est}, (e.byDay history).lookup d = some est →
      ∃ s ∈ e.window history, s.day = d ∧ s.estimate = est := by
    intro est hl
    obtain ⟨l₁, l₂, hsplit, -⟩ := lookup_eq_some_iff.mp hl
    have hmem : (d, est) ∈ e.byDay history := by
      rw [hsplit]
      exact mem_append_right _ mem_cons_self
    obtain ⟨s, hs, heq⟩ := mem_map.mp hmem
    cases heq
    exact ⟨s, hs, rfl, rfl⟩
  refine ⟨hfound, ?_⟩
  rintro ⟨s, hs, rfl, rfl⟩
  have hmem : (s.day, s.estimate) ∈ e.byDay history := mem_map_of_mem hs
  obtain ⟨est, hest⟩ := Option.isSome_iff_exists.mp (lookup_isSome_iff.mpr (mem_map_of_mem hmem))
  obtain ⟨t, ht, hday, rfl⟩ := hfound hest
  rw [hest, inj_on_of_nodup_map h.1 ht hs hday]

/-- What the kill switch asks of one cell's history: on every day of the window exactly one
snapshot, each of them adverse and with enough observations. -/
structure Sustained (e : Evaluation) (history : List DailyLiftSnapshot) : Prop where
  covered : ∀ d, e.start ≤ d → d ≤ e.now → history.countP (fun s => s.day = d) = 1
  adverse : ∀ s ∈ history, e.start ≤ s.day → s.day ≤ e.now → isAdverse s.estimate e.direction
  enough : ∀ s ∈ history, e.start ≤ s.day → s.day ≤ e.now →
    e.cfg.minCellN ≤ s.estimate.nTreatment ∧ e.cfg.minCellN ≤ s.estimate.nControl

theorem Accepts.countP_le_one (h : e.Accepts history) (h₁ : e.start ≤ d) (h₂ : d ≤ e.now) :
    history.countP (fun s => s.day = d) ≤ 1 := by
  have hfilter : history.countP (fun s => s.day = d) =
      ((e.window history).map (·.day)).count d := by
    rw [count, countP_map, window, KillSwitch.window, countP_filter]
    refine countP_congr fun s _ => ?_
    simp only [decide_eq_true_eq, Function.comp_apply, Bool.and_eq_true, beq_iff_eq, inWindow]
    constructor
    · rintro rfl
      exact ⟨rfl, h₁, h₂⟩
    · exact fun h => h.1
  rw [hfilter]
  exact nodup_iff_count_le_one.mp h.1 d

/-- **A cell is sustained with enough observations** exactly if every day of the window has
exactly one snapshot, and each of these is adverse and has enough observations. -/
theorem result_sustained_iff (hs : e.Sound) (h : e.Accepts history) :
    ((e.result history).sustained && (e.result history).minNSatisfied) = true ↔
      e.Sustained history := by
  have hcovered : (((requiredDays e.cfg e.start).countP
      fun d => ((e.byDay history).lookup d).isSome : ℕ) : ℤ) = e.cfg.windowDays ↔
      ∀ d, e.start ≤ d → d ≤ e.now → ∃ s ∈ e.window history, s.day = d := by
    have hpos := hs.windowDays
    have hlen : ((requiredDays e.cfg e.start).length : ℤ) = e.cfg.windowDays := by
      simp only [requiredDays, length_map, length_range]
      omega
    rw [← hlen, Nat.cast_inj, countP_eq_length]
    constructor
    · intro hall d h₁ h₂
      obtain ⟨est, hest⟩ := Option.isSome_iff_exists.mp (hall d (mem_requiredDays.mpr ⟨h₁, h₂⟩))
      obtain ⟨s, hs, hd, -⟩ := (lookup_byDay h).mp hest
      exact ⟨s, hs, hd⟩
    · intro hall d hd
      obtain ⟨h₁, h₂⟩ := mem_requiredDays.mp hd
      obtain ⟨s, hs, hday⟩ := hall d h₁ h₂
      rw [(lookup_byDay h).mpr ⟨s, hs, hday, rfl⟩]
      rfl
  have hestimates : ∀ p : LiftEstimate → Bool,
      ((requiredDays e.cfg e.start).filterMap ((e.byDay history).lookup ·)).all p = true ↔
        ∀ s ∈ e.window history, p s.estimate = true := by
    intro p
    rw [all_eq_true]
    constructor
    · intro hall s hs
      refine hall _ (mem_filterMap.mpr ⟨s.day, ?_, (lookup_byDay h).mpr ⟨s, hs, rfl, rfl⟩⟩)
      exact mem_requiredDays.mpr (mem_window.mp hs).2
    · intro hall est hest
      obtain ⟨d, -, hl⟩ := mem_filterMap.mp hest
      obtain ⟨s, hs, -, rfl⟩ := (lookup_byDay h).mp hl
      exact hall s hs
  rw [result, sustainedResult]
  split
  · rename_i hnot
    refine ⟨(nomatch ·), fun hsus => absurd (hcovered.mpr fun d h₁ h₂ => ?_) hnot⟩
    have hone := hsus.covered d h₁ h₂
    obtain ⟨s, hs, hday⟩ := countP_pos_iff.mp (hone ▸ Nat.one_pos)
    have hday : s.day = d := by simpa using hday
    exact ⟨s, mem_window.mpr ⟨hs, hday ▸ h₁, hday ▸ h₂⟩, hday⟩
  · rename_i hcov
    have hcov := hcovered.mp (not_not.mp hcov)
    rw [Bool.and_eq_true, hestimates, hestimates]
    constructor
    · rintro ⟨hadv, hmin⟩
      refine ⟨fun d h₁ h₂ => ?_, fun s hs h₁ h₂ => ?_, fun s hs h₁ h₂ => ?_⟩
      · obtain ⟨s, hs, hday⟩ := hcov d h₁ h₂
        refine le_antisymm (h.countP_le_one h₁ h₂) (countP_pos_iff.mpr ⟨s, ?_, ?_⟩)
        · exact (mem_window.mp hs).1
        · simpa using hday
      · exact hadv s (mem_window.mpr ⟨hs, h₁, h₂⟩)
      · have := hmin s (mem_window.mpr ⟨hs, h₁, h₂⟩)
        simpa [enoughObservations] using this
    · intro hsus
      constructor
      · intro s hs
        obtain ⟨hs, h₁, h₂⟩ := mem_window.mp hs
        exact hsus.adverse s hs h₁ h₂
      · intro s hs
        obtain ⟨hs, h₁, h₂⟩ := mem_window.mp hs
        simpa [enoughObservations] using hsus.enough s hs h₁ h₂

/-! ### The latest estimate -/

/-- The one-sided p-value of the estimate of the day of the evaluation; 1 without one. -/
def latestPValue (e : Evaluation) (history : List DailyLiftSnapshot) : ℚ :=
  match history.find? (fun s => s.day = e.now) with
  | some s => fraction (directionalPValue s.estimate e.direction)
  | none => 1

theorem result_latestEstimate (e : Evaluation) (history : List DailyLiftSnapshot) :
    (e.result history).latestEstimate = (e.byDay history).lookup e.now := by
  rw [result, sustainedResult]
  split <;> rfl

/-- The p-value an accepted cell enters the correction with is that of its latest
estimate. -/
theorem fraction_cellPValue (hs : e.Sound) (h : e.Accepts history) :
    fraction (cellPValue e.direction (e.result history)) = e.latestPValue history := by
  have hstart : e.start ≤ e.now := by
    have := hs.windowDays
    simp only [start]
    omega
  rw [cellPValue, result_latestEstimate, latestPValue]
  cases hfind : history.find? (fun s => s.day = e.now) with
  | none =>
    have hnone : (e.byDay history).lookup e.now = none := by
      cases hl : (e.byDay history).lookup e.now with
      | none => rfl
      | some est =>
        obtain ⟨s, hs, hday, -⟩ := (lookup_byDay h).mp hl
        have hnot := find?_eq_none.mp hfind s (mem_window.mp hs).1
        exact absurd hday (by simpa using hnot)
    rw [hnone]
    rfl
  | some s =>
    have hday : s.day = e.now := by simpa using find?_some hfind
    have hmem : s ∈ e.window history :=
      mem_window.mpr ⟨mem_of_find?_eq_some hfind, hday ▸ hstart, hday.le⟩
    rw [(lookup_byDay h).mpr ⟨s, hmem, hday, rfl⟩]

/-! ### The order of snapshots -/

theorem Accepts.perm (h : e.Accepts history) (hp : history'.Perm history) : e.Accepts history' := by
  have hwin : (e.window history').Perm (e.window history) := hp.filter _
  exact ⟨(hwin.map _).nodup_iff.mpr h.1, fun s hs => h.2 s (hwin.mem_iff.mp hs)⟩

theorem Sustained.perm (h : e.Sustained history) (hp : history'.Perm history) :
    e.Sustained history' where
  covered d h₁ h₂ := (hp.countP_eq _).trans (h.covered d h₁ h₂)
  adverse s hs := h.adverse s (hp.mem_iff.mp hs)
  enough s hs := h.enough s (hp.mem_iff.mp hs)

/-- The p-value a cell enters the correction with does not depend on the order of its
snapshots. -/
theorem cellPValue_perm (h : e.Accepts history) (hp : history'.Perm history) :
    cellPValue e.direction (e.result history') = cellPValue e.direction (e.result history) := by
  have hlatest : (e.byDay history').lookup e.now = (e.byDay history).lookup e.now := by
    refine Option.ext fun est => ?_
    rw [lookup_byDay (h.perm hp), lookup_byDay h]
    simp only [mem_window, hp.mem_iff]
  rw [cellPValue, cellPValue, result_latestEstimate, result_latestEstimate, hlatest]

/-! ### The grid -/

/-- The decisions on a grid whose cells are accepted. -/
def decisions (e : Evaluation) (grid : Grid) (rejected : List Bool) :
    List (StratumKey × TriggerDecision) :=
  ((grid.cells.map Prod.fst).zip ((grid.cells.map fun c => e.result c.2).zip rejected)).map
    fun (key, result, bh) =>
      (key, decision e.reason e.direction e.cfg e.scoringEpochId key result bh)

/-- The p-values of a grid whose cells are accepted. -/
def pValues (e : Evaluation) (grid : Grid) : List PyFloat :=
  grid.cells.map fun c => cellPValue e.direction (e.result c.2)

theorem evaluateGrid_ok_iff (e : Evaluation) (grid : Grid)
    (ds : List (StratumKey × TriggerDecision)) :
    evaluateGrid e grid = .ok ds ↔
      (∀ c ∈ grid.cells, e.Sound ∧ e.Accepts c.2) ∧
        ∃ rejected, benjaminiHochberg (e.pValues grid) e.bhAlpha = .ok rejected ∧
          ds = e.decisions grid rejected := by
  have hcells : ∀ results : List SustainedResult, (grid.cells.mapM fun cell =>
        evaluateSustained cell.2 e.cfg e.now e.direction e.scoringEpochId) = .ok results ↔
      (∀ c ∈ grid.cells, e.Sound ∧ e.Accepts c.2) ∧
        results = grid.cells.map fun c => e.result c.2 := by
    intro results
    simp only [mapM_eq_ok, evaluateSustained_ok_iff, ← and_assoc]
    rw [forall₂_and_left, eq_comm, ← forall₂_eq_eq_eq, forall₂_map_left_iff]
    simp only [eq_comm]
  rw [evaluateGrid, bind_eq_ok]
  constructor
  · rintro ⟨results, hresults, h⟩
    obtain ⟨hall, rfl⟩ := (hcells results).mp hresults
    obtain ⟨rejected, hbh, h⟩ := bind_eq_ok.mp h
    rw [map_map] at hbh
    cases h
    exact ⟨hall, rejected, hbh, rfl⟩
  · rintro ⟨hall, rejected, hbh, rfl⟩
    refine ⟨_, (hcells _).mpr ⟨hall, rfl⟩, bind_eq_ok.mpr ⟨rejected, ?_, rfl⟩⟩
    rw [map_map]
    exact hbh

/-- A cell is disabled: it is sustained and its latest p-value is in the rejection set of
all cells' latest p-values. -/
structure Disables (e : Evaluation) (grid : Grid) (history : List DailyLiftSnapshot) : Prop where
  sustained : e.Sustained history
  rejected : Rejects (grid.cells.map fun c => e.latestPValue c.2) (fraction e.bhAlpha)
    (e.latestPValue history)

/-- The rows written for a grid whose cells are accepted: one for each sustained cell that
the correction rejects. -/
theorem mem_apply_iff {rejected : List Bool} (hlen : rejected.length = grid.cells.length)
    (project : ProjectId) (moment : ℤ) (key : StratumKey) :
    key ∈ (apply project (e.decisions grid rejected) moment).map (·.key) ↔
      ∃ i, ∃ hi : i < grid.cells.length, grid.cells[i].1 = key ∧
        ((e.result grid.cells[i].2).sustained && (e.result grid.cells[i].2).minNSatisfied) = true ∧
        rejected.getD i false = true := by
  have hdecisions : (e.decisions grid rejected).length = grid.cells.length := by
    simp [decisions, hlen]
  have hget : ∀ i (hi : i < grid.cells.length),
      (e.decisions grid rejected)[i]? = some (grid.cells[i].1,
        decision e.reason e.direction e.cfg e.scoringEpochId grid.cells[i].1
          (e.result grid.cells[i].2) (rejected.getD i false)) := by
    intro i hi
    have hi' : i < rejected.length := hlen ▸ hi
    rw [getElem?_eq_getElem (hdecisions ▸ hi)]
    simp [decisions, hi']
  rw [apply, map_map, mem_map]
  constructor
  · rintro ⟨d, hd, rfl⟩
    obtain ⟨hd, hdis⟩ := mem_filter.mp hd
    obtain ⟨i, hi, rfl⟩ := getElem_of_mem hd
    have hi' : i < grid.cells.length := hdecisions ▸ hi
    have hat := hget i hi'
    rw [getElem?_eq_getElem hi, Option.some.injEq] at hat
    rw [hat] at hdis ⊢
    obtain ⟨hsus, hbh⟩ := Bool.and_eq_true_iff.mp hdis
    exact ⟨i, hi', rfl, hsus, hbh⟩
  · rintro ⟨i, hi, rfl, hsus, hbh⟩
    refine ⟨_, mem_filter.mpr ⟨mem_of_getElem? (hget i hi), ?_⟩, rfl⟩
    exact Bool.and_eq_true_iff.mpr ⟨hsus, hbh⟩

variable {ds : List (StratumKey × TriggerDecision)}

theorem disables_iff (h : evaluateGrid e grid = .ok ds) (project : ProjectId) (moment : ℤ)
    (key : StratumKey) :
    key ∈ (apply project ds moment).map (·.key) ↔
      ∃ history, (key, history) ∈ grid.cells ∧ e.Disables grid history := by
  obtain ⟨hcells, rejected, hbh, rfl⟩ := (evaluateGrid_ok_iff e grid ds).mp h
  obtain ⟨hlen, hrejects⟩ := benjaminiHochberg_spec hbh
  have hps : (e.pValues grid).map fraction = grid.cells.map fun c => e.latestPValue c.2 := by
    rw [pValues, map_map]
    refine map_congr_left fun c hc => ?_
    exact fraction_cellPValue (hcells c hc).1 (hcells c hc).2
  have hlenp : (e.pValues grid).length = grid.cells.length := length_map _
  rw [mem_apply_iff (hlen.trans hlenp)]
  have hrej : ∀ i (hi : i < grid.cells.length), rejected.getD i false = true ↔
      Rejects (grid.cells.map fun c => e.latestPValue c.2) (fraction e.bhAlpha)
        (e.latestPValue grid.cells[i].2) := by
    intro i hi
    have hcell := hcells _ (getElem_mem hi)
    rw [hrejects i (hlenp ▸ hi), hps, ← fraction_cellPValue hcell.1 hcell.2]
    simp [pValues]
  constructor
  · rintro ⟨i, hi, rfl, hsus, hbh⟩
    have hcell := hcells _ (getElem_mem hi)
    refine ⟨grid.cells[i].2, getElem_mem hi, ?_, (hrej i hi).mp hbh⟩
    exact (result_sustained_iff hcell.1 hcell.2).mp hsus
  · rintro ⟨history, hmem, hdis⟩
    obtain ⟨i, hi, hat⟩ := getElem_of_mem hmem
    have hcell := hcells _ (getElem_mem hi)
    refine ⟨i, hi, by rw [hat], ?_, (hrej i hi).mpr (by rw [hat]; exact hdis.rejected)⟩
    rw [hat] at hcell ⊢
    exact (result_sustained_iff hcell.1 hcell.2).mpr hdis.sustained

/-! ### The order of cells and snapshots -/

theorem reordered_symm (h : grid.Reordered grid') : grid'.Reordered grid := by
  obtain ⟨cells, hall, hp⟩ := h
  obtain ⟨cells', hall', hp'⟩ := perm_comp_forall₂ hp hall.flip
  exact ⟨cells', hall'.imp fun _ _ hrel => ⟨hrel.1.symm, hrel.2.symm⟩, hp'.symm⟩

theorem reordered_mem (h : grid.Reordered grid') {c' : StratumKey × List DailyLiftSnapshot}
    (hc : c' ∈ grid'.cells) : ∃ c ∈ grid.cells, c'.1 = c.1 ∧ c'.2.Perm c.2 := by
  obtain ⟨cells, hall, hp⟩ := h
  obtain ⟨c, hc, hrel⟩ := forall₂_mem hall.flip c' (hp.mem_iff.mp hc)
  exact ⟨c, hc, hrel⟩

/-- Values of the histories that do not depend on the order of their snapshots are the same
on a reordered grid, up to order. -/
theorem reordered_map {β : Type} (h : grid.Reordered grid') {f : List DailyLiftSnapshot → β}
    (hf : ∀ c ∈ grid.cells, ∀ history : List DailyLiftSnapshot, history.Perm c.2 →
      f history = f c.2) :
    (grid'.cells.map fun c => f c.2).Perm (grid.cells.map fun c => f c.2) := by
  obtain ⟨cells, hall, hp⟩ := h
  refine (hp.map _).trans (List.Perm.of_eq ?_)
  clear hp
  generalize grid.cells = first at hf hall
  induction hall with
  | nil => rfl
  | @cons c c' l l' hrel _ ih =>
    rw [map_cons, map_cons, hf c mem_cons_self c'.2 hrel.2, ih (forall_mem_cons.mp hf).2]

theorem evaluateGrid_reordered (hre : grid.Reordered grid') (h : evaluateGrid e grid = .ok ds) :
    ∃ ds', evaluateGrid e grid' = .ok ds' := by
  obtain ⟨hcells, rejected, hbh, -⟩ := (evaluateGrid_ok_iff e grid ds).mp h
  have hps : (e.pValues grid').Perm (e.pValues grid) :=
    reordered_map hre (f := fun history => cellPValue e.direction (e.result history))
      fun c hc history hp => cellPValue_perm (hcells c hc).2 hp
  obtain ⟨rejected', hbh'⟩ := benjaminiHochberg_ok_perm hbh hps
  refine ⟨_, (evaluateGrid_ok_iff e grid' _).mpr ⟨fun c' hc' => ?_, rejected', hbh', rfl⟩⟩
  obtain ⟨c, hc, -, hp⟩ := reordered_mem hre hc'
  exact ⟨(hcells c hc).1, (hcells c hc).2.perm hp⟩

/-- The latest p-value of an accepted cell does not depend on the order of its snapshots. -/
theorem latestPValue_perm (hs : e.Sound) (h : e.Accepts history) (hp : history'.Perm history) :
    e.latestPValue history' = e.latestPValue history := by
  rw [← fraction_cellPValue hs h, ← fraction_cellPValue hs (h.perm hp), cellPValue_perm h hp]

theorem Disables.reordered (hre : grid.Reordered grid')
    (hcells : ∀ c ∈ grid.cells, e.Sound ∧ e.Accepts c.2) {key : StratumKey}
    (h : ∃ history, (key, history) ∈ grid'.cells ∧ e.Disables grid' history) :
    ∃ history, (key, history) ∈ grid.cells ∧ e.Disables grid history := by
  obtain ⟨history', hmem, hsus, hrej⟩ := h
  have hlatest := reordered_map hre (f := e.latestPValue)
    fun c hc history hp => latestPValue_perm (hcells c hc).1 (hcells c hc).2 hp
  obtain ⟨⟨key', history⟩, hc, rfl, hp⟩ := reordered_mem hre hmem
  obtain ⟨hs, hacc⟩ := hcells _ hc
  refine ⟨history, hc, hsus.perm hp.symm, ?_⟩
  rw [← rejects_perm hlatest, ← latestPValue_perm hs hacc hp]
  exact hrej

end Evaluation

/-- **What the kill switch disables.** After an evaluation that returns, `apply` writes
`disabled=True` for exactly the cells whose history has one snapshot on every day of the
window, all of them adverse and with enough observations, and whose latest one-sided
p-value is in the rejection set of all cells' latest p-values. Listing the cells or the
snapshots in another order changes nothing. -/
theorem apply_disables_iff (e : Evaluation) (grid : Grid)
    (ds : List (StratumKey × TriggerDecision)) (h : evaluateGrid e grid = .ok ds)
    (project : ProjectId) (moment : ℤ) :
    (∀ key, key ∈ (apply project ds moment).map (·.key) ↔
        ∃ history, (key, history) ∈ grid.cells ∧ e.Disables grid history) ∧
      (∀ w ∈ apply project ds moment, w.projectId = project ∧ w.disabled = true) ∧
      ∀ grid', grid.Reordered grid' → ∃ ds', evaluateGrid e grid' = .ok ds' ∧
        ∀ key, key ∈ (apply project ds' moment).map (·.key) ↔
          key ∈ (apply project ds moment).map (·.key) := by
  refine ⟨Evaluation.disables_iff h project moment, fun w hw => ?_, fun grid' hre => ?_⟩
  · obtain ⟨d, -, rfl⟩ := mem_map.mp hw
    exact ⟨rfl, rfl⟩
  · obtain ⟨ds', hds'⟩ := Evaluation.evaluateGrid_reordered hre h
    refine ⟨ds', hds', fun key => ?_⟩
    have hcells := ((Evaluation.evaluateGrid_ok_iff e grid ds).mp h).1
    have hcells' := ((Evaluation.evaluateGrid_ok_iff e grid' ds').mp hds').1
    rw [Evaluation.disables_iff hds', Evaluation.disables_iff h]
    exact ⟨Evaluation.Disables.reordered hre hcells,
      Evaluation.Disables.reordered (Evaluation.reordered_symm hre) hcells'⟩

/-- A cell that did worse with memory than without, on 500 runs of each arm. -/
def worseWithMemory : LiftEstimate where
  agentTypeId := some ⟨⟨7⟩⟩
  memType := some .lesson
  nTreatment := 500
  nControl := 500
  pointEstimate := .fin (-1 / 4)
  lowerBound := .fin (-1 / 2)
  upperBound := .fin 0
  pValue := .fin (1 / 128)
  confidence := .fin (15 / 16)
  finite := by decide +kernel
  pValue_range := by decide +kernel

/-- Two bad days of one cell, and a good cell without a snapshot on the second day. -/
def twoCells : Grid where
  cells :=
    [((⟨⟨7⟩⟩, .lesson), [⟨1001, worseWithMemory, none⟩, ⟨1000, worseWithMemory, none⟩]),
      ((⟨⟨7⟩⟩, .semantic), [⟨1000, worseWithMemory, none⟩])]
  nodup := by decide

def twoDays : Evaluation := ⟨⟨2, 200⟩, .taskQualityLift, .lower, .fin (1 / 16), none, 1001⟩

/-- The cell with two bad days is disabled. -/
theorem apply_disables_iff_twoCells : ∃ ds, evaluateGrid twoDays twoCells = .ok ds ∧
    ∃ history, ((⟨⟨7⟩⟩, .lesson), history) ∈ twoCells.cells ∧
      twoDays.Disables twoCells history := by
  have hwritten : (evaluateGrid twoDays twoCells).toOption.map
      (fun ds => (apply ⟨⟨1⟩⟩ ds 0).map (·.key)) = some [(⟨⟨7⟩⟩, .lesson)] := by
    decide +kernel
  obtain ⟨ds, hds, hkeys⟩ := Option.map_eq_some_iff.mp hwritten
  have hds := toOption_eq_some.mp hds
  refine ⟨ds, hds, ?_⟩
  refine ((apply_disables_iff twoDays twoCells ds hds ⟨⟨1⟩⟩ 0).1 _).mp ?_
  rw [hkeys]
  exact mem_singleton_self _

end Tracebed.KillSwitch
