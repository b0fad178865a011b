import Tracebed.Vocabulary
import Tracebed.Lib.Fallible
import Tracebed.Lib.PyFloat
import Tracebed.Lib.StepUp

/-!
# Lift Estimates and the Correction for Many Cells

`workers/lift.py` sums up a cell of the grid in a `LiftEstimate`; the kill switch reads its
lower bound and a one-sided p-value derived from it. `workers/statistics.py` corrects the
p-values of all cells: floats in, exact fractions inside, booleans out. The booleans are
membership in the rejection set of the step-up procedure (`benjaminiHochberg_spec`,
`benjaminiHochberg_stepUp`), computed with the exact numbers the floats denote.
-/

open Py Fallible StepUp Bool List

namespace Tracebed.KillSwitch

/-- What the workers of the kill switch raise. -/
inductive KillswitchError
  | valueError (msg : String)
  | crossEpochComparison
  | overflowError
  deriving DecidableEq

/-! ### Estimates -/

/-- `AdverseDirection`: which sign of an effect is the bad one. -/
inductive AdverseDirection
  | lower
  | higher
  deriving DecidableEq

/-- `LiftEstimate`, with what `__post_init__` refuses to build. -/
structure LiftEstimate where
  agentTypeId : Option AgentTypeId
  memType : Option MemType
  nTreatment : ℕ
  nControl : ℕ
  pointEstimate : PyFloat
  lowerBound : PyFloat
  upperBound : PyFloat
  pValue : PyFloat
  confidence : PyFloat
  finite : [pointEstimate, lowerBound, upperBound, pValue, confidence].all PyFloat.isFinite
  pValue_range : PyFloat.le (.fin 0) pValue && PyFloat.le pValue (.fin 1)

/-- `directional_p_value`. -/
def directionalPValue (estimate : LiftEstimate) (direction : AdverseDirection) : PyFloat :=
  if estimate.pointEstimate.eqFloat (.fin 0) then .fin (1 / 2)
  else
    let observedBelow := estimate.pointEstimate.lt (.fin 0)
    let adverseBelow := decide (direction = .lower)
    -- dividing by 2.0 always has a value
    let tail := (estimate.pValue.div (.fin 2)).getD .nan
    if observedBelow = adverseBelow then tail else PyFloat.sub (.fin 1) tail

/-- `is_adverse`. -/
def isAdverse (estimate : LiftEstimate) : AdverseDirection → Bool
  | .lower => estimate.lowerBound.lt (.fin 0)
  | .higher => PyFloat.lt (.fin 0) estimate.lowerBound

/-! ### The correction -/

/-- `Fraction(x)`, for a finite float. -/
def fraction (x : PyFloat) : ℚ := x.toRat?.getD 0

/-- `0.0 <= p <= 1.0`. -/
def inUnit (p : PyFloat) : Bool := PyFloat.le (.fin 0) p && p.le (.fin 1)

/-- `benjamini_hochberg`. -/
def benjaminiHochberg (pValues : List PyFloat) (alpha : PyFloat) :
    Except KillswitchError (List Bool) := do
  ensure (PyFloat.lt (.fin 0) alpha && alpha.lt (.fin 1)) (.valueError "alpha must be in (0, 1)")
  if pValues = [] then .ok []
  else
    ensure (pValues.all inUnit) (.valueError "p-value out of [0, 1]")
    .ok ((adjusted (pValues.map fraction)).map fun a => decide (a ≤ fraction alpha))

theorem fraction_bounds {x : PyFloat} (h₀ : PyFloat.lt (.fin 0) x = true)
    (h₁ : x.lt (.fin 1) = true) : 0 < fraction x ∧ fraction x < 1 := by
  cases x with
  | fin q =>
    obtain ⟨-, h₀⟩ := and_eq_true_iff.mp h₀
    obtain ⟨-, h₁⟩ := and_eq_true_iff.mp h₁
    have h₀ : ¬ q ≤ 0 := of_decide_eq_false (not_eq_true' _ ▸ h₀)
    have h₁ : ¬ (1 : ℚ) ≤ q := of_decide_eq_false (not_eq_true' _ ▸ h₁)
    exact ⟨not_le.mp h₀, not_le.mp h₁⟩
  | negZero => simp [PyFloat.lt, PyFloat.le, PyFloat.toRat?] at h₀
  | nan => simp [PyFloat.lt, PyFloat.le] at h₀
  | posInf => simp [PyFloat.lt, PyFloat.le] at h₁
  | negInf => simp [PyFloat.lt, PyFloat.le] at h₀

variable {rejected : List Bool} {alpha : PyFloat} {pValues : List PyFloat}

/-- When the correction returns, and what. -/
theorem benjaminiHochberg_eq_ok : benjaminiHochberg pValues alpha = .ok rejected ↔
      (PyFloat.lt (.fin 0) alpha && alpha.lt (.fin 1)) = true ∧ pValues.all inUnit = true ∧
        (adjusted (pValues.map fraction)).map (fun a => decide (a ≤ fraction alpha)) =
          rejected := by
  rw [benjaminiHochberg, ensure_bind]
  split_ifs with halpha hnil
  · subst hnil
    simp [halpha, adjusted, ranking]
  · rw [ensure_bind]
    cases hunit : pValues.all inUnit <;> simp [halpha]
  · simp [halpha]

/-- **The correction is the step-up procedure in exact arithmetic.** -/
theorem benjaminiHochberg_spec (h : benjaminiHochberg pValues alpha = .ok rejected) :
    rejected.length = pValues.length ∧ ∀ i (hi : i < pValues.length),
      (rejected.getD i false = true ↔
        Rejects (pValues.map fraction) (fraction alpha) (fraction pValues[i])) := by
  obtain ⟨halpha, -, rfl⟩ := benjaminiHochberg_eq_ok.mp h
  obtain ⟨h₀, h₁⟩ := and_eq_true_iff.mp halpha
  obtain ⟨h₀, h₁⟩ := fraction_bounds h₀ h₁
  have hlen : (adjusted (pValues.map fraction)).length = pValues.length := by
    rw [adjusted_eq_walk, length_walk, length_replicate, length_map]
  refine ⟨by rw [length_map, hlen], fun i hi => ?_⟩
  have hi' : i < (pValues.map fraction).length := by rwa [length_map]
  have hadj := adjusted_le_iff h₀.le h₁ hi'
  have hia : i < (adjusted (pValues.map fraction)).length := hlen ▸ hi
  rw [getD_eq_getElem _ _ hia, getD_eq_getElem _ _ hi', getElem_map] at hadj
  rw [getD_eq_getElem _ _ (by rwa [length_map]), getElem_map, decide_eq_true_eq, hadj]

/-- Whether the correction returns depends on the level and on which p-values there are. -/
theorem benjaminiHochberg_ok_perm {pValues' : List PyFloat}
    (h : benjaminiHochberg pValues alpha = .ok rejected) (hp : pValues'.Perm pValues) :
    ∃ rejected', benjaminiHochberg pValues' alpha = .ok rejected' := by
  obtain ⟨halpha, hrange, -⟩ := benjaminiHochberg_eq_ok.mp h
  exact ⟨_, benjaminiHochberg_eq_ok.mpr ⟨halpha, hp.all_eq.trans hrange, rfl⟩⟩

theorem fraction_nonneg {p : PyFloat} (h : inUnit p = true) : 0 ≤ fraction p := by
  obtain ⟨h, -⟩ := and_eq_true_iff.mp h
  cases p with
  | fin q => exact of_decide_eq_true h
  | _ => exact le_rfl

/-- **The correction is the step-up procedure, and keeps to its laws.** -/
theorem benjaminiHochberg_stepUp {pValues : List PyFloat} {alpha : PyFloat}
    (hp : pValues.all inUnit = true)
    (ha : (PyFloat.lt (.fin 0) alpha && alpha.lt (.fin 1)) = true) :
    ∃ rejected, benjaminiHochberg pValues alpha = .ok rejected ∧
      rejected.length = pValues.length ∧
      -- the rejection set
      (∀ i (hi : i < pValues.length), (rejected.getD i false = true ↔
        Rejects (pValues.map fraction) (fraction alpha) (fraction pValues[i]))) ∧
      -- the order of the hypotheses
      (∀ order : List ℕ, order.Perm (List.range pValues.length) →
        benjaminiHochberg (order.map (pValues.getD · .nan)) alpha =
          .ok (order.map (rejected.getD · false))) ∧
      -- ties
      (∀ i j (hi : i < pValues.length) (hj : j < pValues.length),
        fraction pValues[i] = fraction pValues[j] →
        (adjusted (pValues.map fraction)).getD i 1 = (adjusted (pValues.map fraction)).getD j 1) ∧
      -- a higher level, lower p-values
      ∀ pValues' alpha', pValues'.all inUnit = true →
        (PyFloat.lt (.fin 0) alpha' && alpha'.lt (.fin 1)) = true →
        fraction alpha ≤ fraction alpha' →
        List.Forall₂ (fun p' p => fraction p' ≤ fraction p) pValues' pValues →
        ∃ rejected', benjaminiHochberg pValues' alpha' = .ok rejected' ∧
          ∀ i, rejected.getD i false = true → rejected'.getD i false = true := by
  obtain ⟨rejected, heq⟩ : ∃ rejected, benjaminiHochberg pValues alpha = .ok rejected :=
    ⟨_, benjaminiHochberg_eq_ok.mpr ⟨ha, hp, rfl⟩⟩
  obtain ⟨hlen, hspec⟩ := benjaminiHochberg_spec heq
  refine ⟨_, heq, hlen, hspec, fun order horder => ?_, fun i j hi hj hij => ?_,
    fun pValues' alpha' hp' ha' hle hlow => ?_⟩
  · have hperm : (order.map (pValues.getD · .nan)).Perm pValues := by
      simpa only [map_getD_range] using horder.map (pValues.getD · .nan)
    obtain ⟨rejected', heq'⟩ := benjaminiHochberg_ok_perm heq hperm
    obtain ⟨hlen', hspec'⟩ := benjaminiHochberg_spec heq'
    rw [length_map] at hlen'
    rw [heq']
    refine congrArg Except.ok (ext_getElem (by rw [hlen', length_map]) fun k hk _ => ?_)
    have hk' : k < order.length := hlen' ▸ hk
    have hmem : order[k] < pValues.length := mem_range.mp (horder.mem_iff.mp (getElem_mem hk'))
    have hiff := hspec' k (by rwa [length_map])
    rw [rejects_perm (hperm.map fraction), getElem_map, getD_eq_getElem _ _ hmem,
      ← hspec _ hmem, ← Bool.eq_iff_iff, getD_eq_getElem _ _ hk] at hiff
    rw [hiff, getElem_map]
  · have hpos : ∀ p ∈ pValues.map fraction, 0 ≤ p := by
      intro p hmem
      obtain ⟨x, hx, rfl⟩ := mem_map.mp hmem
      exact fraction_nonneg (all_eq_true.mp hp x hx)
    exact adjusted_congr hpos (by simpa using hi) (by simpa using hj) (by simpa [hi, hj] using hij)
  · have heq' := benjaminiHochberg_eq_ok.mpr ⟨ha', hp', rfl⟩
    refine ⟨_, heq', fun i hr => ?_⟩
    obtain hi | hi := Nat.lt_or_ge i pValues.length
    · have hi' : i < pValues'.length := hlow.length_eq ▸ hi
      have hlow' : List.Forall₂ (· ≤ ·) (pValues'.map fraction) (pValues.map fraction) := by
        simpa using hlow
      rw [(benjaminiHochberg_spec heq').2 i hi']
      obtain ⟨h₀, h₁⟩ := and_eq_true_iff.mp ha
      exact rejects_mono hlow' (fraction_bounds h₀ h₁).1.le hle
        (mem_map_of_mem (getElem_mem hi)) (mem_map_of_mem (getElem_mem hi'))
        (hlow.get hi' hi) ((hspec i hi).mp hr)
    · rw [getD_eq_default _ _ (hlen ▸ hi)] at hr
      cases hr

/-- One effect among noise: the correction at level 1/20 finds it. -/
theorem benjaminiHochberg_stepUp_pair :
    ∃ rejected, benjaminiHochberg [.fin (1 / 2), .fin (1 / 100)] (.fin (1 / 20)) = .ok rejected ∧
      rejected.length = 2 := by
  have hp : [PyFloat.fin (1 / 2), .fin (1 / 100)].all inUnit = true := by decide +kernel
  have ha : (PyFloat.lt (.fin 0) (.fin (1 / 20)) &&
      PyFloat.lt (.fin (1 / 20)) (.fin 1)) = true := by decide +kernel
  obtain ⟨rejected, heq, hlen, -⟩ := benjaminiHochberg_stepUp hp ha
  exact ⟨rejected, heq, hlen⟩

end Tracebed.KillSwitch
