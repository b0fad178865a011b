import Tracebed.Hotpath

/-!
# Abstention and Calibration

`hotpath/abstention.py` and `hotpath/calibration.py`: whether a candidate may be injected at
all, and the score that ranks it. Both read the raw signals of the search arms, never a fused
rank, and a gate whose signal is absent is skipped. The types of the evidence carry the checks
of their constructors: percentages lie in `[0, 100]`, a cosine in `[-1, 1]`, and a candidate has
the signal of at least one arm.
-/

open Py Fallible

namespace Tracebed

/-- `lo <= x <= hi`; false on a NaN. -/
def within (lo hi x : PyFloat) : Bool := lo.le x && x.le hi

/-- `RarityEvidence`: the document frequency, in percent, of each query term that the
candidate shares. -/
structure RarityEvidence where
  sharedTermDocFreqPct : List PyFloat
  corpusDocCount : ℤ
  corpus_nonneg : 0 ≤ corpusDocCount
  percentages : sharedTermDocFreqPct.all (within (.fin 0) (.fin 100)) = true

/-- `RarityEvidence.__post_init__`. -/
def RarityEvidence.make (pcts : List PyFloat) (corpus : ℤ) : Except HotpathError RarityEvidence :=
  if hc : 0 ≤ corpus then
    if hp : pcts.all (within (.fin 0) (.fin 100)) = true then .ok ⟨pcts, corpus, hc, hp⟩
    else .error (.valueError "document-frequency percentage out of [0, 100]")
  else .error (.valueError "corpus_doc_count must be non-negative")

/-- A cosine similarity, if the vector arm gave one, is one. -/
def cosineOk (cos : Option PyFloat) : Bool := cos.all (within (.fin (-1)) (.fin 1))

/-- A raw relevance, if the lexical arm gave one, is finite and not negative. -/
def relevanceOk (bm25 : Option PyFloat) : Bool := bm25.all fun x => x.isFinite && !x.lt (.fin 0)

/-- `CandidateSignals`. -/
structure CandidateSignals where
  cosSim : Option PyFloat
  bm25Raw : Option PyFloat
  rarity : RarityEvidence
  cos_ok : cosineOk cosSim = true
  bm25_ok : relevanceOk bm25Raw = true
  seen : cosSim.isSome ∨ bm25Raw.isSome

/-- `CandidateSignals.__post_init__`. -/
def CandidateSignals.make (cos bm25 : Option PyFloat) (rarity : RarityEvidence) :
    Except HotpathError CandidateSignals :=
  if hc : cosineOk cos = true then
    if hb : relevanceOk bm25 = true then
      if hs : cos.isSome ∨ bm25.isSome then .ok ⟨cos, bm25, rarity, hc, hb, hs⟩
      else .error (.valueError "a candidate must carry at least one arm's signal")
    else .error (.valueError "bm25_raw must be finite and non-negative")
  else .error (.valueError "cos_sim must be a finite value in [-1, 1]")

/-! ### Calibration -/

/-- `bm25_saturate`: `x / (x + k)`. -/
def bm25Saturate (raw k : PyFloat) : Except HotpathError PyFloat := do
  ensure (raw.isFinite && !raw.lt (.fin 0))
    (HotpathError.valueError "raw_bm25 must be finite and non-negative")
  ensure (k.isFinite && !k.le (.fin 0))
    (HotpathError.valueError "bm25_sat_k must be finite and positive")
  orThrow (raw.div (raw.add k)) .zeroDivisionError

/-- `recency_weight`: `0.5 ** (age / half_life)`, with the power of the C library. -/
def recencyWeight (powHalf : PyFloat → PyFloat) (ageDays halfLifeDays : PyFloat) :
    Except HotpathError PyFloat := do
  ensure (ageDays.isFinite && !ageDays.lt (.fin 0))
    (HotpathError.valueError "age_days must be finite and non-negative")
  ensure (halfLifeDays.isFinite && !halfLifeDays.le (.fin 0))
    (HotpathError.valueError "half_life_days must be finite and positive")
  let exponent ← orThrow (ageDays.div halfLifeDays) .zeroDivisionError
  pure (powHalf exponent)

/-- `CalibratedSignals`. -/
structure CalibratedSignals where
  cosSim : PyFloat
  qValue : PyFloat
  ageDays : PyFloat
  validity : PyFloat
  cos_ok : within (.fin (-1)) (.fin 1) cosSim = true
  q_ok : within (.fin 0) (.fin 1) qValue = true
  validity_ok : within (.fin 0) (.fin 1) validity = true
  age_ok : (ageDays.isFinite && !ageDays.lt (.fin 0)) = true

/-- `CalibratedSignals.__post_init__`. -/
def CalibratedSignals.make (cos q age validity : PyFloat) : Except HotpathError CalibratedSignals :=
  if hc : within (.fin (-1)) (.fin 1) cos = true then
    if hq : within (.fin 0) (.fin 1) q = true then
      if hv : within (.fin 0) (.fin 1) validity = true then
        if ha : (age.isFinite && !age.lt (.fin 0)) = true then
          .ok ⟨cos, q, age, validity, hc, hq, hv, ha⟩
        else .error (.valueError "age_days must be finite and non-negative")
      else .error (.valueError "validity must be a finite value in [0, 1]")
    else .error (.valueError "q_value must be a finite value in [0, 1]")
  else .error (.valueError "cos_sim must be a finite value in [-1, 1]")

/-- `calibrated_score`: the weighted sum, from left to right. -/
def calibratedScore (powHalf : PyFloat → PyFloat) (s : CalibratedSignals) (cfg : ScoreConfig) :
    Except HotpathError PyFloat := do
  let halfLife ← orThrow (PyFloat.ofInt cfg.recencyHalfLifeDays) .overflowError
  let recency ← recencyWeight powHalf s.ageDays halfLife
  pure ((((cfg.wSim.mul s.cosSim).add (cfg.wQ.mul s.qValue)).add (cfg.wRecency.mul recency)).add
    (cfg.wValidity.mul s.validity))

/-! ### The gates -/

/-- `AbstentionDecision`: no code means the candidate may be injected. -/
structure AbstentionDecision where
  outcomeCode : Option OutcomeCode
  bm25Norm : Option PyFloat
  rareSharedTermCount : ℕ

/-- `AbstentionDecision.inject`. -/
def AbstentionDecision.inject (d : AbstentionDecision) : Bool := d.outcomeCode.isNone

/-- `rare_shared_term_count`. -/
def rareSharedTermCount (rarity : RarityEvidence) (cfg : AbstentionConfig) : ℕ :=
  rarity.sharedTermDocFreqPct.countP fun pct => pct.le cfg.rarityMaxDfPct

/-- The reason to abstain, by the first gate that fails: rarity (with the cold start), the
cosine, the saturated relevance. -/
def failedGate (signals : CandidateSignals) (bm25Norm : Option PyFloat) (cfg : AbstentionConfig) :
    Option OutcomeCode :=
  if signals.rarity.corpusDocCount < cfg.rarityMinCorpusDocs ∨
      (rareSharedTermCount signals.rarity cfg : ℤ) < cfg.rarityMinSharedTerms then
    some .abstainedRarity
  else if signals.cosSim.any fun c => c.lt cfg.cosThreshold then some .abstainedThreshold
  else if bm25Norm.any fun n => n.lt cfg.bm25NormThreshold then some .abstainedThreshold
  else none

/-- `decide`. -/
def decideAbstention (signals : CandidateSignals) (cfg : AbstentionConfig) :
    Except HotpathError AbstentionDecision := do
  let bm25Norm ← signals.bm25Raw.mapM fun raw => bm25Saturate raw cfg.bm25SatK
  pure ⟨failedGate signals bm25Norm cfg, bm25Norm, rareSharedTermCount signals.rarity cfg⟩

end Tracebed
