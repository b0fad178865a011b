import Tracebed.Signatures
import Tracebed.Lib.CliqueSearch

/-!
# The Memory State Machine

`domain/state_machine.py`: the status of a memory changes only through `apply`, a pure
function of the current status, the target, the evidence and the limits. The transition
table maps each legal edge to a guard. The two frozen records that check themselves at
construction carry the result of the check, and the evidence holds instants (microseconds on one
time axis), so its refusal of naive datetimes is a matter of type.

`Permitted` restates the table as a relation, one constructor per edge, and
`apply_eq_ok_iff` says that `apply` succeeds exactly along it; every statement about
histories is proved from that relation.
-/

open Py List

namespace Tracebed

/-- `SHADOW_CONFIRM_MIN_INDEPENDENT`. -/
def shadowConfirmMinIndependent : ℤ := 2

/-- `STALE_RETIRE_STRIKE_THRESHOLD`. -/
def staleRetireStrikeThreshold : ℤ := 2

/-- `MAX_CONFIRMATIONS_CONSIDERED`. -/
def maxConfirmationsConsidered : ℕ := 256

/-- `_MAX_CLIQUE_SEARCH_STEPS`. -/
def maxCliqueSearchSteps : ℕ := 50000

/-! ### Evidence and limits -/

/-- One corroborating observation. -/
structure ShadowConfirmation where
  runId : RunId
  principalId : PrincipalId
  inputSignatureHash : Signature
  deriving DecidableEq

/-- `ShadowConfirmation(...)` on a stored byte string; the error is the text of the
`ValueError` its `__post_init__` raises. -/
def ShadowConfirmation.make (runId : RunId) (principalId : PrincipalId) (hash : Bytes) :
    Except String ShadowConfirmation :=
  match Signature.ofBytes hash with
  | some sig => .ok ⟨runId, principalId, sig⟩
  | none =>
    .error s!"input_signature_hash must be {sigHashLen} bytes, got {hash.length}"

/-- The nine thresholds of `TransitionLimits` before they are checked. -/
structure Thresholds where
  quarantineTtlDays : ℤ
  candidateTtlDays : ℤ
  promoteMinOutcomes : ℤ
  failureLessonOutcomes : ℤ
  promotionMinDistinctPrincipals : ℤ
  retireQThreshold : PyFloat
  retireMinScoredUses : ℤ
  retireMinDistinctPrincipals : ℤ
  archiveFloor : PyFloat

variable (t : Thresholds)

/-- The integer thresholds with their names and floors, in the order they are checked. -/
def Thresholds.floors : List (String × ℤ × ℤ) :=
  [("quarantine_ttl_days", t.quarantineTtlDays, 1),
    ("candidate_ttl_days", t.candidateTtlDays, 1),
    ("promote_min_outcomes", t.promoteMinOutcomes, 1),
    ("failure_lesson_outcomes", t.failureLessonOutcomes, 1),
    ("promotion_min_distinct_principals", t.promotionMinDistinctPrincipals,
      shadowConfirmMinIndependent),
    ("retire_min_scored_uses", t.retireMinScoredUses, 1),
    ("retire_min_distinct_principals", t.retireMinDistinctPrincipals, 2)]

/-- The thresholds that must lie in the unit interval. -/
def Thresholds.fractions : List (String × PyFloat) :=
  [("retire_q_threshold", t.retireQThreshold), ("archive_floor", t.archiveFloor)]

/-- The check of one floor: the message of the `ConfigError`, if it fails. -/
def floorError : String × ℤ × ℤ → Option String
  | (name, value, floor) =>
    if value < floor then
      some (s!"TransitionLimits.{name}={value} is below the invariant-7 floor of " ++
        s!"{floor}; a config override cannot weaken the state machine below " ++
        "what PLAN.md §5 states")
    else none

/-- The check of one fraction: the message of the `ConfigError`, if it fails. -/
def fractionError : String × PyFloat → Option String
  | (name, value) =>
    if PyFloat.le (.fin 0) value && PyFloat.le value (.fin 1) then none
    else
      some (s!"TransitionLimits.{name}={text value.repr} is outside [0.0, 1.0]; " ++
        "q_value and the decay floor are both clamped probabilities")

/-- `TransitionLimits.__post_init__`: the message of the first failing check. -/
def Thresholds.postInit : Option String :=
  (t.floors.findSome? floorError).or (t.fractions.findSome? fractionError)

/-- Thresholds that passed every check of `__post_init__`. -/
structure TransitionLimits extends Thresholds where
  accepted : toThresholds.postInit = none

/-- The field layout of the config sections that `from_config` projects. -/
structure LimitsConfig where
  lifecycleQuarantineTtlDays : ℤ
  lifecycleCandidateTtlDays : ℤ
  lifecycleArchiveFloor : PyFloat
  promotionMinOutcomes : ℤ
  promotionFailureLessonOutcomes : ℤ
  promotionMinDistinctPrincipals : ℤ
  retirementQThreshold : PyFloat
  retirementMinScoredUses : ℤ
  retirementMinDistinctPrincipals : ℤ

/-- `TransitionLimits(...)`; the error is the text of the `ConfigError`. -/
def Thresholds.accept : Except String TransitionLimits :=
  match h : t.postInit with
  | none => .ok { toThresholds := t, accepted := h }
  | some message => .error message

/-- `TransitionLimits.from_config`. -/
def TransitionLimits.fromConfig (cfg : LimitsConfig) : Except String TransitionLimits :=
  Thresholds.accept
    { quarantineTtlDays := cfg.lifecycleQuarantineTtlDays
      candidateTtlDays := cfg.lifecycleCandidateTtlDays
      promoteMinOutcomes := cfg.promotionMinOutcomes
      failureLessonOutcomes := cfg.promotionFailureLessonOutcomes
      promotionMinDistinctPrincipals := cfg.promotionMinDistinctPrincipals
      retireQThreshold := cfg.retirementQThreshold
      retireMinScoredUses := cfg.retirementMinScoredUses
      retireMinDistinctPrincipals := cfg.retirementMinDistinctPrincipals
      archiveFloor := cfg.lifecycleArchiveFloor }

theorem Thresholds.accept_eq_ok {t : Thresholds} {l : TransitionLimits} :
    t.accept = .ok l ↔ l.toThresholds = t := by
  unfold Thresholds.accept
  constructor
  · intro h
    split at h
    next => rw [← Except.ok.inj h]
    next => cases h
  · rintro rfl
    split
    next => rfl
    next message hmessage => rw [l.accepted] at hmessage; cases hmessage

theorem TransitionLimits.floor_le (l : TransitionLimits) {name : String} {value floor : ℤ}
    (h : (name, value, floor) ∈ l.floors) : floor ≤ value := by
  have hnone := (Option.or_eq_none_iff.mp l.accepted).1
  have hcheck := findSome?_eq_none_iff.mp hnone _ h
  simp only [floorError, ite_eq_right_iff, reduceCtorEq, imp_false, not_lt] at hcheck
  exact hcheck

/-- `TransitionEvidence`: every field a guard may read, with the defaults of the source.
Instants are microseconds on one axis. -/
structure TransitionEvidence where
  now : ℤ
  provenanceClass : ProvenanceClass
  trustTier : TrustTier
  memType : MemType
  isFailureLesson : Bool := false
  scanPassed : Bool := false
  scanRepass : Bool := false
  provenanceComplete : Bool := false
  statusChangedAt : Option ℤ := none
  confirmations : List ShadowConfirmation := []
  hasVerifiedHumanVerdict : Bool := false
  promotionOutcomes : ℤ := 0
  promotionDistinctPrincipals : ℤ := 0
  outcomeConsistent : Bool := false
  openContradiction : Bool := false
  contradictionEqualOrStronger : Bool := false
  contradictionWeakerProvenance : Bool := false
  scanReflag : Bool := false
  invalidationEvent : Bool := false
  ttlClassExpired : Bool := false
  revalidationFailed : Bool := false
  reverified : Bool := false
  strikeCount : ℤ := 0
  qValue : PyFloat := .fin 0
  scoredUseCount : ℤ := 0
  distinctScoringPrincipals : ℤ := 0
  decayFloorReached : Bool := false
  operatorRestore : Bool := false
  operatorCreated : Bool := false
  erasureOrApprovedDelete : Bool := false

variable (cs : List ShadowConfirmation) (e : TransitionEvidence) (l : TransitionLimits)

/-! ### Independence -/

/-- Two confirmations corroborate each other: they share no run, no principal and no
input-signature cluster. -/
def Independent (a b : ShadowConfirmation) : Prop :=
  a.runId ≠ b.runId ∧ a.principalId ≠ b.principalId ∧
    sameCluster a.inputSignatureHash b.inputSignatureHash = false

instance (a b : ShadowConfirmation) : Decidable (Independent a b) :=
  inferInstanceAs (Decidable (_ ∧ _ ∧ _))

theorem Independent.symm {a b : ShadowConfirmation} (h : Independent a b) : Independent b a :=
  ⟨h.1.symm, h.2.1.symm, by rw [sameCluster, hamming, Nat.xor_comm]; exact h.2.2⟩

variable (confirmations : List ShadowConfirmation)

/-- `_compatibility_graph`: the adjacency of positions. An edge is entered for both ends
when the pair with the smaller position first is compatible. -/
def compatibilityGraph (i j : ℕ) : Bool :=
  match confirmations[min i j]?, confirmations[max i j]? with
  | some a, some b => decide (i ≠ j ∧ Independent a b)
  | _, _ => false

/-- `independent_confirmations(confirmations, at_least=...)`. -/
def independentConfirmations (atLeast : Option ℤ) : ℕ :=
  let considered := confirmations.take maxConfirmationsConsidered
  let n := considered.length
  if n = 0 then 0
  else
    let target : ℤ := match atLeast with
      | none => n
      | some k => min k n
    (Clique.search (compatibilityGraph considered) target maxCliqueSearchSteps
      (List.range n)).best

theorem compatibilityGraph_comm (i j : ℕ) :
    compatibilityGraph cs i j = compatibilityGraph cs j i := by
  simp only [compatibilityGraph, min_comm i j, max_comm i j, ne_comm]

/-- No position is adjacent to itself. -/
theorem compatibilityGraph_self (i : ℕ) : compatibilityGraph cs i i = false := by
  unfold compatibilityGraph
  split <;> simp

theorem independent_of_compatibilityGraph {cs : List ShadowConfirmation} {i j : ℕ}
    (h : compatibilityGraph cs i j = true) :
    ∃ a b, cs[i]? = some a ∧ cs[j]? = some b ∧ Independent a b := by
  unfold compatibilityGraph at h
  split at h
  next a b ha hb =>
    obtain ⟨-, hind⟩ := of_decide_eq_true h
    rcases le_total i j with hij | hij
    · rw [min_eq_left hij] at ha
      rw [max_eq_right hij] at hb
      exact ⟨a, b, ha, hb, hind⟩
    · rw [min_eq_right hij] at ha
      rw [max_eq_left hij] at hb
      exact ⟨b, a, hb, ha, hind.symm⟩
  next => cases h

/-- The confirmations at the positions of a clique are pairwise independent, and there
are as many of them as positions. -/
theorem exists_independent_of_isClique {cs : List ShadowConfirmation} {l : List ℕ}
    (hmem : ∀ v ∈ l, v < cs.length) (hl : Clique.IsClique (compatibilityGraph cs) l) :
    ∃ found : List ShadowConfirmation, (∀ c ∈ found, c ∈ cs) ∧
      found.Pairwise Independent ∧ found.length = l.length := by
  refine ⟨l.filterMap (cs[·]?), ?_, ?_, ?_⟩
  · intro c hc
    obtain ⟨v, -, hv⟩ := mem_filterMap.mp hc
    exact mem_of_getElem? hv
  · refine pairwise_filterMap.mpr (List.Pairwise.imp ?_ hl)
    intro i j hij a ha b hb
    obtain ⟨a', b', ha', hb', hind⟩ := independent_of_compatibilityGraph hij
    rw [ha', Option.some.injEq] at ha
    rw [hb', Option.some.injEq] at hb
    exact ha ▸ hb ▸ hind
  · induction l with
    | nil => rfl
    | cons v l ih =>
      have hv := hmem v mem_cons_self
      rw [filterMap_cons_some (getElem?_eq_getElem hv), length_cons,
        length_cons, ih (forall_mem_cons.mp hmem).2 (List.Pairwise.of_cons hl)]

/-- **Soundness of the bounded search.** Some pairwise independent list of the
confirmations considered is as long as the reported number, whatever the target and even
when the step budget ends the search. -/
theorem independentConfirmations_sound (atLeast : Option ℤ) :
    ∃ found : List ShadowConfirmation, (∀ c ∈ found, c ∈ cs.take maxConfirmationsConsidered) ∧
      found.Pairwise Independent ∧ found.length = independentConfirmations cs atLeast := by
  simp only [independentConfirmations]
  split
  · exact ⟨[], by simp, List.Pairwise.nil, rfl⟩
  · obtain ⟨l, hmem, hclique, hlen⟩ := Clique.search_sound
      (compatibilityGraph_comm (cs.take maxConfirmationsConsidered)) _
      maxCliqueSearchSteps (List.range (cs.take maxConfirmationsConsidered).length)
    obtain ⟨found, hsub, hpair, hfound⟩ := exists_independent_of_isClique
      (fun v hv => mem_range.mp (hmem v hv)) hclique
    exact ⟨found, hsub, hpair, hfound.trans hlen⟩

/-! ### Guards -/

/-- A guard's verdict; a refusal carries its reason. -/
structure GuardOutcome where
  ok : Bool
  reason : String

/-- What `apply` can raise. `overflowError` is `timedelta(days=...)` on a time-to-live of
more than 999999999 days. -/
inductive ApplyError
  | illegalTransition (current : Option Status) (target : Status)
  | guardNotSatisfied (current : Option Status) (target : Status) (reason : String)
  | overflowError

/-- The text of the raised error. -/
def ApplyError.message : ApplyError → String
  | illegalTransition current target =>
    "illegal transition: " ++ Status.repr current ++ " -> " ++ Status.repr (some target)
  | guardNotSatisfied current target reason =>
    "guard not satisfied: " ++ Status.repr current ++ " -> " ++
      Status.repr (some target) ++ " (" ++ reason ++ ")"
  | overflowError => "must have magnitude <= 999999999"

/-- Most guards are a sequence of conditions, each with the reason it refuses with. -/
def GuardOutcome.checks : List (Bool × String) → GuardOutcome
  | [] => ⟨true, ""⟩
  | (passes, reason) :: rest => if passes then checks rest else ⟨false, reason⟩

/-- A sequence of conditions passes when every one of them does. -/
@[simp] theorem GuardOutcome.checks_ok (l : List (Bool × String)) :
    (GuardOutcome.checks l).ok = true ↔ ∀ c ∈ l, c.1 = true := by
  induction l with
  | nil => simp [checks]
  | cons c l ih =>
    obtain ⟨passes, reason⟩ := c
    cases passes <;> simp [checks, ih]

/-- `_guard_none_to_candidate`. -/
def guardNoneToCandidate (_ : TransitionLimits) : GuardOutcome :=
  .checks [
    (e.trustTier = .A, "trust_tier must be A for a direct-to-candidate insert"),
    (e.provenanceClass = .parser,
      "provenance_class must be parser for a direct-to-candidate insert"),
    (e.scanPassed, "scan did not pass"),
    (e.provenanceComplete, "provenance incomplete")]

/-- `_guard_none_to_quarantined`. -/
def guardNoneToQuarantined (_ : TransitionLimits) : GuardOutcome :=
  .checks [
    (e.trustTier = .B, "trust_tier must be B for a quarantined insert"),
    (e.provenanceClass = .distiller ∨ e.provenanceClass = .proposal,
      "provenance_class must be distiller or proposal for a quarantined insert"),
    (e.scanPassed, "scan did not pass"),
    (e.provenanceComplete, "provenance incomplete")]

/-- `_guard_none_to_pinned`. -/
def guardNoneToPinned (_ : TransitionLimits) : GuardOutcome :=
  .checks [
    (e.provenanceClass = .operator,
      "provenance_class must be operator to create a pinned row"),
    (e.operatorCreated, "operator_created not set"),
    (e.memType = .preference, "pinned rows are preferences only")]

/-- How many independent confirmations the evidence must carry to leave quarantine. -/
def requiredConfirmations : ℤ :=
  if e.isFailureLesson ∧ e.memType = .lesson then l.failureLessonOutcomes
  else shadowConfirmMinIndependent

theorem one_le_requiredConfirmations : 1 ≤ requiredConfirmations e l := by
  unfold requiredConfirmations
  split_ifs
  · exact l.floor_le (show ("failure_lesson_outcomes", l.failureLessonOutcomes, 1) ∈ l.floors by
      simp [Thresholds.floors])
  · simp [shadowConfirmMinIndependent]

/-- `_guard_quarantined_to_candidate`. -/
def guardQuarantinedToCandidate : GuardOutcome :=
  if e.provenanceClass = .proposal then
    ⟨false, "proposal provenance class can never exit quarantine via any skip (D-023)"⟩
  else
    let required := requiredConfirmations e l
    let independent := independentConfirmations e.confirmations (some required)
    if (independent : ℤ) ≥ required then ⟨true, ""⟩
    else
      ⟨false, s!"only {independent} independent confirmation(s) (distinct run, distinct " ++
        "principal AND distinct input-signature cluster); need >= " ++ s!"{required}" ++
        " -- there is no verified-human-verdict skip in this build (D-133); quarantined " ++
        "content exits only via shadow corroboration"⟩

/-- A decimal numeral padded with zeros to two digits. -/
def twoDigits (n : ℕ) : String := if n < 10 then s!"0{n}" else s!"{n}"

/-- `str(timedelta)` of a duration in microseconds. -/
def timedeltaStr (us : ℤ) : String :=
  let days := us / 86400000000
  let rest := (us % 86400000000).toNat
  let seconds := rest / 1000000
  let micros := rest % 1000000
  let clock := s!"{seconds / 3600}:" ++ twoDigits (seconds / 60 % 60) ++ ":" ++
    twoDigits (seconds % 60)
  let fraction := if micros = 0 then "" else
    let digits := s!"{micros}"
    "." ++ String.ofList (List.replicate (6 - digits.length) '0') ++ digits
  let dayPart := if days = 0 then ""
    else if days = 1 ∨ days = -1 then s!"{days} day, "
    else s!"{days} days, "
  dayPart ++ clock ++ fraction

/-- `_guard_ttl_expired`. -/
def guardTtlExpired (ttlDays : ℤ) (label : String) : Except ApplyError GuardOutcome :=
  match e.statusChangedAt with
  | none => .ok ⟨false, s!"status_changed_at missing; cannot evaluate {label} TTL"⟩
  | some changed =>
    let age := e.now - changed
    if 999999999 < ttlDays then .error .overflowError
    else
      let limit := ttlDays * 86400000000
      if age ≥ limit then .ok ⟨true, ""⟩
      else
        .ok ⟨false, s!"{label} TTL not reached (" ++ timedeltaStr age ++ " < " ++
          timedeltaStr limit ++ ")"⟩

/-- `_guard_quarantined_to_archived`. -/
def guardQuarantinedToArchived : Except ApplyError GuardOutcome :=
  guardTtlExpired e l.quarantineTtlDays "quarantine"

/-- `_guard_candidate_to_validated`. -/
def guardCandidateToValidated : GuardOutcome :=
  .checks [
    (l.promoteMinOutcomes ≤ e.promotionOutcomes,
      s!"promotion_outcomes {e.promotionOutcomes} < required {l.promoteMinOutcomes}"),
    (l.promotionMinDistinctPrincipals ≤ e.promotionDistinctPrincipals,
      s!"promotion_distinct_principals {e.promotionDistinctPrincipals} < required " ++
        s!"{l.promotionMinDistinctPrincipals}"),
    (e.outcomeConsistent, "outcomes are not consistent"),
    (e.scanRepass, "scan re-pass missing"),
    (!e.openContradiction, "an open contradiction blocks promotion")]

/-- `_guard_candidate_to_quarantined`. -/
def guardCandidateToQuarantined (_ : TransitionLimits) : GuardOutcome :=
  .checks [(e.contradictionWeakerProvenance || e.scanReflag,
    "no weaker-provenance contradiction and no scan re-flag")]

/-- `_guard_candidate_to_archived`. -/
def guardCandidateToArchived : Except ApplyError GuardOutcome :=
  guardTtlExpired e l.candidateTtlDays "candidate"

/-- `_guard_validated_to_superseded`. -/
def guardValidatedToSuperseded (_ : TransitionLimits) : GuardOutcome :=
  .checks [(e.contradictionEqualOrStronger, "no equal-or-stronger-provenance contradiction")]

/-- `_guard_validated_to_stale`. -/
def guardValidatedToStale (_ : TransitionLimits) : GuardOutcome :=
  .checks [(e.invalidationEvent || e.ttlClassExpired || e.revalidationFailed,
    "no invalidation event, TTL-class expiry, or revalidation failure")]

/-- `_guard_validated_to_archived`. -/
def guardValidatedToArchived (_ : TransitionLimits) : GuardOutcome :=
  .checks [(e.decayFloorReached, "decay floor not reached")]

/-- `_guard_validated_to_retired`. -/
def guardValidatedToRetired : GuardOutcome :=
  .checks [
    (!PyFloat.le l.retireQThreshold e.qValue,
      s!"q_value {text e.qValue.repr} >= retire threshold {text l.retireQThreshold.repr}"),
    (l.retireMinScoredUses ≤ e.scoredUseCount,
      s!"scored_use_count {e.scoredUseCount} < required {l.retireMinScoredUses}"),
    (l.retireMinDistinctPrincipals ≤ e.distinctScoringPrincipals,
      s!"distinct_scoring_principals {e.distinctScoringPrincipals} < required K=" ++
        s!"{l.retireMinDistinctPrincipals} (D-021: route to review_queue instead of " ++
        "auto-retiring)")]

/-- `_guard_stale_to_validated`. -/
def guardStaleToValidated (_ : TransitionLimits) : GuardOutcome :=
  .checks [(e.reverified, "not re-verified")]

/-- `_guard_stale_to_retired`. -/
def guardStaleToRetired (_ : TransitionLimits) : GuardOutcome :=
  .checks [(staleRetireStrikeThreshold ≤ e.strikeCount,
    s!"strike_count {e.strikeCount} < {staleRetireStrikeThreshold} " ++
      "(second strike required)")]

/-- `_guard_archived_to_validated`. -/
def guardArchivedToValidated (_ : TransitionLimits) : GuardOutcome :=
  .checks [
    (e.provenanceClass ≠ .proposal,
      "proposal provenance class can never reach validated via any skip (D-023); " ++
        "an archived proposal must re-enter through quarantine and be corroborated"),
    (e.operatorRestore, "no operator restore")]

/-- `_guard_to_tombstoned`. -/
def guardToTombstoned (_ : TransitionLimits) : GuardOutcome :=
  .checks [(e.erasureOrApprovedDelete, "no erasure reason or review-approved delete")]

/-! ### The table and `apply` -/

/-- A guard of the table. Only the time-to-live guards can raise. -/
abbrev Guard := TransitionEvidence → TransitionLimits → Except ApplyError GuardOutcome

/-- A guard that does not raise, as an entry of the table. -/
def total (g : TransitionEvidence → TransitionLimits → GuardOutcome) : Guard :=
  fun e l => .ok (g e l)

/-- `_TRANSITIONS`. -/
def transitions : Option Status → Status → Option Guard
  | none, .candidate => some (total guardNoneToCandidate)
  | none, .quarantined => some (total guardNoneToQuarantined)
  | none, .pinned => some (total guardNoneToPinned)
  | some .quarantined, .candidate => some (total guardQuarantinedToCandidate)
  | some .quarantined, .archived => some guardQuarantinedToArchived
  | some .candidate, .validated => some (total guardCandidateToValidated)
  | some .candidate, .quarantined => some (total guardCandidateToQuarantined)
  | some .candidate, .archived => some guardCandidateToArchived
  | some .validated, .superseded => some (total guardValidatedToSuperseded)
  | some .validated, .stale => some (total guardValidatedToStale)
  | some .validated, .archived => some (total guardValidatedToArchived)
  | some .validated, .retired => some (total guardValidatedToRetired)
  | some .stale, .validated => some (total guardStaleToValidated)
  | some .stale, .retired => some (total guardStaleToRetired)
  | some .archived, .validated => some (total guardArchivedToValidated)
  | some .tombstoned, .tombstoned => none
  | some _, .tombstoned => some (total guardToTombstoned)
  | _, _ => none

/-- `apply(current, target, evidence, limits)`. -/
def apply (current : Option Status) (target : Status) (e : TransitionEvidence)
    (l : TransitionLimits) : Except ApplyError Status :=
  match transitions current target with
  | none => .error (.illegalTransition current target)
  | some guard => do
      let outcome ← guard e l
      if outcome.ok then .ok target
      else .error (.guardNotSatisfied current target outcome.reason)

/-- A time-to-live counted in days has run out for this evidence. -/
def TtlExpired (ttlDays : ℤ) : Prop :=
  ttlDays ≤ 999999999 ∧ ∃ changed, e.statusChangedAt = some changed ∧
    ttlDays * 86400000000 ≤ e.now - changed

/-- The edges of the state machine with what each one asks of the evidence. -/
inductive Permitted (e : TransitionEvidence) (l : TransitionLimits) :
    Option Status → Status → Prop
  | createCandidate (htier : e.trustTier = .A) (hclass : e.provenanceClass = .parser)
      (hscan : e.scanPassed = true) (hprov : e.provenanceComplete = true) :
      Permitted e l none .candidate
  | createQuarantined (htier : e.trustTier = .B)
      (hclass : e.provenanceClass = .distiller ∨ e.provenanceClass = .proposal)
      (hscan : e.scanPassed = true) (hprov : e.provenanceComplete = true) :
      Permitted e l none .quarantined
  | createPinned (hclass : e.provenanceClass = .operator) (hop : e.operatorCreated = true)
      (htype : e.memType = .preference) : Permitted e l none .pinned
  | corroborate (hclass : e.provenanceClass ≠ .proposal)
      (hcount : requiredConfirmations e l ≤
        independentConfirmations e.confirmations (some (requiredConfirmations e l))) :
      Permitted e l (some .quarantined) .candidate
  | expireQuarantined (httl : TtlExpired e l.quarantineTtlDays) :
      Permitted e l (some .quarantined) .archived
  | promote (hout : l.promoteMinOutcomes ≤ e.promotionOutcomes)
      (hprin : l.promotionMinDistinctPrincipals ≤ e.promotionDistinctPrincipals)
      (hcons : e.outcomeConsistent = true) (hscan : e.scanRepass = true)
      (hopen : e.openContradiction = false) : Permitted e l (some .candidate) .validated
  | requarantine (h : e.contradictionWeakerProvenance = true ∨ e.scanReflag = true) :
      Permitted e l (some .candidate) .quarantined
  | expireCandidate (httl : TtlExpired e l.candidateTtlDays) :
      Permitted e l (some .candidate) .archived
  | supersede (h : e.contradictionEqualOrStronger = true) :
      Permitted e l (some .validated) .superseded
  | goStale (h : e.invalidationEvent = true ∨ e.ttlClassExpired = true ∨
      e.revalidationFailed = true) : Permitted e l (some .validated) .stale
  | decay (h : e.decayFloorReached = true) : Permitted e l (some .validated) .archived
  | retire (hq : PyFloat.le l.retireQThreshold e.qValue = false)
      (huses : l.retireMinScoredUses ≤ e.scoredUseCount)
      (hprin : l.retireMinDistinctPrincipals ≤ e.distinctScoringPrincipals) :
      Permitted e l (some .validated) .retired
  | reverify (h : e.reverified = true) : Permitted e l (some .stale) .validated
  | secondStrike (h : staleRetireStrikeThreshold ≤ e.strikeCount) :
      Permitted e l (some .stale) .retired
  | restore (hclass : e.provenanceClass ≠ .proposal) (hop : e.operatorRestore = true) :
      Permitted e l (some .archived) .validated
  | tombstone {s : Status} (hs : s ≠ .tombstoned) (h : e.erasureOrApprovedDelete = true) :
      Permitted e l (some s) .tombstoned

/-- `_guard_ttl_expired` passes exactly when the time-to-live has run out. -/
theorem guardTtlExpired_passes {e : TransitionEvidence} {ttlDays : ℤ} {label : String} :
    (∃ o, guardTtlExpired e ttlDays label = .ok o ∧ o.ok = true) ↔ TtlExpired e ttlDays := by
  constructor
  · rintro ⟨o, ho, hok⟩
    simp only [guardTtlExpired] at ho
    split at ho
    · cases ho
      cases hok
    next changed hchanged =>
      split_ifs at ho with hbig hage
      · exact ⟨not_lt.mp hbig, changed, hchanged, hage⟩
      · cases ho
        cases hok
  · rintro ⟨hsmall, changed, hchanged, hage⟩
    refine ⟨⟨true, ""⟩, ?_, rfl⟩
    simp only [guardTtlExpired, hchanged, if_neg (not_lt.mpr hsmall), if_pos hage]

/-- `_guard_quarantined_to_candidate` passes exactly on enough independent confirmations
of content that is not a proposal. -/
theorem guardQuarantinedToCandidate_ok {e : TransitionEvidence} {l : TransitionLimits} :
    (guardQuarantinedToCandidate e l).ok = true ↔ e.provenanceClass ≠ .proposal ∧
      requiredConfirmations e l ≤
        independentConfirmations e.confirmations (some (requiredConfirmations e l)) := by
  simp only [guardQuarantinedToCandidate]
  split_ifs with hclass hcount
  · simp [hclass]
  · simp [hclass, hcount]
  · simp only [false_iff, not_and]
    exact fun _ => hcount

variable {current : Option Status}

/-- A table entry exists and passes exactly along a permitted edge. -/
theorem permitted_iff {e : TransitionEvidence} {l : TransitionLimits} {target : Status} :
    Permitted e l current target ↔
      ∃ guard, transitions current target = some guard ∧ ∃ o, guard e l = .ok o ∧ o.ok = true := by
  constructor
  · intro h
    cases h with
    | corroborate hclass hcount =>
      exact ⟨_, rfl, _, rfl, guardQuarantinedToCandidate_ok.mpr ⟨hclass, hcount⟩⟩
    | expireQuarantined httl | expireCandidate httl =>
      exact ⟨_, rfl, guardTtlExpired_passes.mpr httl⟩
    | @tombstone s hs h =>
      have htable : transitions (some s) .tombstoned = some (total guardToTombstoned) := by
        cases s <;> first | rfl | exact absurd rfl hs
      exact ⟨_, htable, _, rfl, by simp [guardToTombstoned, h]⟩
    | createCandidate | createQuarantined | createPinned | promote | requarantine
    | supersede | goStale | decay | retire | reverify | secondStrike | restore =>
      refine ⟨_, rfl, _, rfl, ?_⟩
      simp_all [guardNoneToCandidate, guardNoneToQuarantined, guardNoneToPinned,
        guardCandidateToValidated, guardCandidateToQuarantined,
        guardValidatedToSuperseded, guardValidatedToStale, guardValidatedToArchived,
        guardValidatedToRetired, guardStaleToValidated, guardStaleToRetired,
        guardArchivedToValidated, or_assoc]
  · rintro ⟨guard, htable, o, ho, hok⟩
    unfold transitions at htable
    split at htable <;> cases htable <;> try cases ho
    -- a guard of checks passes when each of its checks does
    all_goals try simp only [guardNoneToCandidate, guardNoneToQuarantined, guardNoneToPinned,
      guardCandidateToValidated, guardCandidateToQuarantined, guardValidatedToSuperseded,
      guardValidatedToStale, guardValidatedToArchived, guardValidatedToRetired,
      guardStaleToValidated, guardStaleToRetired, guardArchivedToValidated, guardToTombstoned,
      GuardOutcome.checks_ok, forall_mem_cons, decide_eq_true_eq, Bool.not_eq_true',
      Bool.or_eq_true, or_assoc] at hok
    · exact .createCandidate hok.1 hok.2.1 hok.2.2.1 hok.2.2.2.1
    · exact .createQuarantined hok.1 hok.2.1 hok.2.2.1 hok.2.2.2.1
    · exact .createPinned hok.1 hok.2.1 hok.2.2.1
    · obtain ⟨hclass, hcount⟩ := guardQuarantinedToCandidate_ok.mp hok
      exact .corroborate hclass hcount
    · exact .expireQuarantined (guardTtlExpired_passes.mp ⟨o, ho, hok⟩)
    · exact .promote hok.1 hok.2.1 hok.2.2.1 hok.2.2.2.1 hok.2.2.2.2.1
    · exact .requarantine hok.1
    · exact .expireCandidate (guardTtlExpired_passes.mp ⟨o, ho, hok⟩)
    · exact .supersede hok.1
    · exact .goStale hok.1
    · exact .decay hok.1
    · exact .retire hok.1 hok.2.1 hok.2.2.1
    · exact .reverify hok.1
    · exact .secondStrike hok.1
    · exact .restore hok.1 hok.2.1
    next s hs => exact .tombstone (fun h => hs (h ▸ rfl)) hok.1

/-- **`apply` succeeds exactly along the permitted edges**, and then returns the target. -/
theorem apply_eq_ok_iff {e : TransitionEvidence} {l : TransitionLimits} {target t : Status} :
    apply current target e l = .ok t ↔ t = target ∧ Permitted e l current target := by
  rw [permitted_iff, apply]
  cases htable : transitions current target with
  | none => simp
  | some guard =>
    cases ho : guard e l with
    | error err =>
      simp [bind, Except.bind, ho]
    | ok o =>
      cases hok : o.ok with
      | false => simp [bind, Except.bind, ho, hok]
      | true => simp [bind, Except.bind, ho, hok, @eq_comm _ target]

end Tracebed
