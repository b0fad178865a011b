import Tracebed.Independence
import Tracebed.Lifecycle

/-!
# Shadow Validation

`workers/shadow_validator.py`: a quarantined memory is promoted to candidate when the
runs offered as confirmations, minus the runs it was derived from and minus anything
correlated with those, clear the state machine's guard.

Both sets go through `build_confirmations`. For the origin runs that is not the safe direction:
an origin past the first 256, or one whose stored signature has the wrong length, no longer
disqualifies a replay under its own principal (`promotion_by_replay`).
`promotionsSupported_iff` says exactly when no promotion rests on such a replay.
-/

open Py Fallible List Option

namespace Tracebed

/-- The parts of `Provenance` the validator reads. -/
structure Provenance where
  cls : ProvenanceClass
  traceIds : List RunId := []
  verdictId : Option UUID := none
  runId : Option RunId := none

variable (project : ProjectId) (lookup : Lookup) (p : Provenance)

/-- `QuarantinedMemoryRow`. -/
structure QuarantinedMemoryRow where
  id : MemoryId
  projectId : ProjectId
  status : Status
  trustTier : TrustTier
  memType : MemType
  provenance : Provenance
  statusChangedAt : Option ℤ
  isFailureLesson : Bool
  confirmingRunIds : List RunId

/-- `ShadowTransitionWrite`: what a promotion persists. -/
structure ShadowTransitionWrite where
  memoryId : MemoryId
  fromStatus : Status
  toStatus : Status
  now : ℤ
  epochId : ℤ

/-- `ShadowValidationOutcome`. -/
structure ShadowValidationOutcome where
  memoryId : MemoryId
  promoted : Bool
  toStatus : Option Status
  independentCount : ℕ
  reason : String

/-- What `evaluate_one` can raise. -/
inductive ValidatorError
  | tracebedError (message : String)
  | configError (message : String)
  | applyError (e : ApplyError)

/-- `origin_runs(provenance)`: a set, here without repetition. -/
def originRuns : List RunId := (p.traceIds ++ p.runId.toList).dedup

/-- `sorted(origins, key=str)`. -/
def sortedOrigins : List RunId :=
  (originRuns p).insertionSort fun a b => strLe a.value.str b.value.str = true

/-- `_require_row`. -/
def requireRow (row : QuarantinedMemoryRow) (project : ProjectId) : Except ValidatorError Unit :=
  if row.projectId ≠ project then
    .error (.tracebedError ("memory " ++ text row.id.value.str ++ " belongs to project " ++
      text row.projectId.value.str ++ ", not " ++ text project.value.str ++
      "; select_quarantined returned a row outside the requested project (invariant 4)"))
  else if row.status ≠ .quarantined then
    .error (.tracebedError ("memory " ++ text row.id.value.str ++ " is '" ++ row.status.text ++
      "', not 'quarantined'; shadow validation must not ask the state machine to judge an " ++
      "edge this row is not on"))
  else .ok ()

/-- `ShadowValidator._resolve_confirmations`; the error is the text of the
`TracebedError`. -/
def resolveConfirmations (row : QuarantinedMemoryRow) : Except String (List ShadowConfirmation) :=
  if row.provenance.cls = .proposal then .ok []
  else
    let origins := originRuns row.provenance
    let offered := row.confirmingRunIds.filter (· ∉ origins)
    if offered = [] then .ok []
    else do
      let confirmations ← buildConfirmations project offered lookup false
      let originConfirmations ←
        buildConfirmations project (sortedOrigins row.provenance) lookup true
      if originConfirmations = [] then .ok confirmations
      else .ok (confirmations.filter fun c => originConfirmations.all (independentOf c))

/-- The evidence `evaluate_one` builds for a row and its confirmations. -/
def QuarantinedMemoryRow.evidence (row : QuarantinedMemoryRow) (now : ℤ)
    (confirmations : List ShadowConfirmation) : TransitionEvidence :=
  { now := now
    provenanceClass := row.provenance.cls
    trustTier := row.trustTier
    memType := row.memType
    isFailureLesson := row.isFailureLesson
    statusChangedAt := row.statusChangedAt
    confirmations := confirmations
    hasVerifiedHumanVerdict :=
      row.provenance.cls = .humanVerdict && row.provenance.verdictId.isSome }

/-- `ShadowValidator.evaluate_one`: the outcome, and the write handed to the repository
when the row is promoted. -/
def evaluateOne (now epochId : ℤ) (cfg : LimitsConfig) (row : QuarantinedMemoryRow) :
    Except ValidatorError (ShadowValidationOutcome × Option ShadowTransitionWrite) := do
  requireRow row project
  let limits ← (TransitionLimits.fromConfig cfg).mapError .configError
  let confirmations ← (resolveConfirmations project lookup row).mapError .tracebedError
  let independent := independentConfirmations confirmations none
  match apply (some row.status) .candidate (row.evidence now confirmations) limits with
  | .ok newStatus =>
    .ok (⟨row.id, true, some newStatus, independent, ""⟩,
      some ⟨row.id, row.status, newStatus, now, epochId⟩)
  | .error (.guardNotSatisfied _ _ reason) =>
    .ok (⟨row.id, false, none, independent, reason⟩, none)
  | .error e => .error (.applyError e)

/-! ### The confirmations a row is judged on -/

variable {r : RunId}

theorem mem_sortedOrigins {p : Provenance} : r ∈ sortedOrigins p ↔ r ∈ originRuns p :=
  mem_insertionSort _

/-- The origins that are looked up: the first 256 in the order of their texts. -/
def consideredOrigins : List RunId :=
  (sortedOrigins p).take maxConfirmationsConsidered

theorem firstDistinct_sortedOrigins : firstDistinct [] (sortedOrigins p) = consideredOrigins p := by
  have hnodup : (sortedOrigins p).Nodup := (perm_insertionSort _ _).nodup_iff.mpr (nodup_dedup _)
  exact firstDistinct_of_nodup (by decide) hnodup

/-- The confirmation a run that may serve as evidence is turned into. -/
def evidenceOf (r : RunId) : Option ShadowConfirmation :=
  (lookup project r).bind (ConfirmingRun.confirmation false)

/-- The confirmation an origin run is turned into. -/
def originOf (r : RunId) : Option ShadowConfirmation :=
  (lookup project r).bind (ConfirmingRun.confirmation true)

/-- **The confirmations of a row** against an honest lookup: what the offered runs give,
filtered by independence from what the considered origins give. -/
theorem resolveConfirmations_eq {project : ProjectId} {lookup : Lookup}
    (hlookup : lookup.Honest) {row : QuarantinedMemoryRow}
    (hclass : row.provenance.cls ≠ .proposal) :
    resolveConfirmations project lookup row = .ok (((firstDistinct [] (row.confirmingRunIds.filter
          (· ∉ originRuns row.provenance))).filterMap (evidenceOf project lookup)).filter
        fun c => ((consideredOrigins row.provenance).filterMap
          (originOf project lookup)).all (independentOf c)) := by
  simp only [resolveConfirmations, if_neg hclass, buildConfirmations_eq hlookup,
    firstDistinct_sortedOrigins]
  split_ifs with hoffered
  · simp only [hoffered, firstDistinct, filterMap_nil, filter_nil]
  · simp only [bind, Except.bind]
    split_ifs with horigins
    · have hnil : (consideredOrigins row.provenance).filterMap (originOf project lookup) = [] :=
        horigins
      simp only [hnil, all_nil, filter_true]
      rfl
    · rfl

variable {c : ShadowConfirmation} {cs : List ShadowConfirmation}

/-- A confirmation of a row comes from an offered run that is no origin, and is
independent of every considered origin. -/
theorem mem_resolveConfirmations {project : ProjectId} {lookup : Lookup} (hlookup : lookup.Honest)
    {row : QuarantinedMemoryRow} (hcs : resolveConfirmations project lookup row = .ok cs)
    (hc : c ∈ cs) :
    (∃ r ∈ row.confirmingRunIds, r ∉ originRuns row.provenance ∧
      evidenceOf project lookup r = some c) ∧
    ∀ o ∈ consideredOrigins row.provenance, ∀ oc, originOf project lookup o = some oc →
      independentOf c oc = true := by
  by_cases hclass : row.provenance.cls = .proposal
  · simp only [resolveConfirmations, if_pos hclass, Except.ok.injEq] at hcs
    rw [← hcs] at hc
    cases hc
  · rw [resolveConfirmations_eq hlookup hclass, Except.ok.injEq] at hcs
    rw [← hcs] at hc
    obtain ⟨hc, hind⟩ := mem_filter.mp hc
    obtain ⟨r, hr, hev⟩ := mem_filterMap.mp hc
    refine ⟨?_, ?_⟩
    · rcases mem_of_mem_firstDistinct hr with hr | hr
      · cases hr
      · obtain ⟨hoffered, horigin⟩ := mem_filter.mp hr
        exact ⟨r, hoffered, of_decide_eq_true horigin, hev⟩
    · intro o ho oc hoc
      exact all_eq_true.mp hind oc (mem_filterMap.mpr ⟨o, ho, hoc⟩)

/-! ### What a promotion should rest on -/

/-- Two stored signatures lie in different clusters, as far as both have one. -/
def DifferentCluster (a b : Bytes) : Prop :=
  ∀ sa sb : Signature, sa.bytes = a → sb.bytes = b → sameCluster sa sb = false

/-- A run shares neither principal nor cluster with another. -/
def Unrelated (a b : ConfirmingRun) : Prop :=
  a.principalId ≠ b.principalId ∧ DifferentCluster a.inputSignatureHash b.inputSignatureHash

/-- A run that is no origin and has a recorded signature. -/
def Usable (c : ConfirmingRun) : Prop :=
  c.runId ∉ originRuns p ∧ lookup project c.runId = some c ∧
    c.inputSignatureHash.length = sigHashLen ∧ c.inputSignatureHash ≠ absentSignature

/-- How many runs the promotion of a row must rest on. -/
def QuarantinedMemoryRow.required (row : QuarantinedMemoryRow) (limits : TransitionLimits) : ℤ :=
  if row.isFailureLesson ∧ row.memType = .lesson then limits.failureLessonOutcomes else 2

/-- The required number of offered runs, none of them an origin, each with a recorded
signature, pairwise in different runs, principals and clusters, and each unrelated to
every origin the lookup resolves. -/
def Supported (row : QuarantinedMemoryRow) (limits : TransitionLimits) : Prop :=
  ∃ chosen : List ConfirmingRun, (chosen.length : ℤ) = row.required limits ∧
    (∀ c ∈ chosen, c.runId ∈ row.confirmingRunIds ∧ Usable project lookup row.provenance c ∧
      ∀ o ∈ originRuns row.provenance, ∀ found, lookup project o = some found →
        Unrelated c found) ∧
    chosen.Pairwise fun a b => a.runId ≠ b.runId ∧ Unrelated a b

/-- Every promotion of a row with this provenance, under any limits, is supported. -/
def PromotionsSupported : Prop :=
  ∀ (row : QuarantinedMemoryRow) (now epochId : ℤ) (cfg : LimitsConfig)
    (limits : TransitionLimits) (outcome : ShadowValidationOutcome)
    (write : Option ShadowTransitionWrite),
    row.provenance = p → TransitionLimits.fromConfig cfg = .ok limits →
    evaluateOne project lookup now epochId cfg row = .ok (outcome, write) →
    outcome.promoted = true → Supported project lookup row limits

/-- An origin the lookup resolves and the validator nevertheless does not compare with:
it is past the first 256, or its signature has the wrong length. -/
def DroppedOrigin (found : ConfirmingRun) : Prop :=
  ∃ o ∈ originRuns p, lookup project o = some found ∧
    (o ∉ consideredOrigins p ∨ found.inputSignatureHash.length ≠ sigHashLen)

/-- A usable run that every origin the validator compares with lets through. -/
def PassesFilter (c : ConfirmingRun) : Prop :=
  Usable project lookup p c ∧
    ∀ o ∈ consideredOrigins p, ∀ found, lookup project o = some found →
      found.inputSignatureHash.length = sigHashLen →
      found.inputSignatureHash ≠ absentSignature ∧ Unrelated c found

/-- Unequal to the sentinel, in the form the model computes. -/
theorem isAbsentSignature_eq_false {b : Bytes} :
    isAbsentSignature b = false ↔ b ≠ absentSignature := by
  simp [isAbsentSignature]

theorem lookup_confirmation_eq_some {project : ProjectId} {lookup : Lookup} {includeAbsent : Bool} :
    (lookup project r).bind (ConfirmingRun.confirmation includeAbsent) = some c ↔
      lookup project r = some ⟨c.runId, c.principalId, c.inputSignatureHash.bytes⟩ ∧
      (includeAbsent = true ∨ isAbsentSignature c.inputSignatureHash.bytes = false) := by
  constructor
  · intro h
    obtain ⟨found, hfound, hconf⟩ := bind_eq_some_iff.mp h
    obtain ⟨hrun, hprin, hsig, habs⟩ := ConfirmingRun.confirmation_eq_some.mp hconf
    rw [hrun, hprin, hsig]
    exact ⟨hfound, habs⟩
  · rintro ⟨hfound, habs⟩
    rw [hfound, bind_some, ConfirmingRun.confirmation_eq_some]
    exact ⟨rfl, rfl, rfl, habs⟩

theorem evidenceOf_eq_some {project : ProjectId} {lookup : Lookup} (hlookup : lookup.Honest) :
    evidenceOf project lookup r = some c ↔
      lookup project r = some ⟨c.runId, c.principalId, c.inputSignatureHash.bytes⟩ ∧
      c.runId = r ∧ c.inputSignatureHash.bytes ≠ absentSignature := by
  rw [evidenceOf, lookup_confirmation_eq_some, ← isAbsentSignature_eq_false]
  constructor
  · rintro ⟨hfound, habs⟩
    exact ⟨hfound, hlookup project r _ hfound, habs.resolve_left (by simp)⟩
  · rintro ⟨hfound, -, habs⟩
    exact ⟨hfound, .inr habs⟩

theorem originOf_eq_some {project : ProjectId} {lookup : Lookup} :
    originOf project lookup r = some c ↔
      lookup project r = some ⟨c.runId, c.principalId, c.inputSignatureHash.bytes⟩ := by
  rw [originOf, lookup_confirmation_eq_some]
  exact ⟨fun h => h.1, fun h => ⟨h, .inl rfl⟩⟩

def ShadowConfirmation.row (c : ShadowConfirmation) : ConfirmingRun :=
  ⟨c.runId, c.principalId, c.inputSignatureHash.bytes⟩

/-- Distinct principals and clusters of two confirmations, read off their rows. -/
theorem unrelated_row_iff {a b : ShadowConfirmation} :
    Unrelated a.row b.row ↔ a.principalId ≠ b.principalId ∧
      sameCluster a.inputSignatureHash b.inputSignatureHash = false := by
  refine and_congr_right fun _ => ⟨fun h => h _ _ rfl rfl, ?_⟩
  rintro h ⟨ba, hba⟩ ⟨bb, hbb⟩ rfl rfl
  exact h

variable {found : ConfirmingRun}

theorem exists_row_eq (h : found.inputSignatureHash.length = sigHashLen) :
    ∃ c, ShadowConfirmation.row c = found :=
  ⟨⟨found.runId, found.principalId, ⟨found.inputSignatureHash, h⟩⟩, rfl⟩

/-! ### When a row is promoted -/

/-- `_require_row` lets exactly the quarantined rows of the project through. -/
theorem requireRow_eq_ok {row : QuarantinedMemoryRow} {project : ProjectId} {u : Unit} :
    requireRow row project = .ok u ↔ row.projectId = project ∧ row.status = .quarantined := by
  unfold requireRow
  split_ifs with hproject hstatus
  · simp [hproject]
  · simp [hstatus]
  · simpa using ⟨not_not.mp hproject, not_not.mp hstatus⟩

/-- **When `evaluate_one` promotes.** The row is quarantined in the project, the limits are
valid, and the guard accepts the resolved confirmations. -/
theorem promoted_iff {project : ProjectId} {lookup : Lookup} {now epochId : ℤ}
    {cfg : LimitsConfig} {row : QuarantinedMemoryRow} :
    (∃ outcome write, evaluateOne project lookup now epochId cfg row = .ok (outcome, write) ∧
      outcome.promoted = true) ↔
    (row.projectId = project ∧ row.status = .quarantined) ∧
      ∃ limits cs, TransitionLimits.fromConfig cfg = .ok limits ∧
        resolveConfirmations project lookup row = .ok cs ∧
        Permitted (row.evidence now cs) limits (some .quarantined) .candidate := by
  constructor
  · rintro ⟨outcome, write, heval, hpromoted⟩
    obtain ⟨_, hrow, heval⟩ := bind_eq_ok.mp heval
    obtain ⟨limits, hlimits, heval⟩ := bind_eq_ok.mp heval
    obtain ⟨cs, hcs, heval⟩ := bind_eq_ok.mp heval
    have hstatus := requireRow_eq_ok.mp hrow
    refine ⟨hstatus, limits, cs, mapError_eq_ok.mp hlimits, mapError_eq_ok.mp hcs, ?_⟩
    rw [hstatus.2] at heval
    split at heval
    next t happly => exact (apply_eq_ok_iff.mp happly).2
    next =>
      cases heval
      cases hpromoted
    next => cases heval
  · rintro ⟨hrow, limits, cs, hlimits, hcs, hperm⟩
    have happly : apply (some row.status) .candidate (row.evidence now cs) limits =
        .ok .candidate := by
      rw [hrow.2]
      exact apply_eq_ok_iff.mpr ⟨rfl, hperm⟩
    refine ⟨⟨row.id, true, some .candidate, independentConfirmations cs none, ""⟩,
      some ⟨row.id, row.status, .candidate, now, epochId⟩, ?_, rfl⟩
    refine guard_ok (requireRow_eq_ok.mpr hrow) ?_
    refine bind_eq_ok.mpr ⟨limits, mapError_eq_ok.mpr hlimits, ?_⟩
    refine bind_ok (mapError_eq_ok.mpr hcs) ?_
    rw [happly]

theorem passesFilter_of_mem {project : ProjectId} {lookup : Lookup} (hlookup : lookup.Honest)
    {row : QuarantinedMemoryRow} (hcs : resolveConfirmations project lookup row = .ok cs)
    (hc : c ∈ cs) :
    c.runId ∈ row.confirmingRunIds ∧ PassesFilter project lookup row.provenance c.row := by
  obtain ⟨⟨r, hoffered, horigin, hev⟩, hind⟩ := mem_resolveConfirmations hlookup hcs hc
  obtain ⟨hfound, rfl, habs⟩ := (evidenceOf_eq_some hlookup).mp hev
  refine ⟨hoffered, ⟨horigin, hfound, c.inputSignatureHash.length_eq, habs⟩, ?_⟩
  intro o ho found hlook hlen
  obtain ⟨oc, rfl⟩ := exists_row_eq hlen
  obtain ⟨-, hoabs, hpair⟩ := independentOf_iff.mp (hind o ho oc (originOf_eq_some.mpr hlook))
  exact ⟨isAbsentSignature_eq_false.mp hoabs, unrelated_row_iff.mpr hpair.2⟩

/-- A failure lesson of the given provenance, offered a single run. -/
def failureLessonRow (r : RunId) : QuarantinedMemoryRow :=
  { id := ⟨⟨0⟩⟩
    projectId := project
    status := .quarantined
    trustTier := .B
    memType := .lesson
    provenance := p
    statusChangedAt := none
    isFailureLesson := true
    confirmingRunIds := [r] }

def defaultLimitsConfig : LimitsConfig where
  lifecycleQuarantineTtlDays := 30
  lifecycleCandidateTtlDays := 45
  lifecycleArchiveFloor := PyFloat.ofDecimalRat false (3 / 20)
  promotionMinOutcomes := 2
  promotionFailureLessonOutcomes := 1
  promotionMinDistinctPrincipals := 2
  retirementQThreshold := .fin (1 / 4)
  retirementMinScoredUses := 4
  retirementMinDistinctPrincipals := 3

theorem fromConfig_default : TransitionLimits.fromConfig defaultLimitsConfig = .ok defaultLimits :=
  Thresholds.accept_eq_ok.mpr rfl

theorem failureLesson_promoted {project : ProjectId} {lookup : Lookup}
    (hlookup : lookup.Honest) {p : Provenance} (hclass : p.cls ≠ .proposal)
    {c : ConfirmingRun} (hc : PassesFilter project lookup p c) :
    ∃ outcome write, evaluateOne project lookup 0 0 defaultLimitsConfig
      (failureLessonRow project p c.runId) = .ok (outcome, write) ∧
      outcome.promoted = true := by
  obtain ⟨⟨horigin, hfound, hlen, habs⟩, hind⟩ := hc
  obtain ⟨sc, rfl⟩ := exists_row_eq hlen
  have hresolved : resolveConfirmations project lookup
      (failureLessonRow project p sc.row.runId) = .ok [sc] := by
    rw [resolveConfirmations_eq hlookup hclass]
    have hev : evidenceOf project lookup sc.row.runId = some sc :=
      (evidenceOf_eq_some hlookup).mpr ⟨hfound, rfl, habs⟩
    have hoffered : [sc.row.runId].filter (· ∉ originRuns p) = [sc.row.runId] := by
      simp [horigin]
    change Except.ok ((filterMap _ (firstDistinct [] ([sc.row.runId].filter
      (· ∉ originRuns p)))).filter _) = _
    rw [hoffered, show firstDistinct [] [sc.row.runId] = [sc.row.runId] from rfl,
      filterMap_cons_some hev, filterMap_nil, filter_cons_of_pos, filter_nil]
    refine all_eq_true.mpr fun oc hoc => ?_
    obtain ⟨o, ho, horig⟩ := mem_filterMap.mp hoc
    have hlook := originOf_eq_some.mp horig
    obtain ⟨hoabs, hunrel⟩ := hind o ho oc.row hlook oc.inputSignatureHash.length_eq
    have hrun : sc.runId ≠ oc.runId := by
      rintro heq
      have hrow : oc.runId = o := hlookup project o _ hlook
      have hmem : sc.runId ∈ originRuns p := by
        rw [heq, hrow]
        exact mem_sortedOrigins.mp (mem_of_mem_take ho)
      exact horigin hmem
    exact independentOf_iff.mpr ⟨isAbsentSignature_eq_false.mpr habs,
      isAbsentSignature_eq_false.mpr hoabs, hrun, unrelated_row_iff.mp hunrel⟩
  refine promoted_iff.mpr ⟨⟨rfl, rfl⟩, defaultLimits, [sc], fromConfig_default, hresolved, ?_⟩
  refine .corroborate hclass ?_
  exact le_refl 1

/-- A supported promotion on one offered run makes that run unrelated to every resolved
origin. -/
theorem Supported.unrelated {project : ProjectId} {lookup : Lookup} {p : Provenance}
    {c : ConfirmingRun} (hc : lookup project c.runId = some c)
    (h : Supported project lookup (failureLessonRow project p c.runId) defaultLimits) {o : RunId}
    (ho : o ∈ originRuns p) (hfound : lookup project o = some found) : Unrelated c found := by
  obtain ⟨chosen, hlen, hchosen, -⟩ := h
  obtain ⟨x, rfl⟩ : ∃ x, chosen = [x] := by
    have hone : (chosen.length : ℤ) = 1 := hlen
    exact length_eq_one_iff.mp (by exact_mod_cast hone)
  obtain ⟨hoffered, ⟨-, hlook, -⟩, hclear⟩ := hchosen x mem_cons_self
  have hrun : x.runId = c.runId := mem_singleton.mp hoffered
  have hxc : x = c := by
    rw [hrun, hc] at hlook
    exact (some.inj hlook).symm
  exact hxc ▸ hclear o ho found hfound

/-- **When promotions are supported.** For an honest lookup and any provenance: every
promotion of a row with that provenance rests on runs unrelated to every resolved origin
exactly when the provenance is a proposal's, or every run that passes the filter is
unrelated to the origins the validator drops. -/
theorem promotionsSupported_iff (project : ProjectId) (lookup : Lookup) (p : Provenance)
    (hlookup : lookup.Honest) :
    PromotionsSupported project lookup p ↔
      p.cls = .proposal ∨ ∀ found, DroppedOrigin project lookup p found →
        ∀ c, PassesFilter project lookup p c → Unrelated c found := by
  constructor
  · intro hsupported
    by_cases hclass : p.cls = .proposal
    · exact .inl hclass
    · refine .inr fun found hdropped c hc => ?_
      -- offer the passing run alone to a failure lesson
      obtain ⟨outcome, write, heval, hpromoted⟩ := failureLesson_promoted hlookup hclass hc
      have hrow := hsupported _ 0 0 _ _ outcome write rfl fromConfig_default heval hpromoted
      obtain ⟨o, ho, hfound, -⟩ := hdropped
      exact hrow.unrelated hc.1.2.1 ho hfound
  · rintro hcond row now epochId cfg limits outcome write rfl hlimits heval hpromoted
    obtain ⟨-, limits', cs, hlimits', hcs, hperm⟩ :=
      promoted_iff.mp ⟨outcome, write, heval, hpromoted⟩
    obtain rfl : limits' = limits := Except.ok.inj (hlimits'.symm.trans hlimits)
    have hclass : row.provenance.cls ≠ .proposal := by
      cases hperm with
      | corroborate hclass _ => exact hclass
    obtain ⟨-, found, hmem, hpair, hcount⟩ :=
      corroborated_of_permitted (c := ⟨.candidate, row.evidence now cs, limits'⟩) hperm
    have hrequired : requiredConfirmations (row.evidence now cs) limits' =
        row.required limits' := rfl
    rw [hrequired] at hcount
    have hpos : 0 ≤ row.required limits' :=
      le_trans (by decide) (one_le_requiredConfirmations (row.evidence now cs) limits')
    refine ⟨(found.take (row.required limits').toNat).map ShadowConfirmation.row, ?_, ?_, ?_⟩
    · rw [length_map, length_take]
      omega
    · intro c hc
      obtain ⟨sc, hsc, rfl⟩ := mem_map.mp hc
      obtain ⟨hoffered, hpass⟩ := passesFilter_of_mem hlookup hcs (hmem sc (mem_of_mem_take hsc))
      refine ⟨hoffered, hpass.1, fun o ho orig hlook => ?_⟩
      -- a resolved origin is either compared with or dropped
      by_cases hkept : o ∈ consideredOrigins row.provenance ∧
          orig.inputSignatureHash.length = sigHashLen
      · exact (hpass.2 o hkept.1 orig hlook hkept.2).2
      · refine hcond.resolve_left hclass orig ⟨o, ho, hlook, ?_⟩ _ hpass
        exact not_and_or.mp hkept
    · refine pairwise_map.mpr (List.Pairwise.imp ?_ (hpair.sublist (take_sublist _ _)))
      intro a b hab
      exact ⟨hab.1, unrelated_row_iff.mpr hab.2⟩

theorem not_droppedOrigin {project : ProjectId} {lookup : Lookup} {p : Provenance}
    (hfew : (originRuns p).length ≤ maxConfirmationsConsidered)
    (hsig : ∀ o ∈ originRuns p, ∀ found, lookup project o = some found →
      found.inputSignatureHash.length = sigHashLen) (found : ConfirmingRun) :
    ¬ DroppedOrigin project lookup p found := by
  rintro ⟨o, ho, hlook, hdropped | hdropped⟩
  · refine hdropped ?_
    rw [consideredOrigins, take_of_length_le]
    · exact mem_sortedOrigins.mpr ho
    · rwa [sortedOrigins, length_insertionSort]
  · exact hdropped (hsig o ho found hlook)

/-! ### Promotion by a replay -/

/-- The run numbered `n`. -/
def sampleRun (n : ℕ) : RunId := ⟨⟨BitVec.ofNat 128 n⟩⟩

variable (origin replay : RunId)

/-- Two runs of one principal are on record: an origin with the given signature, and a
replay of it. -/
def replayLookup (hash : Bytes) : Lookup := fun _ r =>
  if r = origin then some ⟨origin, ⟨⟨7⟩⟩, hash⟩
  else if r = replay then some ⟨replay, ⟨⟨7⟩⟩, replicate 40 1⟩
  else none

theorem replayLookup_honest (hash : Bytes) : (replayLookup origin replay hash).Honest := by
  intro project run found h
  unfold replayLookup at h
  split_ifs at h with horigin hreplay
  · rw [← some.inj h, horigin]
  · rw [← some.inj h, hreplay]

theorem replayLookup_origin (hash : Bytes) :
    replayLookup origin replay hash project origin = some ⟨origin, ⟨⟨7⟩⟩, hash⟩ :=
  if_pos rfl

/-- The provenance of a memory distilled from `n` runs. -/
def distilledFrom (n : ℕ) : Provenance :=
  { cls := .distiller, traceIds := (range n).map sampleRun }

theorem sampleRun_inj {m n : ℕ} (hm : m < 2 ^ 128) (hn : n < 2 ^ 128)
    (h : sampleRun m = sampleRun n) : m = n := by
  have hint : BitVec.ofNat 128 m = BitVec.ofNat 128 n := congrArg (fun r => r.value.int) h
  have hnat := congrArg BitVec.toNat hint
  rwa [BitVec.toNat_ofNat, BitVec.toNat_ofNat, Nat.mod_eq_of_lt hm, Nat.mod_eq_of_lt hn] at hnat

/-- The origins of a memory distilled from `n` runs are those runs. -/
theorem originRuns_distilledFrom {n : ℕ} (hn : n ≤ 2 ^ 128) :
    originRuns (distilledFrom n) = (range n).map sampleRun := by
  have hnodup : ((range n).map sampleRun).Nodup := by
    refine List.Nodup.map_on (fun a ha b hb hab => ?_) nodup_range
    rw [mem_range] at ha hb
    exact sampleRun_inj (by omega) (by omega) hab
  change ((range n).map sampleRun ++ []).dedup = _
  rw [append_nil, hnodup.dedup]

/-- A distilled memory with one origin whose signature is well formed. -/
theorem promotionsSupported_iff_sample :
    PromotionsSupported ⟨⟨0⟩⟩ (replayLookup (sampleRun 0) (sampleRun 1)
      (replicate 40 1)) (distilledFrom 1) := by
  refine (promotionsSupported_iff _ _ _ (replayLookup_honest _ _ _)).mpr (.inr ?_)
  intro found hdropped
  refine absurd hdropped (not_droppedOrigin (by decide) ?_ found)
  intro o ho found' hfound
  obtain rfl : o = sampleRun 0 := by simpa [originRuns, distilledFrom] using ho
  rw [replayLookup_origin, some.injEq] at hfound
  rw [← hfound]
  rfl

/-- A replay of a dropped origin promotes a failure lesson although it is run under the
origin's own principal. -/
theorem promotion_by_replay_of_dropped {p : Provenance} {origin replay : RunId} {hash : Bytes}
    (hclass : p.cls ≠ .proposal) (hne : replay ≠ origin) (horigin : origin ∈ originRuns p)
    (hreplay : replay ∉ originRuns p)
    (hdropped : origin ∉ consideredOrigins p ∨ hash.length ≠ sigHashLen) :
    (∃ outcome write, evaluateOne ⟨⟨0⟩⟩ (replayLookup origin replay hash) 0 0 defaultLimitsConfig
        (failureLessonRow ⟨⟨0⟩⟩ p replay) = .ok (outcome, write) ∧ outcome.promoted = true) ∧
    ¬ Supported ⟨⟨0⟩⟩ (replayLookup origin replay hash) (failureLessonRow ⟨⟨0⟩⟩ p replay)
      defaultLimits := by
  have hlook : replayLookup origin replay hash ⟨⟨0⟩⟩ replay =
      some ⟨replay, ⟨⟨7⟩⟩, replicate 40 1⟩ := by
    rw [replayLookup, if_neg hne, if_pos rfl]
  have hrecorded : (replicate 40 1 : Bytes) ≠ absentSignature := by decide
  constructor
  · refine failureLesson_promoted (c := ⟨replay, ⟨⟨7⟩⟩, replicate 40 1⟩)
      (replayLookup_honest _ _ _) hclass ⟨⟨hreplay, hlook, rfl, hrecorded⟩, ?_⟩
    intro o ho found hfound hlen
    have hor : o ≠ replay := by
      rintro rfl
      exact hreplay (mem_sortedOrigins.mp (mem_of_mem_take ho))
    by_cases hoo : o = origin
    · subst hoo
      rw [replayLookup_origin, some.injEq] at hfound
      rw [← hfound] at hlen
      exact absurd hlen (hdropped.resolve_left (not_not.mpr ho))
    · rw [replayLookup, if_neg hoo, if_neg hor] at hfound
      cases hfound
  · intro h
    exact (h.unrelated (c := ⟨replay, ⟨⟨7⟩⟩, replicate 40 1⟩) hlook horigin
      (replayLookup_origin _ _ _ _)).1 rfl

theorem sampleRun_str {n : ℕ} (hn : n < 4096) :
    (sampleRun n).value.str = str "00000000-0000-0000-0000-000000000" ++ hexDigits 3 n := by
  have hlow : hexDigits 32 n = replicate 29 48 ++ hexDigits 3 n := by
    have hzero : n / 16 / 16 / 16 = 0 := by omega
    simp only [hexDigits, hzero]
    rfl
  rw [sampleRun, UUID.str, BitVec.toNat_ofNat, Nat.mod_eq_of_lt (by omega), hlow]
  rfl

theorem last_not_considered : sampleRun 256 ∉ consideredOrigins (distilledFrom 257) := by
  have hsorted : sortedOrigins (distilledFrom 257) = (range 257).map sampleRun := by
    rw [sortedOrigins, originRuns_distilledFrom (by omega)]
    have : IsTrans ℕ fun a b => strLe (hexDigits 3 a) (hexDigits 3 b) = true :=
      ⟨fun _ _ _ => strLe_trans⟩
    have hdigits : (range 257).Pairwise
        fun a b => strLe (hexDigits 3 a) (hexDigits 3 b) = true :=
      isChain_iff_pairwise.mp (by decide +kernel)
    have hpair : ((range 257).map sampleRun).Pairwise
        fun a b => strLe a.value.str b.value.str = true := by
      refine pairwise_map.mpr (hdigits.imp_of_mem fun {a b} ha hb hab => ?_)
      rw [mem_range] at ha hb
      rwa [sampleRun_str (by omega), sampleRun_str (by omega), strLe_append_left]
    exact hpair.insertionSort_eq
  rw [consideredOrigins, hsorted, ← map_take, take_range]
  intro h
  obtain ⟨n, hn, heq⟩ := mem_map.mp h
  rw [mem_range] at hn
  have hle : n < 256 := lt_of_lt_of_le hn (Nat.min_le_left _ _)
  have := sampleRun_inj (by omega) (by omega) heq
  omega

/-- **Promotion by a replay.** A failure lesson is promoted by a replay of its only
resolved origin, run under the origin's own principal: once because that origin is the
257th in the order of the ids, once because its stored signature has 39 bytes. -/
theorem promotion_by_replay :
    ((∃ outcome write,
      evaluateOne ⟨⟨0⟩⟩ (replayLookup (sampleRun 256) (sampleRun 1000) (replicate 40 1)) 0 0
        defaultLimitsConfig (failureLessonRow ⟨⟨0⟩⟩ (distilledFrom 257) (sampleRun 1000)) =
        .ok (outcome, write) ∧ outcome.promoted = true) ∧
    ¬ Supported ⟨⟨0⟩⟩ (replayLookup (sampleRun 256) (sampleRun 1000) (replicate 40 1))
      (failureLessonRow ⟨⟨0⟩⟩ (distilledFrom 257) (sampleRun 1000)) defaultLimits) ∧
    (∃ outcome write,
      evaluateOne ⟨⟨0⟩⟩ (replayLookup (sampleRun 0) (sampleRun 1) (replicate 39 1)) 0 0
        defaultLimitsConfig (failureLessonRow ⟨⟨0⟩⟩ (distilledFrom 1) (sampleRun 1)) =
        .ok (outcome, write) ∧ outcome.promoted = true) ∧
    ¬ Supported ⟨⟨0⟩⟩ (replayLookup (sampleRun 0) (sampleRun 1) (replicate 39 1))
      (failureLessonRow ⟨⟨0⟩⟩ (distilledFrom 1) (sampleRun 1)) defaultLimits := by
  have horigins : originRuns (distilledFrom 257) = (range 257).map sampleRun :=
    originRuns_distilledFrom (by omega)
  have hlast : sampleRun 256 ∈ originRuns (distilledFrom 257) := by
    rw [horigins]
    exact mem_map_of_mem (mem_range.mpr (by omega))
  have hreplay : sampleRun 1000 ∉ originRuns (distilledFrom 257) := by
    rw [horigins]
    intro h
    obtain ⟨n, hn, heq⟩ := mem_map.mp h
    have := sampleRun_inj (by rw [mem_range] at hn; omega) (by omega) heq
    rw [mem_range] at hn
    omega
  exact ⟨promotion_by_replay_of_dropped (by decide) (by decide) hlast hreplay
      (.inl last_not_considered),
    promotion_by_replay_of_dropped (by decide) (by decide) (by decide) (by decide)
      (.inr (by decide))⟩

end Tracebed
