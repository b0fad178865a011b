import Tracebed.Lib.Table
import Tracebed.MemoryItem

/-!
# The Workers of the Memory Lifecycle

`workers/sweeps.py`, `workers/revalidation.py`, `workers/invalidator.py` and the containment of
`workers/forensics.py`, over the rows of `memory_item`. A worker reads rows, decides for each row
what to write, and writes it in a transaction of its own: here the decision about a row is a
function of the row, and `forEach` is the loop around it. Instants are microseconds, and
`q_value`, `q_start`, the floor and the percentage are exact rationals.
-/

open Py Fallible Table

namespace Tracebed

/-! ### The rows and their store -/

/-- `LifecycleMemoryRow`. -/
structure LifecycleMemoryRow where
  id : MemoryId
  projectId : ProjectId
  status : Status
  trustTier : TrustTier
  memType : MemType
  provenance : ProvenanceRecord
  statusChangedAt : Option ℤ
  strikeCount : ℤ
  lastRetrievedAt : Option ℤ
  createdAt : ℤ
  qValue : ℚ

namespace LifecycleMemoryRow

variable (row : LifecycleMemoryRow)

def key : ProjectId × MemoryId := (row.projectId, row.id)

/-- Since when the row is idle. -/
def reference : ℤ := row.lastRetrievedAt.getD row.createdAt

/-- What every worker knows of a row when it asks the state machine. -/
def evidence (now : ℤ) : TransitionEvidence where
  now := now
  provenanceClass := row.provenance.cls
  trustTier := row.trustTier
  memType := row.memType
  statusChangedAt := row.statusChangedAt

end LifecycleMemoryRow

/-- `LifecycleTransitionWrite`. -/
structure LifecycleTransitionWrite where
  memoryId : MemoryId
  fromStatus : Status
  toStatus : Status
  now : ℤ
  strikeCount : Option ℤ := none
  qValue : Option ℚ := none

/-- The row a write leaves: an absent value leaves its column alone. -/
def LifecycleTransitionWrite.applyTo (w : LifecycleTransitionWrite) (row : LifecycleMemoryRow) :
    LifecycleMemoryRow :=
  { row with
    status := w.toStatus
    statusChangedAt := if w.fromStatus = w.toStatus then row.statusChangedAt else some w.now
    strikeCount := w.strikeCount.getD row.strikeCount
    qValue := w.qValue.getD row.qValue }

/-- What the workers raise. -/
inductive LifecycleError
  | transition (e : ApplyError)
  | configError (message : String)
  | tracebedError (message : String)
  | staleStatusTransition (memory : MemoryId) (expectedFrom target : Status)
  | notFound

/-- `memory_item`, with the memories no erasure has fenced. -/
structure Vault where
  rows : List LifecycleMemoryRow
  visible : ProjectId → MemoryId → Bool
  keyed : Table.Keyed LifecycleMemoryRow.key rows

variable (project : ProjectId) (v : Vault)

namespace Vault

/-- The row of a memory that a write expects, in its project and on its status. -/
def expects (memory : MemoryId) (status : Status) (row : LifecycleMemoryRow) : Bool :=
  row.projectId = project && row.id = memory && row.status = status

/-- The rows of a statement, in the order of their ids. -/
def select (p : LifecycleMemoryRow → Bool) : List LifecycleMemoryRow :=
  (v.rows.filter fun row => v.visible row.projectId row.id && p row).insertionSort
    fun a b => a.id.value.int ≤ b.id.value.int

/-- `select_by_status`, with its default limit. -/
def selectByStatus (project : ProjectId) (statuses : List Status) : List LifecycleMemoryRow :=
  (v.select fun row => row.projectId = project && row.status ∈ statuses).take 10000

/-- `select_due_for_revalidation`, with its default limit. -/
def selectDue (project : ProjectId) (olderThan : ℤ) : List LifecycleMemoryRow :=
  (v.select fun row => row.projectId = project && row.status = .validated &&
    row.reference ≤ olderThan).take 10000

/-- An update of the rows that leaves their keys. -/
def update (p : LifecycleMemoryRow → Bool) (f : LifecycleMemoryRow → LifecycleMemoryRow)
    (hf : ∀ row, (f row).key = row.key) : Vault where
  rows := updateWhere p f v.rows
  visible := v.visible
  keyed := v.keyed.updateWhere hf

/-- `MemoryLifecycleRepo.persist`. -/
def persist (w : LifecycleTransitionWrite) (v : Vault) : Except LifecycleError Vault :=
  let selected row := expects project w.memoryId w.fromStatus row && v.visible project w.memoryId
  if v.rows.any selected then .ok (v.update selected w.applyTo fun _ => rfl)
  else .error (.staleStatusTransition w.memoryId w.fromStatus w.toStatus)

/-- `LifecycleWriter.persist_status`: it knows no strikes. -/
def persistStatus (memory : MemoryId) (current target : Status) (now : ℤ) (v : Vault) :
    Except LifecycleError Vault :=
  if (transitions (some current) target).isNone then
    .error (.transition (.illegalTransition (some current) target))
  else if v.rows.any (expects project memory current) then
    .ok (v.update (expects project memory current)
      (fun row => { row with status := target, statusChangedAt := some now }) fun _ => rfl)
  else .error (.staleStatusTransition memory current target)

/-- `Repo.get_memory_by_id`. -/
def getMemoryById (project : ProjectId) (memory : MemoryId) : Option LifecycleMemoryRow :=
  v.rows.find? fun row => row.projectId = project && row.id = memory && v.visible project memory

end Vault

/-- The sections of the config the workers read. -/
structure LifecycleSettings where
  limits : LimitsConfig
  archiveFloor : ℚ
  qStart : ℚ
  decayPctPerIdleWeek : ℚ
  revalidationAgeDays : ℤ
  floor_exact : limits.lifecycleArchiveFloor = .fin archiveFloor

variable (project : ProjectId) (limits : TransitionLimits) (now : ℤ) (cfg : LifecycleSettings)

/-- `TransitionLimits.from_config`, raising its `ConfigError`. -/
def LifecycleSettings.transitionLimits : Except LifecycleError TransitionLimits :=
  (TransitionLimits.fromConfig cfg.limits).mapError .configError

variable (row : LifecycleMemoryRow)

/-- `apply`, raising what it raises. -/
def LifecycleMemoryRow.transition (target : Status) (e : TransitionEvidence)
    (limits : TransitionLimits) : Except LifecycleError Status :=
  (apply (some row.status) target e limits).mapError .transition

/-- `_require_returned_row` and `_require_row`: what the statement promised of a row. -/
def requireReturnedRow (expected : Status) (row : LifecycleMemoryRow) :
    Except LifecycleError Unit :=
  ensure (row.projectId = project && row.status = expected)
    (.tracebedError "the select returned a row outside its project or status")

/-- The loop of a worker: each row is decided on, and the decision is written before the next. -/
def forEach (decide : LifecycleMemoryRow → Except LifecycleError (Option LifecycleTransitionWrite))
    (rows : List LifecycleMemoryRow) (v : Vault) : Except LifecycleError Vault :=
  rows.foldlM (fun v row => do
    match ← decide row with
    | none => pure v
    | some w => v.persist project w) v

/-! ### Sweeps -/

/-- What `_sweep_ttl` does with a row; a guard that refuses means that the row is not due. -/
def ttlRow (project : ProjectId) (source target : Status) (limits : TransitionLimits) (now : ℤ)
    (row : LifecycleMemoryRow) : Except LifecycleError (Option LifecycleTransitionWrite) := do
  requireReturnedRow project source row
  if row.statusChangedAt.isNone then .ok none
  else
    match apply (some row.status) target (row.evidence now) limits with
    | .ok status => .ok (some ⟨row.id, row.status, status, now, none, none⟩)
    | .error (.guardNotSatisfied ..) => .ok none
    | .error e => .error (.transition e)

/-- `_sweep_ttl`. -/
def sweepTtl (source target : Status) (project : ProjectId) (now : ℤ) (cfg : LifecycleSettings)
    (v : Vault) : Except LifecycleError Vault := do
  let limits ← cfg.transitionLimits
  forEach project (ttlRow project source target limits now) (v.selectByStatus project [source]) v

/-- `quarantine_ttl_sweep`. -/
def quarantineTtlSweep := sweepTtl .quarantined .archived

/-- `candidate_ttl_sweep`. -/
def candidateTtlSweep := sweepTtl .candidate .archived

/-- `_idle_weeks`. -/
def idleWeeks (reference now : ℤ) : ℕ :=
  if now ≤ reference then 0 else ((now - reference) / 86400000000 / 7).toNat

/-- `_decayed_q_value`. -/
def decayedQValue (qStart floor pctPerWeek : ℚ) (weeks : ℕ) : ℚ :=
  let pct := min 100 (max 0 pctPerWeek)
  if weeks = 0 then qStart
  else max floor (floor + (qStart - floor) * (1 - pct / 100) ^ weeks)

/-- What `decay_sweep` does with a row. -/
def decayRow (limits : TransitionLimits) (now : ℤ) (row : LifecycleMemoryRow) :
    Except LifecycleError (Option LifecycleTransitionWrite) := do
  requireReturnedRow project .validated row
  let weeks := idleWeeks row.reference now
  let newQ := decayedQValue cfg.qStart cfg.archiveFloor cfg.decayPctPerIdleWeek weeks
  if weeks = 0 then .ok none
  else if cfg.archiveFloor < newQ then
    if row.qValue ≤ newQ then .ok none
    else .ok (some ⟨row.id, row.status, row.status, now, none, some newQ⟩)
  else
    let status ← row.transition .archived { row.evidence now with decayFloorReached := true } limits
    .ok (some ⟨row.id, row.status, status, now, none, some cfg.archiveFloor⟩)

/-- `decay_sweep`. -/
def decaySweep (v : Vault) : Except LifecycleError Vault := do
  let limits ← cfg.transitionLimits
  forEach project (decayRow project cfg limits now) (v.selectByStatus project [.validated]) v

/-! ### Revalidation -/

/-- `is_due_for_revalidation` of a stale row. -/
def isDueAgain : Bool :=
  row.statusChangedAt.all (· < now)

/-- `check_validated`: what it writes. -/
def checkValidated (verified : Bool) (now : ℤ) (row : LifecycleMemoryRow) :
    Except LifecycleError (Option LifecycleTransitionWrite) := do
  requireReturnedRow project .validated row
  if verified then .ok (some ⟨row.id, .validated, .validated, now, none, none⟩)
  else
    let limits ← cfg.transitionLimits
    let status ← row.transition .stale { row.evidence now with revalidationFailed := true } limits
    .ok (some ⟨row.id, row.status, status, now, some 1, none⟩)

/-- `check_stale`: what it writes. -/
def checkStale (verified : Bool) (now : ℤ) (row : LifecycleMemoryRow) :
    Except LifecycleError (Option LifecycleTransitionWrite) := do
  requireReturnedRow project .stale row
  let limits ← cfg.transitionLimits
  if verified then
    let status ← row.transition .validated { row.evidence now with reverified := true } limits
    .ok (some ⟨row.id, row.status, status, now, some 0, none⟩)
  else
    let strike := row.strikeCount + 1
    let status ← row.transition .retired { row.evidence now with strikeCount := strike } limits
    .ok (some ⟨row.id, row.status, status, now, some strike, none⟩)

/-- `RevalidationWorker.run_once`, with what the verifier answers about each row and the instant
at which each row is checked. -/
def RevalidationWorker.runOnce (verifier : LifecycleMemoryRow → Bool)
    (clock : LifecycleMemoryRow → ℤ) (cfg : LifecycleSettings) (v : Vault) :
    Except LifecycleError Vault := do
  let due := v.selectDue project (now - cfg.revalidationAgeDays * 86400000000)
  let stale := (v.selectByStatus project [.stale]).filter (isDueAgain now)
  let checked ← forEach project
    (fun row => checkValidated project cfg (verifier row) (clock row) row) due v
  -- A row struck in the first loop is not struck again in the second.
  forEach project (fun row => checkStale project cfg (verifier row) (clock row) row)
    (stale.filter fun row => !due.any fun struck => struck.id = row.id && !verifier struck) checked

/-! ### Invalidation and containment -/

/-- `InvalidationSelector`. -/
structure InvalidationSelector where
  toolRefs : List PyStr
  traceIds : List RunId
  inputSigHashes : List Bytes

/-- `InvalidationSelector.is_empty`. -/
def InvalidationSelector.isEmpty (s : InvalidationSelector) : Bool :=
  s.toolRefs.isEmpty && s.traceIds.isEmpty && s.inputSigHashes.isEmpty

/-- `selector_matches`, which is the union `select_by_provenance` asks for. -/
def selectorMatches (p : ProvenanceRecord) (s : InvalidationSelector) : Bool :=
  s.toolRefs.any (· ∈ p.toolRefs) || s.traceIds.any (· ∈ p.traceIds) ||
    s.inputSigHashes.any (· ∈ p.inputSigHashes)

/-- What `process_event` does with a dependent row. -/
def invalidateRow : Except LifecycleError (Option LifecycleTransitionWrite) :=
  if row.status ≠ .validated then .ok none
  else do
    let status ← row.transition .stale { row.evidence now with invalidationEvent := true } limits
    .ok (some ⟨row.id, row.status, status, now, some 1, none⟩)

/-- `Invalidator.process_event`. -/
def processEvent (eventType : String) (selector : InvalidationSelector) (now : ℤ)
    (cfg : LifecycleSettings) (v : Vault) : Except LifecycleError Vault :=
  let candidates := v.select fun row =>
    row.projectId = project && selectorMatches row.provenance selector
  if eventType = "cache_flush" || selector.isEmpty then .ok v
  else do
    ensure (candidates.all fun row =>
      row.projectId = project && selectorMatches row.provenance selector)
      (.tracebedError "select_by_provenance returned a row that is no dependent")
    let limits ← cfg.transitionLimits
    forEach project (invalidateRow limits now) candidates v

/-- Where `Forensics._contain` moves a row, and on what evidence. -/
def containment (now : ℤ) : Option (Status × TransitionEvidence) :=
  match row.status with
  | .candidate =>
    some (.quarantined, { row.evidence now with contradictionWeakerProvenance := true })
  | .validated => some (.stale, { row.evidence now with invalidationEvent := true })
  | .pinned => some (.tombstoned, { row.evidence now with erasureOrApprovedDelete := true })
  | _ => none

/-- `Forensics.recall_and_rollback`, as far as it changes memories. -/
def recallAndRollback (memory : MemoryId) (now : ℤ) (cfg : LifecycleSettings) (v : Vault) :
    Except LifecycleError Vault := do
  let limits ← cfg.transitionLimits
  let row ← orThrow (v.getMemoryById project memory) .notFound
  match containment row now with
  | none => .ok v
  | some (target, e) =>
    let status ← row.transition target e limits
    v.persistStatus project row.id row.status status now

end Tracebed
