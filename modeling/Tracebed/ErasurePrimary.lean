import Tracebed.ErasureLease

/-!
# Erasing the Primary Store

The crypto step, which destroys the keys of the scope, and the purge of the business tables:
`primaryRemaining` counts the rows of the scope that are left, and `primaryBatch` deletes a
bounded number of rows of every table. The count and the purge are written with separate
predicates, one per table. Both routines hold the project lock exclusively.
-/

open Py Fallible Table

namespace Tracebed.Erasure

variable (C : Cluster) (q : RequestRow) (limit : ℕ) (db : Database) (row : PrimaryRow)

/-! ### The crypto step -/

/-- `project_id = ...` and the key is in the scope of the request. -/
def keyInScope (k : SubjectKeyRow) : Bool :=
  k.projectId = q.projectId && k.state.isLive &&
    match q.scope with
    | .subject digest => k.subjectDigest = digest
    | .project => true

/-- A row of `tracebed_erasure_crypto_step`. -/
structure CryptoOutcome where
  phase : Phase
  affectedRows : ℕ
  closureRevision : ℕ
  resultCode : ResultCode
  deriving DecidableEq

/-- The keys of the scope destroyed, and a project in scope on its way out. -/
def destroyKeys (now : ℕ) (db : Database) : Database :=
  { db with
    subjectKeys := updateWhere (keyInScope q)
      (fun k => { k with state := .destroyed now }) db.subjectKeys
    projects := if q.scope = .project then updateWhere
        (fun p => p.projectId = q.projectId && p.status = .active)
        (fun p => { p with status := .deleting }) db.projects
      else db.projects }

/-- `tracebed_erasure_crypto_step`. -/
def cryptoStep (c : Credential) (now : ℕ) (db : Database) :
    Except SqlState (CryptoOutcome × Database) := do
  let q ← assertLease c now db
  if q.phase = .cryptoErased || q.phase = .primaryPurged || q.phase = .externalPurged then
    return (⟨q.phase, 0, q.closureRevision, .alreadyAbsent⟩, db)
  ensure (q.phase = .fenced) .P0013
  let changed := db.subjectKeys.countP (keyInScope q)
  let db := (destroyKeys q now db).updateRequest q.projectId q.requestId fun q =>
    { q with phase := .cryptoErased }
  let digest := C.sha256 (ascii "tracebed.erasure-crypto/v1" ++ q.projectId.bytes ++
    q.requestId.bytes ++ toBytesBE 8 q.closureRevision ++ toBytesBE 8 changed)
  let (_, db) ← appendReceipt C q.projectId q.requestId c.generation now
    ⟨.crypto, .succeeded, if changed = 0 then .alreadyAbsent else .ok, changed,
      q.closureRevision, digest⟩ db
  return (⟨.cryptoErased, changed, q.closureRevision, .ok⟩, db)

/-! ### What is left to purge -/

namespace PrimaryTable

/-- All business tables, in the order of the purge. -/
def all : List PrimaryTable :=
  [workQueue, deadLetter, traceLearningJob, outcomeEvent, injectionLog, retrievalEvent,
    blackboardEntry, traceIndex, runOwner, memoryStatusLog, memoryQUpdate, reviewQueue,
    memoryLink, runMemoryBinding, memoryItem, traceSubject, derivedState, invalidationEvent,
    killswitchState, projectConfig, agentTypeConfig]

/-- The tables partitioned by project, whose leaves a project purge drops. -/
def isPartitioned : PrimaryTable → Bool
  | workQueue | deadLetter | killswitchState | projectConfig | agentTypeConfig => false
  | _ => true

end PrimaryTable

/-- The target digest of the request is among the row's. -/
def digestMatches : Bool :=
  match q.scope with
  | .subject digest => digest ∈ row.subjectDigests
  | .project => false

/-- The row's run is captured by the request. -/
def runCaptured (q : RequestRow) (row : PrimaryRow) : Bool :=
  row.runId.any (· ∈ db.capturedRuns q.projectId q.requestId)

/-- One of the row's memories is captured by the request. -/
def memoryCaptured (q : RequestRow) (row : PrimaryRow) : Bool :=
  row.memoryIds.any (· ∈ db.capturedMemories q.projectId q.requestId)

/-- The rows of a table that `tracebed_erasure_primary_remaining` counts, beside the project
of the row. -/
def isRequired (q : RequestRow) (row : PrimaryRow) : PrimaryTable → Bool
  | .workQueue | .deadLetter | .traceLearningJob | .outcomeEvent | .injectionLog
  | .retrievalEvent | .blackboardEntry | .traceIndex | .runOwner | .traceSubject =>
    q.scope = .project || digestMatches q row || runCaptured db q row
  | .memoryStatusLog | .memoryQUpdate | .reviewQueue | .memoryLink | .memoryItem =>
    q.scope = .project || digestMatches q row || memoryCaptured db q row
  | .runMemoryBinding => q.scope = .project || runCaptured db q row || memoryCaptured db q row
  | .derivedState | .invalidationEvent => true
  | .killswitchState => q.scope = .project || row.evidence
  | .projectConfig | .agentTypeConfig => q.scope = .project

/-- One entry of the count vector of `tracebed_erasure_primary_remaining`. -/
def requiredRows (q : RequestRow) (t : PrimaryTable) : ℕ :=
  (db.primary t).countP fun row => row.projectId = q.projectId && isRequired db q row t

/-- `tracebed_erasure_primary_remaining`. -/
def primaryRemaining (project request : UUID) : ℕ :=
  match db.request? project request with
  | some q => (PrimaryTable.all.map (requiredRows db q)).sum
  | none => ([PrimaryTable.derivedState, .invalidationEvent].map fun t =>
    (db.primary t).countP (·.projectId = project)).sum

/-! ### The purge -/

/-- The rows of a table that a batch deletes, beside the project of the row. A subject request
deletes no row of the last three tables. -/
def isPurged (q : RequestRow) (row : PrimaryRow) : PrimaryTable → Bool
  | .workQueue | .deadLetter | .traceLearningJob | .outcomeEvent | .injectionLog
  | .retrievalEvent | .blackboardEntry | .traceIndex | .runOwner | .traceSubject =>
    q.scope = .project || digestMatches q row || runCaptured db q row
  | .memoryStatusLog | .memoryQUpdate | .reviewQueue | .memoryLink | .memoryItem =>
    q.scope = .project || digestMatches q row || memoryCaptured db q row
  | .runMemoryBinding => q.scope = .project || runCaptured db q row || memoryCaptured db q row
  | .derivedState | .invalidationEvent => true
  | .killswitchState | .projectConfig | .agentTypeConfig => q.scope = .project

variable (project : UUID)

/-- `SELECT ctid ... WHERE project_id = ... AND p ORDER BY ctid LIMIT limit`. -/
def selectCtids (p : PrimaryRow → Bool) (limit : ℕ) (rows : List PrimaryRow) : List ℕ :=
  (((rows.filter fun row => row.projectId = project && p row).map (·.ctid)).insertionSort
    (· ≤ ·)).take limit

/-- A row of the project at one of the selected places. -/
def isAt (ctids : List ℕ) (row : PrimaryRow) : Bool :=
  row.projectId = project && row.ctid ∈ ctids

/-- The business tables of a database with one of them replaced. -/
def Database.setPrimary (t : PrimaryTable) (rows : List PrimaryRow) : Database :=
  { db with primary := fun u => if u = t then rows else db.primary u }

/-- The bounded `DELETE` of one table, with its `ROW_COUNT`. -/
def purgeTable (t : PrimaryTable) : ℕ × Database :=
  let ctids := selectCtids q.projectId (isPurged db q · t) limit (db.primary t)
  ((db.primary t).countP (isAt q.projectId ctids),
    db.setPrimary t ((db.primary t).filter fun row => !isAt q.projectId ctids row))

/-- The bounded `UPDATE killswitch_state SET evidence = NULL`, with its `ROW_COUNT`. -/
def purgeEvidence : ℕ × Database :=
  let rows := db.primary .killswitchState
  let ctids := selectCtids q.projectId (·.evidence) limit rows
  (rows.countP (isAt q.projectId ctids), db.setPrimary .killswitchState
    (updateWhere (isAt q.projectId ctids) (fun row => { row with evidence := false }) rows))

/-- The tables deleted from before the evidence of the kill switch is cleared. -/
def attributedTables : List PrimaryTable :=
  [.workQueue, .deadLetter, .traceLearningJob, .outcomeEvent, .injectionLog, .retrievalEvent,
    .blackboardEntry, .traceIndex, .runOwner, .memoryStatusLog, .memoryQUpdate, .reviewQueue,
    .memoryLink, .runMemoryBinding, .memoryItem, .traceSubject, .derivedState,
    .invalidationEvent]

/-- The tables a project request deletes from after that. -/
def projectTables : List PrimaryTable := [.projectConfig, .agentTypeConfig, .killswitchState]

/-- Deletes from tables one after the other, adding up the row counts. -/
def purgeTables (tables : List PrimaryTable) (start : ℕ × Database) : ℕ × Database :=
  tables.foldl (fun acc t =>
    let (count, db) := purgeTable q limit acc.2 t
    (acc.1 + count, db)) start

/-- The deletes and updates of one batch. -/
def purgeBatch : ℕ × Database :=
  let (attributed, db) := purgeTables q limit attributedTables (0, db)
  let (evidence, db) := purgeEvidence q limit db
  if q.scope = .project then purgeTables q limit projectTables (attributed + evidence, db)
  else (attributed + evidence, db)

/-- The rows of a project in partitioned tables gone with its leaves. -/
def dropLeaves (db : Database) : Database :=
  { db with
    attached := db.attached.filter (· ≠ project)
    subjectFences := db.subjectFences.filter (·.projectId ≠ project)
    runFences := db.runFences.filter (·.projectId ≠ project)
    runSet := db.runSet.filter (·.projectId ≠ project)
    memSet := db.memSet.filter (·.projectId ≠ project)
    primary := fun t =>
      if t.isPartitioned then (db.primary t).filter (·.projectId ≠ project) else db.primary t }

/-- `tracebed_erasure_drop_project_partitions`, called by a batch that already holds its
lease. Missing leaves are accepted once a purge has dropped them. -/
def dropProjectPartitions : Except SqlState Database := do
  ensure (q.scope = .project &&
    (q.phase = .cryptoErased || q.phase = .primaryPurged || q.phase = .externalPurged)) .P0013
  if q.projectId ∈ db.attached then
    return dropLeaves q.projectId db
  else
    ensure (q.phase = .primaryPurged || q.phase = .externalPurged) .P0013
    return db

/-- A row of `tracebed_erasure_primary_batch`. -/
structure BatchOutcome where
  affectedRows : ℕ
  remaining : ℕ
  closureRevision : ℕ
  postconditionDigest : Digest
  deriving DecidableEq

/-- The primary store of a request was already proved empty at a revision. -/
def hasPrimaryReceipt (q : RequestRow) : Bool :=
  db.receipts.any fun r => r.projectId = q.projectId && r.requestId = q.requestId &&
    r.stepCode = .postgres && r.result = .succeeded && r.workRevision = q.closureRevision

/-- The end of a batch that left nothing: the phase advances and a receipt is appended, once
per revision. -/
def closePrimary (generation now changed : ℕ) (digest : Digest) (db : Database) :
    Except SqlState Database := do
  let db := if q.phase = .cryptoErased then
      db.updateRequest q.projectId q.requestId fun q => { q with phase := .primaryPurged }
    else db
  let (_, db) ← appendReceipt C q.projectId q.requestId generation now
    ⟨.postgres, .succeeded, .ok, changed, q.closureRevision, digest⟩ db
  return db

/-- A project purge that left nothing drops the leaves of the project. -/
def dropIfEmpty : Except SqlState Database :=
  if primaryRemaining db q.projectId q.requestId = 0 ∧ q.scope = .project then
    dropProjectPartitions q db
  else .ok db

/-- A purge that left nothing is closed once per revision. -/
def closeIfEmpty (generation now changed left : ℕ) (digest : Digest) (db : Database) :
    Except SqlState Database :=
  if left = 0 ∧ hasPrimaryReceipt db q = false then
    closePrimary C q generation now changed digest db
  else .ok db

/-- `tracebed_erasure_primary_batch`. -/
def primaryBatch (c : Credential) (limit now : ℕ) (db : Database) :
    Except SqlState (BatchOutcome × Database) := do
  let q ← assertLease c now db
  ensure ((1 ≤ limit && limit ≤ 10000) &&
    (q.phase = .cryptoErased || q.phase = .primaryPurged || q.phase = .externalPurged)) .P0013
  let purged := purgeBatch q limit db
  let db ← dropIfEmpty q purged.2
  let left := primaryRemaining db q.projectId q.requestId
  let digest := C.sha256 (ascii "tracebed.erasure-primary/v1" ++ q.projectId.bytes ++
    q.requestId.bytes ++ toBytesBE 8 q.closureRevision ++ q.closureDigest ++ toBytesBE 8 left)
  let db ← closeIfEmpty C q c.generation now purged.1 left digest db
  return (⟨purged.1, left, q.closureRevision, digest⟩, db)

end Tracebed.Erasure
