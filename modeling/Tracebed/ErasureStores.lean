import Tracebed.ErasurePrimary

/-!
# Erasing the External Stores

The external half of the saga. Sealing the trace manifest and preparing the primary pass
materialise the work of every store of the manifest at the current closure revision; workers
claim and mark that work, close each store with a checkpoint, and the last routine completes
the request. Every routine here holds the project lock exclusively, then the request row.
-/

open Py Fallible Table

namespace Tracebed.Erasure

variable (C : Cluster) (c : Credential) (q : RequestRow) (code : StoreCode)

/-! ### The trace manifest -/

/-- The distinct payload references of the captured runs. -/
def traceRefs (db : Database) (project request : UUID) : List (UUID × PyStr) :=
  ((db.primary .traceIndex).flatMap fun row =>
    match row.runId with
    | some run =>
      if row.projectId = project ∧ run ∈ db.capturedRuns project request then
        row.payloadRefs.map (run, ·)
      else []
    | none => []).dedup

/-- The order of the pages of references: by run, then by the collation. -/
def refLe (a b : UUID × PyStr) : Prop :=
  a.1.int.toNat < b.1.int.toNat ∨ a.1 = b.1 ∧ C.collate a.2 b.2 = true

instance : DecidableRel (refLe C) := fun a b =>
  inferInstanceAs (Decidable (a.1.int.toNat < b.1.int.toNat ∨
    a.1 = b.1 ∧ C.collate a.2 b.2 = true))

/-- `tracebed_erasure_trace_refs_batch`: the references after a given one, a page of them. -/
def traceRefsBatch (revision : ℕ) (after : Option (UUID × PyStr)) (limit now : ℕ) (db : Database) :
    Except SqlState (List (UUID × PyStr)) := do
  let q ← assertLease c now db
  ensure ((1 ≤ limit && limit ≤ 10000) && revision = q.closureRevision &&
    (q.phase = .cryptoErased || q.phase = .primaryPurged || q.phase = .externalPurged)) .P0014
  let refs := (traceRefs db q.projectId q.requestId).insertionSort (refLe C)
  return (refs.filter fun r => after.all fun a => ¬ refLe C r a).take limit

def refFrame (project : UUID) (r : UUID × PyStr) : Bytes :=
  project.bytes ++ r.1.bytes ++ toBytesBE 8 (utf8 r.2).length ++ utf8 r.2

/-- `tracebed_erasure_trace_manifest_digest_for_request`. -/
def traceManifestDigest (db : Database) (project request : UUID) : ℕ × Digest :=
  let refs := traceRefs db project request
  (refs.length, C.sha256 (ascii "tracebed.erasure-trace-manifest/v1" ++ 0x00 ::
    ((refs.map (refFrame project)).insertionSort byteaLe).flatMap frame))

/-! ### Materialising the work -/

/-- The work of a store is left over from an earlier revision. -/
def isStale (w : WorkRow) : Bool :=
  w.projectId = q.projectId && w.requestId = q.requestId && w.storeCode = code &&
    w.discoveredRevision < q.closureRevision

/-- Left-over work starts again. -/
def restartWork (w : WorkRow) : WorkRow :=
  { w with discoveredRevision := q.closureRevision, state := .pending }

/-- The work of a target that has none. -/
def newWork (target : Target) : WorkRow :=
  ⟨q.projectId, q.requestId, code, target, q.closureRevision, .pending, 0⟩

/-- The work of a store brought to the current revision: older work starts again, and every
target has some. -/
def materializeWork (targets : List Target) (work : List WorkRow) : List WorkRow :=
  insertAll WorkRow.key (targets.map (newWork q code))
    (updateWhere (isStale q code) (restartWork q) work)

/-- A checkpoint prepared at an earlier revision moves to the current one and loses its
proof. -/
def renewCheckpoint (targetCount : ℕ) (digest : Digest) (old : CheckpointRow) : CheckpointRow :=
  if old.preparedRevision < q.closureRevision then
    { old with preparedRevision := q.closureRevision, targetCount := targetCount,
               targetManifestDigest := digest, proof := none }
  else old

/-- The checkpoint of a store prepared at the current revision. -/
def prepareCheckpoint (targetCount : ℕ) (digest : Digest) (checkpoints : List CheckpointRow) :
    List CheckpointRow :=
  upsert CheckpointRow.key
    ⟨q.projectId, q.requestId, code, q.closureRevision, targetCount, digest, none⟩
    (renewCheckpoint q targetCount digest) checkpoints

/-- What has to be deleted from the trace store. -/
def traceTargets (runs : List UUID) : List Target :=
  match q.scope with
  | .subject _ => runs.map .run
  | .project => [.project]

def currentWork (work : List WorkRow) : List WorkRow :=
  work.filter fun w => w.projectId = q.projectId ∧ w.requestId = q.requestId ∧
    w.storeCode = code ∧ w.discoveredRevision = q.closureRevision

/-- The work and the checkpoint of the trace store at the current revision. -/
def materializeTrace (digest : Digest) (db : Database) : Database :=
  let targets := traceTargets q (db.capturedRuns q.projectId q.requestId)
  let work := materializeWork q code targets db.work
  { db with
    work := work
    checkpoints :=
      prepareCheckpoint q code (currentWork q code work).length digest db.checkpoints }

/-- `tracebed_erasure_seal_trace_manifest`. -/
def sealTraceManifest (revision count : ℕ) (digest : Digest) (now : ℕ) (db : Database) :
    Except SqlState (Unit × Database) := do
  let q ← assertLease c now db
  ensure ((q.phase = .cryptoErased || q.phase = .primaryPurged || q.phase = .externalPurged) &&
    revision = q.closureRevision && digest.length = 32) .P0014
  let actual := traceManifestDigest C db q.projectId q.requestId
  ensure (actual.1 = count && actual.2 = digest) .P0012
  match q.storeManifest.find? (·.isTrace) with
  | some code => return ((), materializeTrace q code actual.2 db)
  | none => throw .P0010

def storeTargetDigest : Digest :=
  C.sha256 (ascii "tracebed.erasure-store-target/v1" ++ utf8 code.text)

/-- The work and the checkpoint of a store other than the trace store. -/
def materializeStore (db : Database) (code : StoreCode) : Database :=
  if code.isTrace then db
  else
    { db with
      work := materializeWork q code [.project] db.work
      checkpoints := prepareCheckpoint q code 1 (storeTargetDigest C code) db.checkpoints }

/-- The trace manifest of a request is sealed at the current revision. -/
def isSealed (db : Database) : Bool :=
  db.checkpoints.any fun k => k.projectId = q.projectId && k.requestId = q.requestId &&
    k.storeCode.isTrace && k.preparedRevision = q.closureRevision

/-- The external work of a request at the current revision that is not verified. -/
def pendingExternal (db : Database) : ℕ :=
  db.work.countP fun w => w.projectId = q.projectId && w.requestId = q.requestId &&
    w.discoveredRevision = q.closureRevision && !w.state.isVerified

/-- A row of `tracebed_erasure_prepare_primary`. -/
structure PrepareOutcome where
  closureRevision : ℕ
  pendingExternal : ℕ
  deriving DecidableEq

/-- `tracebed_erasure_prepare_primary`. -/
def preparePrimary (now : ℕ) (db : Database) : Except SqlState (PrepareOutcome × Database) := do
  let q ← assertLease c now db
  ensure (q.phase = .cryptoErased || q.phase = .primaryPurged || q.phase = .externalPurged) .P0013
  ensure (isSealed q db) .P0014
  let db := q.storeManifest.foldl (materializeStore C q) db
  return (⟨q.closureRevision, pendingExternal q db⟩, db)

/-! ### Claiming and marking work -/

/-- A row of `tracebed_erasure_external_work_batch`. -/
structure WorkItem where
  storeCode : StoreCode
  target : Target
  workRevision : ℕ
  attempt : ℕ
  deriving DecidableEq

/-- The work a worker of a generation may claim. -/
def isOpenTo (generation : ℕ) : WorkState → Bool
  | .pending => true
  | .inProgress claimed _ => claimed < generation
  | .verified .. => false

def claimWork (w : WorkRow) : WorkRow :=
  { w with state := .inProgress c.generation c.leaseToken, attempt := w.attempt + 1 }

/-- The work of a store that the holder of a lease may claim, in the order of `work_id`. -/
def openWork (work : List WorkRow) : List WorkRow :=
  ((currentWork q code work).filter fun w => isOpenTo c.generation w.state).insertionSort
    fun a b => (C.workId a.key).int.toNat ≤ (C.workId b.key).int.toNat

/-- `tracebed_erasure_external_work_batch`. -/
def externalWorkBatch (limit now : ℕ) (db : Database) :
    Except SqlState (List WorkItem × Database) := do
  let q ← assertLease c now db
  ensure ((q.phase = .primaryPurged || q.phase = .externalPurged) &&
    (1 ≤ limit && limit ≤ 10000) && code ∈ q.storeManifest) .P0013
  let candidates := (openWork C c q code db.work).take limit
  return (candidates.map fun w => ⟨code, w.target, w.discoveredRevision, w.attempt + 1⟩,
    { db with work := updateWhere (· ∈ candidates) (claimWork c) db.work })

/-- What a worker proves about a store or one of its targets. -/
structure StoreProof where
  resultCode : ResultCode
  affectedRows : ℕ
  postconditionDigest : Digest
  deriving DecidableEq

def StoreProof.isValid (proof : StoreProof) : Bool :=
  proof.postconditionDigest.length = 32 && proof.resultCode.isProof

/-- The work a mark is about: the worker's own claim at the current revision. -/
def isMarked (item : WorkItem) (w : WorkRow) : Bool :=
  w.projectId = c.projectId && w.requestId = c.requestId && w.storeCode = item.storeCode &&
    w.target = item.target && w.discoveredRevision = item.workRevision &&
    w.state = .inProgress c.generation c.leaseToken

def markWork (proof : StoreProof) (w : WorkRow) : WorkRow :=
  { w with
    state := .verified c.generation c.leaseToken proof.affectedRows proof.resultCode
      proof.postconditionDigest }

/-- `tracebed_erasure_mark_external_work`. -/
def markExternalWork (item : WorkItem) (proof : StoreProof) (now : ℕ) (db : Database) :
    Except SqlState (Unit × Database) := do
  let q ← assertLease c now db
  ensure (item.workRevision = q.closureRevision && proof.isValid) .P0010
  ensure (db.work.any (isMarked c item)) .P0011
  return ((), { db with work := updateWhere (isMarked c item) (markWork c proof) db.work })

/-! ### Closing a store -/

def isCheckpoint (k : CheckpointRow) : Bool :=
  k.projectId = q.projectId && k.requestId = q.requestId && k.storeCode = code

def manifestCheckpoints (checkpoints : List CheckpointRow) : List CheckpointRow :=
  checkpoints.filter fun k => k.projectId = q.projectId ∧ k.requestId = q.requestId ∧
    k.storeCode ∈ q.storeManifest

/-- `COALESCE(bool_and(verified_revision = closure_revision), false)` over the checkpoints of
the manifest. -/
def allDone (checkpoints : List CheckpointRow) : Bool :=
  (boolAnd ((manifestCheckpoints q checkpoints).map fun k =>
    eqNull k.verifiedRevision q.closureRevision)).getD false

/-- A row of `tracebed_erasure_close_external_step`. -/
structure CloseOutcome where
  phase : Phase
  closureRevision : ℕ
  deriving DecidableEq

/-- The phase advances when the aggregate says that every store is done. -/
def advanceExternal (done : Bool) (db : Database) : CloseOutcome × Database :=
  if done && q.phase = .primaryPurged then
    (⟨.externalPurged, q.closureRevision⟩,
      db.updateRequest q.projectId q.requestId fun q => { q with phase := .externalPurged })
  else (⟨q.phase, q.closureRevision⟩, db)

/-- The store is closed at the current revision already. -/
def isClosed (checkpoints : List CheckpointRow) : Bool :=
  checkpoints.any fun k => isCheckpoint q code k && k.preparedRevision = q.closureRevision &&
    k.verifiedRevision = some q.closureRevision

/-- The checkpoint that a close verifies. -/
def isClosable (count : ℕ) (k : CheckpointRow) : Bool :=
  isCheckpoint q code k && k.preparedRevision = q.closureRevision && k.targetCount = count

def closeCheckpoint (proof : StoreProof) (k : CheckpointRow) : CheckpointRow :=
  { k with proof := some ⟨q.closureRevision, proof.postconditionDigest, proof.resultCode⟩ }

/-- `tracebed_erasure_close_external_step`. -/
def closeExternalStep (proof : StoreProof) (now : ℕ) (db : Database) :
    Except SqlState (CloseOutcome × Database) := do
  let q ← assertLease c now db
  ensure ((q.phase = .primaryPurged || q.phase = .externalPurged) && code ∈ q.storeManifest &&
    proof.isValid) .P0010
  ensure ((currentWork q code db.work).all (·.state.isVerified)) .P0014
  -- A checkpoint verified at this revision is durable proof: the close is replayed without
  -- another receipt.
  if isClosed q code db.checkpoints then
    return advanceExternal q (allDone q db.checkpoints) db
  let count := (currentWork q code db.work).length
  ensure (db.checkpoints.any (isClosable q code count)) .P0014
  let db := { db with
    checkpoints := updateWhere (isClosable q code count) (closeCheckpoint q proof)
      db.checkpoints }
  let done := allDone q db.checkpoints
  let (_, db) ← appendReceipt C q.projectId q.requestId c.generation now
    ⟨code.kind.receiptStep, .succeeded, proof.resultCode, proof.affectedRows, q.closureRevision,
      proof.postconditionDigest⟩ db
  return advanceExternal q done db

/-! ### Completion -/

/-- `tracebed_erasure_tombstone_project`, as completion calls it. -/
def tombstoneProject (db : Database) : Except SqlState Database := do
  let leaving := fun p : ProjectRow => p.projectId = q.projectId && p.status = .deleting
  let gone := fun p : ProjectRow => p.projectId = q.projectId && p.status = .deleted
  ensure (db.projects.any leaving || db.projects.any gone) .P0013
  return { db with
    grants := db.grants.filter (·.projectId ≠ q.projectId)
    projects := updateWhere leaving (fun p => { p with status := .deleted }) db.projects }

/-- A completed project request tombstones its project. -/
def retireProject (db : Database) : Except SqlState Database :=
  if q.scope = .project then tombstoneProject q db else .ok db

/-- The fences of a request become permanent. -/
def finalizeFences (db : Database) : Database :=
  { db with
    subjectFences := updateWhere
      (fun f => f.projectId = q.projectId && f.state = .fenced q.requestId)
      (fun f => { f with state := .erased q.requestId }) db.subjectFences
    runFences := updateWhere
      (fun f => f.projectId = q.projectId && f.state = .fenced q.requestId)
      (fun f => { f with state := .erased q.requestId }) db.runFences }

/-- The stores of the manifest whose checkpoint is verified at the current revision. -/
def verifiedStores (checkpoints : List CheckpointRow) : ℕ :=
  (manifestCheckpoints q checkpoints).countP (·.verifiedRevision = some q.closureRevision)

/-- `tracebed_erasure_verify_and_complete`. -/
def verifyAndComplete (now : ℕ) (db : Database) :
    Except SqlState (CloseOutcome × Database) := do
  let q ← assertLease c now db
  ensure (q.phase = .externalPurged && primaryRemaining db q.projectId q.requestId = 0 &&
    verifiedStores q db.checkpoints = q.storeManifest.length) .P0014
  let verifyDigest := C.sha256 (ascii "tracebed.erasure-verify/v1" ++ q.projectId.bytes ++
    q.requestId.bytes ++ toBytesBE 8 q.closureRevision)
  let (_, db) ← appendReceipt C q.projectId q.requestId c.generation now
    ⟨.verify, .succeeded, .ok, 0, q.closureRevision, verifyDigest⟩ db
  let db ← retireProject q (finalizeFences q db)
  let (_, db) ← appendReceipt C q.projectId q.requestId c.generation now
    ⟨.complete, .succeeded, .ok, 0, q.closureRevision,
      C.sha256 (ascii "tracebed.erasure-complete/v1" ++ verifyDigest)⟩ db
  return (⟨.scopeComplete, q.closureRevision⟩,
    db.updateRequest q.projectId q.requestId fun q =>
      { q with phase := .scopeComplete, disposition := .scopeComplete, lease := none })

end Tracebed.Erasure
