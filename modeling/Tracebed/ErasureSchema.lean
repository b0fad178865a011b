import Tracebed.Lib.Table
import Tracebed.Subjects

/-!
# The Tables of the Erasure Saga

The part of the database that `migrations/0012_erasure_saga.sql` and
`0013_erasure_deployment.sql` read and write. A row type carries the CHECK constraints of its
table where a constraint ties columns together: a lease has all of its columns or none, a
destroyed key has no material. A routine is a function from a database to the SQLSTATE it raises
or to its result and the database after it.
-/

open Py Fallible Table

namespace Tracebed.Erasure

abbrev Digest := Bytes

/-! ### Vocabulary -/

/-- The SQLSTATE of a refused call. -/
inductive SqlState where
  | P0001 | P0002 | P0003 | P0004 | P0005 | P0010 | P0011 | P0012 | P0013 | P0014
  | insufficientPrivilege | uniqueViolation
  deriving DecidableEq, Repr

/-- `erasure_request.scope`, with the digest a subject request has. -/
inductive Scope where
  | subject (digest : Digest)
  | project
  deriving DecidableEq

/-- `erasure_request.phase`. -/
inductive Phase where
  | requested | fenced | cryptoErased | primaryPurged | externalPurged | verified
  | scopeComplete
  deriving DecidableEq, Repr

/-- `erasure_request.disposition`, with the retry time a waiting request has. -/
inductive Disposition where
  | active
  | retryWait (notBefore : ℕ)
  | operatorBlocked
  | scopeComplete
  deriving DecidableEq, Repr

/-- The external stores a manifest may name. -/
inductive StoreCode where
  | traceFsV1 | traceS3V1 | valkeyV1 | vectorPostgres | vectorQdrant | vectorNone
  | graphPostgres | graphAge | graphNone
  deriving DecidableEq, Repr

/-- The four categories of stores, each of which a manifest names once. -/
inductive StoreKind where
  | trace | valkey | vector | graph
  deriving DecidableEq, Repr

namespace StoreCode

/-- The category of a store. -/
def kind : StoreCode → StoreKind
  | traceFsV1 => .trace
  | traceS3V1 => .trace
  | valkeyV1 => .valkey
  | vectorPostgres => .vector
  | vectorQdrant => .vector
  | vectorNone => .vector
  | graphPostgres => .graph
  | graphAge => .graph
  | graphNone => .graph

/-- `code IN ('trace_fs_v1','trace_s3_v1')`. -/
def isTrace (code : StoreCode) : Bool := code.kind = .trace

/-- The text of a store code. -/
def text : StoreCode → PyStr
  | traceFsV1 => str "trace_fs_v1"
  | traceS3V1 => str "trace_s3_v1"
  | valkeyV1 => str "valkey_v1"
  | vectorPostgres => str "vector_postgres"
  | vectorQdrant => str "vector_qdrant"
  | vectorNone => str "vector_none"
  | graphPostgres => str "graph_postgres"
  | graphAge => str "graph_age"
  | graphNone => str "graph_none"

end StoreCode

/-- `erasure_step_receipt.step_code`. -/
inductive StepCode where
  | fence | crypto | postgres | queue | valkey | traceStore | vector | graph | verify
  | complete
  deriving DecidableEq, Repr

def StepCode.text : StepCode → PyStr
  | .fence => str "fence"
  | .crypto => str "crypto"
  | .postgres => str "postgres"
  | .queue => str "queue"
  | .valkey => str "valkey"
  | .traceStore => str "trace_store"
  | .vector => str "vector"
  | .graph => str "graph"
  | .verify => str "verify"
  | .complete => str "complete"

def StoreKind.receiptStep : StoreKind → StepCode
  | .trace => .traceStore
  | .valkey => .valkey
  | .vector => .vector
  | .graph => .graph

/-- `erasure_step_receipt.result`. -/
inductive StepResult where
  | succeeded | retryable | blocked
  deriving DecidableEq, Repr

def StepResult.text : StepResult → PyStr
  | .succeeded => str "succeeded"
  | .retryable => str "retryable"
  | .blocked => str "blocked"

/-- `erasure_step_receipt.result_code`. -/
inductive ResultCode where
  | ok | alreadyAbsent | notConfigured | embeddedPrimary | closureChanged
  | dependencyUnavailable | dependencyTimeout | verificationFailed | configurationMismatch
  | storeRefused | catalogMismatch | unsafePath | integrityFailed | operatorResumed
  deriving DecidableEq, Repr

def ResultCode.text : ResultCode → PyStr
  | .ok => str "ok"
  | .alreadyAbsent => str "already_absent"
  | .notConfigured => str "not_configured"
  | .embeddedPrimary => str "embedded_primary"
  | .closureChanged => str "closure_changed"
  | .dependencyUnavailable => str "dependency_unavailable"
  | .dependencyTimeout => str "dependency_timeout"
  | .verificationFailed => str "verification_failed"
  | .configurationMismatch => str "configuration_mismatch"
  | .storeRefused => str "store_refused"
  | .catalogMismatch => str "catalog_mismatch"
  | .unsafePath => str "unsafe_path"
  | .integrityFailed => str "integrity_failed"
  | .operatorResumed => str "operator_resumed"

/-- The codes with which a store proves an absence. -/
def ResultCode.isProof : ResultCode → Bool
  | .ok => true
  | .alreadyAbsent => true
  | .notConfigured => true
  | .embeddedPrimary => true
  | _ => false

def ResultCode.isFailure (code : ResultCode) : Bool := !code.isProof && code ≠ .operatorResumed

/-! ### Rows -/

/-- The lease columns of a request. -/
structure LeaseColumns where
  token : UUID
  owner : PyStr
  expiresAt : ℕ
  deriving DecidableEq

/-- A row of `erasure_request`. -/
structure RequestRow where
  projectId : UUID
  requestId : UUID
  scope : Scope
  phase : Phase
  disposition : Disposition
  generation : ℕ
  lease : Option LeaseColumns
  requestedAt : ℕ
  firstStartedAt : Option ℕ
  retryCount : ℕ
  closureRevision : ℕ
  closureDigest : Digest
  storeManifest : List StoreCode
  storeManifestDigest : Option Digest
  lastReceiptDigest : Option Digest
  nextStepSeq : ℕ
  deriving DecidableEq

def RequestRow.key (q : RequestRow) : UUID × UUID := (q.projectId, q.requestId)

/-- The state of a fence, with the request that holds it. -/
inductive FenceState where
  | live
  | fenced (requestId : UUID)
  | erased (requestId : UUID)
  deriving DecidableEq

def FenceState.requestId : FenceState → Option UUID
  | live => none
  | fenced r => some r
  | erased r => some r

/-- A row of `subject_fence`. -/
structure SubjectFence where
  projectId : UUID
  subjectDigest : Digest
  state : FenceState
  deriving DecidableEq

def SubjectFence.key (f : SubjectFence) : UUID × Digest := (f.projectId, f.subjectDigest)

/-- A row of `run_fence`. -/
structure RunFence where
  projectId : UUID
  runId : UUID
  state : FenceState
  deriving DecidableEq

def RunFence.key (f : RunFence) : UUID × UUID := (f.projectId, f.runId)

/-- A row of `erase_run_set`. -/
structure RunSetRow where
  projectId : UUID
  requestId : UUID
  runId : UUID
  discoveredRevision : ℕ
  deriving DecidableEq

def RunSetRow.key (s : RunSetRow) : UUID × UUID × UUID := (s.projectId, s.requestId, s.runId)

/-- A row of `erase_mem_set`. -/
structure MemSetRow where
  projectId : UUID
  requestId : UUID
  memoryId : UUID
  closureDepth : ℕ
  discoveredRevision : ℕ
  deriving DecidableEq

def MemSetRow.key (s : MemSetRow) : UUID × UUID × UUID := (s.projectId, s.requestId, s.memoryId)

/-- What a piece of external work deletes: `target_kind` and `target_id`. -/
inductive Target where
  | run (runId : UUID)
  | project
  deriving DecidableEq

/-- The state of external work, with the claim and the proof it has. -/
inductive WorkState where
  | pending
  | inProgress (generation : ℕ) (token : UUID)
  | verified (generation : ℕ) (token : UUID) (affectedRows : ℕ) (resultCode : ResultCode)
      (postconditionDigest : Digest)
  deriving DecidableEq

/-- `state = 'verified'`. -/
def WorkState.isVerified : WorkState → Bool
  | verified .. => true
  | _ => false

/-- A row of `erasure_external_work`. -/
structure WorkRow where
  projectId : UUID
  requestId : UUID
  storeCode : StoreCode
  target : Target
  discoveredRevision : ℕ
  state : WorkState
  attempt : ℕ
  deriving DecidableEq

/-- The unique columns of external work, which also identify it. -/
def WorkRow.key (w : WorkRow) : UUID × UUID × StoreCode × Target :=
  (w.projectId, w.requestId, w.storeCode, w.target)

/-- What the database cluster supplies: its `sha256`, the order of its collation and the
`work_id` it draws for each piece of external work. -/
structure Cluster where
  sha256 : Bytes → Bytes
  collate : PyStr → PyStr → Bool
  workId : UUID × UUID × StoreCode × Target → UUID

/-- What a closed store's checkpoint proves. -/
structure CheckpointProof where
  revision : ℕ
  postconditionDigest : Digest
  resultCode : ResultCode
  deriving DecidableEq

/-- A row of `erasure_store_checkpoint`. -/
structure CheckpointRow where
  projectId : UUID
  requestId : UUID
  storeCode : StoreCode
  preparedRevision : ℕ
  targetCount : ℕ
  targetManifestDigest : Digest
  proof : Option CheckpointProof
  deriving DecidableEq

def CheckpointRow.key (c : CheckpointRow) : UUID × UUID × StoreCode :=
  (c.projectId, c.requestId, c.storeCode)

/-- `verified_revision`, null while the store is open. -/
def CheckpointRow.verifiedRevision (c : CheckpointRow) : Option ℕ := c.proof.map (·.revision)

/-- A row of `erasure_step_receipt`. -/
structure ReceiptRow where
  projectId : UUID
  requestId : UUID
  stepSeq : ℕ
  stepCode : StepCode
  attempt : ℕ
  generation : ℕ
  result : StepResult
  resultCode : ResultCode
  affectedRows : ℕ
  workRevision : ℕ
  postconditionDigest : Digest
  previousReceiptDigest : Option Digest
  startedAt : ℕ
  finishedAt : ℕ
  receiptDigest : Digest
  deriving DecidableEq

/-- The material of a subject key, gone once the key is destroyed. -/
inductive KeyState where
  | live (wrappedKek : Bytes)
  | destroyed (destroyedAt : ℕ)
  deriving DecidableEq

/-- `destroyed_at IS NULL`. -/
def KeyState.isLive : KeyState → Bool
  | live _ => true
  | destroyed _ => false

/-- A row of `subject_key`. -/
structure SubjectKeyRow where
  projectId : UUID
  subjectDigest : Digest
  keyId : UUID
  state : KeyState
  deriving DecidableEq

def SubjectKeyRow.key (k : SubjectKeyRow) : UUID × Digest := (k.projectId, k.subjectDigest)

/-- `project.status`. -/
inductive ProjectStatus where
  | active | suspended | deleting | deleted
  deriving DecidableEq, Repr

/-- A row of `project`. -/
structure ProjectRow where
  projectId : UUID
  status : ProjectStatus
  deriving DecidableEq

/-- `principal_grant.role`, as far as the erasure routines ask for it. -/
inductive GrantRole where
  | data | feedback | erasureRequest
  deriving DecidableEq, Repr

/-- A grant of a registered principal. -/
structure GrantRow where
  projectId : UUID
  principalId : UUID
  agentTypeId : UUID
  grantId : UUID
  role : GrantRole
  deriving DecidableEq

/-- The business tables of a purge, in the order of the purge. -/
inductive PrimaryTable where
  | workQueue | deadLetter | traceLearningJob | outcomeEvent | injectionLog | retrievalEvent
  | blackboardEntry | traceIndex | runOwner | memoryStatusLog | memoryQUpdate | reviewQueue
  | memoryLink | runMemoryBinding | memoryItem | traceSubject | derivedState
  | invalidationEvent | killswitchState | projectConfig | agentTypeConfig
  deriving DecidableEq, Repr

/-- A row of a business table: the columns the erasure routines read, empty where the table
has none. `ctid` is the physical place of the row in its partition. -/
structure PrimaryRow where
  ctid : ℕ
  projectId : UUID
  runId : Option UUID
  memoryIds : List UUID
  subjectDigests : List Digest
  payloadRefs : List PyStr
  evidence : Bool
  owner : Option (UUID × UUID)
  subjectTag : Option PyStr
  deriving DecidableEq

/-- The database. `attached` lists the projects whose leaf partitions exist: provisioning
attaches all leaves of a project, and a project purge drops them together. -/
structure Database where
  admissionsOpen : Bool
  projects : List ProjectRow
  grants : List GrantRow
  attached : List UUID
  requests : List RequestRow
  subjectFences : List SubjectFence
  runFences : List RunFence
  runSet : List RunSetRow
  memSet : List MemSetRow
  work : List WorkRow
  checkpoints : List CheckpointRow
  receipts : List ReceiptRow
  subjectKeys : List SubjectKeyRow
  primary : PrimaryTable → List PrimaryRow

variable (C : Cluster) (db : Database) (project request : UUID) (q : RequestRow)

/-! ### Encodings -/

/-- The bytes of an ASCII text. -/
def ascii (s : String) : Bytes := (str s).map UInt8.ofNat

/-- The bytes of a database text, which is always encodable. -/
def utf8 (s : PyStr) : Bytes := (utf8Encode s).getD []

/-- `tracebed_erasure_frame`. -/
def frame (value : Bytes) : Bytes := toBytesBE 8 value.length ++ value

/-- `tracebed_subject_digest(project_id, subject_tag)`. -/
def tagDigest (tag : PyStr) : Digest :=
  C.sha256 (subjectDigestDomain ++ project.bytes ++ toBytesBE 4 (utf8 tag).length ++ utf8 tag)

/-- The digest of the reserved tag `__project__`. -/
def projectDigest : Digest := tagDigest C project projectSubjectTag

/-- `tracebed_subject_tag_is_valid(subject_tag, false)`. -/
def subjectTagIsValid (tag : PyStr) : Bool :=
  1 ≤ tag.length && tag.length ≤ 128 && (1 ≤ (utf8 tag).length && (utf8 tag).length ≤ 512) &&
    tag ≠ projectSubjectTag && !tag.any isControl && !tag.all isSpaceChar

/-- The order of `bytea`. -/
def byteaLe (a b : Bytes) : Prop := bytesLe a b = true

instance : DecidableRel byteaLe := fun a b => inferInstanceAs (Decidable (bytesLe a b = true))

/-- `array_agg(DISTINCT digest ORDER BY digest)`. -/
def sortedDigests (digests : List Digest) : List Digest := digests.dedup.insertionSort byteaLe

/-- The order of `uuid`. -/
def uuidLe (a b : UUID) : Prop := a.int.toNat ≤ b.int.toNat

instance : DecidableRel uuidLe := fun a b =>
  inferInstanceAs (Decidable (a.int.toNat ≤ b.int.toNat))

/-- `array_agg(DISTINCT id ORDER BY id)`. -/
def sortedIds (ids : List UUID) : List UUID := ids.dedup.insertionSort uuidLe

/-- `tracebed_erasure_manifest_is_valid`. -/
def manifestIsValid (codes : List StoreCode) : Bool :=
  codes.length = 4 &&
    codes = codes.insertionSort (fun a b => strLe a.text b.text = true) && codes.Nodup &&
    codes.countP (·.kind = .trace) = 1 && codes.countP (·.kind = .valkey) = 1 &&
    codes.countP (·.kind = .vector) = 1 && codes.countP (·.kind = .graph) = 1

/-- `tracebed_erasure_manifest_digest`. -/
def manifestDigest (codes : List StoreCode) : Digest :=
  C.sha256 (ascii "tracebed.erasure-manifest/v1" ++ codes.flatMap fun c => frame (utf8 c.text))

/-- The pattern of `lease_owner`: up to 96 letters, digits and `._:-`, the first a letter or
digit. -/
def ownerIsValid (owner : PyStr) : Bool :=
  let alphanumeric := fun c : ℕ => (48 ≤ c && c ≤ 57) || (65 ≤ c && c ≤ 90) || (97 ≤ c && c ≤ 122)
  match owner with
  | [] => false
  | first :: rest => alphanumeric first && rest.length ≤ 95 &&
      rest.all fun c => alphanumeric c || c = 46 || c = 95 || c = 58 || c = 45

/-! ### Reading and writing the request -/

/-- `project_id = ... AND request_id = ...`. -/
def isRequest : Bool :=
  q.projectId = project && q.requestId = request

namespace Database

/-- The request with a primary key. -/
def request? : Option RequestRow :=
  db.requests.find? (isRequest project request)

/-- `UPDATE erasure_request SET f WHERE project_id = ... AND request_id = ...`. -/
def updateRequest (f : RequestRow → RequestRow) : Database :=
  { db with requests := updateWhere (isRequest project request) f db.requests }

def capturedRuns : List UUID :=
  (db.runSet.filter fun s => s.projectId = project ∧ s.requestId = request).map (·.runId)

def capturedMemories : List UUID :=
  (db.memSet.filter fun s => s.projectId = project ∧ s.requestId = request).map (·.memoryId)

end Database

/-- `tracebed_erasure_closure_digest`. -/
def closureDigest (revision : ℕ) : Digest :=
  let identity := ((db.request? project request).toList.map fun q =>
    0x53 :: (match q.scope with | .subject d => d | .project => []))
  let runs := (db.runSet.filter fun s => s.projectId = project ∧ s.requestId = request).map
    fun s => 0x52 :: (s.runId.bytes ++ toBytesBE 8 s.discoveredRevision)
  let memories := (db.memSet.filter fun s => s.projectId = project ∧ s.requestId = request).map
    fun s => 0x4d :: (s.memoryId.bytes ++ toBytesBE 8 s.closureDepth ++
      toBytesBE 8 s.discoveredRevision)
  C.sha256 (ascii "tracebed.erasure-closure/v1" ++ project.bytes ++ request.bytes ++
    toBytesBE 8 revision ++ ((identity ++ runs ++ memories).insertionSort byteaLe).flatten)

/-! ### Receipts -/

variable (receipt : ReceiptRow)

def receiptBytes : Bytes :=
  ascii "tracebed.erasure-receipt/v1" ++ frame receipt.projectId.bytes ++
    frame receipt.requestId.bytes ++ frame (toBytesBE 8 receipt.stepSeq) ++
    frame (toBytesBE 4 receipt.generation) ++ frame (utf8 receipt.stepCode.text) ++
    frame (utf8 receipt.result.text) ++ frame (utf8 receipt.resultCode.text) ++
    frame (toBytesBE 4 receipt.attempt) ++ frame (toBytesBE 8 receipt.affectedRows) ++
    frame (toBytesBE 8 receipt.workRevision) ++ frame receipt.postconditionDigest ++
    (match receipt.previousReceiptDigest with
      | none => [0x00]
      | some previous => 0x01 :: frame previous) ++
    frame (toBytesBE 8 receipt.startedAt) ++ frame (toBytesBE 8 receipt.finishedAt)

/-- What a caller supplies for a receipt. -/
structure ReceiptEntry where
  stepCode : StepCode
  result : StepResult
  resultCode : ResultCode
  affectedRows : ℕ
  workRevision : ℕ
  postconditionDigest : Digest

/-- The receipt `tracebed_erasure_append_receipt` inserts for a request. -/
def newReceipt (generation now : ℕ) (entry : ReceiptEntry) : ReceiptRow :=
  let attempt := db.receipts.countP (fun r => r.projectId = q.projectId ∧
    r.requestId = q.requestId ∧ r.stepCode = entry.stepCode) + 1
  let receipt : ReceiptRow :=
    { projectId := q.projectId, requestId := q.requestId, stepSeq := q.nextStepSeq,
      stepCode := entry.stepCode, attempt := attempt, generation := generation,
      result := entry.result, resultCode := entry.resultCode,
      affectedRows := entry.affectedRows, workRevision := entry.workRevision,
      postconditionDigest := entry.postconditionDigest,
      previousReceiptDigest := q.lastReceiptDigest, startedAt := now, finishedAt := now,
      receiptDigest := [] }
  { receipt with receiptDigest := C.sha256 (receiptBytes receipt) }

/-- The request after a receipt was appended to its chain. -/
def RequestRow.chained (q : RequestRow) : RequestRow :=
  { q with nextStepSeq := q.nextStepSeq + 1, lastReceiptDigest := some receipt.receiptDigest }

/-- The receipt inserted, and the chain of its request advanced. -/
def Database.addReceipt : Database :=
  { db with receipts := db.receipts ++ [receipt] }.updateRequest receipt.projectId
    receipt.requestId (·.chained receipt)

/-- `tracebed_erasure_append_receipt`. -/
def appendReceipt (generation now : ℕ) (entry : ReceiptEntry) (db : Database) :
    Except SqlState (Digest × Database) := do
  ensure (1 ≤ entry.workRevision && entry.postconditionDigest.length = 32) .P0010
  let q ← orThrow (db.request? project request) .P0010
  ensure (if entry.stepCode = .fence then
      generation = 0 && q.nextStepSeq = 1 && q.lastReceiptDigest = none
    else 1 ≤ generation) .P0010
  let receipt := newReceipt C db q generation now entry
  return (receipt.receiptDigest, db.addReceipt receipt)

/-! ### Leases -/

/-- The arguments with which a worker names the lease it believes to hold. -/
structure Credential where
  projectId : UUID
  requestId : UUID
  generation : ℕ
  leaseToken : UUID
  owner : PyStr
  deriving DecidableEq

/-- The request row is held under the given credential at a time. -/
def holds (c : Credential) (now : ℕ) : Bool :=
  q.disposition = .active && q.phase ≠ .scopeComplete && q.generation = c.generation &&
    q.lease.any fun l => l.token = c.leaseToken && l.owner = c.owner && now < l.expiresAt

/-- `tracebed_erasure_assert_lease`. -/
def assertLease (c : Credential) (now : ℕ) (db : Database) : Except SqlState RequestRow := do
  ensure (1 ≤ c.generation && ownerIsValid c.owner) .P0010
  let q ← orThrow (db.request? c.projectId c.requestId) .P0011
  ensure (holds q c now) .P0011
  return q

end Tracebed.Erasure
