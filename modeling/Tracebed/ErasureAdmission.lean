import Tracebed.ErasureStores

/-!
# Admitting Erasure Requests and Subject Tags

`requestErasure` accepts a request: it fences the subject and every run of the closure and
captures the runs and memories to erase. `bindRunSubjectTags` attaches subject tags to a run; a
run that turns out to carry a fenced subject is captured late, and the closure revision of the
request moves. `lockRunSubjectSnapshot` and `insertSubjectKey` let a worker create keys for a
live run.
-/

open Py Fallible Table

namespace Tracebed.Erasure

variable (C : Cluster) (project request run : UUID)

/-! ### What blocks ordinary activity -/

/-- The requests that quiesce a project: a project request for ever, any other until it is
complete. -/
def isBlocking (q : RequestRow) : Bool :=
  q.projectId = project && (q.scope = .project || q.disposition ≠ .scopeComplete)

/-- `tracebed_erasure_project_is_quiesced`. -/
def isQuiesced (db : Database) (project : UUID) : Bool := db.requests.any (isBlocking project)

/-- `ORDER BY requested_at, request_id`. -/
def requestedBefore (a b : RequestRow) : Prop :=
  a.requestedAt < b.requestedAt ∨ a.requestedAt = b.requestedAt ∧ uuidLe a.requestId b.requestId

instance : DecidableRel requestedBefore := fun a b =>
  inferInstanceAs (Decidable (a.requestedAt < b.requestedAt ∨
    a.requestedAt = b.requestedAt ∧ uuidLe a.requestId b.requestId))

def blockingRequest? (db : Database) (project : UUID) : Option RequestRow :=
  ((db.requests.filter (isBlocking project)).insertionSort requestedBefore).head?

/-- A write of the runtime roles to a business table, behind
`tracebed_runtime_erasure_write_guard`: the rows of a project are replaced. -/
def runtimeWrite (t : PrimaryTable) (rows : List PrimaryRow) (db : Database) :
    Except SqlState (Unit × Database) := do
  ensure (!isQuiesced db project) .P0002
  return ((), db.setPrimary t ((db.primary t).filter (·.projectId ≠ project) ++
    rows.filter (·.projectId = project)))

/-- `tracebed_require_active_grant`. -/
def hasActiveGrant (db : Database) (project principal agentType grant : UUID)
    (role : GrantRole) : Bool :=
  db.admissionsOpen && db.projects.any (fun p => p.projectId = project && p.status = .active) &&
    db.grants.any fun g => g.projectId = project && g.principalId = principal &&
      g.agentTypeId = agentType && g.grantId = grant && g.role = role

/-! ### The closure of memories -/

/-- The rows of a table in a project. -/
def rowsOf (db : Database) (project : UUID) (t : PrimaryTable) : List PrimaryRow :=
  (db.primary t).filter (·.projectId = project)

def boundMemories (db : Database) (project run : UUID) : List UUID :=
  ((rowsOf db project .runMemoryBinding).filter (·.runId = some run)).flatMap (·.memoryIds)

/-- The other end of a link, taken in either direction. -/
def otherEnd (memory : UUID) (link : PrimaryRow) : Option UUID :=
  match link.memoryIds with
  | [src, dst] => if src = memory then some dst else if dst = memory then some src else none
  | _ => none

/-- A row of the recursive query: a simple path from a seed. -/
structure ClosurePath where
  memoryId : UUID
  closureDepth : ℕ
  path : List UUID
  deriving DecidableEq

def ClosurePath.seed (memory : UUID) : ClosurePath := ⟨memory, 0, [memory]⟩

/-- The paths one link longer that stay simple. -/
def ClosurePath.extend (links : List PrimaryRow) (c : ClosurePath) : List ClosurePath :=
  ((links.filterMap (otherEnd c.memoryId)).filter (· ∉ c.path)).map fun m =>
    ⟨m, c.closureDepth + 1, c.path ++ [m]⟩

/-- The recursive query: each level extends the one before, until a level is empty or the
depth is reached. -/
def closurePaths (links : List PrimaryRow) : ℕ → List ClosurePath → List ClosurePath
  | 0, level => level
  | n + 1, level =>
    if level.isEmpty then []
    else level ++ closurePaths links n (level.flatMap (ClosurePath.extend links))

def maxClosureDepth : ℕ := 1024

/-- A path of the greatest depth could be made longer. -/
def exceedsDepth (links : List PrimaryRow) (paths : List ClosurePath) : Bool :=
  paths.any fun c => c.closureDepth = maxClosureDepth && !(c.extend links).isEmpty

/-- `min(closure_depth) ... GROUP BY memory_id`. -/
def closureDepths (paths : List ClosurePath) : List (UUID × ℕ) :=
  (paths.map (·.memoryId)).dedup.map fun m =>
    (m, ((paths.filter (·.memoryId = m)).map (·.closureDepth)).foldr min maxClosureDepth)

/-- The memories reached from seeds with their depths, or the refusal of a deeper closure. -/
def memoryClosure (db : Database) (project : UUID) (seeds : List UUID) :
    Except SqlState (List (UUID × ℕ)) := do
  let links := rowsOf db project .memoryLink
  let paths := closurePaths links maxClosureDepth (seeds.map ClosurePath.seed)
  ensure (!exceedsDepth links paths) .P0005
  return closureDepths paths

/-! ### Accepting a request -/

/-- The arguments of `tracebed_request_erasure`, with the identifier the server draws. A
request without a tag is for the whole project. -/
structure RequestArguments where
  projectId : UUID
  principalId : UUID
  agentTypeId : UUID
  grantId : UUID
  subjectTag : Option PyStr
  newRequestId : UUID

variable (args : RequestArguments) (full : List Digest) (db : Database)

def RequestArguments.scope : Scope :=
  match args.subjectTag with
  | some tag => .subject (tagDigest C args.projectId tag)
  | none => .project

/-- The row carries the target of a request. -/
def isAttributed (scope : Scope) (row : PrimaryRow) : Bool :=
  match scope with
  | .subject digest => digest ∈ row.subjectDigests
  | .project => true

def runTables : List PrimaryTable :=
  [.runOwner, .traceIndex, .traceSubject, .outcomeEvent, .traceLearningJob, .retrievalEvent,
    .injectionLog, .blackboardEntry, .workQueue, .deadLetter]

/-- The runs of the target: those of attributed rows, and those bound to attributed
memories. -/
def targetRuns (project : UUID) (scope : Scope) : List UUID :=
  let direct := runTables.flatMap fun t =>
    ((rowsOf db project t).filter (isAttributed scope)).filterMap (·.runId)
  let memories := ((rowsOf db project .memoryItem).filter (isAttributed scope)).flatMap
    (·.memoryIds)
  let bound := (rowsOf db project .runMemoryBinding).filter (·.memoryIds.any (· ∈ memories))
  sortedIds (direct ++ bound.filterMap (·.runId))

def runDigests (project run : UUID) : List Digest :=
  ((rowsOf db project .traceSubject).filter (·.runId = some run)).flatMap (·.subjectDigests)

/-- The memories a closure starts from. -/
def seedMemories (project : UUID) (scope : Scope) (runs : List UUID) : List UUID :=
  ((rowsOf db project .memoryItem).flatMap fun row =>
    row.memoryIds.filter fun m =>
      isAttributed scope row || runs.any (m ∈ boundMemories db project ·)).dedup

/-- Live fences for digests that have none. -/
def ensureSubjectFences (digests : List Digest) (db : Database) : Database :=
  { db with
    subjectFences := insertAll SubjectFence.key (digests.map (⟨project, ·, .live⟩))
      db.subjectFences }

def subjectFence? (project : UUID) (digest : Digest) : Option FenceState :=
  (db.subjectFences.find? fun f => f.projectId = project && f.subjectDigest = digest).map (·.state)

def ensureRunFence : Database :=
  { db with runFences := insertNew RunFence.key ⟨project, run, .live⟩ db.runFences }

def runFence? (project run : UUID) : Option FenceState :=
  (db.runFences.find? fun f => f.projectId = project && f.runId = run).map (·.state)

def fenceSubject (digest : Digest) (db : Database) : Except SqlState Database := do
  ensure (subjectFence? db project digest = some .live) .P0001
  return { db with
    subjectFences := updateWhere (fun f => f.projectId = project && f.subjectDigest = digest)
      (fun f => { f with state := .fenced request }) db.subjectFences }

def fenceTarget (scope : Scope) (db : Database) : Except SqlState Database :=
  match scope with
  | .subject digest => fenceSubject project request digest db
  | .project => .ok db

def setRunFenced : Database :=
  { db with
    runFences := updateWhere (fun f => f.projectId = project && f.runId = run)
      (fun f => { f with state := .fenced request }) db.runFences }

/-- A run enters the closure of a request. -/
def captureRun : Database :=
  { db with runSet := insertNew RunSetRow.key ⟨project, request, run, 1⟩ db.runSet }

def fenceRun (run : UUID) : Except SqlState Database := do
  let db := ensureRunFence project run db
  ensure (runFence? db project run = some .live) .P0001
  return setRunFenced project request run (captureRun project request run db)

/-- Memories enter the closure of a request. -/
def captureMemories (memories : List (UUID × ℕ)) (db : Database) : Database :=
  { db with
    memSet := insertAll MemSetRow.key
      (memories.map fun m => ⟨project, request, m.1, m.2, 1⟩) db.memSet }

def newRequest (now : ℕ) : RequestRow :=
  { projectId := args.projectId, requestId := args.newRequestId, scope := args.scope C,
    phase := .requested, disposition := .active, generation := 0, lease := none,
    requestedAt := now, firstStartedAt := none, retryCount := 0, closureRevision := 0,
    closureDigest := [], storeManifest := [], storeManifestDigest := none,
    lastReceiptDigest := none, nextStepSeq := 1 }

/-- The fences and the closure of a new request. -/
def captureClosure : Except SqlState Database := do
  let project := args.projectId
  let request := args.newRequestId
  let scope := args.scope C
  let runs := targetRuns db project scope
  let target := match scope with
    | .subject digest => [digest]
    | .project => []
  let db := ensureSubjectFences project
    (sortedDigests (runs.flatMap (runDigests db project) ++ target)) db
  let db ← fenceTarget project request scope db
  let db ← runs.foldlM (fenceRun project request) db
  let memories ← memoryClosure db project (seedMemories db project scope runs)
  return captureMemories project request memories db

/-- The request as its acceptance leaves it, at the first closure revision. -/
def RequestRow.published (digest : Digest) (q : RequestRow) : RequestRow :=
  { q with phase := .fenced, disposition := .active, closureRevision := 1, closureDigest := digest }

/-- The transition to `fenced`, with the triggers that stamp the first closure revision and
append the fence receipt. -/
def publishFence (now : ℕ) (db : Database) : Except SqlState Database := do
  let digest := closureDigest C db project request 1
  let db := db.updateRequest project request (·.published digest)
  let (_, db) ← appendReceipt C project request 0 now ⟨.fence, .succeeded, .ok, 0, 1, digest⟩ db
  return db

/-- `tracebed_request_erasure`. -/
def requestErasure (now : ℕ) (db : Database) : Except SqlState (UUID × Database) := do
  ensure (args.subjectTag.all subjectTagIsValid) .insufficientPrivilege
  ensure (hasActiveGrant db args.projectId args.principalId args.agentTypeId args.grantId
    .erasureRequest) .insufficientPrivilege
  match db.requests.find? fun q => q.projectId = args.projectId && q.scope = args.scope C with
  | some q => return (q.requestId, db)
  | none =>
    ensure (!isQuiesced db args.projectId) .P0001
    ensure (db.request? args.projectId args.newRequestId).isNone .uniqueViolation
    let db := { db with requests := db.requests ++ [newRequest C args now] }
    let db ← captureClosure C args db
    let db ← publishFence C args.projectId args.newRequestId now db
    return (args.newRequestId, db)

/-! ### Binding subject tags -/

/-- The arguments of `tracebed_bind_run_subject_tags`. -/
structure BindArguments where
  projectId : UUID
  principalId : UUID
  agentTypeId : UUID
  grantId : UUID
  runId : UUID
  role : GrantRole
  tags : List PyStr

def BindArguments.isValid (args : BindArguments) : Bool :=
  (args.role = .data || args.role = .feedback && args.tags.isEmpty) && args.tags.length ≤ 64 &&
    args.tags.all subjectTagIsValid && args.tags.Nodup

/-- A row of `tracebed_bind_run_subject_tags`; it never names the blocking request. -/
structure BindOutcome where
  subjectDigests : List Digest
  writable : Bool
  deriving DecidableEq

/-- The concrete subjects among digests, or the reserved project subject. -/
def concreteDigests (digests : List Digest) : List Digest :=
  match sortedDigests (digests.filter (· ≠ projectDigest C project)) with
  | [] => [projectDigest C project]
  | concrete => concrete

/-- The most subjects a run or a memory may have. -/
def maxSubjects : ℕ := 64

/-- The subjects of a run in their canonical order. -/
def snapshotDigests (project run : UUID) : List Digest :=
  match sortedDigests (runDigests db project run) with
  | [] => [projectDigest C project]
  | digests => digests

def boundRuns (project memory : UUID) : List UUID :=
  ((rowsOf db project .runMemoryBinding).filter (memory ∈ ·.memoryIds)).filterMap (·.runId)

/-- Some memory of the run would get too many subjects. -/
def memoryOverflows (project run : UUID) (full : List Digest) : Bool :=
  (boundMemories db project run).any fun m =>
    let others := ((boundRuns db project m).filter (· ≠ run)).flatMap (runDigests db project)
    maxSubjects < (full ++ others.filter (· ≠ projectDigest C project)).dedup.length

/-- A place for a new row. -/
def freshCtid (rows : List PrimaryRow) : ℕ := (rows.map (·.ctid)).foldr max 0 + 1

/-- `INSERT INTO trace_subject ... ON CONFLICT DO NOTHING` for one digest. -/
def insertTraceSubject (rows : List PrimaryRow) (digest : Digest) : List PrimaryRow :=
  if rows.any fun row => row.projectId = project && row.runId = some run &&
      row.subjectDigests = [digest] then rows
  else rows ++ [⟨freshCtid rows, project, some run, [], [digest], [], false, none, none⟩]

/-- The subjects of the run in `trace_subject`; the reserved project subject gives way to a
concrete one. -/
def bindSubjects : Database :=
  let rows := full.foldl (insertTraceSubject project run) (db.primary .traceSubject)
  let isSentinel := fun row : PrimaryRow => row.projectId = project && row.runId = some run &&
    row.subjectDigests = [projectDigest C project]
  db.setPrimary .traceSubject
    (if full.any (· ≠ projectDigest C project) then rows.filter fun row => !isSentinel row
     else rows)

/-- The tables whose rows of the run get its subjects. -/
def propagatedTables : List PrimaryTable :=
  [.workQueue, .deadLetter, .outcomeEvent, .traceLearningJob, .runOwner, .traceIndex,
    .injectionLog, .retrievalEvent, .blackboardEntry]

/-- `UPDATE ... SET subject_digests WHERE run_id = ...`. -/
def propagateRun (t : PrimaryTable) : Database :=
  db.setPrimary t (updateWhere (fun row => row.projectId = project && row.runId = some run)
    (fun row => { row with subjectDigests := full }) (db.primary t))

/-- The subjects of a memory, recomputed from all runs bound to it and its own tag. -/
def memoryDigests (project : UUID) (row : PrimaryRow) : List Digest :=
  let runs := row.memoryIds.flatMap (boundRuns db project)
  concreteDigests C project (runs.flatMap (runDigests db project) ++
    row.subjectTag.toList.map (tagDigest C project))

/-- The memories of the run recomputed. -/
def propagateMemories : Database :=
  let memories := boundMemories db project run
  db.setPrimary .memoryItem (updateWhere
    (fun row => row.projectId = project && row.memoryIds.any (· ∈ memories))
    (fun row => { row with subjectDigests := memoryDigests C db project row })
    (db.primary .memoryItem))

/-- The subjects of a row that is attributed to memories: theirs, or the reserved one where
no memory is left. -/
def derivedDigests (project : UUID) (row : PrimaryRow) : List Digest :=
  match (rowsOf db project .memoryItem).filter (·.memoryIds.any (· ∈ row.memoryIds)) with
  | [] => [projectDigest C project]
  | items => sortedDigests (items.flatMap (·.subjectDigests))

/-- The tables whose rows take the subjects of their memories. -/
def derivedTables : List PrimaryTable :=
  [.memoryLink, .reviewQueue, .memoryStatusLog, .memoryQUpdate]

/-- The rows of the run's memories in a table, with the subjects their guards recompute. -/
def propagateDerived (t : PrimaryTable) : Database :=
  let memories := boundMemories db project run
  db.setPrimary t (updateWhere
    (fun row => row.projectId = project && row.memoryIds.any (· ∈ memories))
    (fun row => { row with subjectDigests := derivedDigests C db project row }) (db.primary t))

/-- The ordinary path of a bind: the subjects reach every row of the run and of its
memories. -/
def propagate : Database :=
  let db := bindSubjects C project run full db
  let db := propagatedTables.foldl (propagateRun project run full) db
  let db := propagateMemories C project run db
  derivedTables.foldl (propagateDerived C project run) db

/-- The late rows of a closure at the revision that discovered them. -/
def stampLate (runs memories : List UUID) (revision : ℕ) (db : Database) : Database :=
  { db with
    runSet := updateWhere
      (fun s => s.projectId = project && s.requestId = request && s.runId ∈ runs)
      (fun s => { s with discoveredRevision := revision }) db.runSet
    memSet := updateWhere
      (fun s => s.projectId = project && s.requestId = request && s.memoryId ∈ memories)
      (fun s => { s with discoveredRevision := revision }) db.memSet }

/-- `tracebed_erasure_refresh_late_closure`: the new rows and the request move to the next
closure revision. -/
def refreshLateClosure (runs memories : List UUID) (db : Database) : Except SqlState Database := do
  let q ← orThrow (db.request? project request) .P0014
  ensure (q.scope ≠ .project && q.phase ≠ .scopeComplete && q.disposition ≠ .scopeComplete) .P0014
  let revision := q.closureRevision + 1
  let db := stampLate project request runs memories revision db
  let digest := closureDigest C db project request revision
  return db.updateRequest project request fun q =>
    { q with closureRevision := revision, closureDigest := digest }

/-- A late run and its memories enter the closure of a request. -/
def captureLate : Except SqlState Database := do
  let newRuns := if run ∈ db.capturedRuns project request then [] else [run]
  let memories ← memoryClosure db project (boundMemories db project run)
  let newMemories := (memories.map Prod.fst).filter (· ∉ db.capturedMemories project request)
  let db := captureMemories project request memories (captureRun project request run db)
  if newRuns.isEmpty && newMemories.isEmpty then return db
  refreshLateClosure C project request newRuns newMemories db

/-- The requests that hold the fences of digests, in the order of the digests. -/
def fenceHolders (project : UUID) (digests : List Digest) : List UUID :=
  let held := db.subjectFences.filter fun f => f.projectId = project && f.subjectDigest ∈ digests
  (held.insertionSort fun f g => byteaLe f.subjectDigest g.subjectDigest).filterMap
    (·.state.requestId)

/-- The active request of the project leaves the run alone: it is for a subject the run does
not have. -/
def isForeign (active : Option RequestRow) : Bool :=
  active.any fun q =>
    match q.scope with
    | .subject digest => digest ∉ full
    | .project => false

/-- The run may be bound by the caller: it has an owner, for data the caller itself. -/
def ownsRun (args : BindArguments) : Bool :=
  match (rowsOf db args.projectId .runOwner).find? (·.runId = some args.runId) with
  | some row => args.role ≠ .data || row.owner = some (args.principalId, args.agentTypeId)
  | none => false

/-- The end of a bind, once the fences are known: the ordinary path while nothing blocks the
run, the late path otherwise. -/
def finishBind (tooMany : Bool) (runIsLive : Bool) (blocking : Option UUID) (db : Database) :
    Except SqlState (BindOutcome × Database) :=
  match blocking with
  | none => return (⟨full, true⟩, propagate C project run full db)
  | some request => do
      let db := if tooMany then db else bindSubjects C project run full db
      let db := if runIsLive then setRunFenced project request run db else db
      let db ← captureLate C project request run db
      return (⟨full, false⟩, db)

/-- The fences of a bind: those of its subjects, then that of its run. -/
def bindFenced (active : Option RequestRow) (db : Database) :
    Except SqlState (BindOutcome × Database) := do
  let tooMany := maxSubjects < full.length
  let db := if !tooMany && active.isNone then ensureSubjectFences project full db else db
  let holders := fenceHolders db project full
  ensure (holders.dedup.length ≤ 1) .P0002
  let db := ensureRunFence project run db
  let runHolder := (runFence? db project run).bind (·.requestId)
  ensure (holders.head?.isNone || runHolder.isNone || runHolder = holders.head?) .P0002
  let blocking := holders.head? <|> runHolder
  ensure (blocking.isSome || !tooMany) .P0004
  let overflows := !tooMany && memoryOverflows C db project run full
  ensure (blocking.isSome || !overflows) .P0004
  finishBind C project run full (tooMany || overflows) runHolder.isNone blocking db

/-- `tracebed_bind_run_subject_tags`. -/
def bindRunSubjectTags (args : BindArguments) (db : Database) :
    Except SqlState (BindOutcome × Database) := do
  ensure args.isValid .insufficientPrivilege
  ensure (hasActiveGrant db args.projectId args.principalId args.agentTypeId args.grantId
    args.role) .insufficientPrivilege
  let active := blockingRequest? db args.projectId
  if active.any (·.scope = .project) then
    return (⟨[], false⟩, db)
  ensure (ownsRun db args) .P0002
  let supplied := args.tags.map (tagDigest C args.projectId)
  ensure supplied.Nodup .insufficientPrivilege
  let full := concreteDigests C args.projectId (runDigests db args.projectId args.runId ++ supplied)
  if isForeign full active then
    return (⟨full, false⟩, db)
  bindFenced C args.projectId args.runId full active db

/-! ### Keys for a live run -/

/-- `erasure_snapshot_capability`: what a snapshot proves to later statements of its
transaction. -/
structure SnapshotCapability where
  projectId : UUID
  runId : UUID
  subjectDigests : List Digest
  deriving DecidableEq

/-- `tracebed_lock_run_subject_snapshot`. -/
def lockRunSubjectSnapshot (expected : List Digest) (db : Database) :
    Except SqlState SnapshotCapability := do
  ensure db.admissionsOpen .insufficientPrivilege
  ensure (!isQuiesced db project) .P0002
  let actual := snapshotDigests C db project run
  ensure (fenceHolders db project actual).isEmpty .P0002
  ensure (runFence? db project run = some .live) .P0002
  ensure (actual = expected) .P0003
  return ⟨project, run, actual⟩

/-- The key a worker asks to insert. -/
structure KeyArguments where
  projectId : UUID
  subjectDigest : Digest
  keyId : UUID
  wrappedKek : Bytes
  deriving DecidableEq

/-- The capability covers the key: one of the subjects of the snapshot, or the reserved
project subject. -/
def SnapshotCapability.admits (capability : SnapshotCapability) (args : KeyArguments) : Bool :=
  capability.projectId = args.projectId && (args.subjectDigest ∈ capability.subjectDigests ||
    args.subjectDigest = projectDigest C args.projectId)

/-- `tracebed_insert_subject_key_v2`, with the write guard of `subject_key`. -/
def insertSubjectKey (capability : Option SnapshotCapability) (args : KeyArguments)
    (db : Database) : Except SqlState (Unit × Database) := do
  ensure (args.subjectDigest.length = 32 && args.wrappedKek.length = 60 &&
    capability.any (·.admits C args)) .insufficientPrivilege
  ensure (!isQuiesced db args.projectId) .P0002
  return ((), { db with
    subjectKeys := insertNew SubjectKeyRow.key
      ⟨args.projectId, args.subjectDigest, args.keyId, .live args.wrappedKek⟩ db.subjectKeys })

end Tracebed.Erasure
