import Tracebed.AuthorizedQueue
import Tracebed.ErasureSystem

/-!
# Submissions at the Erasure Fences

`tracebed_enqueue_authorized` is the routine behind an admission: it checks the grant and the
shape of the payload, opens the run of a trace event, binds the subject tags the payload
carries, and inserts the queue row once the run has proved to be writable. Here it runs on the
database of the erasure routines, and `boundary` is the environment it makes for an admission.
-/

open Py Fallible Interaction Routine Tracebed.Queue

namespace Tracebed.Erasure

variable (C : Cluster)

/-! ### Opening a run -/

def ownerRow? (db : Database) (project run : UUID) : Option PrimaryRow :=
  (rowsOf db project .runOwner).find? (·.runId = some run)

/-- A row of `tracebed_open_erasure_guarded_run`. -/
structure Opened where
  writable : Bool
  lateBindEligible : Bool
  deriving DecidableEq

/-- A run gets its first owner, attributed by the guard of `run_owner`. -/
def insertOwner (project run principal agentType : UUID) (db : Database) : Database :=
  let rows := db.primary .runOwner
  db.setPrimary .runOwner (rows ++ [⟨freshCtid rows, project, some run, [],
    snapshotDigests C db project run, [], false, some (principal, agentType), none⟩])

/-- `tracebed_open_erasure_guarded_run` with the origin `trace`. -/
def openErasureGuardedRun (project principal agentType grant run : UUID) (db : Database) :
    Except SqlState (Opened × Database) := do
  ensure (hasActiveGrant db project principal agentType grant .data) .insufficientPrivilege
  let active := blockingRequest? db project
  if active.any (·.scope = .project) then return (⟨false, false⟩, db)
  let fence := runFence? db project run
  if fence.any (· ≠ .live) then return (⟨false, false⟩, db)
  match ownerRow? db project run with
  | some row => do
      ensure (row.owner = some (principal, agentType)) .P0002
      if active.isSome then return (⟨false, fence.isSome⟩, db)
      return (⟨true, false⟩, ensureRunFence project run db)
  | none =>
    if active.isSome then return (⟨false, false⟩, db)
    return (⟨true, false⟩,
      ensureRunFence project run (insertOwner C project run principal agentType db))

/-! ### The tags of a payload -/

/-- `jsonb_typeof(value) <> type`, which is not true of a value that is missing. -/
def differs (isType : Json → Bool) (value : Option Json) : Bool := value.any fun v => !isType v

def isObject : Json → Bool
  | .obj _ => true
  | _ => false

def isNumber : Json → Bool
  | .int _ => true
  | .float _ => true
  | _ => false

/-- `value -> key`. -/
def field (key : String) : Json → Option Json
  | .obj m => Dict.find m (str key)
  | _ => none

/-- The texts of a JSON array of strings. -/
def texts : Json → Option (List PyStr)
  | .arr items => items.mapM fun
      | .str s => some s
      | _ => none
  | _ => none

def isText (text : String) : Json → Bool
  | .str s => s = str text
  | _ => false

/-- The events whose payload may name subjects. -/
def namesSubjects (event : Json) : Bool :=
  (field "type" event).any fun v => isText "artifact_ref" v || isText "state_note" v

def eventTags (payload : Json) : Except SqlState (List PyStr) := do
  let event := field "event" payload
  let inner := event.bind (field "payload")
  ensure (!(differs isObject event || differs isObject inner ||
    differs isNumber (field "seq" payload))) .insufficientPrivilege
  match inner.bind (field "subject_tags") with
  | some tags =>
    if event.any namesSubjects then orThrow (texts tags) .insufficientPrivilege else return []
  | none => return []

def proposalTags (payload : Json) : Except SqlState (List PyStr) := do
  let proposal := field "proposal" payload
  ensure (!differs isObject proposal) .insufficientPrivilege
  match proposal.bind (field "subject_tag") with
  | some (.str tag) => return [tag]
  | some .null => return []
  | some _ => throw .insufficientPrivilege
  | none => return []

/-- The subject tags a payload carries, by its topic. -/
def directTags (topic : Topic) (payload : Json) : Except SqlState (List PyStr) :=
  match topic with
  | .traceEvent => eventTags payload
  | .memoryProposal => proposalTags payload
  | .outcomeEvent => return []

/-! ### The routine -/

/-- The settings of the queue that are arguments of the routine. -/
structure QueueSettings where
  maxAttempts : ℕ
  maxGlobalDepth : ℕ
  maxTopicDepth : ℕ
  maxProjectDepth : ℕ

/-- The settings the routine accepts. -/
def QueueSettings.isValid (settings : QueueSettings) : Bool :=
  (1 ≤ settings.maxAttempts && settings.maxAttempts ≤ 100) &&
    (1 ≤ settings.maxGlobalDepth && settings.maxGlobalDepth ≤ 10000000) &&
    (1 ≤ settings.maxTopicDepth && settings.maxTopicDepth ≤ 10000000) &&
    (1 ≤ settings.maxProjectDepth && settings.maxProjectDepth ≤ 10000000)

/-- The database with the columns of `work_queue` that capacity accounting reads. -/
structure Ingress where
  db : Database
  backlog : List (UUID × Topic)
  nextId : ℤ

/-- The SQLSTATE of a refused admission. -/
inductive EnqueueState where
  | refused (state : SqlState)
  | P0006
  deriving DecidableEq

/-- The grant role a topic needs. -/
def requiredRole : Topic → GrantRole
  | .outcomeEvent => .feedback
  | _ => .data

/-- The feedback source goes with the role. -/
def sourceFits (topic : Topic) (source : Option FeedbackSource) : Bool :=
  topic = .outcomeEvent || source.isNone

/-- `subject_digests_are_valid`. -/
def subjectDigestsAreValid (digests : List Digest) : Bool :=
  digests.isEmpty || digests.length ≤ 64 && digests.all (·.length = 32) &&
    digests = sortedDigests digests

section Enqueue

variable (settings : QueueSettings) (access : AccessContext) (grant : GrantBinding)
  (write : AuthorizedQueueWrite)

/-- The checks of the routine before any row of the run is read, with the tags they leave. -/
def checkedTags (db : Database) : Except SqlState (List PyStr) := do
  ensure ((0 ≤ write.priority && write.priority ≤ 1000000) && settings.isValid)
    .insufficientPrivilege
  ensure (sourceFits write.topic grant.feedbackSource) .insufficientPrivilege
  ensure (hasActiveGrant db access.projectId access.principalId access.agentTypeId grant.grantId
    (requiredRole write.topic)) .insufficientPrivilege
  let tags ← directTags write.topic (.obj write.payload)
  ensure (tags.length ≤ 64 && tags.Nodup && tags.all subjectTagIsValid) .insufficientPrivilege
  return tags

/-- The database with the run of the write open, or nothing where it is refused without being
bound. Only a trace event opens a run. -/
def openedDatabase (db : Database) : Except SqlState (Option Database) :=
  match write.topic with
  | .traceEvent => do
      let (opened, db) ← openErasureGuardedRun C access.projectId access.principalId
        access.agentTypeId grant.grantId write.runId db
      return if opened.writable || opened.lateBindEligible then some db else none
  | topic => do
      let row ← orThrow (ownerRow? db access.projectId write.runId) .P0002
      ensure (topic = .outcomeEvent ||
        row.owner = some (access.principalId, access.agentTypeId)) .P0002
      return some db

/-- The arguments the routine binds with. -/
def bindArguments (tags : List PyStr) : BindArguments :=
  ⟨access.projectId, access.principalId, access.agentTypeId, grant.grantId, write.runId,
    requiredRole write.topic, tags⟩

/-- The queue is full for a project and a topic. -/
def isFull (backlog : List (UUID × Topic)) : Bool :=
  settings.maxGlobalDepth ≤ backlog.length ||
    settings.maxTopicDepth ≤ backlog.countP (·.2 = write.topic) ||
    settings.maxProjectDepth ≤ backlog.countP (·.1 = access.projectId)

/-- The queue row of a write. -/
def insertWork (digests : List Digest) (s : Ingress) : Ingress where
  db := s.db.setPrimary .workQueue (s.db.primary .workQueue ++
    [⟨freshCtid (s.db.primary .workQueue), access.projectId, some write.runId, [], digests, [],
      false, none, none⟩])
  backlog := s.backlog ++ [(access.projectId, write.topic)]
  nextId := s.nextId + 1

/-- The end of the routine, once the run is bound. -/
def finishEnqueue (enqueue : Bool) (bound : BindOutcome) (s : Ingress) :
    Except EnqueueState (Reply Ingress) :=
  if !bound.writable then return ⟨none, false, s⟩
  else do
    ensure (subjectDigestsAreValid bound.subjectDigests) (.refused .P0004)
    ensure (ownerRow? s.db access.projectId write.runId).isSome (.refused .P0002)
    if !enqueue then return ⟨none, true, s⟩
    else do
      ensure (!isFull settings access write s.backlog) .P0006
      return ⟨some s.nextId, true, insertWork access write bound.subjectDigests s⟩

/-- `tracebed_enqueue_authorized`. -/
def enqueueAuthorized (enqueue : Bool) (s : Ingress) : Except EnqueueState (Reply Ingress) := do
  let tags ← (checkedTags settings access grant write s.db).mapError .refused
  match ← (openedDatabase C access grant write s.db).mapError .refused with
  | none => return ⟨none, false, s⟩
  | some db =>
    let (bound, db) ← (bindRunSubjectTags C (bindArguments access grant write tags) db).mapError
      .refused
    finishEnqueue settings access write enqueue bound { s with db := db }

end Enqueue

/-! ### The boundary of an admission -/

/-- The domain error of a SQLSTATE, in `_call_authorized_enqueue`. -/
def queueErrorOf : EnqueueState → QueueError
  | .refused .insufficientPrivilege => .authorizationDenied
  | .refused .P0002 => .runAuthorityDenied
  | .refused .P0004 => .erasureFenced
  | .refused .P0005 => .erasureFenced
  | .P0006 => .queueFull
  | .refused _ => .tracebedError

/-- The HTTP status of a domain error. -/
def statusCode : QueueError → ℕ
  | .authorizationDenied => 403
  | .runAuthorityDenied => 404
  | .erasureFenced => 409
  | .queueFull => 503
  | .tracebedError => 500
  | .activityBusy => 503
  | .projectInactive => 403

/-- The database as the environment of an admission that has the activity gate. -/
def boundary (settings : QueueSettings) (u : Unit) :
    (c : QueueCall Ingress) → Except QueueError c.Result × Unit
  | .shared _ => (.ok (), u)
  | .execute s access grant write _ enqueue =>
    ((enqueueAuthorized C settings access grant write enqueue s).mapError queueErrorOf, u)

/-! ### The database with submissions -/

/-- What the database does: a call of an erasure routine, the opening of a run, or the routine
of an admission. -/
inductive Action where
  | call (c : Call)
  | opens (project principal agentType grant run : UUID)
  | enqueues (settings : QueueSettings) (access : AccessContext) (grant : GrantBinding)
      (write : AuthorizedQueueWrite) (enqueue : Bool)

/-- The state after an action that returns. -/
def Action.perform (s : Ingress) : Action → Option Ingress
  | call c => (c.perform C s.db).toOption.map fun db => { s with db := db }
  | opens project principal agentType grant run =>
    (openErasureGuardedRun C project principal agentType grant run s.db).toOption.map
      fun opened => { s with db := opened.2 }
  | enqueues settings access grant write enqueue =>
    (enqueueAuthorized C settings access grant write enqueue s).toOption.map (·.db)

/-- The state after an action; one that raises is rolled back. -/
def Ingress.step (s : Ingress) (action : Action) : Ingress := (action.perform C s).getD s

/-- The states that actions lead to, from a database before its first erasure request. -/
def Ingress.Reachable (s : Ingress) : Prop :=
  ∃ s₀ actions, Database.Initial s₀.db ∧ s = Runs.exec (Ingress.step C) s₀ actions

end Tracebed.Erasure
