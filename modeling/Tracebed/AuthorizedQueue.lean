import Tracebed.Lib.Fallible
import Tracebed.Lib.Json
import Tracebed.Lib.StableSort
import Tracebed.Lib.Interaction
import Tracebed.Lib.Uuid

/-!
# Admitting a Batch of Authorised Writes

`AuthorizedWorkQueue.enqueue_many_authorized` walks a batch twice in the order of its runs. The
first pass asks every write without inserting it: a write that is not writable has by then
attached its run to an erasure request, and that containment is committed even though the batch
is refused. A batch whose writes are all writable is walked again, with the inserts, in one
transaction. The routine of the database is the boundary: a call is answered with a queue
identifier and whether the run is writable, or with a domain error.
-/

open Py Fallible Interaction Routine

namespace Tracebed.Queue

/-! ### Writes and authority -/

/-- The topics of the queue. -/
inductive Topic where
  | traceEvent | outcomeEvent | memoryProposal
  deriving DecidableEq, Repr

def Topic.text : Topic → PyStr
  | traceEvent => str "trace_event"
  | outcomeEvent => str "outcome_event"
  | memoryProposal => str "memory_proposal"

/-- A timezone-aware `datetime`: its instant and its `isoformat()`. -/
structure Moment where
  instant : ℤ
  isoformat : PyStr

/-- `AuthorizedQueueWrite`, with the mapping its payload is written as. -/
structure AuthorizedQueueWrite where
  topic : Topic
  runId : UUID
  payload : Dict
  priority : ℤ
  availableAt : Option Moment

/-- `ProjectRole`. -/
inductive ProjectRole where
  | admin | data | erasureRequest | exports | feedback
  deriving DecidableEq, Repr

/-- `FeedbackSource`. -/
inductive FeedbackSource where
  | verdict | correctionAdapter | downstream
  deriving DecidableEq, Repr

/-- `GrantBinding`. -/
structure GrantBinding where
  grantId : UUID
  role : ProjectRole
  feedbackSource : Option FeedbackSource
  deriving DecidableEq

/-- `AccessContext`. -/
structure AccessContext where
  projectId : UUID
  agentTypeId : UUID
  principalId : UUID
  grants : List GrantBinding

/-- `AccessContext.grant_for`. -/
def AccessContext.grantFor (access : AccessContext) (role : ProjectRole) : Option GrantBinding :=
  access.grants.find? (·.role = role)

/-- The limits of `queue.admission` that are checked before the database is. -/
structure AdmissionLimits where
  maxItemBytes : ℕ
  maxBatchItems : ℕ
  maxBatchBytes : ℕ

/-- The domain errors of an admission. -/
inductive QueueError where
  | authorizationDenied | runAuthorityDenied | erasureFenced | queueFull | tracebedError
  | activityBusy | projectInactive
  deriving DecidableEq, Repr

/-- What an admission raises: a `ValueError` before the database is asked, or a domain
error. -/
inductive BatchError where
  | valueError
  | domain (e : QueueError)
  deriving DecidableEq, Repr

/-! ### Checks before the database -/

/-- `MAX_AUTHORIZED_QUEUE_BATCH`. -/
def maxAuthorizedQueueBatch : ℕ := 500

def Topic.requiredRole : Topic → ProjectRole
  | traceEvent => .data
  | memoryProposal => .data
  | outcomeEvent => .feedback

/-- `AuthorizedQueuePlan`, as far as it is read. -/
structure AuthorizedQueuePlan where
  topic : Topic
  requiredRole : ProjectRole
  grant : GrantBinding

/-- `plan_authorized_enqueue`. -/
def planAuthorizedEnqueue (access : AccessContext) (writes : List AuthorizedQueueWrite) :
    Except BatchError AuthorizedQueuePlan := do
  ensure (writes.length ≤ maxAuthorizedQueueBatch) .valueError
  let first ← orThrow writes.head? .valueError
  ensure (writes.all (·.topic = first.topic)) .valueError
  ensure (first.topic = .traceEvent || writes.length = 1) .valueError
  let grant ← orThrow (access.grantFor first.topic.requiredRole) (.domain .authorizationDenied)
  return ⟨first.topic, first.topic.requiredRole, grant⟩

/-- The envelope a write is measured in. -/
def envelope (write : AuthorizedQueueWrite) : Json :=
  .obj [(str "topic", .str write.topic.text), (str "run_id", .str write.runId.str),
    (str "payload", .obj write.payload), (str "priority", .int write.priority),
    (str "available_at", (write.availableAt.map fun t => Json.str t.isoformat).getD .null)]

/-- `_compact_json_bytes`; `none` is the `ValueError`. -/
def compactJsonBytes (value : Json) : Option Bytes :=
  (Json.dumps ⟨false, true, false⟩ value).bind utf8Encode

/-- A value that fits into some bytes. -/
def fits (limit : ℕ) (value : Json) : Bool :=
  (compactJsonBytes value).any (·.length ≤ limit)

/-- `_measure_writes`. -/
def measureWrites (limits : AdmissionLimits) (writes : List AuthorizedQueueWrite) :
    Except BatchError Unit := do
  ensure (writes.all fun w => fits limits.maxItemBytes (envelope w)) .valueError
  ensure (writes.length ≤ limits.maxBatchItems) .valueError
  ensure (fits limits.maxBatchBytes (.arr (writes.map envelope))) .valueError

def inRunOrder (writes : List AuthorizedQueueWrite) : List AuthorizedQueueWrite :=
  StableSort.sortByKey (fun w => w.runId.int.toNat) writes

/-! ### The boundary -/

variable {δ : Type}

/-- The calls of an admission. A call of the routine has the database its transaction sees. -/
inductive QueueCall (δ : Type) where
  | shared (project : UUID)
  | execute (db : δ) (access : AccessContext) (grant : GrantBinding)
      (write : AuthorizedQueueWrite) (availableAt : Moment) (enqueue : Bool)

/-- A row of `tracebed_enqueue_authorized`, with the database after it. -/
structure Reply (δ : Type) where
  queueId : Option ℤ
  writable : Bool
  db : δ

@[reducible] def QueueCall.Result : QueueCall δ → Type
  | shared _ => Unit
  | execute .. => Reply δ

/-- What a session did: the database it left, the rows it inserted and the writes whose
containment it recorded. -/
structure Work (δ : Type) where
  db : δ
  rows : List (AuthorizedQueueWrite × ℤ)
  contained : List AuthorizedQueueWrite

/-- A routine of an admission. -/
abbrev Producer (δ : Type) := Routine (QueueCall δ) QueueCall.Result QueueError (Session (Work δ))

/-- A call of the boundary. -/
def ask (c : QueueCall δ) : Producer δ c.Result := perform c

/-- The work after a reply: a writable write is inserted where that was asked for, one that is
not writable is contained. -/
def Work.after (work : Work δ) (write : AuthorizedQueueWrite) (enqueue : Bool)
    (reply : Reply δ) : Work δ where
  db := reply.db
  rows :=
    match reply.queueId with
    | some id => if enqueue && reply.writable then work.rows ++ [(write, id)] else work.rows
    | none => work.rows
  contained := if reply.writable then work.contained else work.contained ++ [write]

/-! ### The two passes -/

section Admission

variable (access : AccessContext) (now : Moment) (grant : GrantBinding)

variable (write : AuthorizedQueueWrite)

/-- `_call_authorized_enqueue`. -/
def callAuthorizedEnqueue (enqueue : Bool) : Producer δ (Reply δ) := do
  let session ← get
  let reply ← ask (.execute session.working.db access grant write
    (write.availableAt.getD now) enqueue)
  work fun w => w.after write enqueue reply
  return reply

variable (role : ProjectRole)

def grantFor : Producer δ GrantBinding :=
  match access.grantFor role with
  | some grant => pure grant
  | none => throw .authorizationDenied

/-- A write asked under its savepoint. The source leaves the block of a writable write with a
private exception, so that it is rolled back, and goes on. -/
def preflight : Producer δ (Except QueueError (Reply δ)) :=
  savepoint (fun reply => !reply.writable) (callAuthorizedEnqueue access now grant write false)

def errorOf : Except QueueError (Reply δ) → Option QueueError
  | .ok _ => none
  | .error e => some e

/-- The preflight found the run not writable. -/
def isFenced : Except QueueError (Reply δ) → Bool
  | .ok reply => !reply.writable
  | .error _ => false

/-- What the first pass found: the first error, and whether a write is fenced. -/
structure Findings where
  error : Option QueueError
  fenced : Bool

/-- One write of the first pass. -/
def preflightNext (found : Findings) (write : AuthorizedQueueWrite) : Producer δ Findings := do
  let answer ← preflight access now grant write
  return ⟨found.error <|> errorOf answer, found.fenced || isFenced answer⟩

variable (writes : List AuthorizedQueueWrite)

/-- The first pass. -/
def preflightAll : Producer δ Findings :=
  transaction do
    let grant ← grantFor access role
    writes.foldlM (preflightNext access now grant) ⟨none, false⟩

/-- What the second pass has so far. -/
structure Progress where
  ids : List ℤ
  fenced : Bool
  error : Option QueueError

/-- One write of the second pass: inserted, or, once a write was fenced, asked like in the
first. -/
def enqueueNext (s : Progress) (write : AuthorizedQueueWrite) : Producer δ Progress :=
  if s.fenced then do
    let answer ← preflight access now grant write
    return { s with error := s.error <|> errorOf answer }
  else do
    let reply ← callAuthorizedEnqueue access now grant write true
    if !reply.writable then
      if s.ids.isEmpty then return { s with fenced := true } else throw .tracebedError
    else
      match reply.queueId with
      | some id => return { s with ids := s.ids ++ [id] }
      | none => throw .tracebedError

/-- The second pass. -/
def enqueueAll : Producer δ Progress :=
  transaction do
    let grant ← grantFor access role
    writes.foldlM (enqueueNext access now grant) ⟨[], false, none⟩

/-- An error that was kept until its transaction was over. -/
def raiseKept (error : Option QueueError) (fenced : Bool) : Producer δ Unit :=
  match error with
  | some e => throw e
  | none => if fenced then throw .erasureFenced else pure ()

/-- The admission of writes that passed the checks. -/
def enqueueOrdered : Producer δ (List ℤ) := do
  ask (.shared access.projectId)
  let found ← preflightAll access now role writes
  raiseKept found.error found.fenced
  let s ← enqueueAll access now role writes
  raiseKept s.error s.fenced
  return s.ids

end Admission

/-- `AuthorizedWorkQueue.enqueue_many_authorized`. The clock may have no timezone. -/
def enqueueManyAuthorized (limits : AdmissionLimits) (now : Option Moment)
    (access : AccessContext) (writes : List AuthorizedQueueWrite) :
    Except BatchError (Producer δ (List ℤ)) := do
  let plan ← planAuthorizedEnqueue access writes
  measureWrites limits writes
  let now ← orThrow now .valueError
  return enqueueOrdered access now plan.requiredRole (inRunOrder writes)

/-! ### Running an admission -/

/-- The calls of an admission with their answers. -/
abbrev Trace (δ : Type) := History (QueueCall δ) QueueCall.Result QueueError

/-- What an admission comes to: its result, what it committed, and its calls. -/
structure Admission (δ : Type) where
  result : Option (Except BatchError (List ℤ))
  committed : Work δ
  trace : Trace δ

/-- The admission of a batch against an environment, in a session that did nothing yet. -/
def runBatch (limits : AdmissionLimits) (now : Option Moment) {σ : Type}
    (env : σ → (c : QueueCall δ) → Except QueueError c.Result × σ) (s : σ) (db : δ)
    (access : AccessContext) (writes : List AuthorizedQueueWrite) : Admission δ :=
  match enqueueManyAuthorized limits now access writes with
  | .error e => ⟨some (.error e), ⟨db, [], []⟩, []⟩
  | .ok routine =>
    let run := exec env (routine (.start ⟨db, [], []⟩)) s
    match run.outcome with
    | none => ⟨none, ⟨db, [], []⟩, run.trace⟩
    | some (result, session) => ⟨some (result.mapError .domain), session.committed, run.trace⟩

end Tracebed.Queue
