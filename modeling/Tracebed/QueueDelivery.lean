import Tracebed.AuthorizedQueue
import Tracebed.Lib.Delivery
import Tracebed.Lib.Runs
import Tracebed.Lib.Table

/-!
# The Worker Side of the Queue

`tracebed_worker_queue_claim` leases rows of `work_queue` to a worker, and
`tracebed_worker_queue_disposition` ends a lease: the worker acknowledges the row, gives it back
or rejects it, and names the generation it was handed. What workers say is kept in a log, next to
the two tables. What other transactions do to the rows of a call is an argument of it: rows they
have locked are skipped, and a row of a project that is fenced meanwhile is left alone.
-/

open Py Fallible Table

namespace Tracebed.Queue

variable {β : Type}

/-! ### Rows -/

/-- A row of `work_queue`. The columns that the routines only carry are its body. Timestamps are
in microseconds. -/
structure QueueRow (β : Type) where
  id : ℕ
  projectId : UUID
  topic : Topic
  priority : ℤ
  attempts : ℕ
  maxAttempts : ℕ
  availableAt : ℤ
  leaseExpiresAt : Option ℤ
  body : β

/-- A row of `dead_letter`. -/
structure DeadRow (β : Type) where
  row : QueueRow β
  failedAt : ℤ
  lastError : Option PyStr

/-- The two tables, with the sequence of the identifiers, the projects that an erasure request
fences and the time at the server. -/
structure QueueStore (β : Type) where
  queue : List (QueueRow β)
  dead : List (DeadRow β)
  nextId : ℕ
  fenced : UUID → Bool
  now : ℤ

/-- The row is of the generation of a candidate. -/
def isGeneration (c row : QueueRow β) : Bool :=
  row.id = c.id && row.attempts = c.attempts && row.leaseExpiresAt = c.leaseExpiresAt

variable (c : QueueRow β)

/-- `DELETE` of a candidate. -/
def QueueStore.remove (s : QueueStore β) : QueueStore β :=
  { s with queue := s.queue.filter fun row => !isGeneration c row }

/-- `DELETE ... INSERT INTO dead_letter` of a candidate. -/
def QueueStore.bury (reason : Option PyStr) (s : QueueStore β) : QueueStore β :=
  { s.remove c with dead := s.dead ++ [⟨c, s.now, reason⟩] }

/-- `UPDATE` of a candidate. -/
def QueueStore.rewrite (f : QueueRow β → QueueRow β) (s : QueueStore β) : QueueStore β :=
  { s with queue := updateWhere (isGeneration c) f s.queue }

/-! ### Claims -/

/-- The longest lease and the longest backoff, 24 hours. -/
def maxInterval : ℤ := 86400000000

/-- The arguments of a claim, with what other transactions do meanwhile. -/
structure ClaimCall where
  topic : Topic
  lease : ℤ
  limit : ℤ
  locked : ℕ → Bool
  raced : ℕ → Bool

variable (call : ClaimCall)

/-- The arguments a claim accepts. -/
def ClaimCall.isValid : Bool :=
  (0 < call.lease && call.lease ≤ maxInterval) && (1 ≤ call.limit && call.limit ≤ 100)

variable (s : QueueStore β)

/-- The row may be claimed. -/
def isClaimable (topic : Topic) (row : QueueRow β) : Bool :=
  row.topic = topic && row.availableAt ≤ s.now && row.leaseExpiresAt.all (· < s.now) &&
    !s.fenced row.projectId

/-- `ORDER BY priority, id`. -/
def claimedBefore (a b : QueueRow β) : Prop :=
  a.priority < b.priority ∨ a.priority = b.priority ∧ a.id ≤ b.id

instance : DecidableRel (claimedBefore (β := β)) := fun a b =>
  inferInstanceAs (Decidable (a.priority < b.priority ∨ a.priority = b.priority ∧ a.id ≤ b.id))

def candidates : List (QueueRow β) :=
  ((s.queue.filter fun row => isClaimable s call.topic row && !call.locked row.id).insertionSort
    claimedBefore).take call.limit.toNat

/-- The row as it is handed out. -/
def QueueRow.leased (expiry : ℤ) (row : QueueRow β) : QueueRow β :=
  { row with attempts := row.attempts + 1, leaseExpiresAt := some expiry }

/-- One candidate: left alone where its project is fenced, buried where it was handed out too
often, leased otherwise. -/
def claimOne (c : QueueRow β) (s : QueueStore β) : List (QueueRow β) × QueueStore β :=
  if s.fenced c.projectId || call.raced c.id then ([], s)
  else if c.maxAttempts < c.attempts then
    ([], if s.queue.any (isGeneration c) then s.bury c (some (str "max_attempts_exceeded")) else s)
  else
    ((s.queue.filter (isGeneration c)).map (QueueRow.leased (s.now + call.lease)),
      s.rewrite c (QueueRow.leased (s.now + call.lease)))

/-- The loop of a claim, with the rows it has returned so far. -/
def claimAll (call : ClaimCall) :
    List (QueueRow β) → List (QueueRow β) → QueueStore β → List (QueueRow β) × QueueStore β
  | [], claimed, s => (claimed, s)
  | c :: rest, claimed, s =>
    let (rows, s) := claimOne call c s
    let claimed := claimed ++ rows
    if call.limit ≤ claimed.length then (claimed, s) else claimAll call rest claimed s

/-- `tracebed_worker_queue_claim`; `none` is the SQLSTATE 42501. -/
def claim : Option (List (QueueRow β) × QueueStore β) :=
  if call.isValid then some (claimAll call (candidates call s) [] s) else none

/-! ### Dispositions -/

/-- The generation a worker names. -/
structure Generation where
  id : ℤ
  attempts : ℤ
  leaseExpiresAt : Option ℤ

/-- What a worker asks for. -/
inductive Disposition where
  | ack | nack | reject
  deriving DecidableEq

/-- The arguments of a disposition, with whether the project is fenced meanwhile. An infinite
timestamp is refused like a missing one. -/
structure DisposeCall where
  generation : Generation
  action : Disposition
  backoff : Option ℤ
  reason : Option PyStr
  raced : Bool

def rejectionReasons : List PyStr :=
  ["malformed_authority", "malformed_business_payload", "authority_payload_shadow",
    "owner_conflict", "outcome_replay_conflict", "proposal_authority_conflict",
    "max_attempts_exceeded"].map str

/-- A generation that a row could have. -/
def Generation.isValid (g : Generation) : Bool :=
  1 ≤ g.id && 1 ≤ g.attempts && g.leaseExpiresAt.isSome

/-- The arguments a disposition accepts. A rejection may leave its reason out. -/
def DisposeCall.isValid (call : DisposeCall) : Bool :=
  call.generation.isValid &&
    match call.action with
    | .nack => call.backoff.any (fun b => 0 ≤ b && b ≤ maxInterval) && call.reason.isNone
    | .ack => call.backoff.isNone && call.reason.isNone
    | .reject => call.backoff.isNone && call.reason.all (· ∈ rejectionReasons)

/-- The row is of the generation that is named. -/
def isNamed (g : Generation) (row : QueueRow β) : Bool :=
  row.id = g.id && row.attempts = g.attempts && row.leaseExpiresAt = g.leaseExpiresAt

/-- The row as it is given back. -/
def QueueRow.released (availableAt : ℤ) (row : QueueRow β) : QueueRow β :=
  { row with availableAt := availableAt, leaseExpiresAt := none }

/-- The disposition of the row that was named. -/
def dispose (call : DisposeCall) (c : QueueRow β) (s : QueueStore β) : Bool × QueueStore β :=
  let found := s.queue.any (isGeneration c)
  match call.action with
  | .ack => (found, s.remove c)
  | .nack => (found, s.rewrite c (QueueRow.released (s.now + call.backoff.getD 0)))
  | .reject => if found then (true, s.bury c call.reason) else (false, s)

/-- `tracebed_worker_queue_disposition`; `none` is the SQLSTATE 42501. -/
def disposition (call : DisposeCall) (s : QueueStore β) : Option (Bool × QueueStore β) :=
  if call.isValid then
    some <| match s.queue.find? (isNamed call.generation) with
      | none => (false, s)
      | some c => if s.fenced c.projectId || call.raced then (false, s) else dispose call c s
  else none

/-! ### Runs -/

/-- What happens to the queue: a row is enqueued, a worker calls, time passes, or the fences of
the projects change. -/
inductive QueueAction (β : Type) where
  | enqueue (projectId : UUID) (topic : Topic) (priority : ℤ) (maxAttempts : ℕ) (availableAt : ℤ)
      (body : β)
  | claim (call : ClaimCall)
  | dispose (call : DisposeCall)
  | pass (time : ℕ)
  | fence (fenced : UUID → Bool)

/-- What is put into the log. -/
inductive QueueEvent (β : Type) where
  | enqueued (row : QueueRow β)
  | claimed (rows : List (QueueRow β))
  | disposed (call : DisposeCall) (answer : Bool)
  | denied

/-- The tables with the log of the calls and their answers. -/
structure QueueWorld (β : Type) where
  store : QueueStore β
  log : List (QueueEvent β)

def newRow (projectId : UUID) (topic : Topic) (priority : ℤ) (maxAttempts : ℕ) (availableAt : ℤ)
    (body : β) : QueueRow β :=
  ⟨s.nextId, projectId, topic, priority, 0, maxAttempts, availableAt, none, body⟩

/-- The event of an action and the tables after it. -/
def QueueStore.perform : QueueAction β → Option (QueueEvent β) × QueueStore β
  | .enqueue projectId topic priority maxAttempts availableAt body =>
    let row := newRow s projectId topic priority maxAttempts availableAt body
    (some (.enqueued row), { s with queue := s.queue ++ [row], nextId := s.nextId + 1 })
  | .claim call =>
    match Queue.claim call s with
    | some (rows, s) => (some (.claimed rows), s)
    | none => (some .denied, s)
  | .dispose call =>
    match disposition call s with
    | some (answer, s) => (some (.disposed call answer), s)
    | none => (some .denied, s)
  | .pass time => (none, { s with now := s.now + time })
  | .fence fenced => (none, { s with fenced := fenced })

/-- The world after an action. -/
def QueueWorld.step (w : QueueWorld β) (a : QueueAction β) : QueueWorld β where
  store := (w.store.perform a).2
  log := w.log ++ (w.store.perform a).1.toList

/-- The world before anything was enqueued. -/
def QueueWorld.start (fenced : UUID → Bool) (now : ℤ) : QueueWorld β :=
  ⟨⟨[], [], 1, fenced, now⟩, []⟩

end Tracebed.Queue
