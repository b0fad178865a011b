import Tracebed.ErasureSchema

/-!
# Leases on an Erasure Request

The routines that move a request between workers without touching what is erased: claim,
renew, release, fail and the operator's resume. None of them takes the project lock; each
locks the request row and writes nothing but that row and a receipt.
-/

open Py Fallible

namespace Tracebed.Erasure

variable (C : Cluster)

/-- Microseconds of a lease or a delay given in seconds. -/
def seconds (n : ℕ) : ℕ := n * 1000000

/-- What a claim hands to the worker: a row of `tracebed_erasure_claim_next`. -/
structure Claim where
  projectId : UUID
  requestId : UUID
  scope : Scope
  phase : Phase
  generation : ℕ
  leaseToken : UUID
  leaseExpiresAt : ℕ
  closureRevision : ℕ
  deriving DecidableEq

/-- The arguments of a claim that the worker chooses, and the token the server draws. -/
structure ClaimArguments where
  owner : PyStr
  leaseSeconds : ℕ
  manifest : List StoreCode
  newToken : UUID

variable (args : ClaimArguments) (now : ℕ) (q : RequestRow) (db : Database)

/-- A claim passes this request by: it is finished, blocked, waiting or held. -/
def isUnavailable (now : ℕ) : Bool :=
  q.phase = .scopeComplete ||
    match q.disposition with
    | .active => q.lease.any (now < ·.expiresAt)
    | .retryWait notBefore => now < notBefore
    | .operatorBlocked => true
    | .scopeComplete => false

def ClaimArguments.isValid : Bool :=
  ownerIsValid args.owner && (30 ≤ args.leaseSeconds && args.leaseSeconds ≤ 900) &&
    manifestIsValid args.manifest

/-- The request started under another manifest than the worker's. -/
def manifestDiffers (args : ClaimArguments) : Bool :=
  q.firstStartedAt.isSome && (q.storeManifest ≠ args.manifest ||
    q.storeManifestDigest ≠ some (manifestDigest C args.manifest))

/-- The request as a successful claim leaves it. -/
def claimed : RequestRow :=
  { q with
    generation := q.generation + 1
    lease := some ⟨args.newToken, args.owner, now + seconds args.leaseSeconds⟩
    disposition := .active
    firstStartedAt := some (q.firstStartedAt.getD now)
    storeManifest := if q.firstStartedAt.isNone then args.manifest else q.storeManifest
    storeManifestDigest :=
      if q.firstStartedAt.isNone then some (manifestDigest C args.manifest)
      else q.storeManifestDigest }

variable (request : UUID)

/-- `tracebed_erasure_claim_selected`. A worker with another manifest blocks the request
instead of claiming it. -/
def claimSelected (args : ClaimArguments) (now : ℕ) (db : Database) :
    Except SqlState (Option Claim × Database) := do
  ensure args.isValid .P0010
  match db.requests.find? (·.requestId = request) with
  | none => return (none, db)
  | some q =>
    if isUnavailable q now then
      return (none, db)
    else if manifestDiffers C q args then
      return (none, db.updateRequest q.projectId q.requestId fun q =>
        { q with disposition := .operatorBlocked, lease := none })
    else
      let held := claimed C args now q
      return (some ⟨q.projectId, q.requestId, q.scope, q.phase, held.generation, args.newToken,
          now + seconds args.leaseSeconds, q.closureRevision⟩,
        db.updateRequest q.projectId q.requestId (claimed C args now))

/-- `tracebed_erasure_claim_request`. -/
def claimRequest (args : ClaimArguments) (now : ℕ) (db : Database) :
    Except SqlState (Option Claim × Database) := claimSelected C request args now db

/-- The request takes part in `tracebed_erasure_claim_next`. -/
def isClaimable : Bool :=
  q.phase ≠ .requested && !isUnavailable q now && q.disposition ≠ .scopeComplete

/-- `COALESCE(retry_not_before, requested_at)`. -/
def due : ℕ :=
  match q.disposition with
  | .retryWait notBefore => notBefore
  | _ => q.requestedAt

/-- The order in which claimable requests are served: by retry or request time, then by
request time, then by identifier. -/
def servedBefore (a b : RequestRow) : Prop :=
  due a < due b ∨ due a = due b ∧ (a.requestedAt < b.requestedAt ∨
    a.requestedAt = b.requestedAt ∧ uuidLe a.requestId b.requestId)

instance : DecidableRel servedBefore := fun a b =>
  inferInstanceAs (Decidable (due a < due b ∨ due a = due b ∧ (a.requestedAt < b.requestedAt ∨
    a.requestedAt = b.requestedAt ∧ uuidLe a.requestId b.requestId)))

/-- `tracebed_erasure_claim_next`. -/
def claimNext : Except SqlState (Option Claim × Database) := do
  ensure args.isValid .P0010
  match ((db.requests.filter (isClaimable now)).insertionSort servedBefore).head? with
  | none => return (none, db)
  | some q => claimSelected C q.requestId args now db

variable (c : Credential)

/-- `tracebed_erasure_renew`. -/
def renew (leaseSeconds now : ℕ) (db : Database) : Except SqlState (ℕ × Database) := do
  ensure (30 ≤ leaseSeconds && leaseSeconds ≤ 900) .P0010
  let q ← assertLease c now db
  let expiry := now + seconds leaseSeconds
  return (expiry, db.updateRequest q.projectId q.requestId fun q =>
    { q with lease := q.lease.map fun l => { l with expiresAt := expiry } })

/-- `tracebed_erasure_release`. -/
def release (now : ℕ) (db : Database) : Except SqlState (Unit × Database) := do
  let q ← assertLease c now db
  return ((), db.updateRequest q.projectId q.requestId fun q => { q with lease := none })

/-- What a worker reports with `tracebed_erasure_fail`. -/
structure FailureReport where
  step : StepCode
  result : StepResult
  resultCode : ResultCode
  affectedRows : ℕ
  postconditionDigest : Digest

variable (report : FailureReport)

def FailureReport.isValid : Bool :=
  report.step ≠ .fence && report.result ≠ .succeeded && report.resultCode.isFailure &&
    report.postconditionDigest.length = 32

/-- The delay before the next attempt, doubled with every retry up to an hour. -/
def retryDelay (retryCount : ℕ) : ℕ := min 3600 (5 * 2 ^ min retryCount 9)

/-- The request after a reported failure: waiting for its retry, or for an operator. -/
def failed (now : ℕ) (q : RequestRow) : RequestRow :=
  if report.result = .retryable then
    { q with disposition := .retryWait (now + seconds (retryDelay q.retryCount)),
             retryCount := q.retryCount + 1, lease := none }
  else
    { q with disposition := .operatorBlocked, lease := none }

/-- `tracebed_erasure_fail`. -/
def fail (now : ℕ) (db : Database) : Except SqlState (Unit × Database) := do
  let q ← assertLease c now db
  ensure report.isValid .P0010
  let (_, db) ← appendReceipt C q.projectId q.requestId c.generation now
    ⟨report.step, report.result, report.resultCode, report.affectedRows, q.closureRevision,
      report.postconditionDigest⟩ db
  return ((), db.updateRequest q.projectId q.requestId (failed report now))

/-- `tracebed_erasure_resume_blocked` with the code `operator_resumed`. -/
def resumeBlocked (now : ℕ) (db : Database) : Except SqlState (Unit × Database) := do
  let q ← orThrow (db.requests.find? (·.requestId = request)) .P0013
  ensure (q.disposition = .operatorBlocked && q.phase ≠ .scopeComplete && 1 ≤ q.generation &&
    1 ≤ q.closureRevision) .P0013
  let db := db.updateRequest q.projectId q.requestId fun q => { q with disposition := .active }
  let digest := C.sha256 (ascii "tracebed.erasure-resume/v1" ++ q.projectId.bytes ++
    q.requestId.bytes ++ toBytesBE 8 q.closureRevision ++ toBytesBE 4 q.generation)
  let (_, db) ← appendReceipt C q.projectId q.requestId q.generation now
    ⟨.queue, .succeeded, .operatorResumed, 0, q.closureRevision, digest⟩ db
  return ((), db)

end Tracebed.Erasure
