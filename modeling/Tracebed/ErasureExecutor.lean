import Tracebed.ErasureStores
import Tracebed.Lib.Interaction

/-!
# The Erasure Executor

`ErasureExecutor._run` carries one claimed request through its saga. Everything it does is a call
of the database port, of a store or of the clock, in an order that depends on what was answered
before; here it is a routine over these calls, so that nothing is assumed about the answers.
Locals are the lease as the executor knows it, the step a failure would be reported under, and
the time of the next heartbeat. An adapter of a store asks for its progress hook before any of
its pages; `page` is that question.
-/

open Py Interaction Routine

namespace Tracebed.Erasure

/-! ### Ports -/

/-- What the executor's ports raise: the domain errors it tells apart, any other domain error,
and an exception that is none. A block has the code of the executor's own signal, if it is one. -/
inductive ExecutorError where
  | leaseLost
  | closureChanged
  | operatorBlocked (code : Option ResultCode)
  | dependencyTimeout
  | tracebedError
  | exception
  deriving DecidableEq, Repr

/-- `StepOutcome`. -/
abbrev StepOutcome := CryptoOutcome

/-- An operation of a store. -/
inductive StoreOp where
  | erase (code : StoreCode) (project : UUID) (target : Target)
  | verifyAbsent (code : StoreCode) (project : UUID) (target : Target)
  deriving DecidableEq

/-- The calls of the executor. The owner of the lease is the same in all of them. -/
inductive PortCall where
  | now
  | renew (lease : Claim)
  | cryptoStep (lease : Claim)
  | traceRefsBatch (lease : Claim) (revision : ℕ) (after : Option (UUID × PyStr)) (limit : ℕ)
  | sealTraceManifest (lease : Claim) (revision count : ℕ) (digest : Digest)
  | preparePrimary (lease : Claim)
  | primaryBatch (lease : Claim) (limit : ℕ)
  | externalWorkBatch (lease : Claim) (code : StoreCode) (limit : ℕ)
  | markExternalWork (lease : Claim) (work : WorkItem) (result : StoreProof)
  | closeExternalStep (lease : Claim) (code : StoreCode) (targetCount : ℕ) (result : StoreProof)
  | verifyAndComplete (lease : Claim)
  | fail (lease : Claim) (step : StepCode) (result : StepResult) (code : ResultCode)
  | validateManifestRef (project run : UUID) (payloadRef : PyStr)
  | page (op : StoreOp)
  | store (op : StoreOp)

/-- What a call returns. An operation of a store may return something that is no
`StoreResult`. -/
@[reducible] def PortCall.Result : PortCall → Type
  | now => ℚ
  | renew _ => Unit
  | cryptoStep _ => StepOutcome
  | traceRefsBatch .. => List (UUID × PyStr)
  | sealTraceManifest .. => Unit
  | preparePrimary _ => StepOutcome
  | primaryBatch .. => BatchOutcome
  | externalWorkBatch .. => List WorkItem
  | markExternalWork .. => Unit
  | closeExternalStep .. => StepOutcome
  | verifyAndComplete _ => StepOutcome
  | fail .. => Unit
  | validateManifestRef .. => Bytes
  | page _ => Bool
  | store _ => Option StoreProof

/-- The methods an adapter of a store has. -/
structure StorePort where
  validateManifestRef : Bool
  eraseRun : Bool
  verifyRunAbsent : Bool
  eraseProject : Bool
  verifyProjectAbsent : Bool
  deriving DecidableEq

/-- The configuration of an `ErasureExecutor`. -/
structure Executor where
  manifest : List StoreCode
  heartbeatSeconds : ℕ
  batchSize : ℕ
  stores : StoreCode → Option StorePort
  sha256 : Bytes → Bytes

/-- The variables of `_run` that outlive an exception in its `try` block, and the heartbeat's. -/
structure Locals where
  lease : Claim
  failureStep : StepCode
  next : ℚ

abbrev Exec := Routine PortCall PortCall.Result ExecutorError Locals

/-- A call of a port. -/
def ask (c : PortCall) : Exec c.Result := perform c

namespace Executor

variable (x : Executor) (fuel : ℕ) (held : Claim)

/-! ### Heartbeat -/

/-- A renewal that fails with a domain error is a lost lease. -/
def lostLease : ExecutorError → ExecutorError
  | .exception => .exception
  | _ => .leaseLost

/-- The time of the next renewal, from now. -/
def schedule : Exec Unit := do
  let now : ℚ ← ask .now
  modify fun l => { l with next := now + x.heartbeatSeconds }

/-- The renewal of a heartbeat that is due. -/
def renewLease : Exec Unit := do
  tryCatch (ask (.renew held)) fun e => throw (lostLease e)
  x.schedule

/-- `_Heartbeat.before_side_effect`. The heartbeat has the lease the run began with. -/
def beforeSideEffect : Exec Unit := do
  let now : ℚ ← ask .now
  let l ← get
  if now < l.next then pure () else x.renewLease held

/-! ### Stores -/

/-- `_call_store`: the operation asks for the heartbeat before its pages. -/
def callStore (op : StoreOp) : Exec (Option StoreProof) :=
  loop fuel (fun _ : Unit => do
    let asks : Bool ← ask (.page op)
    if asks then
      x.beforeSideEffect held
      pure (.inl ())
    else
      let result ← ask (.store op)
      pure (.inr result)) ()

/-- The result of an operation must be a `StoreResult`. -/
def storeResult (op : StoreOp) : Exec StoreProof := do
  let result ← x.callStore fuel held op
  match result with
  | some result => pure result
  | none => throw (.operatorBlocked none)

variable (port : StorePort)

/-- The adapter has the methods that delete and verify a target. -/
def StorePort.erases : Target → Bool
  | .run _ => port.eraseRun && port.verifyRunAbsent
  | .project => port.eraseProject && port.verifyProjectAbsent

/-- `_delete_and_verify`. -/
def deleteAndVerify (project : UUID) (code : StoreCode) (target : Target) : Exec StoreProof :=
  if StorePort.erases port target then do
    let _ ← x.storeResult fuel held (.erase code project target)
    x.beforeSideEffect held
    x.storeResult fuel held (.verifyAbsent code project target)
  else throw (.operatorBlocked none)

/-- `_verify_project_zero`. -/
def verifyProjectZero (project : UUID) (code : StoreCode) : Exec StoreProof :=
  if port.verifyProjectAbsent then x.storeResult fuel held (.verifyAbsent code project .project)
  else throw (.operatorBlocked none)

/-! ### The trace manifest -/

/-- The progress of sealing: the last reference, how many there were, and the bytes hashed. -/
structure SealState where
  after : Option (UUID × PyStr)
  count : ℕ
  hashed : Bytes

variable (lease : Claim)

/-- One reference of a page, validated and hashed. -/
def sealRef (s : SealState) (ref : UUID × PyStr) : Exec SealState := do
  x.beforeSideEffect held
  let frame ← tryCatch (ask (.validateManifestRef lease.projectId ref.1 ref.2)) fun _ =>
    throw (.operatorBlocked (some .unsafePath))
  if frame.isEmpty then throw (.operatorBlocked (some .integrityFailed))
  else pure ⟨some ref, s.count + 1, s.hashed ++ toBytesBE 8 frame.length ++ frame⟩

def sealPage (s : SealState) : Exec (SealState ⊕ SealState) := do
  x.beforeSideEffect held
  let refs ← ask (.traceRefsBatch lease lease.closureRevision s.after x.batchSize)
  if refs.isEmpty then pure (.inr s)
  else
    let s ← refs.foldlM (x.sealRef held lease) s
    if refs.length < x.batchSize then pure (.inr s) else pure (.inl s)

/-- The configured trace store, which has to validate references. -/
def tracePort : Option StorePort :=
  (x.stores .traceFsV1).or (x.stores .traceS3V1)

/-- What the hash of a manifest starts with. -/
def manifestDomain : Bytes := ascii "tracebed.erasure-trace-manifest/v1" ++ [0x00]

/-- `_seal_trace_manifest`. -/
def sealTraceManifest : Exec Unit :=
  if x.tracePort.any (·.validateManifestRef) then do
    let s ← loop fuel (x.sealPage held lease) ⟨none, 0, manifestDomain⟩
    ask (.sealTraceManifest lease lease.closureRevision s.count (x.sha256 s.hashed))
  else throw (.operatorBlocked (some .configurationMismatch))

/-! ### The external pass -/

/-- The progress in one store: the marked targets and their aggregate digest. -/
structure StoreState where
  total : ℕ
  aggregate : Digest

variable (code : StoreCode)

/-- One piece of work deleted, verified and marked. -/
def eraseWork (port : StorePort) (s : StoreState) (work : WorkItem) : Exec StoreState := do
  x.beforeSideEffect held
  let result ← x.deleteAndVerify fuel held port lease.projectId code work.target
  x.beforeSideEffect held
  ask (.markExternalWork lease work result)
  pure ⟨s.total + 1, x.sha256 (s.aggregate ++ result.postconditionDigest)⟩

def eraseBatch (port : StorePort) (s : StoreState) : Exec (StoreState ⊕ StoreState) := do
  x.beforeSideEffect held
  let batch ← ask (.externalWorkBatch lease code x.batchSize)
  if batch.isEmpty then pure (.inr s)
  else
    let s ← batch.foldlM (x.eraseWork fuel held lease code port) s
    pure (.inl s)

/-- A trace store of a subject request is closed without a project-wide proof. -/
def closesByTargets : Bool :=
  code.isTrace && lease.scope ≠ .project

def closeProof (port : StorePort) (aggregate : Digest) : Exec StoreProof :=
  if closesByTargets lease code then
    pure ⟨.ok, 0, x.sha256 (ascii "tracebed.erasure-trace-targets/v1" ++ aggregate)⟩
  else x.verifyProjectZero fuel held port lease.projectId code

/-- The body of `_run_external_store`. -/
def eraseStore (port : StorePort) : Exec StepOutcome := do
  let s ← loop fuel (x.eraseBatch fuel held lease code port)
    ⟨0, x.sha256 (ascii "tracebed.erasure-store/v1:" ++ utf8 code.text)⟩
  x.beforeSideEffect held
  let proof ← x.closeProof fuel held lease code port s.aggregate
  ask (.closeExternalStep lease code s.total ⟨proof.resultCode, proof.affectedRows,
    x.sha256 (s.aggregate ++ proof.postconditionDigest)⟩)

/-- What leaves `_run_external_store`: a block, a lost lease and a timeout as they are,
everything else as an opaque domain error. -/
def wrapped : ExecutorError → ExecutorError
  | .operatorBlocked code => .operatorBlocked code
  | .leaseLost => .leaseLost
  | .dependencyTimeout => .dependencyTimeout
  | _ => .tracebedError

/-- `_run_external_store`. -/
def runExternalStore : Exec StepOutcome :=
  match x.stores code with
  | none => throw (.operatorBlocked (some .configurationMismatch))
  | some port => tryCatch (x.eraseStore fuel held lease code port) fun e => throw (wrapped e)

/-! ### The run -/

/-- `_at_revision`. -/
def atRevision (revision : ℕ) (phase : Phase) : Exec Unit :=
  match phase with
  | .cryptoErased | .primaryPurged | .externalPurged | .scopeComplete =>
    modify fun l => { l with
      lease := { l.lease with phase := phase, closureRevision := revision } }
  | _ => throw .leaseLost

/-- `failure_step = step`. -/
def reportUnder (step : StepCode) : Exec Unit := modify fun l => { l with failureStep := step }

/-- The crypto step of a fenced request. -/
def runCrypto : Exec Unit := do
  let l ← get
  if l.lease.phase = .fenced then
    reportUnder .crypto
    let outcome ← ask (.cryptoStep l.lease)
    atRevision outcome.closureRevision outcome.phase
  else pure ()

/-- One batch of the primary purge. -/
def purgeOnce (finished : Bool) : Exec (Unit ⊕ Unit) := do
  reportUnder .postgres
  x.beforeSideEffect held
  let l ← get
  let batch ← ask (.primaryBatch l.lease x.batchSize)
  if batch.remaining = 0 then
    atRevision batch.closureRevision (if finished then .externalPurged else .primaryPurged)
    pure (.inr ())
  else
    atRevision batch.closureRevision .primaryPurged
    pure (.inl ())

/-- The manifest sealed, the work prepared and the primary store purged. -/
def runPrimary : Exec Unit := do
  let l ← get
  if l.lease.phase = .cryptoErased ∨ l.lease.phase = .primaryPurged ∨
      l.lease.phase = .externalPurged then
    reportUnder .traceStore
    x.sealTraceManifest fuel held l.lease
    reportUnder .postgres
    let outcome ← ask (.preparePrimary l.lease)
    atRevision outcome.closureRevision outcome.phase
    let prepared ← get
    loop fuel (fun _ => x.purgeOnce held
      (prepared.lease.phase = .externalPurged && outcome.affectedRows = 0)) ()
  else pure ()

def runStore : Exec Unit := do
  reportUnder code.kind.receiptStep
  x.beforeSideEffect held
  let l ← get
  let outcome ← x.runExternalStore fuel held l.lease code
  atRevision outcome.closureRevision outcome.phase

/-- The stores of the manifest, where the external pass is due. -/
def runStores : Exec Unit := do
  let l ← get
  if l.lease.phase = .primaryPurged then x.manifest.forM (x.runStore fuel held) else pure ()

/-- The end of a run: completion, or the report of a phase that is out of place. -/
def finish : Exec StepOutcome := do
  let l ← get
  if l.lease.phase = .externalPurged then
    reportUnder .verify
    ask (.verifyAndComplete l.lease)
  else if l.lease.phase = .scopeComplete then
    pure ⟨.scopeComplete, 0, l.lease.closureRevision, .ok⟩
  else
    ask (.fail l.lease l.failureStep .retryable .closureChanged)
    throw .leaseLost

/-- The `try` block of `_run`. -/
def body : Exec StepOutcome := do
  runCrypto
  x.runPrimary fuel held
  x.runStores fuel held
  finish

/-- What is recorded for an error before it is raised again. -/
def report : ExecutorError → Option (StepResult × ResultCode)
  | .leaseLost => none
  | .closureChanged => some (.retryable, .closureChanged)
  | .operatorBlocked code => some (.blocked, code.getD .verificationFailed)
  | .dependencyTimeout => some (.retryable, .dependencyTimeout)
  | .tracebedError => some (.retryable, .dependencyUnavailable)
  | .exception => none

/-- The `except` clauses of `_run`. -/
def handler (e : ExecutorError) : Exec StepOutcome := do
  match report e with
  | some (result, code) =>
    let l ← get
    ask (.fail l.lease l.failureStep result code)
    throw e
  | none => throw e

/-- `ErasureExecutor._run`. -/
def run : Exec StepOutcome := do
  x.schedule
  tryCatch (x.body fuel held) handler

/-- The locals a run starts with. -/
def start : Locals := ⟨lease, .crypto, 0⟩

end Executor

end Tracebed.Erasure
