import Tracebed.Shred
import Tracebed.TraceIndex
import Tracebed.Lib.Runs

/-!
# The Trace Writer

`ingest/trace_writer.py`: a claimed batch is parsed, grouped by run, and each group is written in
one transaction: the run's owner is resolved, events of other principals are refused, events a
recorded sentinel closes off are rejected, duplicates are dropped, and what is new is sealed, put
into the object store and entered into the run's index row.

`Faults` is everything the environment decides during one transaction. An exception rolls back
the database; objects already put stay. The `archive` of a `Store` records which envelopes have
been committed, in order; no modelled function reads it.
-/

open Py

namespace Tracebed

variable {D : Type} (X : Pydantic D) (env : QueueEnvelope D) (existing : Option (TraceIndexRow D))
  (envs : List (QueueEnvelope D))

/-- The collaborators of a writer. -/
structure Writer (D : Type) where
  prims : Primitives
  unicode : UnicodeData
  pydantic : Pydantic D
  masterKey : Bytes
  driver : StoreDriver
  maxAttempts : ℕ

/-- An envelope and the queue item it came from. -/
abbrev Delivery (D : Type) := QueueEnvelope D × QueueItem

/-! ### Sections -/

/-- `_wire_line(seq, event)`. -/
def wireLine : Except PyError Bytes :=
  canonicalJson (.obj [(str "seq", .int env.seq), (str "event", env.event.dump X)])

/-- The section that starts with one event. -/
def openSection (line : Bytes) : PlainSection where
  seqFrom := env.seq
  seqTo := env.seq
  subjectTags := subjectTagsFor env.event
  lines := [line]

/-- The loop of `_build_sections`, with the section that is still open. -/
def buildSectionsFrom (X : Pydantic D) (current : PlainSection) :
    List (QueueEnvelope D) → Except PyError (List PlainSection)
  | [] => .ok [current]
  | env :: rest => do
      let line ← wireLine X env
      if subjectTagsFor env.event = current.subjectTags then
        buildSectionsFrom X
          { current with seqTo := env.seq, lines := current.lines ++ [line] } rest
      else
        let others ← buildSectionsFrom X (openSection env line) rest
        pure (current :: others)

/-- `_build_sections(envelopes)`. -/
def buildSections : List (QueueEnvelope D) → Except PyError (List PlainSection)
  | [] => .ok []
  | env :: rest => do
      let line ← wireLine X env
      buildSectionsFrom X (openSection env line) rest

def terminalRow (row : Option (TraceIndexRow D)) : Bool :=
  (row.map fun r => r.outcomeStatus.isTerminal).getD false

/-! ### Ownership -/

/-- `_RunOwner`. -/
structure RunOwner where
  principalId : PrincipalId
  agentTypeId : AgentTypeId
  deriving DecidableEq

/-- `min(envelopes, key=lambda e: e.seq)`: the first of the smallest. -/
def minBySeq : List (QueueEnvelope D) → Option (QueueEnvelope D)
  | [] => none
  | e :: rest =>
    match minBySeq rest with
    | none => some e
    | some m => if m.seq < e.seq then some m else some e

/-- `_resolve_owner(existing, envelopes)`. -/
def resolveOwner : Option RunOwner :=
  match existing with
  | some row => some ⟨row.submitterPrincipal, row.agentTypeId⟩
  | none =>
    let starts := envs.filter fun e => e.event.type = .runStart
    let candidates := if starts.isEmpty then envs else starts
    (minBySeq candidates).map fun e => ⟨e.principalId, e.agentTypeId⟩

/-- The test that accepts a delivery: its principal and agent type are the owner's, and so
are the ones the queue row persisted. -/
def ownedBy (owner : RunOwner) (d : Delivery D) : Bool :=
  d.1.principalId = owner.principalId && d.1.agentTypeId = owner.agentTypeId &&
    (d.2.authorityVersion = 0 ||
      (d.2.runOwnerPrincipalId = some owner.principalId &&
        d.2.runOwnerAgentTypeId = some owner.agentTypeId))

/-! ### Admission -/

/-- `existing.path or {}`. -/
def existingPath : Dict :=
  (existing.bind TraceIndexRow.path).getD []

/-- The recorded sequence set of a row. -/
def seenSeqs : RangeSet :=
  fromPath (Dict.get (existingPath existing) pathSeqRanges)

/-- `env.event.type == "run_end"`. -/
def isEnd : Bool := env.event.type = .runEnd

/-- The status a `run_end` reports. -/
def endStatus : Option RunEndStatus :=
  parseEndStatus (Dict.get env.event.payload (str "status"))

/-- `_sentinel_identity(env)`. -/
def sentinelIdentity : Except PyError (ℕ × Option RunEndStatus × Bytes) := do
  let canonical ← canonicalJson (env.event.dump X)
  pure (env.seq, endStatus env, canonical)

/-- `_admit_nonterminal_events(existing, envs)`, as the test that keeps an envelope. Every
branch of the source keeps or rejects an envelope by its own fields. -/
def admitNonterminalEvents : Except PyError (QueueEnvelope D → Bool) :=
  let path := existingPath existing
  match parseSeq (Dict.get path pathEndSeq) with
  | some existingEnd =>
    let existingStatus := parseEndStatus (Dict.get path pathEndStatus)
    .ok fun env => !(existingEnd < env.seq ||
      (isEnd env && (env.seq ≠ existingEnd || endStatus env ≠ existingStatus)))
  | none => do
      let ends := envs.filter isEnd
      let identities ← ends.mapM (sentinelIdentity X)
      match ends with
      | [] => pure fun _ => true
      | last :: _ =>
        if 1 < identities.dedup.length then pure fun env => !isEnd env
        else if (seenSeqs existing).hasAbove last.seq then
          pure fun env => !isEnd env && env.seq ≤ last.seq
        else pure fun env => env.seq < last.seq || (env.seq = last.seq && isEnd env)

/-! ### Writing a batch -/

/-- `by_seq.setdefault(env.seq, env)` over the batch: the first envelope of each sequence
number. -/
def firstPerSeq : List (QueueEnvelope D) → List (QueueEnvelope D)
  | [] => []
  | e :: rest => e :: (firstPerSeq rest).filter fun f => f.seq ≠ e.seq

/-- `new_envs`: the envelopes not recorded yet, in sequence order. -/
def newEnvs : List (QueueEnvelope D) :=
  ((firstPerSeq envs).insertionSort fun a b => a.seq ≤ b.seq).filter fun e =>
    !(seenSeqs existing).contains e.seq

variable (W : Writer D)

/-- `_identity_columns(...)`. -/
def identityColumns (owner : RunOwner) (existing : Option (TraceIndexRow D))
    (new : List (QueueEnvelope D)) : Except PyError (Bytes × Option D) :=
  match new.find? fun e => e.event.type = .runStart with
  | none => .ok ((existing.map TraceIndexRow.inputSignatureHash).getD absentSignature, none)
  | some start => do
      let features ← runStartFeatures W.prims W.unicode start
      let sig ← inputSignatureHash W.prims W.unicode owner.agentTypeId features.queryText
        features.workflowTemplate features.toolManifest
      pure (sig, some features.startedAt)

/-- The outcome of a run whose sentinel is at `endSeq`: its status, if it has one and every
sequence number up to the sentinel is recorded. -/
def settledOutcome (seen : RangeSet) (endSeq : ℕ) : Option RunEndStatus → TraceOutcomeStatus
  | none => .incomplete
  | some s => if seen.countUpto endSeq ≠ endSeq + 1 then .incomplete else .ofEnd s

def enterSentinel (path : Dict) (e : QueueEnvelope D) : Dict :=
  let path := Dict.set path pathEndSeq (.int e.seq)
  match endStatus e with
  | none => path
  | some s => Dict.set path pathEndStatus (.str s.text)

/-- `_resolve_completeness(...)`: the merged path with the sentinel entered, the outcome, and
the end time when this batch brought the sentinel. -/
def resolveCompleteness (path merged : Dict) (seen : RangeSet) (new : List (QueueEnvelope D)) :
    Dict × TraceOutcomeStatus × Option D :=
  match parseSeq (Dict.get path pathEndSeq) with
  | some endSeq =>
    (merged, settledOutcome seen endSeq (parseEndStatus (Dict.get path pathEndStatus)), none)
  | none =>
    match new.find? isEnd with
    | none => (merged, .pending, none)
    | some e =>
      (enterSentinel merged e, settledOutcome seen e.seq (endStatus e), some e.event.ts)

/-- The references recorded so far. -/
def priorRefs (path : Dict) : List Json :=
  match Dict.get path pathPayloadRefs with
  | .arr refs => refs
  | _ => []

/-- What the environment does during one transaction. -/
structure Faults where
  /-- The transaction cannot be opened. -/
  openTx : Option PyError
  /-- `get_trace_index` raises something other than `NotFound`. -/
  getIndex : Option PyError
  /-- `lock_erasure_snapshot`, or the legacy snapshot guard. -/
  snapshot : Except PyError (List Bytes)
  /-- The key manager raises before it encrypts. -/
  keys : Option PyError
  /-- The bytes `os.urandom` returns. -/
  tape : Tape
  /-- `store.put` raises: before or after the object became durable. -/
  put : Option (Bool × PyError)
  /-- `upsert_trace_index` raises. -/
  upsert : Option PyError
  /-- `schedule_trace_learning_job` raises. -/
  schedule : Option PyError
  /-- The commit raises: rolled back, or committed with the reply lost. -/
  commit : Option (Bool × PyError)

/-- An exception of the environment. -/
def raising (fault : Option PyError) : Except PyError Unit :=
  match fault with
  | none => .ok ()
  | some e => .error e

/-- The state the transactions of one run read and write. -/
structure Store (D : Type) where
  row : Option (TraceIndexRow D)
  jobs : List (LearningJob D)
  keys : KeyTable D
  objects : ℕ → Option Bytes
  archive : List (QueueEnvelope D)

variable (project : ProjectId)

/-- The encrypted object of a batch, and the key table after sealing it. -/
def sealBatch (run : RunId) (f : Faults) (keys : KeyTable D) (new : List (QueueEnvelope D)) :
    Except PyError (KeyTable D × Bytes) := do
  let sections ← buildSections W.pydantic new
  raising f.keys
  let (payload, session) ←
    encryptV2 W.prims W.masterKey project run sections ⟨keys, f.tape⟩
  let raw ← payload.toBytes W.prims
  pure (session.keys, raw)

/-- The `path` of the upsert before completeness is resolved. -/
def mergedPath (run : RunId) (existing : Option (TraceIndexRow D)) (new : List (QueueEnvelope D))
    (firstSeq : ℕ) : Dict :=
  let path := existingPath existing
  let merged := Dict.set path pathSeqRanges
    (toPath ((seenSeqs existing).extend (new.map QueueEnvelope.seq)))
  Dict.set merged pathPayloadRefs
    (.arr (priorRefs path ++ [.str (payloadRefText W.driver project run firstSeq)]))

def batchRow (run : RunId) (owner : RunOwner) (existing : Option (TraceIndexRow D))
    (new : List (QueueEnvelope D)) (firstSeq : ℕ) :
    Except PyError (TraceIndexRow D) := do
  let (sig, startedAt) ← identityColumns W owner existing new
  let (path, outcome, endedAt) := resolveCompleteness (existingPath existing)
    (mergedPath W project run existing new firstSeq)
    ((seenSeqs existing).extend (new.map QueueEnvelope.seq)) new
  pure {
    projectId := project
    runId := run
    agentTypeId := owner.agentTypeId
    workflowTemplateId := none
    submitterPrincipal := owner.principalId
    inputSignatureHash := sig
    instrumentationSource := .sdk
    path := some path
    startedAt := startedAt
    endedAt := endedAt
    payloadRef := some (payloadRefText W.driver project run firstSeq)
    outcomeStatus := outcome
    envelopeVersions := [v2EnvelopeVersion] }

/-- The index half of `_write_batch`: the upserted row, and the job scheduled when the
upsert reports a terminal outcome the row did not have. -/
def indexBatch [DecidableEq D] (W : Writer D) (project : ProjectId) (run : RunId)
    (owner : RunOwner) (f : Faults) (s : Store D) (new : List (QueueEnvelope D))
    (firstSeq : ℕ) : Except PyError (TraceIndexRow D × List (LearningJob D)) := do
  let row ← batchRow W project run owner s.row new firstSeq
  raising f.upsert
  let stored := upsertTraceIndex s.row row
  if row.outcomeStatus.isTerminal && !terminalRow s.row then
    raising f.schedule
    let jobs ← scheduleTraceLearningJob stored s.jobs tierAPipeline tierAPipelineVersion
      W.maxAttempts
    pure (stored, jobs)
  else pure (stored, s.jobs)

/-- An object put under its first sequence number. -/
def putObject (objects : ℕ → Option Bytes) (firstSeq : ℕ) (raw : Bytes) : ℕ → Option Bytes :=
  Function.update objects firstSeq (some raw)

/-- `_write_batch(...)`: the objects afterwards, which outlive an exception, and the state
to commit with the number of new events. -/
def writeBatch [DecidableEq D] (W : Writer D) (project : ProjectId) (run : RunId)
    (owner : RunOwner) (f : Faults) (s : Store D) (envs : List (QueueEnvelope D)) :
    (ℕ → Option Bytes) × Except PyError (Store D × ℕ) :=
  match newEnvs s.row envs with
  | [] => (s.objects, .ok (s, 0))
  | first :: rest =>
    match sealBatch W project run f s.keys (first :: rest) with
    | .error e => (s.objects, .error e)
    | .ok (keys, raw) =>
      match f.put with
      | some (false, e) => (s.objects, .error e)
      | some (true, e) => (putObject s.objects first.seq raw, .error e)
      | none =>
        let objects := putObject s.objects first.seq raw
        match indexBatch W project run owner f s (first :: rest) first.seq with
        | .error e => (objects, .error e)
        | .ok (row, jobs) =>
          (objects, .ok (⟨some row, jobs, keys, objects,
            s.archive ++ first :: rest⟩, (first :: rest).length))

/-! ### One run's slice of a batch -/

/-- The four result lists of `_process_group`, and the number of new events. -/
structure Verdict (D : Type) where
  accepted : List (Delivery D)
  replayed : List (Delivery D)
  invalid : List (Delivery D)
  refused : List (Delivery D)
  newCount : ℕ

/-- The deliveries a committed transaction acks. -/
def Verdict.acked (v : Verdict D) : List (Delivery D) := v.accepted ++ v.replayed

/-- The erasure snapshot is still the one the deliveries were claimed under. Legacy items
carry none; an injected guard may still raise. -/
def assertSnapshot (f : Faults) (pairs : List (Delivery D)) (first : QueueItem) :
    Except PyError Unit :=
  if first.authorityVersion = 1 then do
    require (pairs.all fun d => d.2.authorityVersion = 1 &&
      d.2.subjectDigests = first.subjectDigests) .erasureSnapshotStale
    let actual ← f.snapshot
    require (actual = first.subjectDigests) .erasureSnapshotStale
  else f.snapshot.map fun _ => ()

/-- The owner of the run and the split of the deliveries into accepted and refused ones. -/
def classify (f : Faults) (existing : Option (TraceIndexRow D)) (pairs : List (Delivery D)) :
    Except PyError (RunOwner × List (Delivery D) × List (Delivery D)) :=
  let split (owner : RunOwner) := (owner, pairs.filter (ownedBy owner),
    pairs.filter fun d => !ownedBy owner d)
  match pairs with
  | [] => .error (.runtimeError "IndexError")
  | (_, first) :: _ => do
      assertSnapshot f pairs first
      let owner ← orRaise (resolveOwner existing (pairs.map Prod.fst))
        (.valueError "min() iterable argument is empty")
      if first.authorityVersion = 1 then
        match first.runOwnerPrincipalId, first.runOwnerAgentTypeId with
        | some principal, some agent =>
          if existing.isSome && owner ≠ ⟨principal, agent⟩ then pure (owner, [], pairs)
          else pure (split ⟨principal, agent⟩)
        | _, _ => .error (.valueError "v1 trace queue item lacks persisted owner")
      else pure (split owner)

/-- The end of the transaction. -/
def commitTx (f : Faults) (before after : Store D) (v : Verdict D) :
    Store D × Except PyError (Verdict D) :=
  match f.commit with
  | none => (after, .ok v)
  | some (false, e) => ({ before with objects := after.objects }, .error e)
  | some (true, e) => (after, .error e)

/-- `_process_group(project_id, run_id, pairs)` up to settlement. -/
def processGroup [DecidableEq D] (W : Writer D) (project : ProjectId) (run : RunId)
    (pairs : List (Delivery D)) (f : Faults) (s : Store D) :
    Store D × Except PyError (Verdict D) :=
  match (do raising f.openTx; raising f.getIndex; classify f s.row pairs) with
  | .error e => (s, .error e)
  | .ok (owner, accepted, refused) =>
    if terminalRow s.row then
      let seen := seenSeqs s.row
      commitTx f s s ⟨[], accepted.filter fun d => seen.contains d.1.seq,
        accepted.filter fun d => !seen.contains d.1.seq, refused, 0⟩
    else if accepted.isEmpty then commitTx f s s ⟨[], [], [], refused, 0⟩
    else
      match admitNonterminalEvents W.pydantic s.row (accepted.map Prod.fst) with
      | .error e => (s, .error e)
      | .ok admits =>
        let kept := accepted.filter fun d => admits d.1
        match writeBatch W project run owner f s (kept.map Prod.fst) with
        | (objects, .error e) => ({ s with objects := objects }, .error e)
        | (_, .ok (s', count)) =>
          commitTx f s s' ⟨kept, [], accepted.filter fun d => !admits d.1, refused, count⟩

end Tracebed
