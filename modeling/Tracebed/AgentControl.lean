import Tracebed.Lib.Concurrent
import Tracebed.MemoryItem

/-!
# Proposals

`workflow/agent_control.py` and the proposal half of `stores/pg/repo.py`: `submitProposal` turns
an agent's proposal into a quarantined memory, a duplicate or a refusal. The caps are counted
before the scan and again inside the inserting transaction, which holds the advisory lock of the
project to its end. Everything outside the process is a call that may raise, and the blocks that
release a lock or roll back do so whatever was raised inside.
-/

open Py Fallible Interaction Routine

namespace Tracebed

/-- What `submit_proposal` can raise, by the classes its callers tell apart. -/
inductive ControlError
  | tracebedError (message : String)
  | notProposable (message : String)
  | item (e : ItemError)
  | configError (message : String)
  | applyError (e : ApplyError)
  | erasureFenced
  | erasureSnapshotStale
  | activityBusy
  | other (name : String)

/-- `MemoryProposal`; the enumerated fields are still wire texts. -/
structure MemoryProposal where
  memType : PyStr
  content : PyStr
  claimedScope : PyStr

/-- The settings a submission reads. -/
structure ProposalConfig where
  perRunCap : ℤ
  perProjectDailyCap : ℤ
  limits : LimitsConfig

variable (cfg : ProposalConfig) (project : ProjectId) (run : RunId) (item : NewMemoryItem)
  (verdict : ScanVerdict)

/-- The arguments of `submit_proposal`. -/
structure Submission where
  projectId : ProjectId
  runId : RunId
  principalId : PrincipalId
  proposal : MemoryProposal
  agentTypeId : Option AgentTypeId
  subjectDigests : Option (List Bytes)

/-- Why a proposal is refused, with the numbers its text names; `day` counts from the epoch. -/
inductive RefusalReason
  | perRunCap (cap : ℤ) (run : RunId) (landed : ℕ)
  | perProjectDailyCap (cap : ℤ) (day : ℤ) (landed : ℕ)

/-- `ProposalRefused.reason`. -/
def RefusalReason.text (isoformat : ℤ → String) : RefusalReason → String
  | perRunCap cap run landed => s!"proposals.per_run_cap ({cap}) reached for run " ++
      Py.text run.value.str ++ s!": {landed} already landed"
  | perProjectDailyCap cap day landed => s!"proposals.per_project_daily_cap ({cap}) " ++
      "reached for " ++ isoformat day ++ s!": {landed} already landed"

/-- `ProposalOutcome`. -/
inductive ProposalOutcome
  | accepted (memoryId : MemoryId) (status : Status)
  | duplicate (memoryId : MemoryId)
  | refused (reason : RefusalReason)

/-- `ProposalInsertResult`, by its `ProposalCapOutcome`. -/
inductive ProposalInsertResult
  | inserted (memoryId : MemoryId) (observed : ℕ)
  | duplicate (memoryId : MemoryId)
  | perRunCap (observed : ℕ)
  | perProjectDailyCap (observed : ℕ)

/-- A row of `memory_item`: the item and what the repository adds to it. -/
structure MemoryRow where
  id : MemoryId
  projectId : ProjectId
  item : NewMemoryItem
  contentHash : PyStr
  subjectDigests : List Bytes
  createdAt : ℤ
  scanVerdictId : UUID

/-- The calls of a submission to what lies outside it. -/
inductive ControlCall
  | resolveProject (principal : PrincipalId)
  | now
  | acquireCapLock
  | releaseCapLock
  | findProposalInRun (project : ProjectId) (run : RunId) (hash : PyStr)
  | countProposalsInRun (project : ProjectId) (run : RunId)
  | countProposalsInProjectDay (project : ProjectId) (day : ℤ)
  | scan (content : PyStr) (context : ScanContext)
  | drawVerdict
  | begin (project : ProjectId)
  | lockErasureSnapshot (project : ProjectId) (run : RunId) (digests : List Bytes)
  | lockCaps (project : ProjectId)
  | txFindProposalInRun (project : ProjectId) (run : RunId) (hash : PyStr)
  | txCountProposalsInRun (project : ProjectId) (run : RunId)
  | txCountProposalsInProjectDay (project : ProjectId) (day : ℤ)
  | mintMemoryId
  | insertMemoryItem (row : MemoryRow)
  | bindRunMemory (project : ProjectId) (run : RunId) (memory : MemoryId) (digests : List Bytes)
  | commit
  | rollback

def ControlCall.Result : ControlCall → Type
  | resolveProject _ => ProjectScope
  | now => ℤ
  | findProposalInRun .. | txFindProposalInRun .. => Option MemoryId
  | countProposalsInRun .. | txCountProposalsInRun .. => ℕ
  | countProposalsInProjectDay .. | txCountProposalsInProjectDay .. => ℕ
  | scan .. => ScanResult
  | drawVerdict => UUID × ℤ
  | lockErasureSnapshot .. => List Bytes
  | mintMemoryId => MemoryId
  | acquireCapLock | releaseCapLock | begin _ | lockCaps _ | insertMemoryItem _ => Unit
  | bindRunMemory .. | commit | rollback => Unit

/-- Code that calls what lies outside a submission. -/
abbrev Control := Routine ControlCall ControlCall.Result ControlError Unit

/-- A call to what lies outside a submission. -/
def Control.call (c : ControlCall) : Control c.Result := perform c

/-- A pure step that may raise. -/
def Control.lift {ε α : Type} (wrap : ε → ControlError) : Except ε α → Control α
  | .ok a => pure a
  | .error e => throw (wrap e)

/-! ### The blocks -/

/-- `with scoped(pool, project_id)`: the transaction ends with the block, committed if the block
is left normally. -/
def scopedTransaction {α : Type} (project : ProjectId) (body : Control α) : Control α := do
  Control.call (.begin project)
  let a ← tryCatch body fun e => do
    Control.call .rollback
    throw e
  Control.call .commit
  return a

/-- `with self._cap_lock`. -/
def withCapLock {α : Type} (body : Control α) : Control α := do
  Control.call .acquireCapLock
  let a ← tryCatch body fun e => do
    Control.call .releaseCapLock
    throw e
  Control.call .releaseCapLock
  return a

/-! ### The repository -/

/-- The parameters of `_INSERT_MEMORY_ITEM_SQL`. -/
def memoryRow (hash : PyStr) (digests : Option (List Bytes)) (memoryId : MemoryId) (now : ℤ) :
    MemoryRow where
  id := memoryId
  projectId := project
  item := item
  contentHash := hash
  subjectDigests := digests.getD []
  createdAt := now
  scanVerdictId := verdict.verdictId

/-- `_impl_insert_memory_item`: the row is stamped with a reading of the clock of its own. -/
def implInsertMemoryItem (hash : PyStr) (digests : Option (List Bytes)) : Control MemoryId := do
  let memoryId ← Control.call .mintMemoryId
  let now ← Control.call .now
  Control.call (.insertMemoryItem (memoryRow project item verdict hash digests memoryId now))
  return memoryId

/-- The fence of an authorised submission: the subjects of its run are still those admitted. -/
def lockSnapshot : Option (List Bytes) → Control Unit
  | none => pure ()
  | some expected => do
      let actual : List Bytes ← Control.call (.lockErasureSnapshot project run expected)
      if actual = expected then pure () else throw .erasureSnapshotStale

/-- The edge from the run of an authorised submission to its memory. -/
def bindRun (memory : MemoryId) : Option (List Bytes) → Control Unit
  | none => pure ()
  | some expected => Control.call (.bindRunMemory project run memory expected)

/-- The body of the transaction of `insert_proposal_within_caps`. -/
def insertWithinCaps (hash : PyStr) (day : ℤ) (digests : Option (List Bytes)) :
    Control ProposalInsertResult := do
  lockSnapshot project run digests
  Control.call (.lockCaps project)
  match ← Control.call (.txFindProposalInRun project run hash) with
  | some existing => return .duplicate existing
  | none =>
    let runCount : ℕ ← Control.call (.txCountProposalsInRun project run)
    if cfg.perRunCap ≤ runCount then return .perRunCap runCount
    let dayCount : ℕ ← Control.call (.txCountProposalsInProjectDay project day)
    if cfg.perProjectDailyCap ≤ dayCount then return .perProjectDailyCap dayCount
    let memoryId ← implInsertMemoryItem project item verdict hash digests
    bindRun project run memoryId digests
    return .inserted memoryId runCount

variable (S : ScanSeal)

/-- `insert_proposal_within_caps`. -/
def insertProposalWithinCaps (cfg : ProposalConfig) (project : ProjectId) (run : RunId)
    (item : NewMemoryItem) (verdict : ScanVerdict) (day : ℤ) (digests : Option (List Bytes)) :
    Control ProposalInsertResult := do
  Control.lift .item (validateProvenance item.provenance)
  let hash ← Control.lift .item (contentHash S item.content)
  Control.lift .item (verifyVerdict S verdict hash)
  scopedTransaction project (insertWithinCaps cfg project run item verdict hash day digests)

/-! ### The submission -/

/-- `_admitted`: a wire text as a member of the enumeration, and of the admitted ones. -/
def admitted {E : Type} [DecidableEq E] (name field choices : String) (members : List (PyStr × E))
    (allowed : List E) (raw : PyStr) : Except String E :=
  match members.lookup raw with
  | none => .error ("propose_memory refuses " ++ field ++ "='" ++ text raw ++ "': not a " ++
      name ++ " value")
  | some value =>
    if value ∈ allowed then .ok value
    else .error ("propose_memory refuses " ++ field ++ "='" ++ text raw ++
      "': PLAN.md §3 admits exactly " ++ choices)

/-- The admission of `mem_type`. -/
def admittedMemType : PyStr → Except String MemType :=
  admitted "MemType" "mem_type" "['lesson', 'semantic']"
    ([MemType.episodic, .semantic, .lesson, .preference].map fun m => (m.text, m))
    [.lesson, .semantic]

/-- The admission of `claimed_scope`. -/
def admittedScopeType : PyStr → Except String ScopeType :=
  admitted "ScopeType" "claimed_scope" "['agent_type', 'project_shared']"
    [(str "agent_type", .agentType), (str "workflow_template", .workflowTemplate),
      (str "user", .user), (str "project_shared", .projectShared)]
    [.agentType, .projectShared]

/-- Subject digests as `submit_proposal` accepts them: at most 64 of them, of 32 bytes each,
sorted and distinct. -/
def canonicalDigests (digests : List Bytes) : Bool :=
  digests.length ≤ 64 && digests.all (·.length = 32) &&
    digests.Pairwise (fun a b => strLe (a.map UInt8.toNat) (b.map UInt8.toNat)) && digests.Nodup

/-- `date()` of an instant in microseconds, in days from the epoch. -/
def utcDay (instant : ℤ) : ℤ := instant / 86400000000

/-- The agent type a submission is filed under. -/
def resolveAgentType (a : Submission) : Control AgentTypeId :=
  match a.agentTypeId with
  | some agentType => pure agentType
  | none => do
      let scope : ProjectScope ← Control.call (.resolveProject a.principalId)
      if scope.projectId = a.projectId then return scope.agentTypeId
      else
        throw (.tracebedError ("resolve_project(" ++ text a.principalId.value.str ++
          ") resolved to project " ++ text scope.projectId.value.str ++ ", not the requested " ++
          text a.projectId.value.str ++ " (invariant 4)"))

def proposalProvenance : ProvenanceRecord := { cls := .proposal, runId := some run }

/-- The scan of a proposal, its transition and the item it becomes. -/
def prepareItem (cfg : ProposalConfig) (a : Submission) (memType : MemType) (scopeType : ScopeType)
    (agentType : AgentTypeId) (now : ℤ) :
    Control (NewMemoryItem × ScanVerdict) := do
  let result : ScanResult ← Control.call (.scan a.proposal.content
    ⟨a.projectId, memType, .B, .proposal, .quality⟩)
  let drawn : UUID × ℤ ← Control.call .drawVerdict
  let verdict ← Control.lift .item (result.verdict S drawn.1 drawn.2)
  let limits ← Control.lift .configError (TransitionLimits.fromConfig cfg.limits)
  let status ← Control.lift .applyError (apply none .quarantined
    { now, provenanceClass := .proposal, trustTier := .B, memType,
      scanPassed := result.passed, provenanceComplete := true } limits)
  let item ← Control.lift .item (MemoryItemFields.make {
    scopeType
    scopeId := if scopeType = .agentType then some agentType.value else none
    memType
    kind := "proposal"
    lane := .quality
    trustTier := .B
    status
    content := a.proposal.content
    tokenCount := estimateTokenCount a.proposal.content
    provenance := proposalProvenance a.runId })
  return (item, verdict)

/-- `_from_insert_result`. -/
def fromInsertResult (status : Status) (run : RunId) (day : ℤ) :
    ProposalInsertResult → ProposalOutcome
  | .inserted memoryId _ => .accepted memoryId status
  | .duplicate memoryId => .duplicate memoryId
  | .perRunCap observed => .refused (.perRunCap cfg.perRunCap run observed)
  | .perProjectDailyCap observed =>
    .refused (.perProjectDailyCap cfg.perProjectDailyCap day observed)

/-- The critical section of `submit_proposal`. -/
def spendCap (cfg : ProposalConfig) (a : Submission) (memType : MemType) (scopeType : ScopeType)
    (agentType : AgentTypeId) (now : ℤ) (digest : PyStr) :
    Control ProposalOutcome := do
  match ← Control.call (.findProposalInRun a.projectId a.runId digest) with
  | some already => return .duplicate already
  | none =>
    let runCount : ℕ ← Control.call (.countProposalsInRun a.projectId a.runId)
    if cfg.perRunCap ≤ runCount then
      return .refused (.perRunCap cfg.perRunCap a.runId runCount)
    let dayCount : ℕ ← Control.call (.countProposalsInProjectDay a.projectId (utcDay now))
    if cfg.perProjectDailyCap ≤ dayCount then
      return .refused (.perProjectDailyCap cfg.perProjectDailyCap (utcDay now) dayCount)
    let (item, verdict) ← prepareItem S cfg a memType scopeType agentType now
    let result ← insertProposalWithinCaps S cfg a.projectId a.runId item verdict (utcDay now)
      a.subjectDigests
    return fromInsertResult cfg item.status a.runId (utcDay now) result

/-- `AgentControl.submit_proposal` against the durable repository. -/
def submitProposal (cfg : ProposalConfig) (a : Submission) : Control ProposalOutcome := do
  let agentType ← resolveAgentType a
  Control.lift .item (ensure (a.subjectDigests.all canonicalDigests)
    (.valueError "authoritative subject digests are not canonical"))
  let memType ← Control.lift .notProposable (admittedMemType a.proposal.memType)
  let scopeType ← Control.lift .notProposable (admittedScopeType a.proposal.claimedScope)
  Control.lift .item (validateProvenance (proposalProvenance a.runId))
  let now : ℤ ← Control.call .now
  let digest ← Control.lift .item (contentHash S a.proposal.content)
  withCapLock (spendCap S cfg a memType scopeType agentType now digest)

end Tracebed
