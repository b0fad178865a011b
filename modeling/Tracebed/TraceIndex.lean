import Tracebed.Events
import Tracebed.Lib.RangeSet

/-!
# The Trace Index

The `trace_index` row of a run and the statements that change it (`stores/pg/repo.py`), the
learning-job outbox, the references of the trace store, and the sequence set kept inside the
row's `path` (`_SeqSet` of `ingest/trace_writer.py`), whose operations are those of finite sets
(`seqSet_correct`).
-/

open Py List

namespace Tracebed

variable {D : Type}

/-! ### Rows -/

/-- `TraceOutcomeStatus`. -/
inductive TraceOutcomeStatus
  | pending | ok | error | cancelled | incomplete
  deriving DecidableEq

/-- `outcome_status in TERMINAL_TRACE_OUTCOMES`. -/
def TraceOutcomeStatus.isTerminal : TraceOutcomeStatus → Bool
  | ok | error | cancelled => true
  | pending | incomplete => false

/-- `TraceOutcomeStatus(end_status)`. -/
def TraceOutcomeStatus.ofEnd : RunEndStatus → TraceOutcomeStatus
  | .ok => .ok
  | .error => .error
  | .cancelled => .cancelled

@[simp] theorem TraceOutcomeStatus.isTerminal_ofEnd (s : RunEndStatus) :
    (ofEnd s).isTerminal = true := by
  cases s <;> rfl

/-- `InstrumentationSource`. -/
inductive InstrumentationSource
  | sdk | hostStream
  deriving DecidableEq

/-- `TraceIndexRow`. The experiment arm is left out: nothing modelled reads it. -/
structure TraceIndexRow (D : Type) where
  projectId : ProjectId
  runId : RunId
  agentTypeId : AgentTypeId
  workflowTemplateId : Option UUID
  submitterPrincipal : PrincipalId
  inputSignatureHash : Bytes
  instrumentationSource : InstrumentationSource
  path : Option Dict
  startedAt : Option D
  endedAt : Option D
  payloadRef : Option PyStr
  outcomeStatus : TraceOutcomeStatus
  envelopeVersions : List ℕ

/-- The sorted union of two sets of envelope versions. -/
def mergeVersions (old new : List ℕ) : List ℕ := (old ++ new).dedup.insertionSort (· ≤ ·)

/-- `upsert_trace_index(row)`: the insert of `_TRACE_INDEX_UPSERT_TEMPLATE` and, on conflict,
its column-by-column merge. A terminal row is not touched. -/
def upsertTraceIndex (existing : Option (TraceIndexRow D)) (row : TraceIndexRow D) :
    TraceIndexRow D :=
  match existing with
  | none => row
  | some old =>
    if old.outcomeStatus.isTerminal then old
    else
      { old with
        workflowTemplateId := row.workflowTemplateId.or old.workflowTemplateId
        -- one way only: the absent sentinel gives way to a signature
        inputSignatureHash :=
          if isAbsentSignature old.inputSignatureHash then row.inputSignatureHash
          else old.inputSignatureHash
        instrumentationSource := row.instrumentationSource
        path := row.path.or old.path
        startedAt := old.startedAt.or row.startedAt
        endedAt := row.endedAt.or old.endedAt
        payloadRef := old.payloadRef.or row.payloadRef
        outcomeStatus :=
          if row.outcomeStatus = .pending then old.outcomeStatus else row.outcomeStatus
        envelopeVersions := mergeVersions old.envelopeVersions row.envelopeVersions }

/-- `mark_run_incomplete(project_id, run_id)`. -/
def markRunIncomplete (row : TraceIndexRow D) : TraceIndexRow D :=
  if row.outcomeStatus = .pending then { row with outcomeStatus := .incomplete } else row

/-! ### The learning-job outbox -/

/-- A `trace_learning_job` row of the run, as far as scheduling reads it. -/
structure LearningJob (D : Type) where
  pipeline : PyStr
  pipelineVersion : ℕ
  maxAttempts : ℕ
  traceEndedAt : D
  live : Bool

/-- `TIER_A_PIPELINE`. -/
def tierAPipeline : PyStr := str "tier_a"
/-- `TIER_A_PIPELINE_VERSION`. -/
def tierAPipelineVersion : ℕ := 1
/-- `MAX_QUEUE_ATTEMPTS`. -/
def maxQueueAttempts : ℕ := 32

/-- The job with a given pipeline key. -/
def findJob (jobs : List (LearningJob D)) (pipeline : PyStr) (version : ℕ) :
    Option (LearningJob D) :=
  jobs.find? fun j => j.pipeline = pipeline && j.pipelineVersion = version

/-- `schedule_trace_learning_job(run_id, ...)`: insert a job for a terminal row, or confirm
that an identical one exists. -/
def scheduleTraceLearningJob [DecidableEq D] (row : TraceIndexRow D)
    (jobs : List (LearningJob D)) (pipeline : PyStr) (version maxAttempts : ℕ) :
    Except PyError (List (LearningJob D)) := do
  require (1 ≤ maxAttempts && maxAttempts ≤ maxQueueAttempts)
    (.valueError "max_attempts must be in 1..32")
  match findJob jobs pipeline version, row.outcomeStatus.isTerminal, row.endedAt with
  | none, true, some endedAt => .ok (jobs ++ [⟨pipeline, version, maxAttempts, endedAt, true⟩])
  | none, _, _ => .error (.runtimeError
      "terminal trace learning schedule conflict could not be resolved")
  | some job, _, endedAt => do
      require (some job.traceEndedAt = endedAt && job.live && job.maxAttempts = maxAttempts)
        (.runtimeError "terminal trace learning job conflicts with a non-idempotent row")
      pure jobs

/-! ### References of the trace store -/

/-- A bucket name of the object store: lower-case letters, digits, dots and hyphens, and no
dot in front. -/
structure BucketName where
  name : PyStr
  length_ok : 3 ≤ name.length ∧ name.length ≤ 63
  chars_ok : ∀ c ∈ name, 97 ≤ c ∧ c ≤ 122 ∨ 48 ≤ c ∧ c ≤ 57 ∨ c = 45 ∨ c = 46
  head_ok : name.head? ≠ some 46

/-- The configured trace-store driver. -/
inductive StoreDriver
  | fs
  | s3 (bucket : BucketName)

/-- `f"{n:08d}"`. -/
def eightDigits (n : ℕ) : PyStr := replicate (8 - (decimal n).length) 48 ++ decimal n

/-- The text of the reference `put` returns: driver, key layout, first sequence number. -/
def payloadRefText (driver : StoreDriver) (project : ProjectId) (run : RunId)
    (firstSeq : ℕ) : PyStr :=
  match driver with
  | .fs => str "fs://" ++ (project.value.str ++ 47 :: (run.value.str ++ 47 ::
      (eightDigits firstSeq ++ str ".tbz")))
  | .s3 bucket => str "s3://" ++ (bucket.name ++ 47 :: (str "tb" ++ 47 ::
      (project.value.str ++ 47 :: (run.value.str ++ 47 :: eightDigits firstSeq))))

/-! ### The path column -/

/-- `PATH_SEQ_RANGES`. -/
def pathSeqRanges : PyStr := str "seq_ranges"
/-- `PATH_PAYLOAD_REFS`. -/
def pathPayloadRefs : PyStr := str "payload_refs"
/-- `PATH_END_SEQ`. -/
def pathEndSeq : PyStr := str "end_seq"
/-- `PATH_END_STATUS`. -/
def pathEndStatus : PyStr := str "end_status"

/-- One entry of `seq_ranges`; anything else is skipped. -/
def readRange : Json → Option {r : NatRange // r.1 ≤ r.2 ∧ r.2 ≤ maxTraceSeq}
  | .arr [.int lo, .int hi] =>
    if h : 0 ≤ lo ∧ lo ≤ hi ∧ hi ≤ maxTraceSeq then
      some ⟨(lo.toNat, hi.toNat), by dsimp only; omega⟩
    else none
  | _ => none

/-- The ranges of a stored list. -/
def readRanges (l : List Json) : List NatRange := (l.filterMap readRange).map Subtype.val

theorem readRanges_nonempty (l : List Json) : ∀ r ∈ readRanges l, r.1 ≤ r.2 := by
  intro r hr
  obtain ⟨p, -, rfl⟩ := mem_map.mp hr
  exact p.2.1

/-- `_SeqSet.from_path(raw)`. -/
def fromPath : Json → RangeSet
  | .arr l => .ofRanges (readRanges l) (readRanges_nonempty l)
  | _ => .empty

/-- `_SeqSet.to_path()`. -/
def toPath (s : RangeSet) : Json := .arr (s.ranges.map fun r => .arr [.int r.1, .int r.2])

/-- Whatever is stored, the members that are read are in range. -/
theorem le_of_mem_fromPath {raw : Json} {n : ℕ} (h : n ∈ fromPath raw) : n ≤ maxTraceSeq := by
  cases raw with
  | arr l =>
    obtain ⟨r, hr, -, hle⟩ := (RangeSet.mem_ofRanges (h := readRanges_nonempty l)).mp h
    obtain ⟨p, -, rfl⟩ := mem_map.mp hr
    exact hle.trans p.2.2
  | _ => exact absurd h (RangeSet.not_mem_empty n)

/-- **A stored sequence set reads back**, as long as its members are in range. -/
theorem fromPath_toPath {s : RangeSet} (h : ∀ n ∈ s, n ≤ maxTraceSeq) :
    fromPath (toPath s) = s := by
  have hread : readRanges (s.ranges.map fun r => .arr [.int r.1, .int r.2]) = s.ranges := by
    have hall : ∀ rs : List NatRange, (∀ r ∈ rs, r.1 ≤ r.2 ∧ r.2 ≤ maxTraceSeq) →
        readRanges (rs.map fun r => .arr [.int r.1, .int r.2]) = rs := by
      intro rs
      induction rs with
      | nil => intro _; rfl
      | cons r rs ih =>
        intro hrs
        obtain ⟨hle, hmax⟩ := hrs r mem_cons_self
        have htail := ih (forall_mem_cons.mp hrs).2
        have hcond : (0 : ℤ) ≤ (r.1 : ℤ) ∧ (r.1 : ℤ) ≤ r.2 ∧ (r.2 : ℤ) ≤ maxTraceSeq := by
          omega
        rw [readRanges] at htail ⊢
        rw [map_cons, filterMap_cons, readRange, dif_pos hcond]
        simp only [map_cons, htail, Int.toNat_natCast]
    refine hall _ fun r hr => ?_
    have hne := s.normal.nonempty r hr
    exact ⟨hne, h r.2 ⟨r, hr, hne, le_rfl⟩⟩
  simp only [toPath, fromPath, hread, RangeSet.ofRanges_ranges]

/-- **`_SeqSet` is a finite set of sequence numbers.** Every stored value is read as sorted
ranges in bounds, none of them empty and no two of them touching, and reads back as itself
once written. On every such set the operations are those of the set it stands for, and
`extend` keeps the form. -/
theorem seqSet_correct :
    (∀ raw : Json, (∀ r ∈ (fromPath raw).ranges, r.1 ≤ r.2 ∧ r.2 ≤ maxTraceSeq) ∧
      ((fromPath raw).ranges.Pairwise fun a b => a.2 + 1 < b.1) ∧
      fromPath (toPath (fromPath raw)) = fromPath raw) ∧
    ∀ s : RangeSet, (∀ n, s.contains n = true ↔ ∃ r ∈ s.ranges, r.1 ≤ n ∧ n ≤ r.2) ∧
      (∀ ns n, n ∈ s.extend ns ↔ n ∈ s ∨ n ∈ ns) ∧
      (∀ ns, NatRange.Normal (s.extend ns).ranges) ∧
      (∀ (e : ℕ) [DecidablePred (· ∈ s)],
        s.countUpto e = ((Finset.range (e + 1)).filter (· ∈ s)).card) ∧
      ∀ e, s.hasAbove e = true ↔ ∃ n ∈ s, e < n := by
  constructor
  · intro raw
    refine ⟨fun r hr => ?_, (fromPath raw).normal.apart,
      fromPath_toPath fun _ => le_of_mem_fromPath⟩
    have hne : r.1 ≤ r.2 := (fromPath raw).normal.nonempty r hr
    exact ⟨hne, le_of_mem_fromPath ⟨r, hr, hne, le_rfl⟩⟩
  · intro s
    exact ⟨fun _ => RangeSet.contains_iff, fun _ _ => RangeSet.mem_extend,
      fun ns => (s.extend ns).normal, fun e => s.countUpto_eq_card e,
      fun _ => RangeSet.hasAbove_iff⟩

end Tracebed
