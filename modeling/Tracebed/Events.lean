import Tracebed.Signatures

/-!
# Trace Events and Their Queue Envelopes

`domain/events.py` and the parsing half of `ingest/trace_writer.py`: the wire types of a
trace event, the validators of their payloads, and the reading of a claimed queue item.

Parsing of scalars by the validation library is a parameter (`Pydantic`), and `D` is the type of
timezone-aware timestamps. What the model keeps exact is which exception leaves validation: a
`ValueError` inside a validator becomes a `ValidationError`, but a `TypeError` escapes as it is,
at once and whatever the other fields hold.
-/

open Py

namespace Tracebed

/-- The scalar conversions of the validation library. -/
structure Pydantic (D : Type) where
  /-- An `int` field. -/
  parseInt : Json → Option ℤ
  /-- A `UUID` field. -/
  parseUuid : Json → Option UUID
  /-- A timezone-aware `datetime` field. -/
  parseTs : Json → Option D
  /-- A `datetime` in `model_dump(mode="json")`. -/
  dumpTs : D → PyStr

/-- `MAX_TRACE_SEQ`. -/
def maxTraceSeq : ℕ := 1000000
/-- `MAX_SUBJECT_TAGS`. -/
def maxSubjectTags : ℕ := 64
/-- `SUBJECT_TAGS_KEY`. -/
def subjectTagsKey : PyStr := str "subject_tags"

/-- The `type` of a trace event. -/
inductive EventType
  | runStart | toolCall | toolResult | llmCallMeta | error | artifactRef | stateNote | runEnd
  deriving DecidableEq

def EventType.text : EventType → PyStr
  | runStart => str "run_start"
  | toolCall => str "tool_call"
  | toolResult => str "tool_result"
  | llmCallMeta => str "llm_call_meta"
  | error => str "error"
  | artifactRef => str "artifact_ref"
  | stateNote => str "state_note"
  | runEnd => str "run_end"

def EventType.all : List EventType :=
  [runStart, toolCall, toolResult, llmCallMeta, error, artifactRef, stateNote, runEnd]

def EventType.ofText (s : PyStr) : Option EventType := EventType.all.find? fun t => t.text = s

@[simp] theorem EventType.ofText_text (t : EventType) : EventType.ofText t.text = some t := by
  cases t <;> decide

/-- The statuses of `RUN_END_STATUSES`. -/
inductive RunEndStatus
  | ok | error | cancelled
  deriving DecidableEq

def RunEndStatus.text : RunEndStatus → PyStr
  | ok => str "ok"
  | error => str "error"
  | cancelled => str "cancelled"

/-- `parse_end_status(raw)`. -/
def parseEndStatus : Json → Option RunEndStatus
  | .str s =>
    if s = RunEndStatus.ok.text then some .ok
    else if s = RunEndStatus.error.text then some .error
    else if s = RunEndStatus.cancelled.text then some .cancelled
    else none
  | _ => none

@[simp] theorem parseEndStatus_text (s : RunEndStatus) : parseEndStatus (.str s.text) = some s := by
  cases s <;> decide

/-- `parse_seq(raw)`. -/
def parseSeq : Json → Option ℕ
  | .int n => if 0 ≤ n ∧ n ≤ maxTraceSeq then some n.toNat else none
  | _ => none

/-- A sequence number in range is read back. -/
theorem parseSeq_int {n : ℕ} (h : n ≤ maxTraceSeq) : parseSeq (.int n) = some n := by
  have hn : (0 : ℤ) ≤ n ∧ (n : ℤ) ≤ maxTraceSeq := by omega
  simp [parseSeq, hn]

/-! ### Payload validators -/

/-- A value that can be an element of a Python `set`. -/
def hashable : Json → Bool
  | .arr _ | .obj _ => false
  | _ => true

/-- One entry of `subject_tags`. -/
def checkSubjectTag : Json → Except PyError Unit
  | .str tag =>
    match validateSubjectTag false tag with
    | .ok _ => .ok ()
    | .error _ => .error (.valueError "payload['subject_tags'] entry is invalid")
  | _ => .error (.valueError "payload['subject_tags'] entries must be strings")

variable (payload : Dict)

/-- `_validated_subject_tags(payload)`. The distinctness test builds a `set` before the
entries' types are checked, so a list or a dictionary among them raises `TypeError`. -/
def validatedSubjectTags : Except PyError Unit :=
  match Dict.find payload subjectTagsKey with
  | none => .ok ()
  | some (.arr tags) => do
      require (tags.length ≤ maxSubjectTags)
        (.valueError "payload['subject_tags'] exceeds 64 tags")
      require (tags.all hashable) (.typeError "unhashable type")
      require (decide (tags.Pairwise fun a b => Json.pyEq a b = false))
        (.valueError "payload['subject_tags'] entries must be distinct")
      tags.forM checkSubjectTag
  | some _ => .error (.valueError "payload['subject_tags'] must be a list of strings")

/-- `RunEnd._check_status(payload)`: membership in a `frozenset` hashes the value first. -/
def checkStatus : Except PyError Unit :=
  match Dict.find payload (str "status") with
  | none => .ok ()
  | some v => do
      require (hashable v) (.typeError "unhashable type")
      require (parseEndStatus v).isSome
        (.valueError "run_end payload['status'] must be one of ['cancelled', 'error', 'ok']")

/-- The `payload` validator of an event type. -/
def checkPayload : EventType → Dict → Except PyError Unit
  | .artifactRef, payload | .stateNote, payload => validatedSubjectTags payload
  | .runEnd, payload => checkStatus payload
  | _, _ => .ok ()

/-! ### Events -/

/-- `TraceEvent`: its payload has passed the validator of its type. -/
structure TraceEvent (D : Type) where
  type : EventType
  ts : D
  payload : Dict
  payload_ok : checkPayload type payload = .ok ()

variable {D : Type} (X : Pydantic D)

/-- `event.model_dump(mode="json")`. -/
def TraceEvent.dump (e : TraceEvent D) : Json :=
  .obj [(str "ts", .str (X.dumpTs e.ts)), (str "payload", .obj e.payload),
    (str "type", .str e.type.text)]

/-- The exception of a failed validation. -/
def validationError : PyError := .valueError "ValidationError"

/-- The value of the `payload` field: its default, or the given dictionary if its validator
accepts it. A `ValueError` of the validator is collected; any other exception escapes. -/
def payloadField (type : EventType) (m : Dict) :
    Except PyError {p : Dict // checkPayload type p = .ok ()} :=
  match Dict.find m (str "payload") with
  | none => .ok ⟨[], by cases type <;> rfl⟩
  | some (.obj p) =>
    match h : checkPayload type p with
    | .ok _ => .ok ⟨p, h⟩
    | .error (.valueError _) => .error validationError
    | .error e => .error e
  | some _ => .error validationError

/-- `TypeAdapter(TraceEvent).validate_python(value)`. The payload validator runs whatever
the timestamp holds, so an exception that is no `ValueError` comes first. -/
def validateEvent : Json → Except PyError (TraceEvent D)
  | .obj m =>
    match Dict.find m (str "type") with
    | some (.str s) =>
      match EventType.ofText s with
      | none => .error validationError
      | some type => do
          let payload ← payloadField type m
          let ts ← orRaise ((Dict.find m (str "ts")).bind X.parseTs) validationError
          require ((Dict.keys m).all fun k =>
            [str "ts", str "payload", str "type"].contains k) validationError
          pure ⟨type, ts, payload.1, payload.2⟩
    | _ => .error validationError
  | _ => .error validationError

/-- `_subject_tags_for(event)`. -/
def subjectTagsFor (e : TraceEvent D) : List PyStr :=
  match e.type with
  | .artifactRef | .stateNote =>
    match Dict.get e.payload subjectTagsKey with
    | .arr tags => (tags.filterMap fun t => match t with
        | .str s => some s
        | _ => none).dedup.insertionSort fun a b => strLe a b = true
    | _ => []
  | _ => []

/-! ### Queue items -/

/-- `QueueItem`: one claimed row. The fields no modelled function reads are left out. -/
structure QueueItem where
  id : ℕ
  projectId : ProjectId
  payload : Dict
  attempts : ℕ
  authorityVersion : ℕ
  runId : Option RunId
  sourcePrincipalId : Option PrincipalId
  sourceAgentTypeId : Option AgentTypeId
  runOwnerPrincipalId : Option PrincipalId
  runOwnerAgentTypeId : Option AgentTypeId
  subjectDigests : List Bytes

/-- `_TraceQueueEnvelope`: its sequence number is in range. -/
structure QueueEnvelope (D : Type) where
  projectId : ProjectId
  principalId : PrincipalId
  agentTypeId : AgentTypeId
  runId : RunId
  seq : ℕ
  seq_le : seq ≤ maxTraceSeq
  event : TraceEvent D

/-- A `seq` field: `Field(ge=0, le=MAX_TRACE_SEQ)`. -/
def seqField (m : Dict) : Option {n : ℕ // n ≤ maxTraceSeq} :=
  ((Dict.find m (str "seq")).bind X.parseInt).bind fun n =>
    if h : 0 ≤ n ∧ n ≤ maxTraceSeq then some ⟨n.toNat, by omega⟩ else none

/-- An `event` field. -/
def eventField (m : Dict) : Except PyError (TraceEvent D) :=
  match Dict.find m (str "event") with
  | none => .error validationError
  | some v => validateEvent X v

/-- A `UUID` field. -/
def uuidField (m : Dict) (k : String) : Option UUID :=
  (Dict.find m (str k)).bind X.parseUuid

/-- A version 1 item: identity comes from the queue row alone, and the payload has exactly
`seq` and `event`. The event is validated whatever `seq` holds. -/
def parseV1 (item : QueueItem) : Except PyError (QueueEnvelope D) :=
  match item.runId, item.sourcePrincipalId, item.sourceAgentTypeId,
      item.runOwnerPrincipalId, item.runOwnerAgentTypeId with
  | some run, some principal, some agent, some _, some _ => do
      require (Dict.hasKeys item.payload [str "seq", str "event"])
        (.valueError "v1 trace authority or business shape is invalid")
      let event ← eventField X item.payload
      let seq ← orRaise (seqField X item.payload) validationError
      pure ⟨item.projectId, principal, agent, run, seq.1, seq.2, event⟩
  | _, _, _, _, _ => .error (.valueError "v1 trace authority or business shape is invalid")

/-- A legacy item: the payload carries the whole envelope. -/
def parseV0 (item : QueueItem) : Except PyError (QueueEnvelope D) := do
  let m := item.payload
  let event ← eventField X m
  let seq ← orRaise (seqField X m) validationError
  let project ← orRaise (uuidField X m "project_id") validationError
  let principal ← orRaise (uuidField X m "principal_id") validationError
  let agent ← orRaise (uuidField X m "agent_type_id") validationError
  let run ← orRaise (uuidField X m "run_id") validationError
  require ((Dict.keys m).all fun k =>
    (["project_id", "principal_id", "agent_type_id", "run_id", "seq", "event"].map
      str).contains k) validationError
  pure ⟨⟨project⟩, ⟨principal⟩, ⟨agent⟩, ⟨run⟩, seq.1, seq.2, event⟩

/-! ### Run starts -/

/-- `_RunStartFeatures`. -/
structure RunStartFeatures (D : Type) where
  queryText : PyStr
  workflowTemplate : Option PyStr
  toolManifest : Option (List PyStr)
  startedAt : D

/-- A list of texts. -/
def asStrings (l : List Json) : Option (List PyStr) := l.mapM fun v => match v with
  | .str s => some s
  | _ => none

/-- `payload.get("query_text", "")`. -/
def queryTextOf : Except PyError PyStr :=
  match Dict.find payload (str "query_text") with
  | none => .ok []
  | some (.str s) => .ok s
  | some _ => .error (.valueError "run_start payload['query_text'] must be a string")

/-- `payload.get("workflow_template")`. -/
def workflowTemplateOf : Except PyError (Option PyStr) :=
  match Dict.get payload (str "workflow_template") with
  | .null => .ok none
  | .str s => .ok (some s)
  | _ => .error (.valueError "run_start payload['workflow_template'] must be a string or null")

/-- `payload.get("tool_manifest")`. -/
def toolManifestOf : Except PyError (Option (List PyStr)) :=
  match Dict.get payload (str "tool_manifest") with
  | .null => .ok none
  | .arr l => (orRaise (asStrings l) (.valueError
      "run_start payload['tool_manifest'] must be a list of strings")).map some
  | _ => .error (.valueError "run_start payload['tool_manifest'] must be a list of strings")

/-- `_run_start_features(env)`. -/
def runStartFeatures (P : Primitives) (U : UnicodeData) (env : QueueEnvelope D) :
    Except PyError (RunStartFeatures D) := do
  require (env.event.type = .runStart) (.valueError "not a run_start event")
  let query ← queryTextOf env.event.payload
  let template ← workflowTemplateOf env.event.payload
  let manifest ← toolManifestOf env.event.payload
  let _ ← inputSignatureHash P U env.agentTypeId query template manifest
  pure ⟨query, template, manifest, env.event.ts⟩

/-- `_parse_item(item)`: `none` is a refused item. Only `ValueError`, of which
`ValidationError` is one, is caught. -/
def parseItem (P : Primitives) (U : UnicodeData) (X : Pydantic D) (item : QueueItem) :
    Except PyError (Option (QueueEnvelope D)) :=
  match (if item.authorityVersion = 1 then parseV1 X item else parseV0 X item) with
  | .error (.valueError _) => .ok none
  | .error e => .error e
  | .ok env =>
    if env.event.type = .runStart then
      match runStartFeatures P U env with
      | .ok _ => .ok (some env)
      | .error (.valueError _) => .ok none
      | .error e => .error e
    else .ok (some env)

end Tracebed
