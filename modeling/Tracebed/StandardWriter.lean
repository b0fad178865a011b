import Tracebed.TraceWriter
import Tracebed.Lib.Sha256
import Tracebed.Lib.AesGcm

/-!
# A Writer with the Real Primitives

`standardPrimitives` are SHA-256 and AES-256-GCM themselves. They satisfy everything the
results assume of a lawful choice, so those results are about the code as it is deployed,
and concrete runs of the writer can be evaluated to the last byte. The rest is one writer of that
kind and the deliveries its concrete runs are made of. Timestamps are kept as the text the wire
carries, in whole seconds of UTC; Unicode transformations are those of ASCII text.
-/

open Py

namespace Tracebed

/-- SHA-256 and AES-256-GCM with a 96-bit nonce. -/
def standardPrimitives : Primitives where
  sha256 := Sha256.sha256
  aesgcmEncrypt key nonce p aad :=
    orRaise (AesGcm.encrypt key nonce p aad) (.valueError "AESGCM key or nonce size")
  aesgcmDecrypt key nonce c aad := do
    require (AesGcm.sizesOk key nonce) (.valueError "AESGCM key or nonce size")
    orRaise (AesGcm.decrypt key nonce c aad) .invalidTag

/-- **The real primitives are lawful.** -/
theorem standardPrimitives_lawful : standardPrimitives.Lawful where
  sha256_length := Sha256.sha256_length
  encrypt_length := fun h => AesGcm.encrypt_length (orRaise_eq_ok.mp h)
  decrypt_encrypt := fun {key nonce p aad c} h => by
    have henc : AesGcm.encrypt key nonce p aad = some c := orRaise_eq_ok.mp h
    have hsizes : AesGcm.sizesOk key nonce = true := by
      rw [AesGcm.encrypt] at henc
      split_ifs at henc with hsizes
      exact hsizes
    refine Fallible.guard_ok (require_eq_ok.mpr hsizes) ?_
    exact orRaise_eq_ok.mpr (AesGcm.decrypt_encrypt henc)

/-! ### One writer -/

/-- The positions of the separators of a timestamp in UTC without a fraction. -/
def stampSeparators : List (ℕ × ℕ) := [(4, 45), (7, 45), (10, 84), (13, 58), (16, 58), (19, 90)]

/-- A timestamp of the form `2026-01-01T00:00:00Z`. -/
def isStamp (s : PyStr) : Bool :=
  s.length = 20 && s.zipIdx.all fun (c, i) =>
    match stampSeparators.lookup i with
    | some separator => c = separator
    | none => 48 ≤ c && c ≤ 57

/-- A point in time, by its text. -/
abbrev Stamp := {s : PyStr // isStamp s = true}

/-- Scalar conversions on canonical texts. -/
def stampPydantic : Pydantic Stamp where
  parseInt v := match v with
    | .int n => some n
    | _ => none
  parseUuid v := match v with
    | .str s => UUID.parse s
    | _ => none
  parseTs v := match v with
    | .str s => if h : isStamp s = true then some ⟨s, h⟩ else none
    | _ => none
  dumpTs := Subtype.val

/-- Normalisation and case folding of ASCII text. -/
def asciiUnicode : UnicodeData where
  nfc := id
  casefold s := s.map fun c => if 65 ≤ c ∧ c ≤ 90 then c + 32 else c

/-- A writer over the file-system store. -/
def stdWriter : Writer Stamp where
  prims := standardPrimitives
  unicode := asciiUnicode
  pydantic := stampPydantic
  masterKey := (List.range 32).map UInt8.ofNat
  driver := .fs
  maxAttempts := 5

def stdProject : ProjectId := ⟨⟨0x11111111111141118111111111111111#128⟩⟩
def stdRun : RunId := ⟨⟨0x22222222222242228222222222222222#128⟩⟩
def stdOwner : RunOwner :=
  ⟨⟨⟨0x33333333333343338333333333333333#128⟩⟩, ⟨⟨0x44444444444444448444444444444444#128⟩⟩⟩

/-- The digest of the project's own key. -/
def stdProjectDigest : Bytes :=
  ((subjectDigest standardPrimitives stdProject projectSubjectTag).toOption).getD []

/-- A transaction in which nothing fails. -/
def noFaults (seed : ℕ) : Faults where
  openTx := none
  getIndex := none
  snapshot := .ok [stdProjectDigest]
  keys := none
  tape := fun i => UInt8.ofNat (seed + 37 * i)
  put := none
  upsert := none
  schedule := none
  commit := none

/-- The time of every event. -/
def stdStamp : Stamp := ⟨str "2026-01-01T00:00:00Z", by decide⟩

/-- A version 1 queue item of the owner. -/
def stdItem (id : ℕ) (payload : Dict) : QueueItem where
  id := id
  projectId := stdProject
  payload := payload
  attempts := 0
  authorityVersion := 1
  runId := some stdRun
  sourcePrincipalId := some stdOwner.principalId
  sourceAgentTypeId := some stdOwner.agentTypeId
  runOwnerPrincipalId := some stdOwner.principalId
  runOwnerAgentTypeId := some stdOwner.agentTypeId
  subjectDigests := [stdProjectDigest]

/-- The delivery of an event of the owner. -/
def stdDelivery (id seq : ℕ) (h : seq ≤ maxTraceSeq) (event : TraceEvent Stamp) : Delivery Stamp :=
  (⟨stdProject, stdOwner.principalId, stdOwner.agentTypeId, stdRun, seq, h, event⟩,
    stdItem id [(str "seq", .int seq), (str "event", event.dump stampPydantic)])

theorem one_le_maxTraceSeq : 1 ≤ maxTraceSeq := by decide

/-- A `tool_call` without a payload. -/
def toolCallEvent : TraceEvent Stamp := ⟨.toolCall, stdStamp, [], rfl⟩

/-- A `run_end` that reports success. -/
def runEndEvent : TraceEvent Stamp :=
  ⟨.runEnd, stdStamp, [(str "status", .str (str "ok"))], by decide⟩

end Tracebed
