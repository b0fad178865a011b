import Tracebed.Assembly
import Tracebed.ShadowValidator

/-!
# Memory Items on Their Way In

`domain/memory.py`, `domain/scan.py` and `core/scans`: the provenance of a memory, the item a
writer hands to the repository, the digest of its content and the verdict that it was scanned.

A `NewMemoryItem` carries what its `__post_init__` checks, so an item with a status no creation
edge leads to, or with a scope that names nobody, cannot be handed on.
-/

open Py Fallible

namespace Tracebed

/-- `Lane`: which learning lane produced an item. -/
inductive Lane
  | operational | quality
  deriving DecidableEq

/-- `Provenance`, with the fields only the writers and the forensics read. -/
structure ProvenanceRecord extends Provenance where
  toolRefs : List PyStr := []
  inputSigHashes : List Bytes := []
  principal : Option PrincipalId := none

/-- What building or checking an item can raise. -/
inductive ItemError
  | provenanceIncomplete (cls : ProvenanceClass)
  | illegalTransition (status : Status)
  | valueError (message : String)
  | scanRejected (reasons : List String)
  | scanVerdictForgery (message : String)
  | unicodeEncodeError

/-- The field `REQUIRED_PROVENANCE_FIELDS` names for the class is present. -/
def ProvenanceRecord.complete (p : ProvenanceRecord) : Bool :=
  match p.cls with
  | .parser | .distiller => p.traceIds ≠ []
  | .humanVerdict => p.verdictId.isSome
  | .proposal => p.runId.isSome
  | .operator => p.principal.isSome

/-- `validate_provenance`. -/
def validateProvenance (p : ProvenanceRecord) : Except ItemError Unit :=
  ensure p.complete (.provenanceIncomplete p.cls)

/-- `LEGAL_CREATION_STATUSES`: the targets of the creation edges. -/
def legalCreation (status : Status) : Bool := (transitions none status).isSome

/-- The fields of a `NewMemoryItem`; `id` is minted by the repository. -/
structure MemoryItemFields where
  scopeType : ScopeType
  scopeId : Option UUID
  memType : MemType
  kind : String
  lane : Lane
  trustTier : TrustTier
  status : Status
  content : PyStr
  tokenCount : ℕ
  provenance : ProvenanceRecord

/-- `NewMemoryItem`: fields that passed its checks. -/
structure NewMemoryItem extends MemoryItemFields where
  legal : legalCreation status = true
  owned : scopeId.isSome = decide (scopeType ≠ .projectShared)

/-- `NewMemoryItem(...)`. -/
def MemoryItemFields.make (f : MemoryItemFields) : Except ItemError NewMemoryItem :=
  if hlegal : legalCreation f.status = true then
    if howned : f.scopeId.isSome = decide (f.scopeType ≠ .projectShared) then
      .ok { toMemoryItemFields := f, legal := hlegal, owned := howned }
    else if f.scopeType = .projectShared then
      .error (.valueError "PROJECT_SHARED memory must not carry a scope_id")
    else .error (.valueError "scope_type requires a scope_id")
  else .error (.illegalTransition f.status)

theorem MemoryItemFields.toFields_of_make {f : MemoryItemFields} {item : NewMemoryItem}
    (h : f.make = .ok item) : item.toMemoryItemFields = f := by
  simp only [make] at h
  split_ifs at h
  cases h
  rfl

/-- What hashing and signing rest on: the normal form of a text, SHA-256, and the signature of
the process that scanned. -/
structure ScanSeal where
  nfc : PyStr → PyStr
  sha256 : Bytes → Bytes
  sign : UUID → PyStr → PyStr → ℤ → Bytes

/-- `content_hash`: the digest of the normalised text, unless it has no encoding. -/
def contentHash (S : ScanSeal) (content : PyStr) : Except ItemError PyStr := do
  let encoded ← orThrow (utf8Encode (S.nfc content)) .unicodeEncodeError
  return (S.sha256 encoded).flatMap fun b => hexDigits 2 b.toNat

/-- `ScanContext`. -/
structure ScanContext where
  projectId : ProjectId
  memType : MemType
  trustTier : TrustTier
  provenanceClass : ProvenanceClass
  lane : Lane

/-- `ScanResult`. -/
structure ScanResult where
  passed : Bool
  reasons : List String
  contentHash : PyStr
  suiteVersion : PyStr

/-- `ScanVerdict`. -/
structure ScanVerdict where
  verdictId : UUID
  contentHash : PyStr
  suiteVersion : PyStr
  issuedAtMs : ℤ
  sig : Bytes

/-- `ScanResult.verdict`, with the identifier and the instant it draws. -/
def ScanResult.verdict (S : ScanSeal) (result : ScanResult) (verdictId : UUID) (issuedAtMs : ℤ) :
    Except ItemError ScanVerdict := do
  ensure result.passed (.scanRejected result.reasons)
  return {
    verdictId
    contentHash := result.contentHash
    suiteVersion := result.suiteVersion
    issuedAtMs
    sig := S.sign verdictId result.contentHash result.suiteVersion issuedAtMs }

/-- `verify_verdict`. -/
def verifyVerdict (S : ScanSeal) (v : ScanVerdict) (expected : PyStr) : Except ItemError Unit := do
  ensure (S.sign v.verdictId v.contentHash v.suiteVersion v.issuedAtMs = v.sig)
    (.scanVerdictForgery "scan verdict signature does not match this process's signing key")
  ensure (v.contentHash = expected)
    (.scanVerdictForgery "scan verdict content_hash does not match the content being inserted")

/-- `_estimate_token_count`. -/
def estimateTokenCount (content : PyStr) : ℕ := max 1 (content.length / 4)

end Tracebed
