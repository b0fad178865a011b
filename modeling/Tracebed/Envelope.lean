import Tracebed.Subjects
import Tracebed.Lib.Base64

/-!
# The Trace-Payload Envelope

`crypto/envelope.py` and `EncryptedPayload` of `crypto/shred.py`: the JSONL wire format of
an encrypted trace batch, one header line and one line per section. Version 2 (`tb-env/2`)
has strict framing: every line must parse without repeated keys and serialise back to
itself, and `validateV2Envelope` checks every field. Version 1 lines are read leniently.

The three `build…Aad` functions frame what AES-GCM authenticates next to each ciphertext.
-/

open Py

namespace Tracebed

/-! ### Constants -/

/-- `ENVELOPE_VERSION`. -/
def envelopeVersion : ℕ := 1
/-- `ENVELOPE_FMT`. -/
def envelopeFmt : PyStr := str "tb-env/1"
/-- `ENVELOPE_ALG`. -/
def envelopeAlg : PyStr := str "AES-256-GCM"
/-- `V2_ENVELOPE_VERSION`. -/
def v2EnvelopeVersion : ℕ := 2
/-- `V2_ENVELOPE_FMT`. -/
def v2EnvelopeFmt : PyStr := str "tb-env/2"
/-- `V2_SPLIT`. -/
def v2Split : PyStr := str "XOR-ALL/v1"
/-- `V2_WRAP_ALG`. -/
def v2WrapAlg : PyStr := str "AES-256-GCM"
/-- `KEY_LEN`. -/
def keyLen : ℕ := 32
/-- `NONCE_LEN`. -/
def nonceLen : ℕ := 12
/-- `MAX_SUBJECT_DIGESTS`. -/
def maxSubjectDigests : ℕ := 64
/-- `_MAX_SEQ`. -/
def maxSeq : ℕ := 2 ^ 40
/-- `MAX_SECTIONS`. -/
def maxSections : ℕ := 10000

/-! ### Associated data -/

/-- A domain separator: ASCII text and a NUL byte. -/
def domain (s : String) : Bytes := (str s).map UInt8.ofNat ++ [0]

/-- `_V2_SECTION_AAD_DOMAIN`. -/
def v2SectionAadDomain : Bytes := domain "tracebed.section-aad/v2"
/-- `_V2_SHARE_AAD_DOMAIN`. -/
def v2ShareAadDomain : Bytes := domain "tracebed.share-aad/v2"
/-- `_V2_KEK_AAD_DOMAIN`. -/
def v2KekAadDomain : Bytes := domain "tracebed.kek-aad/v2"

/-- `_validate_subject_digest_bytes(digests)`. -/
def validateSubjectDigestBytes (digests : List Bytes) : Except PyError Unit := do
  require (digests.length ≤ maxSubjectDigests)
    (.valueError "v2 envelope has too many subject digests")
  require (digests.all fun d => d.length = keyLen)
    (.valueError "v2 envelope subject digest is invalid")
  require (digests.insertionSort (fun a b => bytesLe a b = true) = digests && digests.Nodup)
    (.valueError "v2 envelope subject digests are not sorted and unique")

/-- `build_v2_section_aad(...)`. -/
def buildV2SectionAad (project : ProjectId) (run : RunId) (sectionIndex seqFrom seqTo : ℕ)
    (digests : List Bytes) : Except PyError Bytes := do
  require (sectionIndex < 2 ^ 32) (.valueError "v2 envelope section index is invalid")
  require (seqFrom < maxSeq) (.valueError "v2 envelope sequence is invalid")
  require (seqTo < maxSeq) (.valueError "v2 envelope sequence is invalid")
  require (seqFrom ≤ seqTo) (.valueError "section sequence range is invalid")
  validateSubjectDigestBytes digests
  pure (v2SectionAadDomain ++ project.value.bytes ++ run.value.bytes ++
    toBytesBE 4 sectionIndex ++ toBytesBE 8 seqFrom ++ toBytesBE 8 seqTo ++
    toBytesBE 2 digests.length ++ digests.flatten)

variable (P : Primitives)

/-- `build_v2_share_aad(section_aad, wrap_index, wrap_digest, key_id)`. -/
def buildV2ShareAad (sectionAad : Bytes) (wrapIndex : ℕ) (wrapDigest : Bytes) (keyId : UUID) :
    Except PyError Bytes := do
  require (wrapIndex < 2 ^ 16) (.valueError "v2 envelope wrap index is invalid")
  validateSubjectDigestBytes [wrapDigest]
  pure (v2ShareAadDomain ++ P.sha256 sectionAad ++ toBytesBE 2 wrapIndex ++ wrapDigest ++
    keyId.bytes)

/-- `build_v2_kek_aad(project_id, digest, key_id)`. -/
def buildV2KekAad (project : ProjectId) (digest : Bytes) (keyId : UUID) : Except PyError Bytes := do
  validateSubjectDigestBytes [digest]
  pure (v2KekAadDomain ++ project.value.bytes ++ digest ++ keyId.bytes)

/-! ### Lines -/

/-- `dumps_v2_line(obj)`. -/
def dumpsV2Line (m : Dict) : Except PyError Bytes := do
  let rendered ← orRaise (Json.dumps ⟨true, true, false⟩ (.obj m))
    (.valueError "v2 envelope line is not JSON encodable")
  let ascii ← orRaise (asciiEncode rendered) (.valueError "ordinal not in range(128)")
  pure (ascii ++ [10])

/-- `dumps_line(obj)`, the version 1 form: insertion order, non-ASCII text as it is. -/
def dumpsLine (m : Dict) : Except PyError Bytes := do
  let rendered ← orRaise (Json.dumps ⟨false, false, true⟩ (.obj m))
    (.valueError "integer string conversion")
  orRaise (utf8Encode (rendered ++ [10])) (.valueError "surrogates not allowed")

/-- One line of a version 2 envelope: parsed without repeated keys, and serialised back to
itself. -/
def loadsV2Line (line : Bytes) : Except PyError Dict := do
  let decoded ← orRaise (utf8Decode line) (.valueError "v2 envelope JSON is invalid")
  let item ← orRaise (Json.loads ⟨true, false⟩ decoded)
    (.valueError "v2 envelope JSON is invalid")
  match item with
  | .obj m => do
      let rendered ← dumpsV2Line m
      require (rendered = line ++ [10]) (.valueError "v2 envelope JSON is not canonical")
      pure m
  | _ => .error (.valueError "v2 envelope JSON is not canonical")

variable (raw : Bytes)

/-- `loads_v2_lines(raw)`. -/
def loadsV2Lines : Except PyError (List Dict) := do
  require (!(raw.isEmpty || [0xEF, 0xBB, 0xBF].isPrefixOf raw || raw.getLast? ≠ some 10 ||
    raw.contains 13)) (.valueError "v2 envelope framing is invalid")
  let lines := raw.dropLast.splitOn 10
  require (!(lines.isEmpty || lines.any List.isEmpty))
    (.valueError "v2 envelope framing is invalid")
  lines.mapM loadsV2Line

/-- `loads_lines(raw)`: blank lines are skipped. -/
def loadsLines : Except PyError (List Json) := do
  let text ← orRaise (utf8Decode raw) (.valueError "invalid UTF-8")
  ((text.splitOn 10).filter fun line => !line.isEmpty).mapM fun line =>
    orRaise (Json.loads .default line) (.valueError "invalid JSON")

/-! ### Field validators -/

/-- `_validate_v2_uint(value, label, bits=...)` and `_validate_v2_sequence(value)`: an
integer that is no `bool`, in `[0, bound)`. -/
def validateV2Nat (bound : ℕ) (msg : String) : Json → Except PyError ℕ
  | .int n => if 0 ≤ n ∧ n < bound then .ok n.toNat else .error (.valueError msg)
  | _ => .error (.valueError msg)

/-- `_validate_v2_uint(value, label, bits=32)`. -/
def validateV2Uint32 (label : String) (v : Json) : Except PyError ℕ :=
  validateV2Nat (2 ^ 32) ("v2 envelope " ++ label ++ " is invalid") v

/-- `_validate_v2_sequence(value)`. -/
def validateV2Sequence (v : Json) : Except PyError ℕ :=
  validateV2Nat maxSeq "v2 envelope sequence is invalid" v

/-- `_canonical_uuid(value)`. -/
def canonicalUuid : Json → Except PyError UUID
  | .str s => do
      let parsed ← orRaise (UUID.parse s) (.valueError "v2 envelope UUID is invalid")
      require (parsed.str = s) (.valueError "v2 envelope UUID is not canonical")
      pure parsed
  | _ => .error (.valueError "v2 envelope UUID is invalid")

/-- `b64d_canonical(data)`. -/
def b64dCanonical : Json → Except PyError Bytes
  | .str s => orRaise (b64decodeCanonical s) (.valueError "envelope base64 field is invalid")
  | _ => .error (.valueError "envelope base64 field is invalid")

/-- `_v2_digests(value)`. -/
def v2Digests : Json → Except PyError (List Bytes)
  | .arr l => do
      let digests ← l.mapM b64dCanonical
      validateSubjectDigestBytes digests
      pure digests
  | _ => .error (.valueError "v2 envelope subject digests are invalid")

/-! ### The whole envelope -/

/-- `expected_header`. -/
def expectedHeader : List PyStr :=
  ["alg", "first_seq", "fmt", "last_seq", "project_id", "run_id", "section_count", "split",
    "v", "wrap_alg"].map str

/-- `expected_section`. -/
def expectedSection : List PyStr :=
  ["ct", "nonce", "section_index", "seq_from", "seq_to", "subject_digests", "wraps"].map str

/-- `expected_wrap`. -/
def expectedWrap : List PyStr := ["digest", "key_id", "nonce", "share"].map str

/-- `m.get("...")`. -/
def field (m : Dict) (k : String) : Json := Dict.get m (str k)

/-- One entry of `wraps`, against the digest expected in its place. -/
def validateV2Wrap (wrap : Json) (expectedDigest : Bytes) : Except PyError Unit :=
  match wrap with
  | .obj w => do
      require (Dict.hasKeys w expectedWrap) (.valueError "v2 envelope wrap keys are invalid")
      let digest ← b64dCanonical (field w "digest")
      require (digest = expectedDigest) (.valueError "v2 envelope wrap order is invalid")
      let _ ← canonicalUuid (field w "key_id")
      let wrapNonce ← b64dCanonical (field w "nonce")
      let share ← b64dCanonical (field w "share")
      require (wrapNonce.length = nonceLen && share.length = keyLen + 16)
        (.valueError "v2 envelope wrapped share is invalid")
  | _ => .error (.valueError "v2 envelope wrap keys are invalid")

/-- The loop over `wraps`: each wrap against its digest, which exceeds the one before. -/
def validateV2Wraps (previous : Option Bytes) : List (Json × Bytes) → Except PyError Unit
  | [] => .ok ()
  | (wrap, expectedDigest) :: rest => do
      validateV2Wrap wrap expectedDigest
      require (previous.all fun p => !bytesLe expectedDigest p)
        (.valueError "v2 envelope wrap order is invalid")
      validateV2Wraps (some expectedDigest) rest

/-- One section of the envelope; returns its sequence range. -/
def validateV2Section (sentinel : Bytes) (index : ℕ) (previousSeqTo : Option ℕ) (s : Dict) :
    Except PyError (ℕ × ℕ) := do
  require (Dict.hasKeys s expectedSection) (.valueError "v2 envelope section keys are invalid")
  let sectionIndex ← validateV2Uint32 "section index" (field s "section_index")
  require (sectionIndex = index) (.valueError "v2 envelope section order is invalid")
  let seqFrom ← validateV2Sequence (field s "seq_from")
  let seqTo ← validateV2Sequence (field s "seq_to")
  require (seqFrom ≤ seqTo) (.valueError "v2 envelope section sequence range is invalid")
  require (previousSeqTo.all fun p => p < seqFrom)
    (.valueError "v2 envelope sections are not strictly ordered")
  let digests ← v2Digests (field s "subject_digests")
  require (!digests.contains sentinel) (.valueError "v2 envelope subject digest is reserved")
  let nonce ← b64dCanonical (field s "nonce")
  let ciphertext ← b64dCanonical (field s "ct")
  require (nonce.length = nonceLen && 16 < ciphertext.length)
    (.valueError "v2 envelope ciphertext is invalid")
  match field s "wraps" with
  | .arr wraps => do
      let expectedDigests := if digests.isEmpty then [sentinel] else digests
      require (wraps.length = expectedDigests.length)
        (.valueError "v2 envelope wrap count is invalid")
      validateV2Wraps none (wraps.zip expectedDigests)
      pure (seqFrom, seqTo)
  | _ => .error (.valueError "v2 envelope wraps are invalid")

/-- The loop over the sections. The accumulator is `observed_first` and `observed_last`;
`previous_seq_to` is the end of the section before. -/
def validateV2Sections (sentinel : Bytes) (index : ℕ) (previousSeqTo : Option ℕ)
    (observed : Option (ℕ × ℕ)) : List Dict → Except PyError (Option (ℕ × ℕ))
  | [] => .ok observed
  | s :: rest => do
      let range ← validateV2Section sentinel index previousSeqTo s
      let observed := match observed with
        | none => range
        | some o => (min o.1 range.1, max o.2 range.2)
      validateV2Sections sentinel (index + 1) (some range.2) (some observed) rest

variable (header : Dict)

/-- `validate_v2_envelope(header, sections)`. -/
def validateV2Envelope (sections : List Dict) : Except PyError Unit := do
  require (Dict.hasKeys header expectedHeader) (.valueError "v2 envelope header keys are invalid")
  require (Json.pyEq (field header "alg") (.str envelopeAlg) &&
      Json.pyEq (field header "fmt") (.str v2EnvelopeFmt) &&
      Json.pyEq (field header "split") (.str v2Split) &&
      Json.pyEq (field header "v") (.int v2EnvelopeVersion) &&
      Json.pyEq (field header "wrap_alg") (.str v2WrapAlg))
    (.valueError "v2 envelope header values are invalid")
  let project ← canonicalUuid (field header "project_id")
  let _ ← canonicalUuid (field header "run_id")
  let sectionCount ← validateV2Uint32 "section count" (field header "section_count")
  require (1 ≤ sectionCount && sectionCount ≤ maxSections && sectionCount = sections.length)
    (.valueError "v2 envelope section count is invalid")
  let firstSeq ← validateV2Sequence (field header "first_seq")
  let lastSeq ← validateV2Sequence (field header "last_seq")
  require (firstSeq ≤ lastSeq) (.valueError "v2 envelope sequence range is invalid")
  let sentinel ← subjectDigest P ⟨project⟩ projectSubjectTag
  let observed ← validateV2Sections sentinel 0 none none sections
  require (observed = some (firstSeq, lastSeq))
    (.valueError "v2 envelope header sequence range is invalid")

/-- `EncryptedPayload`: the parsed form of the wire format. -/
structure EncryptedPayload where
  header : Dict
  sections : List Dict

/-- The header names version 2. -/
def isV2Header : Bool :=
  Json.pyEq (field header "fmt") (.str v2EnvelopeFmt) &&
    Json.pyEq (field header "v") (.int v2EnvelopeVersion)

/-- `serialize_v2_envelope(header, sections)`. -/
def serializeV2Envelope (sections : List Dict) : Except PyError Bytes := do
  validateV2Envelope P header sections
  let first ← dumpsV2Line header
  let rest ← sections.mapM dumpsV2Line
  pure (first ++ rest.flatten)

/-- `EncryptedPayload.to_bytes`. -/
def EncryptedPayload.toBytes (payload : EncryptedPayload) : Except PyError Bytes :=
  if isV2Header payload.header then serializeV2Envelope P payload.header payload.sections
  else do
    let first ← dumpsLine payload.header
    let rest ← payload.sections.mapM dumpsLine
    pure (first ++ rest.flatten)

/-- The dictionary a JSON value is. -/
def asDict : Json → Option Dict
  | .obj m => some m
  | _ => none

/-- The version 1 path of `EncryptedPayload.from_bytes`. -/
def EncryptedPayload.fromBytesV1 : Except PyError EncryptedPayload := do
  let lines ← (loadsLines raw).mapError fun _ =>
    .valueError "EncryptedPayload.from_bytes: not valid JSONL"
  require (!lines.isEmpty) (.valueError "EncryptedPayload.from_bytes: empty payload")
  let dicts ← orRaise (lines.mapM asDict)
    (.valueError "EncryptedPayload.from_bytes: every line must be a JSON object")
  match dicts with
  | [] => .error (.valueError "EncryptedPayload.from_bytes: empty payload")
  | header :: sections => do
      require (Json.pyEq (field header "fmt") (.str envelopeFmt) &&
          Json.pyEq (field header "v") (.int envelopeVersion))
        (.valueError "EncryptedPayload.from_bytes: unsupported envelope")
      require (Json.pyEq (field header "alg") (.str envelopeAlg))
        (.valueError "EncryptedPayload.from_bytes: unsupported alg")
      require (sections.length ≤ maxSections)
        (.valueError "EncryptedPayload.from_bytes: too many sections")
      pure ⟨header, sections⟩

/-- `EncryptedPayload.from_bytes(raw)`: a fully canonical version 2 object takes the strict
path before the lenient version 1 decoder. -/
def EncryptedPayload.fromBytes : Except PyError EncryptedPayload :=
  match loadsV2Lines raw with
  | .ok (header :: sections) =>
    if isV2Header header then do
      validateV2Envelope P header sections
      pure ⟨header, sections⟩
    else EncryptedPayload.fromBytesV1 raw
  | _ => EncryptedPayload.fromBytesV1 raw

end Tracebed
