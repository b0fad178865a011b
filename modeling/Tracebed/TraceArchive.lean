import Tracebed.Shred
import Tracebed.TraceStore

/-!
# The Archive Reader

`ingest/trace_archive.py`: the strict reader of completed traces. It takes the terminal index
row of a run, reads every object the row refers to, checks the framing, the header and the
key bindings of each, decrypts all sections and hands out the events `0, …, end_seq`, or
raises one of a few sanitised errors. `operationalError` stands for the retryable failures of the
database, `osError` for those of the operating system and of the object store's HTTP client.
-/

open Py Prod

namespace Tracebed

variable {D : Type}

/-! ### Errors -/

/-- `TraceArchiveDisposition`. -/
inductive TraceArchiveDisposition
  | retry | dead | privacySkip
  deriving DecidableEq

/-- The fixed codes of a `TraceArchiveReadError`. -/
inductive ArchiveCode
  | traceUnavailable | archiveInvalid | archiveAuthFailed | archiveDigestMismatch
  | privacyTombstoned
  deriving DecidableEq

def ArchiveCode.text : ArchiveCode → String
  | traceUnavailable => "trace_unavailable"
  | archiveInvalid => "archive_invalid"
  | archiveAuthFailed => "archive_auth_failed"
  | archiveDigestMismatch => "archive_digest_mismatch"
  | privacyTombstoned => "privacy_tombstoned"

/-- `TraceArchiveReadError`. -/
structure TraceArchiveReadError where
  disposition : TraceArchiveDisposition
  code : ArchiveCode
  observedDigest : Option Bytes := none
  deriving DecidableEq

/-- What leaves the reader: its own error or another exception. -/
inductive ReadFailure
  | read (e : TraceArchiveReadError)
  | raised (e : PyError)
  deriving DecidableEq

abbrev Reading := Except ReadFailure

/-- `_dead_invalid()`. -/
def deadInvalid : ReadFailure := .read { disposition := .dead, code := .archiveInvalid }

/-- `_retry_unavailable()`. -/
def retryUnavailable : ReadFailure := .read { disposition := .retry, code := .traceUnavailable }

namespace Reading

variable {α : Type}

/-- A test of the reader. -/
def check (b : Bool) : Reading Unit := if b then .ok () else .error deadInvalid

/-- A value the reader insists on. -/
def orDead : Option α → Reading α
  | some a => .ok a
  | none => .error deadInvalid

/-- A computation whose exceptions pass through. -/
def lift (x : Except PyError α) : Reading α := x.mapError .raised

@[simp] theorem check_eq_ok {b : Bool} {u : Unit} : check b = .ok u ↔ b = true := by
  cases b <;> simp [check]

@[simp] theorem orDead_eq_ok {x : Option α} {a : α} : orDead x = .ok a ↔ x = some a := by
  cases x <;> simp [orDead]

@[simp] theorem lift_eq_ok {x : Except PyError α} {a : α} : lift x = .ok a ↔ x = .ok a :=
  Fallible.mapError_eq_ok

end Reading

open Reading

/-! ### The collaborators and the result -/

/-- The collaborators of a reader. -/
structure ArchiveReader (D : Type) where
  prims : Primitives
  pydantic : Pydantic D
  /-- `TraceIndexReadPort.get_trace_index`. -/
  getTraceIndex : ProjectId → RunId → Except PyError (TraceIndexRow D)
  /-- `TraceStorePort.get`. -/
  get : ProjectId → PayloadRef → Except PyError Bytes
  /-- `SubjectKeyManager.decrypt`. -/
  decrypt : ProjectId → EncryptedPayload → Except PyError (List DecryptedSection)

variable (P : Primitives) (R : ArchiveReader D) (project : ProjectId) (run : RunId)

/-- `SubjectKeyBinding`. -/
structure SubjectKeyBinding where
  subjectTag : Option PyStr
  keyId : UUID
  subjectDigest : Option Bytes

/-- `ArchivedTrace`. -/
structure ArchivedTrace (D : Type) where
  index : TraceIndexRow D
  events : List (TraceEvent D)
  traceDigest : Bytes
  subjectKeyBindings : List SubjectKeyBinding

/-- `_ArchiveObject`. -/
structure ArchiveObject where
  ref : PayloadRef
  refText : PyStr
  raw : Bytes
  payload : EncryptedPayload
  firstSeq : ℕ
  lastSeq : ℕ
  version : ℕ

/-! ### The index row -/

/-- The index row, or the reader's error for a missing row and a lost connection. -/
def readIndex : Reading (TraceIndexRow D) :=
  match R.getTraceIndex project run with
  | .ok row => .ok row
  | .error (.notFound _) => .error deadInvalid
  | .error .operationalError => .error retryUnavailable
  | .error e => .error (.raised e)

/-- A text with a character that is no white space. -/
def nonblankText : Json → Option PyStr
  | .str s => if s.any (!isSpaceChar ·) then some s else none
  | _ => none

/-- The one closed range of a complete trace. -/
def strictRange (endSeq : ℕ) : Json → Reading Unit
  | .arr [.arr [.int lo, .int hi]] => check (lo = 0 && hi = endSeq && hi ≤ maxTraceSeq)
  | _ => .error deadInvalid

/-- The references of the path. -/
def strictRefs : Json → Reading (List PyStr)
  | .arr raw => do
      check (!raw.isEmpty)
      orDead (raw.mapM nonblankText)
  | _ => .error deadInvalid

/-- `_strict_index_path(index)`. -/
def strictIndexPath (index : TraceIndexRow D) : Reading (ℕ × RunEndStatus × List PyStr) := do
  let path ← orDead index.path
  let endSeq ← orDead (parseSeq (Dict.get path pathEndSeq))
  let endStatus ← orDead (parseEndStatus (Dict.get path pathEndStatus))
  strictRange endSeq (Dict.get path pathSeqRanges)
  let refs ← strictRefs (Dict.get path pathPayloadRefs)
  check (refs.Nodup && index.payloadRef = refs.head?)
  pure (endSeq, endStatus, refs)

/-! ### References -/

variable (ref : PayloadRef)

/-- The last part of an archive key that has the layout of its driver. -/
def refLeaf (project : ProjectId) (run : RunId) : Except PyError PyStr :=
  match ref.driver, ref.key.splitOn 47 with
  | .fs, [projectPart, runPart, file] => do
      require (projectPart = project.value.str && runPart = run.value.str &&
        (str ".tbz").isSuffixOf file) (.valueError "invalid fs archive key")
      pure (file.take (file.length - 4))
  | .fs, _ => .error (.valueError "invalid fs archive key")
  | .s3, [bucket, tb, projectPart, runPart, leaf] => do
      require (!bucket.isEmpty && tb = str "tb" && projectPart = project.value.str &&
        runPart = run.value.str) (.valueError "invalid s3 archive key")
      pure leaf
  | .s3, _ => .error (.valueError "invalid s3 archive key")

/-- `_ref_first_seq(ref, project_id, run_id)`. -/
def refFirstSeq (project : ProjectId) (run : RunId) : Except PyError ℕ := do
  let leaf ← refLeaf ref project run
  require (leaf.length = 8 && leaf.all isDigit) (.valueError "invalid archive sequence key")
  pure (ofDecimal leaf)

/-- A reference with its text and its first sequence number. -/
structure ValidatedRef where
  text : PyStr
  ref : PayloadRef
  firstSeq : ℕ

/-- The first loop of `_read_objects`. -/
def validateRef (endSeq : ℕ) (text : PyStr) : Reading ValidatedRef := do
  let ref ← lift (PayloadRef.parse text)
  check (isSafeKey ref.key)
  let first ← lift (refFirstSeq ref project run)
  check (first ≤ endSeq && first ≤ maxTraceSeq)
  pure ⟨text, ref, first⟩

/-! ### Objects -/

/-- The options of the reader's `json.loads`: repeated keys and constants are refused. -/
def strictOptions : Json.LoadOptions := ⟨true, true⟩

/-- One line of an object: any JSON dictionary. -/
def strictLine (line : PyStr) : Reading Unit := do
  let value ← lift (orRaise (Json.loads strictOptions line) (.valueError "invalid JSON"))
  check (asDict value).isSome

/-- `_strict_payload(raw)`. -/
def strictPayload (raw : Bytes) : Reading EncryptedPayload := do
  let text ← lift (orRaise (utf8Decode raw) (.valueError "invalid UTF-8"))
  check (!(text.contains 13 || text.getLast? ≠ some 10))
  let lines := (text.splitOn 10).dropLast
  check (!(lines.isEmpty || lines.any List.isEmpty))
  lines.forM strictLine
  lift (EncryptedPayload.fromBytes P raw)

def headerRange (header : Dict) : Reading (ℕ × ℕ) := do
  let first ← orDead (parseSeq (field header "first_seq"))
  let last ← orDead (parseSeq (field header "last_seq"))
  check (first ≤ last)
  pure (first, last)

/-- The header names this project and this run. -/
def headerOwned (header : Dict) (project : ProjectId) (run : RunId) : Bool :=
  Json.pyEq (field header "project_id") (.str project.value.str) &&
    Json.pyEq (field header "run_id") (.str run.value.str)

/-- `_validate_header(payload, project_id, run_id)`. -/
def validateHeader (payload : EncryptedPayload) (project : ProjectId) (run : RunId) :
    Reading (ℕ × ℕ) :=
  let header := payload.header
  let isV2Fmt := Json.pyEq (field header "fmt") (.str v2EnvelopeFmt)
  let isV2 := Json.pyEq (field header "v") (.int v2EnvelopeVersion)
  if isV2Fmt || isV2 then do
    check (isV2 && isV2Fmt && headerOwned header project run)
    headerRange header
  else do
    check (Dict.hasKeys header
      (["v", "fmt", "alg", "project_id", "run_id", "first_seq", "last_seq"].map str))
    check (Json.pyEq (field header "v") (.int envelopeVersion) &&
      Json.pyEq (field header "fmt") (.str envelopeFmt) &&
      Json.pyEq (field header "alg") (.str envelopeAlg) && headerOwned header project run)
    headerRange header

/-- `_strict_b64(raw)`. -/
def strictB64 : Json → Except PyError Bytes
  | .str s => orRaise (b64decode s) (.valueError "invalid base64")
  | _ => .error (.valueError "invalid base64")

/-- `MAX_SUBJECT_TAG_CHARS`. -/
def maxSubjectTagChars : ℕ := 128

/-- The tags of a version 1 section. -/
def legacyTags : Json → Reading (List PyStr)
  | .arr raw => do
      check (raw.length ≤ maxWrapsPerSection)
      let tags ← orDead (raw.mapM fun v => match v with
        | .str s => if !s.isEmpty && s.length ≤ maxSubjectTagChars then some s else none
        | _ => none)
      check tags.Nodup
      pure tags
  | _ => .error deadInvalid

/-- One wrap of a version 1 section; returns its tag. -/
def legacyWrapTag : Json → Reading PyStr
  | .obj wrap => do
      check (Dict.hasKeys wrap (["tag", "key_id", "nonce", "share"].map str))
      let tag ← orDead (nonemptyText (field wrap "tag"))
      let _ ← orDead (readUuid (field wrap "key_id"))
      let nonce ← lift (strictB64 (field wrap "nonce"))
      let share ← lift (strictB64 (field wrap "share"))
      check (nonce.length = nonceLen && share.length = keyLen + 16)
      pure tag
  | _ => .error deadInvalid
where
  /-- A text that is not empty. -/
  nonemptyText : Json → Option PyStr
    | .str s => if s.isEmpty then none else some s
    | _ => none

/-- The wraps of a version 1 section. -/
def legacyWrapList : Json → Reading (List Json)
  | .arr (w :: ws) => .ok (w :: ws)
  | _ => .error deadInvalid

/-- The sequence range of a version 1 section behind the one before. -/
def legacySectionRange (previous : Option ℕ) (s : Dict) : Reading (ℕ × ℕ) := do
  check (Dict.hasKeys s
    (["seq_from", "seq_to", "subject_tags", "nonce", "ct", "wraps"].map str))
  let lo ← orDead (parseSeq (field s "seq_from"))
  let hi ← orDead (parseSeq (field s "seq_to"))
  check (lo ≤ hi)
  let wraps ← legacyWrapList (field s "wraps")
  let tags ← legacyTags (field s "subject_tags")
  let expected := if tags.isEmpty then [projectSubjectTag] else tags
  check (wraps.length = expected.length && wraps.length ≤ maxWrapsPerSection)
  let observed ← wraps.mapM legacyWrapTag
  check (observed = expected)
  let nonce ← lift (strictB64 (field s "nonce"))
  let ciphertext ← lift (strictB64 (field s "ct"))
  check (nonce.length = nonceLen && 16 < ciphertext.length)
  check (previous.all (· < lo))
  pure (lo, hi)

/-- The sequence ranges of version 1 sections. -/
def legacyRanges (previous : Option ℕ) : List Dict → Reading (List (ℕ × ℕ))
  | [] => .ok []
  | s :: rest => do
      let range ← legacySectionRange previous s
      let others ← legacyRanges (some range.2) rest
      pure (range :: others)

/-- `_validate_encrypted_section_ranges(payload, first, last)`. A version 2 payload has been
checked by its parser. -/
def validateEncryptedSectionRanges (payload : EncryptedPayload) (first last : ℕ) :
    Reading Unit := do
  check (!payload.sections.isEmpty)
  if Json.pyEq (field payload.header "v") (.int v2EnvelopeVersion) then pure ()
  else
    let ranges ← legacyRanges none payload.sections
    check ((ranges.map fst).min? = some first && (ranges.map snd).max? = some last)

def headerVersion? : Json → Option ℕ
  | .int n =>
    if n = envelopeVersion then some envelopeVersion
    else if n = v2EnvelopeVersion then some v2EnvelopeVersion
    else none
  | _ => none

/-- The bytes of an object; a missing one may only be late. -/
def fetchObject : Reading Bytes :=
  match R.get project ref with
  | .ok raw => .ok raw
  | .error (.notFound _) => .error retryUnavailable
  | .error .osError => .error retryUnavailable
  | .error e => .error (.raised e)

/-- The second loop of `_read_objects`. -/
def readObject (v : ValidatedRef) : Reading ArchiveObject := do
  let raw ← fetchObject R project v.ref
  let payload ← strictPayload R.prims raw
  let (first, last) ← validateHeader payload project run
  check (first = v.firstSeq)
  validateEncryptedSectionRanges payload first last
  let version ← orDead (headerVersion? (field payload.header "v"))
  pure ⟨v.ref, v.text, raw, payload, first, last, version⟩

/-- The UTF-8 form of a reference. -/
def refBytes (text : PyStr) : Reading Bytes :=
  lift (orRaise (utf8Encode text) (.valueError "surrogates not allowed"))

/-- An object with the bytes of its reference. -/
def keyedObject (o : ArchiveObject) : Reading (ArchiveObject × Bytes) := do
  let bytes ← refBytes o.refText
  pure (o, bytes)

/-- The order of objects: by first sequence number, then by reference. -/
def objectLe (a b : ArchiveObject × Bytes) : Bool :=
  if a.1.firstSeq = b.1.firstSeq then bytesLe a.2 b.2 else a.1.firstSeq ≤ b.1.firstSeq

/-- `_read_objects(project_id, run_id, refs, end_seq=...)`, with the bytes of the references. -/
def readObjects (refs : List PyStr) (endSeq : ℕ) : Reading (List (ArchiveObject × Bytes)) := do
  check (refs.length ≤ endSeq + 1)
  let validated ← refs.mapM (validateRef project run endSeq)
  let objects ← validated.mapM (readObject R project run)
  let keyed ← objects.mapM keyedObject
  pure (keyed.insertionSort fun a b => objectLe a b = true)

/-! ### Key bindings -/

/-- A digest with the tag and the key it was wrapped under. -/
structure WrapIdentity where
  digest : Bytes
  tag : Option PyStr
  keyId : UUID
  deriving DecidableEq

def wrapIdentity (version : ℕ) : Json → Reading WrapIdentity
  | .obj wrap => do
      let keyId ← orDead (readUuid (field wrap "key_id"))
      if version = v2EnvelopeVersion then
        let digest ← (b64dCanonical (field wrap "digest")).mapError fun _ => deadInvalid
        pure ⟨digest, none, keyId⟩
      else
        match field wrap "tag" with
        | .str tag => do
            let digest ← lift (subjectDigest P project tag)
            pure ⟨digest, some tag, keyId⟩
        | _ => .error deadInvalid
  | _ => .error deadInvalid

/-- `by_digest.setdefault(digest, (tag, key_id))`: one digest has one key. -/
def addIdentity (known : List WrapIdentity) (w : WrapIdentity) : Reading (List WrapIdentity) :=
  match known.find? fun k => k.digest = w.digest with
  | none => .ok (known ++ [w])
  | some old => (check (old.keyId = w.keyId)).map fun _ => known

def sectionWraps (s : Dict) : Reading (List Json) :=
  match field s "wraps" with
  | .arr wraps => .ok wraps
  | _ => .error deadInvalid

/-- The identities of a section added to those known. -/
def sectionIdentities (version : ℕ) (known : List WrapIdentity) (s : Dict) :
    Reading (List WrapIdentity) := do
  let wraps ← sectionWraps s
  wraps.foldlM (fun known wrap => do
    let w ← wrapIdentity P project version wrap
    addIdentity known w) known

/-- The order of bindings: tags first, then digests. -/
def identityLe (a b : WrapIdentity) : Bool :=
  match a.tag, b.tag with
  | some s, some t => strLe s t
  | some _, none => true
  | none, some _ => false
  | none, none => bytesLe a.digest b.digest

/-- `_subject_key_bindings(project_id, objects)`. -/
def subjectKeyBindings (objects : List ArchiveObject) : Reading (List SubjectKeyBinding) := do
  let known ← objects.foldlM (fun known o =>
    o.payload.sections.foldlM (sectionIdentities P project o.version) known) []
  pure ((known.insertionSort fun a b => identityLe a b = true).map fun w =>
    ⟨w.tag, w.keyId, if w.tag.isNone then some w.digest else none⟩)

/-! ### The digest of the ciphertext -/

/-- `_DIGEST_DOMAIN`. -/
def archiveDigestDomain : Bytes := domain "tracebed.archive-ciphertext/v1"

/-- `_ciphertext_digest(project_id, run_id, objects)`. -/
def ciphertextDigest (objects : List (ArchiveObject × Bytes)) : Bytes :=
  P.sha256 (archiveDigestDomain ++ project.value.bytes ++ run.value.bytes ++
    toBytesBE 4 objects.length ++ objects.flatMap fun (o, ref) =>
      toBytesBE 8 o.firstSeq ++ toBytesBE 8 o.lastSeq ++ toBytesBE 4 ref.length ++ ref ++
        toBytesBE 8 o.raw.length ++ o.raw)

/-! ### Sections -/

/-- The events decoded so far, in the order they were read. -/
abbrev Decoded (D : Type) := List (ℕ × TraceEvent D)

variable (P : Primitives) (R : ArchiveReader D) (project : ProjectId) (decoded : Decoded D)
  (s : PlainSection)

/-- The tags of an event are those its section was encrypted for. -/
def checkSectionTags (tags : List PyStr) : Reading Unit :=
  if s.envelopeVersion = v2EnvelopeVersion then do
    let pairs ← (subjectDigestPairs P project tags).mapError fun _ => deadInvalid
    check (pairs.map fst = s.subjectDigests)
  else check (tags = s.subjectTags)

/-- One line of `_validate_plain_section`. -/
def validateLine (previous : ℤ) (decoded : Decoded D) (line : Bytes) :
    Reading (ℕ × TraceEvent D) := do
  let text ← lift (orRaise (utf8Decode line) (.valueError "invalid UTF-8"))
  let value ← lift (orRaise (Json.loads strictOptions text) (.valueError "invalid JSON"))
  let m ← orDead (asDict value)
  check (Dict.hasKeys m [str "seq", str "event"])
  match field m "seq", field m "event" with
  | .int seq, .obj event => do
      check ((s.seqFrom : ℤ) ≤ seq && seq ≤ s.seqTo && previous < seq &&
        !(decoded.any fun d => d.1 = seq.toNat))
      let event ← lift (validateEvent R.pydantic (.obj event))
      checkSectionTags R.prims project s (subjectTagsFor event)
      pure (seq.toNat, event)
  | _, _ => .error deadInvalid

/-- The loop of `_validate_plain_section`: what its lines add to `decoded`. -/
def validateLines (R : ArchiveReader D) (project : ProjectId) (s : PlainSection) (previous : ℤ)
    (decoded : Decoded D) : List Bytes → Reading (Decoded D)
  | [] => .ok []
  | line :: rest => do
      let d ← validateLine R project s previous decoded line
      let others ← validateLines R project s d.1 (decoded ++ [d]) rest
      pure (d :: others)

/-- `_validate_plain_section(project_id, section, decoded, run_ends)`. -/
def validatePlainSection (decoded : Decoded D) : Reading (Decoded D) := do
  check (!s.lines.isEmpty)
  let new ← validateLines R project s (-1) decoded s.lines
  check ((new.map fst).min? = some s.seqFrom && (new.map fst).max? = some s.seqTo)
  pure (decoded ++ new)

/-- The loop over the sections of one object. A tombstone is remembered and passed over. -/
def readSection (acc : Decoded D × Bool) : DecryptedSection → Reading (Decoded D × Bool)
  | .tombstoned _ => .ok (acc.1, true)
  | .plain s => do
      let decoded ← validatePlainSection R project s acc.1
      pure (decoded, acc.2)

def decryptObject (o : ArchiveObject) : Reading (List DecryptedSection) :=
  match R.decrypt project o.payload with
  | .ok sections => .ok sections
  | .error .operationalError => .error retryUnavailable
  | .error e => .error (.raised e)

def readDecrypted (acc : Decoded D × Bool) (o : ArchiveObject) : Reading (Decoded D × Bool) := do
  let sections ← decryptObject R project o
  sections.foldlM (readSection R project) acc

/-- The `run_end` events that were decoded. -/
def runEnds : Decoded D := decoded.filter fun d => d.2.type = .runEnd

/-- The decoded sequence numbers are `0, …, end_seq`. -/
def coversRange (endSeq : ℕ) : Bool :=
  (decoded.all fun d => d.1 ≤ endSeq) &&
    (List.range (endSeq + 1)).all fun k => decoded.any fun d => d.1 = k

/-- The one `run_end` is the recorded sentinel. -/
def checkRunEnd [DecidableEq D] (index : TraceIndexRow D) (endSeq : ℕ) (endStatus : RunEndStatus)
    (decoded : Decoded D) : Reading Unit :=
  match runEnds decoded with
  | [(seq, event)] => do
      check (seq = endSeq && event.type = .runEnd)
      check (parseEndStatus (Dict.get event.payload (str "status")) = some endStatus)
      check (TraceOutcomeStatus.ofEnd endStatus = index.outcomeStatus &&
        some event.ts = index.endedAt)
  | _ => .error deadInvalid

/-! ### The whole archive -/

/-- The row is terminal, of this run, and ended when the caller expects. -/
def checkIndex [DecidableEq D] (index : TraceIndexRow D) (project : ProjectId) (run : RunId)
    (expectedEndedAt : Option D) : Reading Unit := do
  check (index.projectId = project && index.runId = run)
  check (index.outcomeStatus.isTerminal && index.endedAt.isSome)
  check (expectedEndedAt.isNone || index.endedAt = expectedEndedAt)

/-- The digest is the one the caller expects. -/
def checkDigest (expected : Option Bytes) (digest : Bytes) : Reading Unit :=
  if expected.all (· = digest) then .ok ()
  else .error (.read ⟨.dead, .archiveDigestMismatch, some digest⟩)

/-- `_read_complete(project_id, run_id, ...)`. -/
def readCompleteInner [DecidableEq D] (R : ArchiveReader D) (project : ProjectId) (run : RunId)
    (expectedDigest : Option Bytes) (expectedEndedAt : Option D) : Reading (ArchivedTrace D) := do
  let index ← readIndex R project run
  checkIndex index project run expectedEndedAt
  let (endSeq, endStatus, refs) ← strictIndexPath index
  let objects ← readObjects R project run refs endSeq
  let bindings ← subjectKeyBindings R.prims project (objects.map fst)
  let observedVersions := (objects.map fun o => o.1.version).dedup.insertionSort fun a b => a ≤ b
  check (index.envelopeVersions = observedVersions)
  let digest := ciphertextDigest R.prims project run objects
  checkDigest expectedDigest digest
  let (decoded, tombstoned) ←
    (objects.map fst).foldlM (readDecrypted R project) ([], false)
  if tombstoned then .error (.read ⟨.privacySkip, .privacyTombstoned, some digest⟩)
  else do
    check (coversRange decoded endSeq)
    checkRunEnd index endSeq endStatus decoded
    pure ⟨index, (List.range (endSeq + 1)).filterMap fun k => decoded.lookup k, digest, bindings⟩

/-- The exception handlers of `read_complete`. -/
def ReadFailure.sanitized : ReadFailure → ReadFailure
  | .raised (.masterKeyMissing _) | .raised (.keyMaterialUnavailable _) | .raised .osError =>
    retryUnavailable
  | .raised (.keyBindingMismatch _) | .raised (.notFound _) => deadInvalid
  | .raised .invalidTag => .read { disposition := .dead, code := .archiveAuthFailed }
  | .raised (.valueError _) | .raised (.typeError _) => deadInvalid
  | e => e

/-- `read_complete(project_id, run_id, expected_digest=..., expected_ended_at=...)`. -/
def readComplete [DecidableEq D] (R : ArchiveReader D) (project : ProjectId) (run : RunId)
    (expectedDigest : Option Bytes) (expectedEndedAt : Option D) : Reading (ArchivedTrace D) :=
  (do
    check (expectedDigest.all fun d : Bytes => d.length = 32)
    readCompleteInner R project run expectedDigest expectedEndedAt).mapError
      ReadFailure.sanitized

end Tracebed
