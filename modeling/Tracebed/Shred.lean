import Tracebed.Envelope
import Tracebed.Lib.XorShares

/-!
# Crypto-Shredding

`crypto/shred.py`: every section of a trace batch is encrypted under a fresh data key; the data
key is split into one XOR share per subject the section mentions (the reserved project subject
when it mentions none), and each share is encrypted under that subject's own key. Destroying one
subject's key makes every section that mentions the subject unreadable. Code that reads and
creates keys and draws random bytes runs in `Keyed`: it threads the `subject_key` table of the
project and the random tape, and raises.

`SubjectKeyManager.decrypt` reads anything but a version 2 payload as version 1: a section names
its subjects by their raw tags, its wraps are bound to the key rows of those tags, and its Base64
is read leniently. An erased legacy row has lost its tag and is found by its digest.
-/

open Py

namespace Tracebed

variable {D : Type} (P : Primitives) (master : Bytes) (project : ProjectId)

/-! ### The subject-key table -/

/-- `SubjectKeyRow`. The creation time is left out: nothing here reads it. -/
structure SubjectKeyRow (D : Type) where
  subjectTag : Option PyStr
  keyId : UUID
  wrappedKek : Bytes
  destroyedAt : Option D
  subjectDigest : Option Bytes
  wrapVersion : ℕ

/-- The `subject_key` rows of one project. -/
abbrev KeyTable (D : Type) := List (SubjectKeyRow D)

variable (keys : KeyTable D) (digest : Bytes)

/-- The row `SELECT ... WHERE subject_digest = ...` returns. -/
def KeyTable.find : Option (SubjectKeyRow D) :=
  List.find? (fun r => r.subjectDigest = some digest) keys

/-- `get_subject_key_by_digest(project_id, subject_digest)`. -/
def getSubjectKeyByDigest : Except PyError (Option (SubjectKeyRow D)) := do
  require (digest.length = 32) (.valueError "subject digest is invalid")
  pure (keys.find digest)

/-- `insert_subject_key_v2(project_id, subject_digest, key_id, wrapped_kek)`: an existing
row wins. -/
def insertSubjectKeyV2 (keyId : UUID) (wrappedKek : Bytes) : Except PyError (KeyTable D) := do
  require (digest.length = 32) (.valueError "subject digest is invalid")
  require (wrappedKek.length = 60) (.valueError "v2 subject key material is invalid")
  match keys.find digest with
  | some _ => pure keys
  | none => pure (keys ++ [⟨none, keyId, wrappedKek, none, some digest, 2⟩])

/-- Destroying a row: the key material and the raw tag go, the identity stays. -/
def SubjectKeyRow.destroy (now : D) (r : SubjectKeyRow D) : SubjectKeyRow D :=
  if r.destroyedAt.isSome then r
  else { r with destroyedAt := some now, wrappedKek := [], subjectTag := none }

/-- The erasure executor's update: destroy the live keys with the given digests. -/
def KeyTable.destroy (now : D) (digests : List Bytes) (keys : KeyTable D) : KeyTable D :=
  keys.map fun r =>
    if digests.any fun d => r.subjectDigest = some d then r.destroy now else r

/-! ### Steps that read keys and draw random bytes -/

/-- What such a step threads through. -/
structure KeySession (D : Type) where
  keys : KeyTable D
  tape : Tape

/-- A step on the key table and the random tape that can raise. -/
abbrev Keyed (D : Type) := StateT (KeySession D) (Except PyError)

namespace Keyed

variable {α β : Type}

/-- A check or a pure computation that can raise. -/
def lift (x : Except PyError α) : Keyed D α := fun s => x.map fun a => (a, s)

/-- `random_bytes(n)`. -/
def randomBytes (n : ℕ) : Keyed D Bytes :=
  fun s => .ok ((urandom n s.tape).1, { s with tape := (urandom n s.tape).2 })

/-- A sequence of two steps returns exactly when both do. -/
theorem bind_eq_ok {x : Keyed D α} {f : α → Keyed D β} {s s' : KeySession D} {b : β} :
    (x >>= f) s = .ok (b, s') ↔ ∃ a t, x s = .ok (a, t) ∧ f a t = .ok (b, s') := by
  change (x s >>= fun p => f p.1 p.2) = .ok (b, s') ↔ _
  rw [Fallible.bind_eq_ok]
  constructor
  · rintro ⟨⟨a, t⟩, h⟩
    exact ⟨a, t, h⟩
  · rintro ⟨a, t, h⟩
    exact ⟨(a, t), h⟩

@[simp] theorem pure_eq_ok {a b : α} {s s' : KeySession D} :
    (pure a : Keyed D α) s = .ok (b, s') ↔ a = b ∧ s = s' := by
  change (Except.ok (a, s) : Except PyError _) = .ok (b, s') ↔ _
  simp

@[simp] theorem lift_eq_ok {x : Except PyError α} {a : α} {s s' : KeySession D} :
    lift x s = .ok (a, s') ↔ x = .ok a ∧ s = s' := by
  cases x <;> simp [lift, Except.map]

@[simp] theorem randomBytes_eq_ok {n : ℕ} {b : Bytes} {s s' : KeySession D} :
    randomBytes n s = .ok (b, s') ↔
      (urandom n s.tape).1 = b ∧ { s with tape := (urandom n s.tape).2 } = s' := by
  simp [randomBytes]

end Keyed

/-! ### Key-encryption keys -/

/-- `_kek_wrap_aad(project_id, subject_tag, key_id)`, the version 1 binding. -/
def kekWrapAad (tag : PyStr) (keyId : UUID) : Except PyError Bytes := do
  let encoded ← orRaise (utf8Encode (project.value.str ++ [0x1F] ++ tag))
    (.valueError "surrogates not allowed")
  pure (encoded ++ [0x1F] ++ keyId.bytes)

/-- An authentication failure while unwrapping a KEK is an operator condition. -/
def unwrapError : PyError → PyError
  | .invalidTag => .keyMaterialUnavailable "subject key material is unavailable"
  | e => e

/-- `_unwrap_kek(wrapped, ...)`. -/
def unwrapKek (wrapped : Bytes) (project : ProjectId) (tag : PyStr) (keyId : UUID) :
    Except PyError Bytes := do
  let aad ← kekWrapAad project tag keyId
  (P.aesgcmDecrypt master (wrapped.take nonceLen) (wrapped.drop nonceLen) aad).mapError
    unwrapError

/-- `_unwrap_v2_or_legacy_kek(project_id, digest, row)`. -/
def unwrapV2OrLegacyKek (row : SubjectKeyRow D) : Except PyError Bytes :=
  if row.wrapVersion = 1 then
    match row.subjectTag with
    | none => .error (.keyBindingMismatch "subject key binding mismatch")
    | some tag => unwrapKek P master row.wrappedKek project tag row.keyId
  else do
    require (row.wrapVersion = 2 && row.wrappedKek.length = nonceLen + keyLen + 16)
      (.keyBindingMismatch "subject key binding mismatch")
    let aad ← buildV2KekAad project digest row.keyId
    (P.aesgcmDecrypt master (row.wrappedKek.take nonceLen) (row.wrappedKek.drop nonceLen)
      aad).mapError unwrapError

/-- The key of an existing row, for new content. -/
def existingV2Kek (row : SubjectKeyRow D) : Except PyError Bytes := do
  require (row.subjectDigest.all (· = digest))
    (.keyBindingMismatch "subject key binding mismatch")
  if row.wrapVersion = 1 then
    require row.destroyedAt.isNone (.tombstoned "subject key has been shredded")
    match row.subjectTag with
    | none => .error (.keyBindingMismatch "subject key binding mismatch")
    | some tag => do
        let own ← subjectDigest P project tag
        require (own = digest) (.keyBindingMismatch "subject key binding mismatch")
        unwrapKek P master row.wrappedKek project tag row.keyId
  else
    require (row.wrapVersion = 2 && row.subjectTag.isNone)
      (.keyBindingMismatch "subject key binding mismatch")
    require row.destroyedAt.isNone (.tombstoned "subject key has been shredded")
    unwrapV2OrLegacyKek P master project digest row

/-- A new key for a subject without one, wrapped under the master key and stored. -/
def createV2Kek : Keyed D (Bytes × UUID) := do
  let kek ← Keyed.randomBytes keyLen
  let random ← Keyed.randomBytes 16
  let keyId := UUID.ofRandom random
  let nonce ← Keyed.randomBytes nonceLen
  let aad ← Keyed.lift (buildV2KekAad project digest keyId)
  let ct ← Keyed.lift (P.aesgcmEncrypt master nonce kek aad)
  fun s => (insertSubjectKeyV2 s.keys digest keyId (nonce ++ ct)).map fun keys =>
    ((kek, keyId), { s with keys := keys })

/-- `_get_or_create_v2_kek(project_id, digest)`. -/
def getOrCreateV2Kek : Keyed D (Bytes × UUID) := do
  Keyed.lift (require (digest.length = 32) (.valueError "v2 subject digest is invalid"))
  let row? ← fun s => (getSubjectKeyByDigest s.keys digest).map fun r => (r, s)
  match row? with
  | some row => do
      let kek ← Keyed.lift (existingV2Kek P master project digest row)
      pure (kek, row.keyId)
  | none => createV2Kek P master project digest

/-! ### Sections -/

/-- `PlainSection`. -/
structure PlainSection where
  seqFrom : ℕ
  seqTo : ℕ
  subjectTags : List PyStr
  lines : List Bytes
  subjectDigests : List Bytes := []
  envelopeVersion : ℕ := 1
  deriving DecidableEq

/-- `TombstonedSection`. -/
structure TombstonedSection where
  seqFrom : ℕ
  seqTo : ℕ
  subjectTags : List PyStr
  subjectDigests : List Bytes := []
  envelopeVersion : ℕ := 1
  deriving DecidableEq

/-- What decryption gives for a section. -/
inductive DecryptedSection
  | plain (s : PlainSection)
  | tombstoned (s : TombstonedSection)
  deriving DecidableEq

/-- The sequence number of a canonical event line: both plaintext checks read it so. -/
def lineSequence (line : Bytes) : Except PyError ℤ := do
  let decoded ← orRaise (utf8Decode line) (.valueError "v2 envelope plaintext is invalid")
  let value ← orRaise (Json.loads .default decoded)
    (.valueError "v2 envelope plaintext is invalid")
  match value with
  | .obj m => do
      require (Dict.hasKeys m [str "seq", str "event"])
        (.valueError "v2 envelope plaintext is not canonical")
      match field m "seq" with
      | .int n => do
          let canonical ← canonicalJson value
          require (canonical = line) (.valueError "v2 envelope plaintext is not canonical")
          pure n
      | _ => .error (.valueError "v2 envelope plaintext is not canonical")
  | _ => .error (.valueError "v2 envelope plaintext is not canonical")

/-- The sequence numbers of the lines: inside the section's range and increasing. -/
def lineSequences (seqFrom seqTo : ℕ) (previous : Option ℤ) :
    List Bytes → Except PyError (List ℤ)
  | [] => .ok []
  | line :: rest => do
      let n ← lineSequence line
      require ((seqFrom : ℤ) ≤ n && n ≤ seqTo && previous.all (· < n))
        (.valueError "v2 envelope plaintext sequence is invalid")
      let others ← lineSequences seqFrom seqTo (some n) rest
      pure (n :: others)

/-- The lines with a newline behind each. -/
def joinLines (lines : List Bytes) : Bytes := (lines.map (· ++ [10])).flatten

/-- The check both directions make on the lines of a section: they are canonical, in order,
and span the section's range exactly. -/
def checkLines (seqFrom seqTo : ℕ) (lines : List Bytes) : Except PyError Unit := do
  let seqs ← lineSequences seqFrom seqTo none lines
  require (seqs.head? = some (seqFrom : ℤ) && seqs.getLast? = some (seqTo : ℤ))
    (.valueError "v2 envelope plaintext sequence is invalid")

/-- `_v2_plaintext(section)`. -/
def v2Plaintext (s : PlainSection) : Except PyError Bytes := do
  require (!s.lines.isEmpty) (.valueError "v2 envelope plaintext is empty")
  checkLines s.seqFrom s.seqTo s.lines
  pure (joinLines s.lines)

/-- `_v2_decrypt_plaintext(plaintext, seq_from, seq_to)`. -/
def v2DecryptPlaintext (plaintext : Bytes) (seqFrom seqTo : ℕ) : Except PyError (List Bytes) := do
  require (plaintext.getLast? = some 10) (.valueError "v2 envelope plaintext is invalid")
  let lines := plaintext.dropLast.splitOn 10
  require (!(lines.isEmpty || lines.any List.isEmpty))
    (.valueError "v2 envelope plaintext is invalid")
  checkLines seqFrom seqTo lines
  pure lines

/-! ### Encryption -/

/-- A JSON text. -/
def jstr (s : PyStr) : Json := .str s

/-- A JSON number. -/
def jnat (n : ℕ) : Json := .int n

def wrapDict (keyId : UUID) (nonce share : Bytes) : Dict :=
  [(str "digest", jstr (b64encode digest)), (str "key_id", jstr keyId.str),
    (str "nonce", jstr (b64encode nonce)), (str "share", jstr (b64encode share))]

/-- The loop over the wraps of a section. -/
def encryptWraps (P : Primitives) (master : Bytes) (project : ProjectId)
    (sectionAad : Bytes) : ℕ → List (Bytes × Bytes) → Keyed D (List Dict)
  | _, [] => pure []
  | wrapIndex, (digest, share) :: rest => do
      let (kek, keyId) ← getOrCreateV2Kek P master project digest
      let wrapNonce ← Keyed.randomBytes nonceLen
      let shareAad ← Keyed.lift (buildV2ShareAad P sectionAad wrapIndex digest keyId)
      let encryptedShare ← Keyed.lift (P.aesgcmEncrypt kek wrapNonce share shareAad)
      let others ← encryptWraps P master project sectionAad (wrapIndex + 1) rest
      pure (wrapDict digest keyId wrapNonce encryptedShare :: others)

def sectionDict (ct nonce : Bytes) (sectionIndex seqFrom seqTo : ℕ) (digests : List Bytes)
    (wraps : List Dict) : Dict :=
  [(str "ct", jstr (b64encode ct)), (str "nonce", jstr (b64encode nonce)),
    (str "section_index", jnat sectionIndex), (str "seq_from", jnat seqFrom),
    (str "seq_to", jnat seqTo),
    (str "subject_digests", .arr (digests.map fun d => jstr (b64encode d))),
    (str "wraps", .arr (wraps.map .obj))]

/-- `split_dek(dek, n)`. -/
def splitDek (dek : Bytes) (n : ℕ) : Keyed D (List Bytes) := fun s =>
  match splitShares dek n s.tape with
  | some (shares, tape) => .ok (shares, { s with tape := tape })
  | none => .error (.valueError "split_dek: n must be >= 1")

/-- **XOR sharing is correct and secret.** Every split combines to the data key, in any order
of the shares. Whichever share is left out, a bijection of the random bytes, one that keeps
the bytes after the split, gives two keys of one length the same other shares. -/
theorem splitDek_correct_secret :
    (∀ (dek : Bytes) (n : ℕ) (s : KeySession D), 1 ≤ n → ∃ shares s',
      splitDek dek n s = .ok (shares, s') ∧ shares.length = n ∧
        ∀ shares', shares'.Perm shares → combineShares shares' = some dek) ∧
    ∀ (a b : Bytes) (n j : ℕ), a.length = b.length → 2 ≤ n → j < n →
      ∃ m, Function.Bijective (maskTape m) ∧ ∀ s : KeySession D, ∃ sa sb s',
        splitDek a n s = .ok (sa, s') ∧
        splitDek b n { s with tape := maskTape m s.tape } = .ok (sb, s') ∧
        ∀ i, i ≠ j → sa[i]? = sb[i]? := by
  constructor
  · intro dek n s hn
    obtain ⟨⟨shares, t⟩, hsplit⟩ : ∃ p, splitShares dek n s.tape = some p := by
      rw [splitShares, if_neg (by omega)]
      split_ifs <;> exact ⟨_, rfl⟩
    obtain ⟨hcombine, hlen, hlens⟩ := combineShares_splitShares hsplit
    refine ⟨shares, _, by rw [splitDek, hsplit], hlen, fun shares' hperm => ?_⟩
    rw [combineShares_perm hlens hperm, hcombine]
  · intro a b n j hab hn hj
    obtain ⟨m, hm⟩ := splitShares_secret hab hn hj
    refine ⟨m, maskTape_bijective m, fun s => ?_⟩
    obtain ⟨sa, sb, t', ha, hb, hsame⟩ := hm s.tape
    exact ⟨sa, sb, _, by rw [splitDek, ha], by simp only [splitDek, hb], hsame⟩

/-- The digests a section's data key is split over: its own subjects', or the project's. -/
def wrapDigests (declared : List Bytes) : Except PyError (List Bytes) :=
  if declared.isEmpty then (subjectDigest P project projectSubjectTag).map fun d => [d]
  else .ok declared

variable (run : RunId)

/-- The body of the loop of `encrypt_v2` for one section. -/
def encryptSection (sectionIndex : ℕ) (previousSeqTo : Option ℕ) (s : PlainSection) :
    Keyed D Dict := do
  Keyed.lift (require (s.seqFrom ≤ s.seqTo && s.seqTo < maxSeq)
    (.valueError "v2 envelope section sequence range is invalid"))
  Keyed.lift (require (previousSeqTo.all fun p => p < s.seqFrom)
    (.valueError "v2 envelope sections are not strictly ordered"))
  let pairs ← Keyed.lift (subjectDigestPairs P project s.subjectTags)
  let declared := pairs.map Prod.fst
  let wrapped ← Keyed.lift (wrapDigests P project declared)
  let plaintext ← Keyed.lift (v2Plaintext s)
  let sectionAad ← Keyed.lift
    (buildV2SectionAad project run sectionIndex s.seqFrom s.seqTo declared)
  let dek ← Keyed.randomBytes keyLen
  let nonce ← Keyed.randomBytes nonceLen
  let ciphertext ← Keyed.lift (P.aesgcmEncrypt dek nonce plaintext sectionAad)
  let shares ← splitDek dek wrapped.length
  let wraps ← encryptWraps P master project sectionAad 0 (wrapped.zip shares)
  pure (sectionDict ciphertext nonce sectionIndex s.seqFrom s.seqTo declared wraps)

/-- The loop of `encrypt_v2` over the sections. -/
def encryptSections (P : Primitives) (master : Bytes) (project : ProjectId) (run : RunId) :
    ℕ → Option ℕ → List PlainSection → Keyed D (List Dict)
  | _, _, [] => pure []
  | index, previousSeqTo, s :: rest => do
      let encoded ← encryptSection P master project run index previousSeqTo s
      let others ← encryptSections P master project run (index + 1) (some s.seqTo) rest
      pure (encoded :: others)

/-- The header of a version 2 envelope. -/
def v2Header (firstSeq lastSeq sectionCount : ℕ) : Dict :=
  [(str "alg", jstr envelopeAlg), (str "first_seq", jnat firstSeq),
    (str "fmt", jstr v2EnvelopeFmt), (str "last_seq", jnat lastSeq),
    (str "project_id", jstr project.value.str), (str "run_id", jstr run.value.str),
    (str "section_count", jnat sectionCount), (str "split", jstr v2Split),
    (str "v", jnat v2EnvelopeVersion), (str "wrap_alg", jstr v2WrapAlg)]

variable (sections : List PlainSection)

/-- `first_seq` and `last_seq` as the loop accumulates them. -/
def sequenceSpan : Option (ℕ × ℕ) :=
  sections.foldl (fun acc s => match acc with
    | none => some (s.seqFrom, s.seqTo)
    | some o => some (min o.1 s.seqFrom, max o.2 s.seqTo)) none

/-- `encrypt_v2(project_id, run_id, sections)`. -/
def encryptV2 : Keyed D EncryptedPayload := do
  Keyed.lift (require (!(sections.isEmpty || maxSections < sections.length))
    (.valueError "v2 envelope section count is invalid"))
  let encoded ← encryptSections P master project run 0 none sections
  let span ← Keyed.lift (orRaise (sequenceSpan sections) (.runtimeError "AssertionError"))
  pure ⟨v2Header project run span.1 span.2 encoded.length, encoded⟩

/-! ### Decryption -/

variable (label : String)

/-- `_as_str(raw, field)`. -/
def asStr : Json → Except PyError PyStr
  | .str s => .ok s
  | _ => .error (.valueError ("envelope: " ++ label ++ " must be a string"))

/-- `_as_int(raw, field)`. -/
def asInt : Json → Except PyError ℕ
  | .int n => if 0 ≤ n ∧ n < maxSeq then .ok n.toNat
      else .error (.valueError ("envelope: " ++ label ++ " out of range"))
  | _ => .error (.valueError ("envelope: " ++ label ++ " must be an int"))

/-- `_as_list(raw, field)`. -/
def asList : Json → Except PyError (List Json)
  | .arr l => .ok l
  | _ => .error (.valueError ("envelope: " ++ label ++ " must be a list"))

/-- `_as_wrap(raw)`. -/
def asWrap : Json → Except PyError Dict
  | .obj m => .ok m
  | _ => .error (.valueError "envelope: each entry of section.wraps must be an object")

/-- `UUID(_as_str(raw, field))`, where a wrong type and a wrong text raise alike. -/
def readUuid : Json → Option UUID
  | .str s => UUID.parse s
  | _ => none

/-- A wrap bound to its retained key row. -/
structure Binding (D : Type) where
  wrap : Dict
  digest : Bytes
  keyId : UUID
  row : SubjectKeyRow D

/-- The first pass over the wraps: every wrap must name the key row retained for its digest,
whether or not that key is destroyed. -/
def bindWrap (rawWrap : Json) : Except PyError (Binding D) := do
  let wrap ← asWrap rawWrap
  let digest ← b64dCanonical (field wrap "digest")
  let keyId ← orRaise (readUuid (field wrap "key_id"))
    (.valueError "v2 envelope key id is invalid")
  let row? ← getSubjectKeyByDigest keys digest
  match row? with
  | none => .error (.keyBindingMismatch "subject key binding mismatch")
  | some row => do
      require (row.keyId = keyId) (.keyBindingMismatch "subject key binding mismatch")
      match row.subjectDigest, row.subjectTag with
      | some own, _ =>
        require (own = digest) (.keyBindingMismatch "subject key binding mismatch")
      | none, none => .error (.keyBindingMismatch "subject key binding mismatch")
      | none, some tag => do
          let own ← subjectDigest P project tag
          require (own = digest) (.keyBindingMismatch "subject key binding mismatch")
      pure ⟨wrap, digest, keyId, row⟩

/-- A failed authentication of a share is corruption of the archive. -/
def shareError : PyError → PyError
  | .invalidTag => .keyBindingMismatch "v2 wrapped share authentication failed"
  | e => e

/-- The second pass: the share of every live key, authenticated; `none` for a destroyed
key. -/
def openShare (sectionAad : Bytes) (wrapIndex : ℕ) (b : Binding D) :
    Except PyError (Option Bytes) :=
  if b.row.destroyedAt.isSome then .ok none
  else do
    let kek ← unwrapV2OrLegacyKek P master project b.digest b.row
    let nonce ← b64dCanonical (field b.wrap "nonce")
    let share ← b64dCanonical (field b.wrap "share")
    let shareAad ← buildV2ShareAad P sectionAad wrapIndex b.digest b.keyId
    let opened ← (P.aesgcmDecrypt kek nonce share shareAad).mapError shareError
    pure (some opened)

/-- The loop of the second pass. -/
def openShares (P : Primitives) (master : Bytes) (project : ProjectId) (sectionAad : Bytes) :
    ℕ → List (Binding D) → Except PyError (List (Option Bytes))
  | _, [] => .ok []
  | index, b :: rest => do
      let opened ← openShare P master project sectionAad index b
      let others ← openShares P master project sectionAad (index + 1) rest
      pure (opened :: others)

/-- A failed authentication of the section itself. -/
def sectionError : PyError → PyError
  | .invalidTag => .valueError "v2 envelope ciphertext authentication failed"
  | e => e

/-- The body of the loop of `_decrypt_v2` for one section. -/
def decryptV2Section (keys : KeyTable D) (raw : Dict) : Except PyError DecryptedSection := do
  let seqFrom ← asInt "section.seq_from" (field raw "seq_from")
  let seqTo ← asInt "section.seq_to" (field raw "seq_to")
  let sectionIndex ← asInt "section.section_index" (field raw "section_index")
  let rawDigests ← asList "section.subject_digests" (field raw "subject_digests")
  let digests ← rawDigests.mapM b64dCanonical
  let sectionAad ← buildV2SectionAad project run sectionIndex seqFrom seqTo digests
  let wraps ← asList "section.wraps" (field raw "wraps")
  let bindings ← wraps.mapM (bindWrap P project keys)
  let opened ← openShares P master project sectionAad 0 bindings
  if opened.any Option.isNone then
    pure (.tombstoned ⟨seqFrom, seqTo, [], digests, v2EnvelopeVersion⟩)
  else do
    let dek ← orRaise (combineShares (opened.filterMap id))
      (.valueError "combine_shares: share length mismatch")
    let nonce ← b64dCanonical (field raw "nonce")
    let ciphertext ← b64dCanonical (field raw "ct")
    let plaintext ← (P.aesgcmDecrypt dek nonce ciphertext sectionAad).mapError sectionError
    let lines ← v2DecryptPlaintext plaintext seqFrom seqTo
    pure (.plain ⟨seqFrom, seqTo, [], lines, digests, v2EnvelopeVersion⟩)

/-- `_decrypt_v2(project_id, payload)`. -/
def decryptV2 (project : ProjectId) (payload : EncryptedPayload) :
    Except PyError (List DecryptedSection) := do
  let headerProject ← asStr "header.project_id" (field payload.header "project_id")
  require (headerProject = project.value.str) (.notFound "trace payload not found")
  let runText ← asStr "header.run_id" (field payload.header "run_id")
  let run ← orRaise (UUID.parse runText) (.valueError "badly formed hexadecimal UUID string")
  payload.sections.mapM (decryptV2Section P master project ⟨run⟩ keys)

end Tracebed

/-! ### Decryption of either version -/

namespace Tracebed

variable {D : Type}

/-- `MAX_WRAPS_PER_SECTION`. -/
def maxWrapsPerSection : ℕ := 64

/-- `get_subject_key(project_id, subject_tag)`. -/
def getSubjectKey (keys : KeyTable D) (tag : PyStr) : Option (SubjectKeyRow D) :=
  List.find? (fun r => r.subjectTag = some tag) keys

/-- `_as_b64(raw, field)`. -/
def asB64 (label : String) (v : Json) : Except PyError Bytes := do
  let text ← asStr label v
  let ascii ← orRaise (asciiEncode text)
    (.valueError ("envelope: " ++ label ++ " is not valid base64"))
  orRaise (b64decodeLenient (ascii.map UInt8.toNat))
    (.valueError ("envelope: " ++ label ++ " is not valid base64"))

/-- `str(n)`. -/
def strInt (n : ℤ) : PyStr := if n < 0 then 45 :: decimal n.natAbs else decimal n.natAbs

/-- `build_aad(project_id, run_id, seq_from, seq_to)`: ASCII text throughout. -/
def buildAad (project : ProjectId) (run : RunId) (seqFrom seqTo : ℤ) : Bytes :=
  (project.value.str ++ 0x1F :: (run.value.str ++ 0x1F :: (strInt seqFrom ++ 0x1F ::
    strInt seqTo))).map UInt8.ofNat

/-- A version 1 wrap bound to its key row. -/
structure LegacyBinding (D : Type) where
  wrap : Dict
  tag : PyStr
  keyId : UUID
  row : SubjectKeyRow D

def wrapTag (rawWrap : Json) : Except PyError PyStr := do
  let wrap ← asWrap rawWrap
  asStr "wrap.tag" (field wrap "tag")

variable (P : Primitives)

/-- The first pass over the wraps of a version 1 section. A row without the tag counts only
as the tombstone of the same key. -/
def bindLegacyWrap (project : ProjectId) (keys : KeyTable D) (rawWrap : Json) :
    Except PyError (LegacyBinding D) := do
  let wrap ← asWrap rawWrap
  let tag ← asStr "wrap.tag" (field wrap "tag")
  let keyId ← orRaise (readUuid (field wrap "key_id"))
    (.valueError "envelope: wrap.key_id is not a UUID")
  let row? ← match getSubjectKey keys tag with
    | some row => pure (some row)
    | none => do
        let digest ← subjectDigest P project tag
        getSubjectKeyByDigest keys digest
  let row ← orRaise row? (.keyBindingMismatch "subject key binding mismatch")
  require (row.keyId = keyId) (.keyBindingMismatch "subject key binding mismatch")
  require (row.destroyedAt.isSome || row.subjectTag = some tag)
    (.keyBindingMismatch "subject key binding mismatch")
  pure ⟨wrap, tag, keyId, row⟩

/-- A failed authentication of a version 1 share. -/
def legacyShareError : PyError → PyError
  | .invalidTag => .keyBindingMismatch "wrapped share authentication failed"
  | e => e

variable (master : Bytes)

/-- The second pass: the share of a live key; `none` for a destroyed one. -/
def openLegacyShare (project : ProjectId) (b : LegacyBinding D) : Except PyError (Option Bytes) :=
  if b.row.destroyedAt.isSome then .ok none
  else do
    let kek ← unwrapKek P master b.row.wrappedKek project b.tag b.row.keyId
    let wrapNonce ← asB64 "wrap.nonce" (field b.wrap "nonce")
    let shareCt ← asB64 "wrap.share" (field b.wrap "share")
    let share ← (P.aesgcmDecrypt kek wrapNonce shareCt b.keyId.bytes).mapError legacyShareError
    pure (some share)

/-- The wraps of a version 1 section: a list with at least one entry. -/
def legacyWraps : Json → Except PyError (List Json)
  | .arr (w :: ws) => .ok (w :: ws)
  | _ => .error (.valueError "envelope: section.wraps must be a non-empty list")

/-- The lines of a version 1 plaintext: nonblank, each with its newline. -/
def legacyLines (plaintext : Bytes) : Except PyError (List Bytes) := do
  let rawLines := plaintext.splitOn 10
  require (rawLines.getLast? = some [] && !rawLines.dropLast.isEmpty &&
      !rawLines.dropLast.any List.isEmpty)
    (.valueError "envelope: plaintext must be nonblank canonical JSONL")
  pure rawLines.dropLast

/-- `_decrypt_section(project_id, run_id, raw_section)`. -/
def decryptSection (project : ProjectId) (run : RunId) (keys : KeyTable D) (raw : Dict) :
    Except PyError DecryptedSection := do
  let seqFrom ← asInt "section.seq_from" (field raw "seq_from")
  let seqTo ← asInt "section.seq_to" (field raw "seq_to")
  require (seqFrom ≤ seqTo) (.valueError "envelope: section seq_from > seq_to")
  let rawTags ← asList "section.subject_tags" (field raw "subject_tags")
  let tags ← rawTags.mapM (asStr "section.subject_tags[]")
  let rawWraps ← legacyWraps (field raw "wraps")
  require (rawWraps.length ≤ maxWrapsPerSection) (.valueError "envelope: wraps exceeds 64")
  let wrapTags ← rawWraps.mapM wrapTag
  require (wrapTags = if tags.isEmpty then [projectSubjectTag] else tags)
    (.valueError "envelope: section.subject_tags does not match wraps")
  let bindings ← rawWraps.mapM (bindLegacyWrap P project keys)
  let opened ← bindings.mapM (openLegacyShare P master project)
  if opened.any Option.isNone then pure (.tombstoned ⟨seqFrom, seqTo, tags, [], envelopeVersion⟩)
  else do
    let dek ← orRaise (combineShares (opened.filterMap id))
      (.valueError "combine_shares: share length mismatch")
    require (dek.length = keyLen) (.valueError "envelope: reconstructed DEK has a wrong length")
    let nonce ← asB64 "section.nonce" (field raw "nonce")
    let ct ← asB64 "section.ct" (field raw "ct")
    let plaintext ← P.aesgcmDecrypt dek nonce ct (buildAad project run seqFrom seqTo)
    let lines ← legacyLines plaintext
    pure (.plain ⟨seqFrom, seqTo, tags, lines, [], envelopeVersion⟩)

/-- `decrypt(project_id, payload)`. -/
def decrypt (keys : KeyTable D) (project : ProjectId) (payload : EncryptedPayload) :
    Except PyError (List DecryptedSection) :=
  if isV2Header payload.header then decryptV2 P master keys project payload
  else do
    let headerProject ← asStr "header.project_id" (field payload.header "project_id")
    require (headerProject = project.value.str) (.notFound "trace payload not found")
    let runText ← asStr "header.run_id" (field payload.header "run_id")
    let run ← orRaise (UUID.parse runText) (.valueError "badly formed hexadecimal UUID string")
    require (payload.sections.length ≤ maxSections)
      (.valueError "envelope: sections exceeds 10000")
    payload.sections.mapM (decryptSection P master project ⟨run⟩ keys)

end Tracebed
