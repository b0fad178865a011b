import Tracebed.Subjects

/-!
# Input Signatures and Their Clusters

`domain/signatures.py`: an input signature is 40 bytes, the SHA-256 of the structured features of
a run's input followed by a 64-bit SimHash of its query text. Two signatures are in the same
cluster when their SimHashes are within Hamming distance 8. `Signature` carries its length;
`Signature.ofBytes` is the place where a byte string of any other length is refused. Unicode
normalisation and case folding are parameters of the model.
-/

open Py

namespace Tracebed

/-- `SIG_HASH_LEN`: 32 SHA-256 bytes and 8 SimHash bytes. -/
def sigHashLen : ℕ := 40

/-- `SAME_CLUSTER_MAX_HAMMING`. -/
def sameClusterMaxHamming : ℕ := 8

/-- `ABSENT_SIGNATURE`: the stored signature of a run with no recorded `run_start`. -/
def absentSignature : Bytes := List.replicate 40 0

/-- A byte string of the length every signature has. -/
structure Signature where
  bytes : Bytes
  length_eq : bytes.length = sigHashLen
  deriving DecidableEq

/-- A byte string as a signature; `none` when its length is wrong. -/
def Signature.ofBytes (b : Bytes) : Option Signature :=
  if h : b.length = sigHashLen then some ⟨b, h⟩ else none

/-- `int.bit_count`. -/
def bitCount (n : ℕ) : ℕ := (List.range (n.log2 + 1)).countP n.testBit

/-- `hamming(a, b)`. -/
def hamming (a b : ℕ) : ℕ := bitCount (a ^^^ b)

/-- `_trailing_simhash(sig)`: the last eight bytes as a big-endian number. -/
def trailingSimhash (sig : Signature) : ℕ := ofBytesBE (sig.bytes.drop (sigHashLen - 8))

/-- `same_cluster(a, b)`. -/
def sameCluster (a b : Signature) : Bool :=
  hamming (trailingSimhash a) (trailingSimhash b) ≤ sameClusterMaxHamming

/-- `is_absent_signature(sig)`. -/
def isAbsentSignature (sig : Bytes) : Bool := sig = absentSignature

theorem Signature.ofBytes_eq_some {b : Bytes} {sig : Signature} :
    Signature.ofBytes b = some sig ↔ sig.bytes = b := by
  unfold Signature.ofBytes
  constructor
  · intro h
    split at h
    · rw [← Option.some.inj h]
    · cases h
  · rintro rfl
    rw [dif_pos sig.length_eq]

/-- Only a wrong length is refused. -/
theorem Signature.ofBytes_eq_none {b : Bytes} :
    Signature.ofBytes b = none ↔ b.length ≠ sigHashLen := by
  unfold Signature.ofBytes
  split
  · simp_all
  · simp_all

/-! ### Computing a signature -/

/-- The Unicode transformations `simhash64` applies. -/
structure UnicodeData where
  nfc : PyStr → PyStr
  casefold : PyStr → PyStr

/-- `SIMHASH_HEAD_CHARS`. -/
def simhashHeadChars : ℕ := 512
/-- `MAX_TOOL_MANIFEST_ENTRIES`. -/
def maxToolManifestEntries : ℕ := 512
/-- `_MAX_TOOL_ID_CHARS`. -/
def maxToolIdChars : ℕ := 256
/-- `_MAX_NORMALISE_CHARS`. -/
def maxNormaliseChars : ℕ := simhashHeadChars * 64
/-- `_SHINGLE_SIZE`. -/
def shingleSize : ℕ := 3

/-- `text.split()`: the maximal runs of characters that are no whitespace. -/
def splitWhitespace (s : PyStr) : List PyStr :=
  (s.splitOnP isSpaceChar).filter fun w => !w.isEmpty

/-- The substrings of a given size, from left to right. -/
def windows (size : ℕ) (s : PyStr) : List PyStr :=
  (List.range (s.length - size + 1)).map fun i => (s.drop i).take size

/-- `_char_shingles(text, size)`. -/
def charShingles (s : PyStr) (size : ℕ) : List PyStr :=
  if s.length < size then (if s.isEmpty then [] else [s])
  else (windows size s).dedup.insertionSort fun a b => strLe a b = true

variable (P : Primitives)

/-- The first eight bytes of a shingle's digest. -/
def shingleHash (shingle : PyStr) : Except PyError ℕ := do
  let encoded ← orRaise (utf8Encode shingle) (.valueError "surrogates not allowed")
  pure (ofBytesBE ((P.sha256 encoded).take 8))

/-- The bits that more shingle hashes have set than unset. -/
def majority (hashes : List ℕ) : ℕ :=
  ((List.range 64).filter fun bit =>
    hashes.length < 2 * hashes.countP (·.testBit bit)).foldl (fun n bit => n + 2 ^ bit) 0

/-- `simhash64(text)`. -/
def simhash64 (U : UnicodeData) (s : PyStr) : Except PyError ℕ := do
  let normalized := U.casefold (U.nfc (s.take maxNormaliseChars))
  let head := ([32].intercalate (splitWhitespace normalized)).take simhashHeadChars
  if head.isEmpty then pure 0
  else
    let hashes ← (charShingles head shingleSize).mapM (shingleHash P)
    pure (majority hashes)

/-- `_normalise_tool_manifest(tool_manifest)` on a list of texts. -/
def normaliseToolManifest (manifest : Option (List PyStr)) : Except PyError (List PyStr) :=
  match manifest with
  | none => .ok []
  | some entries => do
      require (entries.length ≤ maxToolManifestEntries)
        (.valueError "input_signature_hash: tool_manifest has too many entries")
      require (entries.all fun e => e.length ≤ maxToolIdChars)
        (.valueError "input_signature_hash: tool_manifest entry exceeds 256 characters")
      pure (entries.insertionSort fun a b => strLe a b = true)

/-- `input_signature_hash(...)`. -/
def inputSignatureHash (U : UnicodeData) (agentType : AgentTypeId) (queryText : PyStr)
    (workflowTemplate : Option PyStr) (toolManifest : Option (List PyStr)) :
    Except PyError Bytes := do
  let manifest ← normaliseToolManifest toolManifest
  let canonical ← canonicalJson (.obj [
    (str "agent_type", .str agentType.value.str),
    (str "workflow_template", .str (workflowTemplate.getD [])),
    (str "tool_manifest", .arr (manifest.map .str))])
  let freeText ← simhash64 P U queryText
  pure (P.sha256 canonical ++ toBytesBE 8 freeText)

end Tracebed
