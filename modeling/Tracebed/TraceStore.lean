import Tracebed.TraceIndex

/-!
# The Trace Store

`stores/tracestore`: references to encrypted objects, the structural test of their keys, and
reading an object back. The file-system driver keeps an object under
`{project}/{run}/{first_seq:08d}.tbz`, the S3 driver under
`{bucket}/tb/{project}/{run}/{first_seq:08d}`. A store is seen through one run: `objects n` is
what was last put under the first sequence number `n`, and objects of other runs read as absent.

## Main results

* `getObject_putRef`: what was put under a reference is what is read.
* `getObject_foreign`: and by no other project.
-/

open Py List

namespace Tracebed

/-! ### References -/

/-- `PayloadRef.driver`. -/
inductive RefDriver
  | fs | s3
  deriving DecidableEq

/-- `PayloadRef`. -/
structure PayloadRef where
  driver : RefDriver
  key : PyStr
  deriving DecidableEq

/-- `PayloadRef.parse(ref)`. -/
def PayloadRef.parse (ref : PyStr) : Except PyError PayloadRef :=
  if (str "fs://").isPrefixOf ref then .ok ⟨.fs, ref.drop 5⟩
  else if (str "s3://").isPrefixOf ref then .ok ⟨.s3, ref.drop 5⟩
  else .error (.valueError "PayloadRef.parse: unrecognised ref")

/-- `MAX_KEY_LEN`. -/
def maxKeyLen : ℕ := 512

/-- `_FORBIDDEN_SEGMENTS`. -/
def forbiddenSegments : List PyStr := [[], str ".", str ".."]

/-- `is_safe_key(key)`. -/
def isSafeKey (key : PyStr) : Bool :=
  let segments := key.splitOn 47
  !key.isEmpty && key.length ≤ maxKeyLen &&
    !(key.contains 92 || key.contains 0 || key.head? = some 47) &&
    !((segments.headD []).contains 58) &&
    segments.all fun segment => !forbiddenSegments.contains segment

/-- The name of a driver in a reference. -/
def StoreDriver.refDriver : StoreDriver → RefDriver
  | .fs => .fs
  | .s3 _ => .s3

variable (driver : StoreDriver) (project : ProjectId)

/-- `_project_segment(project_id)`. -/
def projectSegment : PyStr :=
  match driver with
  | .fs => project.value.str ++ [47]
  | .s3 bucket => bucket.name ++ 47 :: (str "tb" ++ 47 :: (project.value.str ++ [47]))

/-- `ref_matches_project(ref, driver=..., project_segment=...)`. -/
def refMatchesProject (ref : PayloadRef) : Bool :=
  ref.driver = driver.refDriver && isSafeKey ref.key &&
    (projectSegment driver project).isPrefixOf ref.key

/-! ### Keys -/

variable (run : RunId) (firstSeq : ℕ)

/-- The path segments of the key under which a driver keeps an object. -/
def keySegments : List PyStr :=
  match driver with
  | .fs => [project.value.str, run.value.str, eightDigits firstSeq ++ str ".tbz"]
  | .s3 bucket =>
    [bucket.name, str "tb", project.value.str, run.value.str, eightDigits firstSeq]

/-- The key of a run's object: its segments joined with slashes. -/
def objectKey : PyStr :=
  [47].intercalate (keySegments driver project run firstSeq)

/-- The reference `put` returns. -/
def putRef : PayloadRef :=
  ⟨driver.refDriver, objectKey driver project run firstSeq⟩

/-- The object of the run that is kept under a key. -/
def objectAt (objects : ℕ → Option Bytes) (key : PyStr) : Option Bytes :=
  let n := ofDecimal (((key.splitOn 47).getLastD []).takeWhile isDigit)
  if key = objectKey driver project run n then objects n else none

/-- `get(project_id, ref)` of either driver. -/
def getObject (objects : ℕ → Option Bytes) (caller : ProjectId) (ref : PayloadRef) :
    Except PyError Bytes := do
  require (refMatchesProject driver caller ref) (.notFound "trace payload not found")
  orRaise (objectAt driver project run objects ref.key) (.notFound "trace payload not found")

/-! ### The text of a first sequence number -/

/-- Leading zeros do not change the number. -/
theorem ofDecimal_zeros (k : ℕ) (s : PyStr) : ofDecimal (replicate k 48 ++ s) = ofDecimal s := by
  induction k with
  | zero => rfl
  | succ k ih =>
    rw [← ih]
    rfl

/-- A sequence number within its bound is written with eight digits and reads back. -/
theorem eightDigits_spec {n : ℕ} (h : n ≤ maxTraceSeq) :
    (eightDigits n).length = 8 ∧ (∀ c ∈ eightDigits n, isDigit c = true) ∧
      ofDecimal (eightDigits n) = n := by
  have hlt : n < 10 ^ 8 := Nat.lt_of_le_of_lt h (by decide)
  have hlen := decimal_length_le (by omega) hlt
  obtain ⟨-, hdigits⟩ := decimal_digits n
  refine ⟨?_, ?_, ?_⟩
  · rw [eightDigits, length_append, length_replicate]
    omega
  · refine forall_mem_append.mpr ⟨fun c hc => ?_, hdigits⟩
    rw [eq_of_mem_replicate hc]
    rfl
  · rw [eightDigits, ofDecimal_zeros, ofDecimal_decimal]

/-! ### The keys a driver writes -/

/-- The characters of a key besides the slash: lower-case letters, digits, hyphen and dot. -/
def KeyChar (c : ℕ) : Prop := 97 ≤ c ∧ c ≤ 122 ∨ 48 ≤ c ∧ c ≤ 57 ∨ c = 45 ∨ c = 46

/-- Digits are among the characters of a key. -/
theorem keyChar_of_isDigit {c : ℕ} (h : isDigit c = true) : KeyChar c := by
  rw [isDigit, Bool.and_eq_true, decide_eq_true_eq, decide_eq_true_eq] at h
  exact .inr (.inl h)

/-- What the segments are made of. -/
structure KeySegment (segment : PyStr) : Prop where
  shape : segment = str "tb" ∨ 3 ≤ segment.length
  length_le : segment.length ≤ 63
  chars : ∀ c ∈ segment, KeyChar c

/-- The text of a UUID is a segment. -/
theorem keySegment_uuid (u : UUID) : KeySegment u.str where
  shape := .inr (by rw [UUID.str_length]; omega)
  length_le := by rw [UUID.str_length]; omega
  chars := fun c hc => by
    rcases UUID.str_isHexText hc with h | h | h
    · exact .inr (.inl h)
    · exact .inl (by omega)
    · exact .inr (.inr (.inl h))

section Keys

variable (driver : StoreDriver) (project : ProjectId) (run : RunId) {n : ℕ}

/-- Every segment that a driver writes is well-formed. -/
theorem keySegment_of_mem (hn : n ≤ maxTraceSeq) :
    ∀ segment ∈ keySegments driver project run n, KeySegment segment := by
  obtain ⟨hlen, hdigits, -⟩ := eightDigits_spec hn
  have hleaf : KeySegment (eightDigits n) :=
    ⟨.inr (by omega), by omega, fun c hc => keyChar_of_isDigit (hdigits c hc)⟩
  have hfile : KeySegment (eightDigits n ++ str ".tbz") := by
    have htail : (str ".tbz").length = 4 := by decide
    refine ⟨.inr (by rw [length_append]; omega), by rw [length_append]; omega, ?_⟩
    intro c hc
    rcases mem_append.mp hc with hc | hc
    · exact hleaf.chars c hc
    · have hall : ∀ c ∈ str ".tbz", c = 46 ∨ 97 ≤ c ∧ c ≤ 122 := by decide
      rcases hall c hc with h | h
      · exact .inr (.inr (.inr h))
      · exact .inl h
  have htb : ∀ c ∈ str "tb", 97 ≤ c ∧ c ≤ 122 := by decide
  intro segment hsegment
  cases driver with
  | fs =>
    simp only [keySegments, mem_cons, not_mem_nil, or_false] at hsegment
    rcases hsegment with h | h | h
    · exact h ▸ keySegment_uuid _
    · exact h ▸ keySegment_uuid _
    · exact h ▸ hfile
  | s3 bucket =>
    simp only [keySegments, mem_cons, not_mem_nil, or_false] at hsegment
    rcases hsegment with h | h | h | h | h
    · exact h ▸ ⟨.inr bucket.length_ok.1, bucket.length_ok.2, bucket.chars_ok⟩
    · exact h ▸ ⟨.inl rfl, by decide, fun c hc => .inl (htb c hc)⟩
    · exact h ▸ keySegment_uuid _
    · exact h ▸ keySegment_uuid _
    · exact h ▸ hleaf

/-- Cutting a key at its slashes gives its segments back. -/
theorem splitOn_objectKey (hn : n ≤ maxTraceSeq) :
    (objectKey driver project run n).splitOn 47 = keySegments driver project run n := by
  refine splitOn_intercalate 47 (fun segment hsegment hmem => ?_) ?_
  · rcases (keySegment_of_mem driver project run hn segment hsegment).chars _ hmem with
      h | h | h | h <;> omega
  · cases driver <;> exact cons_ne_nil _ _

/-- Segments make up a key of their characters and separators, and of bounded length. -/
theorem intercalate_segments {segments : List PyStr} (h : ∀ s ∈ segments, KeySegment s) :
    (∀ c ∈ [47].intercalate segments, KeyChar c ∨ c = 47) ∧
      ([47].intercalate segments).length ≤ 64 * segments.length := by
  induction segments with
  | nil => simp
  | cons segment segments ih =>
    obtain ⟨hfirst, hrest⟩ := forall_mem_cons.mp h
    obtain ⟨hchars, hlen⟩ := ih hrest
    have hle := hfirst.length_le
    cases segments with
    | nil =>
      rw [intercalate_singleton, length_singleton]
      exact ⟨fun c hc => .inl (hfirst.chars c hc), by omega⟩
    | cons other segments =>
      simp only [intercalate_cons_cons, length_append, length_cons, length_nil, mem_append,
        mem_singleton] at hlen ⊢
      refine ⟨?_, by omega⟩
      rintro c ((hc | rfl) | hc)
      · exact .inl (hfirst.chars c hc)
      · exact .inr rfl
      · exact hchars c hc

/-- A key is made of key characters and slashes. -/
theorem mem_objectKey (hn : n ≤ maxTraceSeq) {c : ℕ} (hc : c ∈ objectKey driver project run n) :
    KeyChar c ∨ c = 47 :=
  (intercalate_segments (keySegment_of_mem driver project run hn)).1 c hc

/-- **Every key a driver writes passes the structural test.** -/
theorem isSafeKey_objectKey (hn : n ≤ maxTraceSeq) :
    isSafeKey (objectKey driver project run n) = true := by
  have hsegments := keySegment_of_mem driver project run hn
  have hnot : ∀ c, ¬KeyChar c → c ≠ 47 → (objectKey driver project run n).contains c = false := by
    intro c hc h47
    rw [contains_eq_mem, decide_eq_false_iff_not]
    exact fun hmem => (mem_objectKey driver project run hn hmem).elim hc h47
  have hfirst : ∃ first rest, keySegments driver project run n = first :: rest := by
    cases driver <;> exact ⟨_, _, rfl⟩
  obtain ⟨first, rest, hcons⟩ := hfirst
  have hhead : KeySegment first := hsegments first (hcons ▸ mem_cons_self)
  -- the key starts with the first character of its first segment
  have hne : first ≠ [] := by
    rintro rfl
    exact absurd hhead.shape (by decide)
  obtain ⟨c, tail, hc⟩ := exists_cons_of_ne_nil hne
  have hkey : ∃ more, objectKey driver project run n = c :: more := by
    rw [objectKey, hcons, hc]
    cases rest with
    | nil => exact ⟨_, intercalate_singleton⟩
    | cons other rest => exact ⟨_, intercalate_cons_cons⟩
  obtain ⟨more, hkey⟩ := hkey
  have hchar : KeyChar c := hhead.chars c (hc ▸ mem_cons_self)
  have hcolon : first.contains 58 = false := by
    rw [contains_eq_mem, decide_eq_false_iff_not]
    intro hmem
    rcases hhead.chars 58 hmem with h | h | h | h <;> omega
  have hallowed : (keySegments driver project run n).all
      (fun segment => !forbiddenSegments.contains segment) = true := by
    rw [all_eq_true]
    intro segment hsegment
    rw [Bool.not_eq_true', contains_eq_mem, decide_eq_false_iff_not]
    intro hmem
    rcases (hsegments segment hsegment).shape with h | h
    · exact absurd (h ▸ hmem) (by decide)
    · have hshort : ∀ segment ∈ forbiddenSegments, segment.length ≤ 2 := by decide
      have := hshort segment hmem
      omega
  have h92 := hnot 92 (by rintro (h | h | h | h) <;> omega) (by decide)
  have h0 := hnot 0 (by rintro (h | h | h | h) <;> omega) (by decide)
  have hslash : c ≠ 47 := by rcases hchar with h | h | h | h <;> omega
  have hlen : more.length + 1 ≤ maxKeyLen := by
    have hlen := (intercalate_segments hsegments).2
    have hcount : (keySegments driver project run n).length ≤ 5 := by
      cases driver <;> simp [keySegments]
    rw [← objectKey, hkey, length_cons] at hlen
    rw [maxKeyLen]
    omega
  rw [isSafeKey, splitOn_objectKey driver project run hn, hallowed, h92, h0, hcons,
    headD_cons, hcolon]
  simp [hkey, hslash, hlen]

/-- The text of a reference is the scheme of its driver and its key. -/
theorem payloadRefText_eq :
    payloadRefText driver project run n =
      (match driver with
        | .fs => str "fs://"
        | .s3 _ => str "s3://") ++ objectKey driver project run n := by
  cases driver <;> simp [payloadRefText, objectKey, keySegments]

/-- **The text of a reference parses to it.** -/
theorem parse_payloadRefText :
    PayloadRef.parse (payloadRefText driver project run n) = .ok (putRef driver project run n) := by
  have hfs : (str "fs://").length = 5 := by decide
  rw [payloadRefText_eq, PayloadRef.parse]
  cases driver with
  | fs =>
    rw [drop_left' hfs]
    rfl
  | s3 bucket =>
    rfl

/-- A reference that was put matches the project it was put for. -/
theorem refMatchesProject_putRef (hn : n ≤ maxTraceSeq) :
    refMatchesProject driver project (putRef driver project run n) = true := by
  have hpre : (projectSegment driver project).isPrefixOf (objectKey driver project run n) =
      true := by
    rw [objectKey]
    cases driver with
    | fs =>
      simp [projectSegment, keySegments]
    | s3 bucket =>
      simp [projectSegment, keySegments]
  rw [refMatchesProject, putRef, isSafeKey_objectKey driver project run hn, hpre]
  simp

/-- Under the key of a sequence number stands the object of that number. -/
theorem objectAt_objectKey (objects : ℕ → Option Bytes) (hn : n ≤ maxTraceSeq) :
    objectAt driver project run objects (objectKey driver project run n) = objects n := by
  obtain ⟨-, hdigits, hvalue⟩ := eightDigits_spec hn
  have hleaf : ((keySegments driver project run n).getLastD []).takeWhile isDigit =
      eightDigits n := by
    cases driver with
    | fs =>
      have htail : (str ".tbz").takeWhile isDigit = [] := by decide
      rw [keySegments, getLastD_cons, getLastD_cons, getLastD_cons,
        getLastD_nil, takeWhile_append_of_pos hdigits, htail, append_nil]
    | s3 bucket => exact takeWhile_eq_self_iff.mpr hdigits
  rw [objectAt, splitOn_objectKey driver project run hn, hleaf, hvalue]
  exact if_pos rfl

/-- **What was put under a reference is what is read.** -/
theorem getObject_putRef (objects : ℕ → Option Bytes) (hn : n ≤ maxTraceSeq) :
    getObject driver project run objects project (putRef driver project run n) =
      orRaise (objects n) (.notFound "trace payload not found") := by
  rw [getObject, refMatchesProject_putRef driver project run hn, putRef,
    objectAt_objectKey driver project run objects hn]
  rfl

end Keys

/-- **A reference belongs to one project.** What one project may read is answered to every other
project with the uniform refusal, whatever the reference and the store hold. -/
theorem getObject_foreign {driver : StoreDriver} {owner caller : ProjectId} {ref : PayloadRef}
    (howner : refMatchesProject driver owner ref = true) (hne : caller ≠ owner)
    (project : ProjectId) (run : RunId) (objects : ℕ → Option Bytes) :
    getObject driver project run objects caller ref =
      .error (.notFound "trace payload not found") := by
  -- the segments of two projects have one length
  have hlength : (projectSegment driver caller).length = (projectSegment driver owner).length := by
    cases driver <;> simp [projectSegment, UUID.str_length]
  have hforeign : refMatchesProject driver caller ref = false := by
    by_contra h
    simp only [refMatchesProject, Bool.not_eq_false, Bool.and_eq_true, isPrefixOf_iff_prefix]
      at h howner
    have hsegment := (prefix_of_prefix_length_le h.2 howner.2 hlength.le).eq_of_length hlength
    have hstr : caller.value.str = owner.value.str := by
      cases driver <;> simpa [projectSegment] using hsegment
    exact hne (congrArg ProjectId.mk (UUID.str_inj hstr))
  rw [getObject, hforeign]
  rfl

/-- The project next to the one an object was put for. -/
theorem getObject_neighbour : getObject .fs ⟨⟨0⟩⟩ ⟨⟨0⟩⟩ (fun _ => some []) ⟨⟨1⟩⟩
    (putRef .fs ⟨⟨0⟩⟩ ⟨⟨0⟩⟩ 0) = .error (.notFound "trace payload not found") :=
  getObject_foreign (refMatchesProject_putRef .fs ⟨⟨0⟩⟩ ⟨⟨0⟩⟩ (by decide)) (by decide) _ _ _

end Tracebed
