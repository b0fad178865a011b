import Tracebed.Canonical
import Tracebed.Vocabulary
import Tracebed.Lib.Fallible

/-!
# Subject Tags and Their Digests

`domain/subject_tags.py` and `crypto/subject_digest.py`: a subject is named by a short tag
on the way in, and by a project-scoped SHA-256 digest of that tag from then on.
-/

open Py Fallible List

namespace Tracebed

/-- `PROJECT_SUBJECT_TAG`: the reserved tag whose key covers untagged sections. -/
def projectSubjectTag : PyStr := str "__project__"

/-- `MAX_SUBJECT_TAG_SCALARS`. -/
def maxSubjectTagScalars : ℕ := 128

/-- `MAX_SUBJECT_TAG_UTF8_BYTES`. -/
def maxSubjectTagUtf8Bytes : ℕ := 512

/-- `str.isspace` of one character. -/
def isSpaceChar (c : ℕ) : Bool :=
  (9 ≤ c && c ≤ 13) || (28 ≤ c && c ≤ 32) || c = 0x85 || c = 0xA0 || c = 0x1680 ||
    (0x2000 ≤ c && c ≤ 0x200A) || c = 0x2028 || c = 0x2029 || c = 0x202F || c = 0x205F ||
    c = 0x3000

/-- `str.isspace`. -/
def isSpace (s : PyStr) : Bool := !s.isEmpty && s.all isSpaceChar

/-- A C0 control, DEL or a C1 control. -/
def isControl (c : ℕ) : Bool := c ≤ 0x1F || (0x7F ≤ c && c ≤ 0x9F)

/-- `validate_subject_tag(subject_tag, allow_reserved=...)` on a text. -/
def validateSubjectTag (allowReserved : Bool) (tag : PyStr) : Except PyError PyStr := do
  let encoded ← orRaise (utf8Encode tag) (.valueError "subject tag is invalid")
  require (1 ≤ tag.length && tag.length ≤ maxSubjectTagScalars &&
      (1 ≤ encoded.length && encoded.length ≤ maxSubjectTagUtf8Bytes) &&
      !isSpace tag && !tag.any isControl) (.valueError "subject tag is invalid")
  require (allowReserved || tag ≠ projectSubjectTag) (.valueError "subject tag is reserved")
  pure tag

/-- `SUBJECT_DIGEST_DOMAIN`. -/
def subjectDigestDomain : Bytes :=
  (str "tracebed.subject-digest/v1").map UInt8.ofNat ++ [0]

/-- `subject_digest(project_id, subject_tag)`. -/
def subjectDigest (P : Primitives) (project : ProjectId) (tag : PyStr) : Except PyError Bytes := do
  let encoded ← orRaise (utf8Encode tag) (.valueError "subject tag is invalid")
  pure (P.sha256 (subjectDigestDomain ++ project.value.bytes ++
    toBytesBE 4 encoded.length ++ encoded))

/-- The order of Python tuples of a digest and a tag. -/
def pairLe (a b : Bytes × PyStr) : Bool :=
  if a.1 = b.1 then strLe a.2 b.2 else bytesLe a.1 b.1

/-- `subject_digest_pairs(project_id, subject_tags)`. -/
def subjectDigestPairs (P : Primitives) (project : ProjectId) (tags : List PyStr) :
    Except PyError (List (Bytes × PyStr)) := do
  require (tags.length ≤ 64) (.valueError "too many subject tags")
  require tags.Nodup (.valueError "duplicate subject tag")
  let pairs ← tags.mapM fun tag => do
    let tag ← validateSubjectTag false tag
    let digest ← subjectDigest P project tag
    pure (digest, tag)
  require (pairs.map Prod.fst).Nodup (.valueError "subject digest collision")
  pure (pairs.insertionSort fun a b => pairLe a b = true)

/-- The digest of a tag; a text that cannot be encoded has none. -/
def digestOf (P : Primitives) (project : ProjectId) (tag : PyStr) : Bytes :=
  ((subjectDigest P project tag).toOption).getD []

/-- The digests of a set of tags, in order. -/
def digestsOf (P : Primitives) (project : ProjectId) (tags : List PyStr) : List Bytes :=
  (tags.map (digestOf P project)).insertionSort fun a b => bytesLe a b = true

variable {project : ProjectId} {P : Primitives} {tag : PyStr}

theorem digestOf_eq {d : Bytes} (h : subjectDigest P project tag = .ok d) :
    digestOf P project tag = d := by
  rw [digestOf, h]
  rfl

theorem bytesLe_of_pairLe {a b : Bytes × PyStr} (h : pairLe a b = true) :
    bytesLe a.1 b.1 = true := by
  rw [pairLe] at h
  split_ifs at h with heq
  · rw [heq]
    rcases bytesLe_total b.1 b.1 with h | h <;> exact h
  · exact h

theorem pairLe_total (a b : Bytes × PyStr) : pairLe a b = true ∨ pairLe b a = true := by
  by_cases heq : a.1 = b.1
  · rw [pairLe, pairLe, if_pos heq, if_pos heq.symm]
    exact strLe_total a.2 b.2
  · rw [pairLe, pairLe, if_neg heq, if_neg (Ne.symm heq)]
    exact bytesLe_total a.1 b.1

theorem pairLe_trans {a b c : Bytes × PyStr} (hab : pairLe a b = true)
    (hbc : pairLe b c = true) : pairLe a c = true := by
  have hle := bytesLe_trans (bytesLe_of_pairLe hab) (bytesLe_of_pairLe hbc)
  rw [pairLe]
  split_ifs with hac
  · have hab1 : a.1 = b.1 := bytesLe_antisymm (bytesLe_of_pairLe hab) (hac ▸ bytesLe_of_pairLe hbc)
    rw [pairLe, if_pos hab1] at hab
    rw [pairLe, if_pos (hab1.symm.trans hac)] at hbc
    exact strLe_trans hab hbc
  · exact hle

/-- One tag of `subject_digest_pairs`. -/
theorem taggedDigest_spec {p : Bytes × PyStr} (h : (do
      let tag ← validateSubjectTag false tag
      let digest ← subjectDigest P project tag
      pure (digest, tag)) = Except.ok p) :
    p.1 = digestOf P project tag ∧ subjectDigest P project tag = .ok (digestOf P project tag) ∧
      tag ≠ projectSubjectTag := by
  obtain ⟨t, hvalid, h⟩ := bind_eq_ok.mp h
  obtain ⟨d, hd, h⟩ := bind_eq_ok.mp h
  obtain ⟨_, -, hvalid⟩ := bind_eq_ok.mp hvalid
  obtain ⟨⟨⟩, -, hvalid⟩ := bind_eq_ok.mp hvalid
  obtain ⟨⟨⟩, hreserved, hvalid⟩ := bind_eq_ok.mp hvalid
  cases hvalid
  cases h
  rw [digestOf_eq hd]
  exact ⟨rfl, hd, by simpa using hreserved⟩

variable {pairs : List (Bytes × PyStr)} {tags : List PyStr}

theorem taggedDigests_fst (h : (tags.mapM fun tag => do
      let tag ← validateSubjectTag false tag
      let digest ← subjectDigest P project tag
      pure (digest, tag)) = Except.ok pairs) :
    pairs.map Prod.fst = tags.map (digestOf P project) := by
  rw [mapM_eq_ok] at h
  induction h with
  | nil => rfl
  | cons hp _ ih => rw [map_cons, map_cons, ih, (taggedDigest_spec hp).1]

/-- **The declared digests of a section** are the distinct digests of its tags, in order;
every tag is valid and not the reserved one. -/
theorem subjectDigestPairs_spec (h : subjectDigestPairs P project tags = .ok pairs) :
    pairs.map Prod.fst = digestsOf P project tags ∧ (digestsOf P project tags).Nodup ∧
      ∀ t ∈ tags, subjectDigest P project t = .ok (digestOf P project t) ∧
        t ≠ projectSubjectTag := by
  obtain ⟨⟨⟩, -, h⟩ := bind_eq_ok.mp h
  obtain ⟨⟨⟩, -, h⟩ := bind_eq_ok.mp h
  obtain ⟨unsorted, hunsorted, h⟩ := bind_eq_ok.mp h
  obtain ⟨⟨⟩, hnodup, h⟩ := bind_eq_ok.mp h
  cases h
  rw [require_eq_ok, decide_eq_true_eq] at hnodup
  have htags : ∀ t ∈ tags, subjectDigest P project t = .ok (digestOf P project t) ∧
      t ≠ projectSubjectTag := fun t ht => by
    obtain ⟨p, -, hp⟩ := mapM_mem hunsorted t ht
    exact (taggedDigest_spec hp).2
  have hfst := taggedDigests_fst hunsorted
  have : Std.Total fun a b : Bytes × PyStr => pairLe a b = true := ⟨pairLe_total⟩
  have : IsTrans (Bytes × PyStr) fun a b => pairLe a b = true := ⟨fun _ _ _ => pairLe_trans⟩
  have hperm := perm_insertionSort (fun a b : Bytes × PyStr => pairLe a b = true) unsorted
  have hsorted := pairwise_insertionSort (fun a b : Bytes × PyStr => pairLe a b = true)
    unsorted
  refine ⟨?_, ?_, htags⟩
  · refine List.Perm.eq_of_pairwise (fun a b _ _ => bytesLe_antisymm)
      (pairwise_map.mpr (hsorted.imp bytesLe_of_pairLe))
      (pairwise_insertionSort _ _) ?_
    refine (hperm.map Prod.fst).trans ?_
    rw [hfst]
    exact (perm_insertionSort _ _).symm
  · rw [hfst] at hnodup
    exact (perm_insertionSort _ _).nodup_iff.mpr hnodup

end Tracebed
