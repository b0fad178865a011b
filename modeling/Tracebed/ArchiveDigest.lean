import Tracebed.TraceArchive

/-!
# What the Archive Digest Commits To

`_ciphertext_digest` hashes one byte string for a whole run. Every number in it has a fixed
width and every text stands behind its length, so it determines project, run and objects
(`digestFrame_inj`). `_read_objects` sorts the objects by first sequence number and reference
before they are hashed, so the order in which the row lists the references is lost
(`readObjects_perm`).
-/

open Py Fallible List Except

namespace Tracebed

variable {D : Type} {R : ArchiveReader D} {project : ProjectId} {run : RunId}

/-- An object with the bytes of its reference. -/
abbrev KeyedObject := ArchiveObject × Bytes

/-! ### The hashed byte string -/

def objectFrame (k : KeyedObject) : Bytes :=
  toBytesBE 8 k.1.firstSeq ++ toBytesBE 8 k.1.lastSeq ++ toBytesBE 4 k.2.length ++ k.2 ++
    toBytesBE 8 k.1.raw.length ++ k.1.raw

/-- What `_ciphertext_digest(project_id, run_id, objects)` hashes. -/
def digestFrame (project : ProjectId) (run : RunId) (objects : List KeyedObject) : Bytes :=
  archiveDigestDomain ++ project.value.bytes ++ run.value.bytes ++
    toBytesBE 4 objects.length ++ objects.flatMap objectFrame

/-- Numbers and lengths within their fields, next to the bytes of the reference. -/
structure FitsFrame (k : KeyedObject) : Prop where
  bytes : utf8Encode k.1.refText = some k.2
  firstSeq : k.1.firstSeq < 2 ^ 64
  lastSeq : k.1.lastSeq < 2 ^ 64
  ref : k.2.length < 2 ^ 32
  raw : k.1.raw.length < 2 ^ 64

/-- What the digest says of an object. -/
def hashedFields (k : KeyedObject) : ℕ × ℕ × PyStr × Bytes :=
  (k.1.firstSeq, k.1.lastSeq, k.1.refText, k.1.raw)

/-- The bytes of a text determine it. -/
theorem utf8Encode_inj {s t : PyStr} {b : Bytes} (hs : utf8Encode s = some b)
    (ht : utf8Encode t = some b) : s = t :=
  Option.some.inj ((utf8Decode_utf8Encode hs).symm.trans (utf8Decode_utf8Encode ht))

variable {k k' : KeyedObject} {l l' : List KeyedObject}

/-- An object at the front is read back, whatever follows. -/
theorem objectFrame_append_inj {x y : Bytes} (h : FitsFrame k) (h' : FitsFrame k')
    (heq : objectFrame k ++ x = objectFrame k' ++ y) :
    hashedFields k = hashedFields k' ∧ x = y := by
  simp only [objectFrame, append_assoc] at heq
  obtain ⟨hfirst, heq⟩ := toBytesBE_append_inj h.firstSeq h'.firstSeq heq
  obtain ⟨hlast, heq⟩ := toBytesBE_append_inj h.lastSeq h'.lastSeq heq
  obtain ⟨href, heq⟩ := counted_append_inj h.ref h'.ref heq
  obtain ⟨hraw, hrest⟩ := counted_append_inj h.raw h'.raw heq
  have htext : k.1.refText = k'.1.refText := utf8Encode_inj h.bytes (href ▸ h'.bytes)
  exact ⟨by rw [hashedFields, hfirst, hlast, htext, hraw, hashedFields], hrest⟩

theorem flatMap_objectFrame_inj (h : ∀ k ∈ l, FitsFrame k) (h' : ∀ k ∈ l', FitsFrame k)
    (hlen : l.length = l'.length)
    (heq : l.flatMap objectFrame = l'.flatMap objectFrame) :
    l.map hashedFields = l'.map hashedFields := by
  induction l generalizing l' with
  | nil => rw [length_eq_zero_iff.mp hlen.symm]
  | cons k l ih =>
    obtain ⟨k', l', rfl⟩ := exists_cons_of_length_pos (show 0 < l'.length by rw [← hlen]; simp)
    obtain ⟨hk, hl⟩ := forall_mem_cons.mp h
    obtain ⟨hk', hl'⟩ := forall_mem_cons.mp h'
    obtain ⟨hfields, hrest⟩ := objectFrame_append_inj hk hk' heq
    rw [map_cons, map_cons, hfields, ih hl hl' (Nat.succ.inj hlen) hrest]

/-- **The hashed byte string determines what it was built from.** -/
theorem digestFrame_inj {project' : ProjectId} {run' : RunId} (hl : l.length < 2 ^ 32)
    (hl' : l'.length < 2 ^ 32)
    (h : ∀ k ∈ l, FitsFrame k) (h' : ∀ k ∈ l', FitsFrame k)
    (heq : digestFrame project run l = digestFrame project' run' l') :
    project = project' ∧ run = run' ∧ l.length = l'.length ∧
      l.map hashedFields = l'.map hashedFields := by
  cases project
  cases run
  simp only [digestFrame, append_assoc] at heq
  obtain ⟨hproject, heq⟩ := append_inj (append_cancel_left heq) (by simp)
  obtain ⟨hrun, heq⟩ := append_inj heq (by simp)
  obtain ⟨hlen, heq⟩ := toBytesBE_append_inj hl hl' heq
  rw [UUID.bytes_inj hproject, UUID.bytes_inj hrun]
  exact ⟨rfl, rfl, hlen, flatMap_objectFrame_inj h h' hlen heq⟩

/-! ### The order of the references -/

/-- What one reference is read as. -/
def ReadsAs (R : ArchiveReader D) (project : ProjectId) (run : RunId) (endSeq : ℕ) (text : PyStr)
    (k : KeyedObject) : Prop :=
  ∃ v, validateRef project run endSeq text = .ok v ∧ readObject R project run v = .ok k.1 ∧
    utf8Encode text = some k.2

variable {endSeq : ℕ}

theorem ReadsAs.of_steps {t : PyStr} {v : ValidatedRef} {o : ArchiveObject}
    (hv : validateRef project run endSeq t = .ok v) (ho : readObject R project run v = .ok o)
    (hk : keyedObject o = .ok k) : ReadsAs R project run endSeq t k := by
  obtain ⟨bytes, hbytes, hk⟩ := bind_eq_ok.mp hk
  obtain rfl := ok.inj hk
  refine ⟨v, hv, ho, ?_⟩
  have htext : o.refText = t := by
    simp only [readObject, validateRef, bind_eq_ok] at ho hv
    obtain ⟨_, -, _, -, _, -, _, -, _, -, _, -, ho⟩ := ho
    obtain ⟨_, -, _, -, _, -, _, -, hv⟩ := hv
    rw [← ok.inj ho, ← ok.inj hv]
  rw [refBytes, Reading.lift_eq_ok, orRaise_eq_ok, htext] at hbytes
  exact hbytes

/-- The bytes an object is sorted by determine the reference, and so the object. -/
theorem ReadsAs.unique {s t : PyStr} (h : ReadsAs R project run endSeq s k)
    (h' : ReadsAs R project run endSeq t k') (hbytes : k.2 = k'.2) : k = k' := by
  obtain ⟨v, hv, ho, henc⟩ := h
  obtain ⟨v', hv', ho', henc'⟩ := h'
  obtain rfl := utf8Encode_inj henc (hbytes ▸ henc')
  obtain rfl := ok.inj (hv.symm.trans hv')
  exact Prod.ext (ok.inj (ho.symm.trans ho')) hbytes

theorem objectLe_total (a b : KeyedObject) : objectLe a b = true ∨ objectLe b a = true := by
  unfold objectLe
  split_ifs with hab hba hba
  · exact bytesLe_total _ _
  · exact absurd hab.symm hba
  · exact absurd hba.symm hab
  · simp only [decide_eq_true_eq]
    omega

theorem objectLe_trans {a b c : KeyedObject} (hab : objectLe a b = true)
    (hbc : objectLe b c = true) : objectLe a c = true := by
  unfold objectLe at hab hbc ⊢
  split_ifs at hab hbc ⊢ with h₁ h₂ h₃
  · exact bytesLe_trans hab hbc
  all_goals simp at *
  all_goals omega

theorem objectLe_antisymm {a b : KeyedObject} (hab : objectLe a b = true)
    (hba : objectLe b a = true) : a.2 = b.2 := by
  unfold objectLe at hab hba
  split_ifs at hab hba
  · exact bytesLe_antisymm hab hba
  all_goals simp at *
  all_goals omega

/-- **Permuted references are read as the same objects.** -/
theorem readObjects_perm {refs refs' : List PyStr} {objects : List KeyedObject}
    (hperm : refs'.Perm refs) (h : readObjects R project run refs endSeq = .ok objects) :
    readObjects R project run refs' endSeq = .ok objects := by
  obtain ⟨⟨⟩, hcount, h⟩ := bind_eq_ok.mp h
  obtain ⟨validated, hv, h⟩ := bind_eq_ok.mp h
  obtain ⟨os, ho, h⟩ := bind_eq_ok.mp h
  obtain ⟨keyed, hk, h⟩ := bind_eq_ok.mp h
  obtain rfl := ok.inj h
  rw [mapM_eq_ok] at hv ho hk
  have hreads : ∀ k ∈ keyed, ∃ t, ReadsAs R project run endSeq t k := by
    intro k hmem
    obtain ⟨o, ho', hko⟩ := forall₂_mem hk.flip k hmem
    obtain ⟨v, hv', hov⟩ := forall₂_mem ho.flip o ho'
    obtain ⟨t, -, hvt⟩ := forall₂_mem hv.flip v hv'
    exact ⟨t, .of_steps hvt hov hko⟩
  obtain ⟨validated', hv', hpv⟩ := perm_comp_forall₂ hperm hv
  obtain ⟨os', ho', hpo⟩ := perm_comp_forall₂ hpv ho
  obtain ⟨keyed', hk', hpk⟩ := perm_comp_forall₂ hpo hk
  let le : KeyedObject → KeyedObject → Prop := fun a b => objectLe a b = true
  have : Std.Total le := ⟨objectLe_total⟩
  have : IsTrans _ le := ⟨fun _ _ _ => objectLe_trans⟩
  have hsort : keyed'.insertionSort le = keyed.insertionSort le := by
    refine Json.insertionSort_eq_of_perm hpk fun a ha b hb hab hba => ?_
    obtain ⟨s, hs⟩ := hreads a ha
    obtain ⟨t, ht⟩ := hreads b hb
    exact hs.unique ht (objectLe_antisymm hab hba)
  refine guard_ok (by rw [hperm.length_eq]; exact hcount) ?_
  refine bind_ok (mapM_eq_ok.mpr hv') (bind_ok (mapM_eq_ok.mpr ho') ?_)
  exact bind_ok (mapM_eq_ok.mpr hk') (congrArg ok hsort)

def ArchiveReader.withRow (R : ArchiveReader D) (row : TraceIndexRow D) : ArchiveReader D :=
  { R with getTraceIndex := fun _ _ => .ok row }

theorem readDecrypted_withRow (row : TraceIndexRow D) :
    readDecrypted (R.withRow row) project = readDecrypted R project := by
  have hlines (s : PlainSection) (previous : ℤ) (decoded : Decoded D) (lines : List Bytes) :
      validateLines (R.withRow row) project s previous decoded lines =
        validateLines R project s previous decoded lines := by
    induction lines generalizing previous decoded with
    | nil => rfl
    | cons line lines ih =>
      simp only [validateLines, ih]
      rfl
  have hsection : readSection (R.withRow row) project = readSection R project := by
    funext acc s
    cases s with
    | tombstoned _ => rfl
    | plain s => simp [readSection, validatePlainSection, hlines]
  funext acc o
  simp only [readDecrypted, hsection]
  rfl

/-- **The archive digest is unambiguous.** The byte string that is hashed determines project,
run and objects. When the references of a row lead to objects, a row that lists them in
another order behind the same first one is read with the same outcome, digest included. -/
theorem archiveDigest_unambiguous [DecidableEq D] :
    (∀ (P : Primitives) (project : ProjectId) (run : RunId) (l : List KeyedObject),
      ciphertextDigest P project run l = P.sha256 (digestFrame project run l)) ∧
    (∀ (project project' : ProjectId) (run run' : RunId) (l l' : List KeyedObject),
      l.length < 2 ^ 32 → l'.length < 2 ^ 32 → (∀ k ∈ l, FitsFrame k) →
      (∀ k ∈ l', FitsFrame k) → digestFrame project run l = digestFrame project' run' l' →
      project = project' ∧ run = run' ∧ l.length = l'.length ∧
        l.map hashedFields = l'.map hashedFields) ∧
    ∀ (R : ArchiveReader D) (project : ProjectId) (run : RunId) (index : TraceIndexRow D)
      (path : Option Dict) (endSeq : ℕ) (st : RunEndStatus) (refs refs' : List PyStr)
      (objects : List KeyedObject) (expected : Option Bytes) (ended : Option D),
      R.getTraceIndex project run = .ok index →
      strictIndexPath index = .ok (endSeq, st, refs) →
      strictIndexPath { index with path := path } = .ok (endSeq, st, refs') →
      refs'.Perm refs → readObjects R project run refs endSeq = .ok objects →
      readComplete (R.withRow { index with path := path }) project run expected ended =
        (readComplete R project run expected ended).map fun t =>
          { t with index := { index with path := path } } := by
  refine ⟨fun _ _ _ _ => rfl, fun _ _ _ _ _ _ => digestFrame_inj, ?_⟩
  intro R project run index path endSeq st refs refs' objects expected ended hindex hpath hpath'
    hperm hobjects
  have hobjects' : readObjects (R.withRow { index with path := path }) project run refs' endSeq =
      .ok objects := readObjects_perm hperm hobjects
  have hmap {α β γ : Type} (g : β → γ) (x : Reading α) (f : α → Reading β) :
      (x >>= f).map g = x >>= fun a => (f a).map g := by
    cases x <;> rfl
  have hmapError (g : ArchivedTrace D → ArchivedTrace D) (x : Reading (ArchivedTrace D)) :
      (x.mapError ReadFailure.sanitized).map g = (x.map g).mapError ReadFailure.sanitized := by
    cases x <;> rfl
  rw [readComplete, readComplete, hmapError, hmap]
  refine congrArg (Except.mapError _) (bind_congr fun _ => ?_)
  simp only [readCompleteInner, readIndex, hindex, hmap]
  refine bind_congr (m := Except _) (x := checkIndex index project run ended) fun _ => ?_
  rw [hpath, hpath']
  change (readObjects _ project run refs' endSeq >>= _) =
    (readObjects R project run refs endSeq >>= _)
  rw [hobjects, hobjects']
  refine bind_congr fun os => bind_congr fun _ => bind_congr fun _ => bind_congr fun _ => ?_
  rw [readDecrypted_withRow]
  refine bind_congr fun d => ?_
  by_cases htombstoned : d.2 = true
  · simp only [if_pos htombstoned]
    rfl
  · simp only [if_neg htombstoned, hmap]
    rfl

end Tracebed
