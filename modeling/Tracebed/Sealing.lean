import Tracebed.Shred

/-!
# What Encryption Leaves Behind

The encryption of a batch reads and creates subject keys, draws random bytes, and returns a
payload. This module says once what such a payload is: `Sealed` for a section, `AllSealed`
for all of them in order, with the key table the keys are found in afterwards
(`encryptV2_sealed`). Readers of the payload never look at the encryption again. The key table
changes in two ways: keys are added (`KeyTable.Grows`), and keys are destroyed, which keeps their
rows (`KeyTable.Retains`).
-/

open Py Fallible List Bool Prod

namespace Tracebed

variable {D : Type}

/-! ### The key table over time -/

/-- Every row stays as it is. -/
def KeyTable.Grows (keys later : KeyTable D) : Prop :=
  ∀ d r, keys.find d = some r → later.find d = some r

/-- Every row stays with its identity; one that is live later has not changed. -/
def KeyTable.Retains (keys later : KeyTable D) : Prop :=
  ∀ d r, keys.find d = some r →
    ∃ r', later.find d = some r' ∧ r'.keyId = r.keyId ∧ (r'.destroyedAt = none → r' = r)

theorem KeyTable.Grows.refl (keys : KeyTable D) : keys.Grows keys := fun _ _ h => h

theorem KeyTable.Grows.trans {a b c : KeyTable D} (hab : a.Grows b) (hbc : b.Grows c) :
    a.Grows c := fun d r h => hbc d r (hab d r h)

variable {keys : KeyTable D} {later : KeyTable D}

theorem KeyTable.Grows.retains (h : keys.Grows later) :
    keys.Retains later := fun d r hr => ⟨r, h d r hr, rfl, fun _ => rfl⟩

theorem KeyTable.Retains.trans {a b c : KeyTable D} (hab : a.Retains b) (hbc : b.Retains c) :
    a.Retains c := by
  intro d r hr
  obtain ⟨r', hr', hid, hlive⟩ := hab d r hr
  obtain ⟨r'', hr'', hid', hlive'⟩ := hbc d r' hr'
  refine ⟨r'', hr'', hid'.trans hid, fun hnone => ?_⟩
  obtain rfl := hlive' hnone
  exact hlive hnone

theorem SubjectKeyRow.destroy_destroyedAt (now : D) (r : SubjectKeyRow D) :
    (r.destroy now).destroyedAt ≠ none := by
  rw [SubjectKeyRow.destroy]
  split_ifs with h
  · exact Option.isSome_iff_ne_none.mp h
  · exact Option.some_ne_none now

/-- **Destroying keys touches exactly the rows asked for.** -/
theorem KeyTable.find_destroy (now : D) (ds : List Bytes) (keys : KeyTable D) (d : Bytes) :
    (keys.destroy now ds).find d =
      (keys.find d).map fun r => if d ∈ ds then r.destroy now else r := by
  have hdigest : ∀ r : SubjectKeyRow D,
      (if ds.any fun d => r.subjectDigest = some d then r.destroy now else r).subjectDigest =
        r.subjectDigest := by
    intro r
    split_ifs
    · rw [SubjectKeyRow.destroy]
      split_ifs <;> rfl
    · rfl
  induction keys with
  | nil => rfl
  | cons r keys ih =>
    rw [KeyTable.find, KeyTable.destroy] at ih ⊢
    rw [KeyTable.find, map_cons, find?_cons, find?_cons, hdigest]
    by_cases hd : r.subjectDigest = some d
    · simp [hd]
    · simp only [hd]
      exact ih

theorem KeyTable.retains_destroy (now : D) (ds : List Bytes) (keys : KeyTable D) :
    keys.Retains (keys.destroy now ds) := by
  intro d r hr
  refine ⟨if d ∈ ds then r.destroy now else r, by rw [find_destroy, hr]; rfl, ?_, ?_⟩
  · split_ifs
    · rw [SubjectKeyRow.destroy]
      split_ifs <;> rfl
    · rfl
  · split_ifs
    · exact fun h => absurd h (SubjectKeyRow.destroy_destroyedAt now r)
    · exact fun _ => rfl

/-- A new key is found under its digest, and no other row moves. -/
theorem insertSubjectKeyV2_spec {digest wrapped : Bytes} {keyId : UUID}
    (h : insertSubjectKeyV2 keys digest keyId wrapped = .ok later) :
    keys.Grows later ∧ wrapped.length = 60 ∧ (keys.find digest = none →
      later.find digest = some ⟨none, keyId, wrapped, none, some digest, 2⟩) := by
  obtain ⟨⟨⟩, -, h⟩ := bind_eq_ok.mp h
  obtain ⟨⟨⟩, hlen, h⟩ := bind_eq_ok.mp h
  rw [require_eq_ok, decide_eq_true_eq] at hlen
  cases hfind : keys.find digest with
  | some row =>
    rw [hfind] at h
    cases h
    exact ⟨KeyTable.Grows.refl _, hlen, nofun⟩
  | none =>
    rw [hfind] at h
    cases h
    refine ⟨fun d r hr => ?_, hlen, fun _ => ?_⟩
    · rw [KeyTable.find] at hr ⊢
      rw [find?_append, hr]
      rfl
    · rw [KeyTable.find] at hfind ⊢
      rw [find?_append, hfind]
      simp

/-! ### Keys -/

section Keys

variable (P : Primitives) (master : Bytes) (project : ProjectId)

/-- The table has a live row for the digest, and it unwraps to the key. -/
def LiveKey (keys : KeyTable D) (digest : Bytes) (keyId : UUID) (kek : Bytes) : Prop :=
  ∃ row, keys.find digest = some row ∧ row.keyId = keyId ∧ row.destroyedAt = none ∧
    unwrapV2OrLegacyKek P master project digest row = .ok kek

variable {P master project}

variable {digest kek : Bytes} {keyId : UUID}

theorem LiveKey.mono {keys : KeyTable D} (h : LiveKey P master project keys digest keyId kek)
    (hgrows : keys.Grows later) : LiveKey P master project later digest keyId kek := by
  obtain ⟨row, hrow, hrest⟩ := h
  exact ⟨row, hgrows _ _ hrow, hrest⟩

/-- The key of an existing row is the one a reader will unwrap from it. -/
theorem existingV2Kek_spec {row : SubjectKeyRow D}
    (h : existingV2Kek P master project digest row = .ok kek) :
    row.destroyedAt = none ∧ unwrapV2OrLegacyKek P master project digest row = .ok kek := by
  obtain ⟨⟨⟩, -, h⟩ := bind_eq_ok.mp h
  split_ifs at h with hversion
  · obtain ⟨⟨⟩, hlive, h⟩ := bind_eq_ok.mp h
    rw [require_eq_ok, Option.isNone_iff_eq_none] at hlive
    refine ⟨hlive, ?_⟩
    rw [unwrapV2OrLegacyKek, if_pos hversion]
    cases htag : row.subjectTag with
    | none =>
      rw [htag] at h
      cases h
    | some tag =>
      rw [htag] at h
      obtain ⟨own, -, h⟩ := bind_eq_ok.mp h
      obtain ⟨⟨⟩, -, h⟩ := bind_eq_ok.mp h
      exact h
  · obtain ⟨⟨⟩, -, h⟩ := bind_eq_ok.mp h
    obtain ⟨⟨⟩, hlive, h⟩ := bind_eq_ok.mp h
    rw [require_eq_ok, Option.isNone_iff_eq_none] at hlive
    exact ⟨hlive, h⟩

/-- A created key is stored so that it unwraps to itself. -/
theorem createV2Kek_spec (hP : P.Lawful) {s s' : KeySession D} (hfresh : s.keys.find digest = none)
    (h : createV2Kek P master project digest s = .ok ((kek, keyId), s')) :
    s.keys.Grows s'.keys ∧ LiveKey P master project s'.keys digest keyId kek := by
  simp only [createV2Kek, Keyed.bind_eq_ok, Keyed.randomBytes_eq_ok, Keyed.lift_eq_ok] at h
  obtain ⟨kek', t1, ⟨hkek, rfl⟩, random, t2, ⟨-, rfl⟩, nonce, t3, ⟨hnonce, rfl⟩, aad, t4,
    ⟨haad, rfl⟩, ct, t5, ⟨hct, rfl⟩, h⟩ := h
  cases hinsert : insertSubjectKeyV2 s.keys digest (UUID.ofRandom random) (nonce ++ ct) with
  | error e =>
    rw [hinsert] at h
    cases h
  | ok keys =>
    rw [hinsert] at h
    obtain ⟨hpair, rfl⟩ := mk.inj (Except.ok.inj h)
    obtain ⟨rfl, rfl⟩ := mk.inj hpair
    obtain ⟨hgrows, hlen, hfind⟩ := insertSubjectKeyV2_spec hinsert
    refine ⟨hgrows, _, hfind hfresh, rfl, rfl, ?_⟩
    have hnonceLen : nonce.length = nonceLen := by
      rw [← hnonce]
      exact urandom_length _ _
    refine guard_ok ?_ (bind_ok haad ?_)
    · rw [require_eq_ok, and_eq_true, decide_eq_true_eq, decide_eq_true_eq]
      exact ⟨rfl, hlen⟩
    · rw [mapError_eq_ok]
      rw [take_left' hnonceLen, drop_left' hnonceLen]
      exact hP.decrypt_encrypt hct

/-- **The key used for a digest is live in the table afterwards.** -/
theorem getOrCreateV2Kek_spec (hP : P.Lawful) {s s' : KeySession D}
    (h : getOrCreateV2Kek P master project digest s = .ok ((kek, keyId), s')) :
    s.keys.Grows s'.keys ∧ LiveKey P master project s'.keys digest keyId kek := by
  rw [getOrCreateV2Kek, Keyed.bind_eq_ok] at h
  obtain ⟨⟨⟩, t, h1, h⟩ := h
  obtain ⟨hlen, rfl⟩ := Keyed.lift_eq_ok.mp h1
  obtain ⟨row?, t, h1, h⟩ := Keyed.bind_eq_ok.mp h
  have hread : getSubjectKeyByDigest s.keys digest = .ok (s.keys.find digest) :=
    guard_ok (require_eq_ok.mpr (require_eq_ok.mp hlen)) rfl
  rw [hread] at h1
  obtain ⟨hrow, rfl⟩ := mk.inj (Except.ok.inj h1)
  cases row? with
  | some row =>
    obtain ⟨kek', t, h1, h⟩ := Keyed.bind_eq_ok.mp h
    obtain ⟨hkek, rfl⟩ := Keyed.lift_eq_ok.mp h1
    obtain ⟨hpair, rfl⟩ := Keyed.pure_eq_ok.mp h
    obtain ⟨rfl, rfl⟩ := mk.inj hpair
    obtain ⟨hlive, hunwrap⟩ := existingV2Kek_spec hkek
    exact ⟨KeyTable.Grows.refl _, row, hrow, rfl, hlive, hunwrap⟩
  | none => exact createV2Kek_spec hP hrow h

end Keys

/-! ### Sections -/

section Sections

variable (P : Primitives) (master : Bytes) (project : ProjectId)

/-- Each share encrypted under the live key of its digest, bound to its place. -/
inductive Wrapped (keys : KeyTable D) (aad : Bytes) : ℕ → List (Bytes × Bytes) → List Dict → Prop
  | nil (i : ℕ) : Wrapped keys aad i [] []
  | cons {i : ℕ} {digest share kek nonce shareAad enc : Bytes} {keyId : UUID}
      {pairs : List (Bytes × Bytes)} {wraps : List Dict} :
      LiveKey P master project keys digest keyId kek → nonce.length = nonceLen →
      buildV2ShareAad P aad i digest keyId = .ok shareAad →
      P.aesgcmEncrypt kek nonce share shareAad = .ok enc →
      Wrapped keys aad (i + 1) pairs wraps →
      Wrapped keys aad i ((digest, share) :: pairs) (wrapDict digest keyId nonce enc :: wraps)

variable {P master project}

variable {run : RunId} {index : ℕ} {previous : Option ℕ} {sections : List PlainSection}
  {t t' : KeySession D}

variable {pairs : List (Bytes × Bytes)} {wraps : List Dict} {aad : Bytes}

theorem Wrapped.mono (hgrows : keys.Grows later) {i : ℕ}
    (h : Wrapped P master project keys aad i pairs wraps) :
    Wrapped P master project later aad i pairs wraps := by
  induction h with
  | nil i => exact .nil i
  | cons hlive hnonce haad henc _ ih => exact .cons (hlive.mono hgrows) hnonce haad henc ih

/-- The loop over the wraps. -/
theorem encryptWraps_spec (hP : P.Lawful) {i : ℕ} {s s' : KeySession D}
    (h : encryptWraps P master project aad i pairs s = .ok (wraps, s')) :
    s.keys.Grows s'.keys ∧ Wrapped P master project s'.keys aad i pairs wraps := by
  induction pairs generalizing i wraps s with
  | nil =>
    obtain ⟨rfl, rfl⟩ := Keyed.pure_eq_ok.mp h
    exact ⟨KeyTable.Grows.refl _, .nil i⟩
  | cons pair pairs ih =>
    simp only [encryptWraps, Keyed.bind_eq_ok, Keyed.randomBytes_eq_ok, Keyed.lift_eq_ok] at h
    obtain ⟨⟨kek, keyId⟩, t, hkek, nonce, _, ⟨hnonce, rfl⟩, shareAad, _, ⟨haad, rfl⟩, enc, _,
      ⟨henc, rfl⟩, others, t', hothers, rfl, rfl⟩ := h
    obtain ⟨hgrows, hlive⟩ := getOrCreateV2Kek_spec hP hkek
    obtain ⟨hgrows', hwrapped⟩ := ih hothers
    have hnonceLen : nonce.length = nonceLen := by
      rw [← hnonce]
      exact urandom_length _ _
    exact ⟨hgrows.trans hgrows', .cons (hlive.mono hgrows') hnonceLen haad henc hwrapped⟩

/-- Everything that goes into an encoded section besides its plain one. -/
structure SealData where
  declared : List Bytes
  wrapped : List Bytes
  plaintext : Bytes
  aad : Bytes
  dek : Bytes
  nonce : Bytes
  ct : Bytes
  shares : List Bytes
  wraps : List Dict

/-- The encoded section. -/
def SealData.dict (c : SealData) (index : ℕ) (s : PlainSection) : Dict :=
  sectionDict c.ct c.nonce index s.seqFrom s.seqTo c.declared c.wraps

variable (P master project)

/-- A section sealed under the keys of a table. -/
structure Sealed (run : RunId) (keys : KeyTable D) (index : ℕ) (s : PlainSection)
    (c : SealData) : Prop where
  range : s.seqFrom ≤ s.seqTo ∧ s.seqTo < maxSeq
  declared : (subjectDigestPairs P project s.subjectTags).map (·.map fst) = .ok c.declared
  wrapped : wrapDigests P project c.declared = .ok c.wrapped
  plaintext : v2Plaintext s = .ok c.plaintext
  aad : buildV2SectionAad project run index s.seqFrom s.seqTo c.declared = .ok c.aad
  nonce_length : c.nonce.length = nonceLen
  encrypted : P.aesgcmEncrypt c.dek c.nonce c.plaintext c.aad = .ok c.ct
  combined : combineShares c.shares = some c.dek
  shares_length : c.shares.length = c.wrapped.length
  share_length : ∀ share ∈ c.shares, share.length = keyLen
  wraps : Wrapped P master project keys c.aad 0 (c.wrapped.zip c.shares) c.wraps

/-- Sections sealed one behind the other, in increasing sequence ranges. -/
inductive AllSealed (run : RunId) (keys : KeyTable D) :
    ℕ → Option ℕ → List PlainSection → List SealData → Prop
  | nil (index : ℕ) (previous : Option ℕ) : AllSealed run keys index previous [] []
  | cons {index : ℕ} {previous : Option ℕ} {s : PlainSection} {c : SealData}
      {sections : List PlainSection} {cs : List SealData} :
      (previous.all fun p => p < s.seqFrom) = true →
      Sealed P master project run keys index s c →
      AllSealed run keys (index + 1) (some s.seqTo) sections cs →
      AllSealed run keys index previous (s :: sections) (c :: cs)

variable {P master project}

variable {s : PlainSection}

theorem Sealed.mono (hgrows : keys.Grows later) {c : SealData}
    (h : Sealed P master project run keys index s c) :
    Sealed P master project run later index s c :=
  { h with wraps := h.wraps.mono hgrows }

variable {cs : List SealData}

theorem AllSealed.mono (hgrows : keys.Grows later)
    (h : AllSealed P master project run keys index previous sections cs) :
    AllSealed P master project run later index previous sections cs := by
  induction h with
  | nil index previous => exact .nil index previous
  | cons hprev hsealed _ ih => exact .cons hprev (hsealed.mono hgrows) ih

/-- One section. -/
theorem encryptSection_spec (hP : P.Lawful) {d : Dict}
    (h : encryptSection P master project run index previous s t = .ok (d, t')) :
    t.keys.Grows t'.keys ∧ (previous.all fun p => p < s.seqFrom) = true ∧
      ∃ c, Sealed P master project run t'.keys index s c ∧ d = c.dict index s := by
  simp only [encryptSection, Keyed.bind_eq_ok, Keyed.randomBytes_eq_ok, Keyed.lift_eq_ok,
    require_eq_ok] at h
  obtain ⟨⟨⟩, _, ⟨hrange, rfl⟩, ⟨⟩, _, ⟨hprev, rfl⟩, pairs, _, ⟨hpairs, rfl⟩, wrapped, _,
    ⟨hwrapped, rfl⟩, plaintext, _, ⟨hplain, rfl⟩, aad, _, ⟨haad, rfl⟩, dek, _, ⟨hdek, rfl⟩,
    nonce, _, ⟨hnonce, rfl⟩, ct, _, ⟨hct, rfl⟩, shares, t₁, hshares, wraps, t₂, hwraps, rfl,
    rfl⟩ := h
  rw [splitDek] at hshares
  split at hshares
  · rename_i shares' tape hsplit
    obtain ⟨rfl, rfl⟩ := mk.inj (Except.ok.inj hshares)
    obtain ⟨hcombine, hcount, hlens⟩ := combineShares_splitShares hsplit
    obtain ⟨hgrows, hall⟩ := encryptWraps_spec hP hwraps
    have hdekLen : dek.length = keyLen := by
      rw [← hdek]
      exact urandom_length _ _
    have hnonceLen : nonce.length = nonceLen := by
      rw [← hnonce]
      exact urandom_length _ _
    rw [and_eq_true, decide_eq_true_eq, decide_eq_true_eq] at hrange
    refine ⟨hgrows, hprev, ⟨pairs.map fst, wrapped, plaintext, aad, dek, nonce, ct, shares',
      wraps⟩, ?_, rfl⟩
    exact {
      range := hrange
      declared := by rw [hpairs]; rfl
      wrapped := hwrapped
      plaintext := hplain
      aad := haad
      nonce_length := hnonceLen
      encrypted := hct
      combined := hcombine
      shares_length := hcount
      share_length := fun share hshare => (hlens share hshare).trans hdekLen
      wraps := hall }
  · cases hshares

def sealedDicts : ℕ → List PlainSection → List SealData → List Dict
  | index, s :: sections, c :: cs => c.dict index s :: sealedDicts (index + 1) sections cs
  | _, _, _ => []

/-- The loop over the sections. -/
theorem encryptSections_spec (hP : P.Lawful) {ds : List Dict}
    (h : encryptSections P master project run index previous sections t = .ok (ds, t')) :
    t.keys.Grows t'.keys ∧ ∃ cs, AllSealed P master project run t'.keys index previous sections cs ∧
        ds = sealedDicts index sections cs := by
  induction sections generalizing index previous ds t with
  | nil =>
    obtain ⟨rfl, rfl⟩ := Keyed.pure_eq_ok.mp h
    exact ⟨KeyTable.Grows.refl _, [], .nil index previous, rfl⟩
  | cons s sections ih =>
    simp only [encryptSections, Keyed.bind_eq_ok] at h
    obtain ⟨d, t₁, hd, others, t₂, hothers, rfl, rfl⟩ := h
    obtain ⟨hgrows, hprev, c, hsealed, rfl⟩ := encryptSection_spec hP hd
    obtain ⟨hgrows', cs, hall, rfl⟩ := ih hothers
    exact ⟨hgrows.trans hgrows', c :: cs, .cons hprev (hsealed.mono hgrows') hall, rfl⟩

theorem AllSealed.length_eq (h : AllSealed P master project run keys index previous sections cs) :
    (sealedDicts index sections cs).length = sections.length := by
  induction h with
  | nil index previous => rfl
  | cons _ _ _ ih => rw [sealedDicts, length_cons, length_cons, ih]

variable (P master project)

/-- A payload sealed under the keys of a table. -/
structure SealedPayload (run : RunId) (keys : KeyTable D) (sections : List PlainSection)
    (payload : EncryptedPayload) (cs : List SealData) (span : ℕ × ℕ) : Prop where
  nonempty : sections ≠ []
  count : sections.length ≤ maxSections
  sections_sealed : AllSealed P master project run keys 0 none sections cs
  span_eq : sequenceSpan sections = some span
  payload_eq : payload = ⟨v2Header project run span.1 span.2 sections.length,
    sealedDicts 0 sections cs⟩

variable {P master project}

/-- **What `encrypt_v2` returns is sealed under the keys it leaves behind.** -/
theorem encryptV2_sealed (hP : P.Lawful) {payload : EncryptedPayload}
    (h : encryptV2 P master project run sections t = .ok (payload, t')) :
    t.keys.Grows t'.keys ∧
      ∃ cs span, SealedPayload P master project run t'.keys sections payload cs span := by
  simp only [encryptV2, Keyed.bind_eq_ok, Keyed.lift_eq_ok, require_eq_ok, orRaise_eq_ok] at h
  obtain ⟨⟨⟩, _, ⟨hcount, rfl⟩, encoded, t₁, hencoded, span, _, ⟨hspan, rfl⟩, rfl, rfl⟩ := h
  obtain ⟨hgrows, cs, hall, rfl⟩ := encryptSections_spec hP hencoded
  rw [not_eq_true', or_eq_false_iff, decide_eq_false_iff_not] at hcount
  refine ⟨hgrows, cs, span, ?_, Nat.le_of_not_lt hcount.2, hall, hspan, ?_⟩
  · rintro rfl
    cases hcount.1
  · rw [hall.length_eq]

end Sections

end Tracebed
