import Tracebed.SealedBytes
import Tracebed.StandardWriter

/-!
# Crypto-Shredding from End to End

A batch is encrypted, written down, read back and decrypted under a later state of the key
table. A section comes back as it was unless one of the keys it needs has been destroyed, and
then as a tombstone; no other section is affected (`shred_end_to_end`). A section needs the keys
of all its subjects, or the project's own key when it has none. The canonical bytes in between are
unambiguous (`canonicalJson_inj`).
-/

open Py Fallible List Except

namespace Tracebed

variable {D : Type}

/-! ### What a section becomes -/

/-- The key of a digest has been destroyed. -/
def isDestroyed (keys : KeyTable D) (digest : Bytes) : Bool :=
  (keys.find digest).any fun r => r.destroyedAt.isSome

/-- The tags whose keys a section needs: its own, or the project's. -/
def referencedTags (s : PlainSection) : List PyStr :=
  if s.subjectTags.isEmpty then [projectSubjectTag] else s.subjectTags

/-- What decryption gives for a section: a tombstone if a key is gone, and the section with
the digests of its tags if none is. -/
def shredded (P : Primitives) (project : ProjectId) (gone : PyStr → Bool) (s : PlainSection) :
    DecryptedSection :=
  let digests := digestsOf P project s.subjectTags
  if (referencedTags s).any gone then
    .tombstoned ⟨s.seqFrom, s.seqTo, [], digests, v2EnvelopeVersion⟩
  else .plain ⟨s.seqFrom, s.seqTo, [], s.lines, digests, v2EnvelopeVersion⟩

/-! ### Lines -/

variable {line : Bytes}

theorem canonicalJson_clean {m : Dict} (h : canonicalJson (.obj m) = .ok line) :
    line ≠ [] ∧ (10 : UInt8) ∉ line := by
  obtain ⟨text, htext, hbytes⟩ := bind_eq_ok.mp h
  rw [orRaise_eq_ok] at htext hbytes
  refine ⟨?_, fun hmem => ?_⟩
  · rintro rfl
    obtain ⟨parts, -, rfl⟩ := Option.map_eq_some_iff.mp htext
    obtain ⟨bs, -, hbytes⟩ := Option.bind_eq_some_iff.mp hbytes
    cases hbytes
  · rcases mem_utf8Encode hbytes hmem with hc | hc
    · exact absurd (Json.printable_dumps _ htext _ hc).1 (by decide)
    · exact absurd hc (by decide)

/-- **Canonical bytes are unambiguous.** Values that are read back as they are written have the same
canonical text only if they are equal up to the order of their keys. -/
theorem canonicalJson_inj {lo : Json.LoadOptions} {v w : Json} {bytes : Bytes}
    (hv : Json.Readable lo canonicalOptions v) (hw : Json.Readable lo canonicalOptions w)
    (h : canonicalJson v = .ok bytes) (h' : canonicalJson w = .ok bytes) :
    Json.ordered true v = Json.ordered true w := by
  obtain ⟨text, htext, hbytes⟩ := bind_eq_ok.mp h
  obtain ⟨text', htext', hbytes'⟩ := bind_eq_ok.mp h'
  rw [orRaise_eq_ok] at htext hbytes htext' hbytes'
  obtain rfl := Option.some.inj
    ((utf8Decode_utf8Encode hbytes).symm.trans (utf8Decode_utf8Encode hbytes'))
  exact Option.some.inj ((Json.loads_dumps hv htext).symm.trans (Json.loads_dumps hw htext'))

/-- Two orders of the keys of one dictionary. -/
theorem canonicalJson_swapped :
    Json.ordered true (.obj [(str "b", .null), (str "a", .int 1)]) =
      Json.ordered true (.obj [(str "a", .int 1), (str "b", .null)]) := by
  refine @canonicalJson_inj .default _ _ _ ⟨by decide, ?_⟩ ⟨by decide, ?_⟩ rfl rfl <;>
    simp [Json.ReadableMembers, Json.Readable, Json.Plain, canonicalOptions]

theorem lineSequence_canonical {n : ℤ} (h : lineSequence line = .ok n) :
    ∃ m, canonicalJson (.obj m) = .ok line := by
  obtain ⟨decoded, -, h⟩ := bind_eq_ok.mp h
  obtain ⟨value, -, h⟩ := bind_eq_ok.mp h
  cases value with
  | obj m =>
    obtain ⟨⟨⟩, -, h⟩ := bind_eq_ok.mp h
    cases hseq : field m "seq" with
    | int k =>
      rw [hseq] at h
      obtain ⟨canonical, hcanonical, h⟩ := bind_eq_ok.mp h
      obtain ⟨⟨⟩, hsame, -⟩ := bind_eq_ok.mp h
      obtain rfl : canonical = line := of_decide_eq_true (require_eq_ok.mp hsame)
      exact ⟨m, hcanonical⟩
    | null | bool | float | str | arr | obj =>
      rw [hseq] at h
      cases h
  | null | bool | int | float | str | arr => cases h

theorem lineSequences_mem {seqFrom seqTo : ℕ} {previous : Option ℤ} {lines : List Bytes}
    {seqs : List ℤ} (h : lineSequences seqFrom seqTo previous lines = .ok seqs) :
    ∀ line ∈ lines, ∃ n, lineSequence line = .ok n := by
  induction lines generalizing previous seqs with
  | nil => exact nofun
  | cons first lines ih =>
    obtain ⟨n, hn, h⟩ := bind_eq_ok.mp h
    obtain ⟨⟨⟩, -, h⟩ := bind_eq_ok.mp h
    obtain ⟨others, hothers, -⟩ := bind_eq_ok.mp h
    exact forall_mem_cons.mpr ⟨⟨n, hn⟩, ih hothers⟩

/-- **The lines of a section are recovered from its plaintext.** -/
theorem v2DecryptPlaintext_eq {s : PlainSection} {plaintext : Bytes}
    (h : v2Plaintext s = .ok plaintext) :
    v2DecryptPlaintext plaintext s.seqFrom s.seqTo = .ok s.lines := by
  obtain ⟨hne, hcheck, rfl⟩ := v2Plaintext_spec h
  obtain ⟨seqs, hseqs, -⟩ := bind_eq_ok.mp hcheck
  have hclean : ∀ line ∈ s.lines, line ≠ [] ∧ (10 : UInt8) ∉ line := fun line hline => by
    obtain ⟨n, hn⟩ := lineSequences_mem hseqs line hline
    obtain ⟨m, hm⟩ := lineSequence_canonical hn
    exact canonicalJson_clean hm
  obtain ⟨hlast, hsplit⟩ := splitOn_flatten hne fun line hline => (hclean line hline).2
  rw [← joinLines] at hlast hsplit
  refine guard_ok (by rw [require_eq_ok, decide_eq_true_eq, hlast]) ?_
  rw [hsplit]
  refine guard_ok ?_ (bind_ok hcheck rfl)
  have hempty : s.lines.isEmpty = false := by simpa using hne
  have hany : s.lines.any List.isEmpty = false := by
    rw [← Bool.not_eq_true, any_eq_true]
    rintro ⟨line, hline, hnil⟩
    exact (hclean line hline).1 (List.isEmpty_iff.mp hnil)
  rw [hempty, hany]
  rfl

/-! ### Shares -/

section Decryption

variable {P : Primitives} {master : Bytes} {project : ProjectId} {run : RunId}
  {keys later : KeyTable D}
  {digest aad : Bytes} {keyId : UUID} {i index : ℕ} {s : PlainSection} {c : SealData}
  {previous : Option ℕ} {sections : List PlainSection} {cs : List SealData}

theorem LiveKey.retained {kek : Bytes} (h : LiveKey P master project keys digest keyId kek)
    (hretains : keys.Retains later) :
    ∃ row, later.find digest = some row ∧ row.keyId = keyId ∧
      (row.destroyedAt = none → unwrapV2OrLegacyKek P master project digest row = .ok kek) := by
  obtain ⟨row, hrow, rfl, -, hunwrap⟩ := h
  obtain ⟨row', hrow', hid, hlive⟩ := hretains digest row hrow
  exact ⟨row', hrow', hid, fun hnone => by rw [hlive hnone]; exact hunwrap⟩

variable {row : SubjectKeyRow D}

theorem bindWrap_wrapDict {nonce enc : Bytes} (hlen : digest.length = keyLen)
    (hrow : later.find digest = some row) (hid : row.keyId = keyId) :
    bindWrap P project later (.obj (wrapDict digest keyId nonce enc)) =
      .ok ⟨wrapDict digest keyId nonce enc, digest, keyId, row⟩ := by
  refine bind_eq_ok.mpr ⟨_, rfl, ?_⟩
  refine bind_ok (b64dCanonical_jstr digest) ?_
  refine bind_ok (orRaise_eq_ok.mpr (UUID.parse_str keyId)) ?_
  refine bind_eq_ok.mpr ⟨some row, ?_, ?_⟩
  · exact guard_ok (require_eq_ok.mpr (decide_eq_true hlen)) (congrArg ok hrow)
  · have hdigest : row.subjectDigest = some digest := by simpa using find?_some hrow
    refine guard_ok (by simp [hid]) ?_
    rw [hdigest]
    exact guard_ok (by simp) rfl

/-- What the share encoder accepts, and its output field by field. -/
theorem buildV2ShareAad_frame {shareAad : Bytes}
    (h : buildV2ShareAad P aad i digest keyId = .ok shareAad) :
    digest.length = keyLen ∧ i < 2 ^ 16 ∧ shareAad =
      v2ShareAadDomain ++ (P.sha256 aad ++ toBytesBE 2 i ++ digest ++ keyId.bytes) := by
  obtain ⟨⟨⟩, hi, h⟩ := bind_eq_ok.mp h
  obtain ⟨⟨⟩, hdigest, h⟩ := bind_eq_ok.mp h
  rw [require_eq_ok, decide_eq_true_eq] at hi
  refine ⟨(validateSubjectDigestBytes_spec hdigest).1 digest mem_cons_self, hi, ?_⟩
  rw [← ok.inj h]
  simp only [append_assoc]

theorem openShare_wrapDict (hP : P.Lawful) {kek nonce share shareAad enc : Bytes}
    (hunwrap : row.destroyedAt = none →
      unwrapV2OrLegacyKek P master project digest row = .ok kek)
    (haad : buildV2ShareAad P aad i digest keyId = .ok shareAad)
    (henc : P.aesgcmEncrypt kek nonce share shareAad = .ok enc) :
    openShare P master project aad i ⟨wrapDict digest keyId nonce enc, digest, keyId, row⟩ =
      .ok (if row.destroyedAt.isSome then none else some share) := by
  rw [openShare]
  by_cases hd : row.destroyedAt.isSome = true
  · rw [if_pos hd, if_pos hd]
  · rw [if_neg hd, if_neg hd]
    refine bind_ok (hunwrap (by simpa using hd)) ?_
    refine bind_ok (b64dCanonical_jstr nonce) ?_
    refine bind_ok (b64dCanonical_jstr enc) ?_
    refine bind_ok haad ?_
    refine bind_eq_ok.mpr ⟨share, ?_, rfl⟩
    rw [mapError_eq_ok]
    exact hP.decrypt_encrypt henc

variable {pairs : List (Bytes × Bytes)} {wraps : List Dict}

/-- **Both passes over the wraps**: every wrap binds, and the share of every live key comes
back. -/
theorem Wrapped.opens (hP : P.Lawful) (h : Wrapped P master project keys aad i pairs wraps)
    (hretains : keys.Retains later) :
    ∃ bindings, (wraps.map Json.obj).mapM (bindWrap P project later) = .ok bindings ∧
      openShares P master project aad i bindings =
        .ok (pairs.map fun p => if isDestroyed later p.1 then none else some p.2) := by
  induction h with
  | nil i => exact ⟨[], rfl, rfl⟩
  | cons hlive _ haad henc _ ih =>
    rename_i i digest share kek nonce shareAad enc keyId pairs wraps _ _
    obtain ⟨bindings, hbind, hopen⟩ := ih
    obtain ⟨row, hrow, hid, hunwrap⟩ := hlive.retained hretains
    refine ⟨⟨wrapDict digest keyId nonce enc, digest, keyId, row⟩ :: bindings, ?_,
      bind_eq_ok.mpr ⟨_, ?_, bind_ok hopen rfl⟩⟩
    · rw [map_cons, mapM_cons]
      exact bind_eq_ok.mpr ⟨_, bindWrap_wrapDict (buildV2ShareAad_frame haad).1 hrow hid,
          bind_ok hbind rfl⟩
    · have hgone : isDestroyed later digest = row.destroyedAt.isSome := by
        rw [isDestroyed, hrow]
        rfl
      dsimp only
      rw [hgone]
      exact openShare_wrapDict hP hunwrap haad henc

/-! ### Sections -/

theorem asInt_jnat {n : ℕ} (h : n < maxSeq) (label : String) : asInt label (jnat n) = .ok n := by
  have hn : (0 : ℤ) ≤ n ∧ (n : ℤ) < maxSeq := by omega
  rw [jnat, asInt, if_pos hn, Int.toNat_natCast]

theorem Sealed.wrapped_perm (h : Sealed P master project run keys index s c) :
    c.declared = digestsOf P project s.subjectTags ∧
      c.wrapped.Perm ((referencedTags s).map (digestOf P project)) := by
  obtain ⟨pairs, hpairs, hdeclared⟩ := map_eq_ok.mp h.declared
  obtain ⟨hfst, -, -⟩ := subjectDigestPairs_spec hpairs
  have hdigests : c.declared = digestsOf P project s.subjectTags := hdeclared.symm.trans hfst
  have hperm : (digestsOf P project s.subjectTags).Perm
      (s.subjectTags.map (digestOf P project)) := perm_insertionSort _ _
  refine ⟨hdigests, ?_⟩
  have hwrapped := h.wrapped
  rw [wrapDigests, hdigests] at hwrapped
  rw [referencedTags]
  cases htags : s.subjectTags with
  | nil =>
    have hempty : (digestsOf P project []).isEmpty = true := rfl
    rw [htags, if_pos hempty] at hwrapped
    obtain ⟨sentinel, hsentinel, hwrapped⟩ := map_eq_ok.mp hwrapped
    rw [← hwrapped, ← digestOf_eq hsentinel]
    exact List.Perm.refl _
  | cons tag tags =>
    rw [htags] at hwrapped hperm
    have hne : (digestsOf P project (tag :: tags)).isEmpty = false := by
      rw [← Bool.not_eq_true, List.isEmpty_iff]
      intro hnil
      have hlen := hperm.length_eq
      rw [hnil] at hlen
      cases hlen
    rw [hne] at hwrapped
    rw [← ok.inj hwrapped]
    exact hperm

/-- **Decryption of a sealed section under a later key table.** -/
theorem Sealed.decrypts (hP : P.Lawful) (h : Sealed P master project run keys index s c)
    (hretains : keys.Retains later) :
    decryptV2Section P master project run later (c.dict index s) =
      .ok (shredded P project (fun t => isDestroyed later (digestOf P project t)) s) := by
  obtain ⟨hfromTo, hmax⟩ := h.range
  obtain ⟨hindex, -⟩ := buildV2SectionAad_frame h.aad
  obtain ⟨hdeclared, hperm⟩ := h.wrapped_perm
  obtain ⟨bindings, hbind, hopen⟩ := h.wraps.opens hP hretains
  have hfst : (c.wrapped.zip c.shares).map Prod.fst = c.wrapped :=
    map_fst_zip (Nat.le_of_eq h.shares_length.symm)
  have hsnd : (c.wrapped.zip c.shares).map Prod.snd = c.shares :=
    map_snd_zip (Nat.le_of_eq h.shares_length)
  -- a share is missing exactly when a referenced key is gone
  have hany : ((c.wrapped.zip c.shares).map fun p =>
      if isDestroyed later p.1 then none else some p.2).any Option.isNone =
      (referencedTags s).any fun t => isDestroyed later (digestOf P project t) := by
    calc ((c.wrapped.zip c.shares).map fun p =>
          if isDestroyed later p.1 then none else some p.2).any Option.isNone
        = ((c.wrapped.zip c.shares).map Prod.fst).any (isDestroyed later) := by
          rw [any_map, any_map]
          congr 1
          funext p
          dsimp only [Function.comp]
          cases isDestroyed later p.1 <;> rfl
      _ = ((referencedTags s).map (digestOf P project)).any (isDestroyed later) := by
          rw [hfst, hperm.any_eq]
      _ = _ := any_map
  refine bind_eq_ok.mpr ⟨s.seqFrom, asInt_jnat (Nat.lt_of_le_of_lt hfromTo hmax) _, ?_⟩
  refine bind_ok (asInt_jnat hmax _) ?_
  refine bind_ok (asInt_jnat (by rw [maxSeq]; omega) _) ?_
  refine bind_eq_ok.mpr ⟨_, rfl, ?_⟩
  refine bind_ok (mapM_b64dCanonical c.declared) ?_
  refine bind_ok h.aad ?_
  refine bind_eq_ok.mpr ⟨_, rfl, ?_⟩
  refine bind_ok hbind ?_
  refine bind_ok hopen ?_
  rw [hany, shredded, hdeclared]
  by_cases hgone : ((referencedTags s).any fun t =>
      isDestroyed later (digestOf P project t)) = true
  · rw [if_pos hgone, if_pos hgone]
    rfl
  · rw [if_neg hgone, if_neg hgone]
    have hshares : ((c.wrapped.zip c.shares).map fun p =>
        if isDestroyed later p.1 then none else some p.2).filterMap id = c.shares := by
      rw [← hany, Bool.not_eq_true, any_eq_false] at hgone
      refine Eq.trans ?_ hsnd
      rw [filterMap_map, ← filterMap_eq_map]
      refine filterMap_congr fun p hp => ?_
      have := hgone _ (mem_map_of_mem hp)
      dsimp only [Function.comp] at this ⊢
      cases hd : isDestroyed later p.1 with
      | true =>
        rw [hd] at this
        exact absurd rfl this
      | false => rfl
    refine bind_eq_ok.mpr ⟨c.dek, by rw [hshares, h.combined]; rfl, ?_⟩
    refine bind_ok (b64dCanonical_jstr c.nonce) ?_
    refine bind_ok (b64dCanonical_jstr c.ct) ?_
    refine bind_eq_ok.mpr ⟨c.plaintext, ?_, ?_⟩
    · rw [mapError_eq_ok]
      exact hP.decrypt_encrypt h.encrypted
    · exact bind_ok (v2DecryptPlaintext_eq h.plaintext) rfl

/-! ### Payloads -/

theorem AllSealed.decrypts (hP : P.Lawful)
    (h : AllSealed P master project run keys index previous sections cs)
    (hretains : keys.Retains later) :
    (sealedDicts index sections cs).mapM (decryptV2Section P master project run later) =
      .ok (sections.map
        (shredded P project fun t => isDestroyed later (digestOf P project t))) := by
  induction h with
  | nil index previous => rfl
  | cons _ hsealed _ ih =>
    rw [sealedDicts, mapM_cons]
    exact bind_ok (hsealed.decrypts hP hretains) (bind_ok ih rfl)

variable {payload : EncryptedPayload} {span : ℕ × ℕ}

/-- **Decryption of a sealed payload under a later key table**: one result per section, in
order. -/
theorem SealedPayload.decrypts (hP : P.Lawful)
    (h : SealedPayload P master project run keys sections payload cs span)
    (hretains : keys.Retains later) :
    decrypt P master later project payload = .ok (sections.map
        (shredded P project fun t => isDestroyed later (digestOf P project t))) := by
  rw [decrypt, if_pos h.isV2, h.payload_eq]
  refine bind_eq_ok.mpr ⟨project.value.str, rfl, ?_⟩
  refine guard_ok (by simp) ?_
  refine bind_eq_ok.mpr ⟨run.value.str, rfl, ?_⟩
  refine bind_ok (orRaise_eq_ok.mpr (UUID.parse_str _)) ?_
  exact h.sections_sealed.decrypts hP hretains

/-! ### Erasure -/

variable (erasures : List (D × List Bytes))

/-- Erasures, each at its time and of a set of keys, one after the other. -/
def erase (keys : KeyTable D) : KeyTable D :=
  erasures.foldl (fun keys e => keys.destroy e.1 e.2) keys

/-- The digests whose keys the erasures destroy. -/
def erasedDigests : List Bytes := erasures.flatMap Prod.snd

/-- The key of the tag is among the erased ones. -/
def isErased (P : Primitives) (project : ProjectId) (erasures : List (D × List Bytes))
    (tag : PyStr) : Bool :=
  (erasedDigests erasures).contains (digestOf P project tag)

/-- Distinct tags of the list have distinct digests. -/
def Collisionless (P : Primitives) (project : ProjectId) (tags : List PyStr) : Prop :=
  ∀ t ∈ tags, ∀ u ∈ tags, digestOf P project t = digestOf P project u → t = u

instance (tags : List PyStr) : Decidable (Collisionless P project tags) :=
  inferInstanceAs (Decidable (∀ t ∈ tags, ∀ u ∈ tags, _ → _))

theorem KeyTable.retains_erase (keys : KeyTable D) : keys.Retains (erase erasures keys) := by
  induction erasures generalizing keys with
  | nil => exact (KeyTable.Grows.refl keys).retains
  | cons e erasures ih => exact (keys.retains_destroy e.1 e.2).trans (ih _)

/-- **A key that was live is destroyed exactly if an erasure names it.** -/
theorem isDestroyed_erase {keys : KeyTable D} {d : Bytes} {r : SubjectKeyRow D}
    (hrow : keys.find d = some r) :
    isDestroyed (erase erasures keys) d =
      (r.destroyedAt.isSome || (erasedDigests erasures).contains d) := by
  induction erasures generalizing keys r with
  | nil =>
    rw [erase, foldl_nil, isDestroyed, hrow]
    simp [erasedDigests]
  | cons e erasures ih =>
    have hfind := KeyTable.find_destroy e.1 e.2 keys d
    rw [hrow, Option.map_some] at hfind
    have hcons : erasedDigests (e :: erasures) = e.2 ++ erasedDigests erasures := flatMap_cons
    rw [erase, foldl_cons, ← erase, ih hfind, hcons]
    by_cases hd : d ∈ e.2
    · have hgone := Option.isSome_iff_ne_none.mpr (SubjectKeyRow.destroy_destroyedAt e.1 r)
      simp [hd, hgone]
    · simp [hd]

theorem Wrapped.live (h : Wrapped P master project keys aad i pairs wraps) :
    ∀ p ∈ pairs, ∃ keyId kek, LiveKey P master project keys p.1 keyId kek := by
  induction h with
  | nil i => exact nofun
  | cons hlive _ _ _ _ ih =>
    exact forall_mem_cons.mpr ⟨⟨_, _, hlive⟩, ih⟩

theorem Sealed.live (h : Sealed P master project run keys index s c) :
    ∀ tag ∈ referencedTags s,
      ∃ keyId kek, LiveKey P master project keys (digestOf P project tag) keyId kek := by
  intro tag htag
  have hmem : digestOf P project tag ∈ c.wrapped :=
    h.wrapped_perm.2.mem_iff.mpr (mem_map_of_mem htag)
  have hfst : (c.wrapped.zip c.shares).map Prod.fst = c.wrapped :=
    map_fst_zip (Nat.le_of_eq h.shares_length.symm)
  rw [← hfst] at hmem
  obtain ⟨p, hp, hdigest⟩ := mem_map.mp hmem
  rw [← hdigest]
  exact h.wraps.live p hp

/-- Sections and what they are sealed with stand side by side. -/
theorem AllSealed.paired (h : AllSealed P master project run keys index previous sections cs) :
    List.Forall₂ (fun s c => ∃ i, Sealed P master project run keys i s c) sections cs := by
  induction h with
  | nil index previous => exact .nil
  | cons _ hsealed _ ih => exact .cons ⟨_, hsealed⟩ ih

theorem AllSealed.not_reserved (h : AllSealed P master project run keys index previous sections cs)
    (hcol : Collisionless P project
      (projectSubjectTag :: sections.flatMap PlainSection.subjectTags)) :
    ∀ c ∈ cs, digestOf P project projectSubjectTag ∉ c.declared := by
  intro c hc
  obtain ⟨s, hs, index, hsealed⟩ := forall₂_mem h.paired.flip c hc
  obtain ⟨pairs, hpairs, -⟩ := map_eq_ok.mp hsealed.declared
  obtain ⟨-, -, hvalid⟩ := subjectDigestPairs_spec hpairs
  rw [hsealed.wrapped_perm.1, digestsOf, mem_insertionSort, mem_map]
  rintro ⟨t, ht, heq⟩
  refine (hvalid t ht).2 (hcol t ?_ _ mem_cons_self heq)
  exact mem_cons_of_mem _ (mem_flatMap.mpr ⟨s, hs, ht⟩)

/-- Only the keys a section needs decide what becomes of it. -/
theorem shredded_congr {gone gone' : PyStr → Bool}
    (h : ∀ tag ∈ referencedTags s, gone tag = gone' tag) :
    shredded P project gone s = shredded P project gone' s := by
  have hany : (referencedTags s).any gone = (referencedTags s).any gone' := by
    rw [Bool.eq_iff_iff, any_eq_true, any_eq_true]
    constructor
    · rintro ⟨tag, htag, hgone⟩
      exact ⟨tag, htag, (h tag htag).symm.trans hgone⟩
    · rintro ⟨tag, htag, hgone⟩
      exact ⟨tag, htag, (h tag htag).trans hgone⟩
  rw [shredded, shredded, hany]

theorem SealedPayload.decrypts_erased (hP : P.Lawful)
    (h : SealedPayload P master project run keys sections payload cs span)
    (erasures : List (D × List Bytes)) :
    decrypt P master (erase erasures keys) project payload =
      .ok (sections.map (shredded P project (isErased P project erasures))) := by
  rw [h.decrypts hP (keys.retains_erase erasures)]
  refine congrArg ok (map_congr_left fun s hs => shredded_congr fun tag htag => ?_)
  obtain ⟨c, -, index, hsealed⟩ := forall₂_mem h.sections_sealed.paired s hs
  obtain ⟨keyId, kek, row, hrow, -, hlive, -⟩ := hsealed.live tag htag
  rw [isDestroyed_erase erasures hrow, hlive]
  rfl

/-- **Crypto-shredding from end to end.** What `encrypt_v2` returns is written and read back,
and decrypted after any erasures. There is one result per section, in order; a section whose
tags or, untagged, whose project have lost a key is a tombstone, and any other one has its
lines, its range and the digests of its tags. A further erasure leaves every section as it
was that needs none of its keys. -/
theorem shred_end_to_end (hP : P.Lawful) {sections : List PlainSection}
    {payload : EncryptedPayload} {t t' : KeySession D}
    (henc : encryptV2 P master project run sections t = .ok (payload, t'))
    (hcol : Collisionless P project
      (projectSubjectTag :: sections.flatMap PlainSection.subjectTags)) :
    ∃ raw parsed, payload.toBytes P = .ok raw ∧ EncryptedPayload.fromBytes P raw = .ok parsed ∧
      ∀ erasures : List (D × List Bytes), decrypt P master (erase erasures t'.keys) project parsed =
          .ok (sections.map (shredded P project (isErased P project erasures))) ∧
        ∀ now digests results results',
          decrypt P master (erase erasures t'.keys) project parsed = .ok results →
          decrypt P master (erase (erasures ++ [(now, digests)]) t'.keys) project parsed =
            .ok results' →
          ∀ (i : ℕ) s, sections[i]? = some s →
            (∀ tag ∈ referencedTags s, digestOf P project tag ∉ digests) →
            results'[i]? = results[i]? := by
  obtain ⟨-, cs, span, hsealed⟩ := encryptV2_sealed hP henc
  have hsentinel : subjectDigest P project projectSubjectTag =
      .ok (digestOf P project projectSubjectTag) := rfl
  obtain ⟨raw, hwrite, hread⟩ := hsealed.fromBytes_toBytes hP hsentinel
    (hsealed.sections_sealed.not_reserved hcol)
  refine ⟨raw, payload, hwrite, hread, fun erasures => ⟨hsealed.decrypts_erased hP erasures, ?_⟩⟩
  intro now digests results results' hresults hresults' i s hs hother
  rw [hsealed.decrypts_erased hP] at hresults hresults'
  rw [← ok.inj hresults, ← ok.inj hresults', getElem?_map, getElem?_map, hs]
  refine congrArg some (shredded_congr fun tag htag => ?_)
  simp [isErased, erasedDigests, hother tag htag]

end Decryption

/-! ### Two sections -/

/-- The line of an event that says nothing but its sequence number. -/
def sampleLine (seq : ℕ) : Bytes :=
  ((canonicalJson (.obj [(str "seq", .int seq), (str "event", .obj [])])).toOption).getD []

/-- The subject of the second section. -/
def sampleTag : PyStr := str "user:1"

/-- A section under the project's key and one under a subject's. -/
def sampleSections : List PlainSection :=
  [{ seqFrom := 0, seqTo := 0, subjectTags := [], lines := [sampleLine 0] },
    { seqFrom := 1, seqTo := 1, subjectTags := [sampleTag], lines := [sampleLine 1] }]

/-- What decryption gives for them once the subject has been erased. -/
def sampleResults : List DecryptedSection :=
  [.plain ⟨0, 0, [], [sampleLine 0], [], 2⟩,
    .tombstoned ⟨1, 1, [], [digestOf standardPrimitives stdProject sampleTag], 2⟩]

/-- The two sections from end to end, with the subject of the second one erased. -/
theorem shred_end_to_end_sample :
    ∃ (t t' : KeySession Stamp) (payload parsed : EncryptedPayload) (raw : Bytes),
      encryptV2 standardPrimitives stdWriter.masterKey stdProject stdRun sampleSections t =
        .ok (payload, t') ∧
      payload.toBytes standardPrimitives = .ok raw ∧
      EncryptedPayload.fromBytes standardPrimitives raw = .ok parsed ∧
      decrypt standardPrimitives stdWriter.masterKey
        (erase [(stdStamp, [digestOf standardPrimitives stdProject sampleTag])] t'.keys)
        stdProject parsed = .ok sampleResults := by
  have henc : ((encryptV2 standardPrimitives stdWriter.masterKey stdProject stdRun sampleSections
      (⟨[], fun i => UInt8.ofNat (37 * i)⟩ : KeySession Stamp)).toOption).isSome = true := by
    decide +kernel
  obtain ⟨⟨payload, t'⟩, henc⟩ := Option.isSome_iff_exists.mp henc
  rw [toOption_eq_some] at henc
  have hcol : Collisionless standardPrimitives stdProject
      (projectSubjectTag :: sampleSections.flatMap PlainSection.subjectTags) := by
    decide +kernel
  obtain ⟨raw, parsed, hwrite, hread, hdecrypt⟩ :=
    shred_end_to_end standardPrimitives_lawful henc hcol
  obtain ⟨hresults, -⟩ := hdecrypt [(stdStamp, [digestOf standardPrimitives stdProject sampleTag])]
  refine ⟨_, t', payload, parsed, raw, henc, hwrite, hread, hresults.trans (congrArg _ ?_)⟩
  decide +kernel

end Tracebed
