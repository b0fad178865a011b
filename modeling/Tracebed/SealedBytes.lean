import Tracebed.Sealing
import Tracebed.Lib.JsonRoundTrip
import Tracebed.Lib.JsonCanonical

/-!
# The Bytes of a Sealed Payload

A sealed payload passes every check of the version 2 validator (`SealedPayload.validates`), and
its bytes read back as the payload itself (`SealedPayload.fromBytes_toBytes`): the dictionaries
list their keys in order, and every text in them is ASCII.
-/

open Py Fallible List Except

namespace Tracebed

variable {D : Type}

/-! ### Fields -/

@[simp] theorem b64dCanonical_jstr (d : Bytes) : b64dCanonical (jstr (b64encode d)) = .ok d := by
  rw [jstr, b64dCanonical, b64decodeCanonical_b64encode]
  rfl

@[simp] theorem mapM_b64dCanonical (ds : List Bytes) :
    (ds.map fun d => jstr (b64encode d)).mapM b64dCanonical = .ok ds := by
  rw [mapM_eq_ok, forall₂_map_left_iff, forall₂_same]
  exact fun d _ => b64dCanonical_jstr d

theorem validateV2Nat_jnat {bound n : ℕ} (h : n < bound) (msg : String) :
    validateV2Nat bound msg (jnat n) = .ok n := by
  have hn : (0 : ℤ) ≤ n ∧ (n : ℤ) < bound := by omega
  rw [jnat, validateV2Nat, if_pos hn, Int.toNat_natCast]

@[simp] theorem canonicalUuid_jstr (u : UUID) : canonicalUuid (jstr u.str) = .ok u := by
  refine bind_eq_ok.mpr ⟨u, by rw [UUID.parse_str]; rfl, ?_⟩
  exact guard_ok (by simp) rfl

/-! ### Wraps -/

variable {pairs : List (Bytes × Bytes)} {wraps : List Dict} {ds : List Bytes} {i : ℕ}

section Validation

variable {P : Primitives} {master : Bytes} {project : ProjectId} {run : RunId}
  {keys : KeyTable D}
  {aad sentinel : Bytes} {index : ℕ} {previous : Option ℕ} {sections : List PlainSection}
  {cs : List SealData}

theorem Wrapped.length_eq (h : Wrapped P master project keys aad i pairs wraps) :
    wraps.length = pairs.length := by
  induction h with
  | nil i => rfl
  | cons _ _ _ _ _ ih => rw [length_cons, length_cons, ih]

theorem validateV2Wrap_wrapDict {digest nonce share : Bytes} {keyId : UUID}
    (hnonce : nonce.length = nonceLen) (hshare : share.length = keyLen + 16) :
    validateV2Wrap (.obj (wrapDict digest keyId nonce share)) digest = .ok () := by
  refine guard_ok (require_eq_ok.mpr rfl) ?_
  refine bind_eq_ok.mpr ⟨digest, b64dCanonical_jstr digest, ?_⟩
  refine guard_ok (by simp) ?_
  refine bind_ok (canonicalUuid_jstr keyId) ?_
  refine bind_ok (b64dCanonical_jstr nonce) ?_
  refine bind_ok (b64dCanonical_jstr share) ?_
  simp [hnonce, hshare]

theorem Wrapped.validates (hP : P.Lawful) (h : Wrapped P master project keys aad i pairs wraps)
    (hshares : ∀ p ∈ pairs, p.2.length = keyLen)
    (hsorted : (pairs.map Prod.fst).Pairwise fun a b => bytesLe b a = false)
    {previous : Option Bytes}
    (hprevious : ∀ p ∈ previous, ∀ d ∈ pairs.map Prod.fst, bytesLe d p = false) :
    validateV2Wraps previous ((wraps.map Json.obj).zip (pairs.map Prod.fst)) = .ok () := by
  induction h generalizing previous with
  | nil i => rfl
  | cons _ hnonce _ henc _ ih =>
    rename_i i digest share kek nonce shareAad enc keyId pairs wraps _ _ _
    obtain ⟨hfirst, hsorted⟩ := pairwise_cons.mp hsorted
    have hlen : enc.length = keyLen + 16 := by
      rw [hP.encrypt_length henc, hshares _ mem_cons_self]
    refine bind_ok (validateV2Wrap_wrapDict hnonce hlen) ?_
    refine guard_ok ?_ ?_
    · cases previous with
      | none => rfl
      | some p =>
        have := hprevious p rfl digest mem_cons_self
        simpa using this
    · refine ih (forall_mem_cons.mp hshares).2 hsorted ?_
      rintro p ⟨⟩ d hd
      exact hfirst d hd

/-! ### Sections -/

theorem validateSubjectDigestBytes_spec (h : validateSubjectDigestBytes ds = .ok ()) :
    (∀ d ∈ ds, d.length = keyLen) ∧ ds.Pairwise fun a b => bytesLe b a = false := by
  obtain ⟨⟨⟩, -, h⟩ := bind_eq_ok.mp h
  obtain ⟨⟨⟩, hlen, h⟩ := bind_eq_ok.mp h
  rw [require_eq_ok, Bool.and_eq_true, decide_eq_true_eq, decide_eq_true_eq] at h
  rw [require_eq_ok, all_eq_true] at hlen
  refine ⟨fun d hd => of_decide_eq_true (hlen d hd), ?_⟩
  have hsorted := pairwise_insertionSort (fun a b : Bytes => bytesLe a b = true) ds
  rw [h.1] at hsorted
  refine hsorted.imp₂ (fun a b hab hne => ?_) h.2
  by_contra hba
  exact hne (bytesLe_antisymm hab (by simpa using hba))

/-- What the section encoder accepts, and its output field by field. -/
theorem buildV2SectionAad_frame {seqFrom seqTo : ℕ}
    (h : buildV2SectionAad project run index seqFrom seqTo ds = .ok aad) :
    index < 2 ^ 32 ∧ validateSubjectDigestBytes ds = .ok () ∧ seqFrom < maxSeq ∧
      seqTo < maxSeq ∧ aad = v2SectionAadDomain ++ (project.value.bytes ++ (run.value.bytes ++
        (toBytesBE 4 index ++ (toBytesBE 8 seqFrom ++ (toBytesBE 8 seqTo ++
          (toBytesBE 2 ds.length ++ ds.flatten)))))) := by
  obtain ⟨⟨⟩, hindex, h⟩ := bind_eq_ok.mp h
  obtain ⟨⟨⟩, hfrom, h⟩ := bind_eq_ok.mp h
  obtain ⟨⟨⟩, hto, h⟩ := bind_eq_ok.mp h
  obtain ⟨⟨⟩, -, h⟩ := bind_eq_ok.mp h
  obtain ⟨⟨⟩, hdigests, h⟩ := bind_eq_ok.mp h
  rw [require_eq_ok, decide_eq_true_eq] at hindex hfrom hto
  refine ⟨hindex, hdigests, hfrom, hto, ?_⟩
  rw [← ok.inj h]
  simp only [append_assoc]

theorem wrapDigests_eq {declared wrapped : List Bytes}
    (hsentinel : subjectDigest P project projectSubjectTag = .ok sentinel)
    (h : wrapDigests P project declared = .ok wrapped) :
    wrapped = if declared.isEmpty then [sentinel] else declared := by
  rw [wrapDigests, hsentinel] at h
  split_ifs at h ⊢
  · exact (ok.inj h).symm
  · exact (ok.inj h).symm

variable {s : PlainSection}

theorem v2Plaintext_spec {plaintext : Bytes} (h : v2Plaintext s = .ok plaintext) :
    s.lines ≠ [] ∧ checkLines s.seqFrom s.seqTo s.lines = .ok () ∧
      plaintext = joinLines s.lines := by
  obtain ⟨⟨⟩, hne, h⟩ := bind_eq_ok.mp h
  obtain ⟨⟨⟩, hcheck, h⟩ := bind_eq_ok.mp h
  refine ⟨fun hnil => ?_, hcheck, (ok.inj h).symm⟩
  rw [hnil] at hne
  cases hne

/-- **A sealed section passes the validator.** -/
theorem Sealed.validates (hP : P.Lawful) {c : SealData}
    (h : Sealed P master project run keys index s c)
    (hsentinel : subjectDigest P project projectSubjectTag = .ok sentinel)
    (hreserved : sentinel ∉ c.declared) (hprevious : (previous.all fun p => p < s.seqFrom) = true) :
    validateV2Section sentinel index previous (c.dict index s) = .ok (s.seqFrom, s.seqTo) := by
  obtain ⟨hfromTo, hmax⟩ := h.range
  obtain ⟨hindex, hdigests, -⟩ := buildV2SectionAad_frame h.aad
  obtain ⟨hlines, -, hplain⟩ := v2Plaintext_spec h.plaintext
  have hwrapped := wrapDigests_eq hsentinel h.wrapped
  have hzip : (c.wrapped.zip c.shares).map Prod.fst = c.wrapped :=
    map_fst_zip (Nat.le_of_eq h.shares_length.symm)
  have hct : 16 < c.ct.length := by
    rw [hP.encrypt_length h.encrypted, hplain]
    obtain ⟨line, lines, hcons⟩ := exists_cons_of_ne_nil hlines
    rw [hcons, joinLines, map_cons, flatten_cons, length_append, length_append, length_singleton]
    omega
  have hsorted : c.wrapped.Pairwise fun a b => bytesLe b a = false := by
    rw [hwrapped]
    split_ifs
    · exact pairwise_singleton _ _
    · exact (validateSubjectDigestBytes_spec hdigests).2
  refine guard_ok (require_eq_ok.mpr rfl) ?_
  refine bind_eq_ok.mpr ⟨index, validateV2Nat_jnat hindex _, ?_⟩
  refine guard_ok (by simp) ?_
  refine bind_eq_ok.mpr ⟨s.seqFrom, validateV2Nat_jnat (Nat.lt_of_le_of_lt hfromTo hmax) _, ?_⟩
  refine bind_ok (validateV2Nat_jnat hmax _) ?_
  refine guard_ok (by simpa using hfromTo) ?_
  refine guard_ok (require_eq_ok.mpr hprevious) ?_
  refine bind_eq_ok.mpr ⟨c.declared, ?_, ?_⟩
  · exact bind_ok (mapM_b64dCanonical c.declared) (bind_ok hdigests rfl)
  refine guard_ok (by simpa using hreserved) ?_
  refine bind_ok (b64dCanonical_jstr c.nonce) ?_
  refine bind_ok (b64dCanonical_jstr c.ct) ?_
  refine guard_ok (by simp [h.nonce_length, hct]) ?_
  have hcount : (c.wraps.map Json.obj).length = c.wrapped.length := by
    rw [length_map, h.wraps.length_eq, length_zip, h.shares_length, Nat.min_self]
  refine guard_ok ?_ (guard_ok ?_ rfl)
  · rw [require_eq_ok, decide_eq_true_eq, ← hwrapped]
    exact hcount
  · rw [← hwrapped]
    have hvalid : validateV2Wraps none _ = .ok () := h.wraps.validates hP
      (fun p hp => h.share_length p.2 (of_mem_zip hp).2) (by rw [hzip]; exact hsorted)
      nofun
    rwa [hzip] at hvalid

/-- **Sealed sections pass the validator one after the other**, which accumulates their
range. -/
theorem AllSealed.validates (hP : P.Lawful)
    (h : AllSealed P master project run keys index previous sections cs)
    (hsentinel : subjectDigest P project projectSubjectTag = .ok sentinel)
    (hreserved : ∀ c ∈ cs, sentinel ∉ c.declared) (observed : Option (ℕ × ℕ)) :
    validateV2Sections sentinel index previous observed (sealedDicts index sections cs) =
      .ok (sections.foldl (fun acc s => match acc with
        | none => some (s.seqFrom, s.seqTo)
        | some o => some (min o.1 s.seqFrom, max o.2 s.seqTo)) observed) := by
  induction h generalizing observed with
  | nil index previous => rfl
  | cons hprev hsealed _ ih =>
    rename_i index previous s c sections cs _
    have hfirst := hsealed.validates hP hsentinel (hreserved c mem_cons_self) hprev
    refine bind_ok hfirst ?_
    rw [ih (forall_mem_cons.mp hreserved).2]
    cases observed <;> rfl

/-! ### The payload -/

theorem AllSealed.range (h : AllSealed P master project run keys index previous sections cs) :
    ∀ s ∈ sections, s.seqFrom ≤ s.seqTo ∧ s.seqTo < maxSeq := by
  induction h with
  | nil index previous => exact nofun
  | cons _ hsealed _ ih =>
    exact forall_mem_cons.mpr ⟨hsealed.range, ih⟩

variable {span : ℕ × ℕ}

/-- What the first section gives and the others keep holds of the accumulated range. -/
theorem sequenceSpan_induction {Q : ℕ × ℕ → Prop} {s : PlainSection}
    (hfirst : Q (s.seqFrom, s.seqTo))
    (hstep : ∀ o, Q o → ∀ r ∈ sections, Q (min o.1 r.seqFrom, max o.2 r.seqTo))
    (h : sequenceSpan (s :: sections) = some span) : Q span := by
  rw [sequenceSpan, foldl_cons] at h
  generalize (s.seqFrom, s.seqTo) = o at hfirst h
  induction sections generalizing o with
  | nil =>
    cases h
    exact hfirst
  | cons r sections ih =>
    exact ih (fun o ho r hr => hstep o ho r (mem_cons_of_mem _ hr)) _
      (hstep o hfirst r mem_cons_self) h

/-- The accumulated range of sections with ranges of their own. -/
theorem sequenceSpan_bounds (hrange : ∀ s ∈ sections, s.seqFrom ≤ s.seqTo ∧ s.seqTo < maxSeq)
    (h : sequenceSpan sections = some span) : span.1 ≤ span.2 ∧ span.2 < maxSeq := by
  cases sections with
  | nil => cases h
  | cons s sections =>
    refine sequenceSpan_induction (Q := fun o => o.1 ≤ o.2 ∧ o.2 < maxSeq)
      (hrange s mem_cons_self) (fun o ho r hr => ?_) h
    have hr := hrange r (mem_cons_of_mem s hr)
    omega

/-- **The validator accepts a sealed payload** whose sections do not declare the project's own
digest. -/
theorem SealedPayload.validates (hP : P.Lawful) {payload : EncryptedPayload}
    (h : SealedPayload P master project run keys sections payload cs span)
    (hsentinel : subjectDigest P project projectSubjectTag = .ok sentinel)
    (hreserved : ∀ c ∈ cs, sentinel ∉ c.declared) :
    validateV2Envelope P payload.header payload.sections = .ok () := by
  obtain ⟨hle, hmax⟩ := sequenceSpan_bounds h.sections_sealed.range h.span_eq
  have hcount := h.count
  have hpos : 0 < sections.length := length_pos_of_ne_nil h.nonempty
  have hsmall : sections.length < 2 ^ 32 := Nat.lt_of_le_of_lt hcount (by decide)
  have hlength := h.sections_sealed.length_eq
  have hobserved : validateV2Sections sentinel 0 none none (sealedDicts 0 sections cs) =
      .ok (some span) :=
    (h.sections_sealed.validates hP hsentinel hreserved none).trans (congrArg ok h.span_eq)
  rw [h.payload_eq]
  refine guard_ok (require_eq_ok.mpr rfl) ?_
  refine guard_ok (require_eq_ok.mpr rfl) ?_
  refine bind_ok (canonicalUuid_jstr _) ?_
  refine bind_ok (canonicalUuid_jstr _) ?_
  refine bind_ok (validateV2Nat_jnat hsmall _) ?_
  refine guard_ok ?_ ?_
  · simp only [require_eq_ok, Bool.and_eq_true, decide_eq_true_eq]
    exact ⟨⟨hpos, hcount⟩, hlength.symm⟩
  refine bind_eq_ok.mpr ⟨span.1, validateV2Nat_jnat (Nat.lt_of_le_of_lt hle hmax) _, ?_⟩
  refine bind_ok (validateV2Nat_jnat hmax _) ?_
  refine guard_ok (by simpa using hle) ?_
  refine bind_ok hsentinel ?_
  exact bind_ok hobserved (by simp)

end Validation

/-! ### Lines -/

/-- A value every reader gets back from the text `dumps_v2_line` gives it. -/
def Plainly (v : Json) : Prop := ∀ lo, Json.Stable lo ⟨true, true, false⟩ v

theorem plainly_b64 (d : Bytes) : Plainly (jstr (b64encode d)) := fun _ =>
  Json.stable_str fun _ c hc => by
    have := mem_b64encode hc
    omega

theorem plainly_uuid (u : UUID) : Plainly (jstr u.str) := fun _ =>
  Json.stable_str fun _ c hc => by
    have := UUID.str_isHexText hc
    omega

theorem plainly_ascii {s : PyStr} (h : ∀ c ∈ s, c < 0x80) : Plainly (jstr s) := fun _ =>
  Json.stable_str fun _ c hc => by
    have := h c hc
    omega

theorem plainly_nat {n : ℕ} (h : n < 2 ^ 64) : Plainly (jnat n) := fun _ =>
  Json.stable_int (by omega)

theorem plainly_arr {l : List Json} (h : ∀ x ∈ l, Plainly x) : Plainly (.arr l) :=
  fun lo => Json.stable_arr fun x hx => h x hx lo

/-- A dictionary that lists ASCII keys in strictly increasing order. -/
theorem plainly_obj {m : Dict} (ks : List PyStr) (hkeys : m.map Prod.fst = ks)
    (hsorted : ks.Pairwise fun a b => strLe a b = true ∧ a ≠ b)
    (hascii : ∀ k ∈ ks, ∀ c ∈ k, c < 0x80) (h : ∀ p ∈ m, Plainly p.2) : Plainly (.obj m) := by
  subst hkeys
  refine fun lo => Json.stable_obj hsorted (fun k hk _ c hc => ?_) fun p hp => h p hp lo
  have := hascii k hk c hc
  omega

theorem plainly_wrapDict (digest nonce share : Bytes) (keyId : UUID) :
    Plainly (.obj (wrapDict digest keyId nonce share)) := by
  refine plainly_obj expectedWrap rfl (by decide) (by decide) fun p hp => ?_
  simp only [wrapDict, mem_cons, not_mem_nil, or_false] at hp
  rcases hp with rfl | rfl | rfl | rfl
  · exact plainly_b64 digest
  · exact plainly_uuid keyId
  · exact plainly_b64 nonce
  · exact plainly_b64 share

theorem plainly_sectionDict {ct nonce : Bytes} {index seqFrom seqTo : ℕ} (hindex : index < 2 ^ 64)
    (hfrom : seqFrom < 2 ^ 64) (hto : seqTo < 2 ^ 64) (hwraps : ∀ w ∈ wraps, Plainly (.obj w)) :
    Plainly (.obj (sectionDict ct nonce index seqFrom seqTo ds wraps)) := by
  refine plainly_obj expectedSection rfl (by decide) (by decide) fun p hp => ?_
  simp only [sectionDict, mem_cons, not_mem_nil, or_false] at hp
  rcases hp with rfl | rfl | rfl | rfl | rfl | rfl | rfl
  · exact plainly_b64 ct
  · exact plainly_b64 nonce
  · exact plainly_nat hindex
  · exact plainly_nat hfrom
  · exact plainly_nat hto
  · refine plainly_arr fun x hx => ?_
    obtain ⟨d, -, rfl⟩ := mem_map.mp hx
    exact plainly_b64 d
  · refine plainly_arr fun x hx => ?_
    obtain ⟨w, hw, rfl⟩ := mem_map.mp hx
    exact hwraps w hw

theorem plainly_v2Header (project : ProjectId) (run : RunId) {first last count : ℕ}
    (hfirst : first < 2 ^ 64) (hlast : last < 2 ^ 64) (hcount : count < 2 ^ 64) :
    Plainly (.obj (v2Header project run first last count)) := by
  refine plainly_obj expectedHeader rfl (by decide) (by decide) fun p hp => ?_
  simp only [v2Header, mem_cons, not_mem_nil, or_false] at hp
  rcases hp with rfl | rfl | rfl | rfl | rfl | rfl | rfl | rfl | rfl | rfl
  · exact plainly_ascii (by decide)
  · exact plainly_nat hfirst
  · exact plainly_ascii (by decide)
  · exact plainly_nat hlast
  · exact plainly_uuid _
  · exact plainly_uuid _
  · exact plainly_nat hcount
  · exact plainly_ascii (by decide)
  · exact plainly_nat (by decide)
  · exact plainly_ascii (by decide)

/-- The text of a dictionary, and what every reader makes of it. -/
structure LineOf (m : Dict) (text : PyStr) : Prop where
  dumped : Json.dumps ⟨true, true, false⟩ (.obj m) = some text
  loaded : ∀ lo, Json.loads lo text = some (.obj m)

/-- The bytes of an ASCII text. -/
def lineBytes (text : PyStr) : Bytes := text.map UInt8.ofNat

theorem Plainly.line {m : Dict} (h : Plainly (.obj m)) : ∃ text, LineOf m text := by
  obtain ⟨text, htext, -⟩ := (h ⟨true, false⟩).loads_dumps
  refine ⟨text, htext, fun lo => ?_⟩
  obtain ⟨text', htext', hload⟩ := (h lo).loads_dumps
  obtain rfl := Option.some.inj (htext.symm.trans htext')
  exact hload

namespace LineOf

variable {m : Dict} {text : PyStr}

theorem printable (h : LineOf m text) : ∀ c ∈ text, 32 ≤ c ∧ c < 0x80 := fun c hc => by
  have := Json.printable_dumps _ h.dumped c hc
  exact ⟨this.1, this.2 rfl⟩

theorem dumpsV2Line_eq (h : LineOf m text) : dumpsV2Line m = .ok (lineBytes text ++ [10]) := by
  refine bind_eq_ok.mpr ⟨text, by rw [h.dumped]; rfl, ?_⟩
  rw [asciiEncode_of_isAscii fun c hc => (h.printable c hc).2]
  rfl

theorem decoded (h : LineOf m text) : utf8Decode (lineBytes text) = some text :=
  utf8Decode_of_ascii fun c hc => (h.printable c hc).2

theorem loadsV2Line_eq (h : LineOf m text) : loadsV2Line (lineBytes text) = .ok m := by
  refine bind_eq_ok.mpr ⟨text, by rw [h.decoded]; rfl, ?_⟩
  refine bind_eq_ok.mpr ⟨.obj m, by rw [h.loaded]; rfl, ?_⟩
  exact bind_ok h.dumpsV2Line_eq (guard_ok (by simp) rfl)

/-- No byte of a line is a control character. -/
theorem le_of_mem (h : LineOf m text) {b : UInt8} (hb : b ∈ lineBytes text) : 32 ≤ b.toNat := by
  obtain ⟨c, hc, rfl⟩ := mem_map.mp hb
  have := h.printable c hc
  rw [UInt8.toNat_ofNat']
  omega

/-- A line starts with a brace. -/
theorem head (h : LineOf m text) : ∃ rest, text = 123 :: rest := by
  obtain ⟨parts, -, hparts⟩ := Option.map_eq_some_iff.mp h.dumped
  exact ⟨_, hparts.symm⟩

end LineOf

/-! ### The byte round trip -/

/-- The bytes of a payload, line by line. -/
structure WrittenAs (payload : EncryptedPayload) (texts : List PyStr) (raw : Bytes) : Prop where
  lines : List.Forall₂ LineOf (payload.header :: payload.sections) texts
  raw_eq : raw = (texts.map fun text => lineBytes text ++ [10]).flatten

namespace WrittenAs

variable {payload : EncryptedPayload} {texts : List PyStr} {raw : Bytes} {P : Primitives}
  (h : WrittenAs payload texts raw)

include h

theorem toBytes_eq (hv2 : isV2Header payload.header = true)
    (hvalid : validateV2Envelope P payload.header payload.sections = .ok ()) :
    payload.toBytes P = .ok raw := by
  obtain ⟨hlines, rfl⟩ := h
  cases hlines with
  | @cons _ text _ texts hheader hsections =>
    have hrest : payload.sections.mapM dumpsV2Line =
        .ok (texts.map fun text => lineBytes text ++ [10]) := by
      rw [mapM_eq_ok, forall₂_map_right_iff]
      exact hsections.imp fun _ _ hline => hline.dumpsV2Line_eq
    rw [EncryptedPayload.toBytes, if_pos hv2]
    refine bind_ok hvalid ?_
    refine bind_ok hheader.dumpsV2Line_eq ?_
    exact bind_ok hrest rfl

theorem line_of_mem {text : PyStr} (ht : text ∈ texts) : ∃ m, LineOf m text := by
  obtain ⟨i, hi, rfl⟩ := getElem_of_mem ht
  have hi' : i < (payload.header :: payload.sections).length := h.lines.length_eq ▸ hi
  exact ⟨_, h.lines.get hi' hi⟩

theorem texts_ne_nil : texts ≠ [] := by
  rintro rfl
  cases h.lines

/-- The bytes cut into lines again. -/
theorem split : raw.getLast? = some 10 ∧ raw.dropLast.splitOn 10 = texts.map lineBytes := by
  have hclean : ∀ l ∈ texts.map lineBytes, (10 : UInt8) ∉ l := by
    intro l hl hmem
    obtain ⟨text, htext, rfl⟩ := mem_map.mp hl
    obtain ⟨m, hm⟩ := h.line_of_mem htext
    exact absurd (hm.le_of_mem hmem) (by decide)
  have hcut := splitOn_flatten (fun hnil => h.texts_ne_nil (map_eq_nil_iff.mp hnil)) hclean
  rw [map_map] at hcut
  rw [h.raw_eq]
  exact hcut

/-- No carriage return, no byte order mark. -/
theorem frame : raw ≠ [] ∧ raw.contains 13 = false ∧ [0xEF, 0xBB, 0xBF].isPrefixOf raw = false := by
  obtain ⟨text, texts', rfl⟩ := exists_cons_of_ne_nil h.texts_ne_nil
  obtain ⟨m, hm⟩ := h.line_of_mem mem_cons_self
  obtain ⟨rest, rfl⟩ := hm.head
  refine ⟨?_, ?_, ?_⟩
  · rw [h.raw_eq]
    exact cons_ne_nil _ _
  · rw [← Bool.not_eq_true, contains_iff_mem, h.raw_eq]
    intro hmem
    obtain ⟨line, hline, hmem⟩ := mem_flatten.mp hmem
    obtain ⟨text, htext, rfl⟩ := mem_map.mp hline
    obtain ⟨m, hm⟩ := h.line_of_mem htext
    rcases mem_append.mp hmem with hmem | hmem
    · exact absurd (hm.le_of_mem hmem) (by decide)
    · exact absurd (mem_singleton.mp hmem) (by decide)
  · rw [h.raw_eq]
    rfl

theorem loadsV2Lines_eq : loadsV2Lines raw = .ok (payload.header :: payload.sections) := by
  obtain ⟨hlast, hlines⟩ := h.split
  obtain ⟨hne, hcr, hbom⟩ := h.frame
  refine guard_ok ?_ (guard_ok ?_ ?_)
  · have hempty : raw.isEmpty = false := by simpa using hne
    rw [require_eq_ok, hempty, hbom, hlast, hcr]
    rfl
  · have hempty : (texts.map lineBytes).isEmpty = false := by simpa using h.texts_ne_nil
    have hlineEmpty : (texts.map lineBytes).any List.isEmpty = false := by
      rw [← Bool.not_eq_true, any_eq_true]
      rintro ⟨line, hline, hnil⟩
      obtain ⟨text, htext, rfl⟩ := mem_map.mp hline
      obtain ⟨m, hm⟩ := h.line_of_mem htext
      obtain ⟨rest, rfl⟩ := hm.head
      cases hnil
    rw [hlines, hempty, hlineEmpty]
    rfl
  · rw [hlines, mapM_eq_ok, forall₂_map_left_iff]
    exact h.lines.flip.imp fun _ _ hline => hline.loadsV2Line_eq

theorem fromBytes_eq (hv2 : isV2Header payload.header = true)
    (hvalid : validateV2Envelope P payload.header payload.sections = .ok ()) :
    EncryptedPayload.fromBytes P raw = .ok payload := by
  rw [EncryptedPayload.fromBytes, h.loadsV2Lines_eq]
  dsimp only
  rw [if_pos hv2]
  exact bind_ok hvalid rfl

end WrittenAs

section RoundTrip

variable {P : Primitives} {master : Bytes} {project : ProjectId} {run : RunId}
  {keys : KeyTable D}

theorem Wrapped.plainly {aad : Bytes} (h : Wrapped P master project keys aad i pairs wraps) :
    ∀ w ∈ wraps, Plainly (.obj w) := by
  induction h with
  | nil i => exact nofun
  | cons _ _ _ _ _ ih =>
    exact forall_mem_cons.mpr ⟨plainly_wrapDict _ _ _ _, ih⟩

variable {sections : List PlainSection} {cs : List SealData} {payload : EncryptedPayload}
  {span : ℕ × ℕ}

theorem AllSealed.plainly {index : ℕ} {previous : Option ℕ}
    (h : AllSealed P master project run keys index previous sections cs) :
    ∀ d ∈ sealedDicts index sections cs, Plainly (.obj d) := by
  induction h with
  | nil index previous => exact nofun
  | cons _ hsealed _ ih =>
    obtain ⟨hfromTo, hmax⟩ := hsealed.range
    obtain ⟨hindex, -⟩ := buildV2SectionAad_frame hsealed.aad
    rw [maxSeq] at hmax
    refine forall_mem_cons.mpr ⟨?_, ih⟩
    exact plainly_sectionDict (by omega) (by omega) (by omega) hsealed.wraps.plainly

theorem SealedPayload.written
    (h : SealedPayload P master project run keys sections payload cs span) :
    ∃ texts raw, WrittenAs payload texts raw := by
  obtain ⟨hle, hmax⟩ := sequenceSpan_bounds h.sections_sealed.range h.span_eq
  have hcount := h.count
  rw [maxSeq] at hmax
  rw [maxSections] at hcount
  have hall : ∀ m ∈ payload.header :: payload.sections, ∃ text, LineOf m text := by
    rw [h.payload_eq]
    refine forall_mem_cons.mpr ⟨?_, fun m hm => (h.sections_sealed.plainly m hm).line⟩
    exact (plainly_v2Header project run (by omega) (by omega) (by omega)).line
  obtain ⟨texts, htexts⟩ := exists_forall₂ hall
  exact ⟨texts, _, htexts, rfl⟩

theorem SealedPayload.isV2 (h : SealedPayload P master project run keys sections payload cs span) :
    isV2Header payload.header = true := by
  rw [h.payload_eq]
  rfl

/-- **`from_bytes(to_bytes(p))` is `p`** for every sealed payload whose sections do not declare
the project's own digest. -/
theorem SealedPayload.fromBytes_toBytes (hP : P.Lawful)
    (h : SealedPayload P master project run keys sections payload cs span) {sentinel : Bytes}
    (hsentinel : subjectDigest P project projectSubjectTag = .ok sentinel)
    (hreserved : ∀ c ∈ cs, sentinel ∉ c.declared) :
    ∃ raw, payload.toBytes P = .ok raw ∧ EncryptedPayload.fromBytes P raw = .ok payload := by
  obtain ⟨texts, raw, hwritten⟩ := h.written
  have hvalid := h.validates hP hsentinel hreserved
  exact ⟨raw, hwritten.toBytes_eq h.isV2 hvalid, hwritten.fromBytes_eq h.isV2 hvalid⟩

end RoundTrip

end Tracebed
