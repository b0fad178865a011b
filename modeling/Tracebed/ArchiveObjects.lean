import Tracebed.ArchiveEvents
import Tracebed.ShredRoundTrip

/-!
# Stored Batches and the Objects Read from Them

A committed batch is one object of the trace store, sealed under keys of the project. This
module follows such an object through the reader: its reference, its framing, its header, the
identities its wraps claim (`StoredBatch.addsIdentities`), and the events its sections decrypt
to (`StoredBatch.readDecrypted_eq`).
-/

open Py Fallible List

namespace Tracebed

open Reading

variable {D : Type}

/-! ### Objects that hold a batch -/

/-- The reader of the store a run's transactions leave behind. -/
def Store.reader (W : Writer D) (project : ProjectId) (run : RunId) (s : Store D) :
    ArchiveReader D where
  prims := W.prims
  pydantic := W.pydantic
  getTraceIndex p r :=
    if p = project ∧ r = run then orRaise s.row (.notFound "trace not found")
    else .error (.notFound "trace not found")
  get := getObject W.driver project run s.objects
  decrypt p := Tracebed.decrypt W.prims W.masterKey (if p = project then s.keys else []) p

/-- Bytes that hold a batch, with everything the sealing went through. -/
structure StoredBatch (W : Writer D) (project : ProjectId) (run : RunId) (keys : KeyTable D)
    (batch : List (QueueEnvelope D)) (raw : Bytes) (sections : List PlainSection)
    (payload : EncryptedPayload) (cs : List SealData) (span : ℕ × ℕ) : Prop where
  built : buildSections W.pydantic batch = .ok sections
  payload_sealed : SealedPayload W.prims W.masterKey project run keys sections payload cs span
  written : payload.toBytes W.prims = .ok raw

/-- Bytes that hold a batch. -/
def Holds (W : Writer D) (project : ProjectId) (run : RunId) (keys : KeyTable D)
    (batch : List (QueueEnvelope D)) (raw : Bytes) : Prop :=
  ∃ sections payload cs span,
    StoredBatch W project run keys batch raw sections payload cs span

section Stored

variable {W : Writer D} {project : ProjectId} {run : RunId} {keys : KeyTable D}
  {batch : List (QueueEnvelope D)} {raw : Bytes}

/-- New keys do not matter to bytes that hold a batch. -/
theorem Holds.mono (h : Holds W project run keys batch raw) {later : KeyTable D}
    (hgrows : keys.Grows later) : Holds W project run later batch raw := by
  obtain ⟨sections, payload, cs, span, hbuilt, hsealed, hwritten⟩ := h
  refine ⟨sections, payload, cs, span, hbuilt, ?_, hwritten⟩
  exact { hsealed with sections_sealed := hsealed.sections_sealed.mono hgrows }

/-- **What the writer puts holds the batch.** -/
theorem sealBatch_holds (hP : W.prims.Lawful) {f : Faults} {keys' : KeyTable D}
    (h : sealBatch W project run f keys batch = .ok (keys', raw)) :
    keys.Grows keys' ∧ Holds W project run keys' batch raw := by
  obtain ⟨sections, hsections, h⟩ := bind_eq_ok.mp h
  obtain ⟨-, -, h⟩ := bind_eq_ok.mp h
  obtain ⟨⟨payload, session⟩, hencrypt, h⟩ := bind_eq_ok.mp h
  obtain ⟨raw', hraw, h⟩ := bind_eq_ok.mp h
  cases h
  obtain ⟨hgrows, cs, span, hsealed⟩ := encryptV2_sealed hP hencrypt
  exact ⟨hgrows, sections, payload, cs, span, hsections, hsealed, hraw⟩

/-! ### References -/

variable {n : ℕ} (driver : StoreDriver)

/-- A written reference names the first sequence number it was written for. -/
theorem refFirstSeq_putRef (hn : n ≤ maxTraceSeq) :
    refFirstSeq (putRef driver project run n) project run = .ok n := by
  obtain ⟨hlen, hdigits, hvalue⟩ := eightDigits_spec hn
  have hleaf : refLeaf (putRef driver project run n) project run = .ok (eightDigits n) := by
    rw [refLeaf, putRef]
    rw [splitOn_objectKey driver project run hn]
    cases driver with
    | fs =>
      refine guard_ok (by simp) ?_
      have hlength : (eightDigits n ++ str ".tbz").length - 4 = (eightDigits n).length := by
        rw [length_append]
        rfl
      rw [hlength, take_left]
      rfl
    | s3 bucket =>
      have hne : bucket.name.isEmpty = false := by
        have := bucket.length_ok.1
        rw [isEmpty_eq_false_iff_exists_mem]
        exact exists_mem_of_length_pos (by omega)
      exact guard_ok (by simp [hne]) rfl
  refine bind_ok hleaf (guard_ok ?_ ?_)
  · simp only [require_eq_ok, Bool.and_eq_true, decide_eq_true_eq, all_eq_true]
    exact ⟨hlen, hdigits⟩
  · rw [hvalue]
    rfl

/-- **The reference of an object validates.** -/
theorem validateRef_payloadRefText {endSeq : ℕ} (hn : n ≤ maxTraceSeq) (hend : n ≤ endSeq) :
    validateRef project run endSeq (payloadRefText driver project run n) =
      .ok ⟨payloadRefText driver project run n, putRef driver project run n, n⟩ := by
  refine bind_eq_ok.mpr ⟨_, lift_eq_ok.mpr (parse_payloadRefText ..), ?_⟩
  refine guard_ok (check_eq_ok.mpr (isSafeKey_objectKey _ _ _ hn)) ?_
  refine bind_eq_ok.mpr ⟨n, lift_eq_ok.mpr (refFirstSeq_putRef driver hn), ?_⟩
  exact guard_ok (by simp [hn, hend]) rfl

/-- Different first sequence numbers have different references. -/
theorem payloadRefText_inj {m : ℕ} (hm : m ≤ maxTraceSeq) (hn : n ≤ maxTraceSeq)
    (h : payloadRefText driver project run m = payloadRefText driver project run n) : m = n := by
  have hrefs := parse_payloadRefText driver project run (n := m)
  rw [h, parse_payloadRefText] at hrefs
  have hfirst : refFirstSeq (putRef driver project run m) project run = .ok m :=
    refFirstSeq_putRef driver hm
  rw [← Except.ok.inj hrefs, refFirstSeq_putRef driver hn] at hfirst
  exact (Except.ok.inj hfirst).symm

/-! ### Framing -/

variable {payload : EncryptedPayload} {texts : List PyStr}

theorem WrittenAs.decoded (h : WrittenAs payload texts raw) :
    utf8Decode raw = some (texts.map (· ++ [10])).flatten := by
  have hbytes : raw = ((texts.map (· ++ [10])).flatten).map UInt8.ofNat := by
    rw [h.raw_eq, map_flatten, map_map]
    refine congrArg List.flatten (map_congr_left fun text _ => ?_)
    rw [Function.comp_apply, map_append]
    rfl
  rw [hbytes]
  refine utf8Decode_of_ascii fun c hc => ?_
  obtain ⟨line, hline, hc⟩ := mem_flatten.mp hc
  obtain ⟨text, htext, rfl⟩ := mem_map.mp hline
  obtain ⟨m, hm⟩ := h.line_of_mem htext
  rcases mem_append.mp hc with hc | hc
  · exact (hm.printable c hc).2
  · rw [mem_singleton.mp hc]
    omega

/-- **Written bytes pass the strict framing.** -/
theorem WrittenAs.strictPayload_eq (h : WrittenAs payload texts raw) {P : Primitives}
    (hv2 : isV2Header payload.header = true)
    (hvalid : validateV2Envelope P payload.header payload.sections = .ok ()) :
    strictPayload P raw = .ok payload := by
  have hclean : ∀ text ∈ texts, (10 : ℕ) ∉ text ∧ (13 : ℕ) ∉ text ∧ text ≠ [] := by
    intro text htext
    obtain ⟨m, hm⟩ := h.line_of_mem htext
    obtain ⟨rest, hrest⟩ := hm.head
    refine ⟨fun hc => ?_, fun hc => ?_, fun hnil => ?_⟩
    · exact absurd (hm.printable _ hc).1 (by omega)
    · exact absurd (hm.printable _ hc).1 (by omega)
    · rw [hnil] at hrest
      cases hrest
  have hlines : ((texts.map (· ++ [10])).flatten.splitOn 10).dropLast = texts := by
    rw [splitOn_terminated fun text htext => (hclean text htext).1, dropLast_concat]
  refine bind_ok (lift_eq_ok.mpr (orRaise_eq_ok.mpr h.decoded)) ?_
  refine guard_ok ?_ (guard_ok ?_ ?_)
  · have hreturn : (texts.map (· ++ [10])).flatten.contains 13 = false := by
      rw [contains_eq_mem, decide_eq_false_iff_not]
      intro hc
      obtain ⟨line, hline, hc⟩ := mem_flatten.mp hc
      obtain ⟨text, htext, rfl⟩ := mem_map.mp hline
      rcases mem_append.mp hc with hc | hc
      · exact (hclean text htext).2.1 hc
      · exact absurd (mem_singleton.mp hc) (by omega)
    have hlast : (texts.map (· ++ [10])).flatten.getLast? = some 10 := by
      obtain ⟨l, t, rfl⟩ := eq_nil_or_concat texts |>.resolve_left h.texts_ne_nil
      simp
    rw [hreturn, hlast]
    simp
  · have hempty : texts.any List.isEmpty = false := by
      rw [← Bool.not_eq_true, any_eq_true]
      rintro ⟨text, htext, hnil⟩
      exact (hclean text htext).2.2 (isEmpty_iff.mp hnil)
    have hne : texts.isEmpty = false := by simpa using h.texts_ne_nil
    rw [hlines, hempty, hne]
    rfl
  · rw [hlines]
    refine bind_ok (forM_eq_ok.mpr fun text htext => ?_)
      (lift_eq_ok.mpr (h.fromBytes_eq hv2 hvalid))
    obtain ⟨m, hm⟩ := h.line_of_mem htext
    exact bind_eq_ok.mpr
      ⟨.obj m, lift_eq_ok.mpr (orRaise_eq_ok.mpr (hm.loaded _)), check_eq_ok.mpr rfl⟩

/-! ### The range of a batch -/

variable {sections : List PlainSection} {span : ℕ × ℕ}

theorem sequenceSpan_first {s : PlainSection} (hfirst : ∀ r ∈ sections, s.seqFrom ≤ r.seqFrom)
    (h : sequenceSpan (s :: sections) = some span) :
    span.1 = s.seqFrom ∧ ∃ r ∈ s :: sections, span.2 = r.seqTo := by
  refine sequenceSpan_induction (Q := fun o => o.1 = s.seqFrom ∧ ∃ r ∈ s :: sections,
    o.2 = r.seqTo) ⟨rfl, s, mem_cons_self, rfl⟩ ?_ h
  rintro o ⟨ho, q, hq, hlast⟩ r hr
  have hle := hfirst r hr
  refine ⟨by omega, ?_⟩
  rcases Nat.le_total o.2 r.seqTo with hmax | hmax
  · exact ⟨r, mem_cons_of_mem s hr, Nat.max_eq_right hmax⟩
  · exact ⟨q, hq, (Nat.max_eq_left hmax).trans hlast⟩

namespace StoredBatch

variable {first : QueueEnvelope D} {rest : List (QueueEnvelope D)} {cs : List SealData}
  (h : StoredBatch W project run keys (first :: rest) raw sections payload cs span)

include h

/-- **The range of a stored batch** starts at its first envelope. -/
theorem span_bounds (hsorted : (first :: rest).Pairwise fun a b => a.seq < b.seq) :
    span.1 = first.seq ∧ span.1 ≤ span.2 ∧ span.2 ≤ maxTraceSeq := by
  obtain ⟨blocks, hflat, hblocks⟩ := buildSections_blocks h.built
  have hle : ∀ e ∈ first :: rest, first.seq ≤ e.seq := by
    refine forall_mem_cons.mpr ⟨le_rfl, fun e he => ?_⟩
    exact Nat.le_of_lt ((pairwise_cons.mp hsorted).1 e he)
  have hfrom : ∀ s ∈ sections, (∃ e ∈ first :: rest, e.seq = s.seqFrom) ∧
      ∃ e ∈ first :: rest, e.seq = s.seqTo := by
    intro s hs
    obtain ⟨block, hblock, hs⟩ := forall₂_mem hblocks.flip s hs
    obtain ⟨e, he, hseq⟩ := mem_map.mp (mem_of_head? hs.first)
    obtain ⟨e', he', hseq'⟩ := mem_map.mp (mem_of_getLast? hs.last)
    have hmem : ∀ e ∈ block, e ∈ first :: rest := fun e he =>
      hflat ▸ mem_flatten.mpr ⟨block, hblock, he⟩
    exact ⟨⟨e, hmem e he, hseq⟩, e', hmem e' he', hseq'⟩
  obtain ⟨hrange, -⟩ :=
    sequenceSpan_bounds h.payload_sealed.sections_sealed.range h.payload_sealed.span_eq
  cases hblocks with
  | nil => exact absurd rfl h.payload_sealed.nonempty
  | @cons block s blocks sections hblock hblocks =>
    have hhead : s.seqFrom = first.seq := by
      obtain ⟨e, tail, rfl⟩ : ∃ e tail, block = e :: tail := by
        cases block with
        | nil => cases hblock.first
        | cons e tail => exact ⟨e, tail, rfl⟩
      obtain ⟨rfl, -⟩ := List.cons.inj hflat
      exact (Option.some.inj hblock.first).symm
    have hstart : ∀ r ∈ sections, s.seqFrom ≤ r.seqFrom := by
      intro r hr
      obtain ⟨⟨e, he, hseq⟩, -⟩ := hfrom r (mem_cons_of_mem _ hr)
      rw [hhead, ← hseq]
      exact hle e he
    obtain ⟨hspan, r, hr, hlast⟩ := sequenceSpan_first hstart h.payload_sealed.span_eq
    obtain ⟨-, e, -, hseq⟩ := hfrom r hr
    refine ⟨hspan.trans hhead, hrange, ?_⟩
    rw [hlast, ← hseq]
    exact e.seq_le

/-! ### Reading the object -/

/-- The framing of a stored batch. -/
theorem strictPayload_eq : strictPayload W.prims raw = .ok payload := by
  have hv2 := h.payload_sealed.isV2
  have hwritten := h.written
  rw [EncryptedPayload.toBytes, if_pos hv2] at hwritten
  obtain ⟨⟨⟩, hvalid, -⟩ := bind_eq_ok.mp hwritten
  obtain ⟨texts, raw', hraw⟩ := h.payload_sealed.written
  obtain rfl := Except.ok.inj ((hraw.toBytes_eq hv2 hvalid).symm.trans h.written)
  exact hraw.strictPayload_eq hv2 hvalid

theorem validateHeader_eq (hsorted : (first :: rest).Pairwise fun a b => a.seq < b.seq) :
    validateHeader payload project run = .ok span := by
  obtain ⟨-, hle, hmax⟩ := h.span_bounds hsorted
  rw [h.payload_sealed.payload_eq]
  have howned : headerOwned (v2Header project run span.1 span.2 sections.length) project run =
      true := by
    have hp : field (v2Header project run span.1 span.2 sections.length) "project_id" =
        .str project.value.str := rfl
    have hr : field (v2Header project run span.1 span.2 sections.length) "run_id" =
        .str run.value.str := rfl
    rw [headerOwned, hp, hr]
    simp [Json.pyEq, Json.scalarEq]
  refine guard_ok ?_ ?_
  · rw [howned]
    rfl
  · refine bind_ok (orDead_eq_ok.mpr (parseSeq_int (by omega))) ?_
    refine bind_ok (orDead_eq_ok.mpr (parseSeq_int hmax)) ?_
    exact guard_ok (by simpa using hle) rfl

/-- **The object is read.** -/
theorem readObject_eq (hsorted : (first :: rest).Pairwise fun a b => a.seq < b.seq) {s : Store D}
    (hobject : s.objects first.seq = some raw) (text : PyStr) :
    readObject (s.reader W project run) project run
        ⟨text, putRef W.driver project run first.seq, first.seq⟩ =
      .ok ⟨putRef W.driver project run first.seq, text, raw, payload, span.1, span.2,
        v2EnvelopeVersion⟩ := by
  have hget : (s.reader W project run).get project (putRef W.driver project run first.seq) =
      .ok raw := by
    refine (getObject_putRef W.driver project run s.objects first.seq_le).trans ?_
    rw [hobject]
    rfl
  have hne : (sealedDicts 0 sections cs).isEmpty = false := by
    have hlen := h.payload_sealed.sections_sealed.length_eq
    have hpos := length_pos_of_ne_nil h.payload_sealed.nonempty
    rw [isEmpty_eq_false_iff_exists_mem]
    exact exists_mem_of_length_pos (by omega)
  refine bind_eq_ok.mpr ⟨raw, by rw [fetchObject, hget], ?_⟩
  refine bind_ok h.strictPayload_eq ?_
  refine bind_ok (h.validateHeader_eq hsorted) ?_
  refine guard_ok (by simpa using (h.span_bounds hsorted).1) ?_
  rw [h.payload_sealed.payload_eq]
  refine guard_ok ?_ (bind_eq_ok.mpr ⟨_, rfl, rfl⟩)
  exact guard_ok (by rw [hne]; rfl) rfl

end StoredBatch

/-! ### Key bindings -/

/-- Every identity names the key the table has for its digest. -/
def KeyedBy (keys : KeyTable D) (known : List WrapIdentity) : Prop :=
  ∀ w ∈ known, ∃ row, keys.find w.digest = some row ∧ row.keyId = w.keyId

variable {known : List WrapIdentity} {P : Primitives} {master : Bytes} {index : ℕ}
  {s : PlainSection}

theorem KeyedBy.addIdentity (h : KeyedBy keys known) {w : WrapIdentity}
    (hw : ∃ row, keys.find w.digest = some row ∧ row.keyId = w.keyId) :
    ∃ known', addIdentity known w = .ok known' ∧ KeyedBy keys known' := by
  rw [Tracebed.addIdentity]
  cases hfind : known.find? fun k => k.digest = w.digest with
  | none =>
    refine ⟨known ++ [w], rfl, fun k hk => ?_⟩
    rcases mem_append.mp hk with hk | hk
    · exact h k hk
    · rw [mem_singleton.mp hk]
      exact hw
  | some old =>
    have hdigest : old.digest = w.digest := by simpa using find?_some hfind
    obtain ⟨row, hrow, hid⟩ := h old (mem_of_find?_eq_some hfind)
    obtain ⟨row', hrow', hid'⟩ := hw
    obtain rfl : row = row' := by
      rw [hdigest, hrow'] at hrow
      exact (Option.some.inj hrow).symm
    refine ⟨known, ?_, h⟩
    rw [map_eq_ok]
    exact ⟨(), by rw [← hid, hid']; simp, rfl⟩

/-- The wraps of a sealed section claim the table's keys. -/
theorem Wrapped.identities {aad : Bytes} {i : ℕ} {pairs : List (Bytes × Bytes)} {wraps : List Dict}
    (h : Wrapped P master project keys aad i pairs wraps) :
    ∀ wrap ∈ wraps, ∃ w, wrapIdentity P project v2EnvelopeVersion (.obj wrap) = .ok w ∧
      ∃ row, keys.find w.digest = some row ∧ row.keyId = w.keyId := by
  induction h with
  | nil i => exact nofun
  | @cons i digest share kek nonce shareAad enc keyId pairs wraps hlive _ _ _ _ ih =>
    obtain ⟨row, hrow, hid, -⟩ := hlive
    refine forall_mem_cons.mpr ⟨⟨⟨digest, none, keyId⟩, ?_, row, hrow, hid⟩, ih⟩
    refine bind_ok (orDead_eq_ok.mpr (UUID.parse_str keyId)) ?_
    refine bind_eq_ok.mpr ⟨digest, ?_, rfl⟩
    rw [mapError_eq_ok]
    exact b64dCanonical_jstr digest

variable {c : SealData}

theorem Sealed.addsIdentities (h : Sealed P master project run keys index s c)
    (hknown : KeyedBy keys known) :
    ∃ known', sectionIdentities P project v2EnvelopeVersion known (c.dict index s) = .ok known' ∧
      KeyedBy keys known' := by
  have hstep : ∀ known, ∀ wrap ∈ c.wraps.map Json.obj, KeyedBy keys known →
      ∃ known', (wrapIdentity P project v2EnvelopeVersion wrap >>= Tracebed.addIdentity known) =
        .ok known' ∧ KeyedBy keys known' := by
    intro known wrap hwrap hkeyed
    obtain ⟨m, hm, rfl⟩ := mem_map.mp hwrap
    obtain ⟨w, hw, hrow⟩ := h.wraps.identities m hm
    obtain ⟨known', hadd, hkeyed'⟩ := hkeyed.addIdentity hrow
    exact ⟨known', bind_ok hw hadd, hkeyed'⟩
  obtain ⟨known', hfold, hknown'⟩ := foldlM_invariant hknown hstep
  exact ⟨known', bind_eq_ok.mpr ⟨c.wraps.map Json.obj, rfl, hfold⟩, hknown'⟩

variable {cs : List SealData}

theorem AllSealed.sealed_of_mem {previous : Option ℕ}
    (h : AllSealed P master project run keys index previous sections cs) :
    ∀ d ∈ sealedDicts index sections cs,
      ∃ i s c, Sealed P master project run keys i s c ∧ d = c.dict i s := by
  induction h with
  | nil index previous => exact nofun
  | cons _ hsealed _ ih =>
    exact forall_mem_cons.mpr ⟨⟨_, _, _, hsealed, rfl⟩, ih⟩

/-- **The wraps of a stored batch agree with the key table.** -/
theorem StoredBatch.addsIdentities
    (h : StoredBatch W project run keys batch raw sections payload cs span)
    (hknown : KeyedBy keys known) :
    ∃ known', payload.sections.foldlM (sectionIdentities W.prims project v2EnvelopeVersion)
      known = .ok known' ∧ KeyedBy keys known' := by
  refine foldlM_invariant hknown fun known d hd hkeyed => ?_
  rw [h.payload_sealed.payload_eq] at hd
  obtain ⟨i, s, c, hsealed, rfl⟩ := h.payload_sealed.sections_sealed.sealed_of_mem d hd
  exact hsealed.addsIdentities hkeyed

/-! ### Events -/

/-- A sealed section, decrypted while no key is destroyed. -/
def opened (P : Primitives) (project : ProjectId) (s : PlainSection) : PlainSection :=
  ⟨s.seqFrom, s.seqTo, [], s.lines, digestsOf P project s.subjectTags, v2EnvelopeVersion⟩

theorem shredded_of_none {gone : PyStr → Bool} (h : ∀ tag, gone tag = false) :
    shredded P project gone s = .plain (opened P project s) := by
  have hany : (referencedTags s).any gone = false := by
    rw [any_eq_false]
    exact fun tag _ => by rw [h tag]; exact Bool.false_ne_true
  rw [shredded, hany]
  rfl

theorem Sealed.checkSectionTags_eq (h : Sealed P master project run keys index s c) :
    checkSectionTags P project (opened P project s) s.subjectTags = .ok () := by
  obtain ⟨pairs, hpairs, hdeclared⟩ := map_eq_ok.mp h.declared
  refine bind_ok (mapError_eq_ok.mpr hpairs) ?_
  rw [check_eq_ok, decide_eq_true_eq]
  exact (subjectDigestPairs_spec hpairs).1

section Sections

variable {s : Store D} {decoded : Decoded D}

variable (run) in
theorem readSections_blocks (hX : W.pydantic.Faithful) {blocks : List (List (QueueEnvelope D))}
    (hblocks : List.Forall₂ (Block W.pydantic) blocks sections) (htags : ∀ p ∈ sections,
      checkSectionTags W.prims project (opened W.prims project p) p.subjectTags = .ok ())
    (hread : ∀ e ∈ blocks.flatten, PayloadReadable e)
    (hsorted : blocks.flatten.Pairwise fun a b => a.seq < b.seq)
    (hfresh : ∀ e ∈ blocks.flatten, ∀ d ∈ decoded, d.1 ≠ e.seq) :
    ∃ new, (sections.map fun p => DecryptedSection.plain (opened W.prims project p)).foldlM
        (readSection (s.reader W project run) project) (decoded, false) =
          .ok (decoded ++ new, false) ∧
      List.Forall₂ Decodes blocks.flatten new := by
  induction hblocks generalizing decoded with
  | nil => exact ⟨[], by rw [append_nil]; rfl, .nil⟩
  | @cons block p blocks sections hblock hblocks ih =>
    rw [flatten_cons] at hread hsorted hfresh ⊢
    obtain ⟨hfirst, hrest, habove⟩ := pairwise_append.mp hsorted
    obtain ⟨new, hnew, hdecodes⟩ : ∃ new, validatePlainSection _ project
        (opened W.prims project p) decoded = .ok (decoded ++ new) ∧ _ :=
      validatePlainSection_block (R := s.reader W project run) hX hblock ⟨rfl, rfl, rfl⟩
        (htags p mem_cons_self) (fun e he => hread e (mem_append_left _ he)) hfirst
        (fun e he => hfresh e (mem_append_left _ he))
    have hfresh' : ∀ e ∈ blocks.flatten, ∀ d ∈ decoded ++ new, d.1 ≠ e.seq := by
      intro e he d hd
      rcases mem_append.mp hd with hd | hd
      · exact hfresh e (mem_append_right _ he) d hd
      · obtain ⟨a, ha, hda⟩ := forall₂_mem hdecodes.flip d hd
        rw [hda.1]
        exact Nat.ne_of_lt (habove a ha e he)
    obtain ⟨new', hnew', hdecodes'⟩ := ih (forall_mem_cons.mp htags).2
      (fun e he => hread e (mem_append_right _ he)) hrest hfresh'
    refine ⟨new ++ new', ?_, rel_append hdecodes hdecodes'⟩
    rw [map_cons, foldlM_cons, ← append_assoc]
    exact bind_eq_ok.mpr ⟨_, bind_ok hnew rfl, hnew'⟩

/-- **The sections of a stored batch are read as its events.** -/
theorem StoredBatch.readDecrypted_eq (hP : W.prims.Lawful) (hX : W.pydantic.Faithful)
    (h : StoredBatch W project run s.keys batch raw sections payload cs span)
    (hread : ∀ e ∈ batch, PayloadReadable e) (hsorted : batch.Pairwise fun a b => a.seq < b.seq)
    {o : ArchiveObject} (ho : o.payload = payload)
    (hfresh : ∀ e ∈ batch, ∀ d ∈ decoded, d.1 ≠ e.seq) :
    ∃ new, readDecrypted (s.reader W project run) project (decoded, false) o =
        .ok (decoded ++ new, false) ∧ List.Forall₂ Decodes batch new := by
  obtain ⟨blocks, rfl, hblocks⟩ := buildSections_blocks h.built
  have htags : ∀ p ∈ sections,
      checkSectionTags W.prims project (opened W.prims project p) p.subjectTags = .ok () := by
    intro p hp
    obtain ⟨c, -, index, hsealed⟩ := forall₂_mem h.payload_sealed.sections_sealed.paired p hp
    exact hsealed.checkSectionTags_eq
  obtain ⟨new, hnew, hdecodes⟩ := readSections_blocks (s := s) run hX hblocks htags
    hread hsorted hfresh
  have hopen : (s.reader W project run).decrypt project o.payload =
      .ok (sections.map fun p => .plain (opened W.prims project p)) := by
    have hdecrypt := h.payload_sealed.decrypts_erased hP []
    have hmap : sections.map (shredded W.prims project (isErased W.prims project
        ([] : List (D × List Bytes)))) =
        sections.map fun p => .plain (opened W.prims project p) :=
      map_congr_left fun p _ => shredded_of_none fun _ => rfl
    rw [hmap] at hdecrypt
    rw [Store.reader, ho]
    dsimp only
    rw [if_pos rfl]
    exact hdecrypt
  refine ⟨new, bind_eq_ok.mpr ⟨_, ?_, hnew⟩, hdecodes⟩
  rw [decryptObject, hopen]

end Sections

end Stored

end Tracebed
