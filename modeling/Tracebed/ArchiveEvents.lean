import Tracebed.TraceArchive
import Tracebed.TraceWriter
import Tracebed.Lib.JsonRoundTrip

/-!
# Events Written and Read Back

The writer turns an event into a canonical JSON line; the reader parses the line, validates the
event again and compares its tags with those of the section. What comes back is the event with
the keys of its payload in order (`validatePlainSection_block`).

Two things are assumed of the environment: timestamps survive their own text
(`Pydantic.Faithful`), and payloads survive `json.dumps` and `json.loads` (`Json.Readable`:
distinct keys, and floats that read back).
-/

open Py Fallible List

namespace Tracebed

open Reading

variable {D : Type}

/-- Every timestamp is read back from its text. -/
def Pydantic.Faithful (X : Pydantic D) : Prop := ∀ d, X.parseTs (.str (X.dumpTs d)) = some d

/-- An event as it is read back: the keys of its payload are in order. -/
structure ReadBack (e e' : TraceEvent D) : Prop where
  type_eq : e'.type = e.type
  ts_eq : e'.ts = e.ts
  payload_eq : Json.obj e'.payload = Json.ordered true (.obj e.payload)

/-! ### Payloads in order -/

/-- The members of a dictionary with all keys in order. -/
def orderedDict (m : Dict) : Dict := Json.sortMembers true (Json.orderedMembers true m)

/-- Tags that pass the validator are texts, which have no keys to order. -/
theorem orderedItems_of_tags {tags : List Json} (h : tags.forM checkSubjectTag = .ok ()) :
    Json.orderedItems true tags = tags := by
  have hall := forM_eq_ok.mp h
  clear h
  induction tags with
  | nil => rfl
  | cons tag tags ih =>
    have hhead := hall tag mem_cons_self
    rw [Json.orderedItems, ih (forall_mem_cons.mp hall).2]
    cases tag with
    | str s => rfl
    | null | bool | int | float | arr | obj => cases hhead

variable {p : Dict}

theorem find_tags_ordered (hkeys : (Dict.keys p).Nodup) (h : validatedSubjectTags p = .ok ()) :
    Dict.find (orderedDict p) subjectTagsKey = Dict.find p subjectTagsKey := by
  rw [orderedDict, Json.find_ordered hkeys]
  rw [validatedSubjectTags] at h
  cases hfind : Dict.find p subjectTagsKey with
  | none => rfl
  | some v =>
    rw [hfind] at h
    cases v with
    | arr tags =>
      obtain ⟨⟨⟩, -, h⟩ := bind_eq_ok.mp h
      obtain ⟨⟨⟩, -, h⟩ := bind_eq_ok.mp h
      obtain ⟨⟨⟩, -, h⟩ := bind_eq_ok.mp h
      rw [Option.map_some, Json.ordered, orderedItems_of_tags h]
    | null | bool | int | float | str | obj => cases h

theorem find_status_ordered (hkeys : (Dict.keys p).Nodup) (h : checkStatus p = .ok ()) :
    Dict.find (orderedDict p) (str "status") = Dict.find p (str "status") := by
  rw [orderedDict, Json.find_ordered hkeys]
  rw [checkStatus] at h
  cases hfind : Dict.find p (str "status") with
  | none => rfl
  | some v =>
    rw [hfind] at h
    cases v with
    | str s => rfl
    | null | bool | int | float | arr | obj => cases h

/-- The key a payload validator reads, if it reads one. -/
def validatedKey : EventType → Option PyStr
  | .artifactRef | .stateNote => some subjectTagsKey
  | .runEnd => some (str "status")
  | _ => none

variable {type : EventType}

theorem find_validated_ordered (hkeys : (Dict.keys p).Nodup) (h : checkPayload type p = .ok ())
    {k : PyStr} (hk : validatedKey type = some k) :
    Dict.find (orderedDict p) k = Dict.find p k := by
  cases type with
  | artifactRef | stateNote =>
    cases hk
    exact find_tags_ordered hkeys h
  | runEnd =>
    cases hk
    exact find_status_ordered hkeys h
  | runStart | toolCall | toolResult | llmCallMeta | error => cases hk

/-- A validator sees its one key. -/
theorem checkPayload_congr {q : Dict}
    (h : ∀ k, validatedKey type = some k → Dict.find q k = Dict.find p k) :
    checkPayload type q = checkPayload type p := by
  cases type with
  | artifactRef | stateNote =>
    rw [checkPayload, checkPayload, validatedSubjectTags, validatedSubjectTags, h _ rfl]
  | runEnd => rw [checkPayload, checkPayload, checkStatus, checkStatus, h _ rfl]
  | runStart | toolCall | toolResult | llmCallMeta | error => rfl

section ReadBack

variable {e e' : TraceEvent D}

theorem ReadBack.payload (h : ReadBack e e') : e'.payload = orderedDict e.payload :=
  Json.obj.inj h.payload_eq

theorem ReadBack.subjectTagsFor (h : ReadBack e e') (hkeys : (Dict.keys e.payload).Nodup) :
    subjectTagsFor e' = subjectTagsFor e := by
  have hfind : ∀ k, validatedKey e.type = some k →
      Dict.get e'.payload k = Dict.get e.payload k := fun k hk => by
    rw [Dict.get, Dict.get, h.payload, find_validated_ordered hkeys e.payload_ok hk]
  rw [Tracebed.subjectTagsFor, Tracebed.subjectTagsFor, h.type_eq]
  cases htype : e.type with
  | artifactRef | stateNote =>
    rw [hfind _ (by rw [htype]; rfl)]
  | runStart | toolCall | toolResult | llmCallMeta | error | runEnd => rfl

end ReadBack

/-! ### Events -/

theorem payloadField_eq {m : Dict} (hfind : Dict.find m (str "payload") = some (.obj p))
    (hp : checkPayload type p = .ok ()) : payloadField type m = .ok ⟨p, hp⟩ := by
  rw [payloadField, hfind]
  dsimp only
  split
  · rfl
  · next h =>
    rw [hp] at h
    cases h
  · next h =>
    rw [hp] at h
    cases h

theorem ordered_dump (X : Pydantic D) (e : TraceEvent D) :
    Json.ordered true (e.dump X) = .obj [(str "payload", .obj (orderedDict e.payload)),
        (str "ts", .str (X.dumpTs e.ts)), (str "type", .str e.type.text)] := rfl

variable {X : Pydantic D}

/-- **The dumped event validates to the event.** -/
theorem validateEvent_ordered (hX : X.Faithful) (e : TraceEvent D)
    (hkeys : (Dict.keys e.payload).Nodup) :
    ∃ e', validateEvent X (Json.ordered true (e.dump X)) = .ok e' ∧ ReadBack e e' := by
  have hok : checkPayload e.type (orderedDict e.payload) = .ok () :=
    (checkPayload_congr fun _ hk => find_validated_ordered hkeys e.payload_ok hk).trans e.payload_ok
  refine ⟨⟨e.type, e.ts, orderedDict e.payload, hok⟩, ?_, rfl, rfl, rfl⟩
  have htype : Dict.find [(str "payload", Json.obj (orderedDict e.payload)),
      (str "ts", .str (X.dumpTs e.ts)), (str "type", .str e.type.text)]
      (str "type") = some (.str e.type.text) := rfl
  rw [ordered_dump, validateEvent, htype]
  dsimp only
  rw [EventType.ofText_text]
  refine bind_ok (payloadField_eq rfl hok) ?_
  refine bind_ok (orRaise_eq_ok.mpr (hX e.ts)) ?_
  exact guard_ok rfl rfl

/-! ### Lines -/

/-- A decoded event is the event of an envelope, under its sequence number. -/
def Decodes (env : QueueEnvelope D) (d : ℕ × TraceEvent D) : Prop :=
  d.1 = env.seq ∧ ReadBack env.event d.2

/-- The payload of an envelope survives the reader's JSON. -/
def PayloadReadable (env : QueueEnvelope D) : Prop :=
  Json.Readable strictOptions canonicalOptions (.obj env.event.payload)

variable {env : QueueEnvelope D} {line : Bytes}

theorem loads_wireLine (h : wireLine X env = .ok line) (hread : PayloadReadable env) :
    ∃ text, utf8Decode line = some text ∧ Json.loads strictOptions text =
      some (.obj [(str "event", Json.ordered true (env.event.dump X)),
        (str "seq", .int env.seq)]) := by
  obtain ⟨text, htext, hbytes⟩ := bind_eq_ok.mp h
  rw [orRaise_eq_ok] at htext hbytes
  refine ⟨text, utf8Decode_utf8Encode hbytes, ?_⟩
  have hplain : ∀ t : PyStr, Json.Plain canonicalOptions.ensureAscii t :=
    nofun
  have hkeys : [str "ts", str "payload", str "type"].Nodup ∧
      [str "seq", str "event"].Nodup := by decide
  have hevent : Json.Readable strictOptions canonicalOptions (env.event.dump X) :=
    ⟨hkeys.1, hplain _, hplain _, hplain _, hread, hplain _, hplain _, trivial⟩
  have hwhole : Json.Readable strictOptions canonicalOptions
      (.obj [(str "seq", .int env.seq), (str "event", env.event.dump X)]) :=
    ⟨hkeys.2, hplain _, trivial, hplain _, hevent, trivial⟩
  exact Json.loads_dumps hwhole htext

variable {block : List (QueueEnvelope D)} {decoded : Decoded D}

section Lines

variable {R : ArchiveReader D} {project : ProjectId} {p : PlainSection} {previous : ℤ}

/-- **A written line is read as its event.** -/
theorem validateLine_wireLine (hX : R.pydantic.Faithful)
    (hline : wireLine R.pydantic env = .ok line) (hread : PayloadReadable env)
    (htags : checkSectionTags R.prims project p (subjectTagsFor env.event) = .ok ())
    (hrange : p.seqFrom ≤ env.seq ∧ env.seq ≤ p.seqTo) (hprevious : previous < env.seq)
    (hfresh : ∀ d ∈ decoded, d.1 ≠ env.seq) :
    ∃ d, validateLine R project p previous decoded line = .ok d ∧ Decodes env d := by
  obtain ⟨text, hdecode, hload⟩ := loads_wireLine hline hread
  obtain ⟨e', hvalid, hback⟩ := validateEvent_ordered hX env.event hread.1
  have hany : (decoded.any fun d => d.1 = (env.seq : ℤ).toNat) = false := by
    rw [any_eq_false]
    intro d hd
    simpa using hfresh d hd
  refine ⟨(env.seq, e'), ?_, rfl, hback⟩
  refine bind_ok (lift_eq_ok.mpr (orRaise_eq_ok.mpr hdecode)) ?_
  refine bind_ok (lift_eq_ok.mpr (orRaise_eq_ok.mpr hload)) ?_
  refine guard_ok ?_ ?_
  · rw [hany]
    have hfrom : (p.seqFrom : ℤ) ≤ env.seq := by omega
    have hto : (env.seq : ℤ) ≤ p.seqTo := by omega
    simp [hfrom, hto, hprevious]
  · refine bind_ok (lift_eq_ok.mpr hvalid) ?_
    refine guard_ok ?_ rfl
    rw [hback.subjectTagsFor hread.1]
    exact htags

theorem validateLines_block (hX : R.pydantic.Faithful) {lines : List Bytes}
    (hlines : List.Forall₂ (fun e line => wireLine R.pydantic e = .ok line) block lines)
    (hread : ∀ e ∈ block, PayloadReadable e)
    (htags : ∀ e ∈ block, checkSectionTags R.prims project p (subjectTagsFor e.event) = .ok ())
    (hrange : ∀ e ∈ block, p.seqFrom ≤ e.seq ∧ e.seq ≤ p.seqTo)
    (hsorted : block.Pairwise fun a b => a.seq < b.seq) (hprevious : ∀ e ∈ block, previous < e.seq)
    (hfresh : ∀ e ∈ block, ∀ d ∈ decoded, d.1 ≠ e.seq) :
    ∃ new, validateLines R project p previous decoded lines = .ok new ∧
      List.Forall₂ Decodes block new := by
  induction hlines generalizing previous decoded with
  | nil => exact ⟨[], rfl, .nil⟩
  | @cons env line block lines hline _ ih =>
    obtain ⟨hread, hread'⟩ := forall_mem_cons.mp hread
    obtain ⟨htags, htags'⟩ := forall_mem_cons.mp htags
    obtain ⟨hrange, hrange'⟩ := forall_mem_cons.mp hrange
    obtain ⟨hprevious, -⟩ := forall_mem_cons.mp hprevious
    obtain ⟨hfresh, hfresh'⟩ := forall_mem_cons.mp hfresh
    obtain ⟨habove, hsorted⟩ := pairwise_cons.mp hsorted
    obtain ⟨d, hd, hdecodes⟩ := validateLine_wireLine hX hline hread htags hrange hprevious hfresh
    have hprevious' : ∀ e ∈ block, (d.1 : ℤ) < e.seq := fun e he => by
      have := habove e he
      rw [hdecodes.1]
      omega
    have hfresh'' : ∀ e ∈ block, ∀ d' ∈ decoded ++ [d], d'.1 ≠ e.seq := fun e he d' hd' => by
      rcases mem_append.mp hd' with hd' | hd'
      · exact hfresh' e he d' hd'
      · rw [mem_singleton.mp hd', hdecodes.1]
        exact Nat.ne_of_lt (habove e he)
    obtain ⟨new, hnew, hall⟩ := ih hread' htags' hrange' hsorted hprevious' hfresh''
    exact ⟨d :: new, bind_ok hd (bind_ok hnew rfl), .cons hdecodes hall⟩

end Lines

/-! ### Sections -/

/-- A section made of consecutive envelopes with the same tags. -/
structure Block (X : Pydantic D) (block : List (QueueEnvelope D)) (s : PlainSection) : Prop where
  lines : List.Forall₂ (fun e line => wireLine X e = .ok line) block s.lines
  tags : ∀ e ∈ block, subjectTagsFor e.event = s.subjectTags
  first : (block.map QueueEnvelope.seq).head? = some s.seqFrom
  last : (block.map QueueEnvelope.seq).getLast? = some s.seqTo

theorem block_openSection (h : wireLine X env = .ok line) :
    Block X [env] (openSection env line) := by
  exact ⟨.cons h .nil, forall_mem_singleton.mpr rfl, rfl, rfl⟩

variable {sections : List PlainSection}

/-- The loop of `_build_sections` continues a block until the tags change. -/
theorem buildSectionsFrom_blocks {current : PlainSection} {envs : List (QueueEnvelope D)}
    (hcurrent : Block X block current) (h : buildSectionsFrom X current envs = .ok sections) :
    ∃ blocks, blocks.flatten = block ++ envs ∧ List.Forall₂ (Block X) blocks sections := by
  induction envs generalizing current block sections with
  | nil =>
    cases h
    exact ⟨[block], by simp, .cons hcurrent .nil⟩
  | cons env envs ih =>
    obtain ⟨line, hline, h⟩ := bind_eq_ok.mp h
    split_ifs at h with htags
    · have hnext : Block X (block ++ [env])
          { current with seqTo := env.seq, lines := current.lines ++ [line] } := by
        refine ⟨rel_append hcurrent.lines (.cons hline .nil), ?_, ?_, ?_⟩
        · exact forall_mem_append.mpr ⟨hcurrent.tags, forall_mem_singleton.mpr htags⟩
        · rw [map_append, head?_append, hcurrent.first]
          rfl
        · rw [map_append, map_singleton, getLast?_concat]
      obtain ⟨blocks, hflat, hall⟩ := ih hnext h
      exact ⟨blocks, by rw [hflat, append_assoc, singleton_append], hall⟩
    · obtain ⟨others, hothers, h⟩ := bind_eq_ok.mp h
      cases h
      obtain ⟨blocks, hflat, hall⟩ := ih (block_openSection hline) hothers
      exact ⟨block :: blocks, by rw [flatten_cons, hflat, singleton_append], .cons hcurrent hall⟩

/-- **The sections of a batch are its blocks of equal tags.** -/
theorem buildSections_blocks {envs : List (QueueEnvelope D)}
    (h : buildSections X envs = .ok sections) :
    ∃ blocks, blocks.flatten = envs ∧ List.Forall₂ (Block X) blocks sections := by
  cases envs with
  | nil =>
    cases h
    exact ⟨[], rfl, .nil⟩
  | cons env envs =>
    obtain ⟨line, hline, h⟩ := bind_eq_ok.mp h
    exact buildSectionsFrom_blocks (block_openSection hline) h

/-- A strictly increasing list runs from its least to its greatest member. -/
theorem extrema_of_sorted {l : List ℕ} (h : l.Pairwise (· < ·)) :
    l.min? = l.head? ∧ l.max? = l.getLast? := by
  constructor
  · cases l with
    | nil => rfl
    | cons a l =>
      rw [head?_cons, min?_eq_some_iff]
      refine ⟨mem_cons_self, forall_mem_cons.mpr ⟨le_rfl, fun b hb => ?_⟩⟩
      exact Nat.le_of_lt ((pairwise_cons.mp h).1 b hb)
  · rcases eq_nil_or_concat l with rfl | ⟨l, a, rfl⟩
    · rfl
    · rw [concat_eq_append] at h ⊢
      rw [getLast?_concat, max?_eq_some_iff]
      refine ⟨mem_append_right _ mem_cons_self, fun b hb => ?_⟩
      rcases mem_append.mp hb with hb | hb
      · exact Nat.le_of_lt ((pairwise_append.mp h).2.2 b hb a mem_cons_self)
      · exact Nat.le_of_eq (mem_singleton.mp hb)

theorem map_fst_of_decodes {new : Decoded D} (h : List.Forall₂ Decodes block new) :
    new.map Prod.fst = block.map QueueEnvelope.seq := by
  induction h with
  | nil => rfl
  | cons hd _ ih => rw [map_cons, map_cons, ih, hd.1]

/-- **A written section is read as its events.** -/
theorem validatePlainSection_block {R : ArchiveReader D} {project : ProjectId}
    (hX : R.pydantic.Faithful) {s p : PlainSection} (hblock : Block R.pydantic block s)
    (hsame : p.lines = s.lines ∧ p.seqFrom = s.seqFrom ∧ p.seqTo = s.seqTo)
    (htags : checkSectionTags R.prims project p s.subjectTags = .ok ())
    (hread : ∀ e ∈ block, PayloadReadable e) (hsorted : block.Pairwise fun a b => a.seq < b.seq)
    (hfresh : ∀ e ∈ block, ∀ d ∈ decoded, d.1 ≠ e.seq) :
    ∃ new, validatePlainSection R project p decoded = .ok (decoded ++ new) ∧
      List.Forall₂ Decodes block new := by
  obtain ⟨hlines, hfrom, hto⟩ := hsame
  have hseqs : (block.map QueueEnvelope.seq).Pairwise (· < ·) := pairwise_map.mpr hsorted
  obtain ⟨hmin, hmax⟩ := extrema_of_sorted hseqs
  rw [hblock.first, ← hfrom] at hmin
  rw [hblock.last, ← hto] at hmax
  have hrange : ∀ e ∈ block, p.seqFrom ≤ e.seq ∧ e.seq ≤ p.seqTo := fun e he =>
    ⟨(min?_eq_some_iff.mp hmin).2 _ (mem_map_of_mem he),
      (max?_eq_some_iff.mp hmax).2 _ (mem_map_of_mem he)⟩
  have hsection : ∀ e ∈ block,
      checkSectionTags R.prims project p (subjectTagsFor e.event) = .ok () := fun e he => by
    rw [hblock.tags e he]
    exact htags
  have hstart : ∀ e ∈ block, (-1 : ℤ) < e.seq := fun e _ => by omega
  obtain ⟨new, hnew, hall⟩ :=
    validateLines_block hX hblock.lines hread hsection hrange hsorted hstart hfresh
  refine ⟨new, ?_, hall⟩
  refine guard_ok ?_ ?_
  · rw [hlines]
    have hne : s.lines ≠ [] := by
      rintro hnil
      have hlength := hblock.lines.length_eq
      rw [hnil] at hlength
      rw [length_eq_zero_iff.mp hlength] at hmin
      cases hmin
    simpa using hne
  · rw [hlines]
    refine bind_ok hnew (guard_ok ?_ rfl)
    rw [map_fst_of_decodes hall, hmin, hmax]
    simp

end Tracebed
