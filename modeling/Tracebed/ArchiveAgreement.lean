import Tracebed.ArchiveObjects
import Tracebed.TraceRuns

/-!
# Writer and Reader Agree

Whatever batches of a run are written, committed or rolled back: once the index row is terminal,
and as long as no key has been destroyed, the archive reader returns exactly the recorded events
`0, …, end_seq` (`readComplete_agrees`). `Archived` says what the writer leaves behind: the
committed batches, each sealed in the object its reference names, in the order of the commits.
One step keeps it, so every run does, and the reader's checks follow from it.
-/

open Py Fallible List Bool

namespace Tracebed

open Reading

variable {D : Type}

/-! ### What the writer leaves behind -/

/-- The first sequence number of a batch. -/
def firstSeq (batch : List (QueueEnvelope D)) : ℕ :=
  (batch.head?.map QueueEnvelope.seq).getD 0

def batchRef (W : Writer D) (project : ProjectId) (run : RunId)
    (batch : List (QueueEnvelope D)) : PyStr :=
  payloadRefText W.driver project run (firstSeq batch)

/-- A committed batch is sealed in the object its first sequence number names. -/
structure BatchStored (W : Writer D) (project : ProjectId) (run : RunId) (s : Store D)
    (batch : List (QueueEnvelope D)) : Prop where
  nonempty : batch ≠ []
  sorted : batch.Pairwise fun a b => a.seq < b.seq
  held : ∃ raw, s.objects (firstSeq batch) = some raw ∧ Holds W project run s.keys batch raw

/-- What the index row says about the committed batches. -/
structure RowArchived (W : Writer D) (project : ProjectId) (run : RunId)
    (batches : List (List (QueueEnvelope D))) (row : TraceIndexRow D) : Prop where
  project_eq : row.projectId = project
  run_eq : row.runId = run
  path_some : row.path.isSome = true
  payloadRef_eq : row.payloadRef = (batches.map (batchRef W project run)).head?
  versions_eq : row.envelopeVersions = [v2EnvelopeVersion]
  ranges_eq : Dict.get (existingPath (some row)) pathSeqRanges = toPath (seenSeqs (some row))

/-- **The committed batches of a run.** -/
structure Archived (W : Writer D) (project : ProjectId) (run : RunId) (s : Store D)
    (batches : List (List (QueueEnvelope D))) : Prop where
  archive_eq : s.archive = batches.flatten
  refs_eq : priorRefs (existingPath s.row) =
    batches.map fun b => Json.str (batchRef W project run b)
  row_eq : ∀ row, s.row = some row → RowArchived W project run batches row
  stored : ∀ b ∈ batches, BatchStored W project run s b

/-- No key is destroyed during the run: other transactions of the project only add keys. -/
def KeysKept [DecidableEq D] (W : Writer D) (project : ProjectId) (run : RunId) (s : Store D)
    (steps : List (RunStep D)) : Prop :=
  ∀ earlier keys later, steps = earlier ++ .otherRuns keys :: later →
    (Runs.exec (runStep W project run) s earlier).keys.Grows keys

section Steps

variable {W : Writer D} {project : ProjectId} {run : RunId} {s s' : Store D}
  {batches : List (List (QueueEnvelope D))} {batch : List (QueueEnvelope D)}

theorem BatchStored.firstSeq_mem (h : BatchStored W project run s batch) :
    ∃ e ∈ batch, e.seq = firstSeq batch := by
  obtain ⟨e, rest, rfl⟩ := exists_cons_of_ne_nil h.nonempty
  exact ⟨e, mem_cons_self, rfl⟩

theorem BatchStored.firstSeq_le (h : BatchStored W project run s batch) :
    firstSeq batch ≤ maxTraceSeq := by
  obtain ⟨e, -, he⟩ := h.firstSeq_mem
  exact he ▸ e.seq_le

theorem BatchStored.mono (h : BatchStored W project run s batch) (hkeys : s.keys.Grows s'.keys)
    (hobject : s'.objects (firstSeq batch) = s.objects (firstSeq batch)) :
    BatchStored W project run s' batch := by
  obtain ⟨raw, hraw, hholds⟩ := h.held
  exact ⟨h.nonempty, h.sorted, raw, hobject.trans hraw, hholds.mono hkeys⟩

theorem Archived.firstSeq_recorded (h : Archived W project run s batches)
    (hs : Consistent W s) : ∀ b ∈ batches, firstSeq b ∈ seenSeqs s.row := by
  intro b hb
  obtain ⟨e, he, hseq⟩ := (h.stored b hb).firstSeq_mem
  rw [← hseq, hs.recorded]
  exact ⟨e, h.archive_eq ▸ mem_flatten.mpr ⟨b, hb, he⟩, rfl⟩

/-- A step that leaves row and committed envelopes alone keeps the stored batches. -/
theorem Archived.congr (h : Archived W project run s batches) (hs : Consistent W s)
    (hrow : s'.row = s.row) (harchive : s'.archive = s.archive)
    (hkeys : s.keys.Grows s'.keys)
    (hobjects : ∀ n, s'.objects n = s.objects n ∨ n ∉ seenSeqs s.row) :
    Archived W project run s' batches where
  archive_eq := harchive.trans h.archive_eq
  refs_eq := hrow ▸ h.refs_eq
  row_eq := fun row hr => h.row_eq row (hrow ▸ hr)
  stored := fun b hb => by
    refine (h.stored b hb).mono hkeys ((hobjects _).resolve_right fun hunseen => ?_)
    exact hunseen (h.firstSeq_recorded hs b hb)

/-- The sweep changes nothing the reader's row is made of. -/
theorem Archived.sweep (h : Archived W project run s batches) :
    Archived W project run { s with row := s.row.map markRunIncomplete } batches := by
  have hpath : existingPath (s.row.map markRunIncomplete) = existingPath s.row := by
    cases s.row with
    | none => rfl
    | some row =>
      rw [Option.map_some, markRunIncomplete]
      split_ifs <;> rfl
  refine ⟨h.archive_eq, by rw [← h.refs_eq, hpath], fun row hrow => ?_, fun b hb => ?_⟩
  · obtain ⟨old, hold, rfl⟩ := Option.map_eq_some_iff.mp hrow
    have hrowArchived := h.row_eq old hold
    rw [markRunIncomplete]
    split_ifs
    · exact ⟨hrowArchived.project_eq, hrowArchived.run_eq, hrowArchived.path_some,
        hrowArchived.payloadRef_eq, hrowArchived.versions_eq, hrowArchived.ranges_eq⟩
    · exact hrowArchived
  · exact (h.stored b hb).mono (KeyTable.Grows.refl _) rfl

variable [DecidableEq D] {b : Batch D}

theorem Batch.Writes.rowArchived (h : b.Writes W project run s s')
    (ha : Archived W project run s batches) :
    RowArchived W project run (batches ++ [b.new]) b.row := by
  obtain ⟨row, path, hbatch, hpath, -, hafter, -, hstored, -⟩ := h.upserted
  obtain ⟨-, -, hproject, hrun, -, -, href, hversions⟩ := batchRow_spec hbatch
  have hranges : Dict.get (existingPath (some b.row)) pathSeqRanges =
      toPath (seenSeqs (some b.row)) := by
    rw [← hafter, h.path_get.1, h.seenSeqs_eq]
  have hkept : b.row.path = row.path := by
    rw [hstored]
    exact (upsertTraceIndex_spec row h.open_row (by rw [hpath]; rfl)).1
  have hsome : b.row.path.isSome = true := by rw [hkept, hpath]; rfl
  have hopen := h.open_row
  cases hrow : s.row with
  | none =>
    rw [hrow] at hstored
    obtain rfl : b.row = row := hstored
    have hempty : batches = [] := by
      cases batches with
      | nil => rfl
      | cons first rest =>
        have hrefs := ha.refs_eq
        rw [hrow] at hrefs
        cases hrefs
    refine ⟨hproject, hrun, hsome, ?_, hversions, hranges⟩
    rw [hempty, href]
    rfl
  | some old =>
    have hold := ha.row_eq old hrow
    rw [hrow] at hopen hstored
    have hlive : ¬old.outcomeStatus.isTerminal = true := by
      rw [not_eq_true]
      exact hopen
    rw [upsertTraceIndex, if_neg hlive] at hstored
    refine ⟨?_, ?_, hsome, ?_, ?_, hranges⟩
    · rw [hstored]
      exact hold.project_eq
    · rw [hstored]
      exact hold.run_eq
    · rw [hstored]
      rw [hold.payloadRef_eq, href, map_append, head?_append]
      rfl
    · rw [hstored]
      dsimp only
      rw [hold.versions_eq, hversions]
      decide

/-- **A written batch is stored** next to those before it. -/
theorem Batch.Writes.archived (h : b.Writes W project run s s') (hP : W.prims.Lawful)
    (hs : Consistent W s) (ha : Archived W project run s batches) :
    Archived W project run s' (batches ++ [b.new]) := by
  obtain ⟨hgrows, hholds⟩ := sealBatch_holds hP h.sealed
  have hunseen : b.first.seq ∉ seenSeqs s.row := (h.mem_new mem_cons_self).2.2
  obtain ⟨-, hsorted, -⟩ := newEnvs_spec s.row
    ((b.accepted.filter fun d => b.admits d.1).map Prod.fst)
  rw [h.new_eq] at hsorted
  refine ⟨?_, ?_, fun row hrow => ?_, fun batch hbatch => ?_⟩
  · rw [h.state_eq, flatten_append, ← ha.archive_eq, flatten_singleton]
  · rw [priorRefs, h.path_get.2, map_append, ← ha.refs_eq]
    rfl
  · rw [h.state_eq] at hrow
    cases hrow
    exact h.rowArchived ha
  · rcases mem_append.mp hbatch with hbatch | hbatch
    · refine (ha.stored batch hbatch).mono (by rw [h.state_eq]; exact hgrows) ?_
      rw [h.state_eq]
      have hseen := ha.firstSeq_recorded hs batch hbatch
      exact (putObject_unseen b.raw hunseen _).resolve_right fun hnot => hnot hseen
    · rw [mem_singleton.mp hbatch]
      refine ⟨cons_ne_nil _ _, hsorted, b.raw, ?_, ?_⟩
      · rw [h.state_eq]
        exact Function.update_self _ _ _
      · rw [h.state_eq]
        exact hholds

/-- **Every step keeps the committed batches readable**, if it destroys no key. -/
theorem runStep_archived (hP : W.prims.Lawful) (hs : Consistent W s)
    (ha : Archived W project run s batches) {a : RunStep D}
    (hkept : ∀ keys, a = .otherRuns keys → s.keys.Grows keys) :
    ∃ batches', Archived W project run (runStep W project run s a) batches' := by
  cases a with
  | deliver pairs f =>
    rcases processGroup_cases W project run pairs f s with
      ⟨hrow, -, harchive, hkeys, hobjects⟩ | ⟨b, hb⟩
    · exact ⟨batches, ha.congr hs hrow harchive (hkeys ▸ KeyTable.Grows.refl _) hobjects⟩
    · exact ⟨_, hb.archived hP hs ha⟩
  | sweep => exact ⟨batches, ha.sweep⟩
  | otherRuns keys =>
    exact ⟨batches, ha.congr hs rfl rfl (hkept keys rfl) fun _ => .inl rfl⟩

/-- **Every run keeps the committed batches readable.** -/
theorem exec_archived (hP : W.prims.Lawful) (project : ProjectId) (run : RunId)
    (keys : KeyTable D) (objects : ℕ → Option Bytes) {steps : List (RunStep D)}
    (hkept : KeysKept W project run (Store.fresh keys objects) steps) :
    ∃ batches, Archived W project run
      (Runs.exec (runStep W project run) (Store.fresh keys objects) steps) batches := by
  refine Runs.exec_invariant_along (I := fun s => ∃ batches, Archived W project run s batches)
    ⟨[], rfl, rfl, nofun, nofun⟩ ?_
  rintro earlier a later heq ⟨batches, ha⟩
  refine runStep_archived hP (exec_consistent W project run keys objects earlier) ha ?_
  rintro keys' rfl
  exact hkept earlier keys' later heq

end Steps

/-! ### References and objects -/

theorem nonblankText_payloadRefText (driver : StoreDriver) (project : ProjectId) (run : RunId)
    (n : ℕ) : nonblankText (.str (payloadRefText driver project run n)) =
      some (payloadRefText driver project run n) := by
  have hany : (payloadRefText driver project run n).any (!isSpaceChar ·) = true := by
    cases driver <;> rfl
  rw [nonblankText, if_pos hany]

theorem payloadRefText_isAscii (driver : StoreDriver) (project : ProjectId) (run : RunId)
    {n : ℕ} (hn : n ≤ maxTraceSeq) : IsAscii (payloadRefText driver project run n) := by
  have hkey : IsAscii (objectKey driver project run n) := by
    intro c hc
    rcases mem_objectKey driver project run hn hc with (h | h | h | h) | h <;> omega
  have hfs : ∀ c ∈ str "fs://", c < 0x80 := by decide
  have hs3 : ∀ c ∈ str "s3://", c < 0x80 := by decide
  rw [payloadRefText_eq]
  refine IsAscii.append ?_ hkey
  cases driver with
  | fs => exact hfs
  | s3 bucket => exact hs3

section Reading

variable {W : Writer D} {project : ProjectId} {run : RunId} {s : Store D}
  {batches : List (List (QueueEnvelope D))}

theorem Archived.firstSeqs_nodup (ha : Archived W project run s batches)
    (hs : Consistent W s) : (batches.map firstSeq).Nodup := by
  have hdistinct := hs.distinct
  rw [ha.archive_eq, pairwise_flatten] at hdistinct
  refine pairwise_map.mpr (hdistinct.2.imp_of_mem fun {a b} ha' hb' hne heq => ?_)
  obtain ⟨e, he, hseq⟩ := (ha.stored a ha').firstSeq_mem
  obtain ⟨f, hf, hseq'⟩ := (ha.stored b hb').firstSeq_mem
  exact hne e he f hf (hseq.trans (heq.trans hseq'.symm))

/-- The references of the batches are different. -/
theorem Archived.refs_nodup (ha : Archived W project run s batches) (hs : Consistent W s) :
    (batches.map (batchRef W project run)).Nodup := by
  refine pairwise_map.mpr ((pairwise_map.mp (ha.firstSeqs_nodup hs)).imp_of_mem ?_)
  intro a b ha' hb' hne heq
  exact hne (payloadRefText_inj W.driver (ha.stored a ha').firstSeq_le
    (ha.stored b hb').firstSeq_le heq)

/-- The object of a batch, as far as the rest of the reader looks at it. -/
def ObjectOf (W : Writer D) (project : ProjectId) (run : RunId) (s : Store D)
    (batch : List (QueueEnvelope D)) (o : ArchiveObject) : Prop :=
  o.version = v2EnvelopeVersion ∧ ∃ raw sections cs span,
    StoredBatch W project run s.keys batch raw sections o.payload cs span

theorem BatchStored.readObject_eq {batch : List (QueueEnvelope D)}
    (h : BatchStored W project run s batch) :
    ∃ o bytes, readObject (s.reader W project run) project run
        ⟨batchRef W project run batch, putRef W.driver project run (firstSeq batch),
          firstSeq batch⟩ = .ok o ∧
      keyedObject o = .ok (o, bytes) ∧ ObjectOf W project run s batch o := by
  obtain ⟨raw, hraw, sections, payload, cs, span, hstored⟩ := h.held
  obtain ⟨e, rest, rfl⟩ := exists_cons_of_ne_nil h.nonempty
  have hencode := utf8Encode_of_isAscii (payloadRefText_isAscii W.driver project run h.firstSeq_le)
  exact ⟨_, _, hstored.readObject_eq h.sorted hraw _,
    bind_ok (lift_eq_ok.mpr (orRaise_eq_ok.mpr hencode)) rfl,
    rfl, raw, sections, cs, span, hstored⟩

variable {n : ℕ} {bs : List (List (QueueEnvelope D))} {os : List ArchiveObject}
  {decoded : Decoded D} {envs : List (QueueEnvelope D)} {e : QueueEnvelope D}
  {row : TraceIndexRow D} {st : RunEndStatus}

/-- **The references of the row lead to the batches**, in the order of their objects. -/
theorem readObjects_eq (ha : Archived W project run s batches) (hs : Consistent W s)
    (hn : ∀ e ∈ s.archive, e.seq ≤ n) :
    ∃ objects bs, readObjects (s.reader W project run) project run
        (batches.map (batchRef W project run)) n = .ok objects ∧
      bs.Perm batches ∧
      List.Forall₂ (ObjectOf W project run s) bs (objects.map Prod.fst) := by
  have hfirst : ∀ b ∈ batches, firstSeq b ≤ n := by
    intro b hb
    obtain ⟨e, he, hseq⟩ := (ha.stored b hb).firstSeq_mem
    exact hseq ▸ hn e (ha.archive_eq ▸ mem_flatten.mpr ⟨b, hb, he⟩)
  have hcount : (batches.map (batchRef W project run)).length ≤ n + 1 := by
    have hsub : batches.map firstSeq ⊆ range (n + 1) := by
      intro k hk
      obtain ⟨b, hb, rfl⟩ := mem_map.mp hk
      exact mem_range.mpr (Nat.lt_succ_of_le (hfirst b hb))
    have hle := (subperm_of_subset (ha.firstSeqs_nodup hs) hsub).length_le
    rw [length_map, length_range] at hle
    rwa [length_map]
  obtain ⟨keyed, hkeyed⟩ : ∃ keyed, List.Forall₂ (fun b (k : ArchiveObject × Bytes) =>
      readObject (s.reader W project run) project run ⟨batchRef W project run b,
        putRef W.driver project run (firstSeq b), firstSeq b⟩ = .ok k.1 ∧
      keyedObject k.1 = .ok k ∧ ObjectOf W project run s b k.1) batches keyed := by
    refine exists_forall₂ fun b hb => ?_
    obtain ⟨o, bytes, hobject, hbytes, hof⟩ := (ha.stored b hb).readObject_eq
    exact ⟨(o, bytes), hobject, hbytes, hof⟩
  obtain ⟨bs, hbs, hperm⟩ := perm_comp_forall₂
    (perm_insertionSort (fun a b => objectLe a b = true) keyed) hkeyed.flip
  refine ⟨_, bs, ?_, hperm, forall₂_map_right_iff.mpr (hbs.flip.imp fun _ _ h => h.2.2)⟩
  refine guard_ok (by simpa using hcount) ?_
  refine bind_eq_ok.mpr ⟨batches.map fun b => ⟨batchRef W project run b,
    putRef W.driver project run (firstSeq b), firstSeq b⟩, ?_, ?_⟩
  · rw [mapM_eq_ok, forall₂_map_left_iff, forall₂_map_right_iff, forall₂_same]
    exact fun b hb => validateRef_payloadRefText W.driver (ha.stored b hb).firstSeq_le (hfirst b hb)
  refine bind_eq_ok.mpr ⟨keyed.map Prod.fst, ?_, ?_⟩
  · rw [mapM_eq_ok, forall₂_map_left_iff, forall₂_map_right_iff]
    exact hkeyed.imp fun _ _ h => h.1
  refine bind_eq_ok.mpr ⟨keyed, ?_, rfl⟩
  rw [mapM_eq_ok, forall₂_map_left_iff, forall₂_same]
  intro k hk
  obtain ⟨b, -, hb⟩ := forall₂_mem hkeyed.flip k hk
  exact hb.2.1

theorem subjectKeyBindings_eq (h : List.Forall₂ (ObjectOf W project run s) bs os) :
    ∃ bindings, subjectKeyBindings W.prims project os = .ok bindings := by
  have hstep : ∀ known, ∀ o ∈ os, KeyedBy s.keys known →
      ∃ known', o.payload.sections.foldlM (sectionIdentities W.prims project o.version) known =
        .ok known' ∧ KeyedBy s.keys known' := by
    intro known o ho hknown
    obtain ⟨b, -, hversion, raw, sections, cs, span, hstored⟩ := forall₂_mem h.flip o ho
    rw [hversion]
    exact hstored.addsIdentities hknown
  have hnone : KeyedBy s.keys [] := nofun
  obtain ⟨known, hfold, -⟩ := foldlM_invariant hnone hstep
  exact ⟨_, bind_ok hfold rfl⟩

theorem observedVersions_eq (h : List.Forall₂ (ObjectOf W project run s) bs os) (hne : bs ≠ []) :
    ((os.map fun o => o.version).dedup.insertionSort fun a b => a ≤ b) = [v2EnvelopeVersion] := by
  have hall : os.map (fun o => o.version) = replicate os.length v2EnvelopeVersion := by
    rw [eq_replicate_iff, length_map]
    refine ⟨rfl, fun v hv => ?_⟩
    obtain ⟨o, ho, rfl⟩ := mem_map.mp hv
    obtain ⟨b, -, hversion, -⟩ := forall₂_mem h.flip o ho
    exact hversion
  have hlen : os.length ≠ 0 := by
    rw [← h.length_eq]
    exact fun hzero => hne (length_eq_zero_iff.mp hzero)
  rw [hall, replicate_dedup hlen]
  rfl

/-! ### Events -/

/-- **The objects decrypt to the events of their batches.** -/
theorem readDecrypted_all (hP : W.prims.Lawful) (hX : W.pydantic.Faithful)
    (h : List.Forall₂ (ObjectOf W project run s) bs os)
    (hread : ∀ e ∈ bs.flatten, PayloadReadable e)
    (hsorted : ∀ b ∈ bs, b.Pairwise fun a b => a.seq < b.seq)
    (hdistinct : bs.flatten.Pairwise fun a b => a.seq ≠ b.seq)
    (hfresh : ∀ e ∈ bs.flatten, ∀ d ∈ decoded, d.1 ≠ e.seq) :
    ∃ new, os.foldlM (readDecrypted (s.reader W project run) project) (decoded, false) =
        .ok (decoded ++ new, false) ∧ List.Forall₂ Decodes bs.flatten new := by
  induction h generalizing decoded with
  | nil => exact ⟨[], by rw [append_nil]; rfl, .nil⟩
  | @cons b o bs os hof _ ih =>
    obtain ⟨-, hrest, hcross⟩ := pairwise_append.mp hdistinct
    obtain ⟨-, raw, sections, cs, span, hstored⟩ := hof
    obtain ⟨new, hnew, hdecodes⟩ := hstored.readDecrypted_eq hP hX
      (fun e he => hread e (mem_append_left _ he)) (hsorted b mem_cons_self) rfl
      (fun e he => hfresh e (mem_append_left _ he))
    have hfresh' : ∀ e ∈ bs.flatten, ∀ d ∈ decoded ++ new, d.1 ≠ e.seq := by
      intro e he d hd
      rcases mem_append.mp hd with hd | hd
      · exact hfresh e (mem_append_right _ he) d hd
      · obtain ⟨a, ha, hda⟩ := forall₂_mem hdecodes.flip d hd
        rw [hda.1]
        exact hcross a ha e he
    obtain ⟨new', hnew', hdecodes'⟩ := ih (fun e he => hread e (mem_append_right _ he))
      (forall_mem_cons.mp hsorted).2 hrest hfresh'
    refine ⟨new ++ new', ?_, rel_append hdecodes hdecodes'⟩
    rw [← append_assoc]
    exact bind_ok hnew hnew'

/-- Whoever decodes all of the run's envelopes finds each sequence number. -/
theorem lookup_of_decodes (h : List.Forall₂ Decodes envs decoded) {k : ℕ}
    (hk : ∃ e ∈ envs, e.seq = k) :
    ∃ event, decoded.lookup k = some event ∧
      ∃ env ∈ envs, env.seq = k ∧ ReadBack env.event event := by
  obtain ⟨e, he, hseq⟩ := hk
  obtain ⟨d, hd, hde⟩ := forall₂_mem h e he
  have hsome : (decoded.lookup k).isSome = true :=
    lookup_isSome_iff.mpr ⟨d, hd, by rw [hde.1, hseq]; exact beq_self_eq_true k⟩
  obtain ⟨event, hevent⟩ := Option.isSome_iff_exists.mp hsome
  obtain ⟨l₁, l₂, hsplit, -⟩ := lookup_eq_some_iff.mp hevent
  have hmem : (k, event) ∈ decoded := by
    rw [hsplit]
    exact mem_append_right _ mem_cons_self
  obtain ⟨env, henv, hdecodes⟩ := forall₂_mem h.flip _ hmem
  exact ⟨event, hevent, env, henv, hdecodes.1.symm, hdecodes.2⟩

/-- A run with one end decodes to one `run_end`. -/
theorem runEnds_of_decodes (h : List.Forall₂ Decodes envs decoded) (he : e ∈ envs)
    (hend : isEnd e = true) (hdistinct : envs.Pairwise fun a b => a.seq ≠ b.seq)
    (honly : ∀ a ∈ envs, isEnd a = true → a.seq = e.seq) :
    ∃ d, runEnds decoded = [d] ∧ Decodes e d := by
  have hpairs : List.Forall₂ Decodes (envs.filter isEnd) (runEnds decoded) :=
    rel_filter (fun a d had => by simp [isEnd, had.2.type_eq]) h
  have hmem := mem_filter.mpr ⟨he, hend⟩
  have hends : ∀ a ∈ envs.filter isEnd, a.seq = e.seq := fun a ha =>
    honly a (mem_filter.mp ha).1 (mem_filter.mp ha).2
  replace hdistinct := hdistinct.filter isEnd
  generalize envs.filter isEnd = ends at hpairs hmem hends hdistinct
  generalize runEnds decoded = found at hpairs
  -- two ends would have one number
  rcases hpairs with _ | ⟨hd, _ | ⟨-, -⟩⟩
  · cases hmem
  · exact ⟨_, rfl, mem_singleton.mp hmem ▸ hd⟩
  · have hne := (pairwise_cons.mp hdistinct).1 _ mem_cons_self
    exact absurd ((hends _ mem_cons_self).trans (hends _ (by simp)).symm) hne

/-- Reading the members of a list one by one. -/
theorem forall₂_filterMap {α β : Type} {R : α → β → Prop} {f : α → Option β} {l : List α}
    (h : ∀ a ∈ l, ∃ b, f a = some b ∧ R a b) : List.Forall₂ R l (l.filterMap f) := by
  induction l with
  | nil => exact .nil
  | cons a l ih =>
    obtain ⟨b, hb, hab⟩ := h a mem_cons_self
    rw [filterMap_cons, hb]
    exact .cons hab (ih (forall_mem_cons.mp h).2)

/-! ### The whole archive -/

/-- What a terminal row of a consistent state stands for. -/
structure TerminalRun (s : Store D) (row : TraceIndexRow D) (n : ℕ) (st : RunEndStatus)
    (e : QueueEnvelope D) : Prop where
  row_eq : s.row = some row
  sentinel_eq : sentinelOf s.row = some (n, some st)
  seen_iff : ∀ k, k ∈ seenSeqs s.row ↔ k ≤ n
  end_mem : e ∈ s.archive
  isEnd_eq : isEnd e = true
  seq_eq : e.seq = n
  status_eq : endStatus e = some st
  only : ∀ a ∈ s.archive, isEnd a = true → a.seq = e.seq
  ended : row.endedAt = some e.event.ts
  outcome : row.outcomeStatus = TraceOutcomeStatus.ofEnd st

theorem Consistent.terminalRun (hs : Consistent W s) (hterm : terminalRow s.row = true) :
    ∃ row n st e, TerminalRun s row n st e := by
  obtain ⟨n, st, hsent, hseen⟩ := hs.complete.terminal_iff.mp hterm
  have hrec := hs.sentinel
  rw [SentinelRecorded, hsent] at hrec
  obtain ⟨-, honly, e, he, hend, hseq, hstatus, hended⟩ := hrec
  cases hrow : s.row with
  | none =>
    rw [hrow] at hterm
    cases hterm
  | some row =>
    have hterm' : row.outcomeStatus.isTerminal = true := by
      rw [hrow] at hterm
      exact hterm
    obtain ⟨status, hst, hout⟩ := hs.complete.status_eq row n _ hrow hterm' hsent
    cases hst
    rw [hrow] at hended
    exact ⟨row, n, st, e, hrow, hsent, hseen, he, hend, hseq, hstatus,
      fun a ha hae => (honly a ha hae).trans hseq.symm, hended, hout⟩

theorem TerminalRun.strictIndexPath_eq (ht : TerminalRun s row n st e) (hs : Consistent W s)
    (ha : Archived W project run s batches) (hne : batches ≠ []) :
    strictIndexPath row = .ok (n, st, batches.map (batchRef W project run)) := by
  have hrow := ha.row_eq row ht.row_eq
  obtain ⟨path, hpath⟩ := Option.isSome_iff_exists.mp hrow.path_some
  have hexisting : existingPath s.row = path := by
    rw [ht.row_eq, existingPath, Option.bind_some, hpath]
    rfl
  have hsent := ht.sentinel_eq
  rw [sentinelOf, hexisting] at hsent
  obtain ⟨m, hm, hpair⟩ := Option.map_eq_some_iff.mp hsent
  obtain ⟨rfl, hstatus⟩ := Prod.mk.inj hpair
  have hmax : m ≤ maxTraceSeq := ht.seq_eq ▸ e.seq_le
  have hranges : Dict.get path pathSeqRanges = .arr [.arr [.int 0, .int m]] := by
    have hget := hrow.ranges_eq
    rw [← ht.row_eq, hexisting, toPath, RangeSet.ranges_of_initial ht.seen_iff] at hget
    exact hget
  have hrefs : Dict.get path pathPayloadRefs =
      .arr (batches.map fun b => Json.str (batchRef W project run b)) := by
    have hprior := ha.refs_eq
    rw [hexisting, priorRefs] at hprior
    cases hget : Dict.get path pathPayloadRefs with
    | arr refs =>
      rw [hget] at hprior
      exact congrArg Json.arr hprior
    | null | bool | int | float | str | obj =>
      rw [hget] at hprior
      exact absurd (map_eq_nil_iff.mp hprior.symm) hne
  have hmapM : ∀ bs : List (List (QueueEnvelope D)),
      (bs.map fun b => Json.str (batchRef W project run b)).mapM nonblankText =
        some (bs.map (batchRef W project run)) := by
    intro bs
    induction bs with
    | nil => rfl
    | cons b bs ih =>
      rw [map_cons, mapM_cons, ih, batchRef, nonblankText_payloadRefText]
      rfl
  refine bind_ok (orDead_eq_ok.mpr hpath) ?_
  refine bind_ok (orDead_eq_ok.mpr hm) ?_
  refine bind_ok (orDead_eq_ok.mpr hstatus) ?_
  rw [hranges, hrefs]
  refine guard_ok (by simpa [strictRange] using hmax) ?_
  refine bind_eq_ok.mpr ⟨batches.map (batchRef W project run), ?_, ?_⟩
  · exact guard_ok (by simpa using hne) (orDead_eq_ok.mpr (hmapM batches))
  · exact bind_eq_ok.mpr ⟨(), by simp [ha.refs_nodup hs, hrow.payloadRef_eq], rfl⟩

theorem TerminalRun.checks [DecidableEq D] (ht : TerminalRun s row n st e) (hs : Consistent W s)
    (hread : ∀ e ∈ s.archive, PayloadReadable e) (hperm : envs.Perm s.archive)
    (h : List.Forall₂ Decodes envs decoded) :
    coversRange decoded n = true ∧ checkRunEnd row n st decoded = .ok () ∧
      List.Forall₂ (fun k event => ∃ env ∈ s.archive, env.seq = k ∧ ReadBack env.event event)
        (range (n + 1)) ((range (n + 1)).filterMap fun k => decoded.lookup k) := by
  have hmem : ∀ a, a ∈ envs ↔ a ∈ s.archive := fun a => hperm.mem_iff
  have hfound : ∀ k ∈ range (n + 1), ∃ a ∈ envs, a.seq = k := by
    intro k hk
    obtain ⟨a, ha, hseq⟩ := (hs.recorded k).mp
      ((ht.seen_iff k).mpr (Nat.le_of_lt_succ (mem_range.mp hk)))
    exact ⟨a, (hmem a).mpr ha, hseq⟩
  refine ⟨?_, ?_, forall₂_filterMap fun k hk => ?_⟩
  · rw [coversRange, and_eq_true, all_eq_true, all_eq_true]
    constructor
    · intro d hd
      obtain ⟨a, ha, had⟩ := forall₂_mem h.flip d hd
      have hle := (ht.seen_iff a.seq).mp ((hs.recorded _).mpr ⟨a, (hmem a).mp ha, rfl⟩)
      rw [had.1]
      exact decide_eq_true hle
    · intro k hk
      obtain ⟨a, ha, hseq⟩ := hfound k hk
      obtain ⟨d, hd, hda⟩ := forall₂_mem h a ha
      exact any_eq_true.mpr ⟨d, hd, decide_eq_true (hda.1.trans hseq)⟩
  · have hdistinct : envs.Pairwise fun a b => a.seq ≠ b.seq :=
      (hperm.pairwise_iff fun hne => Ne.symm hne).mpr hs.distinct
    obtain ⟨⟨seq, event⟩, hends, hseq, hback⟩ := runEnds_of_decodes h ((hmem e).mpr ht.end_mem)
      ht.isEnd_eq hdistinct fun a ha hae => ht.only a ((hmem a).mp ha) hae
    have htype : e.event.type = .runEnd := of_decide_eq_true ht.isEnd_eq
    have hparsed : parseEndStatus (Dict.get event.payload (str "status")) = some st := by
      rw [Dict.get, hback.payload, find_validated_ordered (hread e ht.end_mem).1 e.event.payload_ok
        (by rw [htype]; rfl)]
      exact ht.status_eq
    rw [checkRunEnd, hends]
    refine guard_ok ?_ (guard_ok ?_ ?_)
    · rw [hback.type_eq, htype, show seq = n from hseq.trans ht.seq_eq]
      simp
    · rw [hparsed]
      simp
    · rw [hback.ts_eq, ht.ended, ht.outcome]
      simp
  · obtain ⟨event, hevent, env, henv, hseq, hback⟩ := lookup_of_decodes h (hfound k hk)
    exact ⟨event, hevent, env, (hmem env).mp henv, hseq, hback⟩

/-- Envelopes for each sequence number of the run are all of its envelopes. -/
theorem recorded_perm (hs : Consistent W s) (hseen : ∀ k, k ∈ seenSeqs s.row ↔ k ≤ n)
    {events : List (TraceEvent D)}
    (h : List.Forall₂ (fun k event => ∃ env ∈ s.archive, env.seq = k ∧ ReadBack env.event event)
      (range (n + 1)) events) :
    ∃ recorded, recorded.Perm s.archive ∧
      recorded.map QueueEnvelope.seq = range (n + 1) ∧
      List.Forall₂ (fun env event => ReadBack env.event event) recorded events := by
  obtain ⟨recorded, hmem, hseqs, hall⟩ : ∃ recorded, (∀ e ∈ recorded, e ∈ s.archive) ∧
      recorded.map QueueEnvelope.seq = range (n + 1) ∧
      List.Forall₂ (fun env event => ReadBack env.event event) recorded events := by
    generalize range (n + 1) = seqs at h
    induction h with
    | nil => exact ⟨[], nofun, rfl, .nil⟩
    | cons hk _ ih =>
      obtain ⟨env, henv, hseq, hback⟩ := hk
      obtain ⟨recorded, hmem, hseqs, hall⟩ := ih
      refine ⟨env :: recorded, forall_mem_cons.mpr ⟨henv, hmem⟩, ?_, .cons hback hall⟩
      rw [map_cons, hseq, hseqs]
  refine ⟨recorded, ?_, hseqs, hall⟩
  have hnodup : recorded.Nodup := List.Nodup.of_map QueueEnvelope.seq (hseqs ▸ nodup_range)
  have hnodup' : s.archive.Nodup := hs.distinct.imp fun hne heq => hne (congrArg _ heq)
  refine (perm_ext_iff_of_nodup hnodup hnodup').mpr fun a => ⟨hmem a, fun ha => ?_⟩
  have hle := (hseen a.seq).mp ((hs.recorded _).mpr ⟨a, ha, rfl⟩)
  have hin : a.seq ∈ recorded.map QueueEnvelope.seq := by
    rw [hseqs]
    exact mem_range.mpr (Nat.lt_succ_of_le hle)
  obtain ⟨b, hb, hseq⟩ := mem_map.mp hin
  have hseqs' : (s.archive.map QueueEnvelope.seq).Nodup := pairwise_map.mpr hs.distinct
  exact inj_on_of_nodup_map hseqs' (hmem b hb) ha hseq ▸ hb

/-- **Reading a terminal run.** -/
theorem Archived.readComplete_eq [DecidableEq D] (hP : W.prims.Lawful) (hX : W.pydantic.Faithful)
    (hs : Consistent W s) (ha : Archived W project run s batches)
    (hread : ∀ e ∈ s.archive, PayloadReadable e) (ht : TerminalRun s row n st e) :
    ∃ trace, trace.index = row ∧
      List.Forall₂ (fun k event => ∃ env ∈ s.archive, env.seq = k ∧ ReadBack env.event event)
        (range (n + 1)) trace.events ∧
      ∀ digest ended, (digest = none ∨ digest = some trace.traceDigest) →
        (ended = none ∨ ended = row.endedAt) →
        readComplete (s.reader W project run) project run digest ended = .ok trace := by
  have hne : batches ≠ [] := by
    rintro rfl
    have hmem := ht.end_mem
    rw [ha.archive_eq] at hmem
    cases hmem
  have hle : ∀ a ∈ s.archive, a.seq ≤ n := fun a ha' =>
    (ht.seen_iff a.seq).mp ((hs.recorded _).mpr ⟨a, ha', rfl⟩)
  obtain ⟨objects, bs, hobjects, hperm, hof⟩ := readObjects_eq ha hs hle
  obtain ⟨bindings, hbindings⟩ := subjectKeyBindings_eq hof
  have hflat : bs.flatten.Perm s.archive := ha.archive_eq ▸ hperm.flatten
  have hbs : bs ≠ [] := fun hnil => hne (perm_nil.mp (hnil ▸ hperm).symm)
  have hfresh : ∀ e ∈ bs.flatten, ∀ d ∈ ([] : Decoded D), d.1 ≠ e.seq := nofun
  obtain ⟨decoded, hdecoded, hdecodes⟩ := readDecrypted_all hP hX hof
    (fun e he => hread e (hflat.mem_iff.mp he))
    (fun b hb => (ha.stored b (hperm.mem_iff.mp hb)).sorted)
    ((hflat.pairwise_iff fun hne => Ne.symm hne).mpr hs.distinct) hfresh
  obtain ⟨hcovers, hend, hevents⟩ := ht.checks hs hread hflat hdecodes
  have hrow := ha.row_eq row ht.row_eq
  refine ⟨⟨row, _, ciphertextDigest W.prims project run objects, bindings⟩, rfl, hevents, ?_⟩
  intro digest ended hdigest hended
  have hlen : (digest.all fun d : Bytes => d.length = 32) = true := by
    rcases hdigest with rfl | rfl
    · rfl
    · exact decide_eq_true (hP.sha256_length _)
  have hindex : checkIndex row project run ended = .ok () := by
    refine guard_ok (by simp [hrow.project_eq, hrow.run_eq]) ?_
    refine guard_ok (by simp [ht.outcome, ht.ended]) ?_
    rcases hended with rfl | rfl
    · rfl
    · simp
  have hmatch : checkDigest digest (ciphertextDigest W.prims project run objects) = .ok () := by
    rw [checkDigest]
    rcases hdigest with rfl | rfl
    · rfl
    · simp
  have hversions : row.envelopeVersions =
      ((objects.map fun o => o.1.version).dedup.insertionSort fun a b => a ≤ b) := by
    have := observedVersions_eq hof hbs
    rw [map_map] at this
    rw [hrow.versions_eq]
    exact this.symm
  have hreader : readIndex (s.reader W project run) project run = .ok row := by
    rw [readIndex, Store.reader]
    dsimp only
    rw [if_pos ⟨rfl, rfl⟩, ht.row_eq]
    rfl
  rw [readComplete, mapError_eq_ok]
  refine guard_ok (check_eq_ok.mpr hlen) ?_
  refine bind_eq_ok.mpr ⟨row, hreader, guard_ok hindex ?_⟩
  refine bind_ok (ht.strictIndexPath_eq hs ha hne) ?_
  refine bind_ok hobjects ?_
  refine bind_ok hbindings ?_
  refine guard_ok (by rw [hversions]; simp) ?_
  refine bind_ok hmatch ?_
  refine bind_eq_ok.mpr ⟨_, hdecoded, ?_⟩
  refine guard_ok (check_eq_ok.mpr hcovers) ?_
  exact guard_ok hend rfl

end Reading

/-- **Writer and reader agree.** After any run that destroyed no key and left a terminal row,
the archive reader succeeds on that row, whether or not the caller expects its digest and its
end time. What it returns are the recorded events of the sequence numbers `0, …, end_seq` in
order, each read back as it was recorded. -/
theorem readComplete_agrees [DecidableEq D] (W : Writer D) (hP : W.prims.Lawful)
    (hX : W.pydantic.Faithful) (project : ProjectId) (run : RunId) (keys : KeyTable D)
    (objects : ℕ → Option Bytes) (steps : List (RunStep D))
    (hkept : KeysKept W project run (Store.fresh keys objects) steps)
    (hread : ∀ e ∈ (Runs.exec (runStep W project run) (Store.fresh keys objects) steps).archive,
      PayloadReadable e)
    (hterm : terminalRow
      (Runs.exec (runStep W project run) (Store.fresh keys objects) steps).row = true) :
    ∃ row n st recorded trace,
      (Runs.exec (runStep W project run) (Store.fresh keys objects) steps).row = some row ∧
      sentinelOf (some row) = some (n, some st) ∧
      (recorded : List (QueueEnvelope D)).Perm
        (Runs.exec (runStep W project run) (Store.fresh keys objects) steps).archive ∧
      recorded.map QueueEnvelope.seq = range (n + 1) ∧
      trace.index = row ∧
      List.Forall₂ (fun env event => ReadBack env.event event) recorded trace.events ∧
      ∀ digest ended, (digest = none ∨ digest = some trace.traceDigest) →
        (ended = none ∨ ended = row.endedAt) →
        readComplete ((Runs.exec (runStep W project run) (Store.fresh keys objects) steps).reader
          W project run) project run digest ended = .ok trace := by
  have hs := exec_consistent W project run keys objects steps
  obtain ⟨batches, ha⟩ := exec_archived hP project run keys objects hkept
  obtain ⟨row, n, st, e, ht⟩ := hs.terminalRun hterm
  obtain ⟨trace, hindex, hevents, hcomplete⟩ := ha.readComplete_eq hP hX hs hread ht
  obtain ⟨recorded, hperm, hseqs, hall⟩ := recorded_perm hs ht.seen_iff hevents
  refine ⟨row, n, st, recorded, trace, ht.row_eq, ?_, hperm, hseqs, hindex, hall, hcomplete⟩
  rw [← ht.row_eq]
  exact ht.sentinel_eq

/-! ### A run out of order -/

/-- Timestamps kept as text read back. -/
theorem stampPydantic_faithful : stampPydantic.Faithful := fun d => dif_pos d.2

/-- The end arrives first; the event before it is rolled back once and then committed. -/
def lateStartRun : List (RunStep Stamp) :=
  [.deliver [stdDelivery 1 1 one_le_maxTraceSeq runEndEvent] (noFaults 0),
    .deliver [stdDelivery 2 0 (by decide) toolCallEvent]
      { noFaults 3 with commit := some (false, .operationalError) },
    .sweep,
    .deliver [stdDelivery 2 0 (by decide) toolCallEvent] (noFaults 7)]

/-- A payload of at most one text. -/
def isSmall : Dict → Bool
  | [] | [(_, .str _)] => true
  | _ => false

theorem payloadReadable_of_isSmall {env : QueueEnvelope D}
    (h : isSmall env.event.payload = true) : PayloadReadable env := by
  have hplain : ∀ t : PyStr, Json.Plain canonicalOptions.ensureAscii t :=
    nofun
  rw [PayloadReadable]
  unfold isSmall at h
  split at h
  · next hpayload =>
    rw [hpayload]
    exact ⟨nodup_nil, trivial⟩
  · next k t hpayload =>
    rw [hpayload]
    exact ⟨nodup_singleton _, hplain k, hplain t, trivial⟩
  · cases h

/-- The two events of the run are read back. -/
theorem readComplete_agrees_sample :
    ∃ trace, readComplete ((Runs.exec (runStep stdWriter stdProject stdRun)
        (Store.fresh [] fun _ => none) lateStartRun).reader stdWriter stdProject stdRun)
        stdProject stdRun none none = .ok trace ∧ trace.events.length = 2 := by
  have hfacts : (terminalRow (Runs.exec (runStep stdWriter stdProject stdRun)
        (Store.fresh [] fun _ => none) lateStartRun).row &&
      ((Runs.exec (runStep stdWriter stdProject stdRun) (Store.fresh [] fun _ => none)
        lateStartRun).archive.all fun e => isSmall e.event.payload) &&
      decide (sentinelOf (Runs.exec (runStep stdWriter stdProject stdRun)
        (Store.fresh [] fun _ => none) lateStartRun).row = some (1, some .ok))) = true := by
    decide +kernel
  rw [and_eq_true, and_eq_true, all_eq_true, decide_eq_true_eq] at hfacts
  obtain ⟨⟨hterm, hsmall⟩, hsent⟩ := hfacts
  have hkept : KeysKept stdWriter stdProject stdRun (Store.fresh [] fun _ => none)
      lateStartRun := by
    intro earlier keys later heq
    have hmem : RunStep.otherRuns keys ∈ lateStartRun := by
      rw [heq]
      exact mem_append_right _ mem_cons_self
    simp [lateStartRun] at hmem
  obtain ⟨row, n, st, recorded, trace, hrow, hrowsent, -, hseqs, -, hall, hcomplete⟩ :=
    readComplete_agrees stdWriter standardPrimitives_lawful stampPydantic_faithful stdProject
      stdRun [] (fun _ => none) lateStartRun hkept
      (fun e he => payloadReadable_of_isSmall (hsmall e he)) hterm
  refine ⟨trace, hcomplete none none (.inl rfl) (.inl rfl), ?_⟩
  rw [hrow, hrowsent] at hsent
  obtain ⟨rfl, -⟩ := Prod.mk.inj (Option.some.inj hsent)
  have hlen := congrArg length hseqs
  rw [length_map, hall.length_eq] at hlen
  exact hlen

end Tracebed
