import Tracebed.TraceWriter

/-!
# What One Transaction Can Do

The inversion of `processGroup`: a transaction either leaves the run's database state alone
or writes one batch, and `Batch.Writes` says everything about a batch that was written
(`processGroup_outcome`). No later proof unfolds the writer. The two deduplication rules of the
writer get one lemma each: `admits_spec` for the admission filter and `newEnvs_spec` for the
first-wins, already-seen filter.
-/

open Py Fallible List Option Bool Except Prod

namespace Tracebed

variable {D : Type}

/-! ### New envelopes -/

/-- One envelope of each sequence number of the batch, in batch order. -/
theorem firstPerSeq_spec (envs : List (QueueEnvelope D)) :
    (∀ e ∈ firstPerSeq envs, e ∈ envs) ∧
      (firstPerSeq envs).Pairwise (fun a b => a.seq ≠ b.seq) ∧
      ∀ e ∈ envs, ∃ f ∈ firstPerSeq envs, f.seq = e.seq := by
  induction envs with
  | nil => exact ⟨by simp [firstPerSeq], List.Pairwise.nil, by simp⟩
  | cons e envs ih =>
    obtain ⟨hsub, hdistinct, hcover⟩ := ih
    refine ⟨?_, ?_, ?_⟩
    · refine forall_mem_cons.mpr ⟨mem_cons_self, fun f hf => ?_⟩
      exact mem_cons_of_mem _ (hsub f (mem_filter.mp hf).1)
    · refine pairwise_cons.mpr ⟨fun f hf => ?_, hdistinct.filter _⟩
      have hne : f.seq ≠ e.seq := by simpa using (mem_filter.mp hf).2
      exact hne.symm
    · intro f hf
      rcases mem_cons.mp hf with rfl | hf
      · exact ⟨f, mem_cons_self, rfl⟩
      · obtain ⟨g, hg, hseq⟩ := hcover f hf
        by_cases hge : g.seq = e.seq
        · exact ⟨e, mem_cons_self, hge.symm.trans hseq⟩
        · exact ⟨g, mem_cons_of_mem _ (mem_filter.mpr ⟨hg, by simpa using hge⟩), hseq⟩

instance seqTotal : Std.Total fun a b : QueueEnvelope D => a.seq ≤ b.seq :=
  ⟨fun a b => Nat.le_total a.seq b.seq⟩

instance seqTrans : IsTrans (QueueEnvelope D) fun a b => a.seq ≤ b.seq :=
  ⟨fun _ _ _ => Nat.le_trans⟩

/-- **New envelopes** come from the batch, are not recorded yet and strictly increase;
every sequence number of the batch is recorded already or new. -/
theorem newEnvs_spec (existing : Option (TraceIndexRow D)) (envs : List (QueueEnvelope D)) :
    (∀ e ∈ newEnvs existing envs, e ∈ envs ∧ e.seq ∉ seenSeqs existing) ∧
      (newEnvs existing envs).Pairwise (fun a b => a.seq < b.seq) ∧
      ∀ e ∈ envs, e.seq ∈ seenSeqs existing ∨ ∃ f ∈ newEnvs existing envs, f.seq = e.seq := by
  obtain ⟨hsub, hdistinct, hcover⟩ := firstPerSeq_spec envs
  have hperm := perm_insertionSort (fun a b : QueueEnvelope D => a.seq ≤ b.seq) (firstPerSeq envs)
  have hseen : ∀ e : QueueEnvelope D, (!(seenSeqs existing).contains e.seq) = true ↔
      e.seq ∉ seenSeqs existing := by
    intro e
    rw [not_eq_true', ← not_eq_true, RangeSet.contains_iff]
  refine ⟨?_, ?_, ?_⟩
  · intro e he
    obtain ⟨hmem, hnew⟩ := mem_filter.mp he
    exact ⟨hsub e (hperm.mem_iff.mp hmem), (hseen e).mp hnew⟩
  · have hsorted := pairwise_insertionSort (fun a b : QueueEnvelope D => a.seq ≤ b.seq)
      (firstPerSeq envs)
    have hne := (hperm.pairwise_iff fun {a b} (h : a.seq ≠ b.seq) => h.symm).mpr hdistinct
    refine List.Pairwise.filter _ (hsorted.imp₂ ?_ hne)
    exact fun a b hle hne => lt_of_le_of_ne hle hne
  · intro e he
    obtain ⟨f, hf, hseq⟩ := hcover e he
    by_cases hin : e.seq ∈ seenSeqs existing
    · exact .inl hin
    · exact .inr ⟨f, mem_filter.mpr ⟨hperm.mem_iff.mpr hf, (hseen f).mpr (by rwa [hseq])⟩, hseq⟩

/-! ### The recorded sentinel -/

/-- The sentinel a row records: its sequence number and status. -/
def sentinelOf (row : Option (TraceIndexRow D)) : Option (ℕ × Option RunEndStatus) :=
  (parseSeq (Dict.get (existingPath row) pathEndSeq)).map fun n =>
    (n, parseEndStatus (Dict.get (existingPath row) pathEndStatus))

/-! ### Admission -/

/-- What an arriving `run_end` closes off: nothing recorded exceeds it, and the batch keeps
only lower sequence numbers and the `run_end` itself. -/
structure Closes (seen : RangeSet) (last : QueueEnvelope D)
    (admits : QueueEnvelope D → Bool) (envs : List (QueueEnvelope D)) : Prop where
  last_isEnd : isEnd last = true
  none_above : ∀ n ∈ seen, n ≤ last.seq
  keeps : ∀ e, admits e = true → e.seq < last.seq ∨ e.seq = last.seq ∧ isEnd e = true
  same : ∀ e ∈ envs, isEnd e = true → e.seq = last.seq ∧ endStatus e = endStatus last

/-- A list whose distinct values are at most one has equal elements. -/
theorem eq_of_dedup_length_le_one {α : Type*} [DecidableEq α] {l : List α}
    (h : l.dedup.length ≤ 1) {a b : α} (ha : a ∈ l) (hb : b ∈ l) : a = b := by
  have ha' := mem_dedup.mpr ha
  have hb' := mem_dedup.mpr hb
  match hd : l.dedup, h with
  | [], _ => rw [hd] at ha'; cases ha'
  | [c], _ =>
    rw [hd, mem_singleton] at ha' hb'
    rw [ha', hb']

variable {existing : Option (TraceIndexRow D)}

/-- **Admission.** Behind a recorded sentinel nothing passes but lower sequence numbers and
repetitions of the sentinel. Without one, either no `run_end` of the batch passes, or one
closes the run off. -/
theorem admits_spec {X : Pydantic D} {envs : List (QueueEnvelope D)}
    {admits : QueueEnvelope D → Bool} (h : admitNonterminalEvents X existing envs = .ok admits) :
    match sentinelOf existing with
    | some (n, st) => ∀ e, admits e = true →
        e.seq ≤ n ∧ (isEnd e = true → e.seq = n ∧ endStatus e = st)
    | none => (∀ e ∈ envs, admits e = true → isEnd e = false) ∨
        ∃ last ∈ envs, Closes (seenSeqs existing) last admits envs := by
  rw [admitNonterminalEvents] at h
  rw [sentinelOf]
  cases hend : parseSeq (Dict.get (existingPath existing) pathEndSeq) with
  | some n =>
    simp only [hend, ok.injEq] at h
    subst h
    intro e he
    simp only [not_eq_true', or_eq_false_iff, decide_eq_false_iff_not, and_eq_false_iff] at he
    obtain ⟨hle, hends⟩ := he
    refine ⟨by omega, fun hisEnd => ?_⟩
    rcases hends with hno | ⟨hseq, hst⟩
    · rw [hisEnd] at hno
      cases hno
    · exact ⟨not_not.mp hseq, not_not.mp hst⟩
  | none =>
    simp only [hend] at h
    obtain ⟨identities, hids, h⟩ := bind_eq_ok.mp h
    have hmem : ∀ e ∈ envs, isEnd e = true → e ∈ envs.filter isEnd := fun e he hisEnd =>
      mem_filter.mpr ⟨he, hisEnd⟩
    cases hends : envs.filter isEnd with
    | nil =>
      refine .inl fun e he _ => ?_
      by_contra hisEnd
      have := hmem e he (by simpa using hisEnd)
      rw [hends] at this
      cases this
    | cons last others =>
      have hlast : last ∈ envs.filter isEnd := hends ▸ mem_cons_self
      obtain ⟨hlastMem, hlastEnd⟩ := mem_filter.mp hlast
      rw [hends] at h
      dsimp only at h
      split_ifs at h with hmany habove
      · cases h
        exact .inl fun e _ he => by simpa using he
      · cases h
        refine .inl fun e _ he => ?_
        simp only [and_eq_true, not_eq_true'] at he
        exact he.1
      · cases h
        refine .inr ⟨last, hlastMem, hlastEnd, ?_, ?_, ?_⟩
        · intro n hn
          by_contra hlt
          exact habove (RangeSet.hasAbove_iff.mpr ⟨n, hn, by omega⟩)
        · simp
        · -- one identity for all ends fixes sequence number and status
          intro e he hisEnd
          obtain ⟨i, hi, hei⟩ := mapM_mem hids e (hmem e he hisEnd)
          obtain ⟨j, hj, hlj⟩ := mapM_mem hids last hlast
          obtain rfl := eq_of_dedup_length_le_one (Nat.le_of_not_lt hmany) hi hj
          obtain ⟨c, -, hc⟩ := bind_eq_ok.mp hei
          obtain ⟨d, -, hd⟩ := bind_eq_ok.mp hlj
          have hcd := (ok.inj hc).trans (ok.inj hd).symm
          exact ⟨(mk.inj hcd).1, (mk.inj (mk.inj hcd).2).1⟩

/-! ### Ownership -/

variable {owner : RunOwner} {f : Faults}

/-- **Classification.** Accepted deliveries are the owner's; once a row exists, its columns
name the owner. Every delivery is accepted or refused. -/
theorem classify_spec {pairs accepted refused : List (Delivery D)}
    (h : classify f existing pairs = .ok (owner, accepted, refused)) :
    (∀ d ∈ accepted, d ∈ pairs ∧ ownedBy owner d = true) ∧
      (∀ row, existing = some row → owner = ⟨row.submitterPrincipal, row.agentTypeId⟩) ∧
      (accepted ++ refused).Perm pairs := by
  have hsplit : ∀ o : RunOwner,
      (pairs.filter (ownedBy o) ++ pairs.filter fun d => !ownedBy o d).Perm pairs :=
    fun o => filter_append_perm _ _
  have hfilter : ∀ (o : RunOwner), ∀ d ∈ pairs.filter (ownedBy o),
      d ∈ pairs ∧ ownedBy o d = true := fun o d hd => mem_filter.mp hd
  cases pairs with
  | nil => cases h
  | cons p rest =>
    obtain ⟨env, first⟩ := p
    obtain ⟨-, -, h⟩ := bind_eq_ok.mp h
    obtain ⟨resolved, hres, h⟩ := bind_eq_ok.mp h
    rw [orRaise_eq_ok] at hres
    have hrow : ∀ row, existing = some row →
        resolved = ⟨row.submitterPrincipal, row.agentTypeId⟩ := by
      rintro row rfl
      exact (Option.some.inj hres).symm
    split at h
    · split at h
      · next principal agent _ _ =>
        split at h
        · next hconflict =>
          obtain ⟨rfl, rfl, rfl⟩ : resolved = owner ∧ [] = accepted ∧
              (env, first) :: rest = refused := by
            simpa [pure, Except.pure] using h
          exact ⟨by simp, hrow, List.Perm.refl _⟩
        · next hagree =>
          obtain ⟨rfl, rfl, rfl⟩ := mk.inj (ok.inj h) |>.imp_right mk.inj
          refine ⟨hfilter _, ?_, hsplit _⟩
          rintro row rfl
          have heq : resolved = ⟨principal, agent⟩ := by
            by_contra hne
            exact hagree (by simp [hne])
          rw [← heq, hrow row rfl]
      · cases h
    · obtain ⟨rfl, rfl, rfl⟩ := mk.inj (ok.inj h) |>.imp_right mk.inj
      exact ⟨hfilter _, hrow, hsplit _⟩

/-! ### The inversion -/

/-- The data of a batch that was written. -/
structure Batch (D : Type) where
  owner : RunOwner
  accepted : List (Delivery D)
  admits : QueueEnvelope D → Bool
  faults : Faults
  first : QueueEnvelope D
  rest : List (QueueEnvelope D)
  keys : KeyTable D
  raw : Bytes
  row : TraceIndexRow D
  jobs : List (LearningJob D)

def Batch.new (b : Batch D) : List (QueueEnvelope D) := b.first :: b.rest

/-- **A written batch**: from which state to which, and what each stage of the writer
returned on the way. -/
structure Batch.Writes [DecidableEq D] (b : Batch D) (W : Writer D) (project : ProjectId)
    (run : RunId) (s s' : Store D) : Prop where
  open_row : terminalRow s.row = false
  owned : ∀ d ∈ b.accepted, ownedBy b.owner d = true
  owner_eq : ∀ row, s.row = some row → b.owner = ⟨row.submitterPrincipal, row.agentTypeId⟩
  admitted : admitNonterminalEvents W.pydantic s.row (b.accepted.map fst) = .ok b.admits
  new_eq : newEnvs s.row ((b.accepted.filter fun d => b.admits d.1).map fst) = b.new
  sealed : sealBatch W project run b.faults s.keys b.new = .ok (b.keys, b.raw)
  indexed : indexBatch W project run b.owner b.faults s b.new b.first.seq =
    .ok (b.row, b.jobs)
  state_eq : s' = ⟨some b.row, b.jobs, b.keys, putObject s.objects b.first.seq b.raw,
    s.archive ++ b.new⟩

/-- Everything the database holds about the run is unchanged. -/
def Idle (s s' : Store D) : Prop :=
  s'.row = s.row ∧ s'.jobs = s.jobs ∧ s'.archive = s.archive ∧
    (s'.keys = s.keys ∧ ∀ n, s'.objects n = s.objects n ∨ n ∉ seenSeqs s.row)

variable {project : ProjectId} {W : Writer D} {run : RunId} {s : Store D}

/-- The envelopes `new` come from the accepted deliveries that passed admission. -/
theorem Batch.Writes.mem_new [DecidableEq D] {b : Batch D} {s' : Store D}
    (h : b.Writes W project run s s') {e : QueueEnvelope D} (he : e ∈ b.new) :
    (∃ d ∈ b.accepted, d.1 = e) ∧ b.admits e = true ∧ e.seq ∉ seenSeqs s.row := by
  obtain ⟨hfrom, -, -⟩ := newEnvs_spec s.row
    ((b.accepted.filter fun d => b.admits d.1).map fst)
  obtain ⟨hmem, hseen⟩ := hfrom e (h.new_eq ▸ he)
  obtain ⟨d, hd, rfl⟩ := mem_map.mp hmem
  obtain ⟨hacc, hadm⟩ := mem_filter.mp hd
  exact ⟨⟨d, hacc, rfl⟩, hadm, hseen⟩

theorem putObject_unseen {n : ℕ} (raw : Bytes) (h : n ∉ seenSeqs s.row) (k : ℕ) :
    putObject s.objects n raw k = s.objects k ∨ k ∉ seenSeqs s.row := by
  by_cases hk : k = n
  · exact .inr (hk ▸ h)
  · exact .inl (Function.update_of_ne hk _ _)

/-- **Everything a transaction can do**: the state it leaves and what it returns. -/
inductive GroupOutcome [DecidableEq D] (W : Writer D) (project : ProjectId) (run : RunId)
    (pairs : List (Delivery D)) (f : Faults) (s : Store D) :
    Store D → Except PyError (Verdict D) → Prop
  /-- It raised and was rolled back. -/
  | failed {s' : Store D} {e : PyError} (idle : Idle s s') :
      GroupOutcome W project run pairs f s s' (.error e)
  /-- It was committed, but the reply was lost. -/
  | lost {s' : Store D} {e : PyError} {b : Batch D} (writes : b.Writes W project run s s') :
      GroupOutcome W project run pairs f s s' (.error e)
  /-- The row is terminal: replays are told from late events. -/
  | frozen {owner : RunOwner} {accepted refused : List (Delivery D)}
      (classified : classify f s.row pairs = .ok (owner, accepted, refused))
      (terminal : terminalRow s.row = true) :
      GroupOutcome W project run pairs f s s
        (.ok ⟨[], accepted.filter fun d => (seenSeqs s.row).contains d.1.seq,
          accepted.filter fun d => !(seenSeqs s.row).contains d.1.seq, refused, 0⟩)
  /-- No delivery is the owner's. -/
  | foreign {owner : RunOwner} {refused : List (Delivery D)}
      (classified : classify f s.row pairs = .ok (owner, [], refused))
      (open_row : terminalRow s.row = false) :
      GroupOutcome W project run pairs f s s (.ok ⟨[], [], [], refused, 0⟩)
  /-- Everything admitted is recorded already. -/
  | nothingNew {owner : RunOwner} {accepted refused : List (Delivery D)}
      {admits : QueueEnvelope D → Bool}
      (classified : classify f s.row pairs = .ok (owner, accepted, refused))
      (open_row : terminalRow s.row = false)
      (admitted : admitNonterminalEvents W.pydantic s.row (accepted.map fst) = .ok admits)
      (none_new : newEnvs s.row ((accepted.filter fun d => admits d.1).map fst) = []) :
      GroupOutcome W project run pairs f s s
        (.ok ⟨accepted.filter fun d => admits d.1, [],
          accepted.filter fun d => !admits d.1, refused, 0⟩)
  /-- A batch is written. -/
  | written {s' : Store D} {b : Batch D} {refused : List (Delivery D)}
      (classified : classify f s.row pairs = .ok (b.owner, b.accepted, refused))
      (writes : b.Writes W project run s s') :
      GroupOutcome W project run pairs f s s'
        (.ok ⟨b.accepted.filter fun d => b.admits d.1, [],
          b.accepted.filter fun d => !b.admits d.1, refused, b.new.length⟩)

variable {v : Verdict D}

section Inversion

variable [DecidableEq D] {pairs : List (Delivery D)}

/-- The end of a transaction that changed nothing. -/
theorem GroupOutcome.commitTx (h : GroupOutcome W project run pairs f s s (.ok v)) :
    GroupOutcome W project run pairs f s (commitTx f s s v).1 (commitTx f s s v).2 := by
  have hself : Idle s s := ⟨rfl, rfl, rfl, rfl, fun n => .inl rfl⟩
  rw [Tracebed.commitTx]
  split
  · exact h
  · exact .failed hself
  · exact .failed hself

/-- **The inversion of a transaction.** -/
theorem processGroup_outcome (W : Writer D) (project : ProjectId) (run : RunId)
    (pairs : List (Delivery D)) (f : Faults) (s : Store D) :
    GroupOutcome W project run pairs f s (processGroup W project run pairs f s).1
      (processGroup W project run pairs f s).2 := by
  have hself : Idle s s := ⟨rfl, rfl, rfl, rfl, fun n => .inl rfl⟩
  rw [processGroup]
  split
  · exact .failed hself
  · next owner accepted refused hclass =>
    obtain ⟨-, -, hclass⟩ := bind_eq_ok.mp hclass
    obtain ⟨-, -, hclass⟩ := bind_eq_ok.mp hclass
    obtain ⟨howned, hrow, -⟩ := classify_spec hclass
    split_ifs with hterm hempty
    · exact (GroupOutcome.frozen hclass hterm).commitTx
    · obtain rfl := isEmpty_iff.mp hempty
      exact (GroupOutcome.foreign hclass (by simpa using hterm)).commitTx
    · have hopen : terminalRow s.row = false := by simpa using hterm
      split
      · exact .failed hself
      · next admits hadmits =>
        dsimp only
        have hnew := (newEnvs_spec s.row ((accepted.filter fun d => admits d.1).map fst)).1
        rw [writeBatch]
        cases hfirst : newEnvs s.row ((accepted.filter fun d => admits d.1).map fst) with
        | nil => exact (GroupOutcome.nothingNew hclass hopen hadmits hfirst).commitTx
        | cons first rest =>
          have hunseen : first.seq ∉ seenSeqs s.row := (hnew first (hfirst ▸ mem_cons_self)).2
          dsimp only
          cases hseal : sealBatch W project run f s.keys (first :: rest) with
          | error e => exact .failed hself
          | ok sealed =>
            obtain ⟨keys, raw⟩ := sealed
            have hput : Idle s { s with objects := putObject s.objects first.seq raw } :=
              ⟨rfl, rfl, rfl, rfl, putObject_unseen raw hunseen⟩
            cases hstore : f.put with
            | some fault =>
              obtain ⟨durable, e⟩ := fault
              cases durable with
              | false => exact .failed hself
              | true => exact .failed hput
            | none =>
              cases hindex : indexBatch W project run owner f s (first :: rest)
                  first.seq with
              | error e => exact .failed hput
              | ok indexed =>
                obtain ⟨row, jobs⟩ := indexed
                let b : Batch D := ⟨owner, accepted, admits, f, first, rest, keys, raw, row, jobs⟩
                have hwrites : b.Writes W project run s
                    ⟨some row, jobs, keys, putObject s.objects first.seq raw,
                      s.archive ++ first :: rest⟩ :=
                  ⟨hopen, fun d hd => (howned d hd).2, hrow, hadmits,
                    hfirst, hseal, hindex, rfl⟩
                dsimp only
                rw [Tracebed.commitTx]
                split
                · exact .written (b := b) hclass hwrites
                · exact .failed hput
                · exact .lost hwrites

/-- What a transaction that returned did. -/
theorem outcome_of_ok {W : Writer D} {project : ProjectId} {run : RunId}
    {pairs : List (Delivery D)} {f : Faults} {s : Store D} {v : Verdict D}
    (h : (processGroup W project run pairs f s).2 = .ok v) :
    GroupOutcome W project run pairs f s (processGroup W project run pairs f s).1 (.ok v) :=
  h ▸ processGroup_outcome W project run pairs f s

/-- **A transaction idles or writes a batch.** -/
theorem processGroup_cases (W : Writer D) (project : ProjectId) (run : RunId)
    (pairs : List (Delivery D)) (f : Faults) (s : Store D) :
    Idle s (processGroup W project run pairs f s).1 ∨
      ∃ b : Batch D, b.Writes W project run s (processGroup W project run pairs f s).1 := by
  have h := processGroup_outcome W project run pairs f s
  generalize (processGroup W project run pairs f s).1 = s', (processGroup W project run
    pairs f s).2 = r at h ⊢
  cases h with
  | failed idle => exact .inl idle
  | frozen | foreign | nothingNew => exact .inl ⟨rfl, rfl, rfl, rfl, fun n => .inl rfl⟩
  | lost writes | written _ writes => exact .inr ⟨_, writes⟩

end Inversion

/-! ### The row of a written batch -/

theorem pathKeys_distinct : pathEndSeq ≠ pathSeqRanges ∧ pathEndSeq ≠ pathPayloadRefs ∧
    pathEndStatus ≠ pathSeqRanges ∧ pathEndStatus ≠ pathPayloadRefs ∧
    pathSeqRanges ≠ pathPayloadRefs ∧ pathEndSeq ≠ pathEndStatus := by
  decide

theorem mergedPath_get (W : Writer D) (project : ProjectId) (run : RunId)
    (existing : Option (TraceIndexRow D)) (new : List (QueueEnvelope D)) (firstSeq : ℕ) :
    Dict.get (mergedPath W project run existing new firstSeq) pathEndSeq =
        Dict.get (existingPath existing) pathEndSeq ∧
      Dict.get (mergedPath W project run existing new firstSeq) pathEndStatus =
        Dict.get (existingPath existing) pathEndStatus ∧
      Dict.get (mergedPath W project run existing new firstSeq) pathSeqRanges =
        toPath ((seenSeqs existing).extend (new.map QueueEnvelope.seq)) ∧
      Dict.get (mergedPath W project run existing new firstSeq) pathPayloadRefs =
        .arr (priorRefs (existingPath existing) ++
          [.str (payloadRefText W.driver project run firstSeq)]) := by
  obtain ⟨h1, h2, h3, h4, h5, -⟩ := pathKeys_distinct
  simp [mergedPath, h1, h2, h3, h4, h5]

theorem enterSentinel_get (path : Dict) (e : QueueEnvelope D)
    (hstatus : Dict.get path pathEndStatus = .null) :
    parseSeq (Dict.get (enterSentinel path e) pathEndSeq) = some e.seq ∧
      parseEndStatus (Dict.get (enterSentinel path e) pathEndStatus) = endStatus e := by
  obtain ⟨-, -, -, -, -, h6⟩ := pathKeys_distinct
  have hseq := parseSeq_int e.seq_le
  rw [enterSentinel]
  cases hst : endStatus e with
  | none => simp [hseq, h6.symm, hstatus, parseEndStatus]
  | some st => simp [hseq, h6]

theorem enterSentinel_get_other (path : Dict) (e : QueueEnvelope D) :
    Dict.get (enterSentinel path e) pathSeqRanges = Dict.get path pathSeqRanges ∧
      Dict.get (enterSentinel path e) pathPayloadRefs = Dict.get path pathPayloadRefs := by
  obtain ⟨h1, h2, h3, h4, -, -⟩ := pathKeys_distinct
  rw [enterSentinel]
  cases endStatus e with
  | none => simp [h1.symm, h2.symm]
  | some st => simp [h1.symm, h2.symm, h3.symm, h4.symm]

/-- **Completeness is resolved** from the recorded sentinel, from the sentinel this batch
brings, or not at all. -/
theorem resolveCompleteness_cases (path merged : Dict) (seen : RangeSet)
    (new : List (QueueEnvelope D)) :
    (∃ n, parseSeq (Dict.get path pathEndSeq) = some n ∧
      resolveCompleteness path merged seen new = (merged,
        settledOutcome seen n (parseEndStatus (Dict.get path pathEndStatus)), none)) ∨
    (parseSeq (Dict.get path pathEndSeq) = none ∧ (∀ e ∈ new, isEnd e = false) ∧
      resolveCompleteness path merged seen new = (merged, .pending, none)) ∨
    (parseSeq (Dict.get path pathEndSeq) = none ∧ ∃ e ∈ new, isEnd e = true ∧
      resolveCompleteness path merged seen new = (enterSentinel merged e,
        settledOutcome seen e.seq (endStatus e), some e.event.ts)) := by
  rw [resolveCompleteness]
  cases hend : parseSeq (Dict.get path pathEndSeq) with
  | some n => exact .inl ⟨n, rfl, rfl⟩
  | none =>
    cases hfind : new.find? isEnd with
    | none =>
      refine .inr (.inl ⟨rfl, fun e he => ?_, rfl⟩)
      simpa using find?_eq_none.mp hfind e he
    | some e =>
      exact .inr (.inr ⟨rfl, e, mem_of_find?_eq_some hfind, find?_some hfind, rfl⟩)

variable {new : List (QueueEnvelope D)} {firstSeq : ℕ}

theorem batchRow_spec {row : TraceIndexRow D}
    (h : batchRow W project run owner existing new firstSeq = .ok row) :
    identityColumns W owner existing new = .ok (row.inputSignatureHash, row.startedAt) ∧
      (∃ path, row.path = some path ∧ (path, row.outcomeStatus, row.endedAt) =
        resolveCompleteness (existingPath existing) (mergedPath W project run existing new firstSeq)
          ((seenSeqs existing).extend (new.map QueueEnvelope.seq)) new) ∧
      row.projectId = project ∧ row.runId = run ∧ row.agentTypeId = owner.agentTypeId ∧
      row.submitterPrincipal = owner.principalId ∧
      row.payloadRef = some (payloadRefText W.driver project run firstSeq) ∧
      row.envelopeVersions = [v2EnvelopeVersion] := by
  obtain ⟨⟨sig, startedAt⟩, hid, h⟩ := bind_eq_ok.mp h
  cases h
  exact ⟨hid, ⟨_, rfl, rfl⟩, rfl, rfl, rfl, rfl, rfl, rfl⟩

theorem indexBatch_spec [DecidableEq D] {stored : TraceIndexRow D} {jobs : List (LearningJob D)}
    (hopen : terminalRow s.row = false)
    (h : indexBatch W project run owner f s new firstSeq = .ok (stored, jobs)) :
    ∃ row, batchRow W project run owner s.row new firstSeq = .ok row ∧
      stored = upsertTraceIndex s.row row ∧
      if row.outcomeStatus.isTerminal then
        scheduleTraceLearningJob stored s.jobs tierAPipeline tierAPipelineVersion
          W.maxAttempts = .ok jobs
      else jobs = s.jobs := by
  obtain ⟨row, hrow, h⟩ := bind_eq_ok.mp h
  obtain ⟨-, -, h⟩ := bind_eq_ok.mp h
  refine ⟨row, hrow, ?_⟩
  rw [hopen] at h
  by_cases hterm : row.outcomeStatus.isTerminal = true
  · simp only [hterm] at h
    obtain ⟨-, -, h⟩ := bind_eq_ok.mp h
    obtain ⟨jobs', hjobs, h⟩ := bind_eq_ok.mp h
    cases h
    exact ⟨rfl, by rw [if_pos hterm]; exact hjobs⟩
  · have hfalse : row.outcomeStatus.isTerminal = false := by simpa using hterm
    simp only [hfalse] at h
    cases h
    exact ⟨rfl, by rw [if_neg hterm]⟩

theorem upsertTraceIndex_spec (row : TraceIndexRow D) (hopen : terminalRow existing = false)
    (hpath : row.path.isSome = true) :
    (upsertTraceIndex existing row).path = row.path ∧
      (upsertTraceIndex existing row).endedAt =
        row.endedAt.or (existing.bind TraceIndexRow.endedAt) ∧
      (upsertTraceIndex existing row).outcomeStatus =
        if row.outcomeStatus = .pending then
          (existing.map TraceIndexRow.outcomeStatus).getD .pending
        else row.outcomeStatus := by
  cases existing with
  | none =>
    by_cases h : row.outcomeStatus = .pending
    · simp [upsertTraceIndex]
    · simp [upsertTraceIndex]
  | some old =>
    have hold : old.outcomeStatus.isTerminal = false := hopen
    obtain ⟨path, hpath⟩ := isSome_iff_exists.mp hpath
    simp [upsertTraceIndex, hold, hpath]

/-! ### The state after a written batch -/

section Written

variable [DecidableEq D] {b : Batch D} {s' : Store D}

/-- The row behind a written batch: what was upserted, how its path, outcome and end time
were resolved, and when a job was scheduled. -/
theorem Batch.Writes.upserted (h : b.Writes W project run s s') :
    ∃ row path, batchRow W project run b.owner s.row b.new b.first.seq = .ok row ∧
      row.path = some path ∧
      (path, row.outcomeStatus, row.endedAt) = resolveCompleteness (existingPath s.row)
        (mergedPath W project run s.row b.new b.first.seq)
        ((seenSeqs s.row).extend (b.new.map QueueEnvelope.seq)) b.new ∧
      s'.row = some b.row ∧ existingPath s'.row = path ∧
      b.row = upsertTraceIndex s.row row ∧
      if row.outcomeStatus.isTerminal then
        scheduleTraceLearningJob b.row s.jobs tierAPipeline tierAPipelineVersion
          W.maxAttempts = .ok b.jobs
      else b.jobs = s.jobs := by
  obtain ⟨row, hrow, hstored, hjobs⟩ := indexBatch_spec h.open_row h.indexed
  obtain ⟨-, ⟨path, hpath, hresolve⟩, -⟩ := batchRow_spec hrow
  obtain ⟨hkept, -, -⟩ := upsertTraceIndex_spec row h.open_row (by rw [hpath]; rfl)
  have hafter : s'.row = some b.row := by rw [h.state_eq]
  refine ⟨row, path, hrow, hpath, hresolve, hafter, ?_, hstored, hjobs⟩
  rw [hafter, hstored, existingPath, bind_some, hkept, hpath, getD_some]

theorem Batch.Writes.path_get (h : b.Writes W project run s s') :
    Dict.get (existingPath s'.row) pathSeqRanges =
        toPath ((seenSeqs s.row).extend (b.new.map QueueEnvelope.seq)) ∧
      Dict.get (existingPath s'.row) pathPayloadRefs = .arr (priorRefs (existingPath s.row) ++
          [.str (payloadRefText W.driver project run b.first.seq)]) := by
  obtain ⟨row, path, -, -, hresolve, -, hpath, -⟩ := h.upserted
  obtain ⟨-, -, hranges, hrefs⟩ := mergedPath_get W project run s.row b.new b.first.seq
  rw [hpath]
  rcases resolveCompleteness_cases (existingPath s.row)
      (mergedPath W project run s.row b.new b.first.seq)
      ((seenSeqs s.row).extend (b.new.map QueueEnvelope.seq)) b.new with
    ⟨n, -, hcase⟩ | ⟨-, -, hcase⟩ | ⟨-, e, -, -, hcase⟩
  · obtain ⟨rfl, -⟩ := Prod.mk.inj (hresolve.trans hcase)
    exact ⟨hranges, hrefs⟩
  · obtain ⟨rfl, -⟩ := Prod.mk.inj (hresolve.trans hcase)
    exact ⟨hranges, hrefs⟩
  · obtain ⟨rfl, -⟩ := Prod.mk.inj (hresolve.trans hcase)
    obtain ⟨hkeep, hkeep'⟩ := enterSentinel_get_other
      (mergedPath W project run s.row b.new b.first.seq) e
    exact ⟨hkeep.trans hranges, hkeep'.trans hrefs⟩

theorem Batch.Writes.seenSeqs_eq (h : b.Writes W project run s s') :
    seenSeqs s'.row = (seenSeqs s.row).extend (b.new.map QueueEnvelope.seq) := by
  rw [seenSeqs, h.path_get.1, fromPath_toPath]
  intro n hn
  rcases RangeSet.mem_extend.mp hn with hn | hn
  · exact le_of_mem_fromPath hn
  · obtain ⟨e, -, rfl⟩ := mem_map.mp hn
    exact e.seq_le

/-- A settled outcome is not `pending`. -/
theorem settledOutcome_ne_pending (seen : RangeSet) (n : ℕ) (st : Option RunEndStatus) :
    settledOutcome seen n st ≠ .pending := by
  cases st with
  | none => simp [settledOutcome]
  | some st =>
    rw [settledOutcome]
    split_ifs
    · simp
    · cases st <;> simp [TraceOutcomeStatus.ofEnd]

/-- **What a written batch does to the sentinel**: it was recorded before and stays, there
is none, or the batch brings it. -/
theorem Batch.Writes.sentinel_cases (h : b.Writes W project run s s')
    (hnull : sentinelOf s.row = none → Dict.get (existingPath s.row) pathEndStatus = .null) :
    (∃ n st, sentinelOf s.row = some (n, st) ∧ sentinelOf s'.row = some (n, st) ∧
      b.row.outcomeStatus = settledOutcome (seenSeqs s'.row) n st ∧
      b.row.endedAt = s.row.bind TraceIndexRow.endedAt) ∨
    (sentinelOf s.row = none ∧ (∀ e ∈ b.new, isEnd e = false) ∧ sentinelOf s'.row = none ∧
      Dict.get (existingPath s'.row) pathEndStatus = .null ∧
      b.row.outcomeStatus = (s.row.map TraceIndexRow.outcomeStatus).getD .pending) ∨
    (sentinelOf s.row = none ∧ ∃ e ∈ b.new, isEnd e = true ∧
      sentinelOf s'.row = some (e.seq, endStatus e) ∧
      b.row.outcomeStatus = settledOutcome (seenSeqs s'.row) e.seq (endStatus e) ∧
      b.row.endedAt = some e.event.ts) := by
  obtain ⟨row, path, -, hrowpath, hresolve, -, hpath, hstored, -⟩ := h.upserted
  obtain ⟨-, hended, houtcome⟩ := upsertTraceIndex_spec row h.open_row (by rw [hrowpath]; rfl)
  obtain ⟨hseq, hstatus, -, -⟩ := mergedPath_get W project run s.row b.new b.first.seq
  have hseen := h.seenSeqs_eq
  rw [← hstored] at hended houtcome
  rw [← hseen] at hresolve
  rcases resolveCompleteness_cases (existingPath s.row)
      (mergedPath W project run s.row b.new b.first.seq) (seenSeqs s'.row) b.new with
    ⟨n, hn, hcase⟩ | ⟨hn, hends, hcase⟩ | ⟨hn, e, he, hend, hcase⟩
  · obtain ⟨rfl, h2⟩ := Prod.mk.inj (hresolve.trans hcase)
    obtain ⟨h2, h3⟩ := Prod.mk.inj h2
    refine .inl ⟨n, _, by rw [sentinelOf, hn, map_some], ?_, ?_, ?_⟩
    · rw [sentinelOf, hpath, hseq, hstatus, hn, map_some]
    · rw [houtcome, h2, if_neg (settledOutcome_ne_pending _ _ _)]
    · rw [hended, h3, none_or]
  · obtain ⟨rfl, h2⟩ := Prod.mk.inj (hresolve.trans hcase)
    obtain ⟨h2, -⟩ := Prod.mk.inj h2
    have hnone : sentinelOf s.row = none := by rw [sentinelOf, hn, map_none]
    refine .inr (.inl ⟨hnone, hends, ?_, ?_, ?_⟩)
    · rw [sentinelOf, hpath, hseq, hn, map_none]
    · rw [hpath, hstatus, hnull hnone]
    · rw [houtcome, h2, if_pos rfl]
  · obtain ⟨rfl, h2⟩ := Prod.mk.inj (hresolve.trans hcase)
    obtain ⟨h2, h3⟩ := Prod.mk.inj h2
    have hnone : sentinelOf s.row = none := by rw [sentinelOf, hn, map_none]
    obtain ⟨hseq', hstatus'⟩ := enterSentinel_get _ e (hstatus.trans (hnull hnone))
    refine .inr (.inr ⟨hnone, e, he, hend, ?_, ?_, ?_⟩)
    · rw [sentinelOf, hpath, hseq', hstatus', map_some]
    · rw [houtcome, h2, if_neg (settledOutcome_ne_pending _ _ _)]
    · rw [hended, h3, some_or]

/-- **Jobs**: a job is scheduled exactly by the batch that makes the row terminal. -/
theorem Batch.Writes.jobs_cases (h : b.Writes W project run s s') :
    if b.row.outcomeStatus.isTerminal then
      scheduleTraceLearningJob b.row s.jobs tierAPipeline tierAPipelineVersion
        W.maxAttempts = .ok s'.jobs
    else s'.jobs = s.jobs := by
  obtain ⟨row, path, -, hrowpath, -, -, -, hstored, hjobs⟩ := h.upserted
  obtain ⟨-, -, houtcome⟩ := upsertTraceIndex_spec row h.open_row (by rw [hrowpath]; rfl)
  have hsame : b.row.outcomeStatus.isTerminal = row.outcomeStatus.isTerminal := by
    rw [hstored, houtcome]
    by_cases hp : row.outcomeStatus = .pending
    · rw [hp]
      cases hrow : s.row with
      | none => rfl
      | some old =>
        have hopen := h.open_row
        rw [hrow] at hopen
        exact hopen
    · rw [if_neg hp]
  rw [hsame, h.state_eq]
  exact hjobs

/-- **What is acked is recorded.** -/
theorem acked_recorded {pairs : List (Delivery D)}
    (h : (processGroup W project run pairs f s).2 = .ok v) :
    ∀ d ∈ v.acked, d.1.seq ∈ seenSeqs (processGroup W project run pairs f s).1.row := by
  have hout := outcome_of_ok h
  generalize (processGroup W project run pairs f s).1 = s' at hout ⊢
  intro d hd
  cases hout with
  | frozen =>
    rcases mem_append.mp hd with hd | hd
    · cases hd
    · exact RangeSet.contains_iff.mp (mem_filter.mp hd).2
  | foreign => cases hd
  | nothingNew classified open_row admitted none_new =>
    rw [Verdict.acked, append_nil] at hd
    obtain ⟨-, -, hcover⟩ := newEnvs_spec s.row ((List.filter (fun d => _) _).map fst)
    rcases hcover d.1 (mem_map_of_mem hd) with hseen | ⟨e, he, -⟩
    · exact hseen
    · rw [none_new] at he
      cases he
  | @written s' b refused classified writes =>
    rw [Verdict.acked, append_nil] at hd
    obtain ⟨-, -, hcover⟩ := newEnvs_spec s.row
      ((b.accepted.filter fun d => b.admits d.1).map fst)
    rw [writes.seenSeqs_eq, RangeSet.mem_extend]
    rcases hcover d.1 (mem_map_of_mem hd) with hseen | ⟨e, he, hseq⟩
    · exact .inl hseen
    · rw [writes.new_eq] at he
      exact .inr (mem_map.mpr ⟨e, he, hseq⟩)

end Written

end Tracebed
