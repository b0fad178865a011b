import Tracebed.TraceBatches

/-!
# The Index Row Over Whole Runs

What the trace writer guarantees about a run's index row whatever is delivered, in whatever
order and grouping, with transactions committing or rolling back, the incomplete sweep
running at any time, and other runs of the project adding keys in between (`exec_complete`).
`Consistent` couples the row, the learning jobs and the committed envelopes; one step keeps it, so
every run does.
-/

open Py List

namespace Tracebed

variable {D : Type}

/-! ### Runs -/

/-- What can happen to one run's state: a group of deliveries is processed, the sweep marks
the run, or transactions of other runs change the project's key table. -/
inductive RunStep (D : Type)
  | deliver (pairs : List (Delivery D)) (faults : Faults)
  | sweep
  | otherRuns (keys : KeyTable D)

def runStep [DecidableEq D] (W : Writer D) (project : ProjectId) (run : RunId) (s : Store D) :
    RunStep D → Store D
  | .deliver pairs f => (processGroup W project run pairs f s).1
  | .sweep => { s with row := s.row.map markRunIncomplete }
  | .otherRuns keys => { s with keys := keys }

/-- Nothing of the run is recorded. Keys of the project, and objects left behind by writers
that never committed, may exist. -/
def Store.fresh (keys : KeyTable D) (objects : ℕ → Option Bytes) : Store D where
  row := none
  jobs := []
  keys := keys
  objects := objects
  archive := []

/-! ### The invariant -/

/-- The sentinel of the row and the committed envelopes agree. -/
def SentinelRecorded (s : Store D) : Prop :=
  match sentinelOf s.row with
  | none => (∀ e ∈ s.archive, isEnd e = false) ∧
      Dict.get (existingPath s.row) pathEndStatus = .null
  | some (n, st) => (∀ a ∈ s.archive, a.seq ≤ n) ∧
      (∀ a ∈ s.archive, isEnd a = true → a.seq = n) ∧
      ∃ e ∈ s.archive, isEnd e = true ∧ e.seq = n ∧ endStatus e = st ∧
        s.row.bind TraceIndexRow.endedAt = some e.event.ts

/-- The outcome is the one the sentinel and the recorded sequence numbers call for. -/
def OutcomeSettled (s : Store D) : Prop :=
  ∀ row, s.row = some row →
    match sentinelOf s.row with
    | none => row.outcomeStatus = .pending ∨ row.outcomeStatus = .incomplete
    | some (n, st) => row.outcomeStatus = settledOutcome (seenSeqs s.row) n st

/-- The learning job of a run that ended at `endedAt`. -/
def tierAJob (W : Writer D) (endedAt : D) : LearningJob D :=
  ⟨tierAPipeline, tierAPipelineVersion, W.maxAttempts, endedAt, true⟩

/-- **The writer's invariant.** -/
structure Consistent (W : Writer D) (s : Store D) : Prop where
  absent : s.row = none → s.archive = []
  recorded : ∀ n, n ∈ seenSeqs s.row ↔ ∃ e ∈ s.archive, e.seq = n
  distinct : s.archive.Pairwise fun a b => a.seq ≠ b.seq
  sentinel : SentinelRecorded s
  outcome : OutcomeSettled s
  jobs : if terminalRow s.row then
      ∃ t, s.row.bind TraceIndexRow.endedAt = some t ∧ s.jobs = [tierAJob W t]
    else s.jobs = []

variable {W : Writer D} {s : Store D}

theorem Consistent.status_null (h : Consistent W s) (hnone : sentinelOf s.row = none) :
    Dict.get (existingPath s.row) pathEndStatus = .null := by
  have := h.sentinel
  rw [SentinelRecorded, hnone] at this
  exact this.2

/-- The state before anything happened. -/
theorem fresh_consistent (W : Writer D) (keys : KeyTable D) (objects : ℕ → Option Bytes) :
    Consistent W (Store.fresh keys objects) where
  absent := fun _ => rfl
  recorded := fun n => by
    refine ⟨fun hn => absurd hn (RangeSet.not_mem_empty n), ?_⟩
    rintro ⟨e, he, -⟩
    cases he
  distinct := List.Pairwise.nil
  sentinel := ⟨by simp [Store.fresh], rfl⟩
  outcome := nofun
  jobs := rfl

/-- The invariant speaks of the row, the jobs and the committed envelopes only. -/
theorem Consistent.congr {s' : Store D} (h : Consistent W s) (hrow : s'.row = s.row)
    (hjobs : s'.jobs = s.jobs) (harchive : s'.archive = s.archive) :
    Consistent W s' := by
  obtain ⟨row, jobs, keys, objects, archive⟩ := s
  obtain ⟨row', jobs', keys', objects', archive'⟩ := s'
  obtain rfl : row' = row := hrow
  obtain rfl : jobs' = jobs := hjobs
  obtain rfl : archive' = archive := harchive
  exact ⟨h.absent, h.recorded, h.distinct, h.sentinel, h.outcome, h.jobs⟩

/-! ### The step lemmas -/

variable {st : Option RunEndStatus} {n : ℕ}

section Written

variable [DecidableEq D] {project : ProjectId} {run : RunId} {b : Batch D} {s' : Store D}
  (h : b.Writes W project run s s') (hs : Consistent W s)

include h hs

theorem Batch.Writes.recorded (n : ℕ) : n ∈ seenSeqs s'.row ↔ ∃ e ∈ s'.archive, e.seq = n := by
  rw [h.seenSeqs_eq, RangeSet.mem_extend, hs.recorded, h.state_eq]
  simp only [mem_append, mem_map]
  constructor
  · rintro (⟨e, he, rfl⟩ | ⟨e, he, rfl⟩)
    · exact ⟨e, .inl he, rfl⟩
    · exact ⟨e, .inr he, rfl⟩
  · rintro ⟨e, he | he, rfl⟩
    · exact .inl ⟨e, he, rfl⟩
    · exact .inr ⟨e, he, rfl⟩

/-- No sequence number is committed twice. -/
theorem Batch.Writes.distinct : s'.archive.Pairwise fun a b => a.seq ≠ b.seq := by
  obtain ⟨-, hsorted, -⟩ := newEnvs_spec s.row
    ((b.accepted.filter fun d => b.admits d.1).map Prod.fst)
  rw [h.new_eq] at hsorted
  rw [h.state_eq]
  refine pairwise_append.mpr ⟨hs.distinct, hsorted.imp fun hlt => Nat.ne_of_lt hlt, ?_⟩
  intro a ha e he heq
  exact (h.mem_new he).2.2 ((hs.recorded _).mpr ⟨a, ha, heq⟩)

/-- Behind a recorded sentinel a batch adds lower sequence numbers only, none of them an
end. -/
theorem Batch.Writes.new_below (hsent : sentinelOf s.row = some (n, st)) :
    ∀ e ∈ b.new, e.seq ≤ n ∧ isEnd e = false := by
  have hadm := admits_spec h.admitted
  have hrec := hs.sentinel
  rw [hsent] at hadm
  rw [SentinelRecorded, hsent] at hrec
  obtain ⟨-, -, a, ha, -, rfl, -⟩ := hrec
  intro e he
  obtain ⟨-, hkeep, hunseen⟩ := h.mem_new he
  obtain ⟨hle, hend⟩ := hadm e hkeep
  refine ⟨hle, ?_⟩
  by_contra hisEnd
  have hseq := (hend (by simpa using hisEnd)).1
  exact hunseen ((hs.recorded _).mpr ⟨a, ha, hseq.symm⟩)

/-- A batch that brings the sentinel keeps everything recorded at or below it, and has no
second end. -/
theorem Batch.Writes.new_closed (hnone : sentinelOf s.row = none) {e : QueueEnvelope D}
    (he : e ∈ b.new) (hend : isEnd e = true) :
    (∀ a ∈ s'.archive, a.seq ≤ e.seq) ∧ ∀ a ∈ s'.archive, isEnd a = true → a.seq = e.seq := by
  have hadm := admits_spec h.admitted
  have hrec := hs.sentinel
  rw [hnone] at hadm
  rw [SentinelRecorded, hnone] at hrec
  have hmem : ∀ a ∈ b.new, a ∈ b.accepted.map Prod.fst := fun a ha =>
    mem_map.mpr (h.mem_new ha).1
  rcases hadm with hno | ⟨last, hlast, hcloses⟩
  · rw [hno e (hmem e he) (h.mem_new he).2.1] at hend
    cases hend
  · have hseq := (hcloses.same e (hmem e he) hend).1
    rw [h.state_eq]
    refine ⟨?_, ?_⟩
    · intro a ha
      rcases mem_append.mp ha with ha | ha
      · rw [hseq]
        exact hcloses.none_above _ ((hs.recorded _).mpr ⟨a, ha, rfl⟩)
      · rcases hcloses.keeps a (h.mem_new ha).2.1 with hlt | ⟨heq, -⟩
        · omega
        · omega
    · intro a ha haEnd
      rcases mem_append.mp ha with ha | ha
      · rw [hrec.1 a ha] at haEnd
        cases haEnd
      · rw [hseq]
        exact (hcloses.same a (hmem a ha) haEnd).1

theorem Batch.Writes.sentinelRecorded : SentinelRecorded s' := by
  have hold := hs.sentinel
  have harchive : s'.archive = s.archive ++ b.new := by rw [h.state_eq]
  have hrow : s'.row = some b.row := by rw [h.state_eq]
  rcases h.sentinel_cases hs.status_null with
    ⟨n, st, hsent, hsent', -, hended⟩ | ⟨hnone, hends, hnone', hnull, -⟩ |
    ⟨hnone, e, he, hend, hsent', -, hended⟩
  · have hbelow := h.new_below hs hsent
    rw [SentinelRecorded, hsent] at hold
    obtain ⟨hle, hends, e, he, hend, hseq, hst, ht⟩ := hold
    rw [SentinelRecorded, hsent', harchive]
    refine ⟨?_, ?_, e, mem_append_left _ he, hend, hseq, hst, ?_⟩
    · exact forall_mem_append.mpr ⟨hle, fun a ha => (hbelow a ha).1⟩
    · intro a ha haEnd
      rcases mem_append.mp ha with ha | ha
      · exact hends a ha haEnd
      · rw [(hbelow a ha).2] at haEnd
        cases haEnd
    · rw [hrow, Option.bind_some, hended, ht]
  · rw [SentinelRecorded, hnone] at hold
    rw [SentinelRecorded, hnone', harchive]
    refine ⟨?_, hnull⟩
    exact forall_mem_append.mpr ⟨hold.1, hends⟩
  · obtain ⟨hle, hends⟩ := h.new_closed hs hnone he hend
    rw [SentinelRecorded, hsent']
    refine ⟨hle, hends, e, ?_, hend, rfl, rfl, ?_⟩
    · rw [harchive]
      exact mem_append_right _ he
    · rw [hrow, Option.bind_some, hended]

theorem Batch.Writes.outcomeSettled : OutcomeSettled s' := by
  intro row hrow
  obtain rfl : b.row = row := by
    rw [h.state_eq] at hrow
    exact Option.some.inj hrow
  rcases h.sentinel_cases hs.status_null with
    ⟨n, st, -, hsent', hout, -⟩ | ⟨hnone, -, hnone', -, hout⟩ | ⟨-, e, -, -, hsent', hout, -⟩
  · rw [hsent']
    exact hout
  · rw [hnone']
    rw [hout]
    cases hold : s.row with
    | none => exact .inl rfl
    | some old =>
      have := hs.outcome old hold
      rw [hnone] at this
      exact this
  · rw [hsent']
    exact hout

theorem Batch.Writes.jobs_eq :
    if terminalRow s'.row then
      ∃ t, s'.row.bind TraceIndexRow.endedAt = some t ∧ s'.jobs = [tierAJob W t]
    else s'.jobs = [] := by
  have hjobs := h.jobs_cases
  have hold := hs.jobs
  have hrow : s'.row = some b.row := by rw [h.state_eq]
  rw [h.open_row] at hold
  have hterm : terminalRow s'.row = b.row.outcomeStatus.isTerminal := by rw [hrow]; rfl
  rw [hterm, hrow, Option.bind_some]
  by_cases ht : b.row.outcomeStatus.isTerminal = true
  · rw [if_pos ht, hold] at hjobs
    rw [if_pos ht]
    obtain ⟨-, -, hjobs⟩ := Fallible.bind_eq_ok.mp hjobs
    rw [ht] at hjobs
    cases hended : b.row.endedAt with
    | none =>
      rw [hended] at hjobs
      cases hjobs
    | some t =>
      rw [hended] at hjobs
      exact ⟨t, rfl, (Except.ok.inj hjobs).symm⟩
  · rw [if_neg ht] at hjobs ⊢
    rw [hjobs, hold]

/-- **A written batch keeps the invariant.** -/
theorem Batch.Writes.consistent : Consistent W s' where
  absent := fun hnone => by
    rw [h.state_eq] at hnone
    cases hnone
  recorded := h.recorded hs
  distinct := h.distinct hs
  sentinel := h.sentinelRecorded hs
  outcome := h.outcomeSettled hs
  jobs := h.jobs_eq hs

end Written

variable {row : TraceIndexRow D}

/-- **The sweep keeps the invariant.** It marks a pending row. -/
theorem sweep_consistent (hs : Consistent W s) (hrow : s.row = some row)
    (hpending : row.outcomeStatus = .pending) :
    Consistent W { s with row := some { row with outcomeStatus := .incomplete } } := by
  have hout := hs.outcome row hrow
  have hsent := hs.sentinel
  have hjobs := hs.jobs
  have hrec := hs.recorded
  rw [SentinelRecorded] at hsent
  rw [hrow] at hout hsent hjobs hrec
  refine ⟨nofun, hrec, hs.distinct, hsent, ?_, ?_⟩
  · rintro _ ⟨⟩
    cases hcase : sentinelOf (some row) with
    | none =>
      have hcase' : sentinelOf (some { row with outcomeStatus := .incomplete }) = none := hcase
      rw [hcase']
      exact .inr rfl
    | some p =>
      -- a settled outcome is never `pending`, so the sweep has nothing to mark
      rw [hcase] at hout
      exact absurd (hout.symm.trans hpending) (settledOutcome_ne_pending _ _ _)
  · have hopen : terminalRow (some row) = false := by
      rw [terminalRow, Option.map_some, hpending]
      rfl
    rw [hopen] at hjobs
    exact hjobs

/-- **What a step does** to the row, the jobs and the committed envelopes: nothing, the writes of
a batch, or the sweep's mark on a pending row. -/
theorem runStep_cases [DecidableEq D] (W : Writer D) (project : ProjectId) (run : RunId)
    (s : Store D) (a : RunStep D) :
    ((runStep W project run s a).row = s.row ∧ (runStep W project run s a).jobs = s.jobs ∧
        (runStep W project run s a).archive = s.archive) ∨
      (∃ b : Batch D, b.Writes W project run s (runStep W project run s a)) ∨
      ∃ row, s.row = some row ∧ row.outcomeStatus = .pending ∧ runStep W project run s a =
        { s with row := some { row with outcomeStatus := .incomplete } } := by
  cases a with
  | deliver pairs f =>
    rcases processGroup_cases W project run pairs f s with ⟨hrow, hjobs, harchive, -⟩ | hb
    · exact .inl ⟨hrow, hjobs, harchive⟩
    · exact .inr (.inl hb)
  | sweep =>
    rw [runStep]
    cases hrow : s.row with
    | none => exact .inl ⟨rfl, rfl, rfl⟩
    | some row =>
      rw [Option.map_some, markRunIncomplete]
      by_cases hpending : row.outcomeStatus = .pending
      · exact .inr (.inr ⟨row, rfl, hpending, by rw [if_pos hpending]⟩)
      · exact .inl ⟨by rw [if_neg hpending], rfl, rfl⟩
  | otherRuns keys => exact .inl ⟨rfl, rfl, rfl⟩

/-- **Every step keeps the invariant.** -/
theorem runStep_consistent [DecidableEq D] {project : ProjectId} {run : RunId} (hs : Consistent W s)
    (a : RunStep D) :
    Consistent W (runStep W project run s a) := by
  rcases runStep_cases W project run s a with
    ⟨hrow, hjobs, harchive⟩ | ⟨b, hb⟩ | ⟨row, hrow, hpending, heq⟩
  · exact hs.congr hrow hjobs harchive
  · exact hb.consistent hs
  · rw [heq]
    exact sweep_consistent hs hrow hpending

/-- **Every run keeps the invariant.** -/
theorem exec_consistent [DecidableEq D] (W : Writer D) (project : ProjectId) (run : RunId)
    (keys : KeyTable D) (objects : ℕ → Option Bytes) (steps : List (RunStep D)) :
    Consistent W (Runs.exec (runStep W project run) (Store.fresh keys objects) steps) :=
  Runs.exec_invariant (fresh_consistent W keys objects) fun _ a _ hs => runStep_consistent hs a

/-! ### Terminal rows are frozen -/

/-- A terminal row, its jobs and its committed envelopes stay as they are. -/
def Frozen (s s' : Store D) : Prop :=
  terminalRow s.row = true → s'.row = s.row ∧ s'.jobs = s.jobs ∧ s'.archive = s.archive

theorem Frozen.refl (s : Store D) : Frozen s s := fun _ => ⟨rfl, rfl, rfl⟩

theorem Frozen.trans {t u : Store D} (hst : Frozen s t) (htu : Frozen t u) : Frozen s u := by
  intro hterm
  obtain ⟨hrow, hjobs, harchive⟩ := hst hterm
  obtain ⟨hrow', hjobs', harchive'⟩ := htu (by rw [hrow]; exact hterm)
  exact ⟨hrow'.trans hrow, hjobs'.trans hjobs, harchive'.trans harchive⟩

theorem runStep_frozen [DecidableEq D] (W : Writer D) (project : ProjectId) (run : RunId)
    (s : Store D) (a : RunStep D) : Frozen s (runStep W project run s a) := by
  intro hterm
  rcases runStep_cases W project run s a with hsame | ⟨b, hb⟩ | ⟨row, hrow, hpending, -⟩
  · exact hsame
  · rw [hb.open_row] at hterm
    cases hterm
  · rw [hrow, terminalRow, Option.map_some, hpending] at hterm
    cases hterm

/-- No run changes a terminal row. -/
theorem exec_frozen [DecidableEq D] (W : Writer D) (project : ProjectId) (run : RunId)
    (s : Store D) (steps : List (RunStep D)) :
    Frozen s (Runs.exec (runStep W project run) s steps) :=
  Runs.exec_rel (I := fun _ => True) trivial (fun _ _ _ _ => trivial) Frozen.refl
    (fun _ _ _ => Frozen.trans) fun s a _ _ => runStep_frozen W project run s a

/-! ### Completeness -/

/-- What the row says about the recorded events. -/
structure Complete (s : Store D) : Prop where
  /-- The recorded sequence numbers are those of the committed events. -/
  recorded_iff : ∀ k, k ∈ seenSeqs s.row ↔ ∃ e ∈ s.archive, e.seq = k
  /-- A sentinel is a committed `run_end`; its time is the end of the run. -/
  sentinel_committed : ∀ n st, sentinelOf s.row = some (n, st) →
    ∃ e ∈ s.archive, isEnd e = true ∧ e.seq = n ∧ endStatus e = st ∧
      s.row.bind TraceIndexRow.endedAt = some e.event.ts
  /-- Terminal means a sentinel with a status and no gap. -/
  terminal_iff : terminalRow s.row = true ↔
    ∃ n st, sentinelOf s.row = some (n, some st) ∧ ∀ k, k ∈ seenSeqs s.row ↔ k ≤ n
  /-- The outcome of a terminal row is the sentinel's status. -/
  status_eq : ∀ row n st, s.row = some row → row.outcomeStatus.isTerminal = true →
    sentinelOf s.row = some (n, st) → ∃ status, st = some status ∧
      row.outcomeStatus = TraceOutcomeStatus.ofEnd status
  /-- Nothing is recorded behind the sentinel. -/
  bounded : ∀ n st, sentinelOf s.row = some (n, st) → ∀ k ∈ seenSeqs s.row, k ≤ n
  /-- A terminal row has one learning job, any other row none. -/
  jobs_length : s.jobs.length = if terminalRow s.row then 1 else 0

theorem settledOutcome_terminal_iff {seen : RangeSet} :
    (settledOutcome seen n st).isTerminal = true ↔
      ∃ status, st = some status ∧ (∀ k, k ≤ n → k ∈ seen) ∧
        settledOutcome seen n st = .ofEnd status := by
  cases st with
  | none =>
    refine ⟨fun h => (Bool.false_ne_true h).elim, ?_⟩
    rintro ⟨status, hst, -⟩
    cases hst
  | some status =>
    rw [settledOutcome]
    by_cases hfull : seen.countUpto n = n + 1
    · rw [if_neg (not_not.mpr hfull)]
      refine ⟨fun _ => ⟨status, rfl, RangeSet.countUpto_eq_succ_iff.mp hfull, rfl⟩, fun _ => ?_⟩
      exact TraceOutcomeStatus.isTerminal_ofEnd status
    · rw [if_pos hfull]
      refine ⟨fun h => (Bool.false_ne_true h).elim, ?_⟩
      rintro ⟨-, -, hall, -⟩
      exact absurd (RangeSet.countUpto_eq_succ_iff.mpr hall) hfull

theorem Consistent.row_of_sentinel (hs : Consistent W s) (h : sentinelOf s.row = some (n, st)) :
    ∃ row, s.row = some row ∧ row.outcomeStatus = settledOutcome (seenSeqs s.row) n st := by
  cases hrow : s.row with
  | none =>
    rw [hrow] at h
    cases h
  | some row =>
    have hout := hs.outcome row hrow
    rw [h, hrow] at hout
    exact ⟨row, rfl, hout⟩

theorem Consistent.sentinel_of_terminal (hs : Consistent W s) (hrow : s.row = some row)
    (hterm : row.outcomeStatus.isTerminal = true) :
    ∃ n st, sentinelOf s.row = some (n, st) := by
  cases hsent : sentinelOf s.row with
  | some p => exact ⟨p.1, p.2, rfl⟩
  | none =>
    have hout := hs.outcome row hrow
    rw [hsent] at hout
    rcases hout with hout | hout
    · rw [hout] at hterm
      cases hterm
    · rw [hout] at hterm
      cases hterm

/-- **Consistent states are complete.** -/
theorem Consistent.complete (hs : Consistent W s) : Complete s := by
  have hsentinel : ∀ n st, sentinelOf s.row = some (n, st) →
      (∀ k ∈ seenSeqs s.row, k ≤ n) ∧
      ∃ e ∈ s.archive, isEnd e = true ∧ e.seq = n ∧ endStatus e = st ∧
        s.row.bind TraceIndexRow.endedAt = some e.event.ts := by
    intro n st h
    have hrec := hs.sentinel
    rw [SentinelRecorded, h] at hrec
    obtain ⟨hle, -, hex⟩ := hrec
    refine ⟨fun k hk => ?_, hex⟩
    obtain ⟨e, he, rfl⟩ := (hs.recorded k).mp hk
    exact hle e he
  refine ⟨hs.recorded, fun n st h => (hsentinel n st h).2, ⟨?_, ?_⟩, ?_,
    fun n st h => (hsentinel n st h).1, ?_⟩
  · intro hterm
    obtain ⟨row, hrow, hterm⟩ : ∃ row, s.row = some row ∧ row.outcomeStatus.isTerminal = true := by
      cases hrow : s.row with
      | none =>
        rw [hrow] at hterm
        cases hterm
      | some row =>
        rw [hrow] at hterm
        exact ⟨row, rfl, hterm⟩
    obtain ⟨n, st, hsent⟩ := hs.sentinel_of_terminal hrow hterm
    obtain ⟨row', hrow', hout⟩ := hs.row_of_sentinel hsent
    obtain rfl : row = row' := Option.some.inj (hrow.symm.trans hrow')
    rw [hout] at hterm
    obtain ⟨status, rfl, hall, -⟩ := settledOutcome_terminal_iff.mp hterm
    exact ⟨n, status, hsent, fun k => ⟨(hsentinel n _ hsent).1 k, hall k⟩⟩
  · rintro ⟨n, st, hsent, hall⟩
    obtain ⟨row, hrow, hout⟩ := hs.row_of_sentinel hsent
    have hfull := RangeSet.countUpto_eq_succ_iff.mpr fun k hk => (hall k).mpr hk
    rw [hrow, terminalRow, Option.map_some, hout, settledOutcome, if_neg (not_not.mpr hfull)]
    exact TraceOutcomeStatus.isTerminal_ofEnd st
  · intro row n st hrow hterm hsent
    obtain ⟨row', hrow', hout⟩ := hs.row_of_sentinel hsent
    obtain rfl : row = row' := Option.some.inj (hrow.symm.trans hrow')
    rw [hout] at hterm ⊢
    obtain ⟨status, hst, -, heq⟩ := settledOutcome_terminal_iff.mp hterm
    exact ⟨status, hst, heq⟩
  · have hjobs := hs.jobs
    by_cases hterm : terminalRow s.row = true
    · rw [if_pos hterm] at hjobs ⊢
      obtain ⟨t, -, hjobs⟩ := hjobs
      rw [hjobs]
      rfl
    · rw [if_neg hterm] at hjobs ⊢
      rw [hjobs]
      rfl

/-- **Completeness over every run.** After any steps the row tells the truth about what is
recorded, and once it is terminal no further steps change it, its learning job or the
committed events. -/
theorem exec_complete [DecidableEq D] (W : Writer D) (project : ProjectId) (run : RunId)
    (keys : KeyTable D) (objects : ℕ → Option Bytes) (steps : List (RunStep D)) :
    Complete (Runs.exec (runStep W project run) (Store.fresh keys objects) steps) ∧
      ∀ more, Frozen (Runs.exec (runStep W project run) (Store.fresh keys objects) steps)
        (Runs.exec (runStep W project run) (Store.fresh keys objects) (steps ++ more)) := by
  refine ⟨(exec_consistent W project run keys objects steps).complete, fun more => ?_⟩
  rw [Runs.exec_append]
  exact exec_frozen W project run _ more

end Tracebed
