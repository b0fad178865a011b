import Tracebed.TraceRuns
import Tracebed.StandardWriter

/-!
# Acknowledged Ends

A `run_end` whose queue item is acked ought to be the run's recorded sentinel. Admission does not
ask whether the end's own sequence number is recorded already, though: then the end is admitted,
dropped as a duplicate and acked. On a terminal row any end at a recorded sequence number is acked
as a replay. `shadowed` is the test for such a delivery, in terms of the state before the
transaction.

## Main results

* `ackedEnds_recorded`: in a run without shadowed ends every acked end is the sentinel.
* `end_shadowed_by_recorded_event`: an end that is acked and lost.
-/

open Py List Prod

namespace Tracebed

variable {D : Type}

/-- The owner the row records sent the delivery. -/
def ownedByRow (row : Option (TraceIndexRow D)) (d : Delivery D) : Bool :=
  row.all fun r => ownedBy ⟨r.submitterPrincipal, r.agentTypeId⟩ d

/-- A `run_end` of the owner at a recorded sequence number that is not the sentinel: on a
terminal row, one that differs from the sentinel; on a row without sentinel, one behind
which nothing is recorded. -/
def shadowed (s : Store D) (d : Delivery D) : Bool :=
  isEnd d.1 && (seenSeqs s.row).contains d.1.seq && ownedByRow s.row d &&
    if terminalRow s.row then decide (sentinelOf s.row ≠ some (d.1.seq, endStatus d.1))
    else (sentinelOf s.row).isNone && !(seenSeqs s.row).hasAbove d.1.seq

variable {d : Delivery D}

/-- An accepted delivery is one of the group's and comes from the row's owner. -/
theorem ownedByRow_of_classify {f : Faults} {row : Option (TraceIndexRow D)}
    {pairs accepted refused : List (Delivery D)} {owner : RunOwner}
    (h : classify f row pairs = .ok (owner, accepted, refused)) (hd : d ∈ accepted) :
    d ∈ pairs ∧ ownedByRow row d = true := by
  obtain ⟨howned, hrow, -⟩ := classify_spec h
  obtain ⟨hmem, hown⟩ := howned d hd
  refine ⟨hmem, ?_⟩
  cases row with
  | none => rfl
  | some r =>
    have howner := hrow r rfl
    subst howner
    exact hown

variable {p : ℕ × Option RunEndStatus}

section Shadowed

variable {s : Store D}

/-- Without a sentinel an admitted end that is above everything recorded, or equal to its last, is
shadowed exactly when its own sequence number is recorded. -/
theorem shadowed_of_none (hnone : sentinelOf s.row = none) (hend : isEnd d.1 = true)
    (hown : ownedByRow s.row d = true) (habove : ∀ n ∈ seenSeqs s.row, n ≤ d.1.seq) :
    shadowed s d = true ↔ d.1.seq ∈ seenSeqs s.row := by
  have hno : (seenSeqs s.row).hasAbove d.1.seq = false := by
    by_contra h
    obtain ⟨n, hn, hlt⟩ := RangeSet.hasAbove_iff.mp (by simpa using h)
    have := habove n hn
    omega
  rw [shadowed, hend, hown, hnone, hno, ← RangeSet.contains_iff]
  simp

theorem shadowed_of_sentinel (hopen : terminalRow s.row = false)
    (hsent : sentinelOf s.row = some p) : shadowed s d = false := by
  rw [shadowed, if_neg (by rw [hopen]; exact Bool.false_ne_true), hsent]
  simp

/-- What admission says about an end it lets through: it repeats the recorded sentinel, or
it closes the run off. -/
theorem admitted_end {X : Pydantic D} {accepted : List (Delivery D)}
    {admits : QueueEnvelope D → Bool}
    (hadm : admitNonterminalEvents X s.row (accepted.map fst) = .ok admits)
    (hd : d ∈ accepted) (hkeep : admits d.1 = true) (hend : isEnd d.1 = true) :
    sentinelOf s.row = some (d.1.seq, endStatus d.1) ∨
      sentinelOf s.row = none ∧ Closes (seenSeqs s.row) d.1 admits (accepted.map fst) := by
  have hspec := admits_spec hadm
  have hmem : d.1 ∈ accepted.map fst := mem_map_of_mem hd
  cases hsent : sentinelOf s.row with
  | some p =>
    obtain ⟨n, st⟩ := p
    rw [hsent] at hspec
    obtain ⟨-, hends⟩ := hspec d.1 hkeep
    obtain ⟨rfl, rfl⟩ := hends hend
    exact .inl rfl
  | none =>
    rw [hsent] at hspec
    rcases hspec with hno | ⟨last, -, hcloses⟩
    · rw [hno d.1 hmem hkeep] at hend
      cases hend
    · obtain ⟨hseq, hst⟩ := hcloses.same d.1 hmem hend
      refine .inr ⟨rfl, hend, ?_, ?_, ?_⟩
      · rw [hseq]
        exact hcloses.none_above
      · rw [hseq]
        exact hcloses.keeps
      · rw [hseq, hst]
        exact hcloses.same

theorem shadowed_fresh (keys : KeyTable D) (objects : ℕ → Option Bytes) :
    shadowed (Store.fresh keys objects) d = false := by
  have hunseen : (seenSeqs (Store.fresh keys objects).row).contains d.1.seq = false := by
    rw [← Bool.not_eq_true, RangeSet.contains_iff]
    exact RangeSet.not_mem_empty _
  rw [shadowed, hunseen, Bool.and_false, Bool.false_and, Bool.false_and]

end Shadowed

section Acked

variable [DecidableEq D] {W : Writer D} {project : ProjectId} {run : RunId}
  {pairs : List (Delivery D)} {f : Faults} {s s' : Store D}

theorem Batch.Writes.end_recorded_iff {b : Batch D} (h : b.Writes W project run s s')
    (hs : Consistent W s) (hnone : sentinelOf s.row = none)
    (hcloses : Closes (seenSeqs s.row) d.1 b.admits (b.accepted.map fst)) (hd : d ∈ b.accepted)
    (hkeep : b.admits d.1 = true) :
    sentinelOf s'.row = some (d.1.seq, endStatus d.1) ↔ d.1.seq ∉ seenSeqs s.row := by
  obtain ⟨-, -, hcover⟩ := newEnvs_spec s.row
    ((b.accepted.filter fun d => b.admits d.1).map fst)
  have haccepted : ∀ e ∈ b.new, e ∈ b.accepted.map fst := fun e he =>
    mem_map.mpr (h.mem_new he).1
  rcases h.sentinel_cases hs.status_null with
    ⟨n, st, hsome, -⟩ | ⟨-, hends, hnone', -⟩ | ⟨-, e, he, hend, hsent', -⟩
  · rw [hnone] at hsome
    cases hsome
  · rw [hnone']
    refine ⟨nofun, fun hunseen => ?_⟩
    -- an unseen number is new, and the envelope kept for it is an end
    have hmem : d.1 ∈ (b.accepted.filter fun d => b.admits d.1).map fst :=
      mem_map_of_mem (mem_filter.mpr ⟨hd, hkeep⟩)
    rcases hcover d.1 hmem with hseen | ⟨e, he, hseq⟩
    · exact absurd hseen hunseen
    · rw [h.new_eq] at he
      rcases hcloses.keeps e (h.mem_new he).2.1 with hlt | ⟨-, hisEnd⟩
      · omega
      · rw [hends e he] at hisEnd
        cases hisEnd
  · obtain ⟨hseq, hst⟩ := hcloses.same e (haccepted e he) hend
    rw [hsent', hseq, hst]
    exact ⟨fun _ => hseq ▸ (h.mem_new he).2.2, fun _ => rfl⟩

/-- **An acked end is the recorded sentinel exactly when it was not shadowed.** -/
theorem acked_end_recorded_iff (hs : Consistent W s) {v : Verdict D}
    (hv : (processGroup W project run pairs f s).2 = .ok v) (hd : d ∈ v.acked)
    (hend : isEnd d.1 = true) :
    d ∈ pairs ∧ (sentinelOf (processGroup W project run pairs f s).1.row =
      some (d.1.seq, endStatus d.1) ↔ shadowed s d = false) := by
  have h := outcome_of_ok hv
  have hrecorded := acked_recorded hv d hd
  generalize (processGroup W project run pairs f s).1 = s' at h hrecorded ⊢
  cases h with
  | frozen classified terminal =>
    rcases mem_append.mp hd with hd | hd
    · cases hd
    · obtain ⟨hacc, hseen⟩ := mem_filter.mp hd
      obtain ⟨hmem, hown⟩ := ownedByRow_of_classify classified hacc
      refine ⟨hmem, ?_⟩
      rw [shadowed, hend, hseen, hown, if_pos terminal]
      simp
  | foreign => cases hd
  | nothingNew classified open_row admitted none_new =>
    rw [Verdict.acked, append_nil] at hd
    obtain ⟨hacc, hkeep⟩ := mem_filter.mp hd
    obtain ⟨hmem, hown⟩ := ownedByRow_of_classify classified hacc
    refine ⟨hmem, ?_⟩
    rcases admitted_end admitted hacc hkeep hend with hsent | ⟨hnone, hcloses⟩
    · rw [shadowed_of_sentinel open_row hsent]
      exact ⟨fun _ => rfl, fun _ => hsent⟩
    · have hshadow := shadowed_of_none hnone hend hown hcloses.none_above
      rw [hnone, hshadow.mpr hrecorded]
      simp
  | written classified writes =>
    rw [Verdict.acked, append_nil] at hd
    obtain ⟨hacc, hkeep⟩ := mem_filter.mp hd
    obtain ⟨hmem, hown⟩ := ownedByRow_of_classify classified hacc
    refine ⟨hmem, ?_⟩
    rcases admitted_end writes.admitted hacc hkeep hend with hsent | ⟨hnone, hcloses⟩
    · rw [shadowed_of_sentinel writes.open_row hsent]
      refine ⟨fun _ => rfl, fun _ => ?_⟩
      rcases writes.sentinel_cases hs.status_null with
        ⟨n, st, hold, hnew, -⟩ | ⟨hold, -⟩ | ⟨hold, -⟩
      · rw [hnew, ← hold, hsent]
      · rw [hsent] at hold
        cases hold
      · rw [hsent] at hold
        cases hold
    · rw [writes.end_recorded_iff hs hnone hcloses hacc hkeep,
        ← shadowed_of_none hnone hend hown hcloses.none_above, Bool.not_eq_true]

/-- **A recorded sentinel is permanent**: no step changes it. -/
theorem runStep_sentinel (hs : Consistent W s) (a : RunStep D) (h : sentinelOf s.row = some p) :
    sentinelOf (runStep W project run s a).row = some p := by
  rcases runStep_cases W project run s a with ⟨hrow, -⟩ | ⟨b, hb⟩ | ⟨row, hrow, -, heq⟩
  · rw [hrow, h]
  · rcases hb.sentinel_cases hs.status_null with
      ⟨n, st, hold, hnew, -⟩ | ⟨hold, -⟩ | ⟨hold, -⟩
    · rw [hnew, ← hold, h]
    · rw [h] at hold
      cases hold
    · rw [h] at hold
      cases hold
  · rw [hrow] at h
    rw [heq]
    exact h

end Acked

/-! ### Runs -/

section Run

variable [DecidableEq D]

/-- No delivery of the run is shadowed when its transaction starts. -/
def Unshadowed (W : Writer D) (project : ProjectId) (run : RunId) (s : Store D)
    (steps : List (RunStep D)) : Prop :=
  ∀ earlier pairs f later, steps = earlier ++ .deliver pairs f :: later →
    ∀ d ∈ pairs, shadowed (Runs.exec (runStep W project run) s earlier) d = false

/-- Every `run_end` acked during the run is the sentinel the row records at its end. -/
def AckedEndsRecorded (W : Writer D) (project : ProjectId) (run : RunId) (s : Store D)
    (steps : List (RunStep D)) : Prop :=
  ∀ earlier pairs f later v d, steps = earlier ++ .deliver pairs f :: later →
    (processGroup W project run pairs f (Runs.exec (runStep W project run) s earlier)).2 =
      .ok v → d ∈ v.acked → isEnd d.1 = true →
    sentinelOf (Runs.exec (runStep W project run) s steps).row =
      some (d.1.seq, endStatus d.1)

/-- **Without shadowed ends, acked ends are recorded.** -/
theorem ackedEnds_recorded (W : Writer D) (project : ProjectId) (run : RunId)
    (keys : KeyTable D) (objects : ℕ → Option Bytes) (steps : List (RunStep D))
    (h : Unshadowed W project run (Store.fresh keys objects) steps) :
    AckedEndsRecorded W project run (Store.fresh keys objects) steps := by
  rintro earlier pairs f later v d rfl hv hd hend
  have hs := exec_consistent W project run keys objects earlier
  obtain ⟨hmem, hiff⟩ := acked_end_recorded_iff hs hv hd hend
  have hnow := hiff.mpr (h earlier pairs f later rfl d hmem)
  rw [Runs.exec_append]
  -- from the ack on, every step keeps invariant and sentinel
  refine (Runs.exec_invariant (I := fun s => Consistent W s ∧
    sentinelOf s.row = some (d.1.seq, endStatus d.1))
    ⟨runStep_consistent hs (.deliver pairs f), hnow⟩ ?_).2
  rintro s a - ⟨hs, hsent⟩
  exact ⟨runStep_consistent hs a, runStep_sentinel hs a hsent⟩

end Run

/-- A `tool_call` is delivered at sequence number 0. -/
def toolCallDelivered : RunStep Stamp :=
  .deliver [stdDelivery 1 0 (Nat.zero_le _) toolCallEvent] (noFaults 0)

/-- The end of the run at sequence number 1. -/
def laterEnd : Delivery Stamp := stdDelivery 2 1 one_le_maxTraceSeq runEndEvent

/-- The end that follows a recorded event is acked and is the sentinel. -/
theorem ackedEnds_recorded_later :
    ∃ v d, (processGroup stdWriter stdProject stdRun [laterEnd] (noFaults 7)
        (Runs.exec (runStep stdWriter stdProject stdRun) (Store.fresh [] fun _ => none)
          [toolCallDelivered])).2 = .ok v ∧
      d ∈ v.acked ∧ isEnd d.1 = true ∧
      sentinelOf (Runs.exec (runStep stdWriter stdProject stdRun) (Store.fresh [] fun _ => none)
        [toolCallDelivered, .deliver [laterEnd] (noFaults 7)]).row =
        some (d.1.seq, endStatus d.1) := by
  have hacked : ((processGroup stdWriter stdProject stdRun [laterEnd] (noFaults 7)
      (Runs.exec (runStep stdWriter stdProject stdRun) (Store.fresh [] fun _ => none)
        [toolCallDelivered])).2.toOption.any fun v => v.acked.any fun d => isEnd d.1) = true := by
    decide +kernel
  have hopen : shadowed (Runs.exec (runStep stdWriter stdProject stdRun)
      (Store.fresh [] fun _ => none) [toolCallDelivered]) laterEnd = false := by decide +kernel
  obtain ⟨v, hv, hd⟩ := (Option.any_eq_true _ _).mp hacked
  obtain ⟨d, hd, hend⟩ := any_eq_true.mp hd
  have hok := Fallible.toOption_eq_some.mp hv
  refine ⟨v, d, hok, hd, hend, ackedEnds_recorded stdWriter stdProject stdRun [] (fun _ => none)
    [toolCallDelivered, .deliver [laterEnd] (noFaults 7)] ?_ [toolCallDelivered] _ _ [] v d rfl
    hok hd hend⟩
  intro earlier pairs f later heq d hd
  match earlier with
  | [] => exact shadowed_fresh [] _
  | [_] =>
    obtain ⟨rfl, hrest⟩ := cons.inj heq
    obtain ⟨rfl, -⟩ := RunStep.deliver.inj (cons.inj hrest).1
    exact mem_singleton.mp hd ▸ hopen
  | _ :: _ :: _ => simp at heq

/-- **An end that is acked and lost.** A `tool_call` is recorded at sequence number 0; then
the `run_end` of the run arrives with the same number. It is acked, no sentinel is recorded,
and the run stays pending. -/
theorem end_shadowed_by_recorded_event :
    let s := Runs.exec (runStep stdWriter stdProject stdRun) (Store.fresh [] fun _ => none)
      [.deliver [stdDelivery 1 0 (by decide) toolCallEvent] (noFaults 0)]
    let result := processGroup stdWriter stdProject stdRun
      [stdDelivery 2 0 (by decide) runEndEvent] (noFaults 7) s
    (result.2.toOption.map fun v => v.acked.map fun d =>
        (d.2.id, d.1.seq, isEnd d.1, endStatus d.1)) = some [(2, 0, true, some .ok)] ∧
      sentinelOf result.1.row = none ∧
      result.1.row.map TraceIndexRow.outcomeStatus = some .pending := by
  decide +kernel

end Tracebed
