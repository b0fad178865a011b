import Tracebed.ProposalWorld

/-!
# The Caps on Proposals

A submission inserts its row under the lock of the project, after it found room there for every
quota that will count the row. So each quota holds in every run, however the submissions are
interleaved and wherever they fail. The quota of a UTC day is the exception: the day is that of
the first reading of the clock, and the row is stamped with a second one.

## Main results

* `proposals_capped`: **the per-run cap and the redelivery check hold in every run.**
* `Sample.straddling_submissions`: two submissions that land on one day under a cap of one.
* `daily_cap_of_oneDay`: the daily cap, when no submission reads the clock on two days.
-/

open Py Fallible Interaction Routine List Bool Function

namespace Tracebed

variable {ι π : Type} {cfg : ProposalConfig}
  {key : ProjectId → ℤ} {process : ι → π} {i : ι} {s t : CapWorld ι π} {α : Type}

/-! ### How calls are served -/

variable {r : Except ControlError α}

/-- A call that only reads leaves the world alone and answers what is there, unless it raises. -/
theorem answer_eq {x : Chance} {a : α} (h : x.answer s a = some (r, t)) :
    t = s ∧ ∀ b, r = .ok b → b = a := by
  rw [Chance.answer] at h
  split at h <;> cases h
  · exact ⟨rfl, nofun⟩
  · exact ⟨rfl, fun b hb => (Except.ok.inj hb).symm⟩

/-- A statement raises and changes nothing, or its connection is alive and it runs. -/
theorem statement_eq {x : Chance} {result : Option (Except ControlError α × CapWorld ι π)}
    (h : x.statement s i result = some (r, t)) :
    (t = s ∧ ∃ e, r = .error e) ∨ (s.severed i = false ∧ result = some (r, t)) := by
  rw [Chance.statement] at h
  split at h
  · cases h
    exact .inl ⟨rfl, _, rfl⟩
  · next halive =>
    split at h
    · cases h
      exact .inl ⟨rfl, _, rfl⟩
    · exact .inr ⟨eq_false_of_not_eq_true halive, h⟩

/-! ### What a submission knows and leaves -/

variable {q : Quota} {quotas : List Quota} {project : ProjectId} {run : RunId} {hash : PyStr}
  {result : ProposalInsertResult} {S : ScanSeal} {a : Submission}

/-- Before its transaction, nobody else disturbs a submission. -/
theorem waiting_stable (l : List ℤ) : (CapWorld.others key i).Stable fun s : CapWorld ι π =>
    s.readings i = l ∧ s.Idle i :=
  (CapWorld.readings_stable l).and CapWorld.idle_stable

/-- A count below its bound, read under the lock, adds its quota to those with room. -/
theorem holding_of_count (hs : s.Holding cfg key i project quotas) (halive : s.severed i = false)
    (hcount : ((s.visible i).countP q.counts : ℤ) < q.bound cfg) :
    s.Holding cfg key i project (q :: quotas) := by
  refine ⟨hs.toIdle, hs.locked, fun _ q' hq' => ?_⟩
  rw [hs.visible_eq halive, countP_map] at hcount
  rcases mem_cons.mp hq' with rfl | hq'
  · exact hcount
  · exact hs.room halive q' hq'

/-- What the body of the transaction leaves, before its commit. -/
def InsertPending (i : ι) (project : ProjectId) (run : RunId) (hash : PyStr) (s : CapWorld ι π) :
    ProposalInsertResult → Prop
  | .inserted id _ => ∃ row, row.id = id ∧ s.Written i row
  | .duplicate id => s.Idle i ∧ s.Stored project run hash id
  | .perRunCap _ | .perProjectDailyCap _ => s.Idle i

/-- What `insert_proposal_within_caps` leaves. -/
def InsertSettled (i : ι) (project : ProjectId) (run : RunId) (hash : PyStr) (s : CapWorld ι π) :
    ProposalInsertResult → Prop
  | .inserted id _ => s.Landed i id
  | .duplicate id => s.Stored project run hash id
  | .perRunCap _ | .perProjectDailyCap _ => s.Unwritten i

/-- Nobody else disturbs what an open transaction is about to leave. -/
theorem insertPending_stable (result : ProposalInsertResult) : (CapWorld.others key i).Stable
    fun s : CapWorld ι π => InsertPending i project run hash s result := by
  intro s t hR h
  cases result with
  | inserted id observed =>
    obtain ⟨row, hid, hrow⟩ := h
    exact ⟨row, hid, CapWorld.written_stable hR hrow⟩
  | duplicate id => exact ⟨CapWorld.idle_stable hR h.1, CapWorld.stored_stable hR h.2⟩
  | perRunCap observed | perProjectDailyCap observed => exact CapWorld.idle_stable hR h

/-- Nobody else disturbs what `insert_proposal_within_caps` has left. -/
theorem insertSettled_stable (result : ProposalInsertResult) : (CapWorld.others key i).Stable
    fun s : CapWorld ι π => InsertSettled i project run hash s result := by
  intro s t hR h
  cases result with
  | inserted id observed => exact CapWorld.landed_stable hR h
  | duplicate id => exact CapWorld.stored_stable hR h
  | perRunCap observed | perProjectDailyCap observed => exact CapWorld.unwritten_stable hR h

/-- What a submission has done when it returns. -/
def Settled (S : ScanSeal) (a : Submission) (i : ι) (s : CapWorld ι π) : ProposalOutcome → Prop
  | .accepted id _ => s.Landed i id
  | .duplicate id => ∃ hash, contentHash S a.proposal.content = .ok hash ∧
      s.Stored a.projectId a.runId hash id
  | .refused _ => s.Unwritten i

/-- Nobody else disturbs what a submission has done when it returns. -/
theorem settled_stable (outcome : ProposalOutcome) :
    (CapWorld.others key i).Stable fun s : CapWorld ι π => Settled S a i s outcome := by
  intro s t hR h
  cases outcome with
  | accepted id status => exact CapWorld.landed_stable hR h
  | duplicate id =>
    obtain ⟨hash, hhash, hstored⟩ := h
    exact ⟨hash, hhash, CapWorld.stored_stable hR hstored⟩
  | refused reason => exact CapWorld.unwritten_stable hR h

/-- The outcome that is made of an insert result says what the insert left. -/
theorem settled_of_insertSettled {status : Status} {day : ℤ}
    (hhash : contentHash S a.proposal.content = .ok hash)
    (h : InsertSettled i a.projectId a.runId hash s result) :
    Settled S a i s (fromInsertResult cfg status a.runId day result) := by
  cases result with
  | inserted id observed => exact h
  | duplicate id => exact ⟨hash, hhash, h⟩
  | perRunCap observed | perProjectDailyCap observed => exact h

variable [DecidableEq ι] [DecidableEq π]

section Submission

/-- What a part of submission `i` ensures among the others. -/
abbrev Upholds {ι π : Type} [DecidableEq ι] [DecidableEq π] (cfg : ProposalConfig)
    (key : ProjectId → ℤ) (process : ι → π) (i : ι) {α : Type} (P : CapWorld ι π → Prop)
    (p : Control α) (Q : α → CapWorld ι π → Prop) : Prop :=
  Ensures (serve key process) i (CapWorld.Bounded cfg key) (CapWorld.others key i)
    (CapWorld.Spares key i) P p Q

variable {P : CapWorld ι π → Prop} {c : ControlCall} {Q : c.Result → CapWorld ι π → Prop}

/-- A call that leaves the world as it is. -/
theorem upholds_read (hP : (CapWorld.others key i).Stable P)
    (hQ : ∀ a, (CapWorld.others key i).Stable (Q a))
    (hread : ∀ s, P s → ∀ x r t, serve key process i x s c = some (r, t) →
      t = s ∧ Returning Q r s) : Upholds cfg key process i P (Control.call c) Q := by
  refine ensures_perform hP hQ fun s hs hI x r t ht => ?_
  obtain ⟨rfl, hr⟩ := hread s hs x r t ht
  exact ⟨hI, CapWorld.spares_refl _, hr⟩

variable {v : Chance → CapWorld ι π → c.Result}

/-- A call that is answered from the world, whatever the answer, keeps what is stable. -/
theorem upholds_answer (hP : (CapWorld.others key i).Stable P)
    (hserve : ∀ x s, serve key process i x s c = x.answer s (v x s)) :
    Upholds cfg key process i P (Control.call c) fun _ => P := by
  refine upholds_read hP (fun _ => hP) fun s hs x r t ht => ?_
  rw [hserve] at ht
  refine ⟨(answer_eq ht).1, ?_⟩
  cases r with
  | ok a => exact hs
  | error e => trivial

/-- A statement that reads: its postcondition has to hold of what a live connection sees. -/
theorem upholds_statement (hP : (CapWorld.others key i).Stable P)
    (hQ : ∀ a, (CapWorld.others key i).Stable (Q a))
    (hserve : ∀ x s, serve key process i x s c = x.statement s i (some (.ok (v x s), s)))
    (hv : ∀ x s, s.severed i = false → P s → Q (v x s) s) :
    Upholds cfg key process i P (Control.call c) Q := by
  refine upholds_read hP hQ fun s hs x r t ht => ?_
  rw [hserve] at ht
  obtain ⟨rfl, e, rfl⟩ | ⟨halive, ht⟩ := statement_eq ht
  · exact ⟨rfl, trivial⟩
  · cases ht
    exact ⟨rfl, hv x s halive hs⟩

/-- A step that calls nothing: it raises, or its value is used. -/
theorem upholds_lift {ε β : Type} {wrap : ε → ControlError} {a : Except ε β} {f : β → Control α}
    {Q : α → CapWorld ι π → Prop}
    (hf : ∀ b, a = .ok b → Upholds cfg key process i P (f b) Q) :
    Upholds cfg key process i P (Control.lift wrap a >>= f) Q := by
  cases a with
  | ok b => exact hf b rfl
  | error e => exact ensures_bind (Q := fun _ _ => False) ensures_throw fun _ _ => False.elim

variable {body : Control α}

/-- The lock of the process excludes nobody outside it and keeps nothing of the database. -/
theorem upholds_withCapLock {Q : α → CapWorld ι π → Prop} (hP : (CapWorld.others key i).Stable P)
    (hQ : ∀ a, (CapWorld.others key i).Stable (Q a))
    (hPlock : ∀ s lock, P s → P { s with capLock := lock })
    (hQlock : ∀ a s lock, Q a s → Q a { s with capLock := lock })
    (hbody : Upholds cfg key process i P body Q) :
    Upholds cfg key process i P (withCapLock body) Q := by
  have hlock (s : CapWorld ι π) (lock : π → Option ι) (hI : s.Bounded cfg key) :
      CapWorld.Bounded cfg key { s with capLock := lock } ∧
        CapWorld.Spares key i s { s with capLock := lock } :=
    ⟨⟨hI.within, hI.guarded, hI.room⟩, fun j _ => ⟨.refl j _, rfl⟩⟩
  have hrelease {P : CapWorld ι π → Prop} (hP : (CapWorld.others key i).Stable P)
      (hPlock : ∀ s lock, P s → P { s with capLock := lock }) :
      Upholds cfg key process i P (Control.call .releaseCapLock) fun _ => P := by
    refine ensures_perform hP (fun _ => hP) fun s hs hI x r t ht => ?_
    cases ht
    exact ⟨(hlock s _ hI).1, (hlock s _ hI).2, hPlock s _ hs⟩
  refine ensures_bind (Q := fun _ => P) ?_ fun _ => ?_
  · refine ensures_perform hP (fun _ => hP) fun s hs hI x r t ht => ?_
    rw [serve] at ht
    split_ifs at ht
    cases ht
    exact ⟨(hlock s _ hI).1, (hlock s _ hI).2, hPlock s _ hs⟩
  · refine ensures_bind (ensures_cleanup hbody hQ ?_) fun a => ?_
    · exact hrelease (fun _ _ _ _ => trivial) fun _ _ _ => trivial
    · exact ensures_bind (hrelease (hQ a) (hQlock a)) fun _ => ensures_pure (hQ a) fun _ => id

/-! ### The transaction -/

/-- A reading of the clock. -/
theorem upholds_now {l : List ℤ} (hP : (CapWorld.others key i).Stable P)
    (hread : ∀ s readings, P s → P { s with readings }) :
    Upholds cfg key process i (fun s => s.readings i = l ∧ P s) (Control.call .now)
      fun (instant : ℤ) s => s.readings i = l ++ [instant] ∧ P s := by
  refine ensures_perform ((CapWorld.readings_stable l).and hP)
    (fun a => (CapWorld.readings_stable _).and hP) fun s hs hI x r t ht => ?_
  cases ht
  refine ⟨hI.read i s.clock, fun j hj => ?_, ?_, hread s _ hs.2⟩
  · exact ⟨.refl j _, update_of_ne hj _ _⟩
  · exact (update_self ..).trans (congrArg (· ++ [s.clock]) hs.1)

/-- The advisory lock is taken by an idle submission, with no quota compared yet. -/
theorem upholds_lockCaps (l : List ℤ) (project : ProjectId) :
    Upholds cfg key process i (fun s => s.readings i = l ∧ s.Idle i)
      (Control.call (.lockCaps project))
      fun _ s => s.readings i = l ∧ s.Holding cfg key i project [] := by
  refine ensures_perform (waiting_stable l)
    (fun _ => (CapWorld.readings_stable l).and (CapWorld.holding_stable (by simp)))
    fun s hs hI x r t ht => ?_
  obtain ⟨rfl, e, rfl⟩ | ⟨-, ht⟩ := statement_eq ht
  · exact ⟨hI, CapWorld.spares_refl _, trivial⟩
  · split_ifs at ht with hfree
    cases ht
    exact ⟨⟨hI.within, hI.guarded.acquire hfree, hI.room⟩,
      CapWorld.spares_update fun j => LockedTable.acquire_undisturbed hfree, hs.1,
      ⟨⟨hs.2.unwritten, hs.2.clean⟩, fun _ => update_self .., by simp⟩⟩

/-- The redelivery check under the lock. -/
theorem upholds_txFind (l : List ℤ) (project : ProjectId) (run : RunId) (hash : PyStr) :
    Upholds cfg key process i (fun s => s.readings i = l ∧ s.Holding cfg key i project [])
      (Control.call (.txFindProposalInRun project run hash))
      fun (found : Option MemoryId) s => s.readings i = l ∧
        match found with
        | some id => s.Idle i ∧ s.Stored project run hash id
        | none => s.Holding cfg key i project [.perContent project run hash] := by
  refine upholds_statement (v := fun _ s =>
      ((s.visible i).find? (MemoryRow.repeats project run hash)).map MemoryRow.id)
    ((CapWorld.readings_stable l).and (CapWorld.holding_stable (by simp)))
    (fun found => (CapWorld.readings_stable l).and ?_) (fun _ _ => rfl) fun x s halive hs =>
      ⟨hs.1, ?_⟩
  · match found with
    | some id => exact CapWorld.idle_stable.and CapWorld.stored_stable
    | none => exact CapWorld.holding_stable (by simp [Quota.project])
  · rw [hs.2.visible_eq halive]
    match hfind : (s.rows.map StoredRow.row).find? (MemoryRow.repeats project run hash) with
    | some row =>
      obtain ⟨r, hr, rfl⟩ := mem_map.mp (mem_of_find?_eq_some hfind)
      exact ⟨hs.2.toIdle, r, hr, find?_some hfind, rfl⟩
    | none =>
      refine ⟨hs.2.toIdle, hs.2.locked, fun _ q hq => ?_⟩
      rw [mem_singleton] at hq
      subst hq
      have hnone : (Quota.perContent project run hash).count s.rows = 0 :=
        Quota.count_eq_zero fun r hr => find?_eq_none.mp hfind _ (mem_map_of_mem hr)
      rw [hnone]
      exact zero_lt_one

/-- A count under the lock: a number below the cap is room. -/
theorem upholds_txCount (q : Quota) (toNat : c.Result → ℕ)
    (hserve : ∀ x s, serve key process i x s c = x.statement s i (some (.ok (v x s), s)))
    (hv : ∀ x s, toNat (v x s) = (s.visible i).countP q.counts) (l : List ℤ)
    (hquotas : ∀ q' ∈ quotas, q'.project = q.project) :
    Upholds cfg key process i
      (fun s => s.readings i = l ∧ s.Holding cfg key i q.project quotas) (Control.call c)
      fun n s => s.readings i = l ∧ s.Holding cfg key i q.project quotas ∧
        (toNat n < q.bound cfg → s.Holding cfg key i q.project (q :: quotas)) := by
  have hcons : ∀ q' ∈ q :: quotas, q'.project = q.project := by simpa using hquotas
  refine upholds_statement ((CapWorld.readings_stable l).and (CapWorld.holding_stable hquotas))
    (fun n => (CapWorld.readings_stable l).and ((CapWorld.holding_stable hquotas).and
      fun s t hR h hn => CapWorld.holding_stable hcons hR (h hn))) hserve
    fun x s halive hs => ⟨hs.1, hs.2, fun hn => holding_of_count hs.2 halive ?_⟩
  rwa [hv] at hn

/-- What counts a proposal of a run: its content, its run and its day. -/
theorem Quota.eq_of_counts {row : MemoryRow} (hrow : row.item.provenance = proposalProvenance run)
    (h : q.counts row = true) :
    q = .perContent row.projectId run row.contentHash ∨ q = .perRun row.projectId run ∨
      q = .perDay row.projectId (utcDay row.createdAt) := by
  cases q with
  | perContent project run' hash =>
    simp only [counts, MemoryRow.repeats, MemoryRow.inRun, MemoryRow.isProposal, hrow,
      proposalProvenance, and_eq_true, decide_eq_true_eq, Option.some.injEq] at h
    obtain ⟨⟨⟨rfl, -⟩, rfl⟩, rfl⟩ := h
    exact .inl rfl
  | perRun project run' =>
    simp only [counts, MemoryRow.inRun, MemoryRow.isProposal, hrow, proposalProvenance,
      and_eq_true, decide_eq_true_eq, Option.some.injEq] at h
    obtain ⟨⟨rfl, -⟩, rfl⟩ := h
    exact .inr (.inl rfl)
  | perDay project day =>
    obtain ⟨hproposal, rfl⟩ := MemoryRow.onDay_iff.mp h
    simp only [MemoryRow.isProposal, and_eq_true, decide_eq_true_eq] at hproposal
    obtain ⟨rfl, -⟩ := hproposal
    exact .inr (.inr rfl)

/-- The quotas a submission compares under the lock. -/
def comparedQuotas (project : ProjectId) (run : RunId) (hash : PyStr) (day : ℤ) : List Quota :=
  [.perDay project day, .perRun project run, .perContent project run hash]

/-- The compared quotas are those of the project whose lock is held. -/
theorem comparedQuotas_project {day : ℤ} :
    ∀ q ∈ comparedQuotas project run hash day, q.project = project := by
  simp [comparedQuotas, Quota.project]

/-- The row is inserted with room in everything that counts it. The quota of its day is among
those compared if the clock was read on one day. -/
theorem upholds_insert (row : MemoryRow) (now : ℤ)
    (hrow : row.item.provenance = proposalProvenance run) :
    Upholds cfg key process i (fun s => s.readings i = [now, row.createdAt] ∧
        s.Holding cfg key i row.projectId
          (comparedQuotas row.projectId run row.contentHash (utcDay now)))
      (Control.call (.insertMemoryItem row)) fun _ s => s.Written i row := by
  refine ensures_perform ((CapWorld.readings_stable _).and
    (CapWorld.holding_stable comparedQuotas_project)) (fun _ => CapWorld.written_stable)
    fun s hs hI x r t ht => ?_
  obtain ⟨rfl, e, rfl⟩ | ⟨halive, ht⟩ := statement_eq ht
  · exact ⟨hI, CapWorld.spares_refl _, trivial⟩
  split_ifs at ht
  · cases ht
    exact ⟨hI, CapWorld.spares_refl _, trivial⟩
  · cases ht
    refine ⟨hI.write (hs.2.locked halive) fun q hq happ => hs.2.room halive q ?_,
      CapWorld.spares_update fun j => LockedTable.write_undisturbed, hs.2.unwritten,
      fun _ => update_self ..⟩
    obtain rfl | rfl | rfl := Quota.eq_of_counts hrow hq
    · simp [comparedQuotas]
    · simp [comparedQuotas]
    · have hday : utcDay row.createdAt = utcDay now := by
        rw [hs.1] at happ
        exact happ _ (by simp) _ (by simp)
      simp [comparedQuotas, hday]

/-- A commit: a live connection makes it, a lost one changes nothing. -/
theorem upholds_commit {Q : CapWorld ι π → Prop} (hP : (CapWorld.others key i).Stable P)
    (hQ : (CapWorld.others key i).Stable Q)
    (hcommit : ∀ s, s.severed i = false → P s → Q (s.update (·.commit i))) :
    Upholds cfg key process i P (Control.call .commit) fun _ => Q := by
  refine ensures_perform hP (fun _ => hQ) fun s hs hI x r t ht => ?_
  rw [serve] at ht
  split at ht
  · cases ht
    exact ⟨hI, CapWorld.spares_refl _, trivial⟩
  · next halive =>
    split at ht
    · cases ht
      exact ⟨hI.commit i,
        CapWorld.spares_update fun j => LockedTable.commit_undisturbed hI.guarded,
        hcommit s (eq_false_of_not_eq_true halive) hs⟩
    · cases ht
      cases x.late with
      | true =>
        exact ⟨hI.commit i,
          CapWorld.spares_update fun j => LockedTable.commit_undisturbed hI.guarded, trivial⟩
      | false =>
        exact ⟨hI.finish i,
          CapWorld.spares_update fun j => LockedTable.finish_undisturbed, trivial⟩

/-- A transaction around a body: what the body leaves is committed, or rolled back with it. -/
theorem upholds_scopedTransaction {Q Q' : α → CapWorld ι π → Prop}
    (hP : (CapWorld.others key i).Stable P) (hQ : ∀ a, (CapWorld.others key i).Stable (Q a))
    (hQ' : ∀ a, (CapWorld.others key i).Stable (Q' a))
    (hcommit : ∀ a s, s.severed i = false → Q a s → Q' a (s.update (·.commit i)))
    (hbody : Upholds cfg key process i P body Q) :
    Upholds cfg key process i P (scopedTransaction project body) Q' := by
  refine ensures_bind (Q := fun _ => P) ?_ fun _ => ensures_bind (Q := Q) ?_ fun a => ?_
  · exact upholds_statement (v := fun _ _ => ()) hP (fun _ => hP) (fun _ _ => rfl)
      fun _ _ _ => id
  · refine ensures_cleanup hbody hQ ?_
    refine ensures_perform (fun _ _ _ _ => trivial) (fun _ _ _ _ _ => trivial)
      fun s _ hI x r t ht => ?_
    cases ht
    exact ⟨hI.finish i, CapWorld.spares_update fun j => LockedTable.finish_undisturbed, trivial⟩
  · exact ensures_bind (upholds_commit (hQ a) (hQ' a) (hcommit a)) fun _ =>
      ensures_pure (hQ' a) fun _ => id

omit [DecidableEq π] in
/-- The commit turns what the body of the transaction left into what the insert leaves. -/
theorem insertSettled_commit (halive : s.severed i = false)
    (h : InsertPending i project run hash s result) :
    InsertSettled i project run hash (s.update (·.commit i)) result := by
  have hsame (h : s.Idle i) : (s.update (·.commit i)).rows = s.rows := h.commit_rows halive
  have hunwritten (h : s.Idle i) : (s.update (·.commit i)).Unwritten i := by
    rw [LockedTable.Unwritten, hsame h]
    exact h.unwritten
  cases result with
  | inserted id observed =>
    obtain ⟨row, rfl, hrow⟩ := h
    exact ⟨⟨some i, row⟩, hrow.mem_commit halive, rfl, rfl⟩
  | duplicate id =>
    obtain ⟨r, hr, hstored⟩ := h.2
    refine ⟨r, ?_, hstored⟩
    rwa [hsame h.1]
  | perRunCap observed | perProjectDailyCap observed => exact hunwritten h

/-- The fence and the edge to the run touch nothing that is counted. -/
theorem upholds_lockSnapshot (hP : (CapWorld.others key i).Stable P)
    (digests : Option (List Bytes)) :
    Upholds cfg key process i P (lockSnapshot project run digests) fun _ => P := by
  cases digests with
  | none => exact ensures_pure hP fun _ => id
  | some expected =>
    refine ensures_bind (upholds_statement (v := fun x _ => x.snapshot) hP (fun _ => hP)
      (fun _ _ => rfl) fun _ _ _ => id) fun actual => ?_
    split_ifs
    · exact ensures_pure hP fun _ => id
    · exact ensures_throw

/-- Binding the run to the memory touches nothing the caps read. -/
theorem upholds_bindRun (hP : (CapWorld.others key i).Stable P) (memory : MemoryId)
    (digests : Option (List Bytes)) :
    Upholds cfg key process i P (bindRun project run memory digests) fun _ => P := by
  cases digests with
  | none => exact ensures_pure hP fun _ => id
  | some expected =>
    exact upholds_statement (v := fun _ _ => ()) hP (fun _ => hP) (fun _ _ => rfl)
      fun _ _ _ => id

variable {item : NewMemoryItem} {verdict : ScanVerdict} {now : ℤ} {digests : Option (List Bytes)}

/-- The insert writes its row while every compared quota has room. -/
theorem upholds_implInsertMemoryItem (hitem : item.provenance = proposalProvenance run) :
    Upholds cfg key process i (fun s => s.readings i = [now] ∧ s.Holding cfg key i project
        (comparedQuotas project run hash (utcDay now)))
      (implInsertMemoryItem project item verdict hash digests)
      fun id s => ∃ row, row.id = id ∧ s.Written i row := by
  have hholding : (CapWorld.others key i).Stable fun s : CapWorld ι π =>
      s.Holding cfg key i project (comparedQuotas project run hash (utcDay now)) :=
    CapWorld.holding_stable comparedQuotas_project
  refine ensures_bind (upholds_answer ((CapWorld.readings_stable _).and hholding)
    fun _ _ => rfl) fun memoryId => ?_
  refine ensures_bind (upholds_now hholding fun s _ hs => ⟨⟨hs.unwritten, hs.clean⟩, hs.locked,
    hs.room⟩) fun instant => ?_
  refine ensures_bind (upholds_insert (memoryRow project item verdict hash digests memoryId instant)
    now hitem) fun _ => ?_
  exact ensures_pure CapWorld.written_stable fun s hs => ⟨_, rfl, hs⟩

/-- **The transaction of a submission**: what it inserts had room under the lock. -/
theorem upholds_insertWithinCaps (hitem : item.provenance = proposalProvenance run) :
    Upholds cfg key process i (fun s => s.readings i = [now] ∧ s.Idle i)
      (insertWithinCaps cfg project run item verdict hash (utcDay now) digests)
      fun result s => InsertPending i project run hash s result := by
  refine ensures_bind (upholds_lockSnapshot (waiting_stable _) digests) fun _ => ?_
  refine ensures_bind (upholds_lockCaps [now] project) fun _ => ?_
  refine ensures_bind (upholds_txFind [now] project run hash) fun found => ?_
  match found with
  | some existing =>
    exact ensures_pure ((CapWorld.readings_stable _).and
      (insertPending_stable (.duplicate existing))) fun _ hs => hs.2
  | none =>
    refine ensures_bind (upholds_txCount (.perRun project run) id (fun _ _ => rfl)
      (fun _ _ => rfl) [now] (by simp [Quota.project])) fun runCount => ?_
    split_ifs with hrun
    · exact Ensures.consequence (ensures_pure (waiting_stable _) fun _ hs => hs.2)
        (fun s hs => ⟨hs.1, hs.2.1.toIdle⟩) fun _ _ => id
    refine Ensures.consequence (P := fun s => s.readings i = [now] ∧ s.Holding cfg key i project
      [.perRun project run, .perContent project run hash]) ?_
      (fun s hs => ⟨hs.1, hs.2.2 (not_le.mp hrun)⟩) fun _ _ => id
    refine ensures_bind (upholds_txCount (.perDay project (utcDay now)) id (fun _ _ => rfl)
      (fun _ _ => rfl) [now] (by simp [Quota.project])) fun dayCount => ?_
    split_ifs with hday
    · exact Ensures.consequence (ensures_pure (waiting_stable _) fun _ hs => hs.2)
        (fun s hs => ⟨hs.1, hs.2.1.toIdle⟩) fun _ _ => id
    refine Ensures.consequence (P := fun s => s.readings i = [now] ∧ s.Holding cfg key i project
      (comparedQuotas project run hash (utcDay now))) ?_
      (fun s hs => ⟨hs.1, hs.2.2 (not_le.mp hday)⟩) fun _ _ => id
    refine ensures_bind (upholds_implInsertMemoryItem hitem) fun memoryId => ?_
    have hpending : (CapWorld.others key i).Stable fun s : CapWorld ι π =>
        InsertPending i project run hash s (.inserted memoryId runCount) :=
      insertPending_stable _
    refine ensures_bind (upholds_bindRun hpending memoryId digests) fun _ => ?_
    exact ensures_pure hpending fun _ => id

/-- `insert_proposal_within_caps` does what it reports. -/
theorem upholds_insertProposalWithinCaps {S : ScanSeal}
    (hitem : item.provenance = proposalProvenance run) :
    Upholds cfg key process i (fun s => s.readings i = [now] ∧ s.Idle i)
      (insertProposalWithinCaps S cfg project run item verdict (utcDay now) digests)
      fun result s => ∃ hash, contentHash S item.content = .ok hash ∧
        InsertSettled i project run hash s result := by
  refine upholds_lift fun _ _ => ?_
  refine upholds_lift fun hash hhash => ?_
  refine upholds_lift fun _ _ => ?_
  refine Ensures.consequence (upholds_scopedTransaction (waiting_stable _) insertPending_stable
    insertSettled_stable (fun _ _ => insertSettled_commit) (upholds_insertWithinCaps hitem))
    (fun _ => id) fun result s h => ⟨hash, hhash, h⟩

/-! ### The submission -/

variable {agentType : AgentTypeId} {scopeType : ScopeType} {memType : MemType}

/-- Preparing the item keeps what is stable, and the item is the submission's. -/
theorem upholds_prepareItem {now : ℤ} (hP : (CapWorld.others key i).Stable P) :
    Upholds cfg key process i P (prepareItem S cfg a memType scopeType agentType now)
      fun r s => P s ∧ r.1.provenance = proposalProvenance a.runId ∧
        r.1.content = a.proposal.content := by
  refine ensures_bind (upholds_answer hP fun _ _ => rfl) fun result => ?_
  refine ensures_bind (upholds_answer hP fun _ _ => rfl) fun drawn => ?_
  refine upholds_lift fun verdict _ => ?_
  refine upholds_lift fun limits _ => ?_
  refine upholds_lift fun status _ => ?_
  refine upholds_lift fun item hitem => ?_
  refine ensures_pure hP fun s hs => ⟨hs, ?_⟩
  rw [MemoryItemFields.toFields_of_make hitem]
  exact ⟨rfl, rfl⟩

/-- The critical section: looks that decide nothing but a refusal, and the transaction. -/
theorem upholds_spendCap {now : ℤ} {digest : PyStr}
    (hdigest : contentHash S a.proposal.content = .ok digest) :
    Upholds cfg key process i (fun s => s.readings i = [now] ∧ s.Idle i)
      (spendCap S cfg a memType scopeType agentType now digest)
      fun outcome s => Settled S a i s outcome := by
  refine ensures_bind (Q := fun found s => (s.readings i = [now] ∧ s.Idle i) ∧
    ∀ id, found = some id → s.Stored a.projectId a.runId digest id) ?_ fun found => ?_
  · refine upholds_read (waiting_stable _) (fun found => (waiting_stable _).and
      fun s t hR h id hid => CapWorld.stored_stable hR (h id hid)) fun s hs x r t ht => ?_
    obtain ⟨rfl, hr⟩ := answer_eq ht
    refine ⟨rfl, ?_⟩
    match r with
    | .error e => trivial
    | .ok found =>
      refine ⟨hs, fun id hid => ?_⟩
      rw [hr found rfl] at hid
      obtain ⟨row, hfind, rfl⟩ := Option.map_eq_some_iff.mp hid
      obtain ⟨r, hr, rfl⟩ := mem_map.mp (mem_of_find?_eq_some hfind)
      exact ⟨r, hr, find?_some hfind, rfl⟩
  match found with
  | some already =>
    exact (ensures_pure (settled_stable (.duplicate already)) fun _ => id).consequence
      (fun s hs => ⟨digest, hdigest, hs.2 already rfl⟩) fun _ _ => id
  | none =>
    refine Ensures.consequence (P := fun s => s.readings i = [now] ∧ s.Idle i) ?_
      (fun s hs => hs.1) fun _ _ => id
    refine ensures_bind (upholds_answer (waiting_stable _) fun _ _ => rfl)
      fun runCount => ?_
    split_ifs with hrun
    · exact ensures_pure (waiting_stable _) fun s hs => hs.2.unwritten
    refine ensures_bind (upholds_answer (waiting_stable _) fun _ _ => rfl)
      fun dayCount => ?_
    split_ifs with hday
    · exact ensures_pure (waiting_stable _) fun s hs => hs.2.unwritten
    refine ensures_bind (upholds_prepareItem (waiting_stable _)) fun ⟨item, verdict⟩ =>
      ensures_assuming fun hitem => ?_
    refine ensures_bind (upholds_insertProposalWithinCaps hitem.1) fun result => ?_
    refine Ensures.consequence (ensures_pure (settled_stable _) fun _ => id)
      (fun s ⟨hash, hhash, h⟩ => ?_) fun _ _ => id
    rw [hitem.2] at hhash
    exact settled_of_insertSettled hhash h

/-- **A submission among others**: when it returns, it has stored its proposal, or found it
stored, or written nothing; and whatever it inserted had room in every quota that counts it. -/
theorem submitProposal_ensures (S : ScanSeal) (cfg : ProposalConfig) (a : Submission) :
    Upholds cfg key process i (fun s => s.readings i = [] ∧ s.Idle i) (submitProposal S cfg a)
      fun outcome s => Settled S a i s outcome := by
  refine ensures_bind (Q := fun _ s => s.readings i = [] ∧ s.Idle i) ?_ fun agentType => ?_
  · rw [resolveAgentType]
    split
    · exact ensures_pure (waiting_stable []) fun _ => id
    · refine ensures_bind (upholds_answer (waiting_stable []) fun _ _ => rfl)
        fun scope => ?_
      split_ifs
      · exact ensures_pure (waiting_stable []) fun _ => id
      · exact ensures_throw
  refine upholds_lift fun _ _ => ?_
  refine upholds_lift fun memType _ => ?_
  refine upholds_lift fun scopeType _ => ?_
  refine upholds_lift fun _ _ => ?_
  refine ensures_bind (upholds_now CapWorld.idle_stable fun s _ hs => ⟨hs.unwritten, hs.clean⟩)
    fun now => ?_
  refine upholds_lift fun digest hdigest => ?_
  refine upholds_withCapLock (waiting_stable _) settled_stable
    (fun s lock hs => ⟨hs.1, hs.2.unwritten, hs.2.clean⟩) (fun outcome s lock hs => ?_)
    (upholds_spendCap hdigest)
  cases outcome with
  | accepted id status | duplicate id | refused reason => exact hs

end Submission

/-! ### Runs -/

/-- A database without proposals, before any submission. -/
def CapWorld.start (rows : List {r : MemoryRow // r.item.provenance.cls ≠ .proposal})
    (clock : ℤ) : CapWorld ι π where
  rows := rows.map fun r => ⟨none, r.1⟩
  pending _ := none
  locks _ := none
  capLock _ := none
  severed _ := false
  clock := clock
  readings _ := []

/-- Any number of submissions under one configuration, before their first call. -/
def submissions (S : ScanSeal) (cfg : ProposalConfig) (a : ι → Submission)
    (s : CapWorld ι π) : Pool ι ControlCall (fun c => Except ControlError c.Result)
      (Except ControlError ProposalOutcome × Unit) (CapWorld ι π) where
  programs i := submitProposal S cfg (a i) ()
  shared := s

def afterRun (S : ScanSeal) (cfg : ProposalConfig) (key : ProjectId → ℤ) (process : ι → π)
    (a : ι → Submission) (s : CapWorld ι π) (moves : List (Move ι Chance (Drift ι))) :
    Pool ι ControlCall (fun c => Except ControlError c.Result)
      (Except ControlError ProposalOutcome × Unit) (CapWorld ι π) :=
  Runs.exec (Pool.step (serve key process) drift) (submissions S cfg a s) moves

/-- Quotas count proposals only. -/
theorem Quota.isProposal_of_counts {r : MemoryRow} (h : q.counts r = true) :
    r.item.provenance.cls = .proposal := by
  have : ∃ project, r.isProposal project = true := by
    cases q with
    | perContent project run hash => exact ⟨project, (and_eq_true_iff.mp
        (and_eq_true_iff.mp h).1).1⟩
    | perRun project run | perDay project day => exact ⟨project, (and_eq_true_iff.mp h).1⟩
  obtain ⟨project, hr⟩ := this
  exact of_decide_eq_true (and_eq_true_iff.mp hr).2

section Runs

variable (S : ScanSeal) (cfg : ProposalConfig) (key : ProjectId → ℤ) (process : ι → π)
  (a : ι → Submission) (rows : List {r : MemoryRow // r.item.provenance.cls ≠ .proposal})
  (clock : ℤ) (moves : List (Move ι Chance (Drift ι)))

omit [DecidableEq ι] [DecidableEq π] in
/-- At the start every quota holds: no proposal is stored. -/
theorem start_bounded : (CapWorld.start rows clock : CapWorld ι π).Bounded cfg key := by
  refine ⟨fun q _ => ?_, fun i row h => (nomatch h), fun i row h => (nomatch h)⟩
  have hnone : q.count (CapWorld.start rows clock : CapWorld ι π).rows = 0 := by
    refine Quota.count_eq_zero fun r hr hcount => ?_
    obtain ⟨row, -, rfl⟩ := mem_map.mp hr
    exact row.2 (Quota.isProposal_of_counts hcount)
  rw [hnone]
  exact le_max_right _ _

omit [DecidableEq ι] [DecidableEq π] in
/-- At the start no submission holds anything. -/
theorem start_idle (i : ι) : (CapWorld.start rows clock : CapWorld ι π).Idle i := by
  refine ⟨fun r hr => ?_, fun _ => rfl⟩
  obtain ⟨row, -, rfl⟩ := mem_map.mp hr
  exact nofun

/-- **Every run of submissions is safe**: the quotas hold, and every submission that has returned
did what it reports. -/
theorem afterRun_safe : (afterRun S cfg key process a (CapWorld.start rows clock) moves).IsSafe
    (serve key process) (CapWorld.Bounded cfg key) (CapWorld.others key) (CapWorld.Spares key)
    fun i r s => Returning (fun outcome s => Settled S (a i) i s outcome) r.1 s := by
  refine run_safe (fun _ j _ _ hij _ hG => hG j (Ne.symm hij))
    (fun w _ hI => CapWorld.drift_bounded w hI) ?_ moves
  exact ⟨start_bounded cfg key rows clock, fun i =>
    submitProposal_ensures S cfg (a i) _ ⟨rfl, start_idle rows clock i⟩⟩

/-- A run has at most as many proposals as the cap (none under a negative one), no two of them
have the same content, a duplicate is reported with the identifier of the stored proposal, and a
refused submission has inserted nothing. -/
structure ProposalsCapped (p : Pool ι ControlCall (fun c => Except ControlError c.Result)
    (Except ControlError ProposalOutcome × Unit) (CapWorld ι π)) : Prop where
  perRun : ∀ project run, (p.shared.rows.countP (fun r => r.row.inRun project run) : ℤ) ≤
    max cfg.perRunCap 0
  perContent : ∀ project run hash,
    p.shared.rows.countP (fun r => r.row.repeats project run hash) ≤ 1
  duplicate : ∀ i id, p.programs i = .done (.ok (.duplicate id), ()) →
    ∃ hash, contentHash S (a i).proposal.content = .ok hash ∧
      ∃ r ∈ p.shared.rows, r.row.repeats (a i).projectId (a i).runId hash = true ∧ r.row.id = id
  refused : ∀ i reason, p.programs i = .done (.ok (.refused reason), ()) →
    ∀ r ∈ p.shared.rows, r.author ≠ some i

/-- **The per-run cap and the redelivery check hold in every run**, whatever the interleaving,
the processes and the failures. -/
theorem proposals_capped : ProposalsCapped S cfg a
    (afterRun S cfg key process a (CapWorld.start rows clock) moves) := by
  have hsafe := afterRun_safe S cfg key process a rows clock moves
  refine ⟨fun project run => hsafe.1.within (.perRun project run) fun _ => trivial,
    fun project run hash => ?_, fun i id hdone => hsafe.post hdone,
    fun i reason hdone => hsafe.post hdone⟩
  have := hsafe.1.within (.perContent project run hash) fun _ => trivial
  simp only [Quota.bound, Quota.count, Quota.counts] at this
  omega

/-- **The daily cap holds in every run in which no submission is overtaken by midnight**: each
one reads the clock on one UTC day only. -/
theorem daily_cap_of_oneDay
    (h : ∀ i, OneDay ((afterRun S cfg key process a (CapWorld.start rows clock)
      moves).shared.readings i)) (project : ProjectId) (day : ℤ) :
    ((afterRun S cfg key process a (CapWorld.start rows clock) moves).shared.rows.countP
      (fun r => r.row.onDay project day) : ℤ) ≤ max cfg.perProjectDailyCap 0 :=
  (afterRun_safe S cfg key process a rows clock moves).1.within (.perDay project day) h

end Runs

/-! ### Midnight -/

namespace Sample

/-- The project of the samples. -/
def vault : ProjectId := ⟨⟨7⟩⟩

/-- One proposal for a whole project on one day. -/
def onePerDay : ProposalConfig := ⟨2, 1, defaultLimitsConfig⟩

/-- Hashes and signatures that always agree. -/
def plainSeal : ScanSeal := ⟨id, fun _ => [], fun _ _ _ _ => []⟩

variable (second : Bool)

def twoProposals : Submission where
  projectId := vault
  runId := ⟨⟨if second then 2 else 1⟩⟩
  principalId := ⟨⟨3⟩⟩
  proposal := ⟨str "lesson", [], str "project_shared"⟩
  agentTypeId := some ⟨⟨4⟩⟩
  subjectDigests := none

/-- Nothing fails. -/
def smooth : Chance where
  raised := none
  late := false
  scope := ⟨vault, ⟨⟨4⟩⟩, ⟨⟨3⟩⟩⟩
  scan := ⟨true, [], [], []⟩
  drawn := (⟨5⟩, 0)
  snapshot := []
  minted := ⟨⟨if second then 12 else 11⟩⟩

/-- All the calls of a submission that is accepted. -/
def whole : List (Move Bool Chance (Drift Bool)) :=
  List.replicate 17 (.program second (smooth second))

/-- The first submission reads the clock, a day passes, and both go through. -/
def overMidnight : List (Move Bool Chance (Drift Bool)) :=
  .program false (smooth false) :: .world (.tick 86400000000) :: (whole true ++ whole false)

/-- **A submission overtaken by midnight exceeds the cap of the new day**: it counts the rows of
the day it began on, and is stamped with the day it ends on. -/
theorem straddling_submissions :
    (afterRun plainSeal onePerDay (fun _ => 0) id twoProposals (CapWorld.start [] 0)
      overMidnight).shared.rows.countP (fun r => r.row.onDay vault 1) = 2 ∧
    onePerDay.perProjectDailyCap = 1 := by
  decide +kernel

/-- On one day the second submission meets the row of the first. -/
theorem same_day_submissions : ((afterRun plainSeal onePerDay (fun _ => 0) id twoProposals
    (CapWorld.start [] 0) (whole false ++ whole true)).shared.rows.countP
      (fun r => r.row.onDay vault 0) : ℤ) ≤ max onePerDay.perProjectDailyCap 0 :=
  daily_cap_of_oneDay plainSeal onePerDay (fun _ => 0) id twoProposals [] 0
    (whole false ++ whole true) (fun i => by cases i <;> decide +kernel) vault 0

end Sample

end Tracebed
