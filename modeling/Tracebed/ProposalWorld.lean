import Tracebed.AgentControl
import Tracebed.Lib.LockedTable

/-!
# What Submissions Share

Any number of `submit_proposal` calls, in any number of processes, against one database: the
statements of a transaction read what is committed and what the transaction itself wrote, the
advisory lock of a project is held to the end of the transaction that took it, and all processes
read one clock that never goes back. A connection can be lost at any moment.

What the caps and the redelivery check compare is one thing, a `Quota`: how many rows of a project
satisfy a predicate, against a bound. A row is inserted only by the holder of the lock of its
project, after its quotas were found to have room, and that room stays (`CapWorld.holding_stable`).
-/

open Py Interaction Routine List Function

namespace Tracebed

/-! ### What is counted -/

/-- `_PROPOSAL_PREDICATE`. -/
def MemoryRow.isProposal (project : ProjectId) (r : MemoryRow) : Bool :=
  r.projectId = project && r.item.provenance.cls = .proposal

/-- The rows of `_COUNT_PROPOSALS_IN_RUN_SQL`. -/
def MemoryRow.inRun (project : ProjectId) (run : RunId) (r : MemoryRow) : Bool :=
  r.isProposal project && r.item.provenance.runId = some run

/-- The rows of `_FIND_PROPOSAL_SQL`. -/
def MemoryRow.repeats (project : ProjectId) (run : RunId) (hash : PyStr) (r : MemoryRow) : Bool :=
  r.inRun project run && r.contentHash = hash

/-- The rows of `_COUNT_PROPOSALS_IN_DAY_SQL`. -/
def MemoryRow.onDay (project : ProjectId) (day : ℤ) (r : MemoryRow) : Bool :=
  r.isProposal project && (day * 86400000000 ≤ r.createdAt && r.createdAt < (day + 1) * 86400000000)

variable {r : MemoryRow}

theorem MemoryRow.onDay_iff {project : ProjectId} {day : ℤ} :
    r.onDay project day = true ↔ r.isProposal project = true ∧ utcDay r.createdAt = day := by
  simp only [MemoryRow.onDay, utcDay, Bool.and_eq_true, decide_eq_true_eq]
  refine and_congr_right fun _ => ?_
  omega

/-- What a submission compares with a bound before it inserts. -/
inductive Quota
  | perContent (project : ProjectId) (run : RunId) (hash : PyStr)
  | perRun (project : ProjectId) (run : RunId)
  | perDay (project : ProjectId) (day : ℤ)

def Quota.counts : Quota → MemoryRow → Bool
  | perContent project run hash => MemoryRow.repeats project run hash
  | perRun project run => MemoryRow.inRun project run
  | perDay project day => MemoryRow.onDay project day

/-- The bound of a quota: at most one row has a given content. -/
def Quota.bound (cfg : ProposalConfig) : Quota → ℤ
  | perContent .. => 1
  | perRun .. => cfg.perRunCap
  | perDay .. => cfg.perProjectDailyCap

/-- The project whose rows a quota counts. -/
def Quota.project : Quota → ProjectId
  | perContent project _ _ => project
  | perRun project _ => project
  | perDay project _ => project

variable {q : Quota}

theorem Quota.project_eq (h : q.counts r = true) : r.projectId = q.project := by
  cases q with
  | perContent project run hash =>
    simp only [counts, MemoryRow.repeats, MemoryRow.inRun, MemoryRow.isProposal,
      Bool.and_eq_true, decide_eq_true_eq] at h
    exact h.1.1.1
  | perRun project run =>
    simp only [counts, MemoryRow.inRun, MemoryRow.isProposal, Bool.and_eq_true,
      decide_eq_true_eq] at h
    exact h.1.1
  | perDay project day =>
    simp only [counts, MemoryRow.onDay, MemoryRow.isProposal, Bool.and_eq_true,
      decide_eq_true_eq] at h
    exact h.1.1

/-- Readings of the clock that fall on one day. -/
def OneDay (readings : List ℤ) : Prop := ∀ a ∈ readings, ∀ b ∈ readings, utcDay a = utcDay b

instance (readings : List ℤ) : Decidable (OneDay readings) :=
  inferInstanceAs (Decidable (∀ a ∈ readings, ∀ b ∈ readings, utcDay a = utcDay b))

/-- A submission with these readings compared what the quota counts: for a day, that is so if it
read the clock on one day. -/
def Quota.Applies : Quota → List ℤ → Prop
  | perDay .., readings => OneDay readings
  | _, _ => True

theorem Quota.Applies.of_append {readings more : List ℤ} (h : q.Applies (readings ++ more)) :
    q.Applies readings := by
  cases q with
  | perContent project run hash | perRun project run => trivial
  | perDay project day =>
    exact fun a ha b hb => h a (mem_append_left _ ha) b (mem_append_left _ hb)

/-! ### The database -/

/-- What submissions share: the table of memories with its advisory locks, the lock of each
process and the clock. `readings` records what each submission read off the clock. -/
structure CapWorld (ι π : Type) extends LockedTable ι ℤ MemoryRow where
  capLock : π → Option ι
  clock : ℤ
  readings : ι → List ℤ

/-- What the state does not determine: whether the call raises, and, of a commit, whether it does
so after the fact; the answers of the registry, the scan suite and the erasure fence; and the
identifiers drawn. -/
structure Chance where
  raised : Option ControlError
  late : Bool
  scope : ProjectScope
  scan : ScanResult
  drawn : UUID × ℤ
  snapshot : List Bytes
  minted : MemoryId

/-- What happens outside the submissions. -/
inductive Drift (ι : Type)
  | tick (elapsed : ℕ)
  | sever (i : ι)

section World

variable {ι π : Type}

/-- How many committed rows a quota counts. -/
def Quota.count (q : Quota) (rows : List (StoredRow ι MemoryRow)) : ℕ :=
  rows.countP fun r => q.counts r.row

theorem Quota.count_eq_zero {rows : List (StoredRow ι MemoryRow)}
    (h : ∀ r ∈ rows, q.counts r.row = true → False) : q.count rows = 0 :=
  countP_eq_zero.mpr fun r hr hq => h r hr hq

variable [DecidableEq ι]

namespace CapWorld

/-- The world with another table. -/
def update (s : CapWorld ι π) (f : LockedTable ι ℤ MemoryRow → LockedTable ι ℤ MemoryRow) :
    CapWorld ι π :=
  { s with toLockedTable := f s.toLockedTable }

end CapWorld

/-- A call that answers without changing anything, unless it raises. -/
def Chance.answer {α : Type} (x : Chance) (s : CapWorld ι π) (a : α) :
    Option (Except ControlError α × CapWorld ι π) :=
  match x.raised with
  | some e => some (.error e, s)
  | none => some (.ok a, s)

/-- A statement of the transaction of `i`, which fails once the connection is lost. -/
def Chance.statement {α : Type} (x : Chance) (s : CapWorld ι π) (i : ι)
    (result : Option (Except ControlError α × CapWorld ι π)) :
    Option (Except ControlError α × CapWorld ι π) :=
  if s.severed i then some (.error (.other "OperationalError"), s)
  else
    match x.raised with
    | some e => some (.error e, s)
    | none => result

/-- How a call of a submission is served. `key` is `hashtext` of the project, and `process` says
whose `_cap_lock` a submission uses. -/
def serve [DecidableEq π] (key : ProjectId → ℤ) (process : ι → π) :
    Serve ι ControlCall (fun c => Except ControlError c.Result) (CapWorld ι π) Chance
  | _, x, s, .resolveProject _ => x.answer s x.scope
  | i, _, s, .now =>
    some (.ok s.clock,
      { s with readings := update s.readings i (s.readings i ++ [s.clock]) })
  | i, _, s, .acquireCapLock =>
    if s.capLock (process i) = none then
      some (.ok (), { s with capLock := update s.capLock (process i) (some i) })
    else none
  | i, _, s, .releaseCapLock =>
    some (.ok (), { s with capLock := update s.capLock (process i) none })
  | _, x, s, .findProposalInRun project run hash => x.answer s
      (((s.rows.map StoredRow.row).find? (MemoryRow.repeats project run hash)).map MemoryRow.id)
  | _, x, s, .countProposalsInRun project run =>
    x.answer s ((Quota.perRun project run).count s.rows)
  | _, x, s, .countProposalsInProjectDay project day =>
    x.answer s ((Quota.perDay project day).count s.rows)
  | _, x, s, .scan _ _ => x.answer s x.scan
  | _, x, s, .drawVerdict => x.answer s x.drawn
  | i, x, s, .begin _ => x.statement s i (some (.ok (), s))
  | i, x, s, .lockErasureSnapshot _ _ _ => x.statement s i (some (.ok x.snapshot, s))
  | i, x, s, .lockCaps project => x.statement s i
      (if s.locks (key project) = none ∨ s.locks (key project) = some i then
        some (.ok (), s.update (·.acquire i (key project)))
      else none)
  | i, x, s, .txFindProposalInRun project run hash => x.statement s i
      (some (.ok (((s.visible i).find? (MemoryRow.repeats project run hash)).map MemoryRow.id), s))
  | i, x, s, .txCountProposalsInRun project run => x.statement s i
      (some (.ok ((s.visible i).countP (MemoryRow.inRun project run)), s))
  | i, x, s, .txCountProposalsInProjectDay project day => x.statement s i
      (some (.ok ((s.visible i).countP (MemoryRow.onDay project day)), s))
  | _, x, s, .mintMemoryId => x.answer s x.minted
  | i, x, s, .insertMemoryItem row => x.statement s i
      (if (s.visible i).any (fun r => r.projectId = row.projectId && r.id = row.id) then
        some (.error (.other "UniqueViolation"), s)
      else some (.ok (), s.update (·.write i row)))
  | i, x, s, .bindRunMemory _ _ _ _ => x.statement s i (some (.ok (), s))
  | i, x, s, .commit =>
    if s.severed i then some (.error (.other "OperationalError"), s)
    else
      match x.raised with
      | none => some (.ok (), s.update (·.commit i))
      | some e => some (.error e, s.update fun t => if x.late then t.commit i else t.finish i)
  | i, _, s, .rollback => some (.ok (), s.update (·.finish i))

/-- How the world moves on its own: time passes, and a connection is lost. -/
def drift : Drift ι → CapWorld ι π → CapWorld ι π
  | .tick elapsed, s => { s with clock := s.clock + elapsed }
  | .sever i, s => s.update (·.sever i)

/-! ### The quotas in every state -/

variable {cfg : ProposalConfig} {key : ProjectId → ℤ} {process : ι → π} {s t u : CapWorld ι π}
  {i j : ι} {row : MemoryRow}

namespace CapWorld

variable (key) in
/-- The lock of a row is that of its project. -/
def lockOf (row : MemoryRow) : ℤ := key row.projectId

variable (cfg key) in
/-- Every quota holds, and a row that waits for its commit was written under the lock of its
project, with room in every quota that counts it. -/
structure Bounded (s : CapWorld ι π) : Prop where
  within : ∀ q : Quota, (∀ i, q.Applies (s.readings i)) →
    (q.count s.rows : ℤ) ≤ max (q.bound cfg) 0
  guarded : s.Guarded (lockOf key)
  room : ∀ i row, s.pending i = some row → ∀ q : Quota, q.counts row = true →
    q.Applies (s.readings i) → (q.count s.rows : ℤ) < q.bound cfg

theorem Bounded.finish (h : s.Bounded cfg key) (i : ι) :
    (s.update (·.finish i)).Bounded cfg key where
  within := h.within
  guarded := h.guarded.finish i
  room j row hrow := h.room j row (LockedTable.finish_pending_eq_some hrow).2

/-- **A commit keeps every quota**: the row it adds had room, and it is of no project whose lock
another transaction holds. -/
theorem Bounded.commit (h : s.Bounded cfg key) (i : ι) :
    (s.update (·.commit i)).Bounded cfg key := by
  match hp : s.pending i with
  | none =>
    have hrows : (s.update (·.commit i)).rows = s.rows := LockedTable.commit_rows_of_none hp
    refine ⟨fun q happ => ?_, h.guarded.commit i, fun j row hrow q hq happ => ?_⟩
    · rw [hrows]
      exact h.within q happ
    · rw [hrows]
      exact h.room j row (LockedTable.finish_pending_eq_some hrow).2 q hq happ
  | some row =>
    have hcount (q : Quota) : q.count (s.update (·.commit i)).rows =
        q.count s.rows + if q.counts row = true then 1 else 0 := by
      have hrows : (s.update (·.commit i)).rows = s.rows ++ [⟨some i, row⟩] :=
        LockedTable.commit_rows_of_some hp
      rw [hrows, Quota.count, countP_append, countP_singleton, Quota.count]
    refine ⟨fun q happ => ?_, h.guarded.commit i, fun j row' hrow' q hq happ => ?_⟩
    · rw [hcount]
      split_ifs with hq
      · have := h.room i row hp q hq (happ i)
        omega
      · exact h.within q happ
    · obtain ⟨hj, hrow'⟩ := LockedTable.finish_pending_eq_some hrow'
      have hne : ¬ q.counts row = true := by
        intro hrow
        refine h.guarded.lockOf_ne hj hp hrow' ?_
        rw [lockOf, lockOf, Quota.project_eq hrow, Quota.project_eq hq]
      rw [hcount, if_neg hne]
      exact h.room j row' hrow' q hq happ

theorem Bounded.read (h : s.Bounded cfg key) (i : ι) (instant : ℤ) :
    { s with readings := Function.update s.readings i (s.readings i ++ [instant]) }.Bounded
      cfg key := by
  have hless (q : Quota) (j : ι)
      (happ : q.Applies (Function.update s.readings i (s.readings i ++ [instant]) j)) :
      q.Applies (s.readings j) := by
    by_cases hj : j = i
    · subst hj
      rw [update_self] at happ
      exact happ.of_append
    · rwa [update_of_ne hj] at happ
  exact ⟨fun q happ => h.within q fun j => hless q j (happ j), h.guarded,
    fun j row hrow q hq happ => h.room j row hrow q hq (hless q j happ)⟩

theorem Bounded.write (h : s.Bounded cfg key) (hlock : s.locks (key row.projectId) = some i)
    (hroom : ∀ q : Quota, q.counts row = true → q.Applies (s.readings i) →
      (q.count s.rows : ℤ) < q.bound cfg) : (s.update (·.write i row)).Bounded cfg key := by
  refine ⟨h.within, h.guarded.write hlock, fun j row' hrow' => ?_⟩
  obtain ⟨rfl, rfl⟩ | ⟨-, hrow'⟩ := LockedTable.write_pending_eq_some hrow'
  · exact hroom
  · exact h.room j row' hrow'

/-! ### What others leave alone -/

variable (key) in
/-- What `i` keeps while others move: what is its own in the table, and its readings. -/
structure Undisturbed (i : ι) (s t : CapWorld ι π) : Prop
    extends LockedTable.Undisturbed (lockOf key) i s.toLockedTable t.toLockedTable where
  readings : t.readings i = s.readings i

variable (key) in
/-- What the others may do to `i`. -/
def others (i : ι) : Rely (CapWorld ι π) where
  rel := Undisturbed key i
  refl _ := ⟨.refl i _, rfl⟩
  trans h h' := ⟨h.toUndisturbed.trans h'.toUndisturbed, h'.readings.trans h.readings⟩

variable (key) in
/-- What a move of `i` does to the others. -/
def Spares (i : ι) (s t : CapWorld ι π) : Prop := ∀ j, j ≠ i → Undisturbed key j s t

omit [DecidableEq ι] in
theorem spares_refl (s : CapWorld ι π) : Spares key i s s := fun j _ => (others key j).refl s

omit [DecidableEq ι] in
/-- A move of `i` within the table. -/
theorem spares_update {f : LockedTable ι ℤ MemoryRow → LockedTable ι ℤ MemoryRow}
    (h : ∀ j, j ≠ i → LockedTable.Undisturbed (lockOf key) j s.toLockedTable
      (f s.toLockedTable)) : Spares key i s (s.update f) :=
  fun j hj => ⟨h j hj, rfl⟩

theorem drift_bounded (w : Drift ι) (h : s.Bounded cfg key) :
    (drift w s).Bounded cfg key ∧ ∀ j, others key j s (drift w s) := by
  cases w with
  | tick elapsed => exact ⟨⟨h.within, h.guarded, h.room⟩, fun j => ⟨.refl j _, rfl⟩⟩
  | sever i =>
    have hfinish := h.finish i
    exact ⟨⟨hfinish.within, h.guarded.sever i, hfinish.room⟩,
      fun j => ⟨LockedTable.sever_undisturbed j, rfl⟩⟩

/-! ### What a submission knows -/

variable (cfg key) in
/-- `i` has written nothing, holds the lock of the project, and found room in these quotas. -/
structure Holding (i : ι) (project : ProjectId) (quotas : List Quota) (s : CapWorld ι π) : Prop
    extends s.Idle i where
  locked : s.severed i = false → s.locks (key project) = some i
  room : s.severed i = false → ∀ q ∈ quotas, (q.count s.rows : ℤ) < q.bound cfg

/-- The proposal is stored under this identifier. -/
def Stored (project : ProjectId) (run : RunId) (hash : PyStr) (id : MemoryId)
    (s : CapWorld ι π) : Prop :=
  ∃ r ∈ s.rows, r.row.repeats project run hash = true ∧ r.row.id = id

/-- The row `i` inserted is stored under this identifier. -/
def Landed (i : ι) (id : MemoryId) (s : CapWorld ι π) : Prop :=
  ∃ r ∈ s.rows, r.author = some i ∧ r.row.id = id

omit [DecidableEq ι]

theorem readings_stable (l : List ℤ) :
    (others key i).Stable fun s : CapWorld ι π => s.readings i = l :=
  fun _ _ hR hs => hR.readings.trans hs

theorem idle_stable : (others key i).Stable fun s : CapWorld ι π => s.Idle i :=
  fun _ _ hR hs => hR.toUndisturbed.idle hs

theorem written_stable : (others key i).Stable fun s : CapWorld ι π => s.Written i row :=
  fun _ _ hR hs => hR.toUndisturbed.written hs

theorem unwritten_stable : (others key i).Stable fun s : CapWorld ι π => s.Unwritten i :=
  fun _ _ hR hs => hR.toUndisturbed.unwritten hs

variable {id : MemoryId}

theorem stored_stable {project : ProjectId} {run : RunId} {hash : PyStr} :
    (others key i).Stable (Stored (ι := ι) (π := π) project run hash id) :=
  fun _ _ hR ⟨r, hr, h⟩ => ⟨r, hR.mem_rows hr, h⟩

theorem landed_stable : (others key i).Stable (Landed (π := π) i id) :=
  fun _ _ hR ⟨r, hr, h⟩ => ⟨r, hR.mem_rows hr, h⟩

/-- The room found under the lock stays. -/
theorem holding_stable {project : ProjectId} {quotas : List Quota}
    (hquotas : ∀ q ∈ quotas, q.project = project) :
    (others key i).Stable (Holding (π := π) cfg key i project quotas) := by
  intro s t hR hs
  refine ⟨idle_stable hR hs.toIdle, fun ht => hR.locks ht _ (hs.locked (hR.severed ht)),
    fun ht q hq => ?_⟩
  have halive := hR.severed ht
  obtain ⟨added, hrows, -, hlock⟩ := hR.rows
  have hnone : q.count added = 0 := by
    refine Quota.count_eq_zero fun r hr hcount => hlock ht r hr ?_
    rw [lockOf, Quota.project_eq hcount, hquotas q hq]
    exact hs.locked halive
  rw [hrows, Quota.count, countP_append, ← Quota.count, ← Quota.count, hnone]
  exact hs.room halive q hq

end CapWorld

end World

end Tracebed
