import Tracebed.ErasureAdmission

/-!
# The Course of One Erasure Request

What the database holds about one request is a `Saga`: its row, the runs it captured, its
external work and checkpoints, and whether a receipt proves the primary store empty.
`Saga.Step` lists the ways in which it moves, and every step keeps it well-formed
(`Saga.Step.wellFormed`): a checkpoint prepared at the current revision covers every target with
work at that revision, and a verified one has all of that work verified. A late bind that enlarges
the captured runs moves the closure revision too, and every earlier checkpoint is stale.
-/

open Py Table List Option

namespace Tracebed.Erasure

/-! ### The part of the database that belongs to a request -/

variable (project request : UUID)

/-- `project_id = ... AND request_id = ...` for external work. -/
def WorkRow.belongsTo (w : WorkRow) : Bool :=
  w.projectId = project && w.requestId = request

/-- `project_id = ... AND request_id = ...` for checkpoints. -/
def CheckpointRow.belongsTo (k : CheckpointRow) : Bool :=
  k.projectId = project && k.requestId = request

/-- The receipt proves the primary store of the request empty. -/
def ReceiptRow.provesPurge (r : ReceiptRow) : Bool :=
  r.projectId = project && r.requestId = request && r.stepCode = .postgres &&
    r.result = .succeeded

theorem ReceiptRow.provesPurge_eq_true {project request : UUID} {r : ReceiptRow} :
    r.provesPurge project request = true ↔
      (r.projectId = project ∧ r.requestId = request) ∧ r.stepCode = .postgres ∧
        r.result = .succeeded := by
  simp [ReceiptRow.provesPurge, and_assoc]

/-- The rows of one request. -/
structure Saga where
  request : Option RequestRow
  runs : List UUID
  work : List WorkRow
  checkpoints : List CheckpointRow
  purged : Bool

/-- The rows of a request in the database. -/
def Database.saga (db : Database) (project request : UUID) : Saga where
  request := db.request? project request
  runs := db.capturedRuns project request
  work := db.work.filter (·.belongsTo project request)
  checkpoints := db.checkpoints.filter (·.belongsTo project request)
  purged := db.receipts.any (·.provesPurge project request)

/-- What has to be deleted from a store. -/
def targetsOf (q : RequestRow) (runs : List UUID) (code : StoreCode) : List Target :=
  if code.isTrace then traceTargets q runs else [.project]

/-- The work and the checkpoint of a store brought to the current revision. -/
def Saga.materialize (s : Saga) (q : RequestRow) (code : StoreCode) (count : ℕ)
    (digest : Digest) : Saga :=
  { s with
    work := materializeWork q code (targetsOf q s.runs code) s.work
    checkpoints := prepareCheckpoint q code count digest s.checkpoints }

/-! ### The steps -/

/-- The lease columns and the manifest of a request agree: a leased request has started, a
started one has a valid manifest, and one that never started has none. -/
structure RequestRow.Admissible (q : RequestRow) : Prop where
  leased : q.lease.isSome = true → q.firstStartedAt.isSome = true
  started : q.firstStartedAt.isSome = true → manifestIsValid q.storeManifest = true
  unstarted : q.firstStartedAt = none → q.storeManifest = []

/-- A change of the request row that erases nothing and proves nothing. -/
structure Quiet (q q' : RequestRow) : Prop where
  projectId : q'.projectId = q.projectId
  requestId : q'.requestId = q.requestId
  scope : q'.scope = q.scope
  phase : q'.phase = q.phase
  revision : q'.closureRevision = q.closureRevision
  generation : q.generation ≤ q'.generation
  manifest : q.firstStartedAt.isSome = true → q'.storeManifest = q.storeManifest
  admissible : q.Admissible → q'.Admissible

/-- The phases in their order. -/
inductive Phase.Advances : Phase → Phase → Prop where
  | crypto : Advances .fenced .cryptoErased
  | primary : Advances .cryptoErased .primaryPurged
  | external : Advances .primaryPurged .externalPurged
  | complete : Advances .externalPurged .scopeComplete

/-- The checkpoints after a store was closed. -/
def closeAll (q : RequestRow) (code : StoreCode) (count : ℕ) (proof : StoreProof)
    (checkpoints : List CheckpointRow) : List CheckpointRow :=
  updateWhere (isClosable q code count) (closeCheckpoint q proof) checkpoints

/-- The request after the aggregate over its checkpoints was taken. -/
def RequestRow.afterClose (q : RequestRow) (checkpoints : List CheckpointRow) : RequestRow :=
  if allDone q checkpoints then { q with phase := .externalPurged } else q

/-- A request as its acceptance leaves it. -/
structure RequestRow.IsFresh (q : RequestRow) : Prop where
  lease : q.lease = none
  firstStartedAt : q.firstStartedAt = none
  storeManifest : q.storeManifest = []
  revision : q.closureRevision = 1
  phase : q.phase = .fenced

/-- The ways in which the rows of a request move. -/
inductive Saga.Step : Saga → Saga → Prop where
  /-- A request is accepted. -/
  | create {s : Saga} {q : RequestRow} {runs : List UUID} (h : s.request = none)
      (hq : q.IsFresh) : Step s { s with request := some q, runs := runs }
  /-- A lease changes hands, or a receipt is numbered. -/
  | quiet {s : Saga} {q q' : RequestRow} (h : s.request = some q) (hq : Quiet q q') :
      Step s { s with request := some q' }
  | advance {s : Saga} {q : RequestRow} {phase : Phase} (h : s.request = some q)
      (hp : q.phase.Advances phase) : Step s { s with request := some { q with phase := phase } }
  /-- The primary store is proved empty. -/
  | purge {s : Saga} {q : RequestRow} (h : s.request = some q)
      (hp : q.phase = .primaryPurged ∨ q.phase = .externalPurged) :
      Step s { s with purged := true }
  /-- A late bind enlarges the closure, and the revision moves. -/
  | late {s : Saga} {q : RequestRow} {runs : List UUID} {digest : Digest}
      (h : s.request = some q) :
      Step s { s with
        request := some { q with closureRevision := q.closureRevision + 1, closureDigest := digest }
        runs := runs }
  /-- The leaves of the project go, and the captured runs with them. -/
  | shrink {s : Saga} {runs : List UUID} (h : runs ⊆ s.runs) : Step s { s with runs := runs }
  /-- A store is prepared at the current revision. -/
  | materialize {s : Saga} {q : RequestRow} {code : StoreCode} {count : ℕ} {digest : Digest}
      (h : s.request = some q) (hcode : code ∈ q.storeManifest)
      (hcount : count = if code.isTrace then (currentWork q code
        (materializeWork q code (targetsOf q s.runs code) s.work)).length else 1) :
      Step s (s.materialize q code count digest)
  /-- A worker claims open work. -/
  | claim {s : Saga} {q : RequestRow} {c : Credential} {selected : WorkRow → Bool}
      (h : s.request = some q) (hc : c.generation = q.generation)
      (hsel : ∀ w, selected w = true → isOpenTo q.generation w.state = true) :
      Step s { s with work := updateWhere selected (claimWork c) s.work }
  /-- A worker marks work as verified. -/
  | mark {s : Saga} {q : RequestRow} {c : Credential} {item : WorkItem} {proof : StoreProof}
      (h : s.request = some q) :
      Step s { s with work := updateWhere (isMarked c item) (markWork c proof) s.work }
  /-- A store all of whose current work is verified is closed, and the phase follows. -/
  | close {s : Saga} {q : RequestRow} {code : StoreCode} {count : ℕ} {proof : StoreProof}
      (h : s.request = some q) (hp : q.phase = .primaryPurged ∨ q.phase = .externalPurged)
      (hv : ∀ w ∈ currentWork q code s.work, w.state.isVerified = true) :
      Step s { s with
        request := some (q.afterClose (closeAll q code count proof s.checkpoints))
        checkpoints := closeAll q code count proof s.checkpoints }

/-! ### Well-formed sagas -/

/-- What holds of a checkpoint prepared at the current revision. -/
structure Saga.Prepared (s : Saga) (q : RequestRow) (k : CheckpointRow) : Prop where
  current : ∀ w ∈ s.work, w.storeCode = k.storeCode → w.discoveredRevision = q.closureRevision
  covered : ∀ t ∈ targetsOf q s.runs k.storeCode,
    ∃ w ∈ s.work, w.storeCode = k.storeCode ∧ w.target = t
  counted : k.targetCount = (currentWork q k.storeCode s.work).length
  verified : k.proof.isSome = true → ∀ w ∈ s.work, w.storeCode = k.storeCode →
    w.state.isVerified = true

/-- What holds of the rows of an accepted request. -/
structure Saga.Sound (s : Saga) (q : RequestRow) : Prop where
  admissible : q.Admissible
  revision_pos : 1 ≤ q.closureRevision
  work_keyed : Table.Keyed WorkRow.key s.work
  checkpoints_keyed : Table.Keyed CheckpointRow.key s.checkpoints
  work_owned : ∀ w ∈ s.work, w.projectId = q.projectId ∧ w.requestId = q.requestId
  checkpoint_owned : ∀ k ∈ s.checkpoints, k.projectId = q.projectId ∧ k.requestId = q.requestId
  work_manifest : ∀ w ∈ s.work, w.storeCode ∈ q.storeManifest
  checkpoint_manifest : ∀ k ∈ s.checkpoints, k.storeCode ∈ q.storeManifest
  work_revision : ∀ w ∈ s.work, w.discoveredRevision ≤ q.closureRevision
  work_target : ∀ w ∈ s.work, w.storeCode.isTrace = false → w.target = .project
  work_generation : ∀ w ∈ s.work, ∀ g t, w.state = .inProgress g t → g ≤ q.generation
  checkpoint_revision : ∀ k ∈ s.checkpoints, k.preparedRevision ≤ q.closureRevision
  proof_revision : ∀ k ∈ s.checkpoints, ∀ v, k.verifiedRevision = some v → v = k.preparedRevision
  prepared : ∀ k ∈ s.checkpoints, k.preparedRevision = q.closureRevision → s.Prepared q k
  proof_phase : ∀ k ∈ s.checkpoints, k.proof.isSome = true →
    q.phase = .externalPurged ∨ q.phase = .scopeComplete
  purged_phase : s.purged = true →
    q.phase = .primaryPurged ∨ q.phase = .externalPurged ∨ q.phase = .scopeComplete

/-- Nothing belongs to a request that was never accepted, and the rows of an accepted one are
sound. -/
structure Saga.WellFormed (s : Saga) : Prop where
  absent : s.request = none → s.work = [] ∧ s.checkpoints = [] ∧ s.purged = false
  sound : ∀ q, s.request = some q → s.Sound q

/-! ### Work brought to the current revision -/

section Materialize

variable {q : RequestRow} {code : StoreCode} {targets : List Target} {work : List WorkRow}
  {w : WorkRow}

theorem isStale_eq_true : isStale q code w = true ↔
    (w.projectId = q.projectId ∧ w.requestId = q.requestId) ∧ w.storeCode = code ∧
      w.discoveredRevision < q.closureRevision := by
  simp [isStale, and_assoc]

/-- The work of a store after it was brought to the current revision: what was current, what
started again, and what is new. -/
theorem mem_materializeWork (h : w ∈ materializeWork q code targets work) :
    (w ∈ work ∧ isStale q code w = false) ∨
      (∃ old ∈ work, isStale q code old = true ∧ w = restartWork q old) ∨
        ∃ t ∈ targets, w = newWork q code t := by
  rcases mem_insertAll h with hw | ⟨hw, -⟩
  · obtain ⟨old, hold, rfl⟩ := mem_updateWhere.mp hw
    by_cases hs : isStale q code old = true
    · rw [if_pos hs]
      exact .inr (.inl ⟨old, hold, hs, rfl⟩)
    · rw [if_neg hs]
      exact .inl ⟨hold, Bool.eq_false_iff.mpr hs⟩
  · obtain ⟨t, ht, rfl⟩ := mem_map.mp hw
    exact .inr (.inr ⟨t, ht, rfl⟩)

/-- What every row has and every restart and every new row has, all rows have afterwards. -/
theorem forall_materializeWork {P : WorkRow → Prop} (hwork : ∀ w ∈ work, P w)
    (hrestart : ∀ w ∈ work, isStale q code w = true → P (restartWork q w))
    (hnew : ∀ t ∈ targets, P (newWork q code t)) :
    ∀ w ∈ materializeWork q code targets work, P w := by
  intro w hw
  rcases mem_materializeWork hw with ⟨hw, -⟩ | ⟨old, hold, hs, rfl⟩ | ⟨t, ht, rfl⟩
  · exact hwork w hw
  · exact hrestart old hold hs
  · exact hnew t ht

theorem exists_materializeWork {t : Target} (ht : t ∈ targets) :
    ∃ w ∈ materializeWork q code targets work, w.storeCode = code ∧ w.target = t := by
  have hkey : WorkRow.key (newWork q code t) ∈
      (materializeWork q code targets work).map WorkRow.key :=
    key_mem_insertAll (mem_map_of_mem ht)
  obtain ⟨w, hw, he⟩ := mem_map.mp hkey
  simp only [WorkRow.key, Prod.mk.injEq] at he
  exact ⟨w, hw, he.2.2.1, he.2.2.2⟩

theorem materializeWork_current
    (howned : ∀ w ∈ work, w.projectId = q.projectId ∧ w.requestId = q.requestId)
    (hle : ∀ w ∈ work, w.discoveredRevision ≤ q.closureRevision)
    (h : w ∈ materializeWork q code targets work) (hcode : w.storeCode = code) :
    w.discoveredRevision = q.closureRevision := by
  rcases mem_materializeWork h with ⟨hw, hs⟩ | ⟨old, -, -, rfl⟩ | ⟨t, -, rfl⟩
  · have hnot : ¬ w.discoveredRevision < q.closureRevision := fun hlt =>
      Bool.eq_false_iff.mp hs (isStale_eq_true.mpr ⟨howned w hw, hcode, hlt⟩)
    have := hle w hw
    omega
  · rfl
  · rfl

theorem materializeWork_keyed (h : Table.Keyed WorkRow.key work) :
    Table.Keyed WorkRow.key (materializeWork q code targets work) := by
  have hreset : Table.Keyed WorkRow.key
      (updateWhere (isStale q code) (restartWork q) work) := h.updateWhere fun _ => rfl
  exact hreset.insertAll _

/-- A store whose work is current and complete has nothing to be brought forward. -/
theorem materializeWork_eq_self
    (howned : ∀ w ∈ work, w.projectId = q.projectId ∧ w.requestId = q.requestId)
    (hcurrent : ∀ w ∈ work, w.storeCode = code → w.discoveredRevision = q.closureRevision)
    (hcovered : ∀ t ∈ targets, ∃ w ∈ work, w.storeCode = code ∧ w.target = t) :
    materializeWork q code targets work = work := by
  have hstale : updateWhere (isStale q code) (restartWork q) work = work := by
    refine updateWhere_eq_self fun w hw => Bool.eq_false_iff.mpr fun hs => ?_
    obtain ⟨-, hcode, hlt⟩ := isStale_eq_true.mp hs
    have := hcurrent w hw hcode
    omega
  rw [materializeWork, hstale]
  refine insertAll_eq_self fun row hrow => ?_
  obtain ⟨t, ht, rfl⟩ := mem_map.mp hrow
  obtain ⟨w, hw, hcode, htarget⟩ := hcovered t ht
  obtain ⟨hp, hr⟩ := howned w hw
  exact mem_map.mpr ⟨w, hw, by simp [WorkRow.key, newWork, hp, hr, hcode, htarget]⟩

theorem currentWork_materializeWork {other : StoreCode} (h : other ≠ code) :
    currentWork q other (materializeWork q code targets work) = currentWork q other work := by
  rw [currentWork, materializeWork, filter_insertAll_of_not]
  · refine filter_updateWhere_of_not (fun w hs => ?_) (fun w hw => ?_) work
    · have hcode := (isStale_eq_true.mp hs).2.1
      simp [restartWork, hcode, h.symm]
    · refine Bool.eq_false_iff.mpr fun hs => h ?_
      rw [← (isStale_eq_true.mp hs).2.1]
      exact (of_decide_eq_true hw).2.2.1.symm
  · intro w hw
    obtain ⟨t, -, rfl⟩ := mem_map.mp hw
    simp [newWork, h.symm]

theorem length_currentWork_project
    (howned : ∀ w ∈ work, w.projectId = q.projectId ∧ w.requestId = q.requestId)
    (hkeyed : Table.Keyed WorkRow.key work)
    (hcurrent : ∀ w ∈ work, w.storeCode = code → w.discoveredRevision = q.closureRevision)
    (htarget : ∀ w ∈ work, w.storeCode = code → w.target = .project)
    (hcovered : ∃ w ∈ work, w.storeCode = code ∧ w.target = .project) :
    (currentWork q code work).length = 1 := by
  obtain ⟨w, hw, hcode, hwt⟩ := hcovered
  have hmem : w ∈ currentWork q code work :=
    mem_filter.mpr ⟨hw, decide_eq_true
      ⟨(howned w hw).1, (howned w hw).2, hcode, hcurrent w hw hcode⟩⟩
  refine (hkeyed.filter _).length_eq_one hmem fun other hother => ?_
  obtain ⟨ho, hd⟩ := mem_filter.mp hother
  obtain ⟨hp, hr, hc, -⟩ := of_decide_eq_true hd
  simp [WorkRow.key, hp, hr, hc, hcode, howned w hw, hwt, htarget other ho hc]

end Materialize

/-! ### The aggregate over the checkpoints -/

variable {q : RequestRow}

theorem isClosable_eq_true {code : StoreCode} {count : ℕ} {k : CheckpointRow} :
    isClosable q code count k = true ↔ (k.projectId = q.projectId ∧ k.requestId = q.requestId) ∧
      k.storeCode = code ∧ k.preparedRevision = q.closureRevision ∧ k.targetCount = count := by
  simp [isClosable, isCheckpoint, and_assoc]

/-- The aggregate over the checkpoints of a manifest: one is verified at the closure revision,
and every other one is that or open. -/
theorem allDone_eq_true {checkpoints : List CheckpointRow} :
    allDone q checkpoints = true ↔
    (∃ k ∈ manifestCheckpoints q checkpoints, k.verifiedRevision = some q.closureRevision) ∧
      ∀ k ∈ manifestCheckpoints q checkpoints, ∀ v, k.verifiedRevision = some v →
        v = q.closureRevision := by
  have hget : ∀ x : Option Bool, x.getD false = true ↔ x = some true := by
    intro x
    cases x with
    | none | some b => simp
  rw [allDone, hget, boolAnd_eq_some_true]
  · simp [eqNull_eq_some]

/-! ### Every step keeps a saga well-formed -/

namespace Saga

variable {s : Saga}
  {q' : RequestRow} {runs : List UUID} {code : StoreCode} {count : ℕ} {k : CheckpointRow}
  {proof : StoreProof}

theorem targetsOf_subset {runs' : List UUID} (h : runs' ⊆ runs) (code : StoreCode) :
    targetsOf q runs' code ⊆ targetsOf q runs code := by
  rw [targetsOf, targetsOf]
  split
  · rw [traceTargets, traceTargets]
    split
    · exact map_subset _ h
    · exact List.Subset.refl _
  · exact List.Subset.refl _

/-- What else the rows hold does not matter to a prepared checkpoint. -/
theorem Prepared.copy (h : s.Prepared q k) {request : Option RequestRow} {phase : Phase}
    {checkpoints : List CheckpointRow} {purged : Bool} :
    Prepared ⟨request, s.runs, s.work, checkpoints, purged⟩ { q with phase := phase } k :=
  ⟨h.current, h.covered, h.counted, h.verified⟩

theorem Sound.create (hw : s.work = []) (hk : s.checkpoints = []) (hp : s.purged = false)
    (hq : q.IsFresh) (runs : List UUID) : Sound { s with request := some q, runs := runs } q where
  admissible :=
    { leased := fun h => by rw [hq.lease] at h; cases h
      started := fun h => by rw [hq.firstStartedAt] at h; cases h
      unstarted := fun _ => hq.storeManifest }
  revision_pos := hq.revision.ge
  work_keyed := by rw [hw]; exact nodup_nil
  checkpoints_keyed := by rw [hk]; exact nodup_nil
  work_owned := by simp [hw]
  checkpoint_owned := by simp [hk]
  work_manifest := by simp [hw]
  checkpoint_manifest := by simp [hk]
  work_revision := by simp [hw]
  work_target := by simp [hw]
  work_generation := by simp [hw]
  checkpoint_revision := by simp [hk]
  proof_revision := by simp [hk]
  prepared := by simp [hk]
  proof_phase := by simp [hk]
  purged_phase := by simp [hp]

theorem Sound.manifest_kept (h : s.Sound q) (hq : Quiet q q') (hc : code ∈ q.storeManifest) :
    code ∈ q'.storeManifest := by
  have hstarted : q.firstStartedAt.isSome = true := by
    cases hs : q.firstStartedAt with
    | some _ => rfl
    | none => rw [h.admissible.unstarted hs] at hc; cases hc
  rwa [hq.manifest hstarted]

theorem Sound.quiet (h : s.Sound q) (hq : Quiet q q') : Sound { s with request := some q' } q' where
  admissible := hq.admissible h.admissible
  revision_pos := by rw [hq.revision]; exact h.revision_pos
  work_keyed := h.work_keyed
  checkpoints_keyed := h.checkpoints_keyed
  work_owned := by rw [hq.projectId, hq.requestId]; exact h.work_owned
  checkpoint_owned := by rw [hq.projectId, hq.requestId]; exact h.checkpoint_owned
  work_manifest := fun w hw => h.manifest_kept hq (h.work_manifest w hw)
  checkpoint_manifest := fun k hk => h.manifest_kept hq (h.checkpoint_manifest k hk)
  work_revision := by rw [hq.revision]; exact h.work_revision
  work_target := h.work_target
  work_generation := fun w hw g t hs => (h.work_generation w hw g t hs).trans hq.generation
  checkpoint_revision := by rw [hq.revision]; exact h.checkpoint_revision
  proof_revision := h.proof_revision
  prepared := by
    intro k hk hrev
    rw [hq.revision] at hrev
    obtain ⟨hcurrent, hcovered, hcounted, hverified⟩ := h.prepared k hk hrev
    refine ⟨?_, ?_, ?_, hverified⟩
    · rw [hq.revision]
      exact hcurrent
    · rw [targetsOf, traceTargets, hq.scope]
      exact hcovered
    · rw [hcounted, currentWork, currentWork, hq.projectId, hq.requestId, hq.revision]
  proof_phase := by rw [hq.phase]; exact h.proof_phase
  purged_phase := by rw [hq.phase]; exact h.purged_phase

theorem Sound.advance (h : s.Sound q) {phase : Phase} (hp : q.phase.Advances phase) :
    Sound { s with request := some { q with phase := phase } } { q with phase := phase } :=
  { h with
    admissible := ⟨h.admissible.leased, h.admissible.started, h.admissible.unstarted⟩
    prepared := fun k hk hrev => (h.prepared k hk hrev).copy
    proof_phase := by
      intro k hk hproof
      have hphase := h.proof_phase k hk hproof
      generalize q.phase = before at hp hphase
      cases hp with
      | crypto | primary => simp at hphase
      | external => exact .inl rfl
      | complete => exact .inr rfl
    purged_phase := by
      intro hpurged
      have hphase := h.purged_phase hpurged
      generalize q.phase = before at hp hphase
      cases hp with
      | crypto => simp at hphase
      | primary => exact .inl rfl
      | external => exact .inr (.inl rfl)
      | complete => exact .inr (.inr rfl) }

theorem Sound.purge (h : s.Sound q) (hp : q.phase = .primaryPurged ∨ q.phase = .externalPurged) :
    Sound { s with purged := true } q :=
  { h with
    prepared := fun k hk hrev => (h.prepared k hk hrev).copy
    purged_phase := fun _ => hp.imp_right .inl }

/-- After a late bind no checkpoint is current. -/
theorem Sound.late (h : s.Sound q) (runs : List UUID) (digest : Digest) :
    Sound { s with
      request := some { q with closureRevision := q.closureRevision + 1, closureDigest := digest }
      runs := runs }
      { q with closureRevision := q.closureRevision + 1, closureDigest := digest } :=
  { h with
    admissible := ⟨h.admissible.leased, h.admissible.started, h.admissible.unstarted⟩
    revision_pos := Nat.le_add_left 1 _
    work_revision := fun w hw => (h.work_revision w hw).trans (Nat.le_succ _)
    checkpoint_revision := fun k hk => (h.checkpoint_revision k hk).trans (Nat.le_succ _)
    prepared := by
      intro k hk hrev
      have hle := h.checkpoint_revision k hk
      have hrev' : k.preparedRevision = q.closureRevision + 1 := hrev
      omega }

theorem Sound.shrink (h : s.Sound q) (hr : runs ⊆ s.runs) : Sound { s with runs := runs } q :=
  { h with
    prepared := fun k hk hrev =>
      have hprep := h.prepared k hk hrev
      ⟨hprep.current, fun t ht => hprep.covered t (targetsOf_subset hr _ ht), hprep.counted,
        hprep.verified⟩ }

/-- Changing the state of work, not what the work is, keeps a saga sound as long as verified
work stays verified. -/
theorem Sound.updateWork (h : s.Sound q) {p : WorkRow → Bool} {f : WorkRow → WorkRow}
    (hkey : ∀ w, (f w).key = w.key) (hrev : ∀ w, (f w).discoveredRevision = w.discoveredRevision)
    (hgen : ∀ w, p w = true → ∀ g t, (f w).state = .inProgress g t → g ≤ q.generation)
    (hver : ∀ w, p w = true → w.state.isVerified = true → (f w).state.isVerified = true) :
    Sound { s with work := updateWhere p f s.work } q := by
  have hfields : ∀ w, (f w).projectId = w.projectId ∧ (f w).requestId = w.requestId ∧
      (f w).storeCode = w.storeCode ∧ (f w).target = w.target := fun w => by
    simpa [WorkRow.key] using hkey w
  -- A fact about what the work is passes through the update.
  have hrow : ∀ {P : WorkRow → Prop}, (∀ w ∈ s.work, P w) → (∀ w, P w → P (f w)) →
      ∀ w ∈ updateWhere p f s.work, P w := fun hP hf =>
    forall_updateWhere (fun w hw _ => hf w (hP w hw)) (fun w hw _ => hP w hw)
  refine { h with
    work_keyed := h.work_keyed.updateWhere hkey
    work_owned := hrow h.work_owned fun w hw => ?_
    work_manifest := hrow h.work_manifest fun w hw => ?_
    work_revision := hrow h.work_revision fun w hw => ?_
    work_target := hrow h.work_target fun w hw => ?_
    work_generation := forall_updateWhere (fun w _ hp => hgen w hp)
      (fun w hw _ => h.work_generation w hw)
    prepared := fun k hk hprev => ?_ }
  · rwa [(hfields w).1, (hfields w).2.1]
  · rwa [(hfields w).2.2.1]
  · rwa [hrev w]
  · rwa [(hfields w).2.2.1, (hfields w).2.2.2]
  · obtain ⟨hcurrent, hcovered, hcounted, hverified⟩ := h.prepared k hk hprev
    refine ⟨hrow hcurrent fun w hw => ?_, fun t ht => ?_, ?_, fun hproof => ?_⟩
    · rwa [(hfields w).2.2.1, hrev w]
    · obtain ⟨w, hw, hcode, htarget⟩ := hcovered t ht
      refine ⟨if p w then f w else w, mem_updateWhere.mpr ⟨w, hw, rfl⟩, ?_⟩
      split
      · exact ⟨(hfields w).2.2.1.trans hcode, (hfields w).2.2.2.trans htarget⟩
      · exact ⟨hcode, htarget⟩
    · rw [hcounted, currentWork, currentWork, filter_updateWhere, length_updateWhere]
      intro w _
      rw [(hfields w).1, (hfields w).2.1, (hfields w).2.2.1, hrev w]
    · refine forall_updateWhere (fun w hw hp hcode => ?_) (fun w hw _ => hverified hproof w hw)
      exact hver w hp (hverified hproof w hw ((hfields w).2.2.1.symm.trans hcode))

theorem renewCheckpoint_key (q : RequestRow) (count : ℕ) (digest : Digest) (k : CheckpointRow) :
    (renewCheckpoint q count digest k).key = k.key := by
  rw [renewCheckpoint]
  split
  · rfl
  · rfl

variable {digest : Digest}

/-- The checkpoints after one was brought to the current revision: those of other stores, one
that was current already, and the new one without a proof. -/
theorem mem_prepareCheckpoint (h : s.Sound q)
    (hk : k ∈ prepareCheckpoint q code count digest s.checkpoints) :
    (k ∈ s.checkpoints ∧ (k.storeCode = code → k.preparedRevision = q.closureRevision)) ∨
      (k.projectId = q.projectId ∧ k.requestId = q.requestId) ∧ k.storeCode = code ∧
        k.preparedRevision = q.closureRevision ∧ k.targetCount = count ∧ k.proof = none := by
  rcases mem_upsert.mp hk with ⟨old, hold, rfl⟩ | ⟨rfl, -⟩
  · by_cases hkey : old.key = (⟨q.projectId, q.requestId, code, q.closureRevision, count, digest,
        none⟩ : CheckpointRow).key
    · rw [if_pos hkey]
      have hcode : old.storeCode = code := congrArg (·.2.2) hkey
      rw [renewCheckpoint]
      split
      · exact .inr ⟨h.checkpoint_owned old hold, hcode, rfl, rfl, rfl⟩
      · next hlt =>
        have := h.checkpoint_revision old hold
        exact .inl ⟨hold, fun _ => by omega⟩
    · rw [if_neg hkey]
      refine .inl ⟨hold, fun hcode => absurd ?_ hkey⟩
      simp [CheckpointRow.key, h.checkpoint_owned old hold, hcode]
  · exact .inr ⟨⟨rfl, rfl⟩, rfl, rfl, rfl, rfl⟩

theorem targetsOf_eq_project (h : code.isTrace = false) : targetsOf q runs code = [.project] := by
  rw [targetsOf, if_neg (by simp [h])]

theorem Sound.materialize (h : s.Sound q) (hcode : code ∈ q.storeManifest)
    (hcount : count = if code.isTrace then (currentWork q code
      (materializeWork q code (targetsOf q s.runs code) s.work)).length else 1) :
    (s.materialize q code count digest).Sound q := by
  have hcurrent : ∀ w ∈ (s.materialize q code count digest).work, w.storeCode = code →
      w.discoveredRevision = q.closureRevision := fun w hw hc =>
    materializeWork_current h.work_owned h.work_revision hw hc
  have howned : ∀ w ∈ (s.materialize q code count digest).work,
      w.projectId = q.projectId ∧ w.requestId = q.requestId :=
    forall_materializeWork h.work_owned (fun w hw _ => h.work_owned w hw) fun _ _ => ⟨rfl, rfl⟩
  have hkeyed : Table.Keyed WorkRow.key (s.materialize q code count digest).work :=
    materializeWork_keyed h.work_keyed
  have htarget : ∀ w ∈ (s.materialize q code count digest).work, w.storeCode.isTrace = false →
      w.target = .project := by
    refine forall_materializeWork h.work_target (fun w hw _ => h.work_target w hw) ?_
    intro t ht hc
    have hnt : code.isTrace = false := hc
    rw [targetsOf_eq_project hnt] at ht
    exact mem_singleton.mp ht
  refine { h with
      work_keyed := hkeyed
      checkpoints_keyed := h.checkpoints_keyed.upsert _ (renewCheckpoint_key q count digest)
      work_owned := howned
      checkpoint_owned := fun k hk => ?_
      work_manifest := forall_materializeWork h.work_manifest
        (fun w hw _ => h.work_manifest w hw) fun _ _ => hcode
      checkpoint_manifest := fun k hk => ?_
      work_revision := forall_materializeWork h.work_revision (fun w _ _ => le_refl _)
        fun _ _ => le_refl _
      work_target := htarget
      work_generation := forall_materializeWork h.work_generation nofun nofun
      checkpoint_revision := fun k hk => ?_
      proof_revision := fun k hk v hv => ?_
      prepared := fun k hk hrev => ?_
      proof_phase := fun k hk hproof => ?_ }
  · rcases mem_prepareCheckpoint h hk with ⟨hk, -⟩ | ⟨hown, -⟩
    · exact h.checkpoint_owned k hk
    · exact hown
  · rcases mem_prepareCheckpoint h hk with ⟨hk, -⟩ | ⟨-, hc, -⟩
    · exact h.checkpoint_manifest k hk
    · rwa [hc]
  · rcases mem_prepareCheckpoint h hk with ⟨hk, -⟩ | ⟨-, -, hr, -⟩
    · exact h.checkpoint_revision k hk
    · exact hr.le
  · rcases mem_prepareCheckpoint h hk with ⟨hk, -⟩ | ⟨-, -, -, -, hp⟩
    · exact h.proof_revision k hk v hv
    · rw [CheckpointRow.verifiedRevision, hp] at hv
      cases hv
  · rcases mem_prepareCheckpoint h hk with ⟨hk, hcur⟩ | ⟨-, rfl, -, hcnt, hp⟩
    · have hprep := h.prepared k hk hrev
      by_cases hc : k.storeCode = code
      · -- The store was prepared at this revision before, so its work stands.
        subst hc
        have hsame := materializeWork_eq_self h.work_owned hprep.current hprep.covered
        refine ⟨?_, ?_, ?_, ?_⟩ <;> simp only [Saga.materialize, hsame]
        · exact hprep.current
        · exact hprep.covered
        · exact hprep.counted
        · exact hprep.verified
      · have hback : ∀ w ∈ (s.materialize q code count digest).work, w.storeCode = k.storeCode →
            w ∈ s.work := by
          intro w hw hwk
          rcases mem_materializeWork hw with ⟨hw, -⟩ | ⟨old, -, hs, rfl⟩ | ⟨t, -, rfl⟩
          · exact hw
          · exact absurd (hwk.symm.trans (isStale_eq_true.mp hs).2.1) hc
          · exact absurd hwk.symm hc
        refine ⟨fun w hw hwk => hprep.current w (hback w hw hwk) hwk, fun t ht => ?_, ?_,
          fun hproof w hw hwk => hprep.verified hproof w (hback w hw hwk) hwk⟩
        · obtain ⟨w, hw, hwk, hwt⟩ := hprep.covered t ht
          refine ⟨w, subset_insertAll _ _ (mem_updateWhere_of_not hw (Bool.eq_false_iff.mpr
            fun hs => hc ?_)), hwk, hwt⟩
          exact hwk.symm.trans (isStale_eq_true.mp hs).2.1
        · rw [hprep.counted]
          exact congrArg List.length (currentWork_materializeWork hc).symm
    · refine ⟨hcurrent, fun t ht => exists_materializeWork ht, ?_, fun hproof => ?_⟩
      · rw [hcnt, hcount]
        split
        · rfl
        · next hnt =>
          have hnt' : k.storeCode.isTrace = false := Bool.eq_false_iff.mpr hnt
          refine (length_currentWork_project howned hkeyed hcurrent
            (fun w hw hc => htarget w hw (hc ▸ hnt')) (exists_materializeWork ?_)).symm
          rw [targetsOf_eq_project hnt']
          exact mem_singleton_self _
      · rw [hp] at hproof
        cases hproof
  · rcases mem_prepareCheckpoint h hk with ⟨hk, -⟩ | ⟨-, -, -, -, hp⟩
    · exact h.proof_phase k hk hproof
    · rw [hp] at hproof
      cases hproof

theorem Sound.closeCheckpoints (h : s.Sound q)
    (hp : q.phase = .externalPurged ∨ q.phase = .scopeComplete)
    (hv : ∀ w ∈ currentWork q code s.work, w.state.isVerified = true) :
    Sound { s with checkpoints := closeAll q code count proof s.checkpoints } q := by
  have hrow : ∀ {P : CheckpointRow → Prop}, (∀ k ∈ s.checkpoints, P k) →
      (∀ k, P k → P (closeCheckpoint q proof k)) →
        ∀ k ∈ closeAll q code count proof s.checkpoints, P k := fun hP hf =>
    forall_updateWhere (fun k hk _ => hf k (hP k hk)) (fun k hk _ => hP k hk)
  refine { h with
    checkpoints_keyed := h.checkpoints_keyed.updateWhere fun _ => rfl
    checkpoint_owned := hrow h.checkpoint_owned fun _ hk => hk
    checkpoint_manifest := hrow h.checkpoint_manifest fun _ hk => hk
    checkpoint_revision := hrow h.checkpoint_revision fun _ hk => hk
    proof_revision := forall_updateWhere (fun k _ hclosable v hv => ?_)
      (fun k hk _ => h.proof_revision k hk)
    prepared := forall_updateWhere (fun k hk hclosable hrev => ?_)
      (fun k hk _ hrev => (h.prepared k hk hrev).copy)
    proof_phase := fun _ _ _ => hp }
  · exact (some.inj hv).symm.trans (isClosable_eq_true.mp hclosable).2.2.1.symm
  · obtain ⟨-, hcode, hcurrent, -⟩ := isClosable_eq_true.mp hclosable
    have hprep := h.prepared k hk hcurrent
    refine ⟨hprep.current, hprep.covered, hprep.counted, fun _ w hw hwk => hv w ?_⟩
    exact mem_filter.mpr ⟨hw, decide_eq_true ⟨(h.work_owned w hw).1, (h.work_owned w hw).2,
      hwk.trans hcode, hprep.current w hw hwk⟩⟩

/-- Before the first store is closed no checkpoint has a proof. -/
theorem Sound.proof_eq_none (h : s.Sound q) (hp : q.phase = .primaryPurged)
    (hk : k ∈ s.checkpoints) : k.proof = none := by
  rw [← not_isSome_iff_eq_none]
  intro hproof
  rcases h.proof_phase k hk hproof with hphase | hphase
  · rw [hp] at hphase; cases hphase
  · rw [hp] at hphase; cases hphase

/-- Closing the first store leaves no other proof, so that the aggregate is true. -/
theorem Sound.allDone_closeAll (h : s.Sound q) (hp : q.phase = .primaryPurged)
    (hk : k ∈ s.checkpoints) (hclosable : isClosable q code count k = true) :
    allDone q (closeAll q code count proof s.checkpoints) = true := by
  refine allDone_eq_true.mpr ⟨⟨closeCheckpoint q proof k, ?_, rfl⟩, ?_⟩
  · refine mem_filter.mpr ⟨mem_updateWhere_of hk hclosable, decide_eq_true ?_⟩
    obtain ⟨hown, -⟩ := isClosable_eq_true.mp hclosable
    exact ⟨hown.1, hown.2, h.checkpoint_manifest k hk⟩
  · intro other hother v hv
    obtain ⟨old, hold, rfl⟩ := mem_updateWhere.mp (mem_filter.mp hother).1
    by_cases hc : isClosable q code count old = true
    · rw [if_pos hc] at hv
      exact (some.inj hv).symm
    · rw [if_neg hc, CheckpointRow.verifiedRevision, h.proof_eq_none hp hold] at hv
      cases hv

theorem Sound.close (h : s.Sound q) (hp : q.phase = .primaryPurged ∨ q.phase = .externalPurged)
    (hv : ∀ w ∈ currentWork q code s.work, w.state.isVerified = true) :
    Sound { s with
      request := some (q.afterClose (closeAll q code count proof s.checkpoints))
      checkpoints := closeAll q code count proof s.checkpoints }
      (q.afterClose (closeAll q code count proof s.checkpoints)) := by
  rcases hp with hp | hp
  · by_cases hclosable : ∃ k ∈ s.checkpoints, isClosable q code count k = true
    · obtain ⟨k, hk, hclosable⟩ := hclosable
      rw [RequestRow.afterClose, if_pos (h.allDone_closeAll hp hk hclosable)]
      have hadvanced : Sound { s with request := some { q with phase := .externalPurged } }
          { q with phase := .externalPurged } := h.advance (hp ▸ .external)
      exact hadvanced.closeCheckpoints (.inl rfl) hv
    · -- Nothing was closed, so nothing changed.
      have hsame : closeAll q code count proof s.checkpoints = s.checkpoints :=
        updateWhere_eq_self fun k hk =>
          Bool.eq_false_iff.mpr fun hc => hclosable ⟨k, hk, hc⟩
      rw [hsame, RequestRow.afterClose]
      split
      · exact h.advance (hp ▸ .external)
      · exact { h with prepared := fun k hk hrev => (h.prepared k hk hrev).copy }
  · have hkept : q.afterClose (closeAll q code count proof s.checkpoints) = q := by
      rw [RequestRow.afterClose]
      split
      · rw [← hp]
      · rfl
    rw [hkept]
    have hclosed : Sound { s with checkpoints := closeAll q code count proof s.checkpoints } q :=
      h.closeCheckpoints (.inl hp) hv
    exact { hclosed with prepared := fun k hk hrev => (hclosed.prepared k hk hrev).copy }

/-- **Every step keeps a saga well-formed.** -/
theorem Step.wellFormed {s s' : Saga} (h : s.WellFormed) (hstep : Step s s') : s'.WellFormed := by
  -- Only an acceptance starts from a request that is not there.
  have hpresent : ∀ {t : Saga} {q q' : RequestRow}, s.request = some q → t.request = some q' →
      t.Sound q' → t.WellFormed := fun _ ht hs =>
    ⟨fun hn => (nomatch ht.symm.trans hn), fun p hp => some.inj (ht.symm.trans hp) ▸ hs⟩
  cases hstep with
  | create hnone hq =>
    obtain ⟨hw, hk, hp⟩ := h.absent hnone
    exact ⟨(nomatch ·), fun p hp' => some.inj hp' ▸ Sound.create hw hk hp hq _⟩
  | quiet hs hq => exact hpresent hs rfl ((h.sound _ hs).quiet hq)
  | advance hs hp => exact hpresent hs rfl ((h.sound _ hs).advance hp)
  | purge hs hp => exact hpresent hs hs ((h.sound _ hs).purge hp)
  | late hs => exact hpresent hs rfl ((h.sound _ hs).late _ _)
  | shrink hr => exact ⟨h.absent, fun q hq => (h.sound q hq).shrink hr⟩
  | materialize hs hcode hcount => exact hpresent hs hs ((h.sound _ hs).materialize hcode hcount)
  | claim hs hc hsel =>
    refine hpresent hs hs ((h.sound _ hs).updateWork (fun _ => rfl) (fun _ => rfl) ?_ ?_)
    · intro w _ g t hstate
      simp only [claimWork, WorkState.inProgress.injEq] at hstate
      exact (hstate.1.symm.trans hc).le
    · -- Open work is not verified.
      intro w hp hver
      have hopen := hsel w hp
      cases hw : w.state <;> simp_all [isOpenTo, WorkState.isVerified]
  | mark hs =>
    exact hpresent hs hs ((h.sound _ hs).updateWork (fun _ => rfl) (fun _ => rfl)
      nofun (fun _ _ _ => rfl))
  | close hs hp hv => exact hpresent hs rfl ((h.sound _ hs).close hp hv)

theorem wellFormed_of_steps {s s' : Saga} (h : s.WellFormed)
    (hsteps : Relation.ReflTransGen Step s s') : s'.WellFormed := by
  induction hsteps with
  | refl => exact h
  | tail _ hstep ih => exact hstep.wellFormed ih

end Saga

end Tracebed.Erasure
