import Tracebed.IdleDecay

/-!
# Strikes of Stale Memories

A stale memory that fails its verification is retired, and the guard of that edge asks for two
strikes. The workers that move a memory to `stale` write the first strike with it, except
`recall_and_rollback`: a memory that it finds validated without a strike is stale without one
afterwards, and its next failed verification aborts the whole batch
(`MemorySample.recalled_aborts`). In runs whose recalls find a strike every stale memory has one
(`stale_struck`). Beside the workers the steps have every other write of `persist_status` that
does not lead to `stale`.
-/

open Py Fallible Table List

namespace Tracebed

/-- A call of one of the workers. -/
inductive LifecycleOp
  | rollback (project : ProjectId) (memory : MemoryId) (now : ℤ) (cfg : LifecycleSettings)
  | invalidate (project : ProjectId) (eventType : String) (selector : InvalidationSelector)
      (now : ℤ) (cfg : LifecycleSettings)
  | revalidate (project : ProjectId) (now : ℤ) (verifier : LifecycleMemoryRow → Bool)
      (clock : LifecycleMemoryRow → ℤ) (cfg : LifecycleSettings)
  | quarantineTtl (project : ProjectId) (now : ℤ) (cfg : LifecycleSettings)
  | candidateTtl (project : ProjectId) (now : ℤ) (cfg : LifecycleSettings)
  | decay (project : ProjectId) (now : ℤ) (cfg : LifecycleSettings)
  | other (project : ProjectId) (memory : MemoryId) (current target : Status) (now : ℤ)
      (htarget : target ≠ .stale)

namespace LifecycleOp

/-- What a call does to the memories. -/
def perform (v : Vault) : LifecycleOp → Except LifecycleError Vault
  | rollback project memory now cfg => recallAndRollback project memory now cfg v
  | invalidate project event selector now cfg => processEvent project event selector now cfg v
  | revalidate project now verifier clock cfg =>
    RevalidationWorker.runOnce project now verifier clock cfg v
  | quarantineTtl project now cfg => quarantineTtlSweep project now cfg v
  | candidateTtl project now cfg => candidateTtlSweep project now cfg v
  | decay project now cfg => decaySweep project now cfg v
  | other project memory current target now _ => v.persistStatus project memory current target now

/-- A recall does not find its memory validated without a strike. -/
def FindsStrike (v : Vault) : LifecycleOp → Prop
  | rollback project memory .. => ∀ row, v.getMemoryById project memory = some row →
      row.status = .validated → 1 ≤ row.strikeCount
  | _ => True

end LifecycleOp

/-- Freshly inserted rows. -/
def Vault.Fresh (v : Vault) : Prop := ∀ row ∈ v.rows, row.strikeCount = 0 ∧ row.status ≠ .stale

/-- Every stale memory has a strike. -/
def Vault.Struck (v : Vault) : Prop := ∀ row ∈ v.rows, row.status = .stale → 1 ≤ row.strikeCount

variable {project : ProjectId} {v v' : Vault} {w : LifecycleTransitionWrite}
  {row : LifecycleMemoryRow} {now : ℤ} {limits : TransitionLimits} {cfg : LifecycleSettings}
  {verified : Bool} {target status : Status} {e : TransitionEvidence}

/-! ### What a worker writes -/

/-- A transition that is granted leads to its target. -/
theorem LifecycleMemoryRow.eq_of_transition (h : row.transition target e limits = .ok status) :
    status = target :=
  (apply_eq_ok_iff.mp (mapError_eq_ok.mp h)).1

/-- A write to `stale` brings the first strike. -/
def LifecycleTransitionWrite.Strikes (w : LifecycleTransitionWrite) : Prop :=
  w.toStatus = .stale → w.strikeCount = some 1

/-- A write that strikes the memory it makes stale keeps every stale memory struck. -/
theorem Vault.Struck.persist (hv : v.Struck) (hw : w.Strikes) (h : v.persist project w = .ok v') :
    v'.Struck := by
  rw [Vault.persist] at h
  split at h
  · cases h
    refine forall_updateWhere (fun row hrow _ hstale => ?_) fun row hrow _ => hv row hrow
    simp only [LifecycleTransitionWrite.applyTo] at hstale ⊢
    rw [hw hstale]
    exact le_rfl
  · cases h

variable {decide : LifecycleMemoryRow → Except LifecycleError (Option LifecycleTransitionWrite)}
  {rows : List LifecycleMemoryRow}

/-- A loop of such writes keeps every stale memory struck. -/
theorem Vault.Struck.forEach (hv : v.Struck)
    (hdecide : ∀ row w, decide row = .ok (some w) → w.Strikes)
    (h : Tracebed.forEach project decide rows v = .ok v') : v'.Struck := by
  refine foldlM_preserves h hv fun v₁ row v₂ _ hstep hv₁ => ?_
  obtain ⟨decision, hdecision, hstep⟩ := bind_eq_ok.mp hstep
  match decision with
  | none =>
    cases hstep
    exact hv₁
  | some w => exact hv₁.persist (hdecide row w hdecision) hstep

/-- A TTL sweep that does not lead to `stale` has no strike to write. -/
theorem ttlRow_strikes {source : Status} (htarget : target ≠ .stale)
    (h : ttlRow project source target limits now row = .ok (some w)) : w.Strikes := by
  obtain ⟨_, -, h⟩ := bind_eq_ok.mp h
  split at h
  · cases h
  · split at h <;> cases h
    next happly =>
      exact fun hstale => absurd ((apply_eq_ok_iff.mp happly).1.symm.trans hstale) htarget

/-- The decay sweep archives, so it has no strike to write. -/
theorem decayRow_strikes (h : decayRow project cfg limits now row = .ok (some w)) : w.Strikes := by
  obtain ⟨_, hreturned, -⟩ := bind_eq_ok.mp h
  simp only [requireReturnedRow, ensure_eq_ok, Bool.and_eq_true, decide_eq_true_eq] at hreturned
  rw [decayRow_eq hreturned.1 hreturned.2] at h
  exact fun hstale => absurd hstale (decayWrite_eq_some (Except.ok.inj h)).2.2

/-- A validated memory that fails its verification is made stale with a strike. -/
theorem checkValidated_strikes (h : checkValidated project cfg verified now row = .ok (some w)) :
    w.Strikes := by
  obtain ⟨_, -, h⟩ := bind_eq_ok.mp h
  split at h
  · cases h
    nofun
  · obtain ⟨limits, -, h⟩ := bind_eq_ok.mp h
    obtain ⟨status, -, h⟩ := bind_eq_ok.mp h
    cases h
    exact fun _ => rfl

/-- A stale memory leaves `stale`, whatever its verification says. -/
theorem checkStale_strikes (h : checkStale project cfg verified now row = .ok (some w)) :
    w.Strikes := by
  obtain ⟨_, -, h⟩ := bind_eq_ok.mp h
  obtain ⟨limits, -, h⟩ := bind_eq_ok.mp h
  split at h
  all_goals
    obtain ⟨status, hstatus, h⟩ := bind_eq_ok.mp h
    cases h
    exact fun hstale => nomatch (row.eq_of_transition hstatus).symm.trans hstale

/-- An invalidated memory is made stale with a strike. -/
theorem invalidateRow_strikes (h : invalidateRow limits now row = .ok (some w)) : w.Strikes := by
  rw [invalidateRow] at h
  split at h
  · cases h
  · obtain ⟨status, -, h⟩ := bind_eq_ok.mp h
    cases h
    exact fun _ => rfl

/-! ### Runs -/

variable {memory : MemoryId}

/-- `persist_status` keeps every strike. -/
theorem Vault.Struck.persistStatus {current : Status} (hv : v.Struck)
    (htarget : target = .stale → ∀ row ∈ v.rows, Vault.expects project memory current row = true →
      1 ≤ row.strikeCount) (h : v.persistStatus project memory current target now = .ok v') :
    v'.Struck := by
  rw [Vault.persistStatus] at h
  split_ifs at h
  cases h
  exact forall_updateWhere (fun row hrow hexpects hstale => htarget hstale row hrow hexpects)
    fun row hrow _ => hv row hrow

/-- What a recall that returns did: nothing, or it wrote the containment of the row it found. -/
theorem recallAndRollback_eq_ok (h : recallAndRollback project memory now cfg v = .ok v') :
    ∃ row, v.getMemoryById project memory = some row ∧ row.projectId = project ∧
      (v' = v ∧ containment row now = none ∨
        ∃ target e, containment row now = some (target, e) ∧
          v.persistStatus project row.id row.status target now = .ok v') := by
  obtain ⟨limits, -, h⟩ := bind_eq_ok.mp h
  obtain ⟨row, hrow, h⟩ := bind_eq_ok.mp h
  have hfound := orThrow_eq_ok.mp hrow
  have hkey := find?_some hfound
  simp only [Bool.and_eq_true, decide_eq_true_eq] at hkey
  refine ⟨row, hfound, hkey.1.1, ?_⟩
  split at h
  · next hnone =>
    cases h
    exact .inl ⟨rfl, hnone⟩
  · next target e hcontained =>
    obtain ⟨status, hstatus, hwrite⟩ := bind_eq_ok.mp h
    obtain rfl := row.eq_of_transition hstatus
    exact .inr ⟨_, e, hcontained, hwrite⟩

/-- A recall that finds its memory struck leaves every stale memory struck. -/
theorem Vault.Struck.recall (hv : v.Struck)
    (hfinds : (LifecycleOp.rollback project memory now cfg).FindsStrike v)
    (h : recallAndRollback project memory now cfg v = .ok v') : v'.Struck := by
  obtain ⟨row, hfound, hproject, ⟨rfl, -⟩ | ⟨target, e, hcontained, hwrite⟩⟩ :=
    recallAndRollback_eq_ok h
  · exact hv
  · refine hv.persistStatus (fun hstale other hother hexpects => ?_) hwrite
    simp only [Vault.expects, Bool.and_eq_true, decide_eq_true_eq] at hexpects
    obtain rfl : other = row := v.keyed.eq_of_key hother (mem_of_find?_eq_some hfound)
      (Prod.ext (hexpects.1.1.trans hproject.symm) hexpects.1.2)
    refine hfinds _ hfound ?_
    rw [containment] at hcontained
    split at hcontained <;> cases hcontained <;> first | assumption | cases hstale

/-- A recall that finds its memory validated without a strike leaves it stale without one. -/
theorem not_struck_of_perform {op : LifecycleOp} (hfinds : ¬ op.FindsStrike v)
    (h : op.perform v = .ok v') : ¬ v'.Struck := by
  cases op with
  | rollback project memory now cfg =>
    simp only [LifecycleOp.FindsStrike, not_forall, not_le] at hfinds
    obtain ⟨row, hfound, hvalidated, hstrike⟩ := hfinds
    obtain ⟨_, hfound', hproject, ⟨rfl, hnone⟩ | ⟨target, e, hcontained, hwrite⟩⟩ :=
      recallAndRollback_eq_ok h <;> obtain rfl := Option.some.inj (hfound.symm.trans hfound')
    · simp [containment, hvalidated] at hnone
    · obtain rfl : target = .stale := by simp_all [containment]
      rw [Vault.persistStatus] at hwrite
      split_ifs at hwrite
      cases hwrite
      have hexpects : Vault.expects project row.id row.status row = true := by
        simp [Vault.expects, hproject]
      intro hstruck
      have := hstruck _ (mem_updateWhere_of (mem_of_find?_eq_some hfound) hexpects) rfl
      exact absurd this (not_le.mpr hstrike)
  | _ => exact absurd trivial hfinds

/-- **A call that finds a strike leaves every stale memory with one.** -/
theorem Vault.Struck.perform {op : LifecycleOp} (hv : v.Struck) (hfinds : op.FindsStrike v)
    (h : op.perform v = .ok v') : v'.Struck := by
  cases op with
  | rollback => exact hv.recall hfinds h
  | invalidate =>
    rw [LifecycleOp.perform, processEvent] at h
    split at h
    · cases h
      exact hv
    · obtain ⟨_, -, h⟩ := bind_eq_ok.mp h
      obtain ⟨limits, -, h⟩ := bind_eq_ok.mp h
      exact hv.forEach (fun _ _ => invalidateRow_strikes) h
  | revalidate =>
    obtain ⟨checked, hchecked, h⟩ := bind_eq_ok.mp h
    exact (hv.forEach (fun _ _ => checkValidated_strikes) hchecked).forEach
      (fun _ _ => checkStale_strikes) h
  | quarantineTtl | candidateTtl =>
    obtain ⟨limits, -, h⟩ := bind_eq_ok.mp h
    exact hv.forEach (fun _ _ hrow => ttlRow_strikes (by decide) hrow) h
  | decay =>
    obtain ⟨limits, -, h⟩ := bind_eq_ok.mp h
    exact hv.forEach (fun _ _ => decayRow_strikes) h
  | other _ _ _ _ _ htarget => exact hv.persistStatus (fun hstale => absurd hstale htarget) h

/-! ### No batch is aborted -/

variable {a : ApplyError}

/-- A transition along a permitted edge is not refused. -/
theorem LifecycleMemoryRow.transition_ne_error (h : Permitted e limits (some row.status) target) :
    row.transition target e limits ≠ .error (.transition a) := by
  simp [LifecycleMemoryRow.transition, apply_eq_ok_iff.mpr ⟨rfl, h⟩, Except.mapError]

/-- Reading the limits raises no refused transition; it can fail only on the settings. -/
theorem LifecycleSettings.transitionLimits_ne_error :
    cfg.transitionLimits ≠ .error (.transition a) := by
  rw [LifecycleSettings.transitionLimits]
  cases TransitionLimits.fromConfig cfg.limits <;> nofun

/-- The loop raises no refused transition that its decisions do not raise. -/
theorem forEach_ne_error (hdecide : ∀ row ∈ rows, decide row ≠ .error (.transition a)) :
    forEach project decide rows v ≠ .error (.transition a) := by
  refine foldlM_ne_error fun v row hrow => bind_ne_error (hdecide row hrow) fun decision _ => ?_
  match decision with
  | none => nofun
  | some w =>
    simp only [Vault.persist]
    split <;> nofun

/-- The second strike is enough. -/
theorem checkStale_ne_error (hstrike : 1 ≤ row.strikeCount) :
    checkStale project cfg verified now row ≠ .error (.transition a) := by
  refine bind_ne_error (ensure_ne_error nofun) fun _ hreturned => ?_
  simp only [requireReturnedRow, ensure_eq_ok, Bool.and_eq_true, decide_eq_true_eq] at hreturned
  refine bind_ne_error LifecycleSettings.transitionLimits_ne_error fun limits _ => ?_
  split
  · exact bind_ne_error (row.transition_ne_error (hreturned.2 ▸ .reverify rfl)) fun _ _ => nofun
  · refine bind_ne_error (row.transition_ne_error (hreturned.2 ▸ .secondStrike ?_)) fun _ _ => nofun
    change (2 : ℤ) ≤ row.strikeCount + 1
    omega

/-- The checks of validated memories never raise a refused transition. -/
theorem checkValidated_ne_error :
    checkValidated project cfg verified now row ≠ .error (.transition a) := by
  refine bind_ne_error (ensure_ne_error nofun) fun _ hreturned => ?_
  simp only [requireReturnedRow, ensure_eq_ok, Bool.and_eq_true, decide_eq_true_eq] at hreturned
  split
  · nofun
  · refine bind_ne_error LifecycleSettings.transitionLimits_ne_error fun limits _ => ?_
    exact bind_ne_error (row.transition_ne_error (hreturned.2 ▸ .goStale (.inr (.inr rfl))))
      fun _ _ => nofun

/-- The steps of a run: calls that return. -/
def Vault.Step (v v' : Vault) : Prop :=
  ∃ op : LifecycleOp, op.FindsStrike v ∧ op.perform v = .ok v'

/-- **Every stale memory carries a strike**, and no revalidation is aborted by a refused
transition, in every state of a run from fresh rows whose recalls find a strike. The next call
keeps it so exactly if it is no recall of a validated memory without one. -/
theorem stale_struck {start : Vault} (hstart : start.Fresh)
    (hrun : Relation.ReflTransGen Vault.Step start v) :
    v.Struck ∧
      (∀ project now verifier clock cfg a,
        RevalidationWorker.runOnce project now verifier clock cfg v ≠ .error (.transition a)) ∧
      ∀ (op : LifecycleOp) v', op.perform v = .ok v' → (v'.Struck ↔ op.FindsStrike v) := by
  have hstruck : v.Struck := by
    induction hrun with
    | refl => exact fun row hrow hstale => absurd hstale (hstart row hrow).2
    | tail _ hstep ih =>
      obtain ⟨op, hfinds, hop⟩ := hstep
      exact ih.perform hfinds hop
  refine ⟨hstruck, fun project now verifier clock cfg a => ?_, fun op v' hop =>
    ⟨fun h => by_contra fun hfinds => not_struck_of_perform hfinds hop h,
      fun hfinds => hstruck.perform hfinds hop⟩⟩
  refine bind_ne_error (forEach_ne_error fun _ _ => checkValidated_ne_error) fun checked _ => ?_
  refine forEach_ne_error fun row hrow => checkStale_ne_error ?_
  obtain ⟨hmem, -, -, hstatus⟩ := Vault.mem_selectByStatus
    (mem_of_mem_filter (mem_of_mem_filter hrow))
  exact hstruck row hmem (mem_singleton.mp hstatus)

namespace MemorySample

/-- A fresh candidate is promoted and recalled: two calls that return. -/
def recalled : Except LifecycleError Vault := do
  let promoted ← (LifecycleOp.other ⟨⟨0⟩⟩ ⟨⟨1⟩⟩ .candidate .validated 1 nofun).perform
    (vault .candidate)
  (LifecycleOp.rollback ⟨⟨0⟩⟩ ⟨⟨1⟩⟩ 2 (settings 5)).perform promoted

/-- **A recalled memory aborts the revalidation of its project.** It is stale without a strike, and
the state machine refuses to retire it. -/
theorem recalled_aborts : (vault .candidate).Fresh ∧ ∃ v, recalled = .ok v ∧
    (∃ row ∈ v.rows, row.status = .stale ∧ row.strikeCount = 0) ∧
      ∃ reason, RevalidationWorker.runOnce ⟨⟨0⟩⟩ 3 (fun _ => false) (fun _ => 3) (settings 5) v =
        .error (.transition (.guardNotSatisfied (some .stale) .retired reason)) := by
  obtain ⟨limits, hlimits⟩ := settings_accepted 5
  refine ⟨by simp [Vault.Fresh, vault, memory], ⟨[{ memory .stale with statusChangedAt := some 2 }],
    fun _ _ => true, nodup_singleton _⟩, ?_, ⟨_, mem_singleton.mpr rfl, rfl, rfl⟩, ?_⟩
  · simp only [recalled, LifecycleOp.perform, recallAndRollback, hlimits]
    rfl
  · simp only [RevalidationWorker.runOnce, checkStale, hlimits]
    exact ⟨_, rfl⟩

/-- The memory with strikes, on some status since some instant. -/
def struck (strikes : ℤ) (status : Status) (since : ℤ) : Vault where
  rows := [{ MemorySample.memory status with
    strikeCount := strikes
    statusChangedAt := some since }]
  visible := fun _ _ => true
  keyed := nodup_singleton _

/-- Thirty days, after which a validated memory is due. -/
def due : ℤ := 2592000000000

/-- A promotion, a failed revalidation, a return to `validated` by another worker, and a recall that
finds the strike of the revalidation. -/
theorem recall_reached : Relation.ReflTransGen Vault.Step (vault .candidate)
    (struck 1 .stale (due + 2)) := by
  obtain ⟨limits, hlimits⟩ := settings_accepted 5
  have hpromoted : Vault.Step (vault .candidate) (struck 0 .validated 1) :=
    ⟨.other ⟨⟨0⟩⟩ ⟨⟨1⟩⟩ .candidate .validated 1 nofun, trivial, rfl⟩
  have hfailed : Vault.Step (struck 0 .validated 1) (struck 1 .stale due) := by
    refine ⟨.revalidate ⟨⟨0⟩⟩ due (fun _ => false) (fun _ => due) (settings 5), trivial, ?_⟩
    simp only [LifecycleOp.perform, RevalidationWorker.runOnce, checkValidated, hlimits]
    rfl
  have hreturned : Vault.Step (struck 1 .stale due) (struck 1 .validated (due + 1)) :=
    ⟨.other ⟨⟨0⟩⟩ ⟨⟨1⟩⟩ .stale .validated (due + 1) nofun, trivial, rfl⟩
  have hrecalled : Vault.Step (struck 1 .validated (due + 1)) (struck 1 .stale (due + 2)) := by
    refine ⟨.rollback ⟨⟨0⟩⟩ ⟨⟨1⟩⟩ (due + 2) (settings 5), fun row hrow _ => ?_, ?_⟩
    · cases hrow
      exact le_rfl
    · simp only [LifecycleOp.perform, recallAndRollback, hlimits]
      rfl
  exact .tail (.tail (.tail (.single hpromoted) hfailed) hreturned) hrecalled

/-- After that run the stale memory has its strike, its next failed verification aborts nothing, and
another recall of it keeps the strike. -/
theorem recalled_struck : (vault .candidate).Fresh ∧ (struck 1 .stale (due + 2)).Struck ∧
    (∀ a, RevalidationWorker.runOnce ⟨⟨0⟩⟩ (due + 3) (fun _ => false) (fun _ => due + 3)
      (settings 5) (struck 1 .stale (due + 2)) ≠ .error (.transition a)) ∧
    ∀ op v', LifecycleOp.perform (struck 1 .stale (due + 2)) op = .ok v' →
      (v'.Struck ↔ op.FindsStrike (struck 1 .stale (due + 2))) := by
  have hfresh : (vault .candidate).Fresh := by simp [Vault.Fresh, vault, MemorySample.memory]
  obtain ⟨hstruck, hruns, hnext⟩ := stale_struck hfresh recall_reached
  exact ⟨hfresh, hstruck, hruns _ _ _ _ _, hnext⟩

end MemorySample

end Tracebed
