import Tracebed.MemoryLifecycle

/-!
# Idle Memories and the Archive Floor

`decay_sweep` archives a validated memory once its decayed value has come down to the archive
floor. The decayed value is the floor plus a positive distance that shrinks by a fixed factor
each idle week; in exact arithmetic it never meets the floor (`MemorySample.never_archived`),
except where the factor is zero: then one idle week is enough (`archived_eventually_iff`).
-/

open Py Fallible Table List

namespace Tracebed

variable {project : ProjectId} {cfg : LifecycleSettings} {v v' : Vault}
  {w : LifecycleTransitionWrite} {row : LifecycleMemoryRow} {now : ℤ} {limits : TransitionLimits}

/-! ### The status of a memory -/

/-- The memory of a project is on a status. -/
def Vault.On (v : Vault) (k : ProjectId × MemoryId) (status : Status) : Prop :=
  ∃ row ∈ v.rows, row.key = k ∧ row.status = status

/-- A memory is on one status. -/
theorem Vault.On.unique {k : ProjectId × MemoryId} {a b : Status} (ha : v.On k a) (hb : v.On k b) :
    a = b := by
  obtain ⟨row, hrow, hkey, rfl⟩ := ha
  obtain ⟨other, hother, hkey', rfl⟩ := hb
  rw [v.keyed.eq_of_key hrow hother (hkey.trans hkey'.symm)]

/-- A write to a visible row on the expected status rewrites that row and no other. -/
theorem Vault.exists_persist (hrow : row ∈ v.rows) (hproject : row.projectId = project)
    (hvisible : v.visible project row.id = true) (hid : w.memoryId = row.id)
    (hfrom : w.fromStatus = row.status) :
    ∃ v', v.persist project w = .ok v' ∧ v'.visible = v.visible ∧
      v'.rows = v.rows.map fun r => if r.key = row.key then w.applyTo r else r := by
  have hselects : ∀ r ∈ v.rows, (expects project w.memoryId w.fromStatus r &&
      v.visible project w.memoryId) = true ↔ r.key = row.key := by
    intro r hr
    constructor
    · intro h
      simp only [expects, Bool.and_eq_true, decide_eq_true_eq] at h
      exact Prod.ext (h.1.1.1.trans hproject.symm) (h.1.1.2.trans hid)
    · intro hkey
      obtain rfl := v.keyed.eq_of_key hr hrow hkey
      simp [expects, hproject, hid, hfrom, hvisible]
  refine ⟨_, if_pos (any_eq_true.mpr ⟨row, hrow, (hselects row hrow).mpr rfl⟩), rfl, ?_⟩
  exact map_congr_left fun r hr => if_congr (hselects r hr) rfl rfl

theorem Vault.mem_selectByStatus {statuses : List Status}
    (h : row ∈ v.selectByStatus project statuses) : row ∈ v.rows ∧
      v.visible row.projectId row.id = true ∧ row.projectId = project ∧ row.status ∈ statuses := by
  have hmem := (mem_insertionSort _).mp (mem_of_mem_take h)
  simpa [and_assoc] using hmem

/-- No statement reads a memory twice. -/
theorem Vault.select_nodup (p : LifecycleMemoryRow → Bool) (n : ℕ) :
    (((v.select p).take n).map LifecycleMemoryRow.key).Nodup := by
  have hsort : Table.Keyed LifecycleMemoryRow.key (v.select p) :=
    ((perm_insertionSort _ _).map _).nodup_iff.mpr (v.keyed.filter _)
  exact hsort.sublist ((take_sublist _ _).map _)

/-! ### The decayed value -/

/-- The bounds `EffectiveConfig` puts on what the sweep reads. -/
structure LifecycleSettings.Valid (cfg : LifecycleSettings) : Prop where
  pct_nonneg : 0 ≤ cfg.decayPctPerIdleWeek
  pct_le : cfg.decayPctPerIdleWeek ≤ 100
  floor_nonneg : 0 ≤ cfg.archiveFloor
  floor_le : cfg.archiveFloor ≤ 1
  seed_nonneg : 0 ≤ cfg.qStart
  seed_le : cfg.qStart ≤ 1
  ttl_pos : 1 ≤ cfg.limits.lifecycleQuarantineTtlDays ∧ 1 ≤ cfg.limits.lifecycleCandidateTtlDays
  age_pos : 1 ≤ cfg.revalidationAgeDays
  seed_above : cfg.archiveFloor < cfg.qStart

/-- What the value of a row decays to. -/
def LifecycleSettings.decayed (cfg : LifecycleSettings) (row : LifecycleMemoryRow) (now : ℤ) : ℚ :=
  decayedQValue cfg.qStart cfg.archiveFloor cfg.decayPctPerIdleWeek (idleWeeks row.reference now)

/-- **Below one hundred percent the floor is not met**, however long the memory is idle. -/
theorem LifecycleSettings.Valid.floor_lt_decayed (h : cfg.Valid)
    (hpct : cfg.decayPctPerIdleWeek < 100) : cfg.archiveFloor < cfg.decayed row now := by
  rw [LifecycleSettings.decayed, decayedQValue, max_eq_right h.pct_nonneg, min_eq_right h.pct_le]
  split
  · exact h.seed_above
  · refine lt_max_of_lt_right (lt_add_of_pos_right _ (mul_pos (sub_pos.mpr h.seed_above) ?_))
    exact pow_pos (by linarith) _

/-! ### What the sweep writes -/

/-- What the sweep writes to a row that it reads. -/
def decayWrite (cfg : LifecycleSettings) (now : ℤ) (row : LifecycleMemoryRow) :
    Option LifecycleTransitionWrite :=
  if idleWeeks row.reference now = 0 then none
  else if cfg.archiveFloor < cfg.decayed row now then
    if row.qValue ≤ cfg.decayed row now then none
    else some ⟨row.id, .validated, .validated, now, none, some (cfg.decayed row now)⟩
  else some ⟨row.id, .validated, .archived, now, none, some cfg.archiveFloor⟩

theorem decayRow_eq (hproject : row.projectId = project) (hstatus : row.status = .validated) :
    decayRow project cfg limits now row = .ok (decayWrite cfg now row) := by
  have harchive : row.transition .archived { row.evidence now with decayFloorReached := true }
      limits = .ok .archived := by
    rw [LifecycleMemoryRow.transition, hstatus]
    rfl
  rw [decayRow, requireReturnedRow, ensure_bind, if_pos (by simp [hproject, hstatus]), harchive,
    hstatus, decayWrite]
  unfold LifecycleSettings.decayed
  dsimp only
  split_ifs <;> rfl

theorem decayWrite_eq_some (h : decayWrite cfg now row = some w) :
    w.memoryId = row.id ∧ w.fromStatus = .validated ∧ w.toStatus ≠ .stale := by
  rw [decayWrite] at h
  split_ifs at h <;> cases h <;> exact ⟨rfl, rfl, nofun⟩

theorem decayWrite_archives :
    (decayWrite cfg now row).elim .validated (·.toStatus) = Status.archived ↔
      idleWeeks row.reference now ≠ 0 ∧ cfg.decayed row now ≤ cfg.archiveFloor := by
  rw [decayWrite]
  split_ifs with hidle hfloor hvalue <;> simp_all

/-- **What a loop does to the memories**: each write it decides on is made, and nothing else. -/
theorem forEach_rows {rows : List LifecycleMemoryRow}
    {decide : LifecycleMemoryRow → Except LifecycleError (Option LifecycleTransitionWrite)}
    {D : LifecycleMemoryRow → Option LifecycleTransitionWrite}
    (hrows : ∀ row ∈ rows, row ∈ v.rows ∧ v.visible project row.id = true ∧
      row.projectId = project)
    (hdecide : ∀ row ∈ rows, decide row = .ok (D row))
    (hD : ∀ row ∈ rows, ∀ w ∈ D row, w.memoryId = row.id ∧ w.fromStatus = row.status)
    (hnodup : (rows.map LifecycleMemoryRow.key).Nodup) :
    ∃ v', forEach project decide rows v = .ok v' ∧
      v'.rows = v.rows.map fun r => if r.key ∈ rows.map LifecycleMemoryRow.key then
        (D r).elim r (·.applyTo r) else r := by
  induction rows generalizing v with
  | nil => exact ⟨v, rfl, by simp⟩
  | cons row rows ih =>
    obtain ⟨hfresh, hnodup⟩ := nodup_cons.mp hnodup
    obtain ⟨hrow, hrest⟩ := forall_mem_cons.mp hdecide
    obtain ⟨hwrite, hwrites⟩ := forall_mem_cons.mp hD
    obtain ⟨⟨hmem, hvisible, hproject⟩, hothers⟩ := forall_mem_cons.mp hrows
    -- the decision about the first row, carried out
    obtain ⟨v₁, hv₁, hsame, hrows₁⟩ : ∃ v₁,
        (D row).elim (Except.ok v) (v.persist project) = .ok v₁ ∧ v₁.visible = v.visible ∧
        v₁.rows = v.rows.map fun r => if r.key = row.key then (D row).elim r (·.applyTo r)
          else r := by
      cases hdecision : D row with
      | none => exact ⟨v, rfl, rfl, by simp⟩
      | some w =>
        obtain ⟨hid, hfrom⟩ := hwrite w hdecision
        exact Vault.exists_persist hmem hproject hvisible hid hfrom
    have hothers₁ : ∀ other ∈ rows, other ∈ v₁.rows ∧ v₁.visible project other.id = true ∧
        other.projectId = project := by
      intro other hother
      obtain ⟨hmem, hv, hp⟩ := hothers other hother
      have hne : other.key ≠ row.key := fun hkey => hfresh (hkey ▸ mem_map_of_mem hother)
      exact ⟨hrows₁ ▸ mem_map.mpr ⟨other, hmem, if_neg hne⟩, hsame ▸ hv, hp⟩
    obtain ⟨v', hloop, hv'⟩ := ih hothers₁ hrest hwrites hnodup
    refine ⟨v', ?_, ?_⟩
    · rw [forEach, foldlM_cons, hrow]
      refine bind_ok ?_ hloop
      cases hdecision : D row <;> rwa [hdecision] at hv₁
    · rw [hv', hrows₁, map_map]
      refine map_congr_left fun r hr => ?_
      by_cases hkey : r.key = row.key
      · obtain rfl := v.keyed.eq_of_key hr hmem hkey
        have hkept : ((D r).elim r (·.applyTo r)).key = r.key := by cases D r <;> rfl
        simp only [Function.comp_apply, if_true, hkept, hfresh, if_false, map_cons, mem_cons_self]
      · simp [hkey]

/-! ### Archived in the end -/

/-- A sweep at the instant moves the memory to `archived`. -/
def ArchivedAt (project : ProjectId) (cfg : LifecycleSettings) (v : Vault)
    (row : LifecycleMemoryRow) (now : ℤ) : Prop :=
  ∃ v', decaySweep project now cfg v = .ok v' ∧ v'.On row.key .archived

/-- What the sweep does to a validated memory. -/
theorem decayLoop_on (limits : TransitionLimits) (hrow : row ∈ v.rows)
    (hstatus : row.status = .validated) :
    ∃ v' status, forEach project (decayRow project cfg limits now)
        (v.selectByStatus project [.validated]) v = .ok v' ∧ v'.On row.key status ∧
      (status = .archived ↔ row ∈ v.selectByStatus project [.validated] ∧
        idleWeeks row.reference now ≠ 0 ∧ cfg.decayed row now ≤ cfg.archiveFloor) := by
  have hread : ∀ r ∈ v.selectByStatus project [.validated], r ∈ v.rows ∧
      v.visible project r.id = true ∧ r.projectId = project ∧ r.status = .validated := by
    intro r hr
    obtain ⟨hmem, hvisible, rfl, hstatus⟩ := Vault.mem_selectByStatus hr
    exact ⟨hmem, hvisible, rfl, mem_singleton.mp hstatus⟩
  obtain ⟨v', hloop, hv'⟩ := forEach_rows
    (fun r hr => ⟨(hread r hr).1, (hread r hr).2.1, (hread r hr).2.2.1⟩)
    (fun r hr => decayRow_eq (hread r hr).2.2.1 (hread r hr).2.2.2)
    (fun r hr w hw => by
      obtain ⟨hid, hfrom, -⟩ := decayWrite_eq_some hw
      exact ⟨hid, hfrom.trans (hread r hr).2.2.2.symm⟩) (Vault.select_nodup _ _)
  refine ⟨v', _, hloop, ⟨_, hv' ▸ mem_map_of_mem hrow, ?_, rfl⟩, ?_⟩
  · split
    · cases decayWrite cfg now row <;> rfl
    · rfl
  by_cases hin : row ∈ v.selectByStatus project [.validated]
  · have hdone : ((decayWrite cfg now row).elim row (·.applyTo row)).status =
        (decayWrite cfg now row).elim .validated (·.toStatus) := by
      cases decayWrite cfg now row with
      | none => exact hstatus
      | some w => rfl
    rw [if_pos (mem_map_of_mem hin), hdone, decayWrite_archives, and_iff_right hin]
  · have hkey : row.key ∉ (v.selectByStatus project [.validated]).map LifecycleMemoryRow.key := by
      intro hmem
      obtain ⟨other, hother, hkey⟩ := mem_map.mp hmem
      exact hin (v.keyed.eq_of_key (hread other hother).1 hrow hkey ▸ hother)
    rw [if_neg hkey, hstatus]
    exact iff_of_false nofun fun h => hin h.1

/-- **Which validated memories a sweep archives**: those it reads that have been idle for a week
and whose value has come down to the floor. -/
theorem archivedAt_iff (hrow : row ∈ v.rows) (hstatus : row.status = .validated) :
    ArchivedAt project cfg v row now ↔ (∃ limits, cfg.transitionLimits = .ok limits) ∧
      row ∈ v.selectByStatus project [.validated] ∧ idleWeeks row.reference now ≠ 0 ∧
        cfg.decayed row now ≤ cfg.archiveFloor := by
  constructor
  · rintro ⟨v', hsweep, harchived⟩
    obtain ⟨limits, hlimits, hsweep⟩ := bind_eq_ok.mp hsweep
    obtain ⟨_, status, hloop, hon, hiff⟩ := decayLoop_on limits hrow hstatus
    cases hloop.symm.trans hsweep
    exact ⟨⟨limits, hlimits⟩, hiff.mp (hon.unique harchived)⟩
  · rintro ⟨⟨limits, hlimits⟩, hdue⟩
    obtain ⟨v', status, hloop, hon, hiff⟩ := decayLoop_on limits hrow hstatus
    exact ⟨v', bind_ok hlimits hloop, hiff.mpr hdue ▸ hon⟩

/-- **Which validated memories are archived in the end**: those the sweep reads, and only if a
whole idle week takes all of the distance to the floor. -/
theorem archived_eventually_iff (hcfg : cfg.Valid) (hrow : row ∈ v.rows)
    (hstatus : row.status = .validated) :
    (∃ weeks : ℕ, ∀ now, row.reference + weeks * 604800000000 ≤ now →
      ArchivedAt project cfg v row now) ↔
    cfg.decayPctPerIdleWeek = 100 ∧ (∃ limits, cfg.transitionLimits = .ok limits) ∧
      row ∈ v.selectByStatus project [.validated] := by
  simp only [archivedAt_iff hrow hstatus]
  constructor
  · rintro ⟨weeks, h⟩
    obtain ⟨hlimits, hread, -, hfloor⟩ := h _ le_rfl
    refine ⟨hcfg.pct_le.antisymm (not_lt.mp fun hlt => ?_), hlimits, hread⟩
    exact absurd (hcfg.floor_lt_decayed hlt) (not_lt.mpr hfloor)
  · rintro ⟨hpct, hlimits, hread⟩
    refine ⟨1, fun now hnow => ?_⟩
    have hidle : idleWeeks row.reference now ≠ 0 := by
      rw [idleWeeks, if_neg (by omega)]
      omega
    refine ⟨hlimits, hread, hidle, le_of_eq ?_⟩
    rw [LifecycleSettings.decayed, decayedQValue, if_neg hidle, hpct]
    norm_num [zero_pow hidle]

/-! ### One memory -/

namespace MemorySample

/-- The defaults, with another percentage per idle week. -/
def settings (pct : ℚ) : LifecycleSettings where
  limits := { defaultLimitsConfig with lifecycleArchiveFloor := .fin (3 / 20) }
  archiveFloor := 3 / 20
  qStart := 1 / 2
  decayPctPerIdleWeek := pct
  revalidationAgeDays := 30
  floor_exact := rfl

theorem settings_valid {pct : ℚ} (h : 0 ≤ pct) (h' : pct ≤ 100) : (settings pct).Valid := by
  refine ⟨h, h', ?_, ?_, ?_, ?_, ⟨?_, ?_⟩, ?_, ?_⟩ <;> norm_num [settings, defaultLimitsConfig]

theorem settings_accepted (pct : ℚ) : ∃ limits, (settings pct).transitionLimits = .ok limits :=
  ⟨{ defaultLimits with archiveFloor := .fin (3 / 20), accepted := by decide +kernel },
    mapError_eq_ok.mpr (Thresholds.accept_eq_ok.mpr rfl)⟩

/-- A memory on some status, never retrieved. -/
def memory (status : Status) : LifecycleMemoryRow where
  id := ⟨⟨1⟩⟩
  projectId := ⟨⟨0⟩⟩
  status := status
  trustTier := .A
  memType := .lesson
  provenance := { cls := .parser }
  statusChangedAt := some 0
  strikeCount := 0
  lastRetrievedAt := none
  createdAt := 0
  qValue := 1 / 2

/-- The memory alone, fenced by nothing. -/
def vault (status : Status) : Vault := ⟨[memory status], fun _ _ => true, nodup_singleton _⟩

/-- **Under the default percentage the memory is never archived**, though the sweep reads it and
the config is valid. -/
theorem never_archived : (settings 5).Valid ∧
    memory .validated ∈ (vault .validated).selectByStatus ⟨⟨0⟩⟩ [.validated] ∧
      ∀ now, ¬ ArchivedAt ⟨⟨0⟩⟩ (settings 5) (vault .validated) (memory .validated) now := by
  have hvalid : (settings 5).Valid := settings_valid (by norm_num) (by norm_num)
  refine ⟨hvalid, mem_singleton.mpr rfl, fun now harchived => ?_⟩
  obtain ⟨-, -, -, hfloor⟩ := (archivedAt_iff (mem_singleton.mpr rfl) rfl).mp harchived
  exact absurd (hvalid.floor_lt_decayed (by norm_num [settings])) (not_lt.mpr hfloor)

/-- At one hundred percent it is. -/
theorem archived_at_hundred : ∃ weeks : ℕ, ∀ now,
    (memory .validated).reference + weeks * 604800000000 ≤ now →
      ArchivedAt ⟨⟨0⟩⟩ (settings 100) (vault .validated) (memory .validated) now :=
  (archived_eventually_iff (settings_valid (by norm_num) le_rfl) (mem_singleton.mpr rfl)
    rfl).mpr ⟨rfl, settings_accepted 100, mem_singleton.mpr rfl⟩

end MemorySample

end Tracebed
