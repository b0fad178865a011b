import Tracebed.TraceRuns

/-!
# Run Ownership Is Permanent

Corroboration counts distinct principals and signature clusters over the identity columns of
index rows, so these must not move once they are written. The first committed batch fixes the
owner; every committed event is the owner's; and the signature changes at most once, from the
absent sentinel to the signature of a committed `run_start` (`exec_ownership`).
-/

open Py Fallible List

namespace Tracebed

variable {D : Type}

/-- The signature of a run whose `run_start` is the given envelope. -/
def startSignature (W : Writer D) (e : QueueEnvelope D) : Except PyError Bytes := do
  let features ← runStartFeatures W.prims W.unicode e
  inputSignatureHash W.prims W.unicode e.agentTypeId features.queryText
    features.workflowTemplate features.toolManifest

/-- A signature is the one of a committed `run_start`. -/
def StartSigned (W : Writer D) (s : Store D) (sig : Bytes) : Prop :=
  ∃ e ∈ s.archive, e.event.type = .runStart ∧ startSignature W e = .ok sig

/-- **Owned**: every committed event comes from the principal and agent type of the row, and
the row's signature is absent or that of a committed `run_start`. -/
def Owned (W : Writer D) (s : Store D) : Prop :=
  ∀ row, s.row = some row →
    (∀ e ∈ s.archive, e.principalId = row.submitterPrincipal ∧
      e.agentTypeId = row.agentTypeId) ∧
    (row.inputSignatureHash = absentSignature ∨ StartSigned W s row.inputSignatureHash)

/-- What may happen to the identity columns between two states: principal and agent type
stay, and the signature stays or is upgraded from the absent sentinel. -/
def IdentityKept (W : Writer D) (s s' : Store D) : Prop :=
  ∀ row, s.row = some row → ∃ row', s'.row = some row' ∧
    row'.submitterPrincipal = row.submitterPrincipal ∧ row'.agentTypeId = row.agentTypeId ∧
    (row'.inputSignatureHash = row.inputSignatureHash ∨
      row.inputSignatureHash = absentSignature ∧ row'.inputSignatureHash ≠ absentSignature ∧
        StartSigned W s' row'.inputSignatureHash)

theorem IdentityKept.refl (W : Writer D) (s : Store D) : IdentityKept W s s :=
  fun row h => ⟨row, h, rfl, rfl, .inl rfl⟩

variable {W : Writer D} {sig : Bytes}

/-- Committed events stay committed, so an upgrade keeps its witness. -/
theorem StartSigned.mono {s s' : Store D} (h : StartSigned W s sig)
    (hsub : ∀ e ∈ s.archive, e ∈ s'.archive) :
    StartSigned W s' sig := by
  obtain ⟨e, he, htype, hsig⟩ := h
  exact ⟨e, hsub e he, htype, hsig⟩

theorem IdentityKept.trans {s t u : Store D} (hst : IdentityKept W s t) (htu : IdentityKept W t u)
    (hsub : ∀ e ∈ t.archive, e ∈ u.archive) :
    IdentityKept W s u := by
  intro row hrow
  obtain ⟨row₁, hrow₁, hp₁, ha₁, hsig₁⟩ := hst row hrow
  obtain ⟨row₂, hrow₂, hp₂, ha₂, hsig₂⟩ := htu row₁ hrow₁
  refine ⟨row₂, hrow₂, hp₂.trans hp₁, ha₂.trans ha₁, ?_⟩
  rcases hsig₂ with hsame | ⟨habsent, hnew, hstart⟩
  · rw [hsame]
    exact hsig₁.imp_right fun ⟨h1, h2, h3⟩ => ⟨h1, h2, h3.mono hsub⟩
  · rcases hsig₁ with hsame | ⟨-, hnew₁, -⟩
    · exact .inr ⟨hsame ▸ habsent, hnew, hstart⟩
    · exact absurd habsent hnew₁

/-- Ownership speaks of the row and the committed events only. -/
theorem Owned.congr {s s' : Store D} (h : Owned W s) (hrow : s'.row = s.row)
    (harchive : s'.archive = s.archive) : Owned W s' ∧ IdentityKept W s s' := by
  refine ⟨?_, fun row hr => ⟨row, by rw [hrow, hr], rfl, rfl, .inl rfl⟩⟩
  intro row hr
  rw [hrow] at hr
  obtain ⟨hevents, hsig⟩ := h row hr
  refine ⟨fun e he => hevents e (harchive ▸ he), hsig.imp_right fun hstart => ?_⟩
  exact hstart.mono fun e he => harchive ▸ he

/-! ### Written batches -/

/-- The identity columns of a batch: the old signature, or the one of a new `run_start`. -/
theorem identityColumns_spec {owner : RunOwner} {existing : Option (TraceIndexRow D)}
    {new : List (QueueEnvelope D)} {startedAt : Option D}
    (h : identityColumns W owner existing new = .ok (sig, startedAt))
    (howner : ∀ e ∈ new, e.agentTypeId = owner.agentTypeId) :
    sig = (existing.map TraceIndexRow.inputSignatureHash).getD absentSignature ∨
      ∃ e ∈ new, e.event.type = .runStart ∧ startSignature W e = .ok sig := by
  rw [identityColumns] at h
  cases hfind : new.find? (fun e => e.event.type = .runStart) with
  | none =>
    rw [hfind] at h
    exact .inl (Prod.mk.inj (Except.ok.inj h)).1.symm
  | some e =>
    rw [hfind] at h
    have he := mem_of_find?_eq_some hfind
    obtain ⟨features, hfeatures, h⟩ := bind_eq_ok.mp h
    obtain ⟨sig', hsig, h⟩ := bind_eq_ok.mp h
    obtain ⟨rfl, -⟩ := Prod.mk.inj (Except.ok.inj h)
    refine .inr ⟨e, he, by simpa using find?_some hfind, ?_⟩
    rw [← howner e he] at hsig
    exact bind_ok hfeatures hsig

section Written

variable [DecidableEq D] {project : ProjectId} {run : RunId} {b : Batch D} {s s' : Store D}

theorem Batch.Writes.new_owned (h : b.Writes W project run s s') {e : QueueEnvelope D}
    (he : e ∈ b.new) :
    e.principalId = b.owner.principalId ∧ e.agentTypeId = b.owner.agentTypeId := by
  obtain ⟨⟨d, hd, rfl⟩, -⟩ := h.mem_new he
  have hown := h.owned d hd
  simp only [ownedBy, Bool.and_eq_true, decide_eq_true_eq] at hown
  exact hown.1

theorem Batch.Writes.row_owner (h : b.Writes W project run s s') :
    b.row.submitterPrincipal = b.owner.principalId ∧ b.row.agentTypeId = b.owner.agentTypeId := by
  obtain ⟨row, path, hrow, -, -, -, -, hstored, -⟩ := h.upserted
  obtain ⟨-, -, -, -, hagent, hprincipal, -⟩ := batchRow_spec hrow
  rw [hstored]
  cases hold : s.row with
  | none => exact ⟨hprincipal, hagent⟩
  | some old =>
    have howner := h.owner_eq old hold
    rw [howner, upsertTraceIndex]
    by_cases hterm : old.outcomeStatus.isTerminal = true
    · rw [if_pos hterm]
      exact ⟨rfl, rfl⟩
    · rw [if_neg hterm]
      exact ⟨rfl, rfl⟩

/-- The signature of the row after a batch: unchanged, or upgraded to that of a `run_start`
the batch brought. -/
theorem Batch.Writes.signature_cases (h : b.Writes W project run s s') :
    let old := (s.row.map TraceIndexRow.inputSignatureHash).getD absentSignature
    b.row.inputSignatureHash = old ∨
      old = absentSignature ∧ StartSigned W s' b.row.inputSignatureHash := by
  obtain ⟨row, path, hrow, -, -, -, -, hstored, -⟩ := h.upserted
  obtain ⟨hid, -⟩ := batchRow_spec hrow
  have hnew : ∀ e ∈ b.new, e ∈ s'.archive := fun e he => by
    rw [h.state_eq]
    exact mem_append_right _ he
  have hcases := identityColumns_spec hid fun e he => (h.new_owned he).2
  have hopen := h.open_row
  rw [hstored]
  cases hold : s.row with
  | none =>
    rw [hold] at hcases
    rcases hcases with hsame | ⟨e, he, htype, hsig⟩
    · exact .inl hsame
    · exact .inr ⟨rfl, e, hnew e he, htype, hsig⟩
  | some old =>
    rw [hold] at hcases hopen
    have hopen' : ¬old.outcomeStatus.isTerminal = true := by
      rw [show old.outcomeStatus.isTerminal = false from hopen]
      exact Bool.false_ne_true
    rw [upsertTraceIndex, if_neg hopen']
    by_cases habsent : old.inputSignatureHash = absentSignature
    · rw [if_pos (by exact decide_eq_true habsent)]
      rcases hcases with hsame | ⟨e, he, htype, hsig⟩
      · exact .inl hsame
      · exact .inr ⟨habsent, e, hnew e he, htype, hsig⟩
    · rw [if_neg (by rw [isAbsentSignature]; simpa using habsent)]
      exact .inl rfl

/-- **A written batch keeps ownership.** -/
theorem Batch.Writes.owned_after (h : b.Writes W project run s s') (hs : Consistent W s)
    (hown : Owned W s) : Owned W s' ∧ IdentityKept W s s' := by
  obtain ⟨hprincipal, hagent⟩ := h.row_owner
  have hrow : s'.row = some b.row := by rw [h.state_eq]
  have harchive : s'.archive = s.archive ++ b.new := by rw [h.state_eq]
  have hsub : ∀ e ∈ s.archive, e ∈ s'.archive := fun e he => by
    rw [harchive]
    exact mem_append_left _ he
  have hsig := h.signature_cases
  refine ⟨?_, ?_⟩
  · intro row' hrow'
    obtain rfl : b.row = row' := Option.some.inj (hrow.symm.trans hrow')
    refine ⟨?_, ?_⟩
    · intro e he
      rw [harchive] at he
      rw [hprincipal, hagent]
      rcases mem_append.mp he with he | he
      · cases hold : s.row with
        | none =>
          rw [hs.absent hold] at he
          cases he
        | some old =>
          rw [h.owner_eq old hold]
          exact (hown old hold).1 e he
      · exact h.new_owned he
    · rcases hsig with hsame | ⟨-, hstart⟩
      · rw [hsame]
        cases hold : s.row with
        | none => exact .inl rfl
        | some old => exact (hown old hold).2.imp_right fun hstart => hstart.mono hsub
      · exact .inr hstart
  · intro old hold
    refine ⟨b.row, hrow, ?_, ?_, ?_⟩
    · rw [hprincipal, h.owner_eq old hold]
    · rw [hagent, h.owner_eq old hold]
    · rw [hold] at hsig
      by_cases hsame : b.row.inputSignatureHash = old.inputSignatureHash
      · exact .inl hsame
      · rcases hsig with hkept | ⟨habsent, hstart⟩
        · exact absurd hkept hsame
        · exact .inr ⟨habsent, habsent ▸ hsame, hstart⟩

end Written

/-! ### Runs -/

section Run

variable [DecidableEq D] {project : ProjectId} {run : RunId} {s : Store D}

/-- **Every step keeps ownership.** -/
theorem runStep_owned (hs : Consistent W s) (hown : Owned W s) (a : RunStep D) :
    Owned W (runStep W project run s a) ∧ IdentityKept W s (runStep W project run s a) := by
  rcases runStep_cases W project run s a with
    ⟨hrow, -, harchive⟩ | ⟨b, hb⟩ | ⟨row, hrow, -, heq⟩
  · exact hown.congr hrow harchive
  · exact hb.owned_after hs hown
  · -- the sweep rewrites the outcome only
    rw [heq]
    refine ⟨?_, fun row' hrow' => ?_⟩
    · rintro _ ⟨⟩
      exact hown row hrow
    · obtain rfl := Option.some.inj (hrow.symm.trans hrow')
      exact ⟨_, rfl, rfl, rfl, .inl rfl⟩

theorem runStep_archive_subset (W : Writer D) (project : ProjectId) (run : RunId) (s : Store D)
    (a : RunStep D) : ∀ e ∈ s.archive, e ∈ (runStep W project run s a).archive := by
  intro e he
  rcases runStep_cases W project run s a with ⟨-, -, harchive⟩ | ⟨b, hb⟩ | ⟨row, -, -, heq⟩
  · rw [harchive]
    exact he
  · rw [hb.state_eq]
    exact mem_append_left _ he
  · rw [heq]
    exact he

/-- **Ownership over every run.** After any steps every committed event is the owner's and
the signature is absent or a `run_start`'s; and whatever happens then, owner and agent type
stay, and the signature stays unless it is absent and upgraded. -/
theorem exec_ownership (W : Writer D) (project : ProjectId) (run : RunId) (keys : KeyTable D)
    (objects : ℕ → Option Bytes) (steps : List (RunStep D)) :
    Owned W (Runs.exec (runStep W project run) (Store.fresh keys objects) steps) ∧
      ∀ more, IdentityKept W (Runs.exec (runStep W project run) (Store.fresh keys objects) steps)
        (Runs.exec (runStep W project run) (Store.fresh keys objects) (steps ++ more)) := by
  have hinit : Consistent W (Store.fresh keys objects) ∧ Owned W (Store.fresh keys objects) :=
    ⟨fresh_consistent W keys objects, nofun⟩
  have hstep : ∀ (s : Store D) (a : RunStep D), Consistent W s ∧ Owned W s →
      Consistent W (runStep W project run s a) ∧ Owned W (runStep W project run s a) :=
    fun s a hs => ⟨runStep_consistent hs.1 a, (runStep_owned hs.1 hs.2 a).1⟩
  have hall : Consistent W (Runs.exec (runStep W project run) (Store.fresh keys objects) steps) ∧
      Owned W (Runs.exec (runStep W project run) (Store.fresh keys objects) steps) :=
    Runs.exec_invariant (I := fun s => Consistent W s ∧ Owned W s) hinit
      fun s a _ hs => hstep s a hs
  refine ⟨hall.2, fun more => ?_⟩
  rw [Runs.exec_append]
  refine (Runs.exec_rel (R := fun s t => (∀ e ∈ s.archive, e ∈ t.archive) ∧ IdentityKept W s t)
    hall (fun s a _ hs => hstep s a hs) (fun s => ⟨fun _ h => h, IdentityKept.refl W s⟩) ?_
    fun s a _ hs => ⟨runStep_archive_subset W project run s a, (runStep_owned hs.1 hs.2 a).2⟩).2
  rintro s t u ⟨hst, hkept⟩ ⟨htu, hkept'⟩
  exact ⟨fun e he => htu e (hst e he), hkept.trans hkept' htu⟩

end Run

end Tracebed
