import Tracebed.StateMachine
import Tracebed.Lib.Runs

/-!
# Histories of a Memory

A memory's history is a list of `apply` calls that starts from `None`: a call that raises
leaves the status as it was, a call that returns sets it. `History` keeps the current
status and the steps that succeeded. Distilled content outside quarantine left it by a
corroborated step (`exit_corroborated`), and agent-proposed content is only ever quarantined,
archived or tombstoned (`proposal_confined`).
-/

open Py List

namespace Tracebed

/-- One call of `apply` on a memory whose current status is known to the store. -/
structure ApplyCall where
  target : Status
  evidence : TransitionEvidence
  limits : TransitionLimits

/-- A call that did not raise: the status it left, the call, the status it returned. -/
structure AppliedStep where
  source : Option Status
  call : ApplyCall
  result : Status

/-- The current status of a memory and the steps that led to it, oldest first. -/
structure History where
  status : Option Status
  steps : List AppliedStep

/-- One call on the memory: an exception changes nothing. -/
def History.step (h : History) (c : ApplyCall) : History :=
  match apply h.status c.target c.evidence c.limits with
  | .ok t => ⟨some t, h.steps ++ [⟨h.status, c, t⟩]⟩
  | .error _ => h

/-- The history of a memory after a list of calls from its creation on. -/
def history (calls : List ApplyCall) : History := Runs.exec History.step ⟨none, []⟩ calls

theorem History.step_cases (h : History) (c : ApplyCall) :
    h.step c = h ∨ (Permitted c.evidence c.limits h.status c.target ∧
      h.step c = ⟨some c.target, h.steps ++ [⟨h.status, c, c.target⟩]⟩) := by
  unfold History.step
  split
  next t ht =>
    obtain ⟨rfl, hperm⟩ := apply_eq_ok_iff.mp ht
    exact .inr ⟨hperm, rfl⟩
  next => exact .inl rfl

/-! ### Distilled content -/

/-- The evidence carries enough pairwise independent confirmations to leave quarantine. -/
def Corroborated (c : ApplyCall) : Prop :=
  1 ≤ requiredConfirmations c.evidence c.limits ∧
    ∃ found : List ShadowConfirmation, (∀ x ∈ found, x ∈ c.evidence.confirmations) ∧
      found.Pairwise Independent ∧
      requiredConfirmations c.evidence c.limits ≤ found.length

/-- The last step that left quarantine led to candidate and was corroborated. -/
def LastExitCorroborated (steps : List AppliedStep) : Prop :=
  ∃ before exit after, steps = before ++ exit :: after ∧
    exit.source = some .quarantined ∧ exit.result = .candidate ∧ Corroborated exit.call ∧
    ∀ s ∈ after, s.source ≠ some .quarantined

variable {c : ApplyCall}

theorem corroborated_of_permitted
    (h : Permitted c.evidence c.limits (some .quarantined) .candidate) : Corroborated c := by
  cases h with
  | corroborate hclass hcount =>
    obtain ⟨found, hmem, hpair, hlen⟩ := independentConfirmations_sound
      c.evidence.confirmations (some (requiredConfirmations c.evidence c.limits))
    refine ⟨one_le_requiredConfirmations _ _, found,
      fun x hx => mem_of_mem_take (hmem x hx), hpair, ?_⟩
    rw [hlen]
    exact hcount

/-- A step that starts outside quarantine keeps the property. -/
theorem LastExitCorroborated.extend {steps : List AppliedStep} {s : AppliedStep}
    (h : LastExitCorroborated steps) (hs : s.source ≠ some .quarantined) :
    LastExitCorroborated (steps ++ [s]) := by
  obtain ⟨before, exit, after, rfl, hsrc, hres, hcorr, hafter⟩ := h
  refine ⟨before, exit, after ++ [s], by simp, hsrc, hres, hcorr, ?_⟩
  exact forall_mem_append.mpr ⟨hafter, forall_mem_singleton.mpr hs⟩

/-- The statuses that content reaches only through candidacy. -/
def Status.PastQuarantine : Status → Prop
  | .candidate | .validated | .stale | .superseded | .retired => True
  | _ => False

/-- What holds of the history of distilled content: past quarantine, the last exit was
corroborated. -/
def DistilledInvariant (h : History) : Prop :=
  ∀ s, h.status = some s → s.PastQuarantine → LastExitCorroborated h.steps

variable {h : History}

theorem DistilledInvariant.step (hclass : c.evidence.provenanceClass = .distiller)
    (hrestore : c.evidence.operatorRestore = false) (hi : DistilledInvariant h) :
    DistilledInvariant (h.step c) := by
  rcases h.step_cases c with heq | ⟨hperm, heq⟩
  · rw [heq]
    exact hi
  · rw [heq]
    unfold DistilledInvariant at hi
    generalize h.status = source at hperm hi ⊢
    generalize htgt : c.target = target at hperm ⊢
    -- which edges are open to distilled content, and where they lead
    cases hperm with
    | createCandidate _ hparser => rw [hclass] at hparser; cases hparser
    | createPinned hop => rw [hclass] at hop; cases hop
    | restore _ hop => rw [hrestore] at hop; cases hop
    | corroborate hp hc =>
      intro _ _ _
      exact ⟨_, _, [], rfl, rfl, rfl, corroborated_of_permitted (.corroborate hp hc), by simp⟩
    | promote | supersede | goStale | retire | reverify | secondStrike =>
      intro _ _ _
      exact (hi _ rfl trivial).extend (by simp)
    | createQuarantined | expireQuarantined | requarantine | expireCandidate | decay
    | tombstone =>
      intro s hs hp
      cases hs
      exact hp.elim

/-- **Distilled content leaves quarantine only by corroboration.** In every history of
distilled content without an operator restore, whenever the status is candidate,
validated, stale, superseded or retired, the last visit to quarantine was left for
candidate on evidence with the required number of pairwise independent confirmations.
The trust tier plays no part: the creation edge to candidate asks for parser
provenance. -/
theorem exit_corroborated (calls : List ApplyCall) {s : Status}
    (hclass : ∀ c ∈ calls, c.evidence.provenanceClass = .distiller)
    (hrestore : ∀ c ∈ calls, c.evidence.operatorRestore = false)
    (hstatus : (history calls).status = some s) (hpast : s.PastQuarantine) :
    LastExitCorroborated (history calls).steps := by
  have hinv : DistilledInvariant (history calls) := by
    refine Runs.exec_invariant nofun fun h c hc hi => ?_
    exact hi.step (hclass c hc) (hrestore c hc)
  exact hinv s hstatus hpast

/-- The limits a deployment has when no project overrides a threshold. -/
def defaultLimits : TransitionLimits where
  quarantineTtlDays := 30
  candidateTtlDays := 45
  promoteMinOutcomes := 2
  failureLessonOutcomes := 1
  promotionMinDistinctPrincipals := 2
  retireQThreshold := .fin (1 / 4)
  retireMinScoredUses := 4
  retireMinDistinctPrincipals := 3
  archiveFloor := PyFloat.ofDecimalRat false (3 / 20)
  accepted := by decide +kernel

/-- A confirmation whose run and principal are numbered `n` and whose signature repeats
one byte. -/
def sampleConfirmation (n : ℕ) (b : UInt8) : ShadowConfirmation :=
  ⟨⟨⟨BitVec.ofNat 128 n⟩⟩, ⟨⟨BitVec.ofNat 128 n⟩⟩, ⟨replicate 40 b, length_replicate⟩⟩

/-- Evidence for scanned content with two independent confirmations. -/
def sampleEvidence (cls : ProvenanceClass) : TransitionEvidence :=
  { now := 30 * 86400000000
    provenanceClass := cls
    trustTier := .B
    memType := .semantic
    scanPassed := true
    provenanceComplete := true
    statusChangedAt := some 0
    confirmations := [sampleConfirmation 1 0, sampleConfirmation 2 255] }

/-- Content that is quarantined and then corroborated by two independent runs. -/
theorem exit_corroborated_sample : LastExitCorroborated (history
      [⟨.quarantined, sampleEvidence .distiller, defaultLimits⟩,
        ⟨.candidate, sampleEvidence .distiller, defaultLimits⟩]).steps :=
  exit_corroborated _ (by simp [sampleEvidence]) (by simp [sampleEvidence])
    (show _ = some Status.candidate by decide +kernel) trivial

/-! ### Proposals -/

/-- `RETRIEVABLE_STATUSES`. -/
def retrievableStatuses : List Status := [.validated, .candidate, .pinned]

/-- The statuses agent-proposed content may have. -/
def Status.Confined (s : Status) : Prop :=
  s = .quarantined ∨ s = .archived ∨ s = .tombstoned

/-- The current status and every status returned so far are confined. -/
def ProposalInvariant (h : History) : Prop :=
  (∀ s, h.status = some s → s.Confined) ∧ ∀ x ∈ h.steps, x.result.Confined

/-- From a confined status, or at creation, proposed content only moves to a confined
status. -/
theorem Permitted.confined {e : TransitionEvidence} {l : TransitionLimits}
    {current : Option Status} {target : Status} (hclass : e.provenanceClass = .proposal)
    (hcurrent : ∀ s, current = some s → s.Confined) (h : Permitted e l current target) :
    target.Confined := by
  cases h with
  | createCandidate _ hp | createPinned hp =>
    rw [hclass] at hp
    cases hp
  | corroborate hp | restore hp => exact absurd hclass hp
  | createQuarantined | requarantine => exact .inl rfl
  | expireQuarantined | expireCandidate | decay => exact .inr (.inl rfl)
  | tombstone => exact .inr (.inr rfl)
  | promote | supersede | goStale | retire | reverify | secondStrike =>
    -- these edges start at candidate, validated or stale, where no proposal is
    rcases hcurrent _ rfl with hs | hs | hs <;> cases hs

theorem ProposalInvariant.step (hclass : c.evidence.provenanceClass = .proposal)
    (hi : ProposalInvariant h) :
    ProposalInvariant (h.step c) := by
  rcases h.step_cases c with heq | ⟨hperm, heq⟩
  · rw [heq]
    exact hi
  · rw [heq]
    have hconf := hperm.confined hclass hi.1
    refine ⟨?_, ?_⟩
    · rintro s ⟨⟩
      exact hconf
    · exact forall_mem_append.mpr ⟨hi.2, forall_mem_singleton.mpr hconf⟩

/-- **Proposed content stays confined.** In every history of agent-proposed content, every
status a call returns is quarantined, archived or tombstoned, and so never one that
retrieval serves. -/
theorem proposal_confined (calls : List ApplyCall)
    (hclass : ∀ c ∈ calls, c.evidence.provenanceClass = .proposal) :
    ∀ x ∈ (history calls).steps,
      (x.result = .quarantined ∨ x.result = .archived ∨ x.result = .tombstoned) ∧
        x.result ∉ retrievableStatuses := by
  have hinv : ProposalInvariant (history calls) := by
    refine Runs.exec_invariant ⟨nofun, fun _ h => (nomatch h)⟩ ?_
    exact fun h c hc hi => hi.step (hclass c hc)
  intro x hx
  have hconf : x.result.Confined := hinv.2 x hx
  rcases hconf with h | h | h <;> rw [h] <;> decide

/-- A proposal that is quarantined and expires after thirty days; the corroboration and
the restore attempted in between and afterwards are refused. -/
def sampleProposal : List ApplyCall :=
  [⟨.quarantined, sampleEvidence .proposal, defaultLimits⟩,
    ⟨.candidate, sampleEvidence .proposal, defaultLimits⟩,
    ⟨.archived, sampleEvidence .proposal, defaultLimits⟩,
    ⟨.validated, { sampleEvidence .proposal with operatorRestore := true }, defaultLimits⟩]

theorem proposal_confined_sample :
    (∀ c ∈ sampleProposal, c.evidence.provenanceClass = .proposal) ∧
      ∀ x ∈ (history sampleProposal).steps,
        (x.result = .quarantined ∨ x.result = .archived ∨ x.result = .tombstoned) ∧
          x.result ∉ retrievableStatuses := by
  have hclass : ∀ c ∈ sampleProposal, c.evidence.provenanceClass = .proposal := by
    simp [sampleProposal, sampleEvidence]
  exact ⟨hclass, proposal_confined _ hclass⟩

end Tracebed
