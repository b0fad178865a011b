import Tracebed.Abstention
import Tracebed.Assembler
import Tracebed.Lib.Sha256

/-!
# Assembling a Candidate Set

`hotpath/assembly.py`: the fused candidates of a query become a decided outcome, a list of
slots and the injection rows that say which memories were placed. Each candidate is checked
(retrievable, visible to the run, not switched off), put through the abstention gates and scored,
and the injectable ones are packed. Each of the three store calls may answer anything or raise.

The result is `run_placement`: **placed memories and injection rows agree, and every placed memory
passed every check.**
-/

open Py Fallible Packing List

namespace Tracebed

/-- `ScopeType`: who owns a memory. -/
inductive ScopeType
  | agentType | workflowTemplate | user | projectShared
  deriving DecidableEq

/-- `MemType.value`. -/
def MemType.text : MemType → PyStr
  | episodic => str "episodic"
  | semantic => str "semantic"
  | lesson => str "lesson"
  | preference => str "preference"

/-- `CandidateRow`: the columns of a memory the assembly reads. `createdAt` is the timestamp
of `created_at`, in seconds. -/
structure CandidateRow where
  memoryId : MemoryId
  memType : MemType
  trustTier : TrustTier
  status : Status
  content : PyStr
  tokenCount : ℤ
  qValue : PyFloat
  confidence : PyFloat
  createdAt : PyFloat
  scopeType : ScopeType
  scopeId : Option UUID

/-! ### The checks on a row -/

/-- `RunVisibility`: the references a run can match a scoped memory against. -/
structure RunVisibility where
  agentTypeId : AgentTypeId
  workflowTemplateId : Option UUID
  userScopeId : Option UUID

/-- `scope_visible`. -/
def scopeVisible (scopeType : ScopeType) (scopeId : Option UUID) (v : RunVisibility) : Bool :=
  match scopeType with
  | .projectShared => true
  | .agentType => scopeId.any fun id => id = v.agentTypeId.value
  | .workflowTemplate => scopeId.any fun id => v.workflowTemplateId = some id
  | .user => scopeId.any fun id => v.userScopeId = some id

/-- What a dynamic arm may return: a validated memory, or a candidate of tier A. -/
def dynamicallyRetrievable (status : Status) (tier : TrustTier) : Bool :=
  match status with
  | .validated => true
  | .candidate => tier = .A
  | .quarantined | .superseded | .stale | .retired | .archived | .pinned | .tombstoned => false

/-- `assert_dynamically_retrievable`. -/
def assertDynamicallyRetrievable (row : CandidateRow) : Except HotpathError Unit :=
  ensure (dynamicallyRetrievable row.status row.trustTier)
    (HotpathError.tracebedError "retrievability predicate breached")

/-- `killswitched`. -/
def killswitched (memType : MemType) (cfg : EffectiveConfig) : Bool :=
  (cfg.killswitchOverlay.lookup memType.text).getD false

/-- `slot_for`. -/
def slotFor (row : CandidateRow) : Slot :=
  if row.status = .candidate then .candidateNote
  else match row.memType with
    | .semantic => .fact
    | .episodic => .exemplar
    | .lesson => .pitfall
    | .preference => .staticPrefix

/-! ### What the assembly calls -/

/-- The places at which the assembly reads the monotonic clock. -/
inductive AssemblyRead
  | anchor | beforeFetch | fetchCancelled | beforeCorpus | corpusCancelled
  | beforeFrequency | frequencyCancelled

/-- The store, the clock and the library functions. -/
structure AssemblyPorts where
  fetchCandidates : ProjectId → List MemoryId → Except HotpathError (List CandidateRow)
  corpusSize : ProjectId → Except HotpathError ℤ
  documentFrequency : ProjectId → List PyStr → Except HotpathError (List (PyStr × ℤ))
  monotonicMs : AssemblyRead → Except HotpathError PyFloat
  nowMs : Except HotpathError ℤ
  lower : PyStr → PyStr
  powHalf : PyFloat → PyFloat
  sha256 : Bytes → Bytes

/-- A store call under the deadline: it is not started past the deadline, and an exception
that says the time is up is reported as the assembly's. -/
def storeCall {α : Type} (d : Deadline) (before cancelled : Except HotpathError PyFloat)
    (call : Except HotpathError α) : Except HotpathError α :=
  let attempt : Except HotpathError α := do
    if ← d.totalExceeded before then
      .error (.assemblyDeadlineExceeded "retrieval deadline expired before assembly store call")
    else call
  match attempt with
  | .ok a => .ok a
  | .error (.poolDeadlineExceeded msg) => .error (.assemblyDeadlineExceeded msg)
  | .error .queryCanceled => do
      let remaining ← d.remainingMs cancelled
      if remaining.le (.fin 0) then
        .error (.assemblyDeadlineExceeded "PostgreSQL cancelled an expired retrieval query")
      else .error .queryCanceled
  | .error e => .error e

/-! ### Rarity evidence -/

/-- A character of `[0-9a-z]`. -/
def isTermChar (c : ℕ) : Bool := (48 ≤ c && c ≤ 57) || (97 ≤ c && c ≤ 122)

/-- `query_terms`: the maximal runs of term characters, each once, in order. -/
def queryTerms (lower : PyStr → PyStr) (text : PyStr) : List PyStr :=
  (((lower text).splitOnP fun c => !isTermChar c).filter fun w => !w.isEmpty).eraseDups

/-- The document frequency of a term, in percent of the corpus, at most one hundred. -/
def frequencyPct (frequencies : List (PyStr × ℤ)) (corpus : ℤ) (term : PyStr) :
    Except HotpathError PyFloat := do
  let count ← orThrow (PyFloat.ofInt ((frequencies.lookup term).getD 0)) .overflowError
  let size ← orThrow (PyFloat.ofInt corpus) .overflowError
  let pct ← orThrow (((PyFloat.fin 100).mul count).div size) .zeroDivisionError
  pure (pct.pyMin (.fin 100))

/-- The rarity evidence of one row: one percentage per query term its content shares. -/
def rarityOf (lower : PyStr → PyStr) (terms : List PyStr) (frequencies : List (PyStr × ℤ))
    (corpus : ℤ) (row : CandidateRow) : Except HotpathError (MemoryId × RarityEvidence) := do
  let contentTerms := queryTerms lower row.content
  let shared ← (terms.filter (· ∈ contentTerms)).mapM (frequencyPct frequencies corpus)
  let evidence ← RarityEvidence.make shared corpus
  pure (row.memoryId, evidence)

/-- `_rarity_lookup`. -/
def rarityLookup (X : AssemblyPorts) (project : ProjectId) (queryText : PyStr)
    (rows : List CandidateRow) (d : Deadline) :
    Except HotpathError (List (MemoryId × RarityEvidence)) := do
  let terms := queryTerms X.lower queryText
  let corpus ← storeCall d (X.monotonicMs .beforeCorpus) (X.monotonicMs .corpusCancelled)
    (X.corpusSize project)
  if corpus ≤ 0 ∨ terms = [] then
    rows.mapM fun row => do
      let evidence ← RarityEvidence.make [] corpus
      pure (row.memoryId, evidence)
  else
    let frequencies ← storeCall d (X.monotonicMs .beforeFrequency)
      (X.monotonicMs .frequencyCancelled) (X.documentFrequency project terms)
    rows.mapM (rarityOf X.lower terms frequencies corpus)

/-! ### The verdict on one candidate -/

/-- `_signals_for`. -/
def signalsFor (fused : FusedCandidate) (rarity : RarityEvidence) :
    Except HotpathError CandidateSignals :=
  CandidateSignals.make (fused.vector.map ArmSignal.rawScore)
    (fused.lexical.map ArmSignal.rawScore) rarity

/-- `_age_days`: floored at zero. -/
def ageDays (nowMs : ℤ) (row : CandidateRow) : Except HotpathError PyFloat := do
  let now ← orThrow (PyFloat.ofInt nowMs) .overflowError
  let age ← orThrow ((now.sub (row.createdAt.mul (.fin 1000))).div (.fin 86400000))
    .zeroDivisionError
  pure (PyFloat.pyMax (.fin 0) age)

/-- The calibrated score of a candidate. -/
def scoreOf (X : AssemblyPorts) (cfg : EffectiveConfig) (nowMs : ℤ) (fused : FusedCandidate)
    (row : CandidateRow) : Except HotpathError PyFloat := do
  let age ← ageDays nowMs row
  let cos := (fused.vector.map ArmSignal.rawScore).getD (.fin 0)
  let signals ← CalibratedSignals.make cos row.qValue age row.confidence
  calibratedScore X.powHalf signals cfg.score

/-- The hexadecimal digest of the content. -/
def contentKey (sha256 : Bytes → Bytes) (content : PyStr) : Except HotpathError PyStr := do
  let encoded ← orThrow (utf8Encode content) .unicodeEncodeError
  pure ((sha256 encoded).flatMap fun b => hexDigits 2 b.toNat)

/-- What becomes of a candidate: it is passed over, it abstains, or it may be placed. -/
inductive CandidateVerdict
  | passedOver
  | abstained (code : OutcomeCode) (score : PyFloat)
  | injectable (candidate : Candidate)

def CandidateVerdict.score? : CandidateVerdict → Option PyFloat
  | passedOver => none
  | abstained _ score => some score
  | injectable c => some c.score

def CandidateVerdict.abstention? : CandidateVerdict → Option OutcomeCode
  | abstained code _ => some code
  | passedOver => none
  | injectable _ => none

/-- The candidate, if it may be placed. -/
def CandidateVerdict.candidate? : CandidateVerdict → Option Candidate
  | injectable c => some c
  | passedOver => none
  | abstained _ _ => none

/-- What the loop over the candidates reads. -/
structure JudgeContext where
  cfg : EffectiveConfig
  agentTypeId : AgentTypeId
  nowMs : ℤ
  rows : List CandidateRow
  rarity : List (MemoryId × RarityEvidence)

/-- `rows.get(memory_id)`. -/
def JudgeContext.row? (J : JudgeContext) (id : MemoryId) : Option CandidateRow :=
  J.rows.find? fun row => row.memoryId = id

/-- Whether the row of a candidate may be considered by this run: its scope is visible to the
agent type and its kind is not switched off. -/
def JudgeContext.eligible (J : JudgeContext) (row : CandidateRow) : Bool :=
  scopeVisible row.scopeType row.scopeId ⟨J.agentTypeId, none, none⟩ &&
    !killswitched row.memType J.cfg

/-- The decision of the gates on a candidate. -/
def JudgeContext.decision (J : JudgeContext) (fused : FusedCandidate) :
    Except HotpathError AbstentionDecision := do
  let rarity ← orThrow (J.rarity.lookup fused.memoryId) (.other "KeyError")
  let signals ← signalsFor fused rarity
  decideAbstention signals J.cfg.abstention

/-- One round of the loop over the candidates. -/
def judge (X : AssemblyPorts) (J : JudgeContext) (fused : FusedCandidate) :
    Except HotpathError CandidateVerdict :=
  match J.row? fused.memoryId with
  | none => .ok .passedOver
  | some row => do
      assertDynamicallyRetrievable row
      if J.eligible row then
        let decision ← J.decision fused
        let score ← scoreOf X J.cfg J.nowMs fused row
        match decision.outcomeCode with
        | some code => pure (.abstained code score)
        | none =>
          let key ← contentKey X.sha256 row.content
          let candidate ← Candidate.make (slotFor row) row.memoryId row.memType row.content
            row.tokenCount score key
          pure (.injectable candidate)
      else pure .passedOver

/-! ### The whole assembly -/

/-- `_outcome_code`. -/
def outcomeCodeOf (anythingPlaced : Bool) (abstentions : List OutcomeCode) : OutcomeCode :=
  if anythingPlaced then .injected else abstentions.head?.getD .emptyResult

/-- `best_score`: the running maximum. -/
def bestScore (scores : List PyFloat) : Option PyFloat :=
  scores.foldl (fun best score => some (best.elim score fun b => b.pyMax score)) none

def Candidate.toInjection (c : Candidate) : InjectionRow :=
  ⟨c.memoryId, c.slot, c.score, c.tokens⟩

variable (cfg : EffectiveConfig)

/-- What the verdicts add up to. -/
def conclude (verdicts : List CandidateVerdict) : CandidateSetResult :=
  let injectable := verdicts.filterMap CandidateVerdict.candidate?
  let assembled := assemble injectable cfg
  let placedIds := assembled.slots.filterMap ContextSlot.memoryId
  { outcomeCode :=
      outcomeCodeOf (!assembled.slots.isEmpty) (verdicts.filterMap CandidateVerdict.abstention?)
    slots := assembled.slots
    topScore := bestScore (verdicts.filterMap CandidateVerdict.score?)
    injections :=
      (injectable.filter fun c => c.memoryId.value ∈ placedIds).map Candidate.toInjection }

/-- The result when there is nothing to place. -/
def emptyResult : CandidateSetResult := ⟨.emptyResult, [], none, []⟩

/-- `deadline or Deadline(...)`. -/
def assemblyDeadline (X : AssemblyPorts) (cfg : EffectiveConfig) :
    Option Deadline → Except HotpathError Deadline
  | some d => .ok d
  | none => do
      let anchor ← X.monotonicMs .anchor
      Deadline.make cfg.retrieval.totalBudgetMs cfg.retrieval.embedTimeoutMs anchor

/-- The dictionary of the fetched rows: one row per id, the last one listed. -/
def rowsById (fetched : List CandidateRow) : List CandidateRow :=
  keepBest (fun _ _ => true) CandidateRow.memoryId fetched

/-- `CandidateAssembly.run`. -/
def runAssembly (X : AssemblyPorts) (scope : ProjectScope) (queryText : PyStr)
    (candidates : List FusedCandidate) (cfg : EffectiveConfig) (deadline : Option Deadline) :
    Except HotpathError CandidateSetResult :=
  if candidates.isEmpty then .ok emptyResult
  else do
    let d ← assemblyDeadline X cfg deadline
    let fetched ← storeCall d (X.monotonicMs .beforeFetch) (X.monotonicMs .fetchCancelled)
      (X.fetchCandidates scope.projectId (candidates.map FusedCandidate.memoryId))
    let rows := rowsById fetched
    if rows.isEmpty then pure emptyResult
    else
      let rarity ← rarityLookup X scope.projectId queryText rows d
      let nowMs ← X.nowMs
      let verdicts ← candidates.mapM (judge X ⟨cfg, scope.agentTypeId, nowMs, rows, rarity⟩)
      pure (conclude cfg verdicts)

/-! ### Verdicts -/

variable {X : AssemblyPorts} {J : JudgeContext} {fused : FusedCandidate}

/-- The row of a candidate that the run may consider: returned, retrievable, visible to the
agent type, and of a kind that is not switched off. -/
structure Considered (J : JudgeContext) (fused : FusedCandidate) (row : CandidateRow) : Prop where
  row_eq : J.row? fused.memoryId = some row
  retrievable : dynamicallyRetrievable row.status row.trustTier = true
  visible : scopeVisible row.scopeType row.scopeId ⟨J.agentTypeId, none, none⟩ = true
  enabled : killswitched row.memType J.cfg = false

/-- The candidate passed the gates. -/
def Passes (J : JudgeContext) (fused : FusedCandidate) : Prop :=
  ∃ decision, J.decision fused = .ok decision ∧ decision.inject = true

/-- The candidate was considered and abstained with the code. -/
def Abstains (J : JudgeContext) (fused : FusedCandidate) (code : OutcomeCode) : Prop :=
  ∃ row decision, Considered J fused row ∧ J.decision fused = .ok decision ∧
    decision.outcomeCode = some code

/-- The candidate is made from the row. -/
structure MadeFrom (c : Candidate) (row : CandidateRow) : Prop where
  memoryId : c.memoryId = row.memoryId
  slot : c.slot = slotFor row
  tokens : (c.tokens : ℤ) = row.tokenCount
  text : c.text = row.content

theorem JudgeContext.memoryId_of_row {id : MemoryId} {row : CandidateRow}
    (h : J.row? id = some row) : row.memoryId = id := by
  simpa using find?_some h

theorem Candidate.make_eq_ok {slot : Slot} {id : MemoryId} {kind : MemType} {text : PyStr}
    {tokens : ℤ} {score : PyFloat} {key : PyStr} {c : Candidate}
    (h : Candidate.make slot id kind text tokens score key = .ok c) :
    c.memoryId = id ∧ c.slot = slot ∧ (c.tokens : ℤ) = tokens ∧ c.text = text := by
  unfold Candidate.make at h
  split at h
  · cases h
  · next hneg =>
    split at h
    · split at h
      · split at h
        · cases h
          exact ⟨rfl, rfl, Int.toNat_of_nonneg (by omega), rfl⟩
        · cases h
      · cases h
    · cases h

variable {v : CandidateVerdict}

/-- **The verdict on a candidate**: passed over without a considered row, abstained, or made
into an injectable candidate from its row. -/
theorem judge_spec (h : judge X J fused = .ok v) :
    (v = .passedOver ∧ ∀ row, ¬ Considered J fused row) ∨
      (∃ code score, v = .abstained code score ∧ Abstains J fused code) ∨
      ∃ c row, v = .injectable c ∧ Considered J fused row ∧ Passes J fused ∧ MadeFrom c row := by
  unfold judge at h
  cases hrow : J.row? fused.memoryId with
  | none =>
    rw [hrow] at h
    refine .inl ⟨(Except.ok.inj h).symm, fun row hc => ?_⟩
    rw [hc.row_eq] at hrow
    cases hrow
  | some row =>
    rw [hrow] at h
    obtain ⟨⟨⟩, hret, h⟩ := bind_eq_ok.mp h
    have hret : dynamicallyRetrievable row.status row.trustTier = true := ensure_eq_ok.mp hret
    split at h
    · next heligible =>
      obtain ⟨hvisible, henabled⟩ := Bool.and_eq_true_iff.mp heligible
      have hc : Considered J fused row := ⟨hrow, hret, hvisible, by simpa using henabled⟩
      obtain ⟨decision, hdecision, h⟩ := bind_eq_ok.mp h
      obtain ⟨score, -, h⟩ := bind_eq_ok.mp h
      cases hcode : decision.outcomeCode with
      | some code =>
        rw [hcode] at h
        refine .inr (.inl ⟨code, score, (Except.ok.inj h).symm, row, decision, hc, ?_⟩)
        exact ⟨hdecision, hcode⟩
      | none =>
        rw [hcode] at h
        obtain ⟨key, -, h⟩ := bind_eq_ok.mp h
        obtain ⟨c, hmake, h⟩ := bind_eq_ok.mp h
        obtain ⟨hid, hslot, htokens, htext⟩ := Candidate.make_eq_ok hmake
        refine .inr (.inr ⟨c, row, (Except.ok.inj h).symm, hc, ⟨decision, hdecision, ?_⟩,
          ⟨hid, hslot, htokens, htext⟩⟩)
        rw [AbstentionDecision.inject, hcode]
        rfl
    · next heligible =>
      refine .inl ⟨(Except.ok.inj h).symm, fun other hother => heligible ?_⟩
      obtain rfl : other = row := by
        have hsame := hother.row_eq
        rw [hrow] at hsame
        exact (Option.some.inj hsame).symm
      rw [JudgeContext.eligible, hother.visible, hother.enabled]
      rfl

/-- The gates give an abstention code, never `injected`. -/
theorem Abstains.code_ne_injected {code : OutcomeCode} (h : Abstains J fused code) :
    code ≠ .injected := by
  obtain ⟨row, decision, -, hdecision, hcode⟩ := h
  obtain ⟨rarity, -, hdecision⟩ := bind_eq_ok.mp hdecision
  obtain ⟨signals, -, hdecision⟩ := bind_eq_ok.mp hdecision
  obtain ⟨norm, -, hdecision⟩ := bind_eq_ok.mp hdecision
  cases hdecision
  rintro rfl
  simp only [failedGate] at hcode
  split at hcode
  · cases hcode
  · split at hcode
    · cases hcode
    · split at hcode
      · cases hcode
      · cases hcode

theorem abstention_eq (h : judge X J fused = .ok v) (code : OutcomeCode) :
    v.abstention? = some code ↔ Abstains J fused code := by
  obtain ⟨rfl, hnone⟩ | ⟨code', score, rfl, habstains⟩ | ⟨c, row, rfl, hc, hpass, -⟩ := judge_spec h
  · constructor
    · intro h
      cases h
    · rintro ⟨row, _, hc, _⟩
      exact absurd hc (hnone row)
  · constructor
    · intro h
      cases h
      exact habstains
    · rintro ⟨_, decision, _, hdecision, hcode⟩
      obtain ⟨_, decision', _, hdecision', hcode'⟩ := habstains
      rw [hdecision] at hdecision'
      cases hdecision'
      rw [hcode] at hcode'
      exact hcode'.symm
  · constructor
    · intro h
      cases h
    · rintro ⟨_, decision, _, hdecision, hcode⟩
      obtain ⟨decision', hdecision', hinject⟩ := hpass
      rw [hdecision] at hdecision'
      cases hdecision'
      rw [AbstentionDecision.inject, hcode] at hinject
      cases hinject

/-! ### All verdicts together -/

/-- The code of an assembly that placed nothing: that of the first candidate that abstained,
or `empty_result` when none did. -/
def FirstAbstention (J : JudgeContext) (candidates : List FusedCandidate) (code : OutcomeCode) :
    Prop :=
  (∃ before fused after, candidates = before ++ fused :: after ∧ Abstains J fused code ∧
    ∀ f ∈ before, ∀ c, ¬ Abstains J f c) ∨
  code = .emptyResult ∧ ∀ f ∈ candidates, ∀ c, ¬ Abstains J f c

variable {candidates : List FusedCandidate} {verdicts : List CandidateVerdict}

/-- The injectable candidates stand in fused order, each made from the considered row of a
candidate that passed. -/
theorem injectable_spec (h : List.Forall₂ (fun f v => judge X J f = .ok v) candidates verdicts) :
    ((verdicts.filterMap CandidateVerdict.candidate?).map Candidate.memoryId).Sublist
        (candidates.map FusedCandidate.memoryId) ∧
      ∀ c ∈ verdicts.filterMap CandidateVerdict.candidate?, ∃ f ∈ candidates, ∃ row,
        Considered J f row ∧ Passes J f ∧ MadeFrom c row := by
  induction h with
  | nil => exact ⟨List.Sublist.refl _, nofun⟩
  | @cons f v candidates verdicts hjudge _ ih =>
    obtain ⟨hsub, hmade⟩ := ih
    have hrest : ∀ c ∈ verdicts.filterMap CandidateVerdict.candidate?,
        ∃ f' ∈ f :: candidates, ∃ row, Considered J f' row ∧ Passes J f' ∧ MadeFrom c row := by
      intro c hc
      obtain ⟨f', hf', hrow⟩ := hmade c hc
      exact ⟨f', mem_cons_of_mem _ hf', hrow⟩
    obtain ⟨rfl, -⟩ | ⟨code, score, rfl, -⟩ | ⟨c, row, rfl, hc, hpass, hfrom⟩ := judge_spec hjudge
    · exact ⟨hsub.cons _, hrest⟩
    · exact ⟨hsub.cons _, hrest⟩
    · have hid : c.memoryId = f.memoryId :=
        hfrom.memoryId.trans (JudgeContext.memoryId_of_row hc.row_eq)
      have hhead : (CandidateVerdict.injectable c).candidate? = some c := rfl
      rw [filterMap_cons_some hhead]
      constructor
      · rw [map_cons, hid]
        exact hsub.cons_cons _
      · intro c' hc'
        obtain rfl | hc' := mem_cons.mp hc'
        · exact ⟨f, mem_cons_self, row, hc, hpass, hfrom⟩
        · exact hrest c' hc'

/-- The first abstention code among the verdicts is that of the first candidate that
abstained. -/
theorem firstAbstention_spec
    (h : List.Forall₂ (fun f v => judge X J f = .ok v) candidates verdicts) :
    FirstAbstention J candidates
      ((verdicts.filterMap CandidateVerdict.abstention?).head?.getD .emptyResult) := by
  induction h with
  | nil => exact .inr ⟨rfl, fun f hf => (by cases hf)⟩
  | @cons f v candidates verdicts hjudge _ ih =>
    cases hv : v.abstention? with
    | some code =>
      rw [filterMap_cons_some hv]
      exact .inl ⟨[], f, candidates, rfl, (abstention_eq hjudge code).mp hv, nofun⟩
    | none =>
      have hnot : ∀ c, ¬ Abstains J f c := by
        intro c hc
        rw [(abstention_eq hjudge c).mpr hc] at hv
        cases hv
      rw [filterMap_cons_none hv]
      obtain ⟨before, g, after, rfl, hg, hbefore⟩ | ⟨hcode, hnone⟩ := ih
      · exact .inl ⟨f :: before, g, after, rfl, hg, forall_mem_cons.mpr ⟨hnot, hbefore⟩⟩
      · exact .inr ⟨hcode, forall_mem_cons.mpr ⟨hnot, hnone⟩⟩

/-- What a slot and an injection row both record: the memory, the slot and the tokens. -/
def ContextSlot.entry (s : ContextSlot) : Option UUID × Slot × ℕ := (s.memoryId, s.slot, s.tokens)

def InjectionRow.entry (i : InjectionRow) : Option UUID × Slot × ℕ :=
  (some i.memoryId.value, i.slot, i.tokens)

/-- **Placement**: slots and injection rows correspond one to one, no memory is placed twice,
every placed memory passed every check, and the outcome code says what happened. -/
structure Placement (J : JudgeContext) (candidates : List FusedCandidate)
    (r : CandidateSetResult) : Prop where
  agree : (r.injections.map InjectionRow.entry).Perm (r.slots.map ContextSlot.entry)
  distinct : (r.slots.map ContextSlot.memoryId).Nodup
  placed : ∀ s ∈ r.slots, ∃ fused ∈ candidates, ∃ row ∈ J.rows,
    fused.memoryId = row.memoryId ∧ Considered J fused row ∧ Passes J fused ∧
    s = ⟨slotFor row, some row.memoryId.value, row.tokenCount.toNat, row.content⟩
  injected_iff : r.outcomeCode = .injected ↔ r.slots ≠ []
  otherwise : r.slots = [] → FirstAbstention J candidates r.outcomeCode

/-- Among candidates of distinct memories, those whose memory was placed are the placed
ones. -/
theorem filter_placed_perm {injectable : List Candidate} (cfg : EffectiveConfig)
    (hdistinct : (injectable.map Candidate.memoryId).Nodup) :
    (injectable.filter fun c =>
        c.memoryId.value ∈ (selected injectable cfg).1.map fun p => p.memoryId.value).Perm
      (selected injectable cfg).1 := by
  have hnodup : (selected injectable cfg).1.Nodup := (selected_memoryId_nodup injectable cfg).of_map
  rw [perm_ext_iff_of_nodup (hdistinct.of_map.filter _) hnodup]
  intro c
  simp only [mem_filter, mem_map, decide_eq_true_eq]
  constructor
  · rintro ⟨hc, p, hp, hid⟩
    have hsame : p.memoryId = c.memoryId := congrArg MemoryId.mk hid
    rwa [← inj_on_of_nodup_map hdistinct (mem_of_selected hp) hc hsame]
  · intro hc
    exact ⟨mem_of_selected hc, c, hc, rfl⟩

/-- The candidates that are placed when the verdicts are these. -/
def placedOf (verdicts : List CandidateVerdict) : List Candidate :=
  (selected (verdicts.filterMap CandidateVerdict.candidate?) cfg).1

theorem slots_conclude (verdicts : List CandidateVerdict) :
    (conclude cfg verdicts).slots = (placedOf cfg verdicts).map Candidate.toSlot := rfl

theorem injections_conclude
    (hdistinct : ((verdicts.filterMap CandidateVerdict.candidate?).map Candidate.memoryId).Nodup) :
    (conclude cfg verdicts).injections.Perm
      ((placedOf cfg verdicts).map Candidate.toInjection) := by
  have hids : ((placedOf cfg verdicts).map Candidate.toSlot).filterMap ContextSlot.memoryId =
      (placedOf cfg verdicts).map fun p => p.memoryId.value := by
    rw [filterMap_map, ← filterMap_eq_map]
    rfl
  have hperm := filter_placed_perm cfg hdistinct
  rw [← placedOf, ← hids] at hperm
  exact hperm.map Candidate.toInjection

/-- The outcome code is `injected` exactly when something was placed, and otherwise that of
the first abstention. -/
theorem outcomeCode_conclude
    (h : List.Forall₂ (fun f v => judge X J f = .ok v) candidates verdicts) :
    ((conclude cfg verdicts).outcomeCode = .injected ↔ (conclude cfg verdicts).slots ≠ []) ∧
      ((conclude cfg verdicts).slots = [] →
        FirstAbstention J candidates (conclude cfg verdicts).outcomeCode) := by
  have hcode : (conclude cfg verdicts).outcomeCode =
      outcomeCodeOf (!(conclude cfg verdicts).slots.isEmpty)
        (verdicts.filterMap CandidateVerdict.abstention?) := rfl
  have hfirst := firstAbstention_spec h
  rw [hcode]
  cases (conclude cfg verdicts).slots with
  | nil =>
    refine ⟨⟨fun hinjected => ?_, fun hne => absurd rfl hne⟩, fun _ => hfirst⟩
    have hinjected : (verdicts.filterMap CandidateVerdict.abstention?).head?.getD .emptyResult =
        OutcomeCode.injected := hinjected
    rw [hinjected] at hfirst
    obtain ⟨_, f, _, _, hf, _⟩ | ⟨hempty, _⟩ := hfirst
    · exact absurd rfl hf.code_ne_injected
    · cases hempty
  | cons s rest =>
    exact ⟨⟨fun _ => cons_ne_nil _ _, fun _ => rfl⟩, nofun⟩

/-- **What the verdicts add up to.** -/
theorem conclude_placement (hdistinct : (candidates.map FusedCandidate.memoryId).Nodup)
    (h : List.Forall₂ (fun f v => judge X J f = .ok v) candidates verdicts) :
    Placement J candidates (conclude cfg verdicts) := by
  obtain ⟨hsub, hmade⟩ := injectable_spec h
  obtain ⟨hinjected, hotherwise⟩ := outcomeCode_conclude cfg h
  refine ⟨?_, ?_, ?_, hinjected, hotherwise⟩
  · have hperm := (injections_conclude cfg (hsub.nodup hdistinct)).map InjectionRow.entry
    rw [map_map] at hperm
    rw [slots_conclude, map_map]
    exact hperm
  · have hvalue : Function.Injective fun id : MemoryId => some id.value :=
      fun a b hab => congrArg MemoryId.mk (Option.some.inj hab)
    have hids := selected_memoryId_nodup (verdicts.filterMap CandidateVerdict.candidate?) cfg
    have hnodup := hids.map hvalue
    rw [map_map] at hnodup
    rw [slots_conclude, map_map]
    exact hnodup
  · rw [slots_conclude]
    intro s hs
    obtain ⟨c, hc, rfl⟩ := mem_map.mp hs
    obtain ⟨f, hf, row, hrow, hpass, hfrom⟩ := hmade c (mem_of_selected hc)
    refine ⟨f, hf, row, mem_of_find?_eq_some hrow.row_eq, ?_, hrow, hpass, ?_⟩
    · exact (JudgeContext.memoryId_of_row hrow.row_eq).symm
    · rw [Candidate.toSlot, hfrom.slot, hfrom.memoryId, hfrom.text, ← hfrom.tokens]
      rfl

/-! ### The whole run -/

theorem storeCall_eq_ok {α : Type} {d : Deadline} {before cancelled : Except HotpathError PyFloat}
    {call : Except HotpathError α} {a : α} (h : storeCall d before cancelled call = .ok a) :
    call = .ok a := by
  simp only [storeCall] at h
  split at h
  · next a' hattempt =>
    cases h
    obtain ⟨late, -, hattempt⟩ := bind_eq_ok.mp hattempt
    cases late with
    | true => cases hattempt
    | false => exact hattempt
  · cases h
  · obtain ⟨remaining, -, h⟩ := bind_eq_ok.mp h
    split at h
    · cases h
    · cases h
  · cases h

/-- What a run learned from the store: the fetched rows, one per id, and for them the rarity
evidence. Without candidates nothing is fetched, and without rows no evidence is. -/
structure Gathered (X : AssemblyPorts) (scope : ProjectScope) (queryText : PyStr)
    (candidates : List FusedCandidate) (cfg : EffectiveConfig) (fetched : List CandidateRow)
    (J : JudgeContext) : Prop where
  config : J.cfg = cfg
  agent : J.agentTypeId = scope.agentTypeId
  rows : J.rows = rowsById fetched
  store : candidates = [] ∧ fetched = [] ∨
    X.fetchCandidates scope.projectId (candidates.map FusedCandidate.memoryId) = .ok fetched
  evidence : J.rows = [] ∨
    X.nowMs = .ok J.nowMs ∧ ∃ d, rarityLookup X scope.projectId queryText J.rows d = .ok J.rarity

theorem emptyResult_placement (hrows : J.rows = []) : Placement J candidates emptyResult := by
  have hnone : ∀ f code, ¬ Abstains J f code := by
    rintro f code ⟨row, _, hc, _⟩
    have hrow := hc.row_eq
    rw [JudgeContext.row?, hrows] at hrow
    cases hrow
  refine ⟨List.Perm.refl _, nodup_nil, nofun, ?_, fun _ => ?_⟩
  · exact ⟨nofun, fun h => absurd rfl h⟩
  · exact .inr ⟨rfl, fun f _ code => hnone f code⟩

/-- **Placement is accounted for.** Whenever the assembly of candidates with distinct ids
returns, the slots and the injection rows correspond one to one with the same memories,
slots and tokens; no memory is placed twice; every placed memory is a returned row that is
retrievable, visible to the agent type and not switched off, of a candidate that passed the
gates; and the outcome code is `injected` exactly when something was placed, else that of the
first abstention in fused order, else `empty_result`. -/
theorem run_placement {scope : ProjectScope} {queryText : PyStr} {cfg : EffectiveConfig}
    {deadline : Option Deadline} {r : CandidateSetResult}
    (hdistinct : (candidates.map FusedCandidate.memoryId).Nodup)
    (h : runAssembly X scope queryText candidates cfg deadline = .ok r) :
    ∃ fetched J, Gathered X scope queryText candidates cfg fetched J ∧
      (∀ row ∈ J.rows, row ∈ fetched) ∧ Placement J candidates r := by
  unfold runAssembly at h
  split at h
  · next hempty =>
    cases h
    obtain rfl : candidates = [] := isEmpty_iff.mp hempty
    refine ⟨[], ⟨cfg, scope.agentTypeId, 0, [], []⟩, ⟨rfl, rfl, rfl, .inl ⟨rfl, rfl⟩, .inl rfl⟩,
      fun row hrow => hrow, emptyResult_placement rfl⟩
  · obtain ⟨d, -, h⟩ := bind_eq_ok.mp h
    obtain ⟨fetched, hfetched, h⟩ := bind_eq_ok.mp h
    have hstore := storeCall_eq_ok hfetched
    refine ⟨fetched, ?_⟩
    dsimp only at h
    split at h
    · next hempty =>
      cases h
      have hrows : rowsById fetched = [] := isEmpty_iff.mp hempty
      refine ⟨⟨cfg, scope.agentTypeId, 0, rowsById fetched, []⟩,
        ⟨rfl, rfl, rfl, .inr hstore, .inl hrows⟩, fun row hrow => keepBest_subset hrow,
        emptyResult_placement hrows⟩
    · obtain ⟨rarity, hrarity, h⟩ := bind_eq_ok.mp h
      obtain ⟨nowMs, hnow, h⟩ := bind_eq_ok.mp h
      obtain ⟨verdicts, hverdicts, h⟩ := bind_eq_ok.mp h
      cases h
      refine ⟨⟨cfg, scope.agentTypeId, nowMs, rowsById fetched, rarity⟩,
        ⟨rfl, rfl, rfl, .inr hstore, .inr ⟨hnow, d, hrarity⟩⟩,
        fun row hrow => keepBest_subset hrow, ?_⟩
      exact conclude_placement cfg hdistinct (mapM_eq_ok.mp hverdicts)

/-! ### A run that places two facts -/

/-- A validated fact of the whole project, written at second zero. -/
def stagingFact (id : ℕ) (content : String) : CandidateRow where
  memoryId := ⟨⟨id⟩⟩
  memType := .semantic
  trustTier := .B
  status := .validated
  content := str content
  tokenCount := 3
  qValue := .fin (1 / 2)
  confidence := .fin 1
  createdAt := .fin 0
  scopeType := .projectShared
  scopeId := none

/-- A store of two hundred documents that returns three facts; every term occurs once. -/
def stagingPorts : AssemblyPorts where
  fetchCandidates := fun _ _ =>
    .ok [stagingFact 7 "staging key", stagingFact 8 "staging key owner", stagingFact 9 "lunch menu"]
  corpusSize := fun _ => .ok 200
  documentFrequency := fun _ terms => .ok (terms.map fun t => (t, 1))
  monotonicMs := fun _ => .ok (.fin 5)
  nowMs := .ok 0
  lower := id
  powHalf := fun _ => .fin 1
  sha256 := Sha256.sha256

/-- A fact as the vector arm found it. -/
def stagingCandidate (id rank : ℕ) (cos : ℚ) (h : 1 ≤ rank) : FusedCandidate :=
  ⟨⟨⟨id⟩⟩, .B, .validated, rank, none, some ⟨.fin cos, rank, by omega⟩, by omega, .inr rfl⟩

/-- Two facts about staging, and one that has nothing to do with the query. -/
def stagingCandidates : List FusedCandidate :=
  [stagingCandidate 7 1 (3 / 4) (by omega), stagingCandidate 8 2 (3 / 4) (by omega),
    stagingCandidate 9 3 (1 / 10) (by omega)]

/-- The query of the sample run. -/
def stagingQuery : PyStr := str "which staging key"

/-- The scope of the sample run. -/
def stagingScope : ProjectScope := ⟨⟨⟨2⟩⟩, ⟨⟨3⟩⟩, ⟨⟨4⟩⟩⟩

/-- The sample run returns, places the two facts, and is accounted for; the third one abstains. -/
theorem run_placement_staging :
    ∃ r, runAssembly stagingPorts stagingScope stagingQuery stagingCandidates defaultConfig none =
        .ok r ∧ r.slots.map ContextSlot.memoryId = [some ⟨7⟩, some ⟨8⟩] ∧
      ∃ fetched J,
        Gathered stagingPorts stagingScope stagingQuery stagingCandidates defaultConfig fetched J ∧
        (∀ row ∈ J.rows, row ∈ fetched) ∧ Placement J stagingCandidates r := by
  have hplaced : (runAssembly stagingPorts stagingScope stagingQuery stagingCandidates
      defaultConfig none).toOption.map (fun r => r.slots.map ContextSlot.memoryId) =
        some [some ⟨7⟩, some ⟨8⟩] := by decide +kernel
  obtain ⟨r, hr, hids⟩ := Option.map_eq_some_iff.mp hplaced
  have hr := toOption_eq_some.mp hr
  exact ⟨r, hr, hids, run_placement (by decide) hr⟩

end Tracebed
