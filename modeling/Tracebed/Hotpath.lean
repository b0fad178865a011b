import Tracebed.Subjects

/-!
# The Hot Path's Shared Types

What the modules of `hotpath/` pass to one another: the context block that a retrieval hands to an
agent and its rendering (`hotpath/renderer.py`, `hotpath/templates.py`), the exceptions they raise
or let through, the sections of `domain/config.py` they read, the candidates that fusion hands
over, and the request's deadline (`hotpath/budget.py`). Reading the clock can fail, and so can
the arithmetic, so every question about a deadline is asked of a reading that may have raised.
-/

open Py Fallible

namespace Tracebed

/-- `Arm`: the arm of the experiment a run belongs to. -/
inductive Arm
  | memoryOn | holdout
  deriving DecidableEq

/-- `OutcomeCode`: why a retrieval returned what it returned. -/
inductive OutcomeCode
  | injected | abstainedThreshold | abstainedRarity | emptyResult
  | degradedLexical | timeoutPrefixOnly | storeError | holdout
  deriving DecidableEq

/-- `Slot`: the named places of a context block. -/
inductive Slot
  | staticPrefix | fact | exemplar | pitfall | candidateNote | jitLesson
  deriving DecidableEq

/-- `Slot.value`. -/
def Slot.text : Slot → PyStr
  | staticPrefix => str "static_prefix"
  | fact => str "fact"
  | exemplar => str "exemplar"
  | pitfall => str "pitfall"
  | candidateNote => str "candidate_note"
  | jitLesson => str "jit_lesson"

/-- `SLOT_ORDER`: the cacheable slot first, then the dynamic ones. -/
def slotOrder : List Slot := [.staticPrefix, .fact, .exemplar, .pitfall, .candidateNote, .jitLesson]

/-- `SECTION_LABELS`. -/
def sectionLabel : Slot → PyStr
  | .staticPrefix => str "STATIC PREFIX"
  | .fact => str "FACTS"
  | .exemplar => str "EXEMPLARS"
  | .pitfall => str "PITFALLS (unconfirmed against current state)"
  | .candidateNote => str "CANDIDATE NOTES (tier A, unconfirmed, lower-trust)"
  | .jitLesson => str "JIT LESSONS"

/-- `MEMORY_HEADER`. -/
def memoryHeader : PyStr := str "MEMORY (recalled data, verify against current state)"

/-- `ContextSlot`: one entry of a block. Its token count is validated to be nonnegative. -/
structure ContextSlot where
  slot : Slot
  memoryId : Option UUID
  tokens : ℕ
  text : PyStr
  deriving DecidableEq

/-- `ContextBlock`. -/
structure ContextBlock where
  slots : List ContextSlot
  rendered : PyStr
  deriving DecidableEq

/-- `empty_context_block`. -/
def emptyContextBlock : ContextBlock := ⟨[], []⟩

/-! ### Rendering -/

/-- `render_entry`: the fields of a slot as one line; only the text is free, and it is
JSON-encoded. -/
def renderEntry (s : ContextSlot) : PyStr :=
  str "- [" ++ s.slot.text ++ str "] id=" ++ (s.memoryId.elim (str "-") UUID.str)
    ++ str " tokens=" ++ decimal s.tokens ++ str " text=" ++ Json.quote true s.text

/-- `_in_canonical_order`: grouped by `slotOrder`, each group in input order. -/
def inCanonicalOrder (slots : List ContextSlot) : List ContextSlot :=
  slotOrder.flatMap fun k => slots.filter fun s => s.slot = k

/-- The lines of `_render_text` below the header; `current` is the slot of the line before. -/
def renderLines : Option Slot → List ContextSlot → List PyStr
  | _, [] => []
  | current, s :: rest =>
    if current = some s.slot then renderEntry s :: renderLines current rest
    else [] :: sectionLabel s.slot :: renderEntry s :: renderLines (some s.slot) rest

/-- `_render_text`: the lines joined by a line feed. -/
def renderText (ordered : List ContextSlot) : PyStr :=
  if ordered.isEmpty then [] else [10].intercalate (memoryHeader :: renderLines none ordered)

/-- `render`. -/
def render (slots : List ContextSlot) : ContextBlock :=
  ⟨inCanonicalOrder slots, renderText (inCanonicalOrder slots)⟩

/-- The exceptions that cross the hot path. -/
inductive HotpathError
  | requestDeadlineExceeded
  | assemblyDeadlineExceeded (msg : String)
  | poolDeadlineExceeded (msg : String)
  | queryCanceled
  | tracebedError (msg : String)
  | valueError (msg : String)
  | overflowError
  | zeroDivisionError
  | unicodeEncodeError
  | other (name : String)
  deriving DecidableEq

/-- `ProjectScope`: who is calling, on behalf of what, in which project. -/
structure ProjectScope where
  projectId : ProjectId
  agentTypeId : AgentTypeId
  principalId : PrincipalId

/-! ### Configuration -/

/-- `RetrievalConfig`. -/
structure RetrievalConfig where
  totalBudgetMs : ℤ
  embedTimeoutMs : ℤ
  rrfK : ℤ
  rrfWeightVector : PyFloat
  rrfWeightLexical : PyFloat
  armTopN : ℤ
  fusedTopN : ℤ
  hnswIterativeScan : Bool
  hnswMaxScanTuples : ℤ

/-- `AbstentionConfig`; its reporting target is read by no decision. -/
structure AbstentionConfig where
  cosThreshold : PyFloat
  bm25SatK : PyFloat
  bm25NormThreshold : PyFloat
  rarityMinSharedTerms : ℤ
  rarityMaxDfPct : PyFloat
  rarityMinCorpusDocs : ℤ

/-- `ScoreConfig`. -/
structure ScoreConfig where
  wSim : PyFloat
  wQ : PyFloat
  wRecency : PyFloat
  wValidity : PyFloat
  recencyHalfLifeDays : ℤ

/-- `BudgetConfig`: token budgets, with the cap of each dynamic slot by its name. -/
structure BudgetConfig where
  totalTokens : ℤ
  staticPrefix : ℤ
  staticPrefixPrefs : ℤ
  staticPrefixLessons : ℤ
  dynamic : ℤ
  slotCaps : List (PyStr × ℤ)

/-- The sections of `EffectiveConfig` that the hot path reads, with
`tier_a.candidate_cap_per_run`, `killswitch.holdout_pct` and the kill-switch overlay. -/
structure EffectiveConfig where
  retrieval : RetrievalConfig
  abstention : AbstentionConfig
  score : ScoreConfig
  budget : BudgetConfig
  candidateCapPerRun : ℤ
  holdoutPct : PyFloat
  killswitchOverlay : List (PyStr × Bool)

/-- The defaults of the sections the hot path reads. -/
def defaultConfig : EffectiveConfig where
  retrieval := ⟨300, 200, 60, .fin 1, .fin 1, 50, 20, true, 20000⟩
  abstention := ⟨.round (6 / 10), .fin 10, .fin (1 / 2), 2, .fin 2, 200⟩
  score := ⟨.round (4 / 10), .round (3 / 10), .round (15 / 100), .round (15 / 100), 14⟩
  budget := ⟨1200, 700, 200, 500, 500,
    [(str "fact", 250), (str "exemplar", 150), (str "pitfall", 100),
      (str "candidate_note", 100), (str "jit_lesson", 150)]⟩
  candidateCapPerRun := 1
  holdoutPct := .fin 5
  killswitchOverlay := []

/-! ### Candidates and what becomes of them -/

/-- `ArmSignal`: what one search arm said about a candidate. -/
structure ArmSignal where
  rawScore : PyFloat
  rank : ℤ
  rank_pos : 1 ≤ rank

/-- `FusedCandidate`: a candidate in fused order, seen by at least one arm. -/
structure FusedCandidate where
  memoryId : MemoryId
  trustTier : TrustTier
  status : Status
  fusedRank : ℤ
  lexical : Option ArmSignal
  vector : Option ArmSignal
  rank_pos : 1 ≤ fusedRank
  seen : lexical.isSome ∨ vector.isSome

/-- `InjectionRow`: one row of `injection_log`. -/
structure InjectionRow where
  memoryId : MemoryId
  slot : Slot
  score : PyFloat
  tokens : ℕ
  deriving DecidableEq

/-- `CandidateSetResult`: what the assembly makes of a candidate list. -/
structure CandidateSetResult where
  outcomeCode : OutcomeCode
  slots : List ContextSlot
  topScore : Option PyFloat
  injections : List InjectionRow
  deriving DecidableEq

/-! ### The deadline -/

/-- `Deadline`. -/
structure Deadline where
  totalBudgetMs : ℤ
  embedTimeoutMs : ℤ
  startedAtMs : PyFloat
  total_pos : 0 < totalBudgetMs
  embed_pos : 0 < embedTimeoutMs

namespace Deadline

/-- `Deadline.__init__` with a reading taken earlier. -/
def make (totalBudgetMs embedTimeoutMs : ℤ) (startedAtMs : PyFloat) :
    Except HotpathError Deadline :=
  if ht : 0 < totalBudgetMs then
    if he : 0 < embedTimeoutMs then
      .ok ⟨totalBudgetMs, embedTimeoutMs, startedAtMs, ht, he⟩
    else .error (.valueError "embed_timeout_ms must be positive")
  else .error (.valueError "total_budget_ms must be positive")

variable (d : Deadline)

/-- `narrow_total_budget_ms`: only a tighter budget is taken over, and then the listeners
are notified. -/
def narrowTotalBudgetMs (totalBudgetMs : ℤ) (notify : Except HotpathError Unit) :
    Except HotpathError Deadline :=
  if ht : 0 < totalBudgetMs then
    if d.totalBudgetMs ≤ totalBudgetMs then .ok d
    else notify.map fun _ => { d with totalBudgetMs, total_pos := ht }
  else .error (.valueError "total_budget_ms must be positive")

variable (reading : Except HotpathError PyFloat)

/-- `remaining_ms()` at a reading of the clock: the budget less the elapsed time. -/
def remainingMs : Except HotpathError PyFloat := do
  let now ← reading
  let total ← orThrow (PyFloat.ofInt d.totalBudgetMs) .overflowError
  pure (total.sub (now.sub d.startedAtMs))

/-- `total_exceeded()`. -/
def totalExceeded : Except HotpathError Bool := do
  let remaining ← d.remainingMs reading
  pure (remaining.le (.fin 0))

/-- `embed_sub_budget_ms()`: the tighter of the embed budget and what is left. -/
def embedSubBudgetMs : Except HotpathError PyFloat := do
  let embed ← orThrow (PyFloat.ofInt d.embedTimeoutMs) .overflowError
  let remaining ← d.remainingMs reading
  pure (PyFloat.pyMax (.fin 0) (PyFloat.pyMin embed remaining))

end Deadline

end Tracebed
