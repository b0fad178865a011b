import Tracebed.Hotpath
import Tracebed.Lib.Packing

/-!
# Packing Candidates into a Context

`hotpath/assembler.py`: candidates that may be injected become an ordered list of slots
within the token budgets (`assemble_within`). One candidate is kept per memory and per content,
static entries come first, and every pool is clamped by what the total budget has left. The order
of the candidates matters only where two of one memory tie for its top score (`assemble_perm`).
-/

open Py Fallible Packing List

namespace Tracebed

/-- `Candidate`, with the checks of its constructor. -/
structure Candidate where
  slot : Slot
  memoryId : MemoryId
  memType : MemType
  text : PyStr
  tokens : ℕ
  score : PyFloat
  dedupKey : PyStr
  text_ok : text.any (!isSpaceChar ·) = true
  key_ok : dedupKey ≠ []
  score_ok : score.isFinite = true

variable (candidates : List Candidate) (cfg : EffectiveConfig)

namespace Candidate

/-- `Candidate.__post_init__`. -/
def make (slot : Slot) (memoryId : MemoryId) (memType : MemType) (text : PyStr) (tokens : ℤ)
    (score : PyFloat) (dedupKey : PyStr) : Except HotpathError Candidate :=
  if tokens < 0 then .error (.valueError "tokens must be >= 0")
  else if ht : text.any (!isSpaceChar ·) = true then
    if hk : dedupKey ≠ [] then
      if hs : score.isFinite = true then
        .ok ⟨slot, memoryId, memType, text, tokens.toNat, score, dedupKey, ht, hk, hs⟩
      else .error (.valueError "score must be finite")
    else .error (.valueError "dedup_key cannot be empty")
  else .error (.valueError "candidate text cannot be empty or whitespace-only")

/-- `_better`: the higher score wins, then the lower id. -/
def better (c current : Candidate) : Bool :=
  current.score.lt c.score ||
    (c.score.eqFloat current.score && strLe c.memoryId.value.str current.memoryId.value.str &&
      c.memoryId != current.memoryId)

/-- The order of `_pack`: by `(-score, str(memory_id))`. -/
def packLe (a b : Candidate) : Bool :=
  a.score.neg.lt b.score.neg ||
    (a.score.neg.eqFloat b.score.neg && strLe a.memoryId.value.str b.memoryId.value.str)

/-- The entry a placed candidate becomes. -/
def toSlot (c : Candidate) : ContextSlot := ⟨c.slot, some c.memoryId.value, c.tokens, c.text⟩

end Candidate

/-- `by_memory` of `_dedup`: the best candidate per memory. -/
def byMemory : List Candidate := keepBest Candidate.better Candidate.memoryId candidates

/-- `_dedup`: the best candidate per memory, and of those the best per content. -/
def dedup : List Candidate :=
  keepBest Candidate.better Candidate.dedupKey (byMemory candidates)

/-- `_pack`: the selected candidates and the tokens they use. -/
def pack (cap : ℤ) (maxCount : Option ℤ) : List Candidate × ℕ :=
  greedyFill Candidate.tokens cap maxCount 0 0
    (candidates.insertionSort fun a b => a.packLe b = true)

/-- `_clamp`: the tighter of a cap and the budget left, never negative. -/
def clamp (cap headroom : ℤ) : ℤ := max (min cap headroom) 0

/-- `budget.slot_caps.get(slot.value, 0)`. -/
def slotCap (budget : BudgetConfig) (slot : Slot) : ℤ := (budget.slotCaps.lookup slot.text).getD 0

/-- `_DYNAMIC_SLOTS`. -/
def dynamicSlots : List Slot := slotOrder.filter fun s => s ≠ .staticPrefix

/-- The loop over the dynamic slots: each spends from the pool the ones before left. -/
def packDynamic (cfg : EffectiveConfig) (deduped : List Candidate) :
    (remaining : ℤ) → List Slot → List Candidate × ℤ
  | remaining, [] => ([], remaining)
  | remaining, slot :: rest =>
    let cap := clamp (slotCap cfg.budget slot) remaining
    let maxCount := if slot = .candidateNote then some cfg.candidateCapPerRun else none
    let packed := pack (deduped.filter fun c => c.slot = slot) cap maxCount
    let others := packDynamic cfg deduped (remaining - packed.2) rest
    (packed.1 ++ others.1, others.2)

/-- `ordered_candidates` and `total_tokens`: what is placed, in order, and what it uses. -/
def selected : List Candidate × ℤ :=
  let budget := cfg.budget
  let deduped := dedup candidates
  let staticItems := deduped.filter fun c => c.slot = .staticPrefix
  let prefs := staticItems.filter fun c => c.memType = .preference
  let lessons := staticItems.filter fun c => c.memType ≠ .preference
  let staticPool := clamp budget.staticPrefix budget.totalTokens
  let prefsPacked := pack prefs (clamp budget.staticPrefixPrefs staticPool) none
  let lessonsCap := clamp budget.staticPrefixLessons (staticPool - prefsPacked.2)
  let lessonsPacked := pack lessons lessonsCap none
  let dynamicPool := clamp budget.dynamic (budget.totalTokens - prefsPacked.2 - lessonsPacked.2)
  let dynamicPacked := packDynamic cfg deduped dynamicPool dynamicSlots
  (prefsPacked.1 ++ lessonsPacked.1 ++ dynamicPacked.1,
    prefsPacked.2 + lessonsPacked.2 + (dynamicPool - dynamicPacked.2))

/-- `AssembledContext`. -/
structure AssembledContext where
  slots : List ContextSlot
  totalTokens : ℤ
  droppedMemoryIds : List MemoryId

/-- `assemble`. -/
def assemble : AssembledContext :=
  let placed := selected candidates cfg
  let dropped := (candidates.map Candidate.memoryId).filter fun id =>
    id ∉ placed.1.map Candidate.memoryId
  { slots := placed.1.map Candidate.toSlot
    totalTokens := placed.2
    droppedMemoryIds :=
      dropped.dedup.insertionSort fun a b => strLe a.value.str b.value.str = true }

/-! ### Deduplication -/

variable {candidates : List Candidate}

/-- One candidate per memory. -/
theorem dedup_nodup (candidates : List Candidate) :
    ((dedup candidates).map Candidate.memoryId).Nodup := by
  have hids := keepBest_nodup Candidate.better Candidate.memoryId candidates
  have hkeys := keepBest_nodup Candidate.better Candidate.dedupKey (byMemory candidates)
  refine Nodup.map_on (fun a ha b hb hab => ?_) hkeys.of_map
  exact inj_on_of_nodup_map hids (keepBest_subset ha) (keepBest_subset hb) hab

/-! ### Placement -/

theorem pack_subperm (l : List Candidate) (cap : ℤ) (maxCount : Option ℤ) :
    (pack l cap maxCount).1.Subperm l :=
  (greedyFill_sublist _ _ _ _ _ _).subperm.trans (perm_insertionSort _ l).subperm

theorem packDynamic_subperm (cfg : EffectiveConfig) (l : List Candidate) (remaining : ℤ)
    (slots : List Slot) :
    (packDynamic cfg l remaining slots).1.Subperm
      (slots.flatMap fun s => l.filter fun c => c.slot = s) := by
  induction slots generalizing remaining with
  | nil => exact Subperm.refl _
  | cons slot rest ih =>
    exact (pack_subperm _ _ _).append (ih _)

/-- **Nothing is placed twice**: what is placed is part of the deduplicated candidates. -/
theorem selected_subperm (candidates : List Candidate) (cfg : EffectiveConfig) :
    (selected candidates cfg).1.Subperm (dedup candidates) := by
  have horder : slotOrder.Nodup := by decide
  have hpools := flatMap_filter_subperm Candidate.slot horder (dedup candidates)
  refine Subperm.trans ?_ hpools
  refine Subperm.append ?_ (packDynamic_subperm cfg _ _ _)
  have hparts := filter_append_perm (fun c : Candidate => decide (c.memType = .preference))
    ((dedup candidates).filter fun c => c.slot = .staticPrefix)
  refine ((pack_subperm _ _ _).append ?_).trans hparts.subperm
  refine (pack_subperm _ _ _).trans ?_
  simp only [decide_not]
  exact Subperm.refl _

theorem selected_memoryId_nodup (candidates : List Candidate) (cfg : EffectiveConfig) :
    ((selected candidates cfg).1.map Candidate.memoryId).Nodup := by
  obtain ⟨l, hperm, hsub⟩ := selected_subperm candidates cfg
  exact (hperm.map _).nodup_iff.mp ((hsub.map _).nodup (dedup_nodup candidates))

/-- What is placed was a candidate. -/
theorem mem_of_selected {cfg : EffectiveConfig} {c : Candidate}
    (h : c ∈ (selected candidates cfg).1) : c ∈ candidates :=
  keepBest_subset (keepBest_subset ((selected_subperm candidates cfg).subset h))

/-! ### Budgets -/

section Budgets

variable {cfg : EffectiveConfig} {l : List Candidate} {slot : Slot} {cap headroom : ℤ}
  {maxCount : Option ℤ} {packed : List Candidate × ℕ}

def tokensOf (l : List Candidate) : ℤ := (l.map Candidate.tokens).sum

theorem tokensOf_append (l l' : List Candidate) :
    tokensOf (l ++ l') = tokensOf l + tokensOf l' := by
  simp [tokensOf]

theorem pack_within (h : pack l (clamp cap headroom) maxCount = packed) :
    packed.2 = tokensOf packed.1 ∧ tokensOf packed.1 ≤ clamp cap headroom ∧
      ∀ m ∈ maxCount, (packed.1.length : ℤ) ≤ max m 0 := by
  obtain ⟨hsum, hle, hcount⟩ := greedyFill_within Candidate.tokens (clamp cap headroom) maxCount
    0 0 (l.insertionSort fun a b => a.packLe b = true)
  rw [← pack, h] at hsum hle hcount
  rw [Nat.zero_add] at hsum
  have hclamp : 0 ≤ clamp cap headroom := le_max_right _ _
  simp only [Nat.cast_zero, zero_add, max_eq_left hclamp] at hle hcount
  rw [tokensOf, ← hsum]
  exact ⟨rfl, hle, hcount⟩

/-- Where the candidates of a pool stand. -/
theorem filter_pack (h : pack l cap maxCount = packed) (hl : ∀ c ∈ l, c.slot = slot)
    (other : Slot) :
    (packed.1.filter fun c => c.slot = other) = if slot = other then packed.1 else [] := by
  have hmem : ∀ c ∈ packed.1, c.slot = slot :=
    fun c hc => hl c ((pack_subperm l cap maxCount).subset (h ▸ hc))
  split_ifs with heq
  · exact filter_eq_self.mpr fun c hc => decide_eq_true ((hmem c hc).trans heq)
  · refine filter_eq_nil_iff.mpr fun c hc hother => heq ?_
    exact (hmem c hc).symm.trans (of_decide_eq_true hother)

/-- The bounds of a dynamic slot. -/
def SlotWithin (cfg : EffectiveConfig) (placed : List Candidate) (slot : Slot) : Prop :=
  tokensOf (placed.filter fun c => c.slot = slot) ≤ max (slotCap cfg.budget slot) 0 ∧
    (slot = .candidateNote →
      ((placed.filter fun c => c.slot = slot).length : ℤ) ≤ max cfg.candidateCapPerRun 0)

theorem packDynamic_within {remaining : ℤ} {slots : List Slot} {dynamic : List Candidate × ℤ}
    (hremaining : 0 ≤ remaining) (hslots : slots.Nodup)
    (h : packDynamic cfg l remaining slots = dynamic) :
    dynamic.2 = remaining - tokensOf dynamic.1 ∧ 0 ≤ dynamic.2 ∧
    ∀ slot, if slot ∈ slots then SlotWithin cfg dynamic.1 slot
      else (dynamic.1.filter fun c => c.slot = slot) = [] := by
  induction slots generalizing remaining dynamic with
  | nil =>
    subst h
    simpa [packDynamic, tokensOf] using hremaining
  | cons slot rest ih =>
    obtain ⟨hslot, hrest⟩ := nodup_cons.mp hslots
    rw [packDynamic] at h
    generalize hpacked : pack (l.filter fun c => c.slot = slot) _ _ = packed at h
    generalize hlater : packDynamic cfg l _ rest = later at h
    subst h
    obtain ⟨hused, hcap, hcount⟩ := pack_within hpacked
    have hclamp : clamp (slotCap cfg.budget slot) remaining ≤ remaining ∧
        clamp (slotCap cfg.budget slot) remaining ≤ max (slotCap cfg.budget slot) 0 := by
      rw [clamp]
      omega
    obtain ⟨hspent, hnonneg, hothers⟩ := ih (by omega) hrest hlater
    refine ⟨by rw [tokensOf_append]; omega, hnonneg, fun other => ?_⟩
    have hother := hothers other
    have hown : (packed.1.filter fun c => c.slot = other) = if slot = other then packed.1 else [] :=
      filter_pack hpacked (by simp) other
    rw [SlotWithin, filter_append, hown]
    by_cases heq : slot = other
    · subst heq
      rw [if_neg hslot] at hother
      rw [if_pos mem_cons_self, if_pos rfl, hother, append_nil]
      exact ⟨hcap.trans hclamp.2, fun hnote => hcount _ (by simp [hnote])⟩
    · rw [if_neg heq, nil_append, ← SlotWithin]
      simpa only [mem_cons, Ne.symm heq, false_or] using hother

/-- **Every budget is kept.** The reported total is what the placed candidates use, within the total
budget; the static prefix, the other slots together and each of them stay within their caps, and
so does the number of candidate notes. -/
theorem assemble_within (candidates : List Candidate) (cfg : EffectiveConfig) :
    ∃ placed, (assemble candidates cfg).slots = placed.map Candidate.toSlot ∧
      (assemble candidates cfg).totalTokens = tokensOf placed ∧
      tokensOf placed ≤ max cfg.budget.totalTokens 0 ∧
      tokensOf (placed.filter fun c => c.slot = .staticPrefix) ≤
        clamp cfg.budget.staticPrefix cfg.budget.totalTokens ∧
      tokensOf placed - tokensOf (placed.filter fun c => c.slot = .staticPrefix) ≤
        max cfg.budget.dynamic 0 ∧
      ∀ slot ∈ dynamicSlots, SlotWithin cfg placed slot := by
  obtain ⟨⟨placed, total⟩, h⟩ : ∃ result, selected candidates cfg = result := ⟨_, rfl⟩
  rw [assemble, h]
  refine ⟨placed, rfl, ?_⟩
  dsimp only
  have hpool : ∀ p, ∀ c ∈ ((dedup candidates).filter fun c => c.slot = .staticPrefix).filter p,
      c.slot = .staticPrefix := by
    intro p c hc
    simpa using (mem_filter.mp (mem_of_mem_filter hc)).2
  rw [selected] at h
  generalize hprefs : pack _ (clamp cfg.budget.staticPrefixPrefs _) none = prefs at h
  generalize hlessons : pack _ (clamp cfg.budget.staticPrefixLessons _) none = lessons at h
  generalize hdynamic : packDynamic cfg _ _ dynamicSlots = dynamic at h
  obtain ⟨rfl, rfl⟩ := Prod.mk.inj h
  obtain ⟨hprefsUsed, hprefsCap, -⟩ := pack_within hprefs
  obtain ⟨hlessonsUsed, hlessonsCap, -⟩ := pack_within hlessons
  obtain ⟨hspent, hleft, hslots⟩ := packDynamic_within (le_max_right _ _) (by decide) hdynamic
  have hstatic := hslots .staticPrefix
  rw [if_neg (by decide)] at hstatic
  refine ⟨?_, ?_, ?_, ?_, fun slot hslot => ?_⟩
  iterate 4
    simp only [clamp, filter_append, filter_pack hprefs (hpool _),
      filter_pack hlessons (hpool _), hstatic, if_true, append_nil, tokensOf_append] at *
    omega
  have hwithin := hslots slot
  have hne : Slot.staticPrefix ≠ slot := by
    rintro rfl
    exact absurd hslot (by decide)
  rw [if_pos hslot] at hwithin
  simpa only [SlotWithin, filter_append, filter_pack hprefs (hpool _),
    filter_pack hlessons (hpool _), if_neg hne, nil_append] using hwithin

end Budgets

/-! ### The order of the candidates -/

/-- Finite floats are compared by the numbers they denote. -/
theorem lt_iff_toRat {x y : PyFloat} {p q : ℚ} (hx : x.toRat? = some p) (hy : y.toRat? = some q) :
    (x.lt y = true ↔ p < q) ∧ (x.eqFloat y = true ↔ p = q) := by
  have hlt : (decide (p ≤ q) && !decide (q ≤ p)) = true ↔ p < q := by
    rw [lt_iff_le_not_ge]
    simp
  cases x <;> cases y <;> cases hx <;> cases hy <;>
    exact ⟨hlt, by simp [PyFloat.eqFloat, PyFloat.toRat?]⟩

/-- What `_better` and `_pack` compare: the score, then the text of the id. -/
def Candidate.rank (c : Candidate) : ℚ ×ₗ PyStr :=
  toLex (-c.score.toRat?.get c.score_ok, c.memoryId.value.str)

theorem memoryId_inj {a b : MemoryId} (h : a.value.str = b.value.str) : a = b :=
  congrArg MemoryId.mk (UUID.str_inj h)

theorem Candidate.better_iff (a b : Candidate) : a.better b = true ↔ a.rank < b.rank := by
  have ha := (Option.some_get a.score_ok).symm
  have hb := (Option.some_get b.score_ok).symm
  have hid : a.memoryId = b.memoryId ↔ a.memoryId.value.str = b.memoryId.value.str :=
    ⟨fun h => h ▸ rfl, memoryId_inj⟩
  rw [rank, rank, Prod.Lex.toLex_lt_toLex, neg_lt_neg_iff, neg_inj, @lt_iff_le_and_ne PyStr]
  simp [better, lt_iff_toRat ha hb, lt_iff_toRat hb ha, strLe_iff_le, hid, and_assoc]

theorem Candidate.packLe_iff (a b : Candidate) : a.packLe b = true ↔ a.rank ≤ b.rank := by
  have hneg : ∀ c : Candidate, c.score.neg.toRat? = some (-c.score.toRat?.get c.score_ok) := by
    intro c
    generalize c.score_ok = h
    generalize c.score = x at h
    cases x with
    | fin q =>
      rw [PyFloat.neg]
      split_ifs with h <;> simp [PyFloat.toRat?, h]
    | negZero => rfl
    | _ => cases h
  rw [rank, rank, Prod.Lex.toLex_le_toLex]
  simp [packLe, lt_iff_toRat (hneg a) (hneg b), strLe_iff_le]

/-- Candidates of different memories have different ranks. -/
theorem rank_injOn_byMemory (candidates : List Candidate) :
    {c | c ∈ byMemory candidates}.InjOn Candidate.rank := fun _ ha _ hb h =>
  inj_on_of_nodup_map (keepBest_nodup _ Candidate.memoryId candidates) ha hb
    (memoryId_inj (congrArg (fun r => (ofLex r).2) h))

/-- The order of the candidates matters only to what is kept of each memory. -/
theorem assemble_congr (h : candidates.Perm candidates')
    (hkept : (byMemory candidates).Perm (byMemory candidates')) :
    assemble candidates cfg = assemble candidates' cfg := by
  have hinj := rank_injOn_byMemory candidates
  have hdedup : (dedup candidates).Perm (dedup candidates') := by
    refine (keepBest_perm_iff Candidate.dedupKey Candidate.better_iff).mpr ?_ _ hkept
    exact fun _ ha _ hb _ hrank _ => hinj ha hb hrank
  have hpack : ∀ p cap maxCount, pack ((dedup candidates).filter p) cap maxCount =
      pack ((dedup candidates').filter p) cap maxCount := by
    intro p cap maxCount
    rw [pack, pack, insertionSort_perm Candidate.packLe_iff (hdedup.filter p)]
    exact hinj.mono fun c hc => keepBest_subset (mem_of_mem_filter hc)
  have hdynamic : ∀ slots remaining, packDynamic cfg (dedup candidates) remaining slots =
      packDynamic cfg (dedup candidates') remaining slots := by
    intro slots
    induction slots with
    | nil => exact fun _ => rfl
    | cons slot slots ih => simp [packDynamic, hpack, ih]
  have hselected : selected candidates cfg = selected candidates' cfg := by
    simp only [selected, filter_filter, hpack, hdynamic]
  rw [assemble, assemble, hselected]
  refine congrArg (AssembledContext.mk _ _) ?_
  refine insertionSort_perm (fun _ _ => strLe_iff_le) ((h.map _).filter _).dedup ?_
  exact fun _ _ _ _ => memoryId_inj

/-- **The order of the candidates does not matter**, if no two different candidates of a memory tie
for its top score. Without such a tie, and only then, the same candidate of each memory is kept in
every order. -/
theorem assemble_perm (candidates : List Candidate) :
    (TopTieFree Candidate.memoryId Candidate.rank candidates → ∀ candidates' cfg,
      candidates.Perm candidates' → assemble candidates cfg = assemble candidates' cfg) ∧
    (TopTieFree Candidate.memoryId Candidate.rank candidates ↔ ∀ candidates',
      candidates.Perm candidates' → (byMemory candidates).Perm (byMemory candidates')) := by
  have hkept := keepBest_perm_iff (l := candidates) Candidate.memoryId Candidate.better_iff
  exact ⟨fun hties _ cfg h => assemble_congr cfg h (hkept.mpr hties _ h), hkept.symm⟩

namespace Sample

/-- A candidate, and the same memory with another text and the same score. -/
def candidate (memory : ℕ) : Candidate :=
  ⟨.fact, ⟨⟨memory⟩⟩, .lesson, str "a", 1, .fin 1, str "a", by decide, by decide, rfl⟩

def retold : Candidate := { candidate 1 with text := str "b", text_ok := rfl }

/-- Of two candidates of one memory with one score, the first one is placed. -/
theorem first_tie_placed :
    (assemble [candidate 1, retold] defaultConfig).slots ≠
      (assemble [retold, candidate 1] defaultConfig).slots := by
  decide

/-- The best candidate of the memory, above the tie. -/
def best : Candidate := { candidate 1 with score := .fin 2, score_ok := rfl }

/-- A tie below the best candidate of a memory does not matter, nor does another memory. -/
theorem lower_tie_placed : assemble [best, candidate 1, retold, candidate 2] defaultConfig =
    assemble [candidate 2, retold, candidate 1, best] defaultConfig := by
  have hfirst : best.rank < (candidate 1).rank := (Candidate.better_iff _ _).mp (by decide)
  have hretold : best.rank < retold.rank := (Candidate.better_iff _ _).mp (by decide)
  refine (assemble_perm _).1 (fun a ha b hb hid hrank htop => ?_) _ _ (reverse_perm _).symm
  have hbest := htop best mem_cons_self
  simp only [mem_cons, not_mem_nil, or_false] at ha hb
  rcases ha with rfl | rfl | rfl | rfl <;> rcases hb with rfl | rfl | rfl | rfl <;>
    first
    | rfl
    | exact absurd (hbest rfl) hfirst.not_ge
    | exact absurd (hbest rfl) hretold.not_ge
    | exact absurd hrank hfirst.ne
    | exact absurd hrank hretold.ne
    | cases hid

end Sample

end Tracebed
