import Tracebed.Independence
import Tracebed.Lib.CliqueComplete

/-!
# How Many Confirmations Are Independent

`independent_confirmations` is a clique search over the first 256 confirmations, ended early at a
threshold and after 50000 steps. Pairwise independent confirmations are the cliques of its graph.
Within the budget the number is that of the largest independent part, or tells whether one is as
large as the threshold (`independentConfirmations_spec`); with the threshold of two the budget
never matters (`two_independent_iff`).
-/

open Py List

namespace Tracebed

variable (confirmations : List ShadowConfirmation)

/-- `independent_confirmations`, with the counter of its steps. -/
def independentSearch (atLeast : Option ℤ) : Clique.State :=
  let considered := confirmations.take maxConfirmationsConsidered
  let n := considered.length
  if n = 0 then ⟨0, 0⟩
  else
    let target : ℤ := match atLeast with
      | none => n
      | some k => min k n
    Clique.search (compatibilityGraph considered) target maxCliqueSearchSteps (range n)

/-- The budget was not exhausted. -/
def WithinBudget (atLeast : Option ℤ) : Prop :=
  (independentSearch confirmations atLeast).steps ≤ maxCliqueSearchSteps

instance (confirmations : List ShadowConfirmation) (atLeast : Option ℤ) :
    Decidable (WithinBudget confirmations atLeast) := inferInstanceAs (Decidable (_ ≤ _))

theorem independentSearch_best (cs : List ShadowConfirmation) (atLeast : Option ℤ) :
    (independentSearch cs atLeast).best = independentConfirmations cs atLeast := by
  simp only [independentSearch, independentConfirmations]
  split <;> rfl

/-- Some `n` of the confirmations that are considered are pairwise independent. -/
def HasIndependent (cs : List ShadowConfirmation) (n : ℕ) : Prop :=
  ∃ found : List ShadowConfirmation, (∀ c ∈ found, c ∈ cs.take maxConfirmationsConsidered) ∧
    found.Pairwise Independent ∧ found.length = n

variable {cs : List ShadowConfirmation}

/-- Two positions are adjacent when different independent confirmations stand there. -/
theorem compatibilityGraph_of_independent {i j : ℕ} {a b : ShadowConfirmation}
    (hi : cs[i]? = some a) (hj : cs[j]? = some b) (h : Independent a b) :
    compatibilityGraph cs i j = true := by
  have hne : i ≠ j := by
    rintro rfl
    rw [hi, Option.some.injEq] at hj
    exact h.1 (congrArg ShadowConfirmation.runId hj)
  rcases le_total i j with hij | hij
  · rw [compatibilityGraph, min_eq_left hij, max_eq_right hij, hi, hj]
    exact decide_eq_true ⟨hne, h⟩
  · rw [compatibilityGraph, min_eq_right hij, max_eq_left hij, hi, hj]
    exact decide_eq_true ⟨hne, h.symm⟩

theorem exists_isClique_of_independent {found : List ShadowConfirmation}
    (hmem : ∀ c ∈ found, c ∈ cs) (h : found.Pairwise Independent) :
    ∃ l : List ℕ, (∀ v ∈ l, v ∈ range cs.length) ∧
      Clique.IsClique (compatibilityGraph cs) l ∧ l.length = found.length := by
  have hat : ∀ c ∈ found, ∃ i, cs[i]? = some c := fun c hc => mem_iff_getElem?.mp (hmem c hc)
  choose! position hposition using hat
  refine ⟨found.map position, fun v hv => ?_, ?_, length_map _⟩
  · obtain ⟨c, hc, rfl⟩ := mem_map.mp hv
    obtain ⟨hlt, -⟩ := List.getElem?_eq_some_iff.mp (hposition c hc)
    exact mem_range.mpr hlt
  · refine pairwise_map.mpr (h.imp_of_mem fun ha hb hab => ?_)
    exact compatibilityGraph_of_independent (hposition _ ha) (hposition _ hb) hab

theorem HasIndependent.mono {m n : ℕ} (h : HasIndependent cs n) (hle : m ≤ n) :
    HasIndependent cs m := by
  obtain ⟨found, hmem, hpair, rfl⟩ := h
  exact ⟨found.take m, fun c hc => hmem c (mem_of_mem_take hc),
    hpair.sublist (take_sublist _ _), length_take_of_le hle⟩

theorem HasIndependent.le_length {n : ℕ} (h : HasIndependent cs n) :
    n ≤ (cs.take maxConfirmationsConsidered).length := by
  obtain ⟨found, hmem, hpair, rfl⟩ := h
  have hnodup : found.Nodup := hpair.imp fun hab heq =>
    hab.1 (congrArg ShadowConfirmation.runId heq)
  exact (hnodup.subperm hmem).length_le

/-- A search within its budget has reached its target or found the most there is. -/
theorem independentSearch_complete {atLeast : Option ℤ} (hbudget : WithinBudget cs atLeast) :
    (atLeast.getD (cs.take maxConfirmationsConsidered).length ⊓
        (cs.take maxConfirmationsConsidered).length : ℤ) ≤ independentConfirmations cs atLeast ∨
      ∀ n, HasIndependent cs n → n ≤ independentConfirmations cs atLeast := by
  rw [← independentSearch_best]
  rw [WithinBudget] at hbudget
  simp only [independentSearch] at hbudget ⊢
  split
  · next hnone =>
    exact .inr fun n hn => hnone ▸ hn.le_length
  · next hsome =>
    rw [if_neg hsome] at hbudget
    have hsearch := Clique.search_complete (compatibilityGraph_comm _)
      (compatibilityGraph_self _) nodup_range hbudget
    refine hsearch.imp (fun htarget => ?_) fun hall n hn => ?_
    · cases atLeast with
      | none => simpa using htarget
      | some k => exact htarget
    · obtain ⟨found, hmem, hpair, rfl⟩ := hn
      obtain ⟨l, hl, hclique, hlen⟩ := exists_isClique_of_independent hmem hpair
      exact hlen ▸ hall l hl hclique

/-- **What the bounded search reports.** The number is always the size of some pairwise
independent part of what is considered. Within the budget it is the largest such size, and with
a threshold it clears the threshold exactly when some such part does. -/
theorem independentConfirmations_spec (cs : List ShadowConfirmation) :
    (∀ atLeast, HasIndependent cs (independentConfirmations cs atLeast)) ∧
      (WithinBudget cs none → IsGreatest {n | HasIndependent cs n}
        (independentConfirmations cs none)) ∧
      ∀ k : ℤ, WithinBudget cs (some k) → (k ≤ independentConfirmations cs (some k) ↔
        k < 0 ∨ HasIndependent cs k.toNat) := by
  have hsound : ∀ atLeast, HasIndependent cs (independentConfirmations cs atLeast) :=
    independentConfirmations_sound cs
  refine ⟨hsound, fun hbudget => ⟨hsound none, fun n hn => ?_⟩, fun k hbudget =>
    ⟨fun hk => ?_, ?_⟩⟩
  · rcases independentSearch_complete hbudget with htarget | hall
    · have hle := hn.le_length
      rw [Option.getD_none, min_self] at htarget
      exact_mod_cast hle.trans (by exact_mod_cast htarget)
    · exact hall n hn
  · exact .inr ((hsound (some k)).mono (by omega))
  · rintro (hneg | hn)
    · omega
    · rcases independentSearch_complete hbudget with htarget | hall
      · have hle := hn.le_length
        rw [Option.getD_some] at htarget
        omega
      · have := hall _ hn
        omega

namespace Sample

/-- A negative threshold is cleared, and no part has a negative size. -/
theorem negative_threshold_cleared : WithinBudget [] (some (-1)) ∧
    (-1 : ℤ) ≤ independentConfirmations [] (some (-1)) ∧
      ¬ ∃ n : ℕ, (n : ℤ) = -1 ∧ HasIndependent [] n := by
  refine ⟨by decide, by decide, ?_⟩
  omega

end Sample

/-! ### The threshold of two -/

/-- **The budget never matters for a pair.** -/
theorem two_le_independentConfirmations_iff (cs : List ShadowConfirmation) :
    2 ≤ independentConfirmations cs (some 2) ↔
      ∃ a ∈ cs.take maxConfirmationsConsidered, ∃ b ∈ cs.take maxConfirmationsConsidered,
        Independent a b := by
  constructor
  · intro h
    obtain ⟨found, hmem, hpair, hlen⟩ := (independentConfirmations_spec cs).1 (some 2)
    rw [← hlen] at h
    match found, h with
    | a :: b :: rest, _ =>
      exact ⟨a, hmem a mem_cons_self, b, hmem b (by simp),
        (pairwise_cons.mp hpair).1 b mem_cons_self⟩
  · rintro ⟨a, ha, b, hb, hab⟩
    obtain ⟨i, hi⟩ := mem_iff_getElem?.mp ha
    obtain ⟨j, hj⟩ := mem_iff_getElem?.mp hb
    obtain ⟨hi', -⟩ := List.getElem?_eq_some_iff.mp hi
    obtain ⟨hj', -⟩ := List.getElem?_eq_some_iff.mp hj
    have hadj := compatibilityGraph_of_independent hi hj hab
    have hne : i ≠ j := by
      rintro rfl
      rw [compatibilityGraph_self] at hadj
      cases hadj
    have hfew : (cs.take maxConfirmationsConsidered).length ≤ maxConfirmationsConsidered :=
      length_take_le _ _
    have hedge := Clique.search_edge (compatibilityGraph_comm _) (compatibilityGraph_self _)
      nodup_range (by
        rw [length_range]
        exact hfew.trans_lt (by decide : maxConfirmationsConsidered < maxCliqueSearchSteps))
      (mem_range.mpr hi') (mem_range.mpr hj') hadj
    have htarget : min (2 : ℤ) (cs.take maxConfirmationsConsidered).length = 2 := by omega
    simp only [independentConfirmations, htarget]
    rw [if_neg (by omega)]
    exact hedge

/-- **An independent pair is what is asked for**, by the count with the threshold of two, by the
guard out of quarantine and by `independent_of`. -/
theorem two_independent_iff :
    (∀ cs, 2 ≤ independentConfirmations cs (some 2) ↔
      ∃ a ∈ cs.take maxConfirmationsConsidered, ∃ b ∈ cs.take maxConfirmationsConsidered,
        Independent a b) ∧
    (∀ (e : TransitionEvidence) (l : TransitionLimits), e.provenanceClass ≠ .proposal →
      ¬ (e.isFailureLesson = true ∧ e.memType = .lesson) →
        ((guardQuarantinedToCandidate e l).ok = true ↔
          ∃ a ∈ e.confirmations.take maxConfirmationsConsidered,
            ∃ b ∈ e.confirmations.take maxConfirmationsConsidered, Independent a b)) ∧
    ∀ a b : ShadowConfirmation, isAbsentSignature a.inputSignatureHash.bytes = false →
      isAbsentSignature b.inputSignatureHash.bytes = false →
        (independentOf a b = true ↔ Independent a b) := by
  refine ⟨two_le_independentConfirmations_iff, fun e l hclass hlesson => ?_, fun a b ha hb => ?_⟩
  · have hrequired : requiredConfirmations e l = 2 := if_neg hlesson
    rw [guardQuarantinedToCandidate_ok, hrequired, ← two_le_independentConfirmations_iff]
    constructor
    · exact fun h => by exact_mod_cast h.2
    · exact fun h => ⟨hclass, by exact_mod_cast h⟩
  · rw [independentOf_iff]
    exact ⟨fun h => h.2.2, fun h => ⟨ha, hb, h⟩⟩

end Tracebed
