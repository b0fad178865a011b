import Mathlib

/-!
# The Benjamini–Hochberg Step-Up Procedure

Given `m` p-values and a level `a`, the procedure looks for the largest rank `k` whose
p-value is at most `k / m * a` and rejects every hypothesis whose p-value is at most that
one. `Rejects` says this of a p-value.

The usual way to compute it walks the ranks from the largest down and keeps a running
minimum of `min 1 (p * m / k)`; what it stands at when a hypothesis is passed is the
hypothesis' adjusted p-value. It is at most the level exactly if the hypothesis is rejected
(`adjusted_le_iff`).
-/

open List Nat

namespace StepUp

variable {α : Type} [LinearOrder α]

/-- Sorting sorts. -/
theorem pairwise_mergeSort_le (l : List α) : (l.mergeSort (· ≤ ·)).Pairwise (· ≤ ·) :=
  pairwise_mergeSort' (· ≤ ·) l

variable {k : ℕ}

/-- In a sorted list, the entries up to a bound come first. -/
theorem getElem_le_iff_lt_countP {l : List α} (hl : l.Pairwise (· ≤ ·)) (hk : k < l.length)
    (t : α) : l[k] ≤ t ↔ k < l.countP (· ≤ t) := by
  induction l generalizing k with
  | nil => exact absurd hk (not_lt_zero k)
  | cons x l ih =>
    obtain ⟨hx, hl⟩ := pairwise_cons.mp hl
    by_cases hxt : x ≤ t
    · cases k with
      | zero => simp [hxt]
      | succ k => simpa [hxt] using ih hl (lt_of_succ_lt_succ hk)
    · have hnone : l.countP (· ≤ t) = 0 := by
        rw [countP_eq_zero]
        intro y hy hyt
        exact hxt ((hx y hy).trans (of_decide_eq_true hyt))
      have hkt : ¬ (x :: l)[k] ≤ t := by
        intro hle
        obtain heq | hmem := mem_cons.mp (getElem_mem hk)
        · exact hxt (heq ▸ hle)
        · exact hxt ((hx _ hmem).trans hle)
      simp [hkt, hxt, hnone]

variable {ps : List α}

theorem countP_le_of_forall₂ {ps' : List α} (h : Forall₂ (· ≤ ·) ps' ps) (t : α) :
    ps.countP (· ≤ t) ≤ ps'.countP (· ≤ t) := by
  induction h with
  | nil => exact le_rfl
  | @cons p' p _ _ hle _ ih =>
    by_cases hpt : p ≤ t
    · simpa [hpt, hle.trans hpt] using ih
    · rw [countP_cons_of_neg (by simpa using hpt)]
      exact ih.trans (sublist_cons_self _ _).countP_le

variable [Field α]

/-! ### The rejection set -/

/-- The p-value of a rank, counted from 0. -/
def orderStat (ps : List α) (k : ℕ) : α := (ps.mergeSort (· ≤ ·)).getD k 1

/-- The rank, counted from 0, has a p-value below its share of the level. -/
def Passes (ps : List α) (a : α) (k : ℕ) : Prop :=
  k < ps.length ∧ orderStat ps k ≤ (k + 1 : ℕ) / (ps.length : α) * a

/-- The p-value is at most that of the largest rank that passes. -/
def Rejects (ps : List α) (a p : α) : Prop :=
  ∃ k, IsGreatest {k | Passes ps a k} k ∧ p ≤ orderStat ps k

/-! ### The adjusted p-values -/

/-- The hypotheses by rank; equal p-values keep their order. -/
def ranking (ps : List α) : List ℕ :=
  (range ps.length).insertionSort fun i j => ps.getD i 1 ≤ ps.getD j 1

/-- What the walk compares its minimum with at a hypothesis and its rank. -/
def candidate (ps : List α) (e : ℕ × ℕ) : α :=
  min 1 (ps.getD e.1 1 * ps.length / e.2)

/-- One step of the walk: the running minimum is the hypothesis' adjusted p-value. -/
def step (ps : List α) (e : ℕ × ℕ) (st : α × List α) : α × List α :=
  let running := min st.1 (candidate ps e)
  (running, st.2.set e.1 running)

/-- The adjusted p-values, in the order of the hypotheses. -/
def adjusted (ps : List α) : List α :=
  (((ranking ps).zipIdx 1).reverse.foldl (fun st e => step ps e st)
    (1, replicate ps.length 1)).2

/-! ### Sorting -/

theorem ranking_perm (ps : List α) : (ranking ps).Perm (range ps.length) :=
  perm_insertionSort _ _

theorem ranking_pairwise (ps : List α) :
    (ranking ps).Pairwise fun i j => ps.getD i 1 ≤ ps.getD j 1 := by
  exact pairwise_insertionSort _ _

@[simp] theorem length_ranking (ps : List α) : (ranking ps).length = ps.length := by
  simpa using (ranking_perm ps).length_eq

/-- A list read position by position. -/
theorem map_getD_range {β : Type} (l : List β) (d : β) : (range l.length).map (l.getD · d) = l := by
  refine ext_getElem (by simp) fun i h₁ h₂ => ?_
  simp [h₂]

theorem map_ranking (ps : List α) :
    (ranking ps).map (fun i => ps.getD i 1) = ps.mergeSort (· ≤ ·) := by
  have hperm : ((ranking ps).map fun i => ps.getD i 1).Perm (ps.mergeSort (· ≤ ·)) := by
    refine ((ranking_perm ps).map _).trans ?_
    rw [map_getD_range]
    exact (mergeSort_perm _ _).symm
  have hsorted : ((ranking ps).map fun i => ps.getD i 1).Pairwise (· ≤ ·) :=
    pairwise_map.mpr (ranking_pairwise ps)
  exact hperm.eq_of_pairwise (fun a b _ _ => le_antisymm) hsorted (pairwise_mergeSort_le ps)

theorem getD_ranking (ps : List α) (hk : k < (ranking ps).length) :
    ps.getD (ranking ps)[k] 1 = orderStat ps k := by
  have hlen : k < ((ranking ps).map fun i => ps.getD i 1).length := by simpa using hk
  rw [orderStat, ← map_ranking, getD_eq_getElem _ _ hlen, getElem_map]

/-- Higher ranks have higher p-values. -/
theorem orderStat_mono (ps : List α) {j : ℕ} (hjk : j ≤ k) (hk : k < ps.length) :
    orderStat ps j ≤ orderStat ps k := by
  obtain rfl | hlt := eq_or_lt_of_le hjk
  · exact le_rfl
  have hsorted := pairwise_mergeSort_le ps
  have hlen : (ps.mergeSort (· ≤ ·)).length = ps.length := by simp
  have hk' : k < (ps.mergeSort (· ≤ ·)).length := hlen ▸ hk
  have hj' : j < (ps.mergeSort (· ≤ ·)).length := hlt.trans hk'
  rw [orderStat, orderStat, getD_eq_getElem _ _ hj', getD_eq_getElem _ _ hk']
  exact pairwise_iff_getElem.mp hsorted j k hj' hk' hlt

/-! ### The rejection set as a set -/

/-- The order of the p-values does not matter. -/
theorem rejects_perm {ps' : List α} (h : ps'.Perm ps) (a p : α) :
    Rejects ps' a p ↔ Rejects ps a p := by
  have hsort : ps'.mergeSort (· ≤ ·) = ps.mergeSort (· ≤ ·) := by
    have hperm : (ps'.mergeSort (· ≤ ·)).Perm (ps.mergeSort (· ≤ ·)) :=
      ((mergeSort_perm _ _).trans h).trans (mergeSort_perm _ _).symm
    exact hperm.eq_of_pairwise (fun a b _ _ => le_antisymm) (pairwise_mergeSort_le ps')
      (pairwise_mergeSort_le ps)
  simp only [Rejects, Passes, orderStat, hsort, h.length_eq]

variable {a : α}

/-- A p-value is rejected exactly if it is at most that of some rank that passes. -/
theorem rejects_iff {p : α} : Rejects ps a p ↔ ∃ k, Passes ps a k ∧ p ≤ orderStat ps k := by
  constructor
  · rintro ⟨k, hk, hp⟩
    exact ⟨k, hk.1, hp⟩
  · rintro ⟨k, hk, hp⟩
    have hfin : {k | Passes ps a k}.Finite := (Set.finite_lt_nat ps.length).subset fun k hk => hk.1
    obtain ⟨top, htop⟩ := hfin.exists_maximal ⟨k, hk⟩
    have hgreatest : IsGreatest {k | Passes ps a k} top := by
      refine ⟨htop.1, fun j hj => ?_⟩
      by_contra hlt
      exact hlt (htop.2 hj (le_of_not_ge hlt))
    exact ⟨top, hgreatest, hp.trans (orderStat_mono ps (hgreatest.2 hk) htop.1.1)⟩

/-! ### Counting p-values -/

/-- A rank is below a bound exactly if more p-values than the rank says are. -/
theorem orderStat_le_iff (hk : k < ps.length) (t : α) :
    orderStat ps k ≤ t ↔ k < ps.countP (· ≤ t) := by
  have hk' : k < (ps.mergeSort (· ≤ ·)).length := by rwa [length_mergeSort]
  rw [orderStat, getD_eq_getElem _ _ hk', getElem_le_iff_lt_countP (pairwise_mergeSort_le ps),
    (mergeSort_perm ps _).countP_eq]

/-- Every p-value has a rank. -/
theorem exists_orderStat_eq {p : α} (hp : p ∈ ps) : ∃ k < ps.length, orderStat ps k = p := by
  obtain ⟨k, hk, rfl⟩ := getElem_of_mem ((mergeSort_perm ps (· ≤ ·)).mem_iff.mpr hp)
  exact ⟨k, by rwa [length_mergeSort] at hk, getD_eq_getElem _ _ hk⟩

/-! ### The walk -/

/-- The walk along a list of hypotheses with their ranks, from the end. -/
def walk (ps : List α) (init : α × List α) (l : List (ℕ × ℕ)) : α × List α :=
  l.foldr (step ps) init

@[simp] theorem length_walk (ps : List α) (init : α × List α) (l : List (ℕ × ℕ)) :
    (walk ps init l).2.length = init.2.length := by
  induction l with
  | nil => rfl
  | cons e l ih => simpa [walk, step] using ih

theorem walk_running (ps : List α) (init : α × List α) (l : List (ℕ × ℕ)) (a : α) :
    (walk ps init l).1 ≤ a ↔ init.1 ≤ a ∨ ∃ e ∈ l, candidate ps e ≤ a := by
  induction l with
  | nil => simp [walk]
  | cons e l ih =>
    have hstep : (walk ps init (e :: l)).1 = min (walk ps init l).1 (candidate ps e) := rfl
    rw [hstep, min_le_iff, ih, exists_mem_cons_iff, or_assoc]
    exact or_congr_right or_comm

/-- The adjusted p-value of a hypothesis is the running minimum when it was passed. -/
theorem walk_adjusted (ps : List α) (init : α × List α) {l : List (ℕ × ℕ)}
    (hnodup : (l.map Prod.fst).Nodup) (hlt : ∀ e ∈ l, e.1 < init.2.length) (a : α)
    (hk : k < l.length) :
    (walk ps init l).2.getD l[k].1 1 ≤ a ↔ init.1 ≤ a ∨ ∃ e ∈ l.drop k, candidate ps e ≤ a := by
  induction l generalizing k with
  | nil => exact absurd hk (not_lt_zero k)
  | cons e l ih =>
    have hset : (walk ps init (e :: l)).2 =
        (walk ps init l).2.set e.1 (walk ps init (e :: l)).1 := rfl
    rw [map_cons, nodup_cons] at hnodup
    cases k with
    | zero =>
      have hlen : e.1 < (walk ps init l).2.length := by
        rw [length_walk]
        exact hlt e mem_cons_self
      rw [getElem_cons_zero, hset, getD_eq_getElem?_getD,
        getElem?_set_self hlen, Option.getD_some, walk_running, drop_zero]
    | succ k =>
      have hk' : k < l.length := lt_of_succ_lt_succ hk
      have hne : e.1 ≠ l[k].1 := fun he =>
        hnodup.1 (he ▸ mem_map_of_mem (getElem_mem hk'))
      rw [getElem_cons_succ, hset, getD_eq_getElem?_getD, getElem?_set_ne hne]
      exact ih hnodup.2 (forall_mem_cons.mp hlt).2 hk'

theorem adjusted_eq_walk (ps : List α) :
    adjusted ps = (walk ps (1, replicate ps.length 1) ((ranking ps).zipIdx 1)).2 := by
  rw [adjusted, foldl_reverse]
  rfl

/-- The adjusted p-value of a rank is the smallest candidate from that rank on, or 1. -/
theorem adjusted_le (ps : List α) (hk : k < (ranking ps).length) (a : α) :
    (adjusted ps).getD (ranking ps)[k] 1 ≤ a ↔ 1 ≤ a ∨
      ∃ j, ∃ hj : j < (ranking ps).length, k ≤ j ∧ candidate ps ((ranking ps)[j], j + 1) ≤ a := by
  have hk' : k < ((ranking ps).zipIdx 1).length := by simpa using hk
  have hnodup : (((ranking ps).zipIdx 1).map Prod.fst).Nodup := by
    rw [zipIdx_map_fst]
    exact (ranking_perm ps).nodup_iff.mpr nodup_range
  have hlt : ∀ e ∈ (ranking ps).zipIdx 1,
      e.1 < ((1 : α), replicate ps.length (1 : α)).2.length := by
    intro e he
    rw [length_replicate]
    exact mem_range.mp ((ranking_perm ps).mem_iff.mp (fst_mem_of_mem_zipIdx he))
  have hwalk := walk_adjusted ps (1, replicate ps.length 1) hnodup hlt a hk'
  rw [getElem_zipIdx, ← adjusted_eq_walk] at hwalk
  refine hwalk.trans (or_congr_right ⟨?_, ?_⟩)
  · rintro ⟨e, he, hle⟩
    obtain ⟨j, hj, rfl⟩ := getElem_of_mem he
    rw [length_drop, length_zipIdx] at hj
    rw [getElem_drop, getElem_zipIdx, add_comm 1] at hle
    exact ⟨k + j, by omega, le_add_right k j, hle⟩
  · rintro ⟨j, hj, hkj, hle⟩
    have hat : (((ranking ps).zipIdx 1).drop k)[j - k]? = some ((ranking ps)[j], j + 1) := by
      rw [getElem?_drop, Nat.add_sub_cancel' hkj, getElem?_zipIdx,
        getElem?_eq_getElem hj, add_comm 1]
      rfl
    exact ⟨_, mem_of_getElem? hat, hle⟩

theorem exists_ranking_eq {i : ℕ} (hi : i < ps.length) :
    ∃ k, ∃ hk : k < (ranking ps).length, (ranking ps)[k] = i :=
  getElem_of_mem ((ranking_perm ps).mem_iff.mpr (mem_range.mpr hi))

/-! ### Correctness -/

variable [IsStrictOrderedRing α]

/-- A hypothesis is rejected exactly if its p-value is at most some bound below the share of
as many ranks as there are p-values up to that bound. -/
theorem rejects_iff_countP {p : α} (h₀ : 0 ≤ a) (hp : p ∈ ps) :
    Rejects ps a p ↔ ∃ t, p ≤ t ∧ t ≤ (ps.countP (· ≤ t) : ℕ) / (ps.length : α) * a := by
  rw [rejects_iff]
  constructor
  · rintro ⟨k, ⟨hk, hpass⟩, hle⟩
    have hcount : k + 1 ≤ ps.countP (· ≤ orderStat ps k) := (orderStat_le_iff hk _).mp le_rfl
    refine ⟨orderStat ps k, hle, hpass.trans ?_⟩
    gcongr
  · rintro ⟨t, hpt, hshare⟩
    obtain ⟨j, hj, rfl⟩ := exists_orderStat_eq hp
    have hjt := (orderStat_le_iff hj t).mp hpt
    have hle : ps.countP (· ≤ t) ≤ ps.length := countP_le_length
    obtain ⟨k, hk⟩ : ∃ k, ps.countP (· ≤ t) = k + 1 := ⟨ps.countP (· ≤ t) - 1, by omega⟩
    have hklen : k < ps.length := by omega
    have hkt : orderStat ps k ≤ t := (orderStat_le_iff hklen t).mpr (by omega)
    exact ⟨k, ⟨hklen, hkt.trans (hk ▸ hshare)⟩, orderStat_mono ps (by omega) hklen⟩

/-- **A higher level and lower p-values reject more.** -/
theorem rejects_mono {ps' : List α} (h : Forall₂ (· ≤ ·) ps' ps) {a' p p' : α} (h₀ : 0 ≤ a)
    (ha : a ≤ a') (hp : p ∈ ps) (hp' : p' ∈ ps') (hle : p' ≤ p) (hr : Rejects ps a p) :
    Rejects ps' a' p' := by
  obtain ⟨t, hpt, hshare⟩ := (rejects_iff_countP h₀ hp).mp hr
  refine (rejects_iff_countP (h₀.trans ha) hp').mpr ⟨t, hle.trans hpt, hshare.trans ?_⟩
  have hcount : ((ps.countP (· ≤ t) : ℕ) : α) ≤ (ps'.countP (· ≤ t) : ℕ) :=
    cast_le.mpr (countP_le_of_forall₂ h t)
  rw [h.length_eq]
  gcongr

theorem candidate_le_iff (ha : a < 1) (hk : k < (ranking ps).length) :
    candidate ps ((ranking ps)[k], k + 1) ≤ a ↔ Passes ps a k := by
  have hlen : k < ps.length := length_ranking ps ▸ hk
  have hm : (0 : α) < ps.length := by
    rw [cast_pos]
    omega
  have hrank : (0 : α) < (k + 1 : ℕ) := by
    rw [cast_pos]
    omega
  rw [candidate, min_le_iff, or_iff_right (not_le.mpr ha), Passes, and_iff_right hlen,
    getD_ranking ps hk, div_le_iff₀ hrank, div_mul_eq_mul_div, le_div_iff₀ hm, mul_comm a]

/-- **The walk computes the procedure**: below 1, the adjusted p-value of a hypothesis is at
most the level exactly if its p-value is in the rejection set. -/
theorem adjusted_le_iff (h₀ : 0 ≤ a) (ha : a < 1) {i : ℕ} (hi : i < ps.length) :
    (adjusted ps).getD i 1 ≤ a ↔ Rejects ps a (ps.getD i 1) := by
  obtain ⟨k, hk, rfl⟩ := exists_ranking_eq hi
  have hrank : (∃ j, ∃ hj : j < (ranking ps).length, k ≤ j ∧
      candidate ps ((ranking ps)[j], j + 1) ≤ a) ↔ ∃ j, k ≤ j ∧ Passes ps a j := by
    constructor
    · rintro ⟨j, hj, hkj, hle⟩
      exact ⟨j, hkj, (candidate_le_iff ha hj).mp hle⟩
    · rintro ⟨j, hkj, hpass⟩
      have hj : j < (ranking ps).length := by
        rw [length_ranking]
        exact hpass.1
      exact ⟨j, hj, hkj, (candidate_le_iff ha hj).mpr hpass⟩
  rw [adjusted_le ps hk, or_iff_right (not_le.mpr ha), hrank, rejects_iff, getD_ranking ps hk]
  constructor
  · rintro ⟨j, hkj, hpass⟩
    exact ⟨j, hpass, orderStat_mono ps hkj hpass.1⟩
  · rintro ⟨j, hpass, hle⟩
    obtain hkj | hjk := le_total k j
    · exact ⟨j, hkj, hpass⟩
    · -- a lower rank with the same p-value: the higher rank has the larger share
      have hklen : k < ps.length := length_ranking ps ▸ hk
      refine ⟨k, le_rfl, hklen, (hle.trans hpass.2).trans ?_⟩
      gcongr

/-- **Equal p-values have equal adjusted p-values**, whatever their ranks. -/
theorem adjusted_congr (h₀ : ∀ p ∈ ps, 0 ≤ p) {i j : ℕ} (hi : i < ps.length) (hj : j < ps.length)
    (h : ps.getD i 1 = ps.getD j 1) :
    (adjusted ps).getD i 1 = (adjusted ps).getD j 1 := by
  obtain ⟨k, hk, rfl⟩ := exists_ranking_eq hi
  obtain ⟨l, hl, rfl⟩ := exists_ranking_eq hj
  wlog hkl : k ≤ l generalizing k l
  · exact (this l hl hj k hk hi h.symm (le_of_not_ge hkl)).symm
  rw [getD_ranking ps hk, getD_ranking ps hl] at h
  refine eq_of_forall_ge_iff fun a => ?_
  rw [adjusted_le ps hk, adjusted_le ps hl]
  refine or_congr_right ⟨?_, ?_⟩
  · rintro ⟨n, hn, hkn, hle⟩
    obtain hln | hnl := le_total l n
    · exact ⟨n, hn, hln, hle⟩
    -- a rank between the two has the same p-value, and the higher rank the smaller candidate
    refine ⟨l, hl, le_rfl, le_trans (min_le_min_left 1 ?_) hle⟩
    have hllen : l < ps.length := length_ranking ps ▸ hl
    have heq : orderStat ps n = orderStat ps l :=
      le_antisymm (orderStat_mono ps hnl hllen) (h ▸ orderStat_mono ps hkn (hnl.trans_lt hllen))
    have hpos : 0 ≤ orderStat ps l := by
      have hl' : l < (ps.mergeSort (· ≤ ·)).length := by rwa [length_mergeSort]
      rw [orderStat, getD_eq_getElem _ _ hl']
      exact h₀ _ ((mergeSort_perm ps _).mem_iff.mp (getElem_mem hl'))
    simp only [getD_ranking ps hn, getD_ranking ps hl, heq]
    gcongr
  · rintro ⟨n, hn, hln, hle⟩
    exact ⟨n, hn, hkl.trans hln, hle⟩

end StepUp
