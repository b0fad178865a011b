import Mathlib

/-!
# Stable Sorting by a Key

`sortByKey key l` is `sorted(enumerate(l), key=(key, index))` without the indices. Lists with the
same elements of each key, in their order, have the same sort (`sortByKey_eq_of_filter_eq`), so a
rearrangement that moves no two elements of one key past each other does not show.
-/

open List

namespace StableSort

variable {α κ : Type*} [LinearOrder κ] (key : α → κ)

/-- An element before another one: by its key, then by its place. -/
def comesBefore (a b : α × ℕ) : Prop := key a.1 < key b.1 ∨ key a.1 = key b.1 ∧ a.2 ≤ b.2

instance : DecidableRel (comesBefore key) := fun a b =>
  inferInstanceAs (Decidable (key a.1 < key b.1 ∨ key a.1 = key b.1 ∧ a.2 ≤ b.2))

instance : Std.Total (comesBefore key) where
  total a b := by
    rcases lt_trichotomy (key a.1) (key b.1) with h | h | h
    · exact .inl (.inl h)
    · exact (le_total a.2 b.2).imp (fun hle => .inr ⟨h, hle⟩) fun hle => .inr ⟨h.symm, hle⟩
    · exact .inr (.inl h)

instance : IsTrans (α × ℕ) (comesBefore key) where
  trans a b c hab hbc := by
    rcases hab with hab | ⟨hab, hle⟩ <;> rcases hbc with hbc | ⟨hbc, hle'⟩
    · exact .inl (hab.trans hbc)
    · exact .inl (hbc ▸ hab)
    · exact .inl (hab ▸ hbc)
    · exact .inr ⟨hab.trans hbc, hle.trans hle'⟩

/-- The elements in the order of their keys, those of one key in the order of the list. -/
def sortByKey (l : List α) : List α := (l.zipIdx.insertionSort (comesBefore key)).map Prod.fst

variable {key} {l l' : List α}

theorem perm_sortByKey (l : List α) : (sortByKey key l).Perm l := by
  have h := (perm_insertionSort (comesBefore key) l.zipIdx).map Prod.fst
  rwa [zipIdx_map_fst] at h

theorem mem_sortByKey {a : α} : a ∈ sortByKey key l ↔ a ∈ l := (perm_sortByKey l).mem_iff

theorem pairwise_sortByKey (l : List α) : (sortByKey key l).Pairwise fun a b => key a ≤ key b := by
  refine pairwise_map.mpr ?_
  refine (pairwise_insertionSort (comesBefore key) l.zipIdx).imp fun h => ?_
  exact h.elim le_of_lt fun h => h.1.le

/-- The places of a list increase. -/
theorem pairwise_zipIdx (l : List α) (n : ℕ) : (l.zipIdx n).Pairwise fun a b => a.2 < b.2 := by
  have h : ((l.zipIdx n).map Prod.snd).Pairwise (· < ·) := by
    rw [zipIdx_map_snd]
    exact pairwise_lt_range'
  exact pairwise_map.mp h

/-- **Sorting keeps the elements of one key in their order.** -/
theorem filter_sortByKey (l : List α) (k : κ) :
    (sortByKey key l).filter (fun a => key a = k) = l.filter fun a => key a = k := by
  have hperm := ((perm_insertionSort (comesBefore key) l.zipIdx).filter
    fun a => decide (key a.1 = k))
  have hsorted : ((l.zipIdx.insertionSort (comesBefore key)).filter
      fun a => decide (key a.1 = k)).Pairwise fun a b => a.2 ≤ b.2 := by
    rw [pairwise_filter]
    refine (pairwise_insertionSort (comesBefore key) l.zipIdx).imp fun h ha hb => ?_
    have hab := (of_decide_eq_true ha).trans (of_decide_eq_true hb).symm
    exact h.elim (fun hlt => absurd hab hlt.ne) And.right
  have hplaces : (l.zipIdx.filter fun a => decide (key a.1 = k)).Pairwise
      fun a b => a.2 < b.2 := (pairwise_zipIdx l 0).filter _
  have hnodup := (pairwise_map.mpr (hplaces.imp fun h => Nat.ne_of_lt h) :
    ((l.zipIdx.filter fun a => decide (key a.1 = k)).map Prod.snd).Pairwise (· ≠ ·))
  have heq : (l.zipIdx.insertionSort (comesBefore key)).filter (fun a => decide (key a.1 = k)) =
      l.zipIdx.filter fun a => decide (key a.1 = k) := by
    refine List.Perm.eq_of_pairwise (fun a b ha hb hab hba => ?_) hsorted
      (hplaces.imp fun h => Nat.le_of_lt h) hperm
    exact inj_on_of_nodup_map hnodup (hperm.mem_iff.mp ha) hb (le_antisymm hab hba)
  rw [sortByKey, filter_map]
  have hmap := congrArg (List.map Prod.fst) heq
  refine hmap.trans ?_
  conv_rhs => rw [← zipIdx_map_fst 0 l, filter_map]
  rfl

/-- Sorted lists with the same elements of each key are the same. -/
theorem eq_of_filter_eq (hl : l.Pairwise fun a b => key a ≤ key b)
    (hl' : l'.Pairwise fun a b => key a ≤ key b)
    (h : ∀ k, l.filter (fun a => key a = k) = l'.filter fun a => key a = k) : l = l' := by
  have hmem : ∀ a, a ∈ l ↔ a ∈ l' := by
    intro a
    have := congrArg (a ∈ ·) (h (key a))
    simpa using this
  induction l generalizing l' with
  | nil =>
    refine (eq_nil_iff_forall_not_mem.mpr fun a ha => ?_).symm
    exact not_mem_nil ((hmem a).mpr ha)
  | cons a t ih =>
    match l' with
    | [] => exact absurd ((hmem a).mp mem_cons_self) not_mem_nil
    | b :: t' =>
      obtain ⟨ha, ht⟩ := pairwise_cons.mp hl
      obtain ⟨hb, ht'⟩ := pairwise_cons.mp hl'
      have hkey : key a = key b := by
        refine le_antisymm ?_ ?_
        · rcases mem_cons.mp ((hmem b).mpr mem_cons_self) with rfl | hmem'
          · rfl
          · exact ha b hmem'
        · rcases mem_cons.mp ((hmem a).mp mem_cons_self) with rfl | hmem'
          · rfl
          · exact hb a hmem'
      have hhead := h (key a)
      rw [filter_cons_of_pos (by simp), filter_cons_of_pos (by simp [hkey])] at hhead
      obtain rfl := (List.cons.inj hhead).1
      have htail : ∀ k, t.filter (fun c => key c = k) = t'.filter fun c => key c = k := by
        intro k
        have hk := h k
        rw [filter_cons, filter_cons] at hk
        split at hk
        · exact (List.cons.inj hk).2
        · exact hk
      rw [ih ht ht' htail fun c => by simpa using congrArg (c ∈ ·) (htail (key c))]

/-- **Lists with the same elements of each key sort the same.** -/
theorem sortByKey_eq_of_filter_eq
    (h : ∀ k, l.filter (fun a => key a = k) = l'.filter fun a => key a = k) :
    sortByKey key l = sortByKey key l' :=
  eq_of_filter_eq (pairwise_sortByKey l) (pairwise_sortByKey l') fun k => by
    rw [filter_sortByKey, filter_sortByKey, h]

/-- Such lists are rearrangements of each other. -/
theorem perm_of_filter_eq
    (h : ∀ k, l.filter (fun a => key a = k) = l'.filter fun a => key a = k) : l.Perm l' :=
  (perm_sortByKey l).symm.trans ((sortByKey_eq_of_filter_eq h) ▸ perm_sortByKey l')

end StableSort
