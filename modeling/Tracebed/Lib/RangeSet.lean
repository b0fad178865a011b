import Mathlib

/-!
# Sets of Numbers as Sorted Ranges

A set of natural numbers stored run-length encoded: closed ranges `[lo, hi]` in increasing
order, with a gap between any two of them. `RangeSet` carries that shape, so every value is
in the one normal form its set has; `ofRanges` is the only way to build one from ranges in
any order. The lemmas about an operation say what it does to the members.
-/

/-- A closed range, `lo` first. -/
abbrev NatRange := ℕ × ℕ

open List

namespace NatRange

/-- A number of one of the ranges. -/
def Covers (rs : List NatRange) (n : ℕ) : Prop := ∃ r ∈ rs, r.1 ≤ n ∧ n ≤ r.2

/-- The order of pairs. -/
def le (a b : NatRange) : Prop := a.1 < b.1 ∨ a.1 = b.1 ∧ a.2 ≤ b.2

instance : DecidableRel le := fun a b => by
  unfold le
  infer_instance

/-- The loop over the sorted ranges, with the range that is still open. -/
def mergeFrom (current : NatRange) : List NatRange → List NatRange
  | [] => [current]
  | r :: rs =>
    if r.1 ≤ current.2 + 1 then mergeFrom (current.1, max current.2 r.2) rs
    else current :: mergeFrom r rs

/-- The ranges sorted, with those that overlap or touch merged. -/
def merge (rs : List NatRange) : List NatRange :=
  match rs.insertionSort le with
  | [] => []
  | r :: rest => mergeFrom r rest

/-- Sorted, apart, and none of them empty. -/
structure Normal (rs : List NatRange) : Prop where
  nonempty : ∀ r ∈ rs, r.1 ≤ r.2
  apart : rs.Pairwise fun a b => a.2 + 1 < b.1

@[simp] theorem covers_nil (n : ℕ) : Covers [] n ↔ False := by simp [Covers]

@[simp] theorem covers_cons (r : NatRange) (rs : List NatRange) (n : ℕ) :
    Covers (r :: rs) n ↔ r.1 ≤ n ∧ n ≤ r.2 ∨ Covers rs n := by
  simp [Covers]

variable {rs : List NatRange} {r : NatRange}

theorem Normal.tail (h : Normal (r :: rs)) : Normal rs :=
  ⟨fun s hs => h.nonempty s (mem_cons_of_mem _ hs), h.apart.tail⟩

/-- Numbers of the later ranges lie beyond the first one. -/
theorem Normal.lt_of_covers {n : ℕ} (h : Normal (r :: rs)) (hn : Covers rs n) : r.2 + 1 < n := by
  obtain ⟨s, hs, hlo, -⟩ := hn
  have := rel_of_pairwise_cons h.apart hs
  omega

/-- **The merging loop** keeps the covered numbers and leaves only ranges that are apart,
none of which starts before the open one. -/
theorem mergeFrom_spec {current : NatRange} (hne : ∀ r ∈ current :: rs, r.1 ≤ r.2)
    (hsorted : (current :: rs).Pairwise fun a b => a.1 ≤ b.1) :
    Normal (mergeFrom current rs) ∧ (∀ r ∈ mergeFrom current rs, current.1 ≤ r.1) ∧
      ∀ n, Covers (mergeFrom current rs) n ↔ Covers (current :: rs) n := by
  induction rs generalizing current with
  | nil =>
    refine ⟨⟨hne, pairwise_singleton _ _⟩, ?_, fun n => Iff.rfl⟩
    intro r hr
    rw [mem_singleton.mp hr]
  | cons r rs ih =>
    have hc : current.1 ≤ current.2 := hne current mem_cons_self
    obtain ⟨hfirst, hrest⟩ := pairwise_cons.mp hsorted
    have hlo : current.1 ≤ r.1 := hfirst r mem_cons_self
    rw [mergeFrom]
    split_ifs with htouch
    · -- the next range extends the open one
      have hne' : ∀ s ∈ (current.1, max current.2 r.2) :: rs, s.1 ≤ s.2 := by
        refine forall_mem_cons.mpr ⟨hc.trans (le_max_left _ _), fun s hs => ?_⟩
        exact hne s (mem_cons_of_mem _ (mem_cons_of_mem _ hs))
      have hsorted' : ((current.1, max current.2 r.2) :: rs).Pairwise fun a b => a.1 ≤ b.1 :=
        pairwise_cons.mpr ⟨(forall_mem_cons.mp hfirst).2, hrest.tail⟩
      obtain ⟨hnormal, hstart, hcovers⟩ := ih hne' hsorted'
      refine ⟨hnormal, hstart, fun n => (hcovers n).trans ?_⟩
      rw [covers_cons, covers_cons, covers_cons, ← or_assoc]
      refine or_congr_left ⟨fun h => ?_, fun h => ?_⟩
      · obtain ⟨h1, h2⟩ : current.1 ≤ n ∧ n ≤ max current.2 r.2 := h
        rcases le_max_iff.mp h2 with h2 | h2
        · exact .inl ⟨h1, h2⟩
        · omega
      · have : n ≤ max current.2 r.2 := by
          omega
        exact ⟨by omega, this⟩
    · -- a gap closes the open range
      obtain ⟨hnormal, hstart, hcovers⟩ := ih (forall_mem_cons.mp hne).2 hrest
      refine ⟨⟨?_, ?_⟩, ?_, ?_⟩
      · exact forall_mem_cons.mpr ⟨hc, hnormal.nonempty⟩
      · refine pairwise_cons.mpr ⟨fun s hs => ?_, hnormal.apart⟩
        have := hstart s hs
        omega
      · exact forall_mem_cons.mpr ⟨le_rfl, fun s hs => hlo.trans (hstart s hs)⟩
      · intro n
        rw [covers_cons, covers_cons, hcovers]

instance : Std.Total (α := NatRange) le := ⟨fun a b => by unfold le; omega⟩

instance : IsTrans NatRange le := ⟨fun a b c => by unfold le; omega⟩

theorem merge_spec (hne : ∀ r ∈ rs, r.1 ≤ r.2) :
    Normal (merge rs) ∧ ∀ n, Covers (merge rs) n ↔ Covers rs n := by
  have hperm := perm_insertionSort le rs
  have hcovers : ∀ n, Covers (rs.insertionSort le) n ↔ Covers rs n := by
    intro n
    constructor
    · rintro ⟨r, hr, h⟩
      exact ⟨r, hperm.mem_iff.mp hr, h⟩
    · rintro ⟨r, hr, h⟩
      exact ⟨r, hperm.mem_iff.mpr hr, h⟩
  have hsorted : (rs.insertionSort le).Pairwise fun a b => a.1 ≤ b.1 := by
    refine (pairwise_insertionSort le rs).imp ?_
    rintro a b (h | ⟨h, -⟩)
    · exact h.le
    · exact h.le
  rw [merge]
  split
  · next hnil =>
    refine ⟨⟨by simp, List.Pairwise.nil⟩, fun n => ?_⟩
    rw [← hcovers n, hnil]
  · next r rest hcons =>
    rw [hcons] at hsorted hcovers
    have hne' : ∀ s ∈ r :: rest, s.1 ≤ s.2 := fun s hs =>
      hne s (hperm.mem_iff.mp (hcons ▸ hs))
    obtain ⟨hnormal, -, hmerge⟩ := mergeFrom_spec hne' hsorted
    exact ⟨hnormal, fun n => (hmerge n).trans (hcovers n)⟩

theorem merge_of_normal (h : Normal rs) : merge rs = rs := by
  have hsorted : rs.Pairwise le := by
    refine h.apart.imp_of_mem fun {a b} ha _ hab => ?_
    have := h.nonempty a ha
    exact .inl (by omega)
  have hloop : ∀ {current : NatRange} {rest : List NatRange}, Normal (current :: rest) →
      mergeFrom current rest = current :: rest := by
    intro current rest hn
    induction rest generalizing current with
    | nil => rfl
    | cons r rest ih =>
      have hgap := rel_of_pairwise_cons hn.apart mem_cons_self
      rw [mergeFrom, if_neg (by omega), ih hn.tail]
  rw [merge, List.Pairwise.insertionSort_eq hsorted]
  cases rs with
  | nil => rfl
  | cons r rest => exact hloop h

end NatRange

open NatRange

/-- A set of numbers in its normal form. -/
structure RangeSet where
  ranges : List NatRange
  normal : Normal ranges

namespace RangeSet

instance : Membership ℕ RangeSet := ⟨fun s n => Covers s.ranges n⟩

variable {s : RangeSet} {n : ℕ}

theorem mem_def : n ∈ s ↔ Covers s.ranges n := Iff.rfl

def empty : RangeSet := ⟨[], ⟨by simp, List.Pairwise.nil⟩⟩

/-- The set of ranges in any order, none of them empty. -/
def ofRanges (rs : List NatRange) (h : ∀ r ∈ rs, r.1 ≤ r.2) : RangeSet :=
  ⟨merge rs, (merge_spec h).1⟩

/-- The set with further members. -/
def extend (s : RangeSet) (ns : List ℕ) : RangeSet :=
  ofRanges (s.ranges ++ ns.map fun n => (n, n)) fun r hr => by
    rcases mem_append.mp hr with hr | hr
    · exact s.normal.nonempty r hr
    · obtain ⟨n, -, rfl⟩ := mem_map.mp hr
      exact le_rfl

/-- Membership by search: the last range that starts no later than `n` is the only one that
can hold it. On sorted starts its index is `bisect_right(starts, n) - 1`. -/
def contains (s : RangeSet) (n : ℕ) : Bool :=
  match (s.ranges.takeWhile fun r => r.1 ≤ n).getLast? with
  | none => false
  | some r => n ≤ r.2

/-- The number of members up to `e`, from the ranges alone. -/
def countUpto (s : RangeSet) (e : ℕ) : ℕ :=
  ((s.ranges.filter fun r => r.1 ≤ e).map fun r => min r.2 e - r.1 + 1).sum

/-- Whether the last range ends beyond `e`. -/
def hasAbove (s : RangeSet) (e : ℕ) : Bool :=
  match s.ranges.getLast? with
  | none => false
  | some r => e < r.2

@[simp] theorem not_mem_empty (n : ℕ) : n ∉ empty := by simp [mem_def, empty]

@[simp] theorem mem_ofRanges {rs : List NatRange} {h : ∀ r ∈ rs, r.1 ≤ r.2} :
    n ∈ ofRanges rs h ↔ Covers rs n := (merge_spec h).2 n

@[simp] theorem mem_extend {ns : List ℕ} : n ∈ s.extend ns ↔ n ∈ s ∨ n ∈ ns := by
  rw [extend, mem_ofRanges]
  constructor
  · rintro ⟨r, hr, hlo, hhi⟩
    rcases mem_append.mp hr with hr | hr
    · exact .inl ⟨r, hr, hlo, hhi⟩
    · obtain ⟨m, hm, rfl⟩ := mem_map.mp hr
      obtain rfl : m = n := le_antisymm hlo hhi
      exact .inr hm
  · rintro (⟨r, hr, h⟩ | hn)
    · exact ⟨r, mem_append_left _ hr, h⟩
    · exact ⟨(n, n), mem_append_right _ (mem_map_of_mem hn), le_rfl, le_rfl⟩

theorem ofRanges_ranges (s : RangeSet) : ofRanges s.ranges s.normal.nonempty = s := by
  obtain ⟨rs, h⟩ := s
  simp only [ofRanges, merge_of_normal h]

/-- **The search decides membership.** -/
theorem contains_iff : s.contains n = true ↔ n ∈ s := by
  obtain ⟨rs, hrs⟩ := s
  rw [contains, mem_def]
  induction rs with
  | nil => simp
  | cons r rs ih =>
    have ih := ih hrs.tail
    rw [takeWhile_cons]
    by_cases hlo : r.1 ≤ n
    · rw [decide_eq_true hlo, if_pos rfl, getLast?_cons]
      cases hlast : (rs.takeWhile fun r => decide (r.1 ≤ n)).getLast? with
      | none =>
        -- no later range starts by `n`, so none of them covers it
        rw [hlast] at ih
        simp only [Bool.false_eq_true, false_iff] at ih
        simp [ih, hlo]
      | some r' =>
        rw [hlast] at ih
        have hmem : r' ∈ rs := (List.takeWhile_prefix _).subset (mem_of_getLast? hlast)
        have hstart : r'.1 ≤ n := by
          simpa using mem_takeWhile_imp (mem_of_getLast? hlast)
        have hgap := rel_of_pairwise_cons hrs.apart hmem
        have hbeyond : ¬ n ≤ r.2 := by omega
        simpa [hbeyond] using ih
    · have hnone : ¬ Covers rs n := by
        intro hcov
        have := hrs.lt_of_covers hcov
        have := hrs.nonempty r mem_cons_self
        omega
      simp [hlo, hnone]

/-- **The last range decides** whether a member exceeds a bound. -/
theorem hasAbove_iff {e : ℕ} : s.hasAbove e = true ↔ ∃ n ∈ s, e < n := by
  obtain ⟨rs, hrs⟩ := s
  rw [hasAbove]
  simp only [mem_def]
  cases hlast : rs.getLast? with
  | none =>
    obtain rfl : rs = [] := getLast?_eq_none_iff.mp hlast
    simp
  | some r =>
    obtain ⟨front, rfl⟩ := getLast?_eq_some_iff.mp hlast
    have hr : r.1 ≤ r.2 := hrs.nonempty r (by simp)
    simp only [decide_eq_true_eq]
    constructor
    · intro h
      exact ⟨r.2, ⟨r, by simp, hr, le_rfl⟩, h⟩
    · rintro ⟨n, ⟨r', hr', hlo, hhi⟩, hn⟩
      rcases mem_append.mp hr' with hfront | hsame
      · have hgap : r'.2 + 1 < r.1 :=
          (pairwise_append.mp hrs.apart).2.2 r' hfront r mem_cons_self
        omega
      · rw [mem_singleton.mp hsame] at hhi
        omega

/-- The count is the number of members among the numbers up to `e`. -/
theorem countUpto_eq_card (s : RangeSet) (e : ℕ) [DecidablePred (· ∈ s)] :
    s.countUpto e = ((Finset.range (e + 1)).filter (· ∈ s)).card := by
  classical
  obtain ⟨rs, hrs⟩ := s
  rw [countUpto]
  simp only [mem_def]
  induction rs with
  | nil => simp
  | cons r rs ih =>
    have ih := ih hrs.tail
    have hr : r.1 ≤ r.2 := hrs.nonempty r mem_cons_self
    have hsplit : (Finset.range (e + 1)).filter (Covers (r :: rs)) =
        (if r.1 ≤ e then Finset.Icc r.1 (min r.2 e) else ∅) ∪
          (Finset.range (e + 1)).filter (Covers rs) := by
      ext n
      by_cases hle : r.1 ≤ e
      · simp only [Finset.mem_filter, Finset.mem_range, covers_cons, if_pos hle,
          Finset.mem_union, Finset.mem_Icc, le_min_iff]
        constructor
        · rintro ⟨hn, h | h⟩
          · exact .inl ⟨h.1, h.2, by omega⟩
          · exact .inr ⟨hn, h⟩
        · rintro (⟨h1, h2, h3⟩ | ⟨hn, h⟩)
          · exact ⟨by omega, .inl ⟨h1, h2⟩⟩
          · exact ⟨hn, .inr h⟩
      · simp only [Finset.mem_filter, Finset.mem_range, covers_cons, if_neg hle,
          Finset.mem_union, Finset.notMem_empty, false_or]
        constructor
        · rintro ⟨hn, h | h⟩
          · omega
          · exact ⟨hn, h⟩
        · rintro ⟨hn, h⟩
          exact ⟨hn, .inr h⟩
    have hdisj : Disjoint (if r.1 ≤ e then Finset.Icc r.1 (min r.2 e) else ∅)
        ((Finset.range (e + 1)).filter (Covers rs)) := by
      rw [Finset.disjoint_right]
      intro n hn hmem
      have hbeyond := hrs.lt_of_covers (Finset.mem_filter.mp hn).2
      split_ifs at hmem with hle
      · have := (Finset.mem_Icc.mp hmem).2
        omega
      · cases hmem
    rw [hsplit, Finset.card_union_of_disjoint hdisj, ← ih, filter_cons]
    by_cases hle : r.1 ≤ e
    · simp only [hle, decide_true, if_true, map_cons, sum_cons, Nat.card_Icc]
      omega
    · simp [hle]

/-- **Completeness by counting.** -/
theorem countUpto_eq_succ_iff {e : ℕ} : s.countUpto e = e + 1 ↔ ∀ n ≤ e, n ∈ s := by
  classical
  rw [countUpto_eq_card]
  constructor
  · intro h n hn
    have hfull : (Finset.range (e + 1)).filter (· ∈ s) = Finset.range (e + 1) :=
      Finset.eq_of_subset_of_card_le (Finset.filter_subset _ _) (by
        rw [h, Finset.card_range])
    have hmem : n ∈ (Finset.range (e + 1)).filter (· ∈ s) := by
      rw [hfull, Finset.mem_range]
      omega
    exact (Finset.mem_filter.mp hmem).2
  · intro h
    have hfull : (Finset.range (e + 1)).filter (· ∈ s) = Finset.range (e + 1) :=
      Finset.filter_true_of_mem fun n hn => h n (by
        have := Finset.mem_range.mp hn
        omega)
    rw [hfull, Finset.card_range]

theorem ranges_of_initial (h : ∀ k, k ∈ s ↔ k ≤ n) : s.ranges = [(0, n)] := by
  obtain ⟨ranges, hnormal⟩ := s
  have hcovers : ∀ k, Covers ranges k ↔ k ≤ n := h
  cases ranges with
  | nil => exact absurd ((hcovers 0).mpr (Nat.zero_le n)) (by simp)
  | cons r rest =>
    have hfirst := hnormal.nonempty r mem_cons_self
    have hstart : r.1 = 0 := by
      rcases (covers_cons r rest 0).mp ((hcovers 0).mpr (Nat.zero_le n)) with hin | hin
      · omega
      · have := hnormal.lt_of_covers hin
        omega
    have hend : r.2 ≤ n := (hcovers r.2).mp ((covers_cons r rest r.2).mpr (.inl ⟨hfirst, le_rfl⟩))
    have hmiss : ¬Covers (r :: rest) (r.2 + 1) := by
      intro hin
      rcases (covers_cons r rest _).mp hin with hin | hin
      · omega
      · have := hnormal.lt_of_covers hin
        omega
    have hlast : r.2 = n := by
      by_contra hne
      exact hmiss ((hcovers _).mpr (by omega))
    have hrest : rest = [] := by
      cases rest with
      | nil => rfl
      | cons q rest =>
        have hq := hnormal.tail.nonempty q mem_cons_self
        have hcov : Covers (q :: rest) q.1 := (covers_cons q rest _).mpr (.inl ⟨le_rfl, hq⟩)
        have hgap := hnormal.lt_of_covers hcov
        have hle := (hcovers q.1).mp ((covers_cons r _ _).mpr (.inr hcov))
        omega
    exact cons_eq_cons.mpr ⟨Prod.ext hstart hlast, hrest⟩

end RangeSet
