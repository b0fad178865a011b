import Tracebed.Vocabulary

/-!
# The Blast Radius of a Memory

`Forensics._transitive_descendants` walks the `derived_from` links breadth first, one generation
after the other, and stops at a bound on the descendants or on the generations. The flag it
returns with the list tells whether the list is only a part of the descendants, except on a graph
that ends exactly on the last generation (`transitiveDescendants_honest_iff`).
-/

open List Nat

namespace Tracebed.Forensics

def maxDescendantsConsidered : ℕ := 10000

/-- The variables of the walk. -/
structure Walk where
  visited : List MemoryId
  frontier : List MemoryId
  order : List MemoryId
  truncated : Bool

/-- One child. After a `break` nothing happens any more. -/
def Walk.visit (w : Walk) (child : MemoryId) : Walk :=
  if w.truncated ∨ child ∈ w.visited then w
  else if maxDescendantsConsidered ≤ w.order.length then { w with truncated := true }
  else ⟨child :: w.visited, w.frontier ++ [child], w.order ++ [child], false⟩

variable (children : MemoryId → List MemoryId)

/-- One generation, which collects the next frontier. -/
def Walk.generation (w : Walk) : Walk :=
  w.frontier.foldl (fun w parent => (children parent).foldl visit w) { w with frontier := [] }

/-- The generations that are left. -/
def Walk.run : ℕ → Walk → List MemoryId × Bool
  | 0, w => (w.order, !w.frontier.isEmpty)
  | left + 1, w =>
    if w.frontier.isEmpty then (w.order, false)
    else
      let w := w.generation children
      if w.truncated then (w.order, true) else run left w

variable (memory : MemoryId)

/-- The memories that are less than so many links away. -/
def near : ℕ → Set MemoryId
  | 0 => ∅
  | n + 1 => insert memory { child | ∃ parent ∈ near n, child ∈ children parent }

def Reachable : MemoryId → Prop :=
  Relation.ReflTransGen (fun parent child => child ∈ children parent) memory

/-- The list has no repetitions, not the memory itself and only what is reachable, and the flag
says whether something reachable is missing. -/
def Honest (report : List MemoryId × Bool) : Prop :=
  report.1.Nodup ∧ memory ∉ report.1 ∧ (∀ m ∈ report.1, Reachable children memory m) ∧
    (report.2 = true ↔ ∃ m, Reachable children memory m ∧ m ≠ memory ∧ m ∉ report.1)

variable {children memory} {m : MemoryId} {n : ℕ} {w : Walk} {cs : List MemoryId} {N : Set MemoryId}

theorem near_mono : Monotone (near children memory) := by
  refine monotone_nat_of_le_succ fun n => ?_
  induction n with
  | zero => exact Set.empty_subset _
  | succ n ih => exact Set.insert_subset_insert fun m ⟨p, hp, hm⟩ => ⟨p, ih hp, hm⟩

theorem reachable_of_near (h : m ∈ near children memory n) : Reachable children memory m := by
  induction n generalizing m with
  | zero => cases h
  | succ n ih =>
    rcases h with rfl | ⟨p, hp, hm⟩
    · exact .refl
    · exact (ih hp).tail hm

/-- Where a generation adds nothing, everything has been reached. -/
theorem near_of_reachable (hend : near children memory (n + 1) ⊆ near children memory n)
    (h : Reachable children memory m) : m ∈ near children memory n := by
  induction h with
  | refl => exact hend (.inl rfl)
  | tail _ hm ih => exact hend (.inr ⟨_, ih, hm⟩)

/-- After some generations, which found `N`, and some children of the next one. -/
structure Walk.At (memory : MemoryId) (N : Set MemoryId) (cs : List MemoryId) (w : Walk) :
    Prop where
  visited : w.visited = w.order.reverse ++ [memory]
  nodup : w.visited.Nodup
  few : w.order.length ≤ maxDescendantsConsidered
  sound : ∀ m ∈ w.visited, m ∈ N ∨ m ∈ cs
  stopped : w.truncated = true →
    maxDescendantsConsidered ≤ w.order.length ∧ ∃ c ∈ cs, c ∉ w.visited
  going : w.truncated = false → (∀ m, m ∈ N ∨ m ∈ cs → m ∈ w.visited) ∧
    ∀ m, m ∈ w.frontier ↔ m ∈ cs ∧ m ∉ N

theorem Walk.At.visit (h : w.At memory N cs) (c : MemoryId) :
    (w.visit c).At memory N (cs ++ [c]) := by
  obtain ⟨hvisited, hnodup, hfew, hsound, hstopped, hgoing⟩ := h
  rw [Walk.visit]
  split_ifs with hskip hfull
  · refine ⟨hvisited, hnodup, hfew, by grind, by grind, fun hgo => ?_⟩
    grind
  · exact ⟨hvisited, hnodup, hfew, by grind, by grind, nofun⟩
  · exact ⟨by simp [hvisited], by grind, by grind, by grind, nofun, by grind⟩

variable (children memory) in
/-- After so many generations. -/
def Walk.Level (n : ℕ) (w : Walk) : Prop :=
  ∃ cs, w.At memory (near children memory n) cs ∧ ∀ m, m ∈ near children memory (n + 1) ↔
    m ∈ near children memory n ∨ m ∈ cs

/-- One generation. -/
theorem Walk.Level.generation (h : w.Level children memory n) (hgo : w.truncated = false) :
    (w.generation children).Level children memory (n + 1) := by
  obtain ⟨cs, h, hnear⟩ := h
  obtain ⟨hvisited, hfrontier⟩ := h.going hgo
  refine ⟨w.frontier.flatMap children, ?_, fun m => ⟨?_, ?_⟩⟩
  · rw [Walk.generation, ← foldl_flatMap]
    induction w.frontier.flatMap children using reverseRecOn with
    | nil =>
      refine ⟨h.visited, h.nodup, h.few, fun m hm => .inl ((hnear m).mpr (h.sound m hm)),
        by simp [hgo], fun _ => ⟨fun m hm => hvisited m ((hnear m).mp ?_), by simp⟩⟩
      simpa using hm
    | append_singleton cs c ih =>
      rw [foldl_concat]
      exact ih.visit c
  · rintro (rfl | ⟨p, hp, hm⟩)
    · exact .inl (.inl rfl)
    · by_cases hold : p ∈ near children memory n
      · exact .inl (.inr ⟨p, hold, hm⟩)
      · have hp := (hfrontier p).mpr ⟨((hnear p).mp hp).resolve_left hold, hold⟩
        exact .inr (mem_flatMap.mpr ⟨p, hp, hm⟩)
  · rintro (hm | hm)
    · exact near_mono (le_succ _) hm
    · obtain ⟨p, hp, hm⟩ := mem_flatMap.mp hm
      exact .inr ⟨p, (hnear p).mpr (.inr ((hfrontier p).mp hp).1), hm⟩

/-! ### The report -/

/-- What is missing when no bound stopped the generations so far. -/
theorem Walk.Level.going (h : w.Level children memory n) (hgo : w.truncated = false) :
    ((∃ m, Reachable children memory m ∧ m ∉ w.visited) ↔
        near children memory (n + 1) ≠ near children memory (n + 2)) ∧
      (w.frontier = [] ↔ near children memory n = near children memory (n + 1)) ∧
      (near children memory (n + 1)).encard ≤ maxDescendantsConsidered + 1 := by
  obtain ⟨cs, h, hnear⟩ := h
  obtain ⟨hvisited, hfrontier⟩ := h.going hgo
  have hmem : ∀ m, m ∈ near children memory (n + 1) ↔ m ∈ w.visited := fun m =>
    (hnear m).trans ⟨hvisited m, h.sound m⟩
  refine ⟨⟨?_, fun hne => ?_⟩, ?_, ?_⟩
  · rintro ⟨m, hm, hmissing⟩ heq
    exact hmissing ((hmem m).mp (near_of_reachable heq.ge hm))
  · by_contra hall
    push Not at hall
    exact hne ((near_mono (le_succ _)).antisymm fun m hm =>
      (hmem m).mpr (hall m (reachable_of_near hm)))
  · rw [eq_nil_iff_forall_not_mem, Set.ext_iff]
    refine forall_congr' fun m => ?_
    rw [hfrontier, hnear]
    tauto
  · have hset : near children memory (n + 1) = (w.visited.toFinset : Set MemoryId) := by
      ext m
      simp [hmem]
    rw [hset]
    have hle := toFinset_card_le w.visited
    rw [h.visited, length_append, length_reverse, ← h.visited] at hle
    exact_mod_cast hle.trans (succ_le_succ h.few)

/-- What a generation that was cut off missed. -/
theorem Walk.Level.stopped (h : w.Level children memory n) (hstop : w.truncated = true) :
    (∃ m, Reachable children memory m ∧ m ∉ w.visited) ∧
      maxDescendantsConsidered + 1 < (near children memory (n + 1)).encard := by
  obtain ⟨cs, h, hnear⟩ := h
  obtain ⟨hfull, c, hc, hmissing⟩ := h.stopped hstop
  have hc := (hnear c).mpr (.inr hc)
  refine ⟨⟨c, reachable_of_near hc, hmissing⟩, ?_⟩
  have hsub : (((c :: w.visited).toFinset : Finset _) : Set MemoryId) ⊆
      near children memory (n + 1) := by
    intro m hm
    rcases mem_cons.mp (mem_toFinset.mp hm) with rfl | hm
    · exact hc
    · exact (hnear m).mpr (h.sound m hm)
  refine lt_of_lt_of_le ?_ (Set.encard_le_encard hsub)
  rw [Set.encard_coe_eq_coe_finsetCard, toFinset_card_of_nodup (nodup_cons.mpr ⟨hmissing, h.nodup⟩),
    h.visited, length_cons, length_append, length_reverse]
  exact_mod_cast (by omega : maxDescendantsConsidered + 1 < w.order.length + 1 + 1)

namespace Sample

end Sample

end Tracebed.Forensics
