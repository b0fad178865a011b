import Tracebed.Lib.CliqueSearch

/-!
# What the Clique Search Cannot Miss

The search of `CliqueSearch` leaves branches out. The pivot rule never loses a clique that is
maximal below its node: such a clique has a member that is not adjacent to the pivot, or the pivot
could be added. The size bound never loses a clique larger than the incumbent. So a search that
was not ended early has found a clique of the largest size (`search_complete`).

A search for two vertices needs no budget of that kind. The first vertex with a neighbour leads
straight down to a maximal clique, and the vertices before it are leaves, which cost no step
(`search_edge`).
-/

open List Bool

namespace Clique

variable {V : Type*} {adj : V → V → Bool}

/-! ### The pivot -/

variable {candidates : List V}

theorem choosePivot_mem {p : V} :
    ∀ {remaining : List V} {best : Option (V × ℕ)},
      choosePivot adj candidates remaining best = some p →
        p ∈ remaining ∨ best.map Prod.fst = some p := by
  intro remaining
  induction remaining with
  | nil => exact fun h => .inr h
  | cons v remaining ih =>
    intro best h
    have hnext : ∀ {d : ℕ}, choosePivot adj candidates remaining (some (v, d)) = some p →
        p ∈ v :: remaining := fun h => by
      rcases ih h with hmem | heq
      · exact mem_cons_of_mem _ hmem
      · exact Option.some.inj heq ▸ mem_cons_self
    match best with
    | none => exact .inl (hnext h)
    | some (q, d) =>
      rw [choosePivot] at h
      split at h
      · exact .inl (hnext h)
      · exact (ih h).imp (mem_cons_of_mem _) id

theorem choosePivot_isSome :
    ∀ {remaining : List V} {best : Option (V × ℕ)},
      choosePivot adj candidates remaining best = none → remaining = [] ∧ best = none := by
  intro remaining
  induction remaining with
  | nil => exact fun h => ⟨rfl, Option.map_eq_none_iff.mp h⟩
  | cons v remaining ih =>
    intro best h
    rcases best with _ | ⟨q, d⟩
    · cases (ih h).2
    · rw [choosePivot] at h
      split at h
      · cases (ih h).2
      · cases (ih h).2

/-! ### Maximal cliques -/

/-- A clique among the candidates that neither a candidate nor an excluded vertex extends. -/
structure Maximal (adj : V → V → Bool) (candidates excluded clique : List V) : Prop where
  subset : ∀ v ∈ clique, v ∈ candidates
  isClique : IsClique adj clique
  blocked : ∀ w, w ∈ candidates ∨ w ∈ excluded → ∃ u ∈ clique, adj w u = false

section Graph

variable {v : V} (hsymm : ∀ a b, adj a b = adj b a) (hirr : ∀ a, adj a a = false)

include hirr in
/-- A vertex is not among its neighbours. -/
theorem length_filter_adj_lt (hv : v ∈ candidates) :
    (candidates.filter (adj v)).length < candidates.length := by
  refine length_filter_lt_length_iff_exists.mpr ⟨v, hv, ?_⟩
  rw [hirr]
  exact false_ne_true

include hirr in
theorem IsClique.nodup {clique : List V} (h : IsClique adj clique) : clique.Nodup :=
  h.imp fun hadj heq => by rw [heq, hirr] at hadj; cases hadj

include hsymm in
theorem IsClique.adj_of_ne {clique : List V} (h : IsClique adj clique) {a b : V}
    (ha : a ∈ clique) (hb : b ∈ clique) (hne : a ≠ b) : adj a b = true := by
  have : Std.Symm fun a b => adj a b = true := ⟨fun a b hab => (hsymm b a).trans hab⟩
  exact List.Pairwise.forall h ha hb hne

variable {excluded : List V}

include hirr in
theorem Maximal.length_le {clique : List V} (h : Maximal adj candidates excluded clique) :
    clique.length ≤ candidates.length :=
  ((h.isClique.nodup hirr).subperm h.subset).length_le

variable {vertices : List V}

include hirr in
theorem IsClique.exists_maximal {clique : List V} (h : IsClique adj clique)
    (hsub : ∀ v ∈ clique, v ∈ vertices) :
    ∃ larger, clique ⊆ larger ∧ Maximal adj vertices [] larger := by
  by_cases hmax : ∀ w ∈ vertices, ∃ u ∈ clique, adj w u = false
  · exact ⟨clique, fun _ hv => hv, hsub, h, fun w hw => hmax w (hw.resolve_right not_mem_nil)⟩
  · push Not at hmax
    obtain ⟨w, hw, hall⟩ := hmax
    have hgrown : IsClique adj (w :: clique) := List.Pairwise.cons
      (fun u hu => (eq_false_or_eq_true _).resolve_right (hall u hu)) h
    have hmem : ∀ u ∈ w :: clique, u ∈ vertices := forall_mem_cons.mpr ⟨hw, hsub⟩
    have hle := ((hgrown.nodup hirr).subperm hmem).length_le
    obtain ⟨larger, hsub', hlarger⟩ := exists_maximal hgrown hmem
    exact ⟨larger, fun u hu => hsub' (mem_cons_of_mem _ hu), hlarger⟩
-- by how many vertices the clique may still grow
termination_by vertices.length - clique.length
decreasing_by
  rw [length_cons] at hle ⊢
  omega

variable [LinearOrder V]

theorem mem_union {s t : List V} : v ∈ union s t ↔ v ∈ s ∨ v ∈ t := by
  induction t with
  | nil => simp [union]
  | cons w t ih =>
    have hcons : union s (w :: t) = (union s t).orderedInsert (· ≤ ·) w := rfl
    rw [hcons, mem_orderedInsert, mem_cons]
    tauto

theorem branchOn_nodup (h : candidates.Nodup) (excluded : List V) :
    (branchOn adj candidates excluded).Nodup := by
  rw [branchOn]
  split
  · exact h
  · exact h.filter _

/-- **The pivot rule.** A maximal clique has a member that the node branches on. -/
theorem Maximal.exists_mem_branchOn {clique : List V} (h : Maximal adj candidates excluded clique)
    (hne : candidates ≠ [] ∨ excluded ≠ []) :
    ∃ v ∈ branchOn adj candidates excluded, v ∈ clique := by
  rw [branchOn]
  split
  · next hpivot =>
    obtain ⟨hunion, -⟩ := choosePivot_isSome hpivot
    obtain ⟨v, hv⟩ : ∃ v, v ∈ candidates ∨ v ∈ excluded := by
      rcases hne with hne | hne <;> obtain ⟨v, hv⟩ := exists_mem_of_ne_nil _ hne <;>
        exact ⟨v, by simp [hv]⟩
    exact absurd (mem_union.mpr hv) (by rw [hunion]; exact not_mem_nil)
  · next p hpivot =>
    have hp : p ∈ union candidates excluded := (choosePivot_mem hpivot).resolve_right (by simp)
    obtain ⟨u, hu, hadj⟩ := h.blocked p (mem_union.mp hp)
    exact ⟨u, mem_filter.mpr ⟨h.subset u hu, by rw [hadj]; rfl⟩, hu⟩

include hsymm hirr in
theorem Maximal.below {clique : List V} (h : Maximal adj candidates excluded clique)
    (hv : v ∈ clique) :
    Maximal adj (candidates.filter (adj v)) (excluded.filter (adj v)) (clique.erase v) where
  subset := fun u hu => by
    obtain ⟨hne, hmem⟩ := ((h.isClique.nodup hirr).mem_erase_iff).mp hu
    exact mem_filter.mpr ⟨h.subset u hmem, h.isClique.adj_of_ne hsymm hv hmem hne.symm⟩
  isClique := h.isClique.sublist erase_sublist
  blocked := fun w hw => by
    have hadj : adj v w = true := by
      rcases hw with hw | hw <;> exact (mem_filter.mp hw).2
    obtain ⟨u, hu, hwu⟩ := h.blocked w (hw.imp mem_of_mem_filter mem_of_mem_filter)
    refine ⟨u, ((h.isClique.nodup hirr).mem_erase_iff).mpr ⟨fun heq => ?_, hu⟩, hwu⟩
    rw [heq, hsymm, hadj] at hwu
    cases hwu

theorem Maximal.exclude {clique : List V} (h : Maximal adj candidates excluded clique)
    (hc : v ∈ candidates) (hv : v ∉ clique) :
    Maximal adj (candidates.filter (· ≠ v)) (union excluded [v]) clique where
  subset := fun u hu =>
    mem_filter.mpr ⟨h.subset u hu, decide_eq_true fun heq => hv (heq ▸ hu)⟩
  isClique := h.isClique
  blocked := fun w hw => by
    refine h.blocked w ?_
    rcases hw with hw | hw
    · exact .inl (mem_of_mem_filter hw)
    · rcases mem_union.mp hw with hw | hw
      · exact .inr hw
      · exact .inl (mem_singleton.mp hw ▸ hc)

/-! ### Completeness -/

/-- What a node that grows a clique of `size` members leaves: the state only grows, the search
stops at the target or beyond the budget, and where it goes on, every clique the node is
answerable for has been counted. -/
structure Answered (target : ℤ) (budget size : ℕ) (owed : List V → Prop) (s : State)
    (r : Bool × State) : Prop where
  best_le : s.best ≤ r.2.best
  steps_le : s.steps ≤ r.2.steps
  stopped : r.1 = true → target ≤ r.2.best ∨ budget < r.2.steps
  counted : r.1 = false → ∀ clique, owed clique → size + clique.length ≤ r.2.best

variable {target : ℤ} {budget fuel size : ℕ} {node : List V → List V → State → Bool × State}

include hsymm hirr in
theorem branches_answered
    (hnode : ∀ candidates excluded s, candidates.Nodup → candidates.length < fuel →
      Answered target budget (size + 1) (Maximal adj candidates excluded) s
        (node candidates excluded s)) :
    ∀ {branch candidates : List V} (excluded : List V) (s : State), candidates.Nodup →
      candidates.length ≤ fuel → branch.Nodup → branch ⊆ candidates →
      Answered target budget size
        (fun clique => Maximal adj candidates excluded clique ∧ ∃ v ∈ branch, v ∈ clique) s
        (branches adj node branch candidates excluded s) := by
  intro branch
  induction branch with
  | nil =>
    intro candidates excluded s _ _ _ _
    exact ⟨le_rfl, le_rfl, by simp [branches], by simp⟩
  | cons v branch ih =>
    intro candidates excluded s hnodup hfuel hbranch hsub
    obtain ⟨hfresh, hbranch⟩ := nodup_cons.mp hbranch
    have hv : v ∈ candidates := hsub mem_cons_self
    have hshort := length_filter_adj_lt hirr hv
    have hchild := hnode (candidates.filter (adj v)) (excluded.filter (adj v)) s
      (hnodup.filter _) (by omega)
    rw [branches]
    split
    · next s' heq =>
      rw [heq] at hchild
      exact ⟨hchild.best_le, hchild.steps_le, hchild.stopped, by simp⟩
    · next s' heq =>
      rw [heq] at hchild
      have hrest := ih (union excluded [v]) s' (hnodup.filter (· ≠ v))
        ((length_filter_le _ _).trans hfuel) hbranch fun u hu =>
          mem_filter.mpr ⟨hsub (mem_cons_of_mem _ hu),
            decide_eq_true fun heq => hfresh (heq ▸ hu)⟩
      refine ⟨hchild.best_le.trans hrest.best_le, hchild.steps_le.trans hrest.steps_le,
        hrest.stopped, ?_⟩
      rintro hgo clique ⟨hmax, w, hw, hclique⟩
      by_cases hmem : v ∈ clique
      · have hlen := hchild.counted rfl _ (hmax.below hsymm hirr hmem)
        rw [length_erase_of_mem hmem] at hlen
        dsimp only at hlen
        have := length_pos_of_mem hmem
        have := hrest.best_le
        omega
      · have hw : w ∈ branch := (mem_cons.mp hw).resolve_left fun heq =>
          hmem (heq ▸ hclique)
        exact hrest.counted hgo clique ⟨hmax.exclude hv hmem, w, hw, hclique⟩

include hsymm hirr in
/-- **Completeness of a search node.** With enough fuel a node answers for every clique that is
maximal below it. -/
theorem expand_answered (candidates excluded : List V) (s : State) (hnodup : candidates.Nodup)
    (hfuel : candidates.length < fuel) :
    Answered target budget size (Maximal adj candidates excluded) s
      (expand adj target budget fuel size candidates excluded s) := by
  induction fuel generalizing size candidates excluded s with
  | zero => exact absurd hfuel (Nat.not_lt_zero _)
  | succ fuel ih =>
    rw [expand]
    split_ifs with hleaf hbudget hbound
    · refine ⟨le_max_left _ _, le_rfl, fun h => .inl (of_decide_eq_true h), ?_⟩
      intro _ clique hmax
      have hlen := hmax.length_le hirr
      rw [hleaf.1, length_nil] at hlen
      have := le_max_right s.best size
      dsimp only
      omega
    · exact ⟨le_rfl, Nat.le_succ _, fun _ => .inr hbudget, by simp⟩
    · refine ⟨le_rfl, Nat.le_succ _, by simp, fun _ clique hmax => ?_⟩
      have := hmax.length_le hirr
      dsimp only
      omega
    · have hbranch : (branchOn adj candidates excluded).Nodup := branchOn_nodup hnodup excluded
      have hloop := branches_answered hsymm hirr (@ih (size + 1)) excluded
        { s with steps := s.steps + 1 } hnodup (Nat.lt_succ_iff.mp hfuel) hbranch
        fun v hv => mem_of_mem_branchOn hv
      refine ⟨hloop.best_le, (Nat.le_succ _).trans hloop.steps_le, hloop.stopped, ?_⟩
      intro hgo clique hmax
      refine hloop.counted hgo clique ⟨hmax, hmax.exists_mem_branchOn ?_⟩
      by_contra hcon
      push Not at hcon
      exact hleaf hcon

include hsymm hirr in
/-- **Completeness of a search.** A search within its budget has reached its target, or no clique
of the vertices is larger than what it reports. -/
theorem search_complete (hnodup : vertices.Nodup)
    (hbudget : (search adj target budget vertices).steps ≤ budget) :
    target ≤ (search adj target budget vertices).best ∨
      ∀ clique, (∀ v ∈ clique, v ∈ vertices) → IsClique adj clique →
        clique.length ≤ (search adj target budget vertices).best := by
  have hroot : Answered target budget 0 (Maximal adj vertices []) ⟨0, 0⟩
      (expand adj target budget (vertices.length + 1) 0 vertices [] ⟨0, 0⟩) :=
    expand_answered hsymm hirr vertices [] ⟨0, 0⟩ hnodup (Nat.lt_succ_self _)
  rcases eq_false_or_eq_true
    (expand adj target budget (vertices.length + 1) 0 vertices [] ⟨0, 0⟩).1 with hstop | hgo
  · exact .inl ((hroot.stopped hstop).resolve_right (not_lt.mpr hbudget))
  · refine .inr fun clique hsub hclique => ?_
    obtain ⟨larger, hle, hmax⟩ := hclique.exists_maximal hirr hsub
    have hcount := hroot.counted hgo larger hmax
    have := ((hclique.nodup hirr).subperm hle).length_le
    rw [Nat.zero_add] at hcount
    exact this.trans hcount

/-! ### A search for an edge -/

variable {s : State}

theorem branches_of_stop {branch : List V}
    (h : (node (candidates.filter (adj v)) (excluded.filter (adj v)) s).1 = true) :
    branches adj node (v :: branch) candidates excluded s =
      node (candidates.filter (adj v)) (excluded.filter (adj v)) s := by
  rw [branches]
  split
  · next s' heq => exact heq.symm
  · next s' heq =>
    rw [heq] at h
    cases h

include hirr in
theorem branchOn_ne_nil (hne : candidates ≠ []) : branchOn adj candidates [] ≠ [] := by
  have hnil : IsClique adj ([] : List V) := List.Pairwise.nil
  have hsub : ∀ v ∈ ([] : List V), v ∈ candidates := nofun
  obtain ⟨clique, -, hmax⟩ := hnil.exists_maximal hirr hsub
  obtain ⟨v, hv, -⟩ := hmax.exists_mem_branchOn (.inl hne)
  exact ne_nil_of_mem hv

include hirr in
/-- **The first branch leads down to a clique.** A node that nothing is excluded from stops at a
leaf, one step for each level. -/
theorem expand_dive (hnodup : candidates.Nodup) (hfuel : candidates.length < fuel)
    (hbest : s.best ≤ size) (hsteps : s.steps + candidates.length ≤ budget)
    (htarget : target ≤ size ∨ target ≤ size + 1 ∧ candidates ≠ []) :
    (expand adj target budget fuel size candidates [] s).1 = true ∧
      target ≤ (expand adj target budget fuel size candidates [] s).2.best := by
  induction fuel generalizing size candidates s with
  | zero => exact absurd hfuel (Nat.not_lt_zero _)
  | succ fuel ih =>
    rw [expand]
    by_cases hleaf : candidates = []
    · have htarget : target ≤ (max s.best size : ℕ) := by
        have := htarget.resolve_right fun h => h.2 hleaf
        omega
      rw [if_pos ⟨hleaf, rfl⟩]
      exact ⟨decide_eq_true htarget, htarget⟩
    · have hpos : 0 < candidates.length := length_pos_iff.mpr hleaf
      rw [if_neg fun h => hleaf h.1, if_neg (by omega), if_neg (by omega)]
      obtain ⟨v, branch, hbranch⟩ := exists_cons_of_ne_nil (branchOn_ne_nil hirr hleaf)
      have hv : v ∈ candidates := mem_of_mem_branchOn (hbranch ▸ mem_cons_self)
      have hshort := length_filter_adj_lt hirr hv
      have hchild := @ih (candidates.filter (adj v)) (size + 1) ⟨s.best, s.steps + 1⟩
        (hnodup.filter _) (by omega) (by dsimp only; omega) (by dsimp only; omega)
        (.inl (by push_cast; omega))
      rw [hbranch, branches_of_stop hchild.1]
      exact hchild

include hsymm hirr in
/-- The loop of the root finds an edge: vertices without a neighbour are leaves, and the first
other one leads down to a clique. -/
theorem branches_edge {branch : List V} (hnodup : candidates.Nodup) (hbranch : branch.Nodup)
    (hsub : branch ⊆ candidates) (hfuel : candidates.length ≤ fuel) (hbest : s.best ≤ 1)
    (hsteps : s.steps + candidates.length ≤ budget)
    (hexcluded : ∀ x ∈ excluded, ∀ c ∈ candidates, adj c x = false)
    (hedge : ∃ v ∈ branch, ∃ w ∈ candidates, adj v w = true) :
    2 ≤ (branches adj (expand adj 2 budget fuel 1) branch candidates excluded s).2.best := by
  induction branch generalizing candidates excluded s with
  | nil =>
    obtain ⟨v, hv, -⟩ := hedge
    cases hv
  | cons v branch ih =>
    obtain ⟨hfresh, hbranch⟩ := nodup_cons.mp hbranch
    have hv : v ∈ candidates := hsub mem_cons_self
    have hnone : excluded.filter (adj v) = [] := filter_eq_nil_iff.mpr fun x hx => by
      rw [hexcluded x hx v hv]
      exact false_ne_true
    have hshort := length_filter_adj_lt hirr hv
    by_cases hisolated : candidates.filter (adj v) = []
    · have halone : ∀ w ∈ candidates, adj v w = false := fun w hw =>
        eq_false_iff.mpr (filter_eq_nil_iff.mp hisolated w hw)
      obtain ⟨fuel, rfl⟩ : ∃ n, fuel = n + 1 := ⟨fuel - 1, by
        have := length_pos_of_mem hv
        omega⟩
      have hleaf : expand adj 2 budget (fuel + 1) 1 [] [] s =
          (false, { s with best := max s.best 1 }) := by
        have hlow : ¬ (2 : ℤ) ≤ (max s.best 1 : ℕ) := by omega
        rw [expand, if_pos ⟨rfl, rfl⟩, decide_eq_false hlow]
      rw [branches, hnone, hisolated, hleaf]
      refine ih (hnodup.filter _) hbranch (fun u hu => ?_)
        ((length_filter_le _ _).trans hfuel) (by dsimp only; omega)
        (le_trans (Nat.add_le_add_left (length_filter_le _ _) _) hsteps)
        (fun x hx c hc => ?_) ?_
      · exact mem_filter.mpr ⟨hsub (mem_cons_of_mem _ hu),
          decide_eq_true fun heq => hfresh (heq ▸ hu)⟩
      · have hc := mem_of_mem_filter hc
        rcases mem_union.mp hx with hx | hx
        · exact hexcluded x hx c hc
        · rw [mem_singleton.mp hx, hsymm]
          exact halone c hc
      · obtain ⟨u, hu, w, hw, hadj⟩ := hedge
        have hne : u ≠ v := fun heq => by
          rw [heq, halone w hw] at hadj
          cases hadj
        have hu : u ∈ branch := (mem_cons.mp hu).resolve_left hne
        refine ⟨u, hu, w, mem_filter.mpr ⟨hw, decide_eq_true fun heq => ?_⟩, hadj⟩
        rw [heq, hsymm, halone u (hsub (mem_cons_of_mem _ hu))] at hadj
        cases hadj
    · have hdive : (expand adj 2 budget fuel 1 (candidates.filter (adj v)) [] s).1 = true ∧
          2 ≤ ((expand adj 2 budget fuel 1 (candidates.filter (adj v)) [] s).2.best : ℤ) :=
        expand_dive hirr (hnodup.filter (adj v)) (by omega) hbest (by omega)
          (.inr ⟨le_rfl, hisolated⟩)
      rw [← hnone] at hdive
      rw [branches_of_stop hdive.1]
      exact_mod_cast hdive.2

include hsymm hirr in
/-- **A search for two finds an edge**, however many vertices without a neighbour it meets before
it: with more steps than vertices the budget does not matter. -/
theorem search_edge (hnodup : vertices.Nodup) (hbudget : vertices.length < budget) {u : V}
    (hu : u ∈ vertices) (hv : v ∈ vertices) (hadj : adj u v = true) :
    2 ≤ (search adj 2 budget vertices).best := by
  have hne : vertices ≠ [] := ne_nil_of_mem hu
  have hpos : 0 < vertices.length := length_pos_of_mem hu
  have hpair : IsClique adj [u, v] := pairwise_pair.mpr hadj
  have hsub : ∀ w ∈ [u, v], w ∈ vertices := by
    rintro w (_ | ⟨_, _ | ⟨_, h⟩⟩)
    · exact hu
    · exact hv
    · cases h
  obtain ⟨clique, hle, hmax⟩ := hpair.exists_maximal hirr hsub
  obtain ⟨w, hw, hclique⟩ := hmax.exists_mem_branchOn (.inl hne)
  have hedge : ∃ other ∈ vertices, adj w other = true := by
    by_cases heq : w = u
    · exact ⟨v, hv, heq ▸ hadj⟩
    · exact ⟨u, hu, hmax.isClique.adj_of_ne hsymm hclique (hle mem_cons_self) heq⟩
  rw [search, expand, if_neg fun h => hne h.1, if_neg (by dsimp only; omega),
    if_neg (by dsimp only; omega)]
  exact branches_edge hsymm hirr hnodup (branchOn_nodup hnodup [])
    (fun v hv => mem_of_mem_branchOn hv) le_rfl (Nat.zero_le _) (by dsimp only; omega)
    (by simp) ⟨w, hw, hedge⟩

end Graph

end Clique
