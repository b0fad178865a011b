import Mathlib

/-!
# Bounded Maximum-Clique Search

Bron–Kerbosch with pivoting, a target size at which the search stops, and a step budget
after which it gives up. A set of vertices is its ascending list, so that "the lowest set
bit" of a bit-mask implementation is the head of the list. Whatever the target and the budget,
the best size recorded is the size of some clique (`search_sound`).

`expand` recurses on a fuel that bounds its depth; each level passes to the next only neighbours
of the vertex it chose, so a fuel above the number of candidates is never used up.
-/

namespace Clique

variable {V : Type*} (adj : V → V → Bool)

/-- The running state of a search: the best clique size so far and the steps taken. -/
structure State where
  best : ℕ
  steps : ℕ

/-- The vertices of `l` are pairwise adjacent. -/
def IsClique (l : List V) : Prop := l.Pairwise fun a b => adj a b = true

variable [LinearOrder V]

/-- The number of candidates adjacent to `v`. -/
def degree (candidates : List V) (v : V) : ℕ :=
  (candidates.filter (adj v)).length

/-- The first vertex of `remaining` with the greatest degree, given the best so far. -/
def choosePivot (adj : V → V → Bool) (candidates : List V) :
    List V → Option (V × ℕ) → Option V
  | [], best => best.map Prod.fst
  | v :: remaining, none =>
    choosePivot adj candidates remaining (some (v, degree adj candidates v))
  | v :: remaining, some (p, d) =>
    if d < degree adj candidates v then
      choosePivot adj candidates remaining (some (v, degree adj candidates v))
    else
      choosePivot adj candidates remaining (some (p, d))

/-- The union of two disjoint ascending lists. -/
def union (s t : List V) : List V := t.foldr (List.orderedInsert (· ≤ ·)) s

/-- The candidates a search node branches on: those not adjacent to the pivot. -/
def branchOn (adj : V → V → Bool) (candidates excluded : List V) : List V :=
  match choosePivot adj candidates (union candidates excluded) none with
  | none => candidates
  | some p => candidates.filter fun v => !adj p v

/-- The loop over the branch vertices of one search node. `node` is the recursive call;
after it returns, the vertex moves from the candidates to the excluded ones. -/
def branches (adj : V → V → Bool) (node : List V → List V → State → Bool × State) :
    List V → List V → List V → State → Bool × State
  | [], _, _, s => (false, s)
  | v :: branch, candidates, excluded, s =>
    match node (candidates.filter (adj v)) (excluded.filter (adj v)) s with
    | (true, s') => (true, s')
    | (false, s') =>
      branches adj node branch (candidates.filter (· ≠ v))
        (union excluded [v]) s'

/-- One search node. The result says whether the whole search is to stop. -/
def expand (adj : V → V → Bool) (target : ℤ) (budget : ℕ) :
    ℕ → ℕ → List V → List V → State → Bool × State
  | 0, _, _, _, s => (false, s)
  | fuel + 1, size, candidates, excluded, s =>
    if candidates = [] ∧ excluded = [] then
      (decide (target ≤ (max s.best size : ℕ)), { s with best := max s.best size })
    else if budget < s.steps + 1 then
      (true, { s with steps := s.steps + 1 })
    else if size + candidates.length ≤ s.best then
      (false, { s with steps := s.steps + 1 })
    else
      branches adj (expand adj target budget fuel (size + 1))
        (branchOn adj candidates excluded) candidates excluded
        { s with steps := s.steps + 1 }

/-- A whole search over the ascending list of all vertices. -/
def search (adj : V → V → Bool) (target : ℤ) (budget : ℕ) (vertices : List V) : State :=
  (expand adj target budget (vertices.length + 1) 0 vertices [] ⟨0, 0⟩).2

/-! ### Soundness -/

/-- Some clique of vertices of `univ` has exactly `n` members. -/
def Witnessed (univ : List V) (n : ℕ) : Prop :=
  ∃ l : List V, (∀ v ∈ l, v ∈ univ) ∧ IsClique adj l ∧ l.length = n

variable {adj : V → V → Bool} {univ : List V}

omit [LinearOrder V] in
/-- The empty clique. -/
theorem witnessed_zero : Witnessed adj univ 0 :=
  ⟨[], by simp, List.Pairwise.nil, rfl⟩

variable {v : V}

theorem mem_of_mem_branchOn {candidates excluded : List V}
    (h : v ∈ branchOn adj candidates excluded) : v ∈ candidates := by
  unfold branchOn at h
  split at h
  · exact h
  · exact List.mem_of_mem_filter h

/-- The clique being grown at a search node: its members are vertices, pairwise adjacent,
and adjacent to everything that may still be added. -/
structure Partial (adj : V → V → Bool) (univ r candidates : List V) : Prop where
  mem_univ : ∀ v ∈ r, v ∈ univ
  clique : IsClique adj r
  cand_univ : ∀ c ∈ candidates, c ∈ univ
  link : ∀ c ∈ candidates, ∀ u ∈ r, adj c u = true

omit [LinearOrder V] in
theorem Partial.cons (hsymm : ∀ a b, adj a b = adj b a) {r candidates : List V}
    (h : Partial adj univ r candidates) (hv : v ∈ univ) (hlink : ∀ u ∈ r, adj v u = true) :
    Partial adj univ (v :: r) (candidates.filter (adj v)) where
  mem_univ := by
    rintro u (_ | ⟨_, hu⟩)
    · exact hv
    · exact h.mem_univ u hu
  clique := List.Pairwise.cons hlink h.clique
  cand_univ := fun c hc => h.cand_univ c (List.mem_of_mem_filter hc)
  link := by
    intro c hc u hu
    obtain ⟨hc, hvc⟩ := List.mem_filter.mp hc
    rcases List.mem_cons.mp hu with rfl | hu
    · rw [hsymm, hvc]
    · exact h.link c hc u hu

/-- The branch loop keeps the recorded size witnessed when its recursive calls do. -/
theorem branches_sound (hsymm : ∀ a b, adj a b = adj b a) {r : List V}
    {node : List V → List V → State → Bool × State}
    (hnode : ∀ v c x s, Partial adj univ (v :: r) c → Witnessed adj univ s.best →
      Witnessed adj univ (node c x s).2.best) :
    ∀ (branch candidates excluded : List V) (s : State),
      (∀ v ∈ branch, v ∈ univ ∧ ∀ u ∈ r, adj v u = true) →
      Partial adj univ r candidates → Witnessed adj univ s.best →
      Witnessed adj univ (branches adj node branch candidates excluded s).2.best := by
  intro branch
  induction branch with
  | nil =>
    intro candidates excluded s _ _ hs
    exact hs
  | cons v branch ih =>
    intro candidates excluded s hbranch hpart hs
    obtain ⟨hv, hlink⟩ := hbranch v List.mem_cons_self
    have hrec := hnode v _ (excluded.filter (adj v)) s (hpart.cons hsymm hv hlink) hs
    unfold branches
    split
    next s' heq =>
      rw [heq] at hrec
      exact hrec
    next s' heq =>
      rw [heq] at hrec
      exact ih _ _ s' (List.forall_mem_cons.mp hbranch).2
        ⟨hpart.mem_univ, hpart.clique, fun c hc => hpart.cand_univ c (List.mem_of_mem_filter hc),
          fun c hc => hpart.link c (List.mem_of_mem_filter hc)⟩ hrec

/-- **Soundness of a search node.** If the clique grown so far is partial for the
candidates, the best size recorded after the node is the size of some clique. -/
theorem expand_sound (hsymm : ∀ a b, adj a b = adj b a) (target : ℤ) (budget : ℕ) :
    ∀ (fuel : ℕ) (r candidates excluded : List V) (s : State),
      Partial adj univ r candidates → Witnessed adj univ s.best →
      Witnessed adj univ (expand adj target budget fuel r.length candidates excluded s).2.best := by
  intro fuel
  induction fuel with
  | zero =>
    intro r candidates excluded s _ hs
    exact hs
  | succ fuel ih =>
    intro r candidates excluded s hpart hs
    unfold expand
    split_ifs
    · -- a leaf: the grown clique itself is the witness when it is the larger one
      rcases le_total s.best r.length with hle | hle
      · rw [max_eq_right hle]
        exact ⟨r, hpart.mem_univ, hpart.clique, rfl⟩
      · rw [max_eq_left hle]
        exact hs
    · exact hs
    · exact hs
    · refine branches_sound hsymm (r := r) ?_ _ _ _ _ ?_ hpart hs
      · intro v c x s' hc hs'
        exact ih (v :: r) c x s' hc hs'
      · intro v hv
        have hmem := mem_of_mem_branchOn hv
        exact ⟨hpart.cand_univ v hmem, hpart.link v hmem⟩

/-- **Soundness of a search.** The size a search reports is the size of some clique of
the given vertices, whatever the target and the budget. -/
theorem search_sound (hsymm : ∀ a b, adj a b = adj b a) (target : ℤ) (budget : ℕ)
    (vertices : List V) :
    Witnessed adj vertices (search adj target budget vertices).best :=
  expand_sound hsymm target budget _ [] vertices [] ⟨0, 0⟩
    ⟨by simp, List.Pairwise.nil, fun _ h => h, by simp⟩ witnessed_zero

/-! ### Small searches -/

variable {budget : ℕ}

/-- A search for two among two vertices reports two exactly when they are adjacent. -/
theorem search_pair {adj : V → V → Bool} {u : V} (hsymm : ∀ a b, adj a b = adj b a)
    (hirr : ∀ a, adj a a = false) (hbudget : 2 ≤ budget) :
    (search adj 2 budget [u, v]).best = if adj u v then 2 else 1 := by
  have h1 : ¬ budget < 1 := by omega
  have h2 : ¬ budget < 2 ∧ ¬ budget ≤ 1 := by omega
  cases huv' : adj u v with
  | true =>
    have hvu : adj v u = true := by rw [hsymm, huv']
    simp [search, expand, branches, branchOn, choosePivot, degree, union, *]
  | false =>
    have hvu : adj v u = false := by rw [hsymm, huv']
    simp [search, expand, branches, branchOn, choosePivot, degree, union, *]

end Clique
