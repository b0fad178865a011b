import Mathlib

/-!
# A Table Written Under Locks

A transaction takes locks, reads what is committed and what it wrote itself, and inserts at most
one row; its locks are given up when it ends, by a commit, a rollback or the loss of its
connection. If every row is written under the lock `lockOf` names for it (`Guarded`), then the
holder of a lock knows that no other transaction commits a row of that lock: `Undisturbed` says
what others leave alone.
-/

variable {ι κ ρ : Type*}

/-- A committed row, with the transaction that inserted it. -/
structure StoredRow (ι ρ : Type*) where
  author : Option ι
  row : ρ

/-- The committed rows, the open transactions with the row each has written, the holders of the
locks, and whose connection is lost. -/
structure LockedTable (ι κ ρ : Type*) where
  rows : List (StoredRow ι ρ)
  pending : ι → Option ρ
  locks : κ → Option ι
  severed : ι → Bool

namespace LockedTable

variable {lockOf : ρ → κ} {s t u : LockedTable ι κ ρ} {i j : ι} {row : ρ}

/-- The rows a statement of the transaction of `i` reads. -/
def visible (s : LockedTable ι κ ρ) (i : ι) : List ρ :=
  s.rows.map StoredRow.row ++ (s.pending i).toList

variable (lockOf) in
/-- Every row that waits for its commit is written under its lock. -/
def Guarded (s : LockedTable ι κ ρ) : Prop :=
  ∀ i row, s.pending i = some row → s.locks (lockOf row) = some i

variable (lockOf) in
/-- What `i` keeps while others move: nobody adds a row in its name, and, until its connection is
lost, it keeps what it has written, its locks, and the rows of those locks as they are. -/
structure Undisturbed (i : ι) (s t : LockedTable ι κ ρ) : Prop where
  severed : t.severed i = false → s.severed i = false
  pending : t.severed i = false → t.pending i = s.pending i
  locks : t.severed i = false → ∀ k, s.locks k = some i → t.locks k = some i
  rows : ∃ added, t.rows = s.rows ++ added ∧ (∀ r ∈ added, r.author ≠ some i) ∧
    (t.severed i = false → ∀ r ∈ added, s.locks (lockOf r.row) ≠ some i)

theorem Undisturbed.refl (i : ι) (s : LockedTable ι κ ρ) : Undisturbed lockOf i s s :=
  ⟨id, fun _ => rfl, fun _ _ => id, [], (List.append_nil _).symm, by simp, by simp⟩

theorem Undisturbed.trans (h : Undisturbed lockOf i s t) (h' : Undisturbed lockOf i t u) :
    Undisturbed lockOf i s u := by
  obtain ⟨added, hrows, hauthor, hlock⟩ := h.rows
  obtain ⟨added', hrows', hauthor', hlock'⟩ := h'.rows
  refine ⟨fun hu => h.severed (h'.severed hu),
    fun hu => (h'.pending hu).trans (h.pending (h'.severed hu)),
    fun hu k hk => h'.locks hu k (h.locks (h'.severed hu) k hk), added ++ added', ?_, ?_, ?_⟩
  · rw [hrows', hrows, List.append_assoc]
  · simp only [List.mem_append]
    rintro r (hr | hr)
    · exact hauthor r hr
    · exact hauthor' r hr
  · simp only [List.mem_append]
    rintro hu r (hr | hr)
    · exact hlock (h'.severed hu) r hr
    · exact fun hheld => hlock' hu r hr (h.locks (h'.severed hu) _ hheld)

/-- A move that changes no rows and nothing of `i`. -/
theorem Undisturbed.of_rows_eq (hrows : t.rows = s.rows) (hsevered : t.severed i = s.severed i)
    (hpending : t.pending i = s.pending i)
    (hlocks : ∀ k, s.locks k = some i → t.locks k = some i) : Undisturbed lockOf i s t :=
  ⟨fun h => hsevered ▸ h, fun _ => hpending, fun _ => hlocks, [],
    hrows.trans (List.append_nil _).symm, by simp, by simp⟩

/-- `i` has committed nothing. -/
def Unwritten (i : ι) (s : LockedTable ι κ ρ) : Prop := ∀ r ∈ s.rows, r.author ≠ some i

theorem Undisturbed.unwritten (h : Undisturbed lockOf i s t) (hs : s.Unwritten i) :
    t.Unwritten i := by
  obtain ⟨added, hrows, hauthor, -⟩ := h.rows
  rw [Unwritten, hrows]
  simp only [List.mem_append]
  rintro r (hr | hr)
  · exact hs r hr
  · exact hauthor r hr

theorem Undisturbed.mem_rows (h : Undisturbed lockOf i s t) {r : StoredRow ι ρ}
    (hr : r ∈ s.rows) : r ∈ t.rows := by
  obtain ⟨added, hrows, -⟩ := h.rows
  rw [hrows]
  exact List.mem_append_left _ hr

/-- `i` has written nothing, committed or not. -/
structure Idle (i : ι) (s : LockedTable ι κ ρ) : Prop where
  unwritten : s.Unwritten i
  clean : s.severed i = false → s.pending i = none

/-- The row waits for the commit of `i`. -/
structure Written (i : ι) (row : ρ) (s : LockedTable ι κ ρ) : Prop where
  unwritten : s.Unwritten i
  waiting : s.severed i = false → s.pending i = some row

theorem Undisturbed.idle (h : Undisturbed lockOf i s t) (hs : s.Idle i) : t.Idle i :=
  ⟨h.unwritten hs.unwritten, fun ht => (h.pending ht).trans (hs.clean (h.severed ht))⟩

theorem Undisturbed.written (h : Undisturbed lockOf i s t) (hs : s.Written i row) :
    t.Written i row :=
  ⟨h.unwritten hs.unwritten, fun ht => (h.pending ht).trans (hs.waiting (h.severed ht))⟩

/-- A transaction that has written nothing reads the committed rows. -/
theorem Idle.visible_eq (h : s.Idle i) (halive : s.severed i = false) :
    s.visible i = s.rows.map StoredRow.row := by
  rw [visible, h.clean halive, Option.toList_none, List.append_nil]

/-! ### What a transaction does -/

variable [DecidableEq ι]

/-- The end of the transaction of `i`, which gives up its locks. -/
def finish (s : LockedTable ι κ ρ) (i : ι) : LockedTable ι κ ρ :=
  { s with
    pending := Function.update s.pending i none
    locks := fun k => if s.locks k = some i then none else s.locks k }

/-- The commit of the transaction of `i`. -/
def commit (s : LockedTable ι κ ρ) (i : ι) : LockedTable ι κ ρ :=
  { s.finish i with rows := s.rows ++ (s.pending i).toList.map (StoredRow.mk (some i)) }

/-- The loss of the connection of `i`. -/
def sever (s : LockedTable ι κ ρ) (i : ι) : LockedTable ι κ ρ :=
  { s.finish i with severed := Function.update s.severed i true }

/-- The row `i` writes. -/
def write (s : LockedTable ι κ ρ) (i : ι) (row : ρ) : LockedTable ι κ ρ :=
  { s with pending := Function.update s.pending i (some row) }

/-- The lock `i` takes. -/
def acquire [DecidableEq κ] (s : LockedTable ι κ ρ) (i : ι) (k : κ) : LockedTable ι κ ρ :=
  { s with locks := Function.update s.locks k (some i) }

variable {k : κ}

theorem finish_locks (hj : j ≠ i) (h : s.locks k = some j) : (s.finish i).locks k = some j := by
  have : s.locks k ≠ some i := by
    rw [h]
    exact fun heq => hj (Option.some.inj heq)
  exact (if_neg this).trans h

theorem finish_pending (hj : j ≠ i) : (s.finish i).pending j = s.pending j :=
  Function.update_of_ne hj _ _

theorem finish_pending_eq_some (h : (s.finish i).pending j = some row) :
    j ≠ i ∧ s.pending j = some row := by
  by_cases hj : j = i
  · subst hj
    exact absurd (h.symm.trans (Function.update_self ..)) (by simp)
  · rw [finish_pending hj] at h
    exact ⟨hj, h⟩

/-- What waits after a write. -/
theorem write_pending_eq_some {row' : ρ} (h : (s.write i row).pending j = some row') :
    (j = i ∧ row' = row) ∨ (j ≠ i ∧ s.pending j = some row') := by
  by_cases hj : j = i
  · subst hj
    exact .inl ⟨rfl, (Option.some.inj (h.symm.trans (Function.update_self ..)))⟩
  · exact .inr ⟨hj, (Function.update_of_ne hj _ _).symm.trans h⟩

theorem Guarded.finish (h : s.Guarded lockOf) (i : ι) : (s.finish i).Guarded lockOf := by
  intro j row hrow
  obtain ⟨hj, hrow⟩ := finish_pending_eq_some hrow
  exact finish_locks hj (h j row hrow)

theorem Guarded.commit (h : s.Guarded lockOf) (i : ι) : (s.commit i).Guarded lockOf := h.finish i

theorem Guarded.sever (h : s.Guarded lockOf) (i : ι) : (s.sever i).Guarded lockOf := h.finish i

theorem Guarded.write (h : s.Guarded lockOf) (hlock : s.locks (lockOf row) = some i) :
    (s.write i row).Guarded lockOf := by
  intro j row' hrow'
  obtain ⟨rfl, rfl⟩ | ⟨-, hrow'⟩ := write_pending_eq_some hrow'
  · exact hlock
  · exact h j row' hrow'

omit [DecidableEq ι] in
theorem Guarded.acquire [DecidableEq κ] (h : s.Guarded lockOf)
    (hfree : s.locks k = none ∨ s.locks k = some i) : (s.acquire i k).Guarded lockOf := by
  intro j row hrow
  have hlocked := h j row hrow
  rw [LockedTable.acquire]
  dsimp only
  by_cases hk : lockOf row = k
  · rw [hk] at hlocked ⊢
    rw [Function.update_self]
    obtain hfree | hfree := hfree
    · rw [hfree] at hlocked
      cases hlocked
    · rw [← hlocked, hfree]
  · rw [Function.update_of_ne hk]
    exact hlocked

omit [DecidableEq ι] in
/-- Two transactions write under different locks. -/
theorem Guarded.lockOf_ne (h : s.Guarded lockOf) {row' : ρ} (hj : j ≠ i)
    (hi : s.pending i = some row) (hj' : s.pending j = some row') : lockOf row ≠ lockOf row' := by
  intro heq
  have hlock := h i row hi
  rw [heq, h j row' hj'] at hlock
  exact hj (Option.some.inj hlock)

/-! ### What it leaves alone -/

theorem finish_undisturbed (hj : j ≠ i) : Undisturbed lockOf j s (s.finish i) :=
  .of_rows_eq rfl rfl (finish_pending hj) fun _ => finish_locks hj

theorem commit_undisturbed (h : s.Guarded lockOf) (hj : j ≠ i) :
    Undisturbed lockOf j s (s.commit i) := by
  refine ⟨id, fun _ => finish_pending hj, fun _ _ => finish_locks hj, _, rfl, ?_, ?_⟩
  · simp only [List.mem_map]
    rintro r ⟨row, -, rfl⟩ heq
    exact hj (Option.some.inj heq).symm
  · simp only [List.mem_map, Option.mem_toList]
    rintro - r ⟨row, hrow, rfl⟩ heq
    exact hj (Option.some.inj (heq.symm.trans (h i row hrow)))

theorem sever_undisturbed (j : ι) : Undisturbed lockOf j s (s.sever i) := by
  by_cases hj : j = i
  · subst hj
    have hsevered : (s.sever j).severed j = true := Function.update_self ..
    exact ⟨by simp [hsevered], by simp [hsevered], by simp [hsevered], [],
      (List.append_nil _).symm, by simp, by simp⟩
  · exact .of_rows_eq rfl (Function.update_of_ne hj _ _) (finish_pending hj)
      fun _ => finish_locks hj

theorem write_undisturbed (hj : j ≠ i) : Undisturbed lockOf j s (s.write i row) :=
  .of_rows_eq rfl rfl (Function.update_of_ne hj _ _) fun _ => id

omit [DecidableEq ι] in
theorem acquire_undisturbed [DecidableEq κ] (hfree : s.locks k = none ∨ s.locks k = some i)
    (hj : j ≠ i) :
    Undisturbed lockOf j s (s.acquire i k) := by
  refine .of_rows_eq rfl rfl rfl fun k' hk' => ?_
  have hne : k' ≠ k := by
    rintro rfl
    obtain hfree | hfree := hfree <;> rw [hfree] at hk'
    · cases hk'
    · exact hj (Option.some.inj hk').symm
  exact (Function.update_of_ne hne _ _).trans hk'

/-- The commit of a transaction that wrote nothing adds no row. -/
theorem commit_rows_of_none (h : s.pending i = none) : (s.commit i).rows = s.rows := by
  simp [LockedTable.commit, h]

theorem commit_rows_of_some (h : s.pending i = some row) :
    (s.commit i).rows = s.rows ++ [⟨some i, row⟩] := by
  simp [LockedTable.commit, h]

theorem Idle.commit_rows (h : s.Idle i) (halive : s.severed i = false) :
    (s.commit i).rows = s.rows :=
  commit_rows_of_none (h.clean halive)

theorem Written.mem_commit (h : s.Written i row) (halive : s.severed i = false) :
    ⟨some i, row⟩ ∈ (s.commit i).rows := by
  rw [commit_rows_of_some (h.waiting halive)]
  simp

end LockedTable
