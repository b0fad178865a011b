import Mathlib

/-!
# Tables with a Key

A table of a relational store is the list of its rows. The statements that change one are
`updateWhere`, `insertNew` (an insert that gives way to a row with the same key), `insertAll`
and `upsert`; a conditional delete is `List.filter`. For each there is a lemma on the rows after
it, one that it repeats no key, and one that a statement which respects a part of the table acts
on that part alone. Comparisons with a column that may be null are three-valued, and `boolAnd` is
the aggregate that skips nulls.
-/

open List

namespace Table

variable {ρ κ : Type*}

/-- `UPDATE ... SET f WHERE p`. -/
def updateWhere (p : ρ → Bool) (f : ρ → ρ) (rows : List ρ) : List ρ :=
  rows.map fun row => if p row then f row else row

variable (key : ρ → κ)

/-- No two rows have one key. -/
def Keyed (rows : List ρ) : Prop := (rows.map key).Nodup

section Statements

variable [DecidableEq κ]

/-- `INSERT ... ON CONFLICT (key) DO NOTHING`. -/
def insertNew (row : ρ) (rows : List ρ) : List ρ :=
  if key row ∈ rows.map key then rows else rows ++ [row]

/-- `INSERT ... SELECT ... ON CONFLICT (key) DO NOTHING`. -/
def insertAll (new rows : List ρ) : List ρ :=
  new.foldl (fun rows row => insertNew key row rows) rows

/-- `INSERT ... ON CONFLICT (key) DO UPDATE SET merge`. -/
def upsert (row : ρ) (merge : ρ → ρ) (rows : List ρ) : List ρ :=
  if key row ∈ rows.map key then updateWhere (fun old => key old = key row) merge rows
  else rows ++ [row]

end Statements

variable {key}

/-! ### Rows after a statement -/

variable {p : ρ → Bool} {f : ρ → ρ} {rows : List ρ} {row : ρ}

@[simp] theorem mem_updateWhere :
    row ∈ updateWhere p f rows ↔ ∃ old ∈ rows, (if p old then f old else old) = row := by
  simp [updateWhere]

/-- A row an update leaves alone is still there. -/
theorem mem_updateWhere_of_not (h : row ∈ rows) (hp : p row = false) : row ∈ updateWhere p f rows :=
  mem_updateWhere.mpr ⟨row, h, by rw [hp]; rfl⟩

/-- A row an update meets is there as the update leaves it. -/
theorem mem_updateWhere_of (h : row ∈ rows) (hp : p row = true) : f row ∈ updateWhere p f rows :=
  mem_updateWhere.mpr ⟨row, h, by rw [if_pos hp]⟩

/-- What the rows an update meets have afterwards, and the others had before, all rows have. -/
theorem forall_updateWhere {P : ρ → Prop} (hp : ∀ row ∈ rows, p row = true → P (f row))
    (hn : ∀ row ∈ rows, p row = false → P row) : ∀ row ∈ updateWhere p f rows, P row := by
  intro row hrow
  obtain ⟨old, hold, rfl⟩ := mem_updateWhere.mp hrow
  split
  · next h => exact hp old hold h
  · next h => exact hn old hold (Bool.eq_false_iff.mpr h)

@[simp] theorem length_updateWhere (p : ρ → Bool) (f : ρ → ρ) (rows : List ρ) :
    (updateWhere p f rows).length = rows.length := length_map _

/-- An update that meets no row changes nothing. -/
theorem updateWhere_eq_self (h : ∀ row ∈ rows, p row = false) : updateWhere p f rows = rows := by
  refine (map_congr_left fun row hrow => ?_).trans rows.map_id
  rw [h row hrow]
  rfl

variable {merge : ρ → ρ}

section Inserts

variable [DecidableEq κ] {new : List ρ}

theorem mem_insertNew {new : ρ} :
    row ∈ insertNew key new rows ↔ row ∈ rows ∨ row = new ∧ key new ∉ rows.map key := by
  by_cases h : key new ∈ rows.map key
  · simp [insertNew, h]
  · simp only [insertNew, if_neg h, mem_append, mem_singleton]
    tauto

/-- After an insert that may give way, the key is there. -/
theorem key_mem_insertNew (new : ρ) (rows : List ρ) :
    key new ∈ (insertNew key new rows).map key := by
  by_cases h : key new ∈ rows.map key
  · rwa [insertNew, if_pos h]
  · rw [insertNew, if_neg h, map_append]
    exact mem_append_right _ mem_cons_self

/-- Inserting keeps every row and adds none but the new ones. -/
theorem mem_insertAll (h : row ∈ insertAll key new rows) :
    row ∈ rows ∨ row ∈ new ∧ key row ∉ rows.map key := by
  induction new generalizing rows with
  | nil => exact .inl h
  | cons first new ih =>
    rcases ih h with hrow | ⟨hrow, hkey⟩
    · rcases mem_insertNew.mp hrow with hrow | ⟨rfl, hkey⟩
      · exact .inl hrow
      · exact .inr ⟨mem_cons_self, hkey⟩
    · refine .inr ⟨mem_cons_of_mem _ hrow, fun hmem => hkey ?_⟩
      obtain ⟨old, hold, hoe⟩ := mem_map.mp hmem
      exact mem_map.mpr ⟨old, mem_insertNew.mpr (.inl hold), hoe⟩

theorem subset_insertAll (new rows : List ρ) : rows ⊆ insertAll key new rows := by
  induction new generalizing rows with
  | nil => exact fun _ h => h
  | cons first new ih => exact fun row h => ih _ (mem_insertNew.mpr (.inl h))

/-- Every key to insert is there afterwards. -/
theorem key_mem_insertAll (h : row ∈ new) : key row ∈ (insertAll key new rows).map key := by
  induction new generalizing rows with
  | nil => exact absurd h (not_mem_nil)
  | cons first new ih =>
    rcases mem_cons.mp h with rfl | h
    · have hkey : key row ∈ (insertNew key row rows).map key := key_mem_insertNew row rows
      obtain ⟨old, hold, hoe⟩ := mem_map.mp hkey
      exact mem_map.mpr ⟨old, subset_insertAll new _ hold, hoe⟩
    · exact ih h

/-- Inserting rows whose keys are all there changes nothing. -/
theorem insertAll_eq_self (h : ∀ row ∈ new, key row ∈ rows.map key) :
    insertAll key new rows = rows := by
  induction new with
  | nil => rfl
  | cons first new ih =>
    have hfirst : insertNew key first rows = rows := if_pos (h _ mem_cons_self)
    have hcons : insertAll key (first :: new) rows =
        insertAll key new (insertNew key first rows) := rfl
    rw [hcons, hfirst]
    exact ih (forall_mem_cons.mp h).2

theorem mem_upsert {new : ρ} :
    row ∈ upsert key new merge rows ↔
      (∃ old ∈ rows, (if key old = key new then merge old else old) = row) ∨
        row = new ∧ key new ∉ rows.map key := by
  by_cases h : key new ∈ rows.map key
  · simp [upsert, h]
  · have hne : ∀ old ∈ rows, key old ≠ key new := fun old hold he =>
      h (mem_map.mpr ⟨old, hold, he⟩)
    simp only [upsert, if_neg h, mem_append, mem_singleton]
    constructor
    · rintro (hrow | rfl)
      · exact .inl ⟨row, hrow, if_neg (hne row hrow)⟩
      · exact .inr ⟨rfl, h⟩
    · rintro (⟨old, hold, rfl⟩ | ⟨rfl, -⟩)
      · exact .inl (by rwa [if_neg (hne old hold)])
      · exact .inr rfl

end Inserts

/-! ### Keys -/

theorem Keyed.updateWhere (h : Keyed key rows) {p : ρ → Bool} {f : ρ → ρ}
    (hf : ∀ row, key (f row) = key row) : Keyed key (updateWhere p f rows) := by
  have : (Table.updateWhere p f rows).map key = rows.map key := by
    rw [Table.updateWhere, map_map]
    refine map_congr_left fun row _ => ?_
    simp only [Function.comp]
    split
    · exact hf row
    · rfl
  rwa [Keyed, this]

theorem Keyed.append_singleton (h : Keyed key rows) {row : ρ} (hrow : key row ∉ rows.map key) :
    Keyed key (rows ++ [row]) := by
  rw [Keyed, map_append, map_singleton]
  refine List.Nodup.append h (nodup_singleton _) ?_
  rwa [disjoint_singleton]

/-- **A key names one row.** -/
theorem Keyed.eq_of_key (h : Keyed key rows) {a b : ρ} (ha : a ∈ rows) (hb : b ∈ rows)
    (hab : key a = key b) : a = b :=
  inj_on_of_nodup_map h ha hb hab

/-- Rows with one key are one row. -/
theorem Keyed.length_eq_one (h : Keyed key rows) {row : ρ} (hrow : row ∈ rows)
    (hall : ∀ other ∈ rows, key other = key row) : rows.length = 1 := by
  have hrep : rows.map key = List.replicate rows.length (key row) := by
    rw [eq_replicate_iff]
    refine ⟨length_map _, fun k hk => ?_⟩
    obtain ⟨other, hother, rfl⟩ := mem_map.mp hk
    exact hall other hother
  rw [Keyed, hrep, nodup_replicate] at h
  have := length_pos_of_mem hrow
  omega

theorem Keyed.filter (h : Keyed key rows) (p : ρ → Bool) : Keyed key (rows.filter p) :=
  h.sublist ((filter_sublist).map key)

section KeyedInserts

variable [DecidableEq κ]

theorem Keyed.insertNew (h : Keyed key rows) (row : ρ) : Keyed key (insertNew key row rows) := by
  by_cases hk : key row ∈ rows.map key
  · rwa [Table.insertNew, if_pos hk]
  · rw [Table.insertNew, if_neg hk]
    exact h.append_singleton hk

theorem Keyed.insertAll (h : Keyed key rows) (new : List ρ) :
    Keyed key (insertAll key new rows) := by
  induction new generalizing rows with
  | nil => exact h
  | cons first new ih => exact ih (h.insertNew first)

theorem Keyed.upsert (h : Keyed key rows) (row : ρ) (hm : ∀ row, key (merge row) = key row) :
    Keyed key (upsert key row merge rows) := by
  by_cases hk : key row ∈ rows.map key
  · rw [Table.upsert, if_pos hk]
    exact h.updateWhere hm
  · rw [Table.upsert, if_neg hk]
    exact h.append_singleton hk

end KeyedInserts

/-! ### Parts of a table -/

section Parts

variable {keep : ρ → Bool}

/-- An update that moves no row into or out of a part updates the part. -/
theorem filter_updateWhere {p : ρ → Bool} {f : ρ → ρ}
    (hf : ∀ row, p row = true → keep (f row) = keep row) (rows : List ρ) :
    (updateWhere p f rows).filter keep = updateWhere p f (rows.filter keep) := by
  rw [updateWhere, filter_map]
  congr 1
  refine filter_congr fun row _ => ?_
  simp only [Function.comp]
  split
  · next hp => exact hf row hp
  · rfl

/-- An update of other rows leaves a part alone. -/
theorem filter_updateWhere_of_not {p : ρ → Bool} {f : ρ → ρ}
    (hf : ∀ row, p row = true → keep (f row) = keep row)
    (hp : ∀ row, keep row = true → p row = false) (rows : List ρ) :
    (updateWhere p f rows).filter keep = rows.filter keep := by
  rw [filter_updateWhere hf]
  exact updateWhere_eq_self fun row hrow => hp row (mem_filter.mp hrow).2

/-- The keys of a part are those of its rows. -/
theorem key_mem_filter (hkeep : ∀ a b, key a = key b → keep a = keep b) {new : ρ}
    (hnew : keep new = true) (rows : List ρ) :
    key new ∈ (rows.filter keep).map key ↔ key new ∈ rows.map key := by
  constructor
  · intro h
    obtain ⟨row, hrow, hk⟩ := mem_map.mp h
    exact mem_map.mpr ⟨row, (mem_filter.mp hrow).1, hk⟩
  · intro h
    obtain ⟨row, hrow, hk⟩ := mem_map.mp h
    exact mem_map.mpr ⟨row, mem_filter.mpr ⟨hrow, (hkeep row new hk).trans hnew⟩, hk⟩

variable [DecidableEq κ]

theorem filter_insertNew_of_not {new : ρ} (hnew : keep new = false) (rows : List ρ) :
    (insertNew key new rows).filter keep = rows.filter keep := by
  rw [insertNew]
  split
  · rfl
  · simp [hnew]

theorem filter_insertNew (hkeep : ∀ a b, key a = key b → keep a = keep b) (new : ρ)
    (rows : List ρ) :
    (insertNew key new rows).filter keep =
      if keep new then insertNew key new (rows.filter keep) else rows.filter keep := by
  by_cases hnew : keep new = true
  · have hkeys := key_mem_filter hkeep hnew rows
    rw [if_pos hnew]
    by_cases hk : key new ∈ rows.map key
    · rw [insertNew, insertNew, if_pos hk, if_pos (hkeys.mpr hk)]
    · rw [insertNew, insertNew, if_neg hk, if_neg fun h => hk (hkeys.mp h)]
      simp [hnew]
  · rw [if_neg hnew, filter_insertNew_of_not (Bool.eq_false_iff.mpr hnew)]

variable {new : List ρ}

/-- Inserting rows of a part inserts into the part. -/
theorem filter_insertAll (hkeep : ∀ a b, key a = key b → keep a = keep b)
    (hnew : ∀ row ∈ new, keep row = true) (rows : List ρ) :
    (insertAll key new rows).filter keep = insertAll key new (rows.filter keep) := by
  induction new generalizing rows with
  | nil => rfl
  | cons first new ih =>
    have hfirst := filter_insertNew hkeep first rows
    rw [if_pos (hnew _ mem_cons_self)] at hfirst
    refine (ih (forall_mem_cons.mp hnew).2 _).trans ?_
    rw [hfirst]
    rfl

/-- Inserting other rows leaves a part alone. -/
theorem filter_insertAll_of_not (hnew : ∀ row ∈ new, keep row = false) (rows : List ρ) :
    (insertAll key new rows).filter keep = rows.filter keep := by
  induction new generalizing rows with
  | nil => rfl
  | cons first new ih =>
    obtain ⟨hfirst, hrest⟩ := forall_mem_cons.mp hnew
    exact (ih hrest _).trans (filter_insertNew_of_not hfirst rows)

theorem filter_upsert (hkeep : ∀ a b, key a = key b → keep a = keep b) {new : ρ}
    (hm : ∀ row, key (merge row) = key row) (rows : List ρ) :
    (upsert key new merge rows).filter keep =
      if keep new then upsert key new merge (rows.filter keep) else rows.filter keep := by
  have hmerge : ∀ row, decide (key row = key new) = true → keep (merge row) = keep row :=
    fun row _ => hkeep _ _ (hm row)
  by_cases hk : key new ∈ rows.map key
  · rw [upsert, if_pos hk]
    by_cases hnew : keep new = true
    · rw [if_pos hnew, upsert, if_pos ((key_mem_filter hkeep hnew rows).mpr hk),
        filter_updateWhere hmerge]
    · rw [if_neg hnew]
      refine filter_updateWhere_of_not hmerge (fun row hrow => ?_) rows
      rw [decide_eq_false_iff_not]
      exact fun h => hnew ((hkeep row new h).symm.trans hrow)
  · rw [upsert, if_neg hk]
    by_cases hnew : keep new = true
    · rw [upsert, if_neg fun h => hk ((key_mem_filter hkeep hnew rows).mp h)]
      simp [hnew]
    · simp [hnew]

end Parts

/-! ### Three-valued comparison -/

section Null

variable {α : Type*} [DecidableEq α]

/-- `column = value`, null when the column is. -/
def eqNull (column : Option α) (value : α) : Option Bool := column.map fun c => decide (c = value)

/-- `bool_and`: nulls are skipped, and with nothing left the result is null. -/
def boolAnd (values : List (Option Bool)) : Option Bool :=
  match values.filterMap id with
  | [] => none
  | known => some (known.all id)

/-- **Nulls do not count against a conjunction.** -/
theorem boolAnd_eq_some_true {values : List (Option Bool)} :
    boolAnd values = some true ↔ some true ∈ values ∧ some false ∉ values := by
  have hmem : ∀ b : Bool, b ∈ values.filterMap id ↔ some b ∈ values := by simp
  rw [← hmem true, ← hmem false, boolAnd]
  cases values.filterMap id with
  | nil => simp
  | cons b known =>
    simp only [Option.some.injEq, all_eq_true]
    constructor
    · intro h
      exact ⟨h b mem_cons_self ▸ mem_cons_self, fun hf => nomatch h _ hf⟩
    · rintro ⟨-, h⟩ c hc
      cases c with
      | true => rfl
      | false => exact absurd hc h

theorem eqNull_eq_some {column : Option α} {value : α} {b : Bool} :
    eqNull column value = some b ↔ ∃ c, column = some c ∧ decide (c = value) = b := by
  cases column with
  | none | some c => simp [eqNull]

end Null

end Table
