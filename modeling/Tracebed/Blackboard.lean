import Tracebed.Hotpath
import Tracebed.Lib.Concurrent
import Tracebed.Lib.LockedTable
import Tracebed.Lib.Table

/-!
# The Blackboard

`stores/pg/blackboard.py` and `workflow/blackboard.py`: agents of a run publish values under keys
that belong to whoever writes them first. The insert of `commitProposal` yields to a row with the
same key, and waits while another transaction has one that is not committed yet; if it yields, the
row it lost to is read back. A connection can be lost at any moment, and the answer to a commit
after the commit.

The result is `blackboard_write_once`: **keys are written once**, and every commit that completes
agrees with the one row of its key.
-/

open Py Interaction Routine Table List

namespace Tracebed

/-! ### Entries -/

/-- The primary key of `blackboard_entry`. -/
structure EntryKey where
  projectId : ProjectId
  runId : RunId
  branchId : PyStr
  key : PyStr
  deriving DecidableEq

/-- `BlackboardEntryRow`. -/
structure BlackboardEntryRow extends EntryKey where
  authorAgent : PrincipalId
  valueRef : PyStr
  createdAt : ℤ

/-- `BlackboardProposal`. -/
structure BlackboardProposal extends EntryKey where
  authorAgent : PrincipalId
  valueRef : PyStr

/-- `CommitOutcome`. -/
inductive CommitOutcome
  | committed | converged

/-- `BlackboardCommitResult`: the outcome and the row it reports. -/
structure BlackboardCommitResult where
  outcome : CommitOutcome
  entry : BlackboardEntryRow

/-- What a commit can raise; `raised` stands for the exceptions of the driver. -/
inductive BlackboardError
  | keyConflict (key branchId winningValueRef : PyStr) (winningAuthor : PrincipalId)
  | commitUnresolved (message : String)
  | valueError (message : String)
  | raised (name : String)

/-- `resolve_after_conflict`. -/
def resolveAfterConflict (p : BlackboardProposal) (existing : BlackboardEntryRow) :
    Except BlackboardError BlackboardCommitResult :=
  if p.toEntryKey ≠ existing.toEntryKey then
    .error (.valueError "resolve_after_conflict: the row read back is not this proposal's key")
  else if existing.valueRef = p.valueRef then .ok ⟨.converged, existing⟩
  else .error (.keyConflict p.key p.branchId existing.valueRef existing.authorAgent)

/-! ### The commit protocol -/

/-- `psycopg.IsolationLevel`. -/
inductive IsolationLevel
  | readUncommitted | readCommitted | repeatableRead | serializable

/-- What a commit asks of the database and the clock. -/
inductive BoardCall
  | begin (project : ProjectId)
  | isolationLevel
  | now
  | insert (row : BlackboardEntryRow)
  | select (key : EntryKey)
  | commit
  | rollback

/-- What each call answers with; an insert answers with the row it inserted, if it did. -/
def BoardCall.Result : BoardCall → Type
  | isolationLevel => Option IsolationLevel
  | now => ℤ
  | insert _ | select _ => Option BlackboardEntryRow
  | begin _ | commit | rollback => Unit

/-- Code of a commit. -/
abbrev Board := Routine BoardCall BoardCall.Result BlackboardError Unit

def Board.call (c : BoardCall) : Board c.Result := perform c

/-- A pure step of a commit. -/
def Board.lift {α : Type} : Except BlackboardError α → Board α
  | .ok a => pure a
  | .error e => throw e

/-- `_require_read_committed`. -/
def requireReadCommitted : Option IsolationLevel → Except BlackboardError Unit
  | none | some .readCommitted => .ok ()
  | some _ => .error (.commitUnresolved "blackboard commits require READ COMMITTED")

/-- The two statements of a commit: it wins, or it reads the row it lost to. -/
def attemptInsert (p : BlackboardProposal) :
    Board (BlackboardCommitResult ⊕ BlackboardEntryRow) := do
  let level : Option IsolationLevel ← Board.call .isolationLevel
  Board.lift (requireReadCommitted level)
  let now : ℤ ← Board.call .now
  let won : Option BlackboardEntryRow ← Board.call (.insert ⟨p.toEntryKey, p.authorAgent,
    p.valueRef, now⟩)
  match won with
  | some row => return .inl ⟨.committed, row⟩
  | none =>
    let existing : Option BlackboardEntryRow ← Board.call (.select p.toEntryKey)
    match existing with
    | some row => return .inr row
    | none => throw (.commitUnresolved
        "blackboard commit lost the insert race but the winning row is not visible")

def inTransaction {α : Type} (project : ProjectId) (body : Board α) : Board α := do
  Board.call (.begin project)
  let a ← tryCatch body fun e => do
    Board.call .rollback
    throw e
  Board.call .commit
  return a

variable (scope : ProjectScope)

/-- `BlackboardRepo.commit`'s check that the proposal is of the scope that commits it. -/
def requireScope (p : BlackboardProposal) : Except BlackboardError Unit :=
  if p.projectId ≠ scope.projectId then
    .error (.valueError "proposal.project_id does not match scope.project_id")
  else if p.authorAgent ≠ scope.principalId then
    .error (.valueError "proposal.author_agent does not match scope.principal_id")
  else .ok ()

/-- `BlackboardRepo.commit`. -/
def commitProposal (p : BlackboardProposal) : Board BlackboardCommitResult := do
  Board.lift (requireScope scope p)
  match ← inTransaction scope.projectId (attemptInsert p) with
  | .inl result => return result
  | .inr existing => Board.lift (resolveAfterConflict p existing)

/-! ### The database -/

/-- The table of entries and the clock. The lock of a key is held by the transaction with an
uncommitted row under it. -/
structure BoardWorld (ι : Type) extends LockedTable ι EntryKey BlackboardEntryRow where
  clock : ℤ

/-- What the state does not determine: whether a call raises, of a commit whether it does so after
the fact, and whether the connection names its isolation level. -/
structure BoardChance where
  raised : Option String
  late : Bool
  explicit : Bool

/-- What happens outside the commits. -/
inductive BoardDrift (ι : Type)
  | tick (elapsed : ℕ)
  | sever (i : ι)

section World

variable {ι : Type}

namespace BoardWorld

/-- The world with another table. -/
def update (s : BoardWorld ι)
    (f : LockedTable ι EntryKey BlackboardEntryRow → LockedTable ι EntryKey BlackboardEntryRow) :
    BoardWorld ι :=
  { s with toLockedTable := f s.toLockedTable }

/-- The committed row of a key. -/
def entry (s : BoardWorld ι) (k : EntryKey) : Option BlackboardEntryRow :=
  (s.rows.map StoredRow.row).find? fun r => r.toEntryKey = k

/-- Entries that are there already, and nobody at work. -/
def start (rows : {l : List BlackboardEntryRow // Table.Keyed BlackboardEntryRow.toEntryKey l})
    (clock : ℤ) : BoardWorld ι where
  rows := rows.1.map (StoredRow.mk none)
  pending _ := none
  locks _ := none
  severed _ := false
  clock := clock

end BoardWorld

/-- A statement of the transaction of `i`, which fails once the connection is lost. -/
def BoardChance.statement {α : Type} (x : BoardChance) (s : BoardWorld ι) (i : ι)
    (result : Option (Except BlackboardError α × BoardWorld ι)) :
    Option (Except BlackboardError α × BoardWorld ι) :=
  if s.severed i then some (.error (.raised "OperationalError"), s)
  else
    match x.raised with
    | some name => some (.error (.raised name), s)
    | none => result

variable [DecidableEq ι]

/-- How a call of a commit is served. -/
def serveBoard : Serve ι BoardCall (fun c => Except BlackboardError c.Result) (BoardWorld ι)
    BoardChance
  | i, x, s, .begin _ => x.statement s i (some (.ok (), s))
  | _, x, s, .isolationLevel =>
    some (.ok (if x.explicit then some .readCommitted else none), s)
  | _, _, s, .now => some (.ok s.clock, s)
  | i, x, s, .insert row => x.statement s i
      (if (s.visible i).any (·.toEntryKey = row.toEntryKey) then some (.ok none, s)
      else
        match s.locks row.toEntryKey with
        | some _ => none
        | none => some (.ok (some row),
            s.update fun t => (t.acquire i row.toEntryKey).write i row))
  | i, x, s, .select k => x.statement s i
      (some (.ok ((s.visible i).find? fun r => r.toEntryKey = k), s))
  | i, x, s, .commit =>
    if s.severed i then some (.error (.raised "OperationalError"), s)
    else
      match x.raised with
      | none => some (.ok (), s.update (·.commit i))
      | some name => some (.error (.raised name),
          s.update fun t => if x.late then t.commit i else t.finish i)
  | i, _, s, .rollback => some (.ok (), s.update (·.finish i))

/-- How the world moves on its own. -/
def driftBoard : BoardDrift ι → BoardWorld ι → BoardWorld ι
  | .tick elapsed, s => { s with clock := s.clock + elapsed }
  | .sever i, s => s.update (·.sever i)

/-! ### One row for each key -/

variable {s t : BoardWorld ι} {i j : ι} {row : BlackboardEntryRow} {k : EntryKey}

namespace BoardWorld

/-- No two rows have the same key, and a row that waits for its commit has a key of its own that
its transaction holds. -/
structure Unique (s : BoardWorld ι) : Prop where
  keys : Table.Keyed (fun r => r.row.toEntryKey) s.rows
  guarded : s.Guarded BlackboardEntryRow.toEntryKey
  fresh : ∀ i row, s.pending i = some row → ∀ r ∈ s.rows, r.row.toEntryKey ≠ row.toEntryKey

theorem Unique.finish (h : s.Unique) (i : ι) : (s.update (·.finish i)).Unique where
  keys := h.keys
  guarded := h.guarded.finish i
  fresh j row hrow := h.fresh j row (LockedTable.finish_pending_eq_some hrow).2

theorem Unique.commit (h : s.Unique) (i : ι) : (s.update (·.commit i)).Unique := by
  match hp : s.pending i with
  | none =>
    have hrows : (s.update (·.commit i)).rows = s.rows := LockedTable.commit_rows_of_none hp
    refine ⟨?_, h.guarded.commit i, fun j row hrow => ?_⟩
    · rw [hrows]
      exact h.keys
    · rw [hrows]
      exact h.fresh j row (LockedTable.finish_pending_eq_some hrow).2
  | some row =>
    have hrows : (s.update (·.commit i)).rows = s.rows ++ [⟨some i, row⟩] :=
      LockedTable.commit_rows_of_some hp
    refine ⟨?_, h.guarded.commit i, fun j row' hrow' r hr => ?_⟩
    · rw [hrows]
      refine h.keys.append_singleton fun hmem => ?_
      obtain ⟨r, hr, hk⟩ := mem_map.mp hmem
      exact h.fresh i row hp r hr hk
    · obtain ⟨hj, hrow'⟩ := LockedTable.finish_pending_eq_some hrow'
      rw [hrows, mem_append, mem_singleton] at hr
      obtain hr | rfl := hr
      · exact h.fresh j row' hrow' r hr
      · exact h.guarded.lockOf_ne hj hp hrow'

theorem Unique.write (h : s.Unique) (hfree : s.locks row.toEntryKey = none)
    (hfresh : ∀ r ∈ s.rows, r.row.toEntryKey ≠ row.toEntryKey) :
    (s.update fun t => (t.acquire i row.toEntryKey).write i row).Unique := by
  refine ⟨h.keys, (h.guarded.acquire (.inl hfree)).write (Function.update_self ..),
    fun j row' hrow' => ?_⟩
  obtain ⟨rfl, rfl⟩ | ⟨-, hrow'⟩ := LockedTable.write_pending_eq_some hrow'
  · exact hfresh
  · exact h.fresh j row' hrow'

/-- What the others may do to `i`. -/
def others (i : ι) : Rely (BoardWorld ι) where
  rel s t := s.Undisturbed BlackboardEntryRow.toEntryKey i t.toLockedTable
  refl _ := .refl i _
  trans := .trans

/-- The row is committed under the key. -/
def Holds (k : EntryKey) (row : BlackboardEntryRow) (s : BoardWorld ι) : Prop :=
  (∃ author, ⟨author, row⟩ ∈ s.rows) ∧ row.toEntryKey = k

omit [DecidableEq ι]

theorem holds_stable : (others i).Stable (Holds k row) :=
  fun _ _ hR ⟨⟨author, hrow⟩, hk⟩ => ⟨⟨author, hR.mem_rows hrow⟩, hk⟩

theorem idle_stable : (others i).Stable fun s : BoardWorld ι => s.Idle i :=
  fun _ _ hR => hR.idle

theorem written_stable : (others i).Stable fun s : BoardWorld ι => s.Written i row :=
  fun _ _ hR => hR.written

/-- The entry of a key is a row of the table. -/
theorem holds_of_entry (h : s.entry k = some row) : s.Holds k row := by
  obtain ⟨r, hr, rfl⟩ := mem_map.mp (mem_of_find?_eq_some h)
  have hk := find?_some h
  exact ⟨⟨r.author, hr⟩, of_decide_eq_true hk⟩

/-- A key with a row has an entry. -/
theorem Holds.exists_entry (h : s.Holds k row) : ∃ row', s.entry k = some row' := by
  obtain ⟨⟨author, hmem⟩, hk⟩ := h
  have : (s.entry k).isSome = true := find?_isSome.mpr ⟨row, mem_map_of_mem hmem, decide_eq_true hk⟩
  exact Option.isSome_iff_exists.mp this

/-- A row of the table is the entry of its key. -/
theorem Unique.entry_eq (h : s.Unique) (hrow : s.Holds k row) : s.entry k = some row := by
  obtain ⟨found, hfound⟩ := hrow.exists_entry
  obtain ⟨⟨author, hmem⟩, hk⟩ := hrow
  obtain ⟨⟨author', hmem'⟩, hk'⟩ := holds_of_entry hfound
  have heq := h.keys.eq_of_key hmem' hmem (hk'.trans hk.symm)
  exact hfound.trans (congrArg (fun r => some r.row) heq)

end BoardWorld

/-! ### One commit among others -/

/-- What a part of a commit leaves when it returns; all it raises are errors of the driver. -/
def OrRaised {α : Type} (Q : α → BoardWorld ι → Prop) :
    Except BlackboardError α → BoardWorld ι → Prop
  | .ok a, s => Q a s
  | .error (.raised _), _ => True
  | .error _, _ => False

variable (i) in
/-- What a part of commit `i` does among the others. -/
abbrev Keeps {α : Type} (P : BoardWorld ι → Prop) (p : Board α)
    (Q : Except BlackboardError α → BoardWorld ι → Prop) : Prop :=
  Meets serveBoard i BoardWorld.Unique (BoardWorld.others i)
    (fun s t => ∀ j, j ≠ i → BoardWorld.others j s t) P p Q

variable {x : BoardChance} {c : BoardCall}

section Commit

variable {α β : Type} {P : BoardWorld ι → Prop} {Q : α → BoardWorld ι → Prop}

omit [DecidableEq ι] in
theorem orRaised_stable (hQ : ∀ a, (BoardWorld.others i).Stable (Q a))
    (r : Except BlackboardError α) : (BoardWorld.others i).Stable (OrRaised Q r) := by
  intro s t hR h
  match r with
  | .ok a => exact hQ a hR h
  | .error (.raised name) => trivial

omit [DecidableEq ι] in
theorem board_statement_eq {result : Option (Except BlackboardError α × BoardWorld ι)}
    {r : Except BlackboardError α} (h : x.statement s i result = some (r, t)) :
    (t = s ∧ ∃ name, r = .error (.raised name)) ∨ (s.severed i = false ∧ result = some (r, t)) := by
  rw [BoardChance.statement] at h
  split at h
  · cases h
    exact .inl ⟨rfl, _, rfl⟩
  · next halive =>
    split at h
    · cases h
      exact .inl ⟨rfl, _, rfl⟩
    · exact .inr ⟨Bool.eq_false_of_not_eq_true halive, h⟩

theorem keeps_bind {p : Board α} {f : α → Board β} {Q' : β → BoardWorld ι → Prop}
    (hp : Keeps i P p (OrRaised Q)) (hf : ∀ a, Keeps i (Q a) (f a) (OrRaised Q')) :
    Keeps i P (p >>= f) (OrRaised Q') := by
  refine meets_bind hp hf (fun e s t _ h => ?_) fun e s h => ?_ <;> cases e <;> exact h

/-- A statement that reads. -/
theorem keeps_statement {Q : c.Result → BoardWorld ι → Prop} {v : BoardWorld ι → c.Result}
    (hP : (BoardWorld.others i).Stable P) (hQ : ∀ a, (BoardWorld.others i).Stable (Q a))
    (hserve : ∀ x s, serveBoard i x s c = x.statement s i (some (.ok (v s), s)))
    (hv : ∀ s, s.severed i = false → P s → Q (v s) s) :
    Keeps i P (Board.call c) (OrRaised Q) := by
  refine meets_perform hP (orRaised_stable hQ) fun s hs hI x r t ht => ?_
  rw [hserve] at ht
  obtain ⟨rfl, name, rfl⟩ | ⟨halive, ht⟩ := board_statement_eq ht
  · exact ⟨hI, fun j _ => (BoardWorld.others j).refl _, trivial⟩
  · cases ht
    exact ⟨hI, fun j _ => (BoardWorld.others j).refl _, hv s halive hs⟩

/-- The insert wins under its key, or yields to a committed row. -/
theorem keeps_insert (row : BlackboardEntryRow) :
    Keeps i (fun s => s.Idle i) (Board.call (.insert row)) (OrRaised fun (won : Option _) s =>
      match won with
      | some row' => row' = row ∧ s.Written i row
      | none => ∃ row', s.Holds row.toEntryKey row') := by
  refine meets_perform BoardWorld.idle_stable (orRaised_stable fun won => ?_)
    fun s hs hI x r t ht => ?_
  · match won with
    | some row' => exact fun _ _ hR h => ⟨h.1, BoardWorld.written_stable hR h.2⟩
    | none => exact fun _ _ hR ⟨row', h⟩ => ⟨row', BoardWorld.holds_stable hR h⟩
  obtain ⟨rfl, name, rfl⟩ | ⟨halive, ht⟩ := board_statement_eq ht
  · exact ⟨hI, fun j _ => (BoardWorld.others j).refl _, trivial⟩
  rw [hs.visible_eq halive] at ht
  split_ifs at ht with hany
  · cases ht
    refine ⟨hI, fun j _ => (BoardWorld.others j).refl _, ?_⟩
    obtain ⟨row', hrow', hk⟩ := any_eq_true.mp hany
    obtain ⟨r, hr, rfl⟩ := mem_map.mp hrow'
    exact ⟨r.row, ⟨r.author, hr⟩, of_decide_eq_true hk⟩
  · split at ht
    · cases ht
    · next hfree =>
      cases ht
      have hfresh : ∀ r ∈ s.rows, r.row.toEntryKey ≠ row.toEntryKey := fun r hr hk =>
        hany (any_eq_true.mpr ⟨r.row, mem_map_of_mem hr, decide_eq_true hk⟩)
      exact ⟨hI.write hfree hfresh,
        fun j hj => (LockedTable.acquire_undisturbed (.inl hfree) hj).trans
          (LockedTable.write_undisturbed hj),
        rfl, hs.unwritten, fun _ => Function.update_self ..⟩

/-- The read finds the row the insert yielded to. -/
theorem keeps_select (k : EntryKey) :
    Keeps i (fun s => ∃ row, s.Holds k row) (Board.call (.select k))
      (OrRaised fun (found : Option BlackboardEntryRow) s => ∃ row, found = some row ∧
        s.Holds k row) := by
  refine keeps_statement (v := fun s => (s.visible i).find? fun r => r.toEntryKey = k)
    (fun _ _ hR ⟨row, h⟩ => ⟨row, BoardWorld.holds_stable hR h⟩)
    (fun _ _ _ hR ⟨row, hfound, h⟩ => ⟨row, hfound, BoardWorld.holds_stable hR h⟩)
    (fun _ _ => rfl) fun s _ ⟨row, hrow⟩ => ?_
  obtain ⟨found, hfound⟩ := hrow.exists_entry
  refine ⟨found, ?_, BoardWorld.holds_of_entry hfound⟩
  exact find?_append.trans (congrArg (Option.or · _) hfound)

/-- The row is that of the proposal. -/
structure BlackboardProposal.Made (p : BlackboardProposal) (row : BlackboardEntryRow) : Prop where
  key : row.toEntryKey = p.toEntryKey
  value : row.valueRef = p.valueRef
  author : row.authorAgent = p.authorAgent

/-- What the two statements come to, before the commit. -/
def Attempted (i : ι) (p : BlackboardProposal) (s : BoardWorld ι) :
    BlackboardCommitResult ⊕ BlackboardEntryRow → Prop
  | .inl result => result.outcome = .committed ∧ p.Made result.entry ∧ s.Written i result.entry
  | .inr row => s.Holds p.toEntryKey row

variable {p : BlackboardProposal}

omit [DecidableEq ι] in
theorem attempted_stable (r : BlackboardCommitResult ⊕ BlackboardEntryRow) :
    (BoardWorld.others i).Stable fun s => Attempted i p s r := by
  intro s t hR h
  match r with
  | .inl result => exact ⟨h.1, h.2.1, BoardWorld.written_stable hR h.2.2⟩
  | .inr row => exact BoardWorld.holds_stable hR h

theorem attemptInsert_keeps (p : BlackboardProposal) : Keeps i (fun s => s.Idle i) (attemptInsert p)
      (OrRaised fun r s => Attempted i p s r) := by
  refine keeps_bind (Q := fun level s => requireReadCommitted level = .ok () ∧ s.Idle i) ?_
    fun level => ?_
  · refine meets_perform BoardWorld.idle_stable
      (orRaised_stable fun _ _ _ hR h => ⟨h.1, BoardWorld.idle_stable hR h.2⟩)
      fun s hs hI x r t ht => ?_
    cases ht
    refine ⟨hI, fun j _ => (BoardWorld.others j).refl _, ?_, hs⟩
    obtain ⟨raised, late, explicit⟩ := x
    cases explicit <;> rfl
  refine keeps_bind (Q := fun _ s => s.Idle i) ?_ fun _ => ?_
  · intro s hs
    rw [hs.1]
    exact fun t hR => BoardWorld.idle_stable hR hs.2
  refine keeps_bind (Q := fun _ s => s.Idle i) ?_ fun now => ?_
  · refine meets_perform BoardWorld.idle_stable (orRaised_stable fun _ => BoardWorld.idle_stable)
      fun s hs hI x r t ht => ?_
    cases ht
    exact ⟨hI, fun j _ => (BoardWorld.others j).refl _, hs⟩
  refine keeps_bind (keeps_insert _) fun won => ?_
  match won with
  | some row =>
    rintro s ⟨rfl, hwritten⟩
    exact fun t hR => ⟨rfl, ⟨rfl, rfl, rfl⟩, BoardWorld.written_stable hR hwritten⟩
  | none =>
    refine keeps_bind (keeps_select _) fun existing => ?_
    rintro s ⟨row, rfl, hrow⟩
    exact fun t hR => BoardWorld.holds_stable hR hrow

/-- The transaction of a commit: a row that was written is stored. -/
theorem inTransaction_keeps {project : ProjectId} {body : Board α}
    {R : α → BoardWorld ι → Prop} (hP : (BoardWorld.others i).Stable P)
    (hQ : ∀ a, (BoardWorld.others i).Stable (Q a)) (hR : ∀ a, (BoardWorld.others i).Stable (R a))
    (hcommit : ∀ a s, s.severed i = false → Q a s → R a (s.update (·.commit i)))
    (hbody : Keeps i P body (OrRaised Q)) :
    Keeps i P (inTransaction project body) (OrRaised R) := by
  refine keeps_bind (Q := fun _ => P) ?_ fun _ => keeps_bind (Q := Q) ?_ fun a => ?_
  · exact keeps_statement (v := fun _ => ()) hP (fun _ => hP) (fun _ _ => rfl) fun _ _ => id
  · refine meets_tryCatch hbody (fun e => ?_) hQ fun _ _ => id
    cases e with
    | raised name =>
      refine keeps_bind (Q := fun _ _ => True) ?_ fun _ _ _ _ _ => trivial
      refine meets_perform (fun _ _ _ _ => trivial) (orRaised_stable fun _ _ _ _ _ => trivial)
        fun s _ hI x r t ht => ?_
      cases ht
      exact ⟨hI.finish i, fun j hj => LockedTable.finish_undisturbed hj, trivial⟩
    | keyConflict _ _ _ _ | commitUnresolved _ | valueError _ => exact fun _ h => h.elim
  · refine keeps_bind (Q := fun _ => R a) ?_ fun _ _ h t ht => hR a ht h
    refine meets_perform (hQ a) (orRaised_stable fun _ => hR a) fun s hs hI x r t ht => ?_
    rw [serveBoard] at ht
    split at ht
    · cases ht
      exact ⟨hI, fun j _ => (BoardWorld.others j).refl _, trivial⟩
    · next halive =>
      split at ht
      · cases ht
        exact ⟨hI.commit i, fun j hj => LockedTable.commit_undisturbed hI.guarded hj,
          hcommit a s (Bool.eq_false_of_not_eq_true halive) hs⟩
      · cases ht
        cases x.late with
        | true => exact ⟨hI.commit i,
            fun j hj => LockedTable.commit_undisturbed hI.guarded hj, trivial⟩
        | false => exact ⟨hI.finish i, fun j hj => LockedTable.finish_undisturbed hj, trivial⟩

/-- What the two statements come to, after the commit. -/
def Filed (i : ι) (p : BlackboardProposal) (s : BoardWorld ι) :
    BlackboardCommitResult ⊕ BlackboardEntryRow → Prop
  | .inl result => result.outcome = .committed ∧ p.Made result.entry ∧
      ⟨some i, result.entry⟩ ∈ s.rows
  | .inr row => s.Holds p.toEntryKey row

omit [DecidableEq ι] in
theorem filed_stable (r : BlackboardCommitResult ⊕ BlackboardEntryRow) :
    (BoardWorld.others i).Stable fun s => Filed i p s r := by
  intro s t hR h
  match r with
  | .inl result => exact ⟨h.1, h.2.1, hR.mem_rows h.2.2⟩
  | .inr row => exact BoardWorld.holds_stable hR h

theorem filed_of_attempted {r : BlackboardCommitResult ⊕ BlackboardEntryRow}
    (halive : s.severed i = false) (h : Attempted i p s r) :
    Filed i p (s.update (·.commit i)) r := by
  match r with
  | .inl result => exact ⟨h.1, h.2.1, h.2.2.mem_commit halive⟩
  | .inr row =>
    obtain ⟨⟨author, hmem⟩, hk⟩ := h
    exact ⟨⟨author, mem_append_left _ hmem⟩, hk⟩

/-- What a commit reports when it has ended. -/
def Reports (i : ι) (scope : ProjectScope) (p : BlackboardProposal) (s : BoardWorld ι) :
    Except BlackboardError BlackboardCommitResult → Prop
  | .ok ⟨.committed, row⟩ => ⟨some i, row⟩ ∈ s.rows ∧ p.Made row
  | .ok ⟨.converged, row⟩ => s.Holds p.toEntryKey row ∧ row.valueRef = p.valueRef
  | .error (.keyConflict key branchId ref author) => ∃ row, s.Holds p.toEntryKey row ∧
      row.valueRef ≠ p.valueRef ∧ key = p.key ∧ branchId = p.branchId ∧ ref = row.valueRef ∧
        author = row.authorAgent
  | .error (.commitUnresolved _) => False
  | .error (.valueError _) => requireScope scope p ≠ .ok ()
  | .error (.raised _) => True

omit [DecidableEq ι] in
theorem reports_stable {scope : ProjectScope} (r : Except BlackboardError BlackboardCommitResult) :
    (BoardWorld.others i).Stable fun s => Reports i scope p s r := by
  intro s t hR h
  match r with
  | .ok ⟨.committed, row⟩ => exact ⟨hR.mem_rows h.1, h.2⟩
  | .ok ⟨.converged, row⟩ => exact ⟨BoardWorld.holds_stable hR h.1, h.2⟩
  | .error (.keyConflict key branchId ref author) =>
    obtain ⟨row, hrow, hrest⟩ := h
    exact ⟨row, BoardWorld.holds_stable hR hrow, hrest⟩
  | .error (.commitUnresolved _) => exact h
  | .error (.valueError _) => exact h
  | .error (.raised _) => trivial

/-- **A commit among others** reports its own row, or the row that was there before it. -/
theorem commitProposal_meets (p : BlackboardProposal) :
    Keeps i (fun s => s.Idle i) (commitProposal scope p) fun r s => Reports i scope p s r := by
  refine meets_bind (Q := fun r s => match r with
    | .ok _ => s.Idle i
    | .error e => Reports i scope p s (.error e)) ?_ (fun _ => ?_)
    (fun e => reports_stable (.error e)) fun _ _ => id
  · match hscope : requireScope scope p with
    | .ok () => exact meets_pure BoardWorld.idle_stable fun _ => id
    | .error e =>
      refine meets_throw BoardWorld.idle_stable fun s _ => ?_
      obtain ⟨message, rfl⟩ : ∃ message, e = .valueError message := by
        rw [requireScope] at hscope
        split_ifs at hscope <;> cases hscope <;> exact ⟨_, rfl⟩
      exact fun hok => (nomatch hscope.symm.trans hok)
  refine meets_bind (inTransaction_keeps BoardWorld.idle_stable attempted_stable
    (R := fun r s => Filed i p s r) filed_stable (fun _ _ => filed_of_attempted)
    (attemptInsert_keeps p)) (fun r => ?_) (fun e => reports_stable (.error e)) fun e s h => ?_
  · match r with
    | .inl ⟨outcome, row⟩ =>
      rintro s ⟨rfl, hk, hmem⟩
      exact fun t hR => ⟨hR.mem_rows hmem, hk⟩
    | .inr existing =>
      intro s hrow
      have hkey : ¬ p.toEntryKey ≠ existing.toEntryKey := not_not.mpr hrow.2.symm
      dsimp only
      rw [resolveAfterConflict]
      split_ifs with hvalue
      · exact fun t hR => ⟨BoardWorld.holds_stable hR hrow, hvalue⟩
      · exact fun t hR => ⟨existing, BoardWorld.holds_stable hR hrow, hvalue, rfl, rfl, rfl, rfl⟩
  · cases e with
    | raised name => trivial
    | keyConflict _ _ _ _ | commitUnresolved _ | valueError _ => exact h.elim

end Commit

/-! ### Runs -/

/-- Any number of commits against one database. -/
abbrev BoardPool (ι : Type) :=
  Pool ι BoardCall (fun c => Except BlackboardError c.Result)
    (Except BlackboardError BlackboardCommitResult × Unit) (BoardWorld ι)

/-- A pool of commits, before the first call of each. -/
def commits (scopes : ι → ProjectScope) (proposals : ι → BlackboardProposal) (s : BoardWorld ι) :
    BoardPool ι where
  programs i := commitProposal (scopes i) (proposals i) ()
  shared := s

/-- The pool after a run. -/
def boardAfter (scopes : ι → ProjectScope) (proposals : ι → BlackboardProposal)
    (s : BoardWorld ι) (moves : List (Move ι BoardChance (BoardDrift ι))) : BoardPool ι :=
  Runs.exec (Pool.step serveBoard driftBoard) (commits scopes proposals s) moves

omit [DecidableEq ι] in
/-- Rows added at the end leave an entry as it is. -/
theorem BoardWorld.entry_of_rows (hrows : s.rows <+: t.rows) (h : s.entry k = some row) :
    t.entry k = some row := by
  obtain ⟨added, hadded⟩ := hrows
  rw [entry, ← hadded, map_append]
  exact find?_append.trans (congrArg (Option.or · _) h)

/-- No call removes or changes a row. -/
theorem serveBoard_rows {r : Except BlackboardError c.Result}
    (h : serveBoard i x s c = some (r, t)) : s.rows <+: t.rows := by
  cases c with
  | begin project | select k =>
    obtain ⟨rfl, -⟩ | ⟨-, h⟩ := board_statement_eq h
    · exact prefix_rfl
    · cases h
      exact prefix_rfl
  | isolationLevel | now | rollback =>
    cases h
    exact prefix_rfl
  | insert row =>
    obtain ⟨rfl, -⟩ | ⟨-, h⟩ := board_statement_eq h
    · exact prefix_rfl
    split_ifs at h
    · cases h
      exact prefix_rfl
    · split at h
      · cases h
      · cases h
        exact prefix_rfl
  | commit =>
    rw [serveBoard] at h
    split at h
    · cases h
      exact prefix_rfl
    · split at h
      · cases h
        exact prefix_append _ _
      · cases h
        cases x.late with
        | true => exact prefix_append _ _
        | false => exact prefix_rfl

section Runs

variable (scopes : ι → ProjectScope) (proposals : ι → BlackboardProposal)
  (rows : {l : List BlackboardEntryRow // Table.Keyed BlackboardEntryRow.toEntryKey l}) (clock : ℤ)
  (moves : List (Move ι BoardChance (BoardDrift ι)))

/-- A move keeps the entry of a key. -/
theorem step_entry {p : BoardPool ι} (m : Move ι BoardChance (BoardDrift ι))
    (h : p.shared.entry k = some row) :
    (p.step serveBoard driftBoard m).shared.entry k = some row := by
  cases m with
  | world w => cases w <;> exact h
  | program i x =>
    rw [Pool.step]
    split
    · split
      · next hserve =>
        exact BoardWorld.entry_of_rows (serveBoard_rows hserve) h
      · exact h
    · exact h

/-- **Once a key has a row, it keeps it**: whatever happens after, the value and the author stored
under the key are the same. -/
theorem entry_write_once (more : List (Move ι BoardChance (BoardDrift ι)))
    (h : (boardAfter scopes proposals (.start rows clock) moves).shared.entry k = some row) :
    (boardAfter scopes proposals (.start rows clock) (moves ++ more)).shared.entry k =
      some row := by
  rw [boardAfter, Runs.exec_append]
  exact Runs.exec_invariant (I := fun p : BoardPool ι => p.shared.entry k = some row) h
    fun _ m _ hp => step_entry m hp

/-- The commit came to a decision: it was not rejected for its scope, and no exception of the
driver cut it short. -/
def Completes : Except BlackboardError BlackboardCommitResult → Prop
  | .error (.raised _) | .error (.valueError _) => False
  | _ => True

/-- What the commits of a pool report agrees with the one row of each key. -/
structure WriteOnce (p : BoardPool ι) : Prop where
  winner : ∀ i row, p.programs i = .done (.ok ⟨.committed, row⟩, ()) →
    p.shared.entry (proposals i).toEntryKey = some row ∧ (proposals i).Made row
  single : ∀ i j row row', p.programs i = .done (.ok ⟨.committed, row⟩, ()) →
    p.programs j = .done (.ok ⟨.committed, row'⟩, ()) →
    (proposals i).toEntryKey = (proposals j).toEntryKey → i = j
  loser : ∀ i r, p.programs i = .done (r, ()) → Completes r →
    (∀ row, r ≠ .ok ⟨.committed, row⟩) →
    ∃ stored, p.shared.entry (proposals i).toEntryKey = some stored ∧
      (r = .ok ⟨.converged, stored⟩ ↔ stored.valueRef = (proposals i).valueRef) ∧
      (r = .error (.keyConflict (proposals i).key (proposals i).branchId stored.valueRef
        stored.authorAgent) ↔ stored.valueRef ≠ (proposals i).valueRef)
  resolved : ∀ i message, p.programs i ≠ .done (.error (.commitUnresolved message), ())

omit [DecidableEq ι] in
theorem start_unique : (BoardWorld.start rows clock : BoardWorld ι).Unique := by
  refine ⟨?_, nofun, nofun⟩
  have : (rows.1.map (StoredRow.mk (none : Option ι))).map (fun r => r.row.toEntryKey) =
      rows.1.map BlackboardEntryRow.toEntryKey := by
    rw [map_map]
    rfl
  rw [Keyed, BoardWorld.start, this]
  exact rows.2

omit [DecidableEq ι] in
theorem start_idle_board (i : ι) : (BoardWorld.start rows clock : BoardWorld ι).Idle i := by
  refine ⟨fun r hr => ?_, fun _ => rfl⟩
  obtain ⟨row, -, rfl⟩ := mem_map.mp hr
  exact nofun

/-- **Every run of commits is safe.** -/
theorem boardAfter_safe : (boardAfter scopes proposals (.start rows clock) moves).IsSafe
    serveBoard BoardWorld.Unique BoardWorld.others
    (fun i s t => ∀ j, j ≠ i → BoardWorld.others j s t)
    fun i r s => Reports i (scopes i) (proposals i) s r.1 := by
  refine run_safe (fun _ j _ _ hij _ hG => hG j (Ne.symm hij)) (fun w s hI => ?_) ?_ moves
  · cases w with
    | tick elapsed => exact ⟨⟨hI.keys, hI.guarded, hI.fresh⟩, fun i => .refl i _⟩
    | sever i =>
      have hfinish := hI.finish i
      exact ⟨⟨hfinish.keys, hI.guarded.sever i, hfinish.fresh⟩,
        fun j => LockedTable.sever_undisturbed j⟩
  · exact ⟨start_unique rows clock, fun i =>
      commitProposal_meets (scopes i) (proposals i) _ (start_idle_board rows clock i)⟩

/-- **Blackboard keys are written once.** In every run, however the commits are interleaved and
whatever fails: at most one commit of a key wins, its row stays, and every other commit that
completes converges on that row or names it as the winner, according to its value. -/
theorem blackboard_write_once :
    WriteOnce proposals (boardAfter scopes proposals (.start rows clock) moves) ∧
    ∀ more k row, (boardAfter scopes proposals (.start rows clock) moves).shared.entry k =
      some row → (boardAfter scopes proposals (.start rows clock) (moves ++ more)).shared.entry k =
      some row := by
  have hsafe := boardAfter_safe scopes proposals rows clock moves
  refine ⟨⟨fun i row hi => ?_, fun i j row row' hi hj hkey => ?_, fun i r hi hcompletes hlost => ?_,
    fun i message hi => hsafe.post hi⟩,
    fun more k row => entry_write_once scopes proposals rows clock moves more⟩
  · obtain ⟨hmem, hmade⟩ := hsafe.post hi
    exact ⟨hsafe.1.entry_eq ⟨⟨_, hmem⟩, hmade.key⟩, hmade⟩
  · obtain ⟨hmem, hmade⟩ := hsafe.post hi
    obtain ⟨hmem', hmade'⟩ := hsafe.post hj
    have heq := hsafe.1.keys.eq_of_key hmem hmem' (hmade.key.trans (hkey.trans hmade'.key.symm))
    exact Option.some.inj (congrArg StoredRow.author heq)
  · have hreport := hsafe.post hi
    match r with
    | .ok ⟨.committed, row⟩ => exact absurd rfl (hlost row)
    | .ok ⟨.converged, row⟩ =>
      obtain ⟨hrow, hvalue⟩ := hreport
      exact ⟨row, hsafe.1.entry_eq hrow, by simp [hvalue], by simp [hvalue]⟩
    | .error (.keyConflict key branchId ref author) =>
      obtain ⟨row, hrow, hvalue, rfl, rfl, rfl, rfl⟩ := hreport
      exact ⟨row, hsafe.1.entry_eq hrow, by simp [hvalue], by simp [hvalue]⟩
    | .error (.commitUnresolved message) => exact hreport.elim
    | .error (.valueError message) => exact hcompletes.elim
    | .error (.raised name) => exact hcompletes.elim

end Runs

end World

end Tracebed
