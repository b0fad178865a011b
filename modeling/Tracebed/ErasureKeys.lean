import Tracebed.ErasureCompletion

/-!
# Erased Keys Stay Erased

Keys are inserted by transactions that hold the project lock shared from their snapshot to
their end, while a request and a crypto step hold it exclusively. `Backends` has the committed
database and one open transaction per backend; `Backends.Step` interleaves their statements with
whole calls of the other routines. After the crypto step the fence of the subject is down for
good, so no later snapshot admits its key (`erased_key_never_returns`).
-/

open Py Fallible Table List Function

namespace Tracebed.Erasure

variable {C : Cluster} {db db' : Database} {p r : UUID} {q : RequestRow}

/-! ### Open transactions -/

/-- The rows a bind writes: fences inserted live unless their key is taken, closure columns of
requests, and changes of the tables that no key depends on. -/
structure BindWrites where
  fences : List (UUID × Digest)
  closure : UUID × UUID → Option (ℕ × Digest)
  runFences : List RunFence → List RunFence
  runSet : List RunSetRow → List RunSetRow
  memSet : List MemSetRow → List MemSetRow
  primary : (PrimaryTable → List PrimaryRow) → PrimaryTable → List PrimaryRow

variable (w : BindWrites)

/-- The request with its new closure columns. -/
def BindWrites.request (q : RequestRow) : RequestRow :=
  match w.closure q.key with
  | some (revision, digest) => { q with closureRevision := revision, closureDigest := digest }
  | none => q

def BindWrites.apply (db : Database) : Database :=
  { db with
    requests := db.requests.map w.request
    subjectFences := insertAll SubjectFence.key (w.fences.map fun f => ⟨f.1, f.2, .live⟩)
      db.subjectFences
    runFences := w.runFences db.runFences
    runSet := w.runSet db.runSet
    memSet := w.memSet db.memSet
    primary := w.primary db.primary }

/-- What a statement leaves in its transaction: the capability of a snapshot, a key, or the
writes of a bind under the lock of its project. -/
inductive Statement where
  | snapshot (capability : SnapshotCapability)
  | key (row : SubjectKeyRow)
  | bind (project : UUID) (writes : BindWrites)

namespace Statement

/-- The writes of a statement applied. -/
def apply (db : Database) : Statement → Database
  | snapshot _ => db
  | key row => { db with subjectKeys := insertNew SubjectKeyRow.key row db.subjectKeys }
  | bind _ writes => writes.apply db

/-- The project whose lock a statement takes shared. -/
def lock : Statement → Option UUID
  | snapshot capability => some capability.projectId
  | key _ => none
  | bind project _ => some project

/-- The capability a statement mints. -/
def capability? : Statement → Option SnapshotCapability
  | snapshot capability => some capability
  | _ => none

end Statement

/-- The statements of an open transaction, the newest first. -/
abbrev Transaction := List Statement

/-- The projects whose locks a transaction holds shared. -/
def Transaction.shared (t : Transaction) : List UUID := t.filterMap Statement.lock

def Transaction.capability? (t : Transaction) : Option SnapshotCapability :=
  t.findSome? Statement.capability?

/-- The committed database and the open transaction of every backend. -/
structure Backends where
  committed : Database
  transaction : ℕ → Transaction

namespace Backends

variable (s : Backends) (i : ℕ)

/-- What a backend sees: the committed database under its own writes. -/
def view : Database := (s.transaction i).foldr (fun w db => w.apply db) s.committed

/-- A backend with another open transaction. -/
def set (t : Transaction) : Backends := { s with transaction := update s.transaction i t }

/-- One more statement of a backend. -/
def issue (w : Statement) : Backends := s.set i (w :: s.transaction i)

end Backends

/-- The project whose lock a call takes exclusively, for its one transaction. -/
def Call.lockedProject : Call → Option UUID
  | requestErasure args _ => some args.projectId
  | cryptoStep c _ => some c.projectId
  | sealTraceManifest c .. => some c.projectId
  | preparePrimary c _ => some c.projectId
  | primaryBatch c .. => some c.projectId
  | externalWorkBatch c .. => some c.projectId
  | markExternalWork c .. => some c.projectId
  | closeExternalStep c .. => some c.projectId
  | verifyAndComplete c _ => some c.projectId
  | _ => none

/-- No open transaction stands in the way of an exclusive lock. -/
def Backends.LockFree (s : Backends) (project : UUID) : Prop :=
  ∀ i, project ∉ (s.transaction i).shared

/-- A call that takes no shared lock. -/
def Call.isBind : Call → Bool
  | bindRunSubjectTags .. => true
  | _ => false

variable (C) in
/-- The steps of the backends: a whole call of a routine other than a bind, a statement of an
open transaction, its commit, or its rollback to an earlier statement. -/
inductive Backends.Step : Backends → Backends → Prop
  | call {s : Backends} {call : Call} {db' : Database} (hbind : call.isBind = false)
      (hlock : ∀ project ∈ call.lockedProject, s.LockFree project)
      (h : call.perform C s.committed = .ok db') : Step s { s with committed := db' }
  | snapshot {s : Backends} {i : ℕ} {project run : UUID} {expected : List Digest}
      {capability : SnapshotCapability}
      (h : lockRunSubjectSnapshot C project run expected (s.view i) = .ok capability) :
      Step s (s.issue i (.snapshot capability))
  | insertKey {s : Backends} {i : ℕ} {args : KeyArguments} {u : Unit} {db' : Database}
      (h : insertSubjectKey C (s.transaction i).capability? args (s.view i) = .ok (u, db')) :
      Step s (s.issue i (.key ⟨args.projectId, args.subjectDigest, args.keyId,
        .live args.wrappedKek⟩))
  | bind {s : Backends} {i : ℕ} {args : BindArguments} {outcome : BindOutcome}
      {writes : BindWrites}
      (h : bindRunSubjectTags C args (s.view i) = .ok (outcome, writes.apply (s.view i))) :
      Step s (s.issue i (.bind args.projectId writes))
  | commit {s : Backends} (i : ℕ) :
      Step s { committed := s.view i, transaction := update s.transaction i [] }
  | rollback {s : Backends} (i n : ℕ) : Step s (s.set i ((s.transaction i).drop n))

/-- Before the first request and the first transaction. -/
structure Backends.Initial (s : Backends) : Prop where
  committed : s.committed.Initial
  transaction : ∀ i, s.transaction i = []

/-! ### What a bind writes -/

/-- The request as the writes of a bind leave it. -/
theorem BindWrites.request_eq (q : RequestRow) :
    Follows q (w.request q) ∧ (w.request q).disposition = q.disposition := by
  rw [BindWrites.request]
  split
  · exact ⟨⟨rfl, rfl, rfl, rfl, id, id⟩, rfl⟩
  · exact ⟨.refl q, rfl⟩

/-- A change that the rows of a bind explain. -/
def IsBindWrite (db db' : Database) : Prop := ∃ w : BindWrites, db' = w.apply db

namespace IsBindWrite

variable {db'' : Database}

/-- A change of the tables that no key depends on. -/
theorem of_others (runFences : List RunFence) (runSet : List RunSetRow) (memSet : List MemSetRow)
    (primary : PrimaryTable → List PrimaryRow) : IsBindWrite db { db with
        runFences := runFences, runSet := runSet, memSet := memSet, primary := primary } := by
  refine ⟨⟨[], fun _ => none, fun _ => runFences, fun _ => runSet, fun _ => memSet,
    fun _ => primary⟩, ?_⟩
  have hrequests : db.requests.map (BindWrites.request ⟨[], fun _ => none, fun _ => runFences,
      fun _ => runSet, fun _ => memSet, fun _ => primary⟩) = db.requests := map_id _
  rw [BindWrites.apply, hrequests]
  rfl

theorem refl (db : Database) : IsBindWrite db db :=
  of_others db.runFences db.runSet db.memSet db.primary

/-- The closure columns of one request. -/
theorem of_closure (revision : ℕ) (digest : Digest) : IsBindWrite db
    (db.updateRequest p r fun q =>
      { q with closureRevision := revision, closureDigest := digest }) := by
  refine ⟨⟨[], fun k => if k = (p, r) then some (revision, digest) else none, id, id, id, id⟩, ?_⟩
  rw [Database.updateRequest]
  congr 1
  refine map_congr_left fun q _ => ?_
  by_cases hkey : isRequest p r q = true
  · have hpair : q.key = (p, r) := Prod.ext_iff.mpr (isRequest_eq_true.mp hkey)
    simp [if_pos hkey, BindWrites.request, if_pos hpair]
  · have hpair : q.key ≠ (p, r) := fun h =>
      hkey (isRequest_eq_true.mpr (Prod.ext_iff.mp h))
    simp [if_neg hkey, BindWrites.request, if_neg hpair]

/-- Fences for digests that have none. -/
theorem of_fences (digests : List Digest) : IsBindWrite db (ensureSubjectFences p digests db) := by
  refine ⟨⟨digests.map (p, ·), fun _ => none, id, id, id, id⟩, ?_⟩
  have hrequests : db.requests.map (BindWrites.request ⟨digests.map (p, ·), fun _ => none, id, id,
      id, id⟩) = db.requests := map_id _
  rw [BindWrites.apply, hrequests, map_map]
  rfl

theorem trans (h : IsBindWrite db db') (h' : IsBindWrite db' db'') : IsBindWrite db db'' := by
  obtain ⟨w, rfl⟩ := h
  obtain ⟨w', rfl⟩ := h'
  refine ⟨⟨w.fences ++ w'.fences, fun k => w'.closure k <|> w.closure k,
    w'.runFences ∘ w.runFences, w'.runSet ∘ w.runSet, w'.memSet ∘ w.memSet,
    w'.primary ∘ w.primary⟩, ?_⟩
  simp only [BindWrites.apply, map_map, map_append, insertAll, foldl_append]
  congr 1
  refine map_congr_left fun q _ => ?_
  have hkey : (w.request q).key = q.key :=
    Prod.ext (w.request_eq q).1.projectId (w.request_eq q).1.requestId
  simp only [comp, BindWrites.request] at hkey ⊢
  rw [hkey]
  cases w.closure q.key <;> cases w'.closure q.key <;> rfl

end IsBindWrite

theorem captureLate_isBindWrite {run : UUID} (h : captureLate C p r run db = .ok db') :
    IsBindWrite db db' := by
  obtain ⟨captured, memories, hcaptured, hend⟩ := captureLate_eq_ok h
  have hwrite : IsBindWrite db captured := by
    rw [hcaptured]
    exact .of_others db.runFences _ _ db.primary
  obtain ⟨rfl, -⟩ | ⟨q, runs, new, digest, -, rfl⟩ := hend
  · exact hwrite
  have hstamp : IsBindWrite captured (stampLate p r runs new (q.closureRevision + 1) captured) :=
    .of_others captured.runFences _ _ captured.primary
  exact (hwrite.trans hstamp).trans (.of_closure _ _)

/-- **What a bind does to the database is a set of row writes**, so that every bind that returns
is a statement of the transaction that issues it. -/
theorem bindRunSubjectTags_writes {args : BindArguments} {outcome : BindOutcome}
    (h : bindRunSubjectTags C args db = .ok (outcome, db')) : IsBindWrite db db' := by
  obtain rfl | ⟨db₁, full, bound, primary, hfences, hbound, hend⟩ := bindRunSubjectTags_eq_ok h
  · exact .refl _
  have hwrite : IsBindWrite db bound := by
    rw [hbound, hfences]
    exact .trans (.of_fences full) (.of_others _ db.runSet db.memSet primary)
  obtain rfl | ⟨request, hlate⟩ := hend
  · exact hwrite
  refine (hwrite.trans ?_).trans (captureLate_isBindWrite hlate)
  split
  · exact .of_others _ bound.runSet bound.memSet bound.primary
  · exact .refl _

/-! ### What no open transaction changes -/

/-- The fence of a subject is down. -/
def Fallen (db : Database) (project : UUID) (digest : Digest) : Prop :=
  ∃ f ∈ db.subjectFences, f.key = (project, digest) ∧ f.state ≠ .live

theorem mem_fenceHolders {digests : List Digest} : r ∈ fenceHolders db p digests ↔
    ∃ f ∈ db.subjectFences, f.projectId = p ∧ f.subjectDigest ∈ digests ∧
      f.state.requestId = some r := by
  simp [fenceHolders, and_assoc]

/-- A fence that is down has a holder. -/
theorem Fallen.fenceHolders_ne_nil {d : Digest} {digests : List Digest} (h : Fallen db p d)
    (hd : d ∈ digests) : fenceHolders db p digests ≠ [] := by
  obtain ⟨f, hf, hkey, hlive⟩ := h
  obtain ⟨hp, rfl⟩ := Prod.mk.inj hkey
  have hholder : ∃ r, f.state.requestId = some r := by
    cases hstate : f.state with
    | live => exact absurd hstate hlive
    | fenced r | erased r => exact ⟨r, rfl⟩
  obtain ⟨r, hr⟩ := hholder
  exact ne_nil_of_mem (mem_fenceHolders.mpr ⟨f, hf, hp, hd, hr⟩)

/-- Requests are disposed of as before, and the same fences are down. -/
structure Undisturbed (db db' : Database) : Prop where
  requests : ∃ f, db'.requests = db.requests.map f ∧
    ∀ q, Follows q (f q) ∧ (f q).disposition = q.disposition
  fallen : ∀ p d, Fallen db' p d ↔ Fallen db p d

namespace Undisturbed

variable {db'' : Database}

theorem refl (db : Database) : Undisturbed db db :=
  ⟨⟨id, (map_id _).symm, fun q => ⟨.refl q, rfl⟩⟩, fun _ _ => Iff.rfl⟩

theorem trans (h : Undisturbed db db') (h' : Undisturbed db' db'') : Undisturbed db db'' where
  requests := by
    obtain ⟨f, heq, hf⟩ := h.requests
    obtain ⟨g, heq', hg⟩ := h'.requests
    refine ⟨g ∘ f, by rw [heq', heq, map_map], fun q => ?_⟩
    exact ⟨(hf q).1.trans (hg (f q)).1, (hg (f q)).2.trans (hf q).2⟩
  fallen := fun p d => (h'.fallen p d).trans (h.fallen p d)

theorem followed (h : Undisturbed db db') : Followed db db' := by
  obtain ⟨f, heq, hf⟩ := h.requests
  exact ⟨f, heq, fun q _ => (hf q).1⟩

/-- A project is quiesced as before. -/
theorem isQuiesced_eq (h : Undisturbed db db') (p : UUID) : isQuiesced db' p = isQuiesced db p := by
  obtain ⟨f, heq, hf⟩ := h.requests
  rw [isQuiesced, heq, any_map]
  refine any_congr rfl fun q => ?_
  obtain ⟨hfollows, hdisposition⟩ := hf q
  simp [isBlocking, hfollows.projectId, hfollows.scope, hdisposition]

end Undisturbed

/-- Inserting live fences lets none fall and raises none. -/
theorem fallen_insertAll {new : List SubjectFence} (hnew : ∀ f ∈ new, f.state = .live)
    (heq : db'.subjectFences = insertAll SubjectFence.key new db.subjectFences)
    (p : UUID) (d : Digest) : Fallen db' p d ↔ Fallen db p d := by
  rw [Fallen, heq]
  constructor
  · rintro ⟨f, hf, hkey, hlive⟩
    rcases mem_insertAll hf with hold | ⟨hf', -⟩
    · exact ⟨f, hold, hkey, hlive⟩
    · exact absurd (hnew f hf') hlive
  · rintro ⟨f, hf, hkey, hlive⟩
    exact ⟨f, subset_insertAll _ _ hf, hkey, hlive⟩

theorem Statement.apply_undisturbed (w : Statement) (db : Database) :
    Undisturbed db (w.apply db) := by
  cases w with
  | snapshot capability => exact .refl db
  | key row =>
    exact ⟨⟨id, (map_id _).symm, fun q => ⟨.refl q, rfl⟩⟩, fun _ _ => Iff.rfl⟩
  | bind project writes =>
    refine ⟨⟨writes.request, rfl, writes.request_eq⟩, fallen_insertAll ?_ rfl⟩
    intro f hf
    obtain ⟨_, -, rfl⟩ := mem_map.mp hf
    rfl

theorem Backends.view_undisturbed (s : Backends) (i : ℕ) : Undisturbed s.committed (s.view i) := by
  rw [Backends.view]
  induction s.transaction i with
  | nil => exact .refl _
  | cons w t ih => exact ih.trans (w.apply_undisturbed _)

/-! ### Guarded databases -/

def ProjectRequested (db : Database) (project : UUID) : Prop :=
  ∃ q ∈ db.requests, q.projectId = project ∧ q.scope = .project

/-- The fence of every requested subject is down, unless the leaves of its project are gone with
a project request, and past the crypto step no key of the scope is live. The reserved subject
is exempt: its key is admitted with every snapshot. -/
structure Database.Guarded (C : Cluster) (db : Database) : Prop where
  standing : db.Standing
  fallen : ∀ q ∈ db.requests, ∀ d, q.scope = .subject d →
    Fallen db q.projectId d ∨ ProjectRequested db q.projectId
  erased : ∀ q ∈ db.requests, q.phase.isErased = true →
    q.scope ≠ .subject (projectDigest C q.projectId) → ∀ k ∈ db.subjectKeys,
      keyInScope q k = false

variable {k : SubjectKeyRow}

/-- The key is in the scope of a request and live. -/
theorem keyInScope_eq_true : keyInScope q k = true ↔
    k.projectId = q.projectId ∧ k.state.isLive = true ∧
      (q.scope = .project ∨ q.scope = .subject k.subjectDigest) := by
  rw [keyInScope, Bool.and_eq_true, Bool.and_eq_true, and_assoc]
  cases q.scope with
  | subject d =>
    simp [eq_comm (a := d)]
  | project => simp

/-- What a snapshot has found and its lock keeps true. -/
structure Current (db : Database) (capability : SnapshotCapability) : Prop where
  quiet : isQuiesced db capability.projectId = false
  standing : ∀ d ∈ capability.subjectDigests, ¬ Fallen db capability.projectId d

/-- The request is there later, and no less erased. -/
def Lasts (db db' : Database) : Prop :=
  ∀ q ∈ db.requests, ∃ q' ∈ db'.requests, q'.projectId = q.projectId ∧ q'.scope = q.scope ∧
    (q.phase.isErased = true → q'.phase.isErased = true)

theorem Followed.lasts (h : Followed db db') : Lasts db db' := by
  intro q hq
  obtain ⟨q', hq', hfollows⟩ := h.exists_after hq
  exact ⟨q', hq', hfollows.projectId, hfollows.scope, fun he => hfollows.erased.trans he⟩

variable {db'' : Database}

theorem Lasts.trans (h : Lasts db db') (h' : Lasts db' db'') : Lasts db db'' := by
  intro q hq
  obtain ⟨q', hq', hp, hs, he⟩ := h q hq
  obtain ⟨q'', hq'', hp', hs', he'⟩ := h' q' hq'
  exact ⟨q'', hq'', hp'.trans hp, hs'.trans hs, he' ∘ he⟩

/-- A request for the whole project stays. -/
theorem Lasts.projectRequested (h : Lasts db db') (hp : ProjectRequested db p) :
    ProjectRequested db' p := by
  obtain ⟨q, hq, hqp, hs⟩ := hp
  obtain ⟨q', hq', hqp', hs', -⟩ := h q hq
  exact ⟨q', hq', hqp'.trans hqp, hs'.trans hs⟩

/-- A request for the whole project quiesces it for good. -/
theorem not_projectRequested (h : isQuiesced db p = false) : ¬ ProjectRequested db p := by
  rintro ⟨q, hq, hp, hs⟩
  have := any_eq_false.mp h q hq
  simp [isBlocking, hp, hs] at this

/-- Guarding needs no more than that later requests follow earlier ones, that what had fallen
still has and that no key of an erased scope comes to life. -/
theorem Database.Guarded.of_followed (hdb : db.Guarded C) (h : Followed db db')
    (hfallen : ∀ p d, Fallen db p d → Fallen db' p d ∨ ProjectRequested db' p)
    (hkeys : ∀ k ∈ db'.subjectKeys, k.state.isLive = true → k ∈ db.subjectKeys ∨
      ∀ q ∈ db.requests, q.scope ≠ .subject (projectDigest C q.projectId) →
        keyInScope q k = false) :
    db'.Guarded C where
  standing := h.standing hdb.standing
  fallen := fun q' hq' d hs => by
    obtain ⟨q, hq, hfollows⟩ := h.exists_before hq'
    rw [hfollows.projectId]
    rcases hdb.fallen q hq d (hfollows.scope.symm.trans hs) with hd | hproject
    · exact hfallen _ _ hd
    · exact .inr (h.lasts.projectRequested hproject)
  erased := fun q' hq' he hs k hk => by
    obtain ⟨q, hq, hfollows⟩ := h.exists_before hq'
    rw [hfollows.scope, hfollows.projectId] at hs
    refine Bool.eq_false_iff.mpr fun hin => ?_
    obtain ⟨hp, hlive, hscope⟩ := keyInScope_eq_true.mp hin
    have hout : keyInScope q k = false := (hkeys k hk hlive).elim
      (hdb.erased q hq (hfollows.erased.symm.trans he) hs k) fun hnew => hnew q hq hs
    rw [hfollows.projectId] at hp
    rw [hfollows.scope] at hscope
    exact Bool.eq_false_iff.mp hout (keyInScope_eq_true.mpr ⟨hp, hlive, hscope⟩)

/-- What had fallen still has after a tame change. -/
theorem Tame.fallen {d : Digest} (h : Tame db db') (hd : Fallen db p d) :
    Fallen db' p d ∨ ProjectRequested db' p := by
  obtain ⟨f, hf, hkey, hlive⟩ := hd
  rcases h.fences_kept f hf hlive with ⟨f', hf', hkey', hlive'⟩ | hgone
  · exact .inl ⟨f', hf', hkey'.trans hkey, hlive'⟩
  · have hp : f.projectId = p := congrArg Prod.fst hkey
    exact .inr (hp ▸ hgone)

theorem Tame.guarded (h : Tame db db') (hdb : db.Guarded C) : db'.Guarded C :=
  hdb.of_followed h.requests (fun _ _ => h.fallen) fun k hk hlive => .inl (h.keys k hk hlive)

/-- A request that follows another blocks no more than it. -/
theorem Followed.quiet (h : Followed db db') (hquiet : isQuiesced db p = false) :
    isQuiesced db' p = false := by
  refine any_eq_false.mpr fun q' hq' hblocks => ?_
  obtain ⟨q, hq, hfollows⟩ := h.exists_before hq'
  have hpassed := any_eq_false.mp hquiet q hq
  simp only [isBlocking, Bool.and_eq_true, Bool.or_eq_true, decide_eq_true_eq, not_and, not_or,
    not_not, hfollows.projectId, hfollows.scope] at hblocks hpassed
  obtain ⟨hproject, hcomplete⟩ := hpassed hblocks.1
  exact hblocks.2.elim hproject fun hopen => hopen (hfollows.complete hcomplete)

theorem Tame.current {capability : SnapshotCapability} (h : Tame db db')
    (hcurrent : Current db capability) : Current db' capability where
  quiet := h.requests.quiet hcurrent.quiet
  standing := fun d hd hfallen => by
    obtain ⟨f', hf', hkey, hlive⟩ := hfallen
    obtain ⟨f, hf, hkey', hlive'⟩ := h.fences_new f' hf' hlive
    exact hcurrent.standing d hd ⟨f, hf, hkey'.trans hkey, hlive'⟩

/-! ### The calls that are not tame -/

/-- What a call owes to the keys and to the open transactions. -/
structure Owed (C : Cluster) (locked : Option UUID) (db db' : Database) : Prop where
  guarded : db.Guarded C → db'.Guarded C
  current : ∀ capability, capability.projectId ∉ locked → Current db capability →
    Current db' capability
  lasts : Lasts db db'

theorem Tame.owed (h : Tame db db') (locked : Option UUID) : Owed C locked db db' where
  guarded := h.guarded
  current := fun _ _ => h.current
  lasts := h.requests.lasts

theorem Owed.trans {locked : Option UUID} (h : Owed C locked db db') (h' : Owed C locked db' db'') :
    Owed C locked db db'' where
  guarded := h'.guarded ∘ h.guarded
  current := fun capability hp hc => h'.current capability hp (h.current capability hp hc)
  lasts := h.lasts.trans h'.lasts

/-- A row after an update of one request. -/
theorem mem_updateRequest (hdb : db.Standing) (hq : db.request? p r = some q)
    {f : RequestRow → RequestRow} {q' : RequestRow}
    (h : q' ∈ (db.updateRequest p r f).requests) : q' = f q ∨ q' ∈ db.requests := by
  obtain ⟨old, hold, rfl⟩ := mem_updateWhere.mp h
  split
  · next hkey =>
    obtain ⟨hp, hr⟩ := isRequest_eq_true.mp hkey
    obtain ⟨hp', hr'⟩ := request?_key hq
    have hsame : old.key = q.key := Prod.ext (hp.trans hp'.symm) (hr.trans hr'.symm)
    rw [hdb.keyed.eq_of_key hold (mem_of_find?_eq_some hq) hsame]
    exact .inl rfl
  · exact .inr hold

/-- The crypto step finishes no request. -/
theorem eraseRequest_standing (hdb : db.Standing) (hreq : db.request? p r = some q)
    (hincomplete : q.disposition ≠ .scopeComplete) :
    (db.updateRequest p r fun q => { q with phase := .cryptoErased }).Standing where
  keyed := hdb.keyed.updateWhere fun _ => rfl
  settled := fun q' hq' => by
    rcases mem_updateRequest hdb hreq hq' with rfl | hq'
    · exact fun h => absurd h hincomplete
    · exact hdb.settled q' hq'

/-- A request whose scope has no live key left becomes erased. -/
theorem eraseRequest_owed (hdb : db.Standing) (hreq : db.request? p r = some q)
    (hincomplete : q.disposition ≠ .scopeComplete)
    (hkeys : ∀ k ∈ db.subjectKeys, keyInScope q k = false) (locked : Option UUID) :
    Owed C locked db (db.updateRequest p r fun q => { q with phase := .cryptoErased }) := by
  have hmem : q ∈ db.requests := mem_of_find?_eq_some hreq
  have hlasts : Lasts db (db.updateRequest p r fun q => { q with phase := .cryptoErased }) := by
    intro other hother
    refine ⟨_, mem_updateWhere.mpr ⟨other, hother, rfl⟩, ?_⟩
    split
    · exact ⟨rfl, rfl, fun _ => rfl⟩
    · exact ⟨rfl, rfl, id⟩
  refine ⟨fun hguarded => ⟨eraseRequest_standing hdb hreq hincomplete, ?_, ?_⟩,
    fun capability _ hcurrent => ⟨?_, hcurrent.standing⟩, hlasts⟩
  · intro q' hq' d hs
    rcases mem_updateRequest hdb hreq hq' with rfl | hq'
    · exact (hguarded.fallen q hmem d hs).imp id hlasts.projectRequested
    · exact (hguarded.fallen q' hq' d hs).imp id hlasts.projectRequested
  · intro q' hq' he hs k hk
    rcases mem_updateRequest hdb hreq hq' with rfl | hq'
    · exact hkeys k hk
    · exact hguarded.erased q' hq' he hs k hk
  · refine any_eq_false.mpr fun q' hq' => ?_
    rcases mem_updateRequest hdb hreq hq' with rfl | hq'
    · exact any_eq_false.mp hcurrent.quiet q hmem
    · exact any_eq_false.mp hcurrent.quiet q' hq'

/-- Destroying keys brings none to life. -/
theorem destroyKeys_tame (q : RequestRow) (now : ℕ) (db : Database) :
    Tame db (destroyKeys q now db) where
  requests := .of_same rfl
  fences_kept := fun f hf hlive => .inl ⟨f, hf, rfl, hlive⟩
  fences_new := fun f hf hlive => ⟨f, hf, rfl, hlive⟩
  keys := fun k hk hlive => by
    obtain ⟨old, hold, rfl⟩ := mem_updateWhere.mp hk
    split at hlive
    · cases hlive
    · next hout => rwa [if_neg hout]
  runs := fun h => h.of_same rfl rfl

/-- No key of the scope survives. -/
theorem keyInScope_destroyKeys (q : RequestRow) (now : ℕ) (db : Database) :
    ∀ k ∈ (destroyKeys q now db).subjectKeys, keyInScope q k = false := by
  refine forall_updateWhere (fun k _ _ => ?_) fun _ _ hout => hout
  exact Bool.eq_false_iff.mpr fun h => nomatch (keyInScope_eq_true.mp h).2.1

variable {outcome : CryptoOutcome} {now : ℕ} {c : Credential}

theorem cryptoStep_owed (hdb : db.Standing) (h : cryptoStep C c now db = .ok (outcome, db'))
    (locked : Option UUID) :
    Owed C locked db db' := by
  obtain ⟨q, hq, ⟨rfl, -⟩ | ⟨entry, digest, -, -, hreceipt⟩⟩ := cryptoStep_eq_ok h
  · exact (Tame.refl _).owed locked
  · obtain ⟨-, hreq, -⟩ := assertLease_eq_ok.mp hq
    obtain ⟨hp, hr⟩ := request?_key hreq
    rw [← hp, ← hr] at hreq
    have hincomplete := ne_scopeComplete_of_assertLease hq
    have hdestroyed := destroyKeys_tame q now db
    have hstanding := hdestroyed.standing hdb
    have hreceipted :=
      Tame.appendReceipt (eraseRequest_standing hstanding hreq hincomplete) hreceipt
    have herased := eraseRequest_owed (C := C) hstanding hreq hincomplete
      (keyInScope_destroyKeys q now db) locked
    exact (hdestroyed.owed locked).trans (herased.trans (hreceipted.owed locked))

/-- The fences of one project fall. -/
structure OnlyFences (p : UUID) (db db' : Database) : Prop where
  requests : db'.requests = db.requests
  subjectKeys : db'.subjectKeys = db.subjectKeys
  kept : ∀ p' d, Fallen db p' d → Fallen db' p' d
  elsewhere : ∀ p' d, p' ≠ p → Fallen db' p' d → Fallen db p' d

namespace OnlyFences

/-- A change beside the fences. -/
theorem of_same (hrequests : db'.requests = db.requests) (hkeys : db'.subjectKeys = db.subjectKeys)
    (hfences : db'.subjectFences = db.subjectFences) : OnlyFences p db db' where
  requests := hrequests
  subjectKeys := hkeys
  kept := fun _ _ => by rw [Fallen, Fallen, hfences]; exact id
  elsewhere := fun _ _ _ => by rw [Fallen, hfences]; exact id

theorem trans (h : OnlyFences p db db') (h' : OnlyFences p db' db'') : OnlyFences p db db'' where
  requests := h'.requests.trans h.requests
  subjectKeys := h'.subjectKeys.trans h.subjectKeys
  kept := fun p' d => h'.kept p' d ∘ h.kept p' d
  elsewhere := fun p' d hne => h.elsewhere p' d hne ∘ h'.elsewhere p' d hne

end OnlyFences

theorem ensureSubjectFences_onlyFences (p : UUID) (digests : List Digest) (db : Database) :
    OnlyFences p db (ensureSubjectFences p digests db) := by
  have hfallen : ∀ p' d, Fallen (ensureSubjectFences p digests db) p' d ↔ Fallen db p' d := by
    refine fallen_insertAll (fun f hf => ?_) rfl
    obtain ⟨d, -, rfl⟩ := mem_map.mp hf
    rfl
  exact ⟨rfl, rfl, fun p' d => (hfallen p' d).mpr, fun p' d _ => (hfallen p' d).mp⟩

/-- The fence of the target falls, and no other. -/
theorem fenceTarget_onlyFences {scope : Scope} (h : fenceTarget p r scope db = .ok db') :
    OnlyFences p db db' ∧ ∀ d, scope = .subject d → Fallen db' p d := by
  cases scope with
  | project =>
    cases h
    exact ⟨.of_same rfl rfl rfl, nofun⟩
  | subject digest =>
    obtain ⟨_, hlive, h⟩ := bind_eq_ok.mp h
    cases h
    refine ⟨⟨rfl, rfl, fun p' d => ?_, fun p' d hne => ?_⟩, fun d hd => ?_⟩
    · rintro ⟨f, hf, hkey, hdown⟩
      refine ⟨_, mem_updateWhere.mpr ⟨f, hf, rfl⟩, ?_⟩
      split
      · exact ⟨hkey, nofun⟩
      · exact ⟨hkey, hdown⟩
    · rintro ⟨f', hf', hkey, hdown⟩
      obtain ⟨f, hf, rfl⟩ := mem_updateWhere.mp hf'
      split at hkey
      · next hrow =>
        rw [Bool.and_eq_true, decide_eq_true_eq] at hrow
        exact absurd ((congrArg Prod.fst hkey).symm.trans hrow.1) hne
      · next hrow =>
        rw [if_neg hrow] at hdown
        exact ⟨f, hf, hkey, hdown⟩
    · obtain rfl := Scope.subject.inj hd
      obtain ⟨f, hf, -⟩ := Option.map_eq_some_iff.mp (of_decide_eq_true (ensure_eq_ok.mp hlive))
      have hrow := find?_some hf
      refine ⟨_, mem_updateWhere_of (mem_of_find?_eq_some hf) hrow, ?_, nofun⟩
      rw [Bool.and_eq_true, decide_eq_true_eq, decide_eq_true_eq] at hrow
      exact Prod.ext hrow.1 hrow.2

variable {args : RequestArguments}

theorem captureClosure_onlyFences (h : captureClosure C args db = .ok db') :
    OnlyFences args.projectId db db' ∧
      ∀ d, args.scope C = .subject d → Fallen db' args.projectId d := by
  obtain ⟨db₁, hfence, h⟩ := bind_eq_ok.mp h
  obtain ⟨db₂, hruns, h⟩ := bind_eq_ok.mp h
  obtain ⟨memories, -, h⟩ := bind_eq_ok.mp h
  cases h
  obtain ⟨htarget, hfallen⟩ := fenceTarget_onlyFences hfence
  have hfold : OnlyFences args.projectId db₁ db₂ :=
    foldlM_preserves (I := OnlyFences args.projectId db₁) hruns (.of_same rfl rfl rfl)
      fun db run db' _ hrun hsofar => by
        obtain ⟨_, -, h⟩ := bind_eq_ok.mp hrun
        cases h
        exact hsofar.trans (.of_same rfl rfl rfl)
  have hmemories : OnlyFences args.projectId db₂
      (captureMemories args.projectId args.newRequestId memories db₂) := .of_same rfl rfl rfl
  have hlast := hfold.trans hmemories
  refine ⟨((ensureSubjectFences_onlyFences _ _ _).trans htarget).trans hlast, fun d hd => ?_⟩
  exact hlast.kept _ _ (hfallen d hd)

theorem addRequest_standing {new : RequestRow} (hdb : db.Standing)
    (hkey : new.key ∉ db.requests.map RequestRow.key)
    (hrequests : db'.requests = db.requests ++ [new])
    (hdisposition : new.disposition ≠ .scopeComplete) : db'.Standing := by
  refine ⟨?_, fun q hq => ?_⟩
  · rw [hrequests]
    exact hdb.keyed.append_singleton hkey
  · rw [hrequests, mem_append, mem_singleton] at hq
    rcases hq with hq | rfl
    · exact hdb.settled q hq
    · exact fun h => absurd h hdisposition

/-- A new request with its fence down. -/
theorem addRequest_owed {new : RequestRow} (hdb : db.Standing)
    (hkey : new.key ∉ db.requests.map RequestRow.key)
    (hrequests : db'.requests = db.requests ++ [new])
    (hkeys : db'.subjectKeys = db.subjectKeys) (hphase : new.phase.isErased = false)
    (hdisposition : new.disposition ≠ .scopeComplete)
    (hkept : ∀ p d, Fallen db p d → Fallen db' p d)
    (helsewhere : ∀ p d, p ≠ new.projectId → Fallen db' p d → Fallen db p d)
    (hfallen : ∀ d, new.scope = .subject d → Fallen db' new.projectId d) :
    Owed C (some new.projectId) db db' := by
  have hmem : ∀ q, q ∈ db'.requests ↔ q ∈ db.requests ∨ q = new := by simp [hrequests]
  have hlasts : Lasts db db' := fun q hq => ⟨q, (hmem q).mpr (.inl hq), rfl, rfl, id⟩
  refine ⟨fun hguarded => ⟨addRequest_standing hdb hkey hrequests hdisposition, ?_, ?_⟩,
    fun capability hp hcurrent => ⟨?_, ?_⟩, hlasts⟩
  · intro q hq d hs
    rcases (hmem q).mp hq with hq | rfl
    · exact (hguarded.fallen q hq d hs).imp (hkept _ _) hlasts.projectRequested
    · exact .inl (hfallen d hs)
  · intro q hq he hs k hk
    rw [hkeys] at hk
    rcases (hmem q).mp hq with hq | rfl
    · exact hguarded.erased q hq he hs k hk
    · rw [hphase] at he
      cases he
  · refine any_eq_false.mpr fun q hq => ?_
    rcases (hmem q).mp hq with hq | rfl
    · exact any_eq_false.mp hcurrent.quiet q hq
    · have hne : q.projectId ≠ capability.projectId := fun h => hp (congrArg some h)
      simp [isBlocking, hne]
  · exact fun d hd h => hcurrent.standing d hd
      (helsewhere _ d (fun h => hp (congrArg some h.symm)) h)

theorem requestErasure_owed (hdb : db.Standing) {request : UUID}
    (h : requestErasure C args now db = .ok (request, db')) :
    Owed C (some args.projectId) db db' := by
  obtain ⟨-, rfl⟩ | ⟨db₁, closure, entry, digest, -, -, hnone, hclosure, -, hreceipt⟩ :=
    requestErasure_eq_ok h
  · exact (Tame.refl _).owed _
  obtain ⟨honly, hfallen⟩ := captureClosure_onlyFences hclosure
  have hfresh : ∀ q ∈ db.requests, isRequest args.projectId args.newRequestId q = false :=
    fun q hq => Bool.eq_false_iff.mpr (find?_eq_none.mp hnone q hq)
  have hrow : (db₁.updateRequest args.projectId args.newRequestId (·.published closure)).requests =
      db.requests ++ [(newRequest C args now).published closure] := by
    have hself : isRequest args.projectId args.newRequestId (newRequest C args now) = true :=
      isRequest_eq_true.mpr ⟨rfl, rfl⟩
    rw [Database.updateRequest, honly.requests, updateWhere, map_append]
    refine congrArg₂ (· ++ ·) (updateWhere_eq_self hfresh) ?_
    rw [map_singleton, if_pos hself]
  have hkey : ∀ digest, ((newRequest C args now).published digest).key ∉
      db.requests.map RequestRow.key := by
    intro digest hmem
    obtain ⟨q, hq, hkey⟩ := mem_map.mp hmem
    exact Bool.eq_false_iff.mp (hfresh q hq) (isRequest_eq_true.mpr (Prod.ext_iff.mp hkey))
  have hadded := addRequest_owed (C := C) hdb (hkey _) hrow honly.subjectKeys rfl
    (by rintro ⟨⟩) honly.kept honly.elsewhere hfallen
  have hstanding := addRequest_standing hdb (hkey _) hrow (by rintro ⟨⟩)
  exact hadded.trans (Tame.owed (.appendReceipt hstanding hreceipt) _)

/-- Every call but a bind pays what it owes. -/
theorem Call.perform_owed {call : Call} (hdb : db.Standing) (hbind : call.isBind = false)
    (h : call.perform C db = .ok db') : Owed C call.lockedProject db db' := by
  by_cases hcalm : call.isDrastic = false
  · exact ((Call.perform_leads hcalm h).tame hdb).owed _
  · cases call with
    | requestErasure args now =>
      obtain ⟨⟨_, _⟩, hcall, rfl⟩ := map_eq_ok.mp h
      exact requestErasure_owed hdb hcall
    | cryptoStep c now =>
      obtain ⟨⟨_, _⟩, hcall, rfl⟩ := map_eq_ok.mp h
      exact cryptoStep_owed hdb hcall _
    | bindRunSubjectTags args => cases hbind
    | _ => exact absurd rfl hcalm

/-! ### Guarded backends -/

/-- The capability admits the key. -/
def Admits (C : Cluster) (capability : SnapshotCapability) (k : SubjectKeyRow) : Prop :=
  k.projectId = capability.projectId ∧ (k.subjectDigest ∈ capability.subjectDigests ∨
    k.subjectDigest = projectDigest C k.projectId)

/-- The committed database is guarded, every snapshot of an open transaction is current, and
every key it holds was admitted by an earlier snapshot of the same transaction. -/
structure Backends.Guarded (C : Cluster) (s : Backends) : Prop where
  committed : s.committed.Guarded C
  current : ∀ i capability, .snapshot capability ∈ s.transaction i → Current s.committed capability
  admitted : ∀ i k before, (.key k :: before) <:+ s.transaction i →
    ∃ capability, .snapshot capability ∈ before ∧ Admits C capability k

variable {capability : SnapshotCapability} {s s' : Backends}

/-- A snapshot that is granted has found the project quiet and its fences standing. -/
theorem lockRunSubjectSnapshot_current {project run : UUID} {expected : List Digest}
    (h : lockRunSubjectSnapshot C project run expected db = .ok capability) :
    Current db capability := by
  obtain ⟨_, -, h⟩ := bind_eq_ok.mp h
  obtain ⟨_, hquiet, h⟩ := bind_eq_ok.mp h
  obtain ⟨_, hfences, h⟩ := bind_eq_ok.mp h
  obtain ⟨_, -, h⟩ := bind_eq_ok.mp h
  obtain ⟨_, -, h⟩ := bind_eq_ok.mp h
  cases h
  refine ⟨by simpa using hquiet, fun d hd hfallen => hfallen.fenceHolders_ne_nil hd ?_⟩
  exact List.isEmpty_iff.mp (ensure_eq_ok.mp hfences)

/-- What is current is current under the writes of an open transaction, and the other way
round. -/
theorem Undisturbed.current_iff (h : Undisturbed db db') :
    Current db' capability ↔ Current db capability := by
  have hquiet := h.isQuiesced_eq capability.projectId
  constructor
  · rintro ⟨hq, hs⟩
    exact ⟨hquiet.symm.trans hq, fun d hd hf => hs d hd ((h.fallen _ _).mpr hf)⟩
  · rintro ⟨hq, hs⟩
    exact ⟨hquiet.trans hq, fun d hd hf => hs d hd ((h.fallen _ _).mp hf)⟩

/-- The keys a backend sees are committed or its own. -/
theorem Backends.mem_view_subjectKeys {i : ℕ} (h : k ∈ (s.view i).subjectKeys) :
    k ∈ s.committed.subjectKeys ∨ .key k ∈ s.transaction i := by
  rw [Backends.view] at h
  generalize s.transaction i = t at h
  induction t with
  | nil => exact .inl h
  | cons w t ih =>
    cases w with
    | snapshot capability | bind project writes => exact (ih h).imp id (mem_cons_of_mem _)
    | key row =>
      rcases mem_insertNew.mp h with h | ⟨rfl, -⟩
      · exact (ih h).imp id (mem_cons_of_mem _)
      · exact .inr mem_cons_self

/-- A key that a current snapshot admits is in the scope of no erased request. -/
theorem Database.Guarded.keyInScope_of_current (hdb : db.Guarded C)
    (hcurrent : Current db capability) (hadmits : Admits C capability k) (hq : q ∈ db.requests)
    (hreserved : q.scope ≠ .subject (projectDigest C q.projectId)) : keyInScope q k = false := by
  refine Bool.eq_false_iff.mpr fun hin => ?_
  obtain ⟨hp, -, hscope⟩ := keyInScope_eq_true.mp hin
  obtain ⟨hcap, hdigest⟩ := hadmits
  have hnone := not_projectRequested hcurrent.quiet
  rw [← hcap, hp] at hnone
  rcases hscope with hscope | hscope
  · exact hnone ⟨q, hq, rfl, hscope⟩
  · rcases hdigest with hdigest | hdigest
    · rcases hdb.fallen q hq _ hscope with hfallen | hproject
      · rw [← hp, hcap] at hfallen
        exact hcurrent.standing _ hdigest hfallen
      · exact hnone hproject
    · rw [hdigest, hp] at hscope
      exact hreserved hscope

theorem Backends.Guarded.commit (h : s.Guarded C) (i : ℕ) : (s.view i).Guarded C := by
  have hview := s.view_undisturbed i
  refine h.committed.of_followed hview.followed (fun p d => .inl ∘ (hview.fallen p d).mpr)
    fun k hk _ => (Backends.mem_view_subjectKeys hk).imp id fun hmem => ?_
  obtain ⟨after, before, heq⟩ := append_of_mem hmem
  obtain ⟨capability, hcap, hadmits⟩ := h.admitted i k before ⟨after, heq.symm⟩
  have hcurrent : Current s.committed capability :=
    h.current i capability (heq ▸ mem_append_right _ (mem_cons_of_mem _ hcap))
  exact fun q => h.committed.keyInScope_of_current hcurrent hadmits

variable {t : Transaction}

/-- Only one backend has another transaction. -/
theorem Backends.Guarded.set (h : s.Guarded C) (i : ℕ)
    (hcurrent : ∀ capability, .snapshot capability ∈ t → Current s.committed capability)
    (hadmitted : ∀ k before, (.key k :: before) <:+ t →
      ∃ capability, .snapshot capability ∈ before ∧ Admits C capability k) :
    (s.set i t).Guarded C := by
  refine ⟨h.committed, fun j capability hmem => ?_, fun j k before hsuffix => ?_⟩
  · rcases eq_or_ne j i with rfl | hne
    · exact hcurrent capability (update_self j t s.transaction ▸ hmem)
    · exact h.current j capability (update_of_ne hne t s.transaction ▸ hmem)
  · rcases eq_or_ne j i with rfl | hne
    · exact hadmitted k before (update_self j t s.transaction ▸ hsuffix)
    · exact h.admitted j k before (update_of_ne hne t s.transaction ▸ hsuffix)

/-- One more statement is guarded, if its snapshot is current or its key admitted. -/
theorem Backends.Guarded.issue (h : s.Guarded C) (i : ℕ) {w : Statement}
    (hcurrent : ∀ capability, w = .snapshot capability → Current s.committed capability)
    (hadmitted : ∀ k, w = .key k →
      ∃ capability, .snapshot capability ∈ s.transaction i ∧ Admits C capability k) :
    (s.issue i w).Guarded C := by
  refine h.set i (fun capability hmem => ?_) fun k before hsuffix => ?_
  · rcases mem_cons.mp hmem with rfl | hmem
    · exact hcurrent capability rfl
    · exact h.current i capability hmem
  · rcases suffix_cons_iff.mp hsuffix with heq | hsuffix
    · obtain ⟨rfl, rfl⟩ := List.cons.inj heq
      exact hadmitted k rfl
    · exact h.admitted i k before hsuffix

/-- The capability of a transaction is that of one of its snapshots. -/
theorem Transaction.mem_of_capability? (h : t.capability? = some capability) :
    .snapshot capability ∈ t := by
  obtain ⟨w, hw, hsome⟩ := exists_of_findSome?_eq_some h
  cases w with
  | snapshot other =>
    cases hsome
    exact hw
  | key row | bind project writes => cases hsome

/-- **Every step keeps committed keys and open transactions guarded.** -/
theorem Backends.Step.guarded (h : Backends.Step C s s') (hs : s.Guarded C) : s'.Guarded C := by
  cases h with
  | call hbind hlock h =>
    have howed := Call.perform_owed hs.committed.standing hbind h
    refine ⟨howed.guarded hs.committed, fun i capability hmem => ?_, hs.admitted⟩
    refine howed.current capability (fun hlocked => ?_) (hs.current i capability hmem)
    exact hlock _ hlocked i (mem_filterMap.mpr ⟨_, hmem, rfl⟩)
  | @snapshot i project run expected capability h =>
    refine hs.issue i (fun other heq => ?_) (by rintro _ ⟨⟩)
    obtain rfl := Statement.snapshot.inj heq
    exact (s.view_undisturbed i).current_iff.mp (lockRunSubjectSnapshot_current h)
  | @insertKey i args u db' h =>
    refine hs.issue i (by rintro _ ⟨⟩) fun k heq => ?_
    obtain rfl := Statement.key.inj heq
    obtain ⟨_, hadmits, -⟩ := bind_eq_ok.mp h
    simp only [ensure_eq_ok, Bool.and_eq_true, Option.any_eq_true] at hadmits
    obtain ⟨-, capability, hcap, hadmits⟩ := hadmits
    refine ⟨capability, Transaction.mem_of_capability? hcap, ?_⟩
    simp only [SnapshotCapability.admits, Bool.and_eq_true, Bool.or_eq_true,
      decide_eq_true_eq] at hadmits
    exact ⟨hadmits.1.symm, hadmits.2⟩
  | @bind i args outcome writes h =>
    exact hs.issue i (by rintro _ ⟨⟩) (by rintro _ ⟨⟩)
  | commit i =>
    have hempty : (s.set i []).Guarded C :=
      hs.set i (by rintro _ ⟨⟩) fun k before hsuffix => by simp at hsuffix
    refine ⟨hs.commit i, fun j capability hmem => ?_, hempty.admitted⟩
    exact (s.view_undisturbed i).current_iff.mpr (hempty.current j capability hmem)
  | rollback i n =>
    have hsuffix := drop_suffix n (s.transaction i)
    refine hs.set i (fun capability hmem => ?_) fun k before hkey => ?_
    · exact hs.current i capability (hsuffix.subset hmem)
    · exact hs.admitted i k before (hkey.trans hsuffix)

/-- Committed requests are there later, and no less erased. -/
theorem Backends.Step.lasts (h : Backends.Step C s s') (hs : s.Guarded C) :
    Lasts s.committed s'.committed := by
  have hrefl : Lasts s.committed s.committed := (Followed.of_same rfl).lasts
  cases h with
  | call hbind hlock h => exact (Call.perform_owed hs.committed.standing hbind h).lasts
  | snapshot h | insertKey h | bind h => exact hrefl
  | commit i => exact (s.view_undisturbed i).followed.lasts
  | rollback i n => exact hrefl

/-- A run keeps the backends guarded and the committed requests. -/
theorem Backends.steps_guarded (h : Relation.ReflTransGen (Backends.Step C) s s')
    (hs : s.Guarded C) : s'.Guarded C ∧ Lasts s.committed s'.committed := by
  induction h with
  | refl => exact ⟨hs, (Followed.of_same rfl).lasts⟩
  | tail _ hstep ih => exact ⟨hstep.guarded ih.1, ih.2.trans (hstep.lasts ih.1)⟩

theorem Database.Initial.guarded (h : db.Initial) : db.Guarded C := by
  refine ⟨⟨?_, ?_⟩, ?_, ?_⟩
  · rw [h.requests]
    exact nodup_nil
  all_goals simp [h.requests]

theorem Backends.Initial.guarded (h : s.Initial) : s.Guarded C := by
  refine ⟨h.committed.guarded, fun i capability hmem => ?_, fun i k before hsuffix => ?_⟩
  · rw [h.transaction i] at hmem
    cases hmem
  · simp [h.transaction i] at hsuffix

/-- After a crypto step its request is erased. -/
theorem cryptoStep_isErased (hdb : db.Standing) (h : cryptoStep C c now db = .ok (outcome, db'))
    (hq : db.request? c.projectId c.requestId = some q) :
    ∃ q' ∈ db'.requests, q'.projectId = q.projectId ∧ q'.scope = q.scope ∧
      q'.phase.isErased = true := by
  obtain ⟨q₀, hq₀, hstep⟩ := cryptoStep_eq_ok h
  obtain rfl := Option.some.inj (hq.symm.trans (assertLease_eq_ok.mp hq₀).2.1)
  obtain ⟨hp, hr⟩ := request?_key hq
  rcases hstep with ⟨rfl, hphase⟩ | ⟨entry, digest, -, -, hreceipt⟩
  · exact ⟨q, mem_of_find?_eq_some hq, rfl, rfl, hphase⟩
  · rw [← hp, ← hr] at hq
    have hstanding := (destroyKeys_tame q now db).standing hdb
    have hreceipted := Tame.appendReceipt
      (eraseRequest_standing hstanding hq (ne_scopeComplete_of_assertLease hq₀)) hreceipt
    have hmem : { q with phase := .cryptoErased } ∈ ((destroyKeys q now db).updateRequest
        q.projectId q.requestId fun q => { q with phase := .cryptoErased }).requests :=
      mem_updateWhere_of (mem_of_find?_eq_some hq) (isRequest_eq_true.mpr ⟨rfl, rfl⟩)
    obtain ⟨q', hq', hp', hs', he'⟩ := hreceipted.requests.lasts _ hmem
    exact ⟨q', hq', hp', hs', he' rfl⟩

/-- **Erased keys stay erased.** Once the crypto step of a request has committed, no later
committed database has a live key of its scope: none of its subject, or none of the project at
all. The digest of a subject is taken to differ from that of the reserved project subject. -/
theorem erased_key_never_returns {s₀ s₁ s₂ : Backends} (h₀ : s₀.Initial)
    (h₁ : Relation.ReflTransGen (Backends.Step C) s₀ s₁) {c : Credential} {now : ℕ}
    {outcome : CryptoOutcome} (hfree : s₁.LockFree c.projectId)
    (hcrypto : cryptoStep C c now s₁.committed = .ok (outcome, db'))
    (hq : s₁.committed.request? c.projectId c.requestId = some q)
    (hreserved : q.scope ≠ .subject (projectDigest C q.projectId))
    (h₂ : Relation.ReflTransGen (Backends.Step C) { s₁ with committed := db' } s₂) :
    ∀ k ∈ s₂.committed.subjectKeys, k.projectId = q.projectId →
      (q.scope = .project ∨ q.scope = .subject k.subjectDigest) → k.state.isLive = false := by
  have hs₁ := (Backends.steps_guarded h₁ h₀.guarded).1
  have hstep : Backends.Step C s₁ { s₁ with committed := db' } := by
    have hperform : (Call.cryptoStep c now).perform C s₁.committed = .ok db' :=
      map_eq_ok.mpr ⟨_, hcrypto, rfl⟩
    refine .call rfl ?_ hperform
    exact fun project hproject => Option.some.inj hproject ▸ hfree
  obtain ⟨hs₂, hlasts⟩ := Backends.steps_guarded h₂ (hstep.guarded hs₁)
  obtain ⟨q', hq', hp', hs', he'⟩ := cryptoStep_isErased hs₁.committed.standing hcrypto hq
  obtain ⟨q'', hq'', hp'', hs'', he''⟩ := hlasts q' hq'
  have hproject : q''.projectId = q.projectId := hp''.trans hp'
  have hscope : q''.scope = q.scope := hs''.trans hs'
  intro k hk hkp hks
  by_contra hlive
  have hout := hs₂.committed.erased q'' hq'' (he'' he') (by rwa [hscope, hproject]) k hk
  refine Bool.eq_false_iff.mp hout (keyInScope_eq_true.mpr ?_)
  exact ⟨hkp.trans hproject.symm, Bool.not_eq_false _ ▸ hlive, hscope.symm ▸ hks⟩

/-- While no transaction is open, calls other than binds are steps, one after the other. -/
theorem Backends.steps_exec (hidle : ∀ i, s.transaction i = []) {calls : List Call}
    (hbind : ∀ call ∈ calls, call.isBind = false) : Relation.ReflTransGen (Backends.Step C) s
      { s with committed := Runs.exec (step C) s.committed calls } := by
  induction calls generalizing s with
  | nil => exact .refl
  | cons call calls ih =>
    have hcall : Relation.ReflTransGen (Backends.Step C) s
        { s with committed := step C s.committed call } := by
      rw [step]
      split
      · next h =>
        refine .single (.call (hbind call mem_cons_self) (fun project _ i => ?_) h)
        rw [hidle i]
        exact not_mem_nil
      · exact .refl
    exact hcall.trans (ih hidle (forall_mem_cons.mp hbind).2)

namespace Sample

def digest : Digest := tagDigest standardCluster project tag

/-- The project with its run open, before its first request and its first key. -/
def backends : Backends where
  committed := { initial with
    runFences := [⟨project, run, .live⟩]
    primary := fun t =>
      if t = .traceSubject then [⟨1, project, some run, [], [digest], [], false, none, none⟩]
      else initial.primary t }
  transaction := fun _ => []

theorem backends_initial : backends.Initial where
  committed :=
    { initial_initial with runFences := by simp [backends] }
  transaction := fun _ => rfl

def key : SubjectKeyRow := ⟨project, digest, token, .live (List.replicate 60 0)⟩

/-- A worker has taken its snapshot. -/
def withSnapshot : Backends := backends.issue 0 (.snapshot ⟨project, run, [digest]⟩)

/-- The worker has inserted the key. -/
def withKey : Backends := withSnapshot.issue 0 (.key key)

def withCommit : Backends where
  committed := withKey.view 0
  transaction := update withKey.transaction 0 []

theorem withCommit_idle (i : ℕ) : withCommit.transaction i = [] := by
  simp only [withCommit, withKey, withSnapshot, Backends.issue, Backends.set, update_apply]
  split
  · rfl
  · rfl

theorem steps_withCommit :
    Relation.ReflTransGen (Backends.Step standardCluster) backends withCommit := by
  have hsnapshot : Backends.Step standardCluster backends withSnapshot := by
    have hgranted : lockRunSubjectSnapshot standardCluster project run [digest] (backends.view 0) =
        .ok ⟨project, run, [digest]⟩ := toOption_eq_some.mp (by decide +kernel)
    exact .snapshot hgranted
  have hok : (insertSubjectKey standardCluster (withSnapshot.transaction 0).capability?
      ⟨project, digest, token, List.replicate 60 0⟩ (withSnapshot.view 0)).toOption.isSome = true :=
    by decide +kernel
  obtain ⟨⟨u, db'⟩, hsome⟩ := Option.isSome_iff_exists.mp hok
  have hkey : Backends.Step standardCluster withSnapshot withKey :=
    .insertKey (toOption_eq_some.mp hsome)
  exact ((Relation.ReflTransGen.single hsnapshot).tail hkey).tail (.commit 0)

/-- The request is accepted and claimed. -/
def toClaimed : List Call := toPrimaryPurged.take 2

/-- The backends after that. -/
def claimed : Backends where
  committed := Runs.exec (step standardCluster) withCommit.committed toClaimed
  transaction := withCommit.transaction

/-- The key of the run is live before the crypto step, and gone after it and the calls that empty
the primary store. -/
theorem key_destroyed : ∃ outcome db', ∃ q : RequestRow,
    cryptoStep standardCluster credential 0 claimed.committed = .ok (outcome, db') ∧
      key ∈ claimed.committed.subjectKeys ∧ q.scope = .subject key.subjectDigest ∧
      ∀ k ∈ (Runs.exec (step standardCluster) db' (toPrimaryPurged.drop 3)).subjectKeys,
        k.projectId = q.projectId →
          (q.scope = .project ∨ q.scope = .subject k.subjectDigest) → k.state.isLive = false := by
  have hok : (cryptoStep standardCluster credential 0
      claimed.committed).toOption.isSome = true := by decide +kernel
  have hrow : (claimed.committed.request? project request).map (·.scope) =
      some (.subject digest) := by decide +kernel
  obtain ⟨⟨outcome, db'⟩, hsome⟩ := Option.isSome_iff_exists.mp hok
  obtain ⟨q, hq, hscope⟩ := Option.map_eq_some_iff.mp hrow
  have hreserved : q.scope ≠ .subject (projectDigest standardCluster q.projectId) := by
    rw [hscope, (request?_key hq).1]
    decide +kernel
  have hsteps : Relation.ReflTransGen (Backends.Step standardCluster) backends claimed :=
    steps_withCommit.trans (Backends.steps_exec withCommit_idle (by decide))
  have hfree : claimed.LockFree project := fun i => by
    change project ∉ (withCommit.transaction i).shared
    rw [withCommit_idle i]
    exact not_mem_nil
  have hlater : ∀ call ∈ toPrimaryPurged.drop 3, call.isBind = false := by decide
  refine ⟨outcome, db', q, toOption_eq_some.mp hsome, by decide +kernel, hscope, ?_⟩
  exact erased_key_never_returns backends_initial hsteps hfree (toOption_eq_some.mp hsome) hq
    hreserved (Backends.steps_exec (s := { claimed with committed := db' }) withCommit_idle hlater)

end Sample

end Tracebed.Erasure
