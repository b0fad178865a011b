import Tracebed.ErasureSaga
import Tracebed.ErasureStanding

/-!
# The Routines of a Lease Move Sagas by Their Steps

Seen from any one request, a call under a lease is a run of `Saga.Step`s. Most calls touch
only the rows of the request whose lease they name; a purge of a project takes the captured
runs of all its requests. Seen from the subject keys, every call but the destruction of keys
is tame. Both are proved together, as `Leads`, once for each routine.
-/

open Py Fallible Table List

namespace Tracebed.Erasure

variable (C : Cluster)

/-! ### Moves of all sagas at once -/

/-- The rows of every request move by steps of its saga. -/
def Moves (db db' : Database) : Prop :=
  ∀ p r, Relation.ReflTransGen Saga.Step (db.saga p r) (db'.saga p r)

namespace Moves

variable {db db' db'' : Database} {p r : UUID} {q : RequestRow}

theorem refl (db : Database) : Moves db db := fun _ _ => .refl

theorem trans (h : Moves db db') (h' : Moves db' db'') : Moves db db'' :=
  fun p r => (h p r).trans (h' p r)

/-- A change that leaves the tables of the saga alone moves nothing. -/
theorem of_same (hq : db'.requests = db.requests) (hs : db'.runSet = db.runSet)
    (hw : db'.work = db.work) (hk : db'.checkpoints = db.checkpoints)
    (hr : db'.receipts = db.receipts) : Moves db db' := by
  intro p r
  have : db'.saga p r = db.saga p r := by
    simp [Database.saga, Database.request?, Database.capturedRuns, hq, hs, hw, hk, hr]
  rw [this]

/-- A change of the rows of one request is a run of its saga. -/
theorem of_saga (hown : Relation.ReflTransGen Saga.Step (db.saga p r) (db'.saga p r))
    (hother : ∀ p' r', ¬ (p' = p ∧ r' = r) → db'.saga p' r' = db.saga p' r') : Moves db db' := by
  intro p' r'
  by_cases hsame : p' = p ∧ r' = r
  · obtain ⟨rfl, rfl⟩ := hsame
    exact hown
  · rw [hother p' r' hsame]

variable {f : RequestRow → RequestRow} (hq : db.request? p r = some q)
  (hf : ∀ q, (f q).projectId = q.projectId ∧ (f q).requestId = q.requestId)

include hq hf

theorem updateRequest (hsteps : Relation.ReflTransGen Saga.Step (db.saga p r)
      { db.saga p r with request := some (f q) }) : Moves db (db.updateRequest p r f) := by
  refine of_saga (p := p) (r := r) ?_ fun p' r' hne => ?_
  · have : (db.updateRequest p r f).saga p r = { db.saga p r with request := some (f q) } := by
      simp only [Database.saga, request?_updateRequest hf, hq]
      rfl
    rwa [this]
  · simp only [Database.saga, request?_updateRequest hf, if_neg hne]
    rfl

theorem updateRequest_quiet (hquiet : Quiet q (f q)) : Moves db (db.updateRequest p r f) :=
  updateRequest hq hf (.single (.quiet hq hquiet))

end Moves

/-- A change of the lease columns and the bookkeeping of a row. -/
theorem Quiet.of_lease {q q' : RequestRow} (hp : q'.projectId = q.projectId)
    (hr : q'.requestId = q.requestId) (hs : q'.scope = q.scope) (hph : q'.phase = q.phase)
    (hrev : q'.closureRevision = q.closureRevision) (hg : q'.generation = q.generation)
    (hfirst : q'.firstStartedAt = q.firstStartedAt) (hm : q'.storeManifest = q.storeManifest)
    (hl : q'.lease.isSome = true → q.lease.isSome = true) : Quiet q q' where
  projectId := hp
  requestId := hr
  scope := hs
  phase := hph
  revision := hrev
  generation := hg.ge
  manifest := fun _ => hm
  admissible := fun h =>
    { leased := fun h' => by rw [hfirst]; exact h.leased (hl h')
      started := by rw [hfirst, hm]; exact h.started
      unstarted := by rw [hfirst, hm]; exact h.unstarted }

variable {args : ClaimArguments}

/-- A claim starts the request under a valid manifest. -/
theorem Quiet.of_claim (hargs : args.isValid = true) (now : ℕ) (q : RequestRow) :
    Quiet q (claimed C args now q) where
  projectId := rfl
  requestId := rfl
  scope := rfl
  phase := rfl
  revision := rfl
  generation := Nat.le_succ _
  manifest := fun h => by
    obtain ⟨t, ht⟩ := Option.isSome_iff_exists.mp h
    simp [claimed, ht]
  admissible := fun h =>
    { leased := fun _ => rfl
      started := fun _ => by
        have hm : manifestIsValid args.manifest = true := by
          simp only [ClaimArguments.isValid, Bool.and_eq_true] at hargs
          exact hargs.2
        cases ht : q.firstStartedAt with
        | none => simpa [claimed, ht] using hm
        | some t => simpa [claimed, ht] using h.started (by rw [ht]; rfl)
      unstarted := (nomatch ·) }

/-! ### Moves that are tame -/

/-- What a call under a lease does: it moves every saga by its steps, and it is tame. -/
structure Leads (db db' : Database) : Prop where
  moves : Moves db db'
  tame : db.Standing → Tame db db'

/-- A quiet change of the row that completes nothing. -/
theorem Quiet.follows {q q' : RequestRow} (h : Quiet q q')
    (hd : q.disposition = .scopeComplete ↔ q'.disposition = .scopeComplete) : Follows q q' where
  projectId := h.projectId
  requestId := h.requestId
  scope := h.scope
  erased := by rw [h.phase]
  complete := hd.mp
  settled := fun hq hq' => h.phase.trans (hq (hd.mpr hq'))

namespace Leads

variable {C} {db db' db'' : Database} {p r : UUID} {q : RequestRow}
  {f : RequestRow → RequestRow} {generation now : ℕ} {entry : ReceiptEntry} {digest : Digest}

theorem refl (db : Database) : Leads db db := ⟨.refl db, fun _ => .refl db⟩

theorem trans (h : Leads db db') (h' : Leads db' db'') : Leads db db'' :=
  ⟨h.moves.trans h'.moves, fun hdb =>
    (h.tame hdb).trans (h'.tame ((h.tame hdb).standing hdb))⟩

/-- A change of nothing that sagas or keys know. -/
theorem of_same (hq : db'.requests = db.requests) (hs : db'.runSet = db.runSet)
    (hw : db'.work = db.work) (hk : db'.checkpoints = db.checkpoints)
    (hr : db'.receipts = db.receipts) (hsf : db'.subjectFences = db.subjectFences)
    (hkeys : db'.subjectKeys = db.subjectKeys) (hrf : db'.runFences = db.runFences) :
    Leads db db' :=
  ⟨.of_same hq hs hw hk hr, fun _ => .of_same hq hsf hkeys hs hrf⟩

theorem updateRequest (hq : db.request? p r = some q)
    (hf : ∀ q, (f q).projectId = q.projectId ∧ (f q).requestId = q.requestId)
    (hsteps : Relation.ReflTransGen Saga.Step (db.saga p r)
      { db.saga p r with request := some (f q) }) (hfollows : Follows q (f q)) :
    Leads db (db.updateRequest p r f) :=
  ⟨.updateRequest hq hf hsteps, fun hdb => .updateRequest hdb hq hfollows⟩

theorem updateRequest_quiet (hq : db.request? p r = some q)
    (hf : ∀ q, (f q).projectId = q.projectId ∧ (f q).requestId = q.requestId)
    (hquiet : Quiet q (f q))
    (hd : db.Standing → (q.disposition = .scopeComplete ↔ (f q).disposition = .scopeComplete)) :
    Leads db (db.updateRequest p r f) :=
  ⟨.updateRequest_quiet hq hf hquiet, fun hdb =>
    .updateRequest hdb hq (hquiet.follows (hd hdb))⟩

/-- The next phase of a request whose keys are destroyed. -/
theorem advance {phase : Phase} (hq : db.request? p r = some q)
    (hp : q.phase.Advances phase) (herased : q.phase.isErased = true)
    (hphase : phase.isErased = true) (hincomplete : q.disposition ≠ .scopeComplete) :
    Leads db (db.updateRequest p r fun q => { q with phase := phase }) :=
  .updateRequest hq (fun _ => ⟨rfl, rfl⟩) (.single (.advance hq hp))
    ⟨rfl, rfl, rfl, hphase.trans herased.symm, fun h => absurd h hincomplete,
      fun _ h => absurd h hincomplete⟩

end Leads

/-! ### Receipts and leases -/

section Leases

variable {C} {db db' : Database} {p r : UUID} {q : RequestRow}

variable {generation now : ℕ} {entry : ReceiptEntry} {digest : Digest} {request : UUID}
  {c : Credential} {u : Unit}

/-- A stored receipt proves a purge to its own request at most. -/
theorem saga_receipts (db : Database) (receipt : ReceiptRow) (p r : UUID) :
    { db with receipts := db.receipts ++ [receipt] }.saga p r =
      { db.saga p r with purged := (db.saga p r).purged || receipt.provesPurge p r } := by
  simp [Database.saga, Database.request?, Database.capturedRuns]

/-- Numbering a receipt moves the request quietly; a receipt for an empty primary store needs
a request that is purged. -/
theorem Moves.addReceipt {receipt : ReceiptRow}
    (hq : db.request? receipt.projectId receipt.requestId = some q)
    (hpurge : receipt.stepCode = .postgres → receipt.result = .succeeded →
      q.phase = .primaryPurged ∨ q.phase = .externalPurged) :
    Moves db (db.addReceipt receipt) := by
  have hstore : Moves db { db with receipts := db.receipts ++ [receipt] } := by
    intro p r
    rw [saga_receipts]
    cases hproves : receipt.provesPurge p r with
    | true =>
      obtain ⟨⟨rfl, rfl⟩, hstep, hresult⟩ := ReceiptRow.provesPurge_eq_true.mp hproves
      rw [Bool.or_true]
      exact .single (.purge hq (hpurge hstep hresult))
    | false => rw [Bool.or_false]
  refine hstore.trans (.updateRequest_quiet hq (fun _ => ⟨rfl, rfl⟩) ?_)
  exact .of_lease rfl rfl rfl rfl rfl rfl rfl rfl id

/-- An appended receipt. -/
theorem Leads.appendReceipt (h : appendReceipt C p r generation now entry db = .ok (digest, db'))
    (hpurge : entry.stepCode = .postgres → entry.result = .succeeded →
      ∀ q, db.request? p r = some q → q.phase = .primaryPurged ∨ q.phase = .externalPurged) :
    Leads db db' := by
  refine ⟨?_, fun hdb => .appendReceipt hdb h⟩
  obtain ⟨q, hq, rfl⟩ := appendReceipt_eq_ok h
  obtain ⟨rfl, rfl⟩ := request?_key hq
  exact .addReceipt hq fun hstep hresult => hpurge hstep hresult q hq

/-- A receipt of any other step. -/
theorem Leads.appendReceipt_of_ne
    (h : Erasure.appendReceipt C p r generation now entry db = .ok (digest, db'))
    (hstep : entry.stepCode ≠ .postgres ∨ entry.result ≠ .succeeded) : Leads db db' :=
  .appendReceipt h fun hs hr => by
    rcases hstep with hne | hne
    · exact absurd hs hne
    · exact absurd hr hne

variable {claim : Option Claim}

theorem claimSelected_leads (h : claimSelected C request args now db = .ok (claim, db')) :
    Leads db db' := by
  obtain ⟨_, hargs, h⟩ := bind_eq_ok.mp h
  split at h
  · cases h
    exact .refl db
  · next q hq =>
    have hreq := request?_of_find hq
    split at h
    · cases h
      exact .refl db
    · next havailable =>
      have hincomplete (hdb : db.Standing) : q.disposition ≠ .scopeComplete := fun hd =>
        havailable (by simp [isUnavailable, hdb.settled q (mem_of_find?_eq_some hq) hd])
      split at h
      · cases h
        exact .updateRequest_quiet hreq (fun _ => ⟨rfl, rfl⟩)
          (.of_lease rfl rfl rfl rfl rfl rfl rfl rfl nofun)
          fun hdb => iff_of_false (hincomplete hdb) nofun
      · cases h
        exact .updateRequest_quiet hreq (fun _ => ⟨rfl, rfl⟩)
          (.of_claim C (ensure_eq_ok.mp hargs) now q)
          fun hdb => iff_of_false (hincomplete hdb) nofun

theorem claimNext_leads (h : claimNext C args now db = .ok (claim, db')) : Leads db db' := by
  obtain ⟨_, -, h⟩ := bind_eq_ok.mp h
  split at h
  · cases h
    exact .refl db
  · exact claimSelected_leads h

theorem renew_leads {leaseSeconds expiry : ℕ}
    (h : renew c leaseSeconds now db = .ok (expiry, db')) : Leads db db' := by
  obtain ⟨_, -, h⟩ := bind_eq_ok.mp h
  obtain ⟨q, hq, h⟩ := bind_eq_ok.mp h
  cases h
  exact .updateRequest_quiet (assertLease_request hq) (fun _ => ⟨rfl, rfl⟩)
    (.of_lease rfl rfl rfl rfl rfl rfl rfl rfl (by simp)) fun _ => Iff.rfl

theorem release_leads (h : release c now db = .ok (u, db')) : Leads db db' := by
  obtain ⟨q, hq, h⟩ := bind_eq_ok.mp h
  cases h
  exact .updateRequest_quiet (assertLease_request hq) (fun _ => ⟨rfl, rfl⟩)
    (.of_lease rfl rfl rfl rfl rfl rfl rfl rfl nofun) fun _ => Iff.rfl

theorem fail_leads {report : FailureReport} (h : Erasure.fail C c report now db = .ok (u, db')) :
    Leads db db' := by
  obtain ⟨q, hq, h⟩ := bind_eq_ok.mp h
  obtain ⟨_, hreport, h⟩ := bind_eq_ok.mp h
  obtain ⟨⟨digest, db₁⟩, hreceipt, h⟩ := bind_eq_ok.mp h
  cases h
  have hne : report.result ≠ .succeeded := by
    simp only [ensure_eq_ok, FailureReport.isValid, Bool.and_eq_true, decide_eq_true_eq] at hreport
    exact hreport.1.1.2
  obtain ⟨receipt, hread⟩ := request?_appendReceipt hreceipt (assertLease_request hq)
  have hincomplete := ne_scopeComplete_of_assertLease hq
  refine (Leads.appendReceipt_of_ne hreceipt (.inr hne)).trans
    (.updateRequest_quiet hread ?_ ?_ fun _ => iff_of_false hincomplete ?_)
  · exact fun q => by rw [failed]; split <;> exact ⟨rfl, rfl⟩
  · rw [failed]
    split <;> exact .of_lease rfl rfl rfl rfl rfl rfl rfl rfl (by simp)
  · rw [failed]
    split <;> simp

theorem resumeBlocked_leads (h : resumeBlocked C request now db = .ok (u, db')) : Leads db db' := by
  obtain ⟨q, hq, h⟩ := bind_eq_ok.mp h
  obtain ⟨_, hguard, h⟩ := bind_eq_ok.mp h
  obtain ⟨⟨digest, db₁⟩, hreceipt, h⟩ := bind_eq_ok.mp h
  cases h
  have hblocked : q.disposition = .operatorBlocked := by
    simp only [ensure_eq_ok, Bool.and_eq_true, decide_eq_true_eq] at hguard
    exact hguard.1.1.1
  have hresume : Leads db (db.updateRequest q.projectId q.requestId fun q =>
      { q with disposition := .active }) :=
    .updateRequest_quiet (request?_of_find (orThrow_eq_ok.mp hq)) (fun _ => ⟨rfl, rfl⟩)
      (.of_lease rfl rfl rfl rfl rfl rfl rfl rfl id)
      fun _ => by simp [hblocked]
  exact hresume.trans (.appendReceipt_of_ne hreceipt (.inl (by simp)))

end Leases

/-! ### The primary store -/

variable {digest : Digest} {limit : ℕ}

section Primary

variable {C} {db db' : Database}

variable {now : ℕ} {q : RequestRow}

variable {c : Credential}

/-- What a crypto step does: nothing where the request is erased already, or the keys of its
scope are destroyed, the request becomes erased and a receipt says so. -/
theorem cryptoStep_eq_ok {outcome : CryptoOutcome}
    (h : cryptoStep C c now db = .ok (outcome, db')) :
    ∃ q, assertLease c now db = .ok q ∧
      (db' = db ∧ q.phase.isErased = true ∨ ∃ entry digest, q.phase = .fenced ∧
        entry.stepCode ≠ .postgres ∧
        appendReceipt C q.projectId q.requestId c.generation now entry
          ((destroyKeys q now db).updateRequest q.projectId q.requestId fun q =>
            { q with phase := .cryptoErased }) = .ok (digest, db')) := by
  obtain ⟨q, hq, h⟩ := bind_eq_ok.mp h
  refine ⟨q, hq, ?_⟩
  split at h
  · next hphase =>
    cases h
    refine .inl ⟨rfl, ?_⟩
    simp only [Bool.or_eq_true, decide_eq_true_eq] at hphase
    rcases hphase with (hphase | hphase) | hphase <;> rw [hphase] <;> rfl
  · obtain ⟨_, hphase, h⟩ := bind_eq_ok.mp h
    obtain ⟨⟨digest, db₁⟩, hreceipt, h⟩ := bind_eq_ok.mp h
    cases h
    exact .inr ⟨⟨.crypto, .succeeded, _, _, _, _⟩, digest, by simpa using hphase, nofun, hreceipt⟩

theorem cryptoStep_moves {outcome : CryptoOutcome}
    (h : cryptoStep C c now db = .ok (outcome, db')) : Moves db db' := by
  obtain ⟨q, hq, ⟨rfl, -⟩ | ⟨entry, digest, hfenced, hcode, hreceipt⟩⟩ := cryptoStep_eq_ok h
  · exact .refl _
  · have hreq := assertLease_request hq
    have hkeys : Moves db (destroyKeys q now db) := .of_same rfl rfl rfl rfl rfl
    have hadvance : Moves (destroyKeys q now db) ((destroyKeys q now db).updateRequest q.projectId
        q.requestId fun q => { q with phase := .cryptoErased }) :=
      .updateRequest hreq (fun _ => ⟨rfl, rfl⟩) (.single (.advance hreq (hfenced ▸ .crypto)))
    exact (hkeys.trans hadvance).trans (Leads.appendReceipt_of_ne hreceipt (.inl hcode)).moves

theorem purgeTables_eq (q : RequestRow) (limit : ℕ) (tables : List PrimaryTable)
    (start : ℕ × Database) :
    ∃ primary, (purgeTables q limit tables start).2 = { start.2 with primary } := by
  induction tables generalizing start with
  | nil => exact ⟨start.2.primary, rfl⟩
  | cons t tables ih => exact ih _

/-- A purge changes business rows. -/
theorem purgeBatch_eq (q : RequestRow) (limit : ℕ) (db : Database) :
    ∃ primary, (purgeBatch q limit db).2 = { db with primary } := by
  obtain ⟨_, hattributed⟩ := purgeTables_eq q limit attributedTables (0, db)
  simp only [purgeBatch, hattributed]
  split
  · exact purgeTables_eq q limit projectTables _
  · exact ⟨_, rfl⟩

/-- Dropping the leaves of a project takes captured runs away. -/
theorem dropLeaves_moves (project : UUID) : Moves db (dropLeaves project db) := by
  intro p r
  refine .single (Saga.Step.shrink (s := db.saga p r) ?_)
  refine map_subset _ fun s hs => ?_
  obtain ⟨hs, hkey⟩ := mem_filter.mp hs
  exact mem_filter.mpr ⟨(mem_filter.mp hs).1, hkey⟩

theorem closePrimary_leads {generation changed : ℕ}
    (hreq : db.request? q.projectId q.requestId = some q)
    (hphase : q.phase = .cryptoErased ∨ q.phase = .primaryPurged ∨ q.phase = .externalPurged)
    (hincomplete : q.disposition ≠ .scopeComplete)
    (h : closePrimary C q generation now changed digest db = .ok db') : Leads db db' := by
  obtain ⟨⟨digest, db₁⟩, hreceipt, h⟩ := bind_eq_ok.mp h
  cases h
  by_cases hcrypto : q.phase = .cryptoErased
  · rw [if_pos hcrypto] at hreceipt
    refine (Leads.advance hreq (hcrypto ▸ .primary) (by rw [hcrypto]; rfl) rfl hincomplete).trans
      (.appendReceipt hreceipt fun _ _ q' hq' => ?_)
    have hread := request?_updateRequest_self (f := fun q => { q with phase := .primaryPurged })
      (fun _ => ⟨rfl, rfl⟩) hreq
    obtain rfl := Option.some.inj (hread.symm.trans hq')
    exact .inl rfl
  · rw [if_neg hcrypto] at hreceipt
    refine .appendReceipt hreceipt fun _ _ q' hq' => ?_
    obtain rfl := Option.some.inj (hreq.symm.trans hq')
    exact hphase.resolve_left hcrypto

theorem primaryBatch_leads {outcome : BatchOutcome}
    (h : primaryBatch C c limit now db = .ok (outcome, db')) : Leads db db' := by
  obtain ⟨q, hq, h⟩ := bind_eq_ok.mp h
  obtain ⟨_, hguard, h⟩ := bind_eq_ok.mp h
  obtain ⟨db₁, hdrop, h⟩ := bind_eq_ok.mp h
  obtain ⟨db₂, hclose, h⟩ := bind_eq_ok.mp h
  cases h
  have hreq := assertLease_request hq
  have hphase : q.phase = .cryptoErased ∨ q.phase = .primaryPurged ∨ q.phase = .externalPurged := by
    simp only [ensure_eq_ok, Bool.and_eq_true, Bool.or_eq_true, decide_eq_true_eq] at hguard
    tauto
  obtain ⟨_, hbatch⟩ := purgeBatch_eq q limit db
  have hpurged : (purgeBatch q limit db).2.request? q.projectId q.requestId = some q := by
    rw [hbatch]
    exact hreq
  have hrows : Leads db (purgeBatch q limit db).2 := by
    rw [hbatch]
    exact .of_same rfl rfl rfl rfl rfl rfl rfl rfl
  have hdropped : Leads (purgeBatch q limit db).2 db₁ ∧
      db₁.request? q.projectId q.requestId = some q := by
    obtain rfl | ⟨hproject, rfl⟩ := dropIfEmpty_eq_ok hdrop
    · exact ⟨.refl _, hpurged⟩
    · exact ⟨⟨dropLeaves_moves _, fun _ => dropLeaves_tame (mem_of_find?_eq_some hpurged) hproject⟩,
        hpurged⟩
  refine (hrows.trans hdropped.1).trans ?_
  rw [closeIfEmpty] at hclose
  split at hclose
  · exact closePrimary_leads hdropped.2 hphase (ne_scopeComplete_of_assertLease hq) hclose
  · cases hclose
    exact .refl _

end Primary

/-! ### The external stores -/

section Stores

variable {C} {db db' : Database} {p r : UUID} {q : RequestRow}

theorem WorkRow.belongsTo_eq_true {w : WorkRow} :
    w.belongsTo p r = true ↔ w.projectId = p ∧ w.requestId = r := by
  simp [WorkRow.belongsTo]

theorem CheckpointRow.belongsTo_eq_true {k : CheckpointRow} :
    k.belongsTo p r = true ↔ k.projectId = p ∧ k.requestId = r := by
  simp [CheckpointRow.belongsTo]

/-- The key of external work says whose it is. -/
theorem WorkRow.belongsTo_congr (a b : WorkRow) (h : a.key = b.key) :
    a.belongsTo p r = b.belongsTo p r := by
  simp only [WorkRow.key, Prod.mk.injEq] at h
  rw [WorkRow.belongsTo, WorkRow.belongsTo, h.1, h.2.1]

theorem CheckpointRow.belongsTo_congr (a b : CheckpointRow) (h : a.key = b.key) :
    a.belongsTo p r = b.belongsTo p r := by
  simp only [CheckpointRow.key, Prod.mk.injEq] at h
  rw [CheckpointRow.belongsTo, CheckpointRow.belongsTo, h.1, h.2.1]

/-- The current work of a store is work of the request. -/
theorem currentWork_filter (code : StoreCode) (work : List WorkRow) :
    currentWork q code (work.filter (·.belongsTo q.projectId q.requestId)) =
      currentWork q code work := by
  rw [currentWork, filter_filter]
  refine filter_congr fun w _ => ?_
  simp only [WorkRow.belongsTo, Bool.decide_and]
  cases decide (w.projectId = q.projectId) <;> cases decide (w.requestId = q.requestId) <;> simp

/-- An update of the work of one request, seen from it. -/
theorem Moves.updateWork {sel : WorkRow → Bool} {f : WorkRow → WorkRow}
    (hkey : ∀ w, (f w).key = w.key) (hown : ∀ w, sel w = true → w.belongsTo p r = true)
    (hsteps : Relation.ReflTransGen Saga.Step (db.saga p r)
      { db.saga p r with work := updateWhere sel f (db.saga p r).work }) :
    Moves db { db with work := updateWhere sel f db.work } := by
  have hkeep : ∀ p' r' w, sel w = true → (f w).belongsTo p' r' = w.belongsTo p' r' :=
    fun _ _ w _ => WorkRow.belongsTo_congr _ _ (hkey w)
  refine .of_saga (p := p) (r := r) ?_ fun p' r' hne => ?_
  · have hsaga : { db with work := updateWhere sel f db.work }.saga p r =
        { db.saga p r with work := updateWhere sel f (db.saga p r).work } := by
      simp only [Database.saga, filter_updateWhere (hkeep p r)]
      rfl
    rwa [hsaga]
  · simp only [Database.saga]
    rw [filter_updateWhere_of_not (hkeep p' r')]
    · rfl
    · refine fun w hw => Bool.eq_false_iff.mpr fun hs => hne ?_
      obtain ⟨hp, hr⟩ := WorkRow.belongsTo_eq_true.mp hw
      obtain ⟨hp', hr'⟩ := WorkRow.belongsTo_eq_true.mp (hown w hs)
      exact ⟨hp.symm.trans hp', hr.symm.trans hr'⟩

/-- Bringing the work of a store forward happens inside its request. -/
theorem filter_materializeWork (code : StoreCode) (targets : List Target) (work : List WorkRow) :
    (materializeWork q code targets work).filter (·.belongsTo q.projectId q.requestId) =
      materializeWork q code targets (work.filter (·.belongsTo q.projectId q.requestId)) := by
  rw [materializeWork, materializeWork, filter_insertAll WorkRow.belongsTo_congr,
    filter_updateWhere]
  · exact fun w _ => WorkRow.belongsTo_congr _ _ rfl
  · intro w hw
    obtain ⟨t, -, rfl⟩ := mem_map.mp hw
    exact WorkRow.belongsTo_eq_true.mpr ⟨rfl, rfl⟩

theorem filter_materializeWork_of_ne (h : ¬ (p = q.projectId ∧ r = q.requestId))
    (code : StoreCode) (targets : List Target) (work : List WorkRow) :
    (materializeWork q code targets work).filter (·.belongsTo p r) =
      work.filter (·.belongsTo p r) := by
  rw [materializeWork, filter_insertAll_of_not, filter_updateWhere_of_not]
  · exact fun w _ => WorkRow.belongsTo_congr _ _ rfl
  · refine fun w hw => Bool.eq_false_iff.mpr fun hs => h ?_
    obtain ⟨hp, hr⟩ := WorkRow.belongsTo_eq_true.mp hw
    obtain ⟨⟨hp', hr'⟩, -⟩ := isStale_eq_true.mp hs
    exact ⟨hp.symm.trans hp', hr.symm.trans hr'⟩
  · intro w hw
    obtain ⟨t, -, rfl⟩ := mem_map.mp hw
    refine Bool.eq_false_iff.mpr fun hb => h ?_
    obtain ⟨hp, hr⟩ := WorkRow.belongsTo_eq_true.mp hb
    exact ⟨hp.symm, hr.symm⟩

/-- Preparing a checkpoint happens inside its request. -/
theorem filter_prepareCheckpoint (code : StoreCode) (count : ℕ) (digest : Digest)
    (checkpoints : List CheckpointRow) :
    (prepareCheckpoint q code count digest checkpoints).filter (·.belongsTo p r) =
      if p = q.projectId ∧ r = q.requestId then
        prepareCheckpoint q code count digest (checkpoints.filter (·.belongsTo p r))
      else checkpoints.filter (·.belongsTo p r) := by
  rw [prepareCheckpoint, filter_upsert CheckpointRow.belongsTo_congr
    (Saga.renewCheckpoint_key q count digest)]
  refine if_congr ?_ rfl rfl
  rw [CheckpointRow.belongsTo_eq_true, eq_comm, and_congr_right_iff]
  exact fun _ => eq_comm

variable {code : StoreCode} {count now : ℕ} {c : Credential} {proof : StoreProof}
  {receipt : ReceiptRow}

/-- A store brought to the current revision. -/
theorem Moves.materialize {targets : List Target}
    (hreq : db.request? q.projectId q.requestId = some q) (hcode : code ∈ q.storeManifest)
    (htargets : targets = targetsOf q (db.capturedRuns q.projectId q.requestId) code)
    (hcount : count = if code.isTrace then
      (currentWork q code (materializeWork q code targets db.work)).length else 1) :
    Moves db { db with
      work := materializeWork q code targets db.work
      checkpoints := prepareCheckpoint q code count digest db.checkpoints } := by
  refine .of_saga (p := q.projectId) (r := q.requestId) ?_ fun p' r' hne => ?_
  · have hsaga : { db with
        work := materializeWork q code targets db.work
        checkpoints := prepareCheckpoint q code count digest db.checkpoints }.saga q.projectId
          q.requestId = (db.saga q.projectId q.requestId).materialize q code count digest := by
      simp only [Database.saga, filter_materializeWork, filter_prepareCheckpoint, htargets]
      rfl
    rw [hsaga]
    refine .single (.materialize hreq hcode ?_)
    rw [hcount, ← currentWork_filter, filter_materializeWork, htargets]
    rfl
  · simp only [Database.saga, filter_materializeWork_of_ne hne, filter_prepareCheckpoint,
      if_neg hne]
    rfl

/-- Work and checkpoints are beside the keys. -/
theorem Leads.of_moves (h : Moves db db') (hq : db'.requests = db.requests)
    (hsf : db'.subjectFences = db.subjectFences) (hkeys : db'.subjectKeys = db.subjectKeys)
    (hs : db'.runSet = db.runSet) (hrf : db'.runFences = db.runFences) : Leads db db' :=
  ⟨h, fun _ => .of_same hq hsf hkeys hs hrf⟩

variable {u : Unit}

theorem sealTraceManifest_leads {revision : ℕ}
    (h : sealTraceManifest C c revision count digest now db = .ok (u, db')) : Leads db db' := by
  obtain ⟨q, hq, h⟩ := bind_eq_ok.mp h
  obtain ⟨_, -, h⟩ := bind_eq_ok.mp h
  obtain ⟨_, -, h⟩ := bind_eq_ok.mp h
  split at h
  · next code hcode =>
    cases h
    have htrace : code.isTrace = true := find?_some hcode
    refine .of_moves (.materialize (assertLease_request hq) (mem_of_find?_eq_some hcode)
      ?_ ?_) rfl rfl rfl rfl rfl
    · rw [targetsOf, if_pos htrace]
    · rw [if_pos htrace]
  · cases h

/-- Preparing one store after the other. -/
theorem materializeStores_leads {codes : List StoreCode}
    (hreq : db.request? q.projectId q.requestId = some q) (hcodes : codes ⊆ q.storeManifest) :
    Leads db (codes.foldl (materializeStore C q) db) := by
  induction codes generalizing db with
  | nil => exact .refl db
  | cons code codes ih =>
    obtain ⟨hcode, hcodes⟩ := cons_subset.mp hcodes
    rw [foldl_cons]
    by_cases htrace : code.isTrace = true
    · rw [materializeStore, if_pos htrace]
      exact ih hreq hcodes
    · rw [materializeStore, if_neg htrace]
      refine Leads.trans (.of_moves (.materialize hreq hcode ?_ ?_) rfl rfl rfl rfl rfl)
        (ih hreq hcodes)
      · exact (Saga.targetsOf_eq_project (Bool.eq_false_iff.mpr htrace)).symm
      · rw [if_neg htrace]

theorem preparePrimary_leads {outcome : PrepareOutcome}
    (h : preparePrimary C c now db = .ok (outcome, db')) : Leads db db' := by
  obtain ⟨q, hq, h⟩ := bind_eq_ok.mp h
  obtain ⟨_, -, h⟩ := bind_eq_ok.mp h
  obtain ⟨_, -, h⟩ := bind_eq_ok.mp h
  cases h
  exact materializeStores_leads (assertLease_request hq) (List.Subset.refl _)

theorem externalWorkBatch_leads {items : List WorkItem}
    (h : externalWorkBatch C c code limit now db = .ok (items, db')) : Leads db db' := by
  obtain ⟨q, hq, h⟩ := bind_eq_ok.mp h
  obtain ⟨_, -, h⟩ := bind_eq_ok.mp h
  cases h
  obtain ⟨-, -, hholds⟩ := assertLease_eq_ok.mp hq
  have hreq := assertLease_request hq
  have hgen : q.generation = c.generation := (holds_eq_true.mp hholds).2.2.1
  have hcandidate : ∀ {w}, w ∈ (openWork C c q code db.work).take limit →
      w ∈ currentWork q code db.work ∧ isOpenTo c.generation w.state = true := fun hw =>
    mem_filter.mp ((mem_insertionSort _).mp (mem_of_mem_take hw))
  refine .of_moves (.updateWork (p := q.projectId) (r := q.requestId) (fun _ => rfl)
    (fun w hw => ?_) (.single (.claim hreq hgen.symm fun w hw => ?_))) rfl rfl rfl rfl rfl
  · obtain ⟨hcurrent, -⟩ := hcandidate (of_decide_eq_true hw)
    obtain ⟨hp, hr, -⟩ := of_decide_eq_true (mem_filter.mp hcurrent).2
    exact WorkRow.belongsTo_eq_true.mpr ⟨hp, hr⟩
  · rw [hgen]
    exact (hcandidate (of_decide_eq_true hw)).2

theorem markExternalWork_leads {item : WorkItem}
    (h : markExternalWork c item proof now db = .ok (u, db')) : Leads db db' := by
  obtain ⟨q, hq, h⟩ := bind_eq_ok.mp h
  obtain ⟨_, -, h⟩ := bind_eq_ok.mp h
  obtain ⟨_, -, h⟩ := bind_eq_ok.mp h
  cases h
  obtain ⟨-, hreq, -⟩ := assertLease_eq_ok.mp hq
  exact .of_moves (.updateWork (fun _ => rfl) (fun w hw => WorkRow.belongsTo_eq_true.mpr (by
      simp only [isMarked, Bool.and_eq_true, decide_eq_true_eq] at hw
      exact hw.1.1.1.1))
    (.single (.mark hreq))) rfl rfl rfl rfl rfl

theorem advanceExternal_leads {q' : RequestRow} (done : Bool)
    (hreq : db.request? q.projectId q.requestId = some q') (hphase : q'.phase = q.phase)
    (hincomplete : q'.disposition ≠ .scopeComplete) : Leads db (advanceExternal q done db).2 := by
  rw [advanceExternal]
  split
  · next h =>
    rw [Bool.and_eq_true, decide_eq_true_eq] at h
    have hprimary : q'.phase = .primaryPurged := hphase.trans h.2
    exact .advance hreq (hprimary ▸ .external) (by rw [hprimary]; rfl) rfl hincomplete
  · exact .refl db

/-- The checkpoints of a manifest are checkpoints of the request. -/
theorem allDone_filter (checkpoints : List CheckpointRow) :
    allDone q (checkpoints.filter (·.belongsTo q.projectId q.requestId)) =
      allDone q checkpoints := by
  have hpart : manifestCheckpoints q (checkpoints.filter (·.belongsTo q.projectId q.requestId)) =
        manifestCheckpoints q checkpoints := by
    rw [manifestCheckpoints, filter_filter]
    refine filter_congr fun k _ => ?_
    simp only [CheckpointRow.belongsTo, Bool.decide_and]
    cases decide (k.projectId = q.projectId) <;> cases decide (k.requestId = q.requestId) <;> simp
  rw [allDone, allDone, hpart]

/-- The row after a receipt and the aggregate is the row after the aggregate with the
receipt. -/
theorem request?_advanceExternal {checkpoints : List CheckpointRow}
    (hreq : db.request? q.projectId q.requestId = some (q.chained receipt))
    (hp : q.phase = .primaryPurged ∨ q.phase = .externalPurged) :
    (advanceExternal q (allDone q checkpoints) db).2.request? q.projectId q.requestId =
      some ((q.afterClose checkpoints).chained receipt) := by
  rw [advanceExternal, RequestRow.afterClose]
  split
  · next h =>
    rw [Bool.and_eq_true] at h
    rw [if_pos h.1]
    exact request?_updateRequest_self (f := fun q => { q with phase := .externalPurged })
      (fun _ => ⟨rfl, rfl⟩) hreq
  · next h =>
    rw [hreq]
    split
    · next hdone =>
      have hexternal : q.phase = .externalPurged :=
        hp.resolve_left fun hprimary => h (by simp [hdone, hprimary])
      rw [← hexternal]
    · rfl

/-- The aggregate touches nothing but the row of the request. -/
theorem saga_advanceExternal (done : Bool) (p r : UUID) :
    (advanceExternal q done db).2.saga p r = { db.saga p r with
      request := (advanceExternal q done db).2.request? p r } := by
  rw [advanceExternal]
  split <;> rfl

/-- A receipt that proves no purge touches nothing but the row of its request. -/
theorem saga_addReceipt (h : receipt.stepCode ≠ .postgres) (p r : UUID) :
    (db.addReceipt receipt).saga p r = { db.saga p r with
      request := (db.addReceipt receipt).request? p r } := by
  have hproves : receipt.provesPurge p r = false :=
    Bool.eq_false_iff.mpr fun hp => h (ReceiptRow.provesPurge_eq_true.mp hp).2.1
  have hpurged := congrArg Saga.purged (saga_receipts db receipt p r)
  rw [hproves, Bool.or_false] at hpurged
  exact congrArg (Saga.mk _ _ _ _) hpurged

/-- Closing a store happens inside its request. -/
theorem filter_closeAll (code : StoreCode) (count : ℕ) (proof : StoreProof)
    (checkpoints : List CheckpointRow) :
    (closeAll q code count proof checkpoints).filter (·.belongsTo p r) =
      if p = q.projectId ∧ r = q.requestId then
        closeAll q code count proof (checkpoints.filter (·.belongsTo p r))
      else checkpoints.filter (·.belongsTo p r) := by
  have hkeep : ∀ k, isClosable q code count k = true →
      (closeCheckpoint q proof k).belongsTo p r = k.belongsTo p r := fun _ _ => rfl
  split
  · exact filter_updateWhere hkeep checkpoints
  · next hne =>
    refine filter_updateWhere_of_not hkeep (fun k hk => ?_) checkpoints
    refine Bool.eq_false_iff.mpr fun hclosable => hne ?_
    obtain ⟨hp, hr⟩ := CheckpointRow.belongsTo_eq_true.mp hk
    obtain ⟨⟨hp', hr'⟩, -⟩ := isClosable_eq_true.mp hclosable
    exact ⟨hp.symm.trans hp', hr.symm.trans hr'⟩

/-- The receipt of a closed store is not one for the primary store. -/
theorem receiptStep_ne_postgres (kind : StoreKind) : kind.receiptStep ≠ .postgres := by
  cases kind <;> exact nofun

/-- A store closed with its receipt, and the phase moved by the aggregate. -/
theorem Moves.closeStore (hreq : db.request? q.projectId q.requestId = some q)
    (hphase : q.phase = .primaryPurged ∨ q.phase = .externalPurged)
    (hverified : ∀ w ∈ currentWork q code db.work, w.state.isVerified = true)
    (hp : receipt.projectId = q.projectId) (hr : receipt.requestId = q.requestId)
    (hstep : receipt.stepCode ≠ .postgres) :
    Moves db (advanceExternal q (allDone q (closeAll q code count proof db.checkpoints))
      ({ db with checkpoints := closeAll q code count proof db.checkpoints }.addReceipt
        receipt)).2 := by
  generalize hclosed : closeAll q code count proof db.checkpoints = closed
  have hread : ({ db with checkpoints := closed }.addReceipt receipt).request? q.projectId
      q.requestId = some (q.chained receipt) := by
    rw [← hp, ← hr] at hreq ⊢
    exact request?_addReceipt hreq
  refine .of_saga (p := q.projectId) (r := q.requestId) ?_ fun p' r' hne => ?_
  · have hpart : closeAll q code count proof (db.saga q.projectId q.requestId).checkpoints =
        closed.filter (·.belongsTo q.projectId q.requestId) := by
      rw [← hclosed, filter_closeAll, if_pos ⟨rfl, rfl⟩]
      rfl
    have hclose : Saga.Step (db.saga q.projectId q.requestId) { db.saga q.projectId q.requestId with
          request := some (q.afterClose closed)
          checkpoints := closed.filter (·.belongsTo q.projectId q.requestId) } := by
      have hdone : q.afterClose closed = q.afterClose
          (closeAll q code count proof (db.saga q.projectId q.requestId).checkpoints) := by
        rw [hpart, RequestRow.afterClose, RequestRow.afterClose, allDone_filter]
      rw [hdone, ← hpart]
      refine .close hreq hphase fun w hw => hverified w ?_
      rwa [Database.saga, currentWork_filter] at hw
    rw [saga_advanceExternal, request?_advanceExternal hread hphase, saga_addReceipt hstep]
    exact .tail (.single hclose) (.quiet rfl (.of_lease rfl rfl rfl rfl rfl rfl rfl rfl id))
  · have hother : ({ db with checkpoints := closed }.addReceipt receipt).request? p' r' =
        db.request? p' r' :=
      (request?_updateRequest (f := (·.chained receipt)) fun _ => ⟨rfl, rfl⟩).trans
        (if_neg (hp ▸ hr ▸ hne))
    have hadvance : ∀ db₁ : Database, (advanceExternal q (allDone q closed) db₁).2.request? p' r' =
        db₁.request? p' r' := by
      intro db₁
      rw [advanceExternal]
      split
      · refine (request?_updateRequest ?_).trans (if_neg hne)
        exact fun _ => ⟨rfl, rfl⟩
      · rfl
    rw [saga_advanceExternal, hadvance, hother, saga_addReceipt hstep]
    simp only [Database.saga, ← hclosed, filter_closeAll, if_neg hne]
    rfl

variable {outcome : CloseOutcome}

theorem closeExternalStep_leads (h : closeExternalStep C c code proof now db = .ok (outcome, db')) :
    Leads db db' := by
  obtain ⟨q, hq, h⟩ := bind_eq_ok.mp h
  obtain ⟨_, hguard, h⟩ := bind_eq_ok.mp h
  obtain ⟨_, hverified, h⟩ := bind_eq_ok.mp h
  have hreq := assertLease_request hq
  have hincomplete := ne_scopeComplete_of_assertLease hq
  split at h
  · obtain rfl : (advanceExternal q _ db).2 = db' := congrArg Prod.snd (Except.ok.inj h)
    exact advanceExternal_leads _ hreq rfl hincomplete
  · obtain ⟨_, -, h⟩ := bind_eq_ok.mp h
    obtain ⟨⟨digest, db₂⟩, hreceipt, h⟩ := bind_eq_ok.mp h
    obtain rfl : (advanceExternal q _ db₂).2 = db' := congrArg Prod.snd (Except.ok.inj h)
    have hphase : q.phase = .primaryPurged ∨ q.phase = .externalPurged := by
      simp only [ensure_eq_ok, Bool.and_eq_true, Bool.or_eq_true, decide_eq_true_eq] at hguard
      exact hguard.1.1
    refine ⟨?_, fun hdb => ?_⟩
    · obtain ⟨q₀, hq₀, rfl⟩ := appendReceipt_eq_ok hreceipt
      obtain rfl := Option.some.inj (hreq.symm.trans hq₀)
      exact .closeStore hreq hphase
        (fun w hw => all_eq_true.mp (ensure_eq_ok.mp hverified) w hw) rfl rfl
        (receiptStep_ne_postgres _)
    · have hclosed : Tame db { db with
          checkpoints :=
            closeAll q code (currentWork q code db.work).length proof db.checkpoints } :=
        .of_same rfl rfl rfl rfl rfl
      have hreceipted := hclosed.trans (.appendReceipt (hclosed.standing hdb) hreceipt)
      obtain ⟨receipt, hread⟩ := request?_appendReceipt hreceipt hreq
      exact hreceipted.trans ((advanceExternal_leads _ hread rfl hincomplete).tame
        (hreceipted.standing hdb))

theorem retireProject_eq_ok (h : retireProject q db = .ok db') :
    ∃ projects grants, db' = { db with projects, grants } := by
  rw [retireProject] at h
  split at h
  · obtain ⟨_, -, h⟩ := bind_eq_ok.mp h
    exact ⟨_, _, (Except.ok.inj h).symm⟩
  · exact ⟨db.projects, db.grants, (Except.ok.inj h).symm⟩

theorem verifyAndComplete_leads (h : verifyAndComplete C c now db = .ok (outcome, db')) :
    Leads db db' := by
  obtain ⟨q, hq, h⟩ := bind_eq_ok.mp h
  obtain ⟨_, hguard, h⟩ := bind_eq_ok.mp h
  obtain ⟨⟨digest, db₁⟩, hverify, h⟩ := bind_eq_ok.mp h
  obtain ⟨db₂, hretire, h⟩ := bind_eq_ok.mp h
  obtain ⟨⟨digest', db₃⟩, hcomplete, h⟩ := bind_eq_ok.mp h
  cases h
  have hphase : q.phase = .externalPurged := by
    simp only [ensure_eq_ok, Bool.and_eq_true, decide_eq_true_eq] at hguard
    exact hguard.1.1
  have hfirst : Leads db db₁ := .appendReceipt_of_ne hverify (.inl (by simp))
  have hfences : Leads db₁ (finalizeFences q db₁) :=
    ⟨.of_same rfl rfl rfl rfl rfl, fun _ => finalizeFences_tame q db₁⟩
  have hsecond : Leads db₂ db₃ := .appendReceipt_of_ne hcomplete (.inl (by simp))
  obtain ⟨_, _, rfl⟩ := retireProject_eq_ok hretire
  refine (hfirst.trans hfences).trans (.trans ?_ (hsecond.trans ?_))
  · exact .of_same rfl rfl rfl rfl rfl rfl rfl rfl
  obtain ⟨receipt₁, hread₁⟩ := request?_appendReceipt hverify (assertLease_request hq)
  obtain ⟨receipt₂, hread₃⟩ := request?_appendReceipt hcomplete hread₁
  have hadvance : ((q.chained receipt₁).chained receipt₂).phase.Advances .scopeComplete := by
    change q.phase.Advances .scopeComplete
    rw [hphase]
    exact .complete
  have hincomplete := ne_scopeComplete_of_assertLease hq
  refine .updateRequest hread₃ (fun _ => ⟨rfl, rfl⟩)
    (.tail (.single (.advance hread₃ hadvance)) (.quiet rfl ?_))
    ⟨rfl, rfl, rfl, ?_, fun h => absurd h hincomplete, fun _ _ => rfl⟩
  · exact .of_lease rfl rfl rfl rfl rfl rfl rfl rfl (by simp)
  · change true = q.phase.isErased
    rw [hphase]
    rfl

theorem runtimeWrite_leads {t : PrimaryTable} {rows : List PrimaryRow}
    (h : runtimeWrite p t rows db = .ok (u, db')) : Leads db db' := by
  obtain ⟨_, -, h⟩ := bind_eq_ok.mp h
  cases h
  exact .of_same rfl rfl rfl rfl rfl rfl rfl rfl

end Stores

end Tracebed.Erasure
