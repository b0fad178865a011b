import Tracebed.ErasureReachable
import Tracebed.Lib.Sha256

/-!
# Completing an Erasure Request

Completion counts checkpoints. By the invariant of the sagas, a checkpoint verified at the
closure revision was prepared at that revision, so all work of its store is verified there and
every target of the store has work. The step before it is weaker: `closeExternalStep` moves the
phase by `bool_and(verified_revision = closure_revision)`, which skips open checkpoints.

## Main results

* `verifyAndComplete_sound`: whenever a request is completed, nothing of its scope is left in
  the primary store and every target of every store is verified at the closure revision.
* `closeExternalStep_external`: a close that moves the phase to `external_purged` leaves its own
  store as the only verified one.
-/

open Py Fallible Table List

namespace Tracebed.Erasure

variable {C : Cluster} {db db' : Database} {q : RequestRow}

/-! ### What a checkpoint proves -/

/-- The store has a checkpoint verified at the closure revision of the request. -/
def StoreVerified (db : Database) (q : RequestRow) (code : StoreCode) : Prop :=
  ∃ k ∈ db.checkpoints, isCheckpoint q code k = true ∧
    k.verifiedRevision = some q.closureRevision

/-- The target has work verified at the closure revision of the request. -/
def TargetVerified (db : Database) (q : RequestRow) (code : StoreCode) (t : Target) : Prop :=
  ∃ w ∈ db.work, w.key = (q.projectId, q.requestId, code, t) ∧
    w.discoveredRevision = q.closureRevision ∧ w.state.isVerified = true

instance (db : Database) (q : RequestRow) (code : StoreCode) :
    Decidable (StoreVerified db q code) :=
  inferInstanceAs (Decidable (∃ k ∈ db.checkpoints, isCheckpoint q code k = true ∧
    k.verifiedRevision = some q.closureRevision))

variable {code : StoreCode}

theorem isCheckpoint_eq_true {k : CheckpointRow} :
    isCheckpoint q code k = true ↔
      (k.projectId = q.projectId ∧ k.requestId = q.requestId) ∧ k.storeCode = code := by
  simp [isCheckpoint]

/-- **A verified checkpoint covers every target of its store.** -/
theorem StoreVerified.targetVerified (hsound : (db.saga q.projectId q.requestId).Sound q)
    (h : StoreVerified db q code) :
    ∀ t ∈ targetsOf q (db.capturedRuns q.projectId q.requestId) code,
      TargetVerified db q code t := by
  intro t ht
  obtain ⟨k, hk, hkey, hrev⟩ := h
  obtain ⟨hown, rfl⟩ := isCheckpoint_eq_true.mp hkey
  have hmem : k ∈ (db.saga q.projectId q.requestId).checkpoints :=
    mem_filter.mpr ⟨hk, CheckpointRow.belongsTo_eq_true.mpr hown⟩
  have hprep := hsound.prepared k hmem (hsound.proof_revision k hmem _ hrev).symm
  have hproof : k.proof.isSome = true := by
    exact (Option.isSome_map.symm.trans (congrArg Option.isSome hrev) : k.proof.isSome = true)
  obtain ⟨w, hw, hcode, htarget⟩ := hprep.covered t ht
  obtain ⟨hp, hr⟩ := hsound.work_owned w hw
  refine ⟨w, (mem_filter.mp hw).1, ?_, hprep.current w hw hcode, hprep.verified hproof w hw hcode⟩
  simp [WorkRow.key, hp, hr, hcode, htarget]

theorem storeVerified_of_count (hsound : (db.saga q.projectId q.requestId).Sound q)
    (hcount : verifiedStores q db.checkpoints = q.storeManifest.length) :
    ∀ code ∈ q.storeManifest, StoreVerified db q code := by
  have hpart : manifestCheckpoints q db.checkpoints =
      (db.saga q.projectId q.requestId).checkpoints.filter (·.storeCode ∈ q.storeManifest) := by
    rw [Database.saga, filter_filter]
    refine filter_congr fun k _ => ?_
    simp only [CheckpointRow.belongsTo, Bool.decide_and]
    rw [← Bool.and_assoc, Bool.and_comm]
  set verified := (manifestCheckpoints q db.checkpoints).filter
    (·.verifiedRevision = some q.closureRevision) with hverified
  have hlength : (verified.map (·.storeCode)).length = q.storeManifest.length := by
    rw [length_map, ← countP_eq_length_filter]
    exact hcount
  have hsubset : verified.map (·.storeCode) ⊆ q.storeManifest := by
    intro code hcode
    obtain ⟨k, hk, rfl⟩ := mem_map.mp hcode
    exact (of_decide_eq_true (mem_filter.mp (mem_filter.mp hk).1).2).2.2
  have hnodup : (verified.map (·.storeCode)).Nodup := by
    have hkeyed : Table.Keyed CheckpointRow.key verified := by
      rw [hverified, hpart]
      exact (hsound.checkpoints_keyed.filter _).filter _
    refine List.Nodup.map_on (fun a ha b hb hab => ?_) (List.Nodup.of_map _ hkeyed)
    refine hkeyed.eq_of_key ha hb ?_
    have howned : ∀ k ∈ verified, k.projectId = q.projectId ∧ k.requestId = q.requestId := by
      intro k hk
      obtain ⟨hp, hr, -⟩ := of_decide_eq_true (mem_filter.mp (mem_filter.mp hk).1).2
      exact ⟨hp, hr⟩
    rw [CheckpointRow.key, CheckpointRow.key, (howned a ha).1, (howned a ha).2, (howned b hb).1,
      (howned b hb).2, hab]
  intro code hcode
  have hperm := (subperm_of_subset hnodup hsubset).perm_of_length_le hlength.ge
  obtain ⟨k, hk, rfl⟩ := mem_map.mp (hperm.mem_iff.mpr hcode)
  obtain ⟨hk, hrev⟩ := mem_filter.mp hk
  obtain ⟨hk, hown⟩ := mem_filter.mp hk
  obtain ⟨hp, hr, -⟩ := of_decide_eq_true hown
  exact ⟨k, hk, isCheckpoint_eq_true.mpr ⟨⟨hp, hr⟩, rfl⟩, of_decide_eq_true hrev⟩

/-! ### Completion -/

variable {outcome : CloseOutcome} {c : Credential}

theorem verifyAndComplete_eq_ok {now : ℕ} (h : verifyAndComplete C c now db = .ok (outcome, db')) :
    ∃ q receipt receipt', db.request? c.projectId c.requestId = some q ∧
      q.lease.isSome = true ∧ primaryRemaining db q.projectId q.requestId = 0 ∧
      verifiedStores q db.checkpoints = q.storeManifest.length ∧
      db'.request? c.projectId c.requestId = some { (q.chained receipt).chained receipt' with
        phase := .scopeComplete, disposition := .scopeComplete, lease := none } ∧
      db'.work = db.work ∧ db'.checkpoints = db.checkpoints ∧ db'.runSet = db.runSet ∧
      db'.memSet = db.memSet ∧ db'.primary = db.primary := by
  obtain ⟨q, hq, h⟩ := bind_eq_ok.mp h
  obtain ⟨_, hguard, h⟩ := bind_eq_ok.mp h
  obtain ⟨⟨digest, db₁⟩, hverify, h⟩ := bind_eq_ok.mp h
  obtain ⟨db₂, hretire, h⟩ := bind_eq_ok.mp h
  obtain ⟨⟨digest', db₃⟩, hcomplete, h⟩ := bind_eq_ok.mp h
  cases h
  obtain ⟨-, hreq, hholds⟩ := assertLease_eq_ok.mp hq
  obtain ⟨hp, hr⟩ := request?_key hreq
  rw [hp, hr] at hverify hcomplete hguard ⊢
  simp only [ensure_eq_ok, Bool.and_eq_true, decide_eq_true_eq] at hguard
  obtain ⟨-, -, -, l, hl, -⟩ := holds_eq_true.mp hholds
  obtain ⟨receipt, hread₁⟩ := request?_appendReceipt hverify hreq
  obtain ⟨_, _, rfl⟩ := retireProject_eq_ok hretire
  obtain ⟨receipt', hread₃⟩ := request?_appendReceipt hcomplete hread₁
  have hself := request?_updateRequest_self
    (f := fun q => { q with phase := .scopeComplete, disposition := .scopeComplete, lease := none })
    (fun _ => ⟨rfl, rfl⟩) hread₃
  refine ⟨q, receipt, receipt', hreq, by rw [hl]; rfl, ?_, hguard.2, hself, ?_⟩
  · rw [hp, hr]
    exact hguard.1.2
  obtain ⟨_, -, rfl⟩ := appendReceipt_eq_ok hverify
  obtain ⟨_, -, rfl⟩ := appendReceipt_eq_ok hcomplete
  exact ⟨rfl, rfl, rfl, rfl, rfl⟩

/-- The count of the primary store reads the scope, the closure and the business tables. -/
theorem primaryRemaining_congr {q' : RequestRow} {p r : UUID} (hq : db.request? p r = some q)
    (hq' : db'.request? p r = some q') (hscope : q'.scope = q.scope)
    (hruns : db'.runSet = db.runSet) (hmems : db'.memSet = db.memSet)
    (hprimary : db'.primary = db.primary) :
    primaryRemaining db' p r = primaryRemaining db p r := by
  obtain ⟨hp, hr⟩ := request?_key hq
  obtain ⟨hp', hr'⟩ := request?_key hq'
  have hrequired : ∀ row t, isRequired db' q' row t = isRequired db q row t := by
    intro row t
    cases t <;> simp only [isRequired, digestMatches, runCaptured, memoryCaptured,
      Database.capturedRuns, Database.capturedMemories, hscope, hruns, hmems, hp, hr, hp', hr']
  have hrows : requiredRows db' q' = requiredRows db q := by
    funext t
    simp [requiredRows, hrequired, hprimary, hp, hp']
  simp [primaryRemaining, hq, hq', hrows]

/-- **Completion is sound.** In every reachable database, a completion leaves the request
`scope_complete`, nothing of its scope in the primary store, one checkpoint per store of the
manifest verified at the closure revision, and verified work at that revision for every target:
the project in each of the three other stores, and in the trace store every captured run of a
subject request or the project of a project request. -/
theorem verifyAndComplete_sound (hdb : Reachable C db) {c : Credential} {now : ℕ}
    {outcome : CloseOutcome} (h : verifyAndComplete C c now db = .ok (outcome, db')) :
    ∃ q, db'.request? c.projectId c.requestId = some q ∧ q.phase = .scopeComplete ∧
      q.disposition = .scopeComplete ∧ primaryRemaining db' c.projectId c.requestId = 0 ∧
      manifestIsValid q.storeManifest = true ∧
      (∀ code ∈ q.storeManifest, StoreVerified db' q code) ∧
      (∀ code ∈ q.storeManifest, code.isTrace = false → TargetVerified db' q code .project) ∧
      ∀ code ∈ q.storeManifest, code.isTrace = true →
        match q.scope with
        | .subject _ => ∀ run ∈ db'.capturedRuns c.projectId c.requestId,
            TargetVerified db' q code (.run run)
        | .project => TargetVerified db' q code .project := by
  obtain ⟨q, receipt, receipt', hreq, hlease, hprimary, hcount, hreq', hwork, hcheckpoints, hruns,
    hmems, hrows⟩ := verifyAndComplete_eq_ok h
  obtain ⟨hp, hr⟩ := request?_key hreq
  have hsound : (db.saga q.projectId q.requestId).Sound q :=
    (hdb.wellFormed q.projectId q.requestId).sound q (hp ▸ hr ▸ hreq)
  have hmanifest : manifestIsValid q.storeManifest = true :=
    hsound.admissible.started (hsound.admissible.leased hlease)
  have hstores := storeVerified_of_count hsound hcount
  have htargets : ∀ code ∈ q.storeManifest, ∀ t ∈ targetsOf q
      (db.capturedRuns q.projectId q.requestId) code, TargetVerified db q code t :=
    fun code hcode => (hstores code hcode).targetVerified hsound
  refine ⟨_, hreq', rfl, rfl, ?_, hmanifest, ?_, ?_, ?_⟩
  · rw [primaryRemaining_congr hreq hreq' rfl hruns hmems hrows, ← hp, ← hr]
    exact hprimary
  · intro code hcode
    obtain ⟨k, hk, hkey, hrev⟩ := hstores code hcode
    exact ⟨k, hcheckpoints ▸ hk, hkey, hrev⟩
  · intro code hcode hnot
    obtain ⟨w, hw, hfields⟩ := htargets code hcode .project
      (by rw [Saga.targetsOf_eq_project hnot]; exact mem_singleton_self _)
    exact ⟨w, hwork ▸ hw, hfields⟩
  · intro code hcode htrace
    have hall : ∀ t ∈ traceTargets q (db.capturedRuns q.projectId q.requestId),
        TargetVerified db' q code t := by
      intro t ht
      obtain ⟨w, hw, hfields⟩ := htargets code hcode t (by rw [targetsOf, if_pos htrace]; exact ht)
      exact ⟨w, hwork ▸ hw, hfields⟩
    rw [traceTargets] at hall
    dsimp only [RequestRow.chained]
    split
    · next hscope =>
      rw [hscope] at hall
      intro run hrun
      refine hall _ (mem_map_of_mem ?_)
      rw [Database.capturedRuns, hp, hr, ← hruns]
      exact hrun
    · next hscope =>
      rw [hscope] at hall
      exact hall _ (mem_singleton_self _)

/-! ### A run to completion -/

/-- The cluster with SHA-256 and the order of code points. -/
def standardCluster : Cluster where
  sha256 := Sha256.sha256
  collate := strLe
  workId
    | (_, _, _, .run run) => run
    | (_, request, _, .project) => request

namespace Sample

/-- The identifiers of the run: a project with a request for one subject of one run. -/
def project : UUID := ⟨1⟩

def request : UUID := ⟨2⟩

def run : UUID := ⟨3⟩

def token : UUID := ⟨4⟩

def principal : UUID := ⟨5⟩

def tag : PyStr := str "person-1"

def manifest : List StoreCode := [.graphNone, .traceFsV1, .valkeyV1, .vectorNone]

/-- A project whose only business row is the owner of a run with one subject. -/
def initial : Database where
  admissionsOpen := true
  projects := [⟨project, .active⟩]
  grants := [⟨project, principal, principal, principal, .erasureRequest⟩]
  attached := [project]
  requests := []
  subjectFences := []
  runFences := []
  runSet := []
  memSet := []
  work := []
  checkpoints := []
  receipts := []
  subjectKeys := []
  primary := fun t =>
    if t = .runOwner then
      [⟨1, project, some run, [], [tagDigest standardCluster project tag], [], false,
        some (principal, principal), none⟩]
    else []

theorem initial_initial : Database.Initial initial where
  requests := rfl
  runSet := rfl
  memSet := rfl
  work := rfl
  checkpoints := rfl
  receipts := rfl
  subjectFences := by simp [initial]
  runFences := by simp [initial]
  projects := by simp [initial, Table.Keyed]
  attached := by simp [initial]

/-- The lease of the one worker. -/
def credential : Credential := ⟨project, request, 1, token, str "worker"⟩

/-- What every store answers. -/
def proof : StoreProof := ⟨.ok, 0, List.replicate 32 0⟩

/-- The manifest of a request without payload references. -/
def sealed : Digest :=
  standardCluster.sha256 (ascii "tracebed.erasure-trace-manifest/v1" ++ [0x00])

/-- From the request to an empty primary store. -/
def toPrimaryPurged : List Call :=
  [.requestErasure ⟨project, principal, principal, principal, some tag, request⟩ 0,
    .claimRequest request ⟨str "worker", 900, manifest, token⟩ 0, .cryptoStep credential 0,
    .sealTraceManifest credential 1 0 sealed 0, .preparePrimary credential 0,
    .primaryBatch credential 100 0]

/-- The work of a store claimed and marked. -/
def eraseStore (code : StoreCode) (target : Target) : List Call :=
  [.externalWorkBatch credential code 100 0,
    .markExternalWork credential ⟨code, target, 1, 1⟩ proof 0]

def closeStore (code : StoreCode) (target : Target) : List Call :=
  eraseStore code target ++ [.closeExternalStep credential code proof 0]

/-- The database after calls. -/
def after (calls : List Call) : Database := Runs.exec (step standardCluster) initial calls

theorem reachable_after (calls : List Call) : Reachable standardCluster (after calls) :=
  ⟨initial, calls, initial_initial, rfl⟩

/-- From the request to the last store. -/
def toExternalPurged : List Call :=
  toPrimaryPurged ++ closeStore .graphNone .project ++ closeStore .traceFsV1 (.run run) ++
    closeStore .valkeyV1 .project ++ closeStore .vectorNone .project

/-- The run completes, so that the guarantees of completion hold at its end. -/
theorem completed_sound : ∃ outcome db' q,
    verifyAndComplete standardCluster credential 0 (after toExternalPurged) =
      .ok (outcome, db') ∧ db'.request? project request = some q ∧ q.phase = .scopeComplete ∧
      (∀ code ∈ q.storeManifest, StoreVerified db' q code) := by
  have hok : (verifyAndComplete standardCluster credential 0
      (after toExternalPurged)).toOption.isSome = true := by decide +kernel
  obtain ⟨⟨outcome, db'⟩, hsome⟩ := Option.isSome_iff_exists.mp hok
  have h := toOption_eq_some.mp hsome
  obtain ⟨q, hq, hphase, -, -, -, hstores, -⟩ :=
    verifyAndComplete_sound (reachable_after toExternalPurged) h
  exact ⟨outcome, db', q, h, hq, hphase, hstores⟩

end Sample

/-! ### Closing a store -/

/-- What a close leaves of its request: all that the stores are judged by, and a phase that moves
to `external_purged` at most. -/
structure RequestRow.Closes (q q' : RequestRow) : Prop where
  phase : q'.phase = q.phase ∨ q'.phase = .externalPurged
  storeManifest : q'.storeManifest = q.storeManifest
  closureRevision : q'.closureRevision = q.closureRevision

/-- The phase after the aggregate was taken. -/
theorem advanceExternal_eq {q₁ : RequestRow} {done : Bool} {p r : UUID}
    (hkey : q.projectId = p ∧ q.requestId = r) (hq₁ : db.request? p r = some q₁)
    (hsame : q.Closes q₁) (h : advanceExternal q done db = (outcome, db')) :
    db'.checkpoints = db.checkpoints ∧ ∃ q', db'.request? p r = some q' ∧ q.Closes q' := by
  obtain ⟨rfl, rfl⟩ := hkey
  rw [advanceExternal] at h
  split at h
  · obtain ⟨-, rfl⟩ := Prod.mk.inj h
    exact ⟨rfl, _, request?_updateRequest_self (f := fun q => { q with phase := .externalPurged })
      (fun _ => ⟨rfl, rfl⟩) hq₁, .inr rfl, hsame.storeManifest, hsame.closureRevision⟩
  · obtain ⟨-, rfl⟩ := Prod.mk.inj h
    exact ⟨rfl, q₁, hq₁, hsame⟩

/-- What a close leaves: the store verified at the closure revision, and the checkpoints of other
stores as they were. -/
theorem closeExternalStep_eq_ok {proof : StoreProof} {now : ℕ}
    (hq : db.request? c.projectId c.requestId = some q)
    (h : closeExternalStep C c code proof now db = .ok (outcome, db')) :
    StoreVerified db' q code ∧
      (∀ k, k.storeCode ≠ code → (k ∈ db'.checkpoints ↔ k ∈ db.checkpoints)) ∧
      ∃ q', db'.request? c.projectId c.requestId = some q' ∧ q.Closes q' := by
  obtain ⟨q₀, hq₀, h⟩ := bind_eq_ok.mp h
  obtain rfl := Option.some.inj (hq.symm.trans (assertLease_eq_ok.mp hq₀).2.1)
  obtain ⟨_, -, h⟩ := bind_eq_ok.mp h
  obtain ⟨_, -, h⟩ := bind_eq_ok.mp h
  have hkey := request?_key hq
  split at h
  · next hclosed =>
    obtain ⟨hsame, hcloses⟩ := advanceExternal_eq hkey hq ⟨.inl rfl, rfl, rfl⟩ (Except.ok.inj h)
    refine ⟨?_, fun k _ => by rw [hsame], hcloses⟩
    obtain ⟨k, hk, hrow⟩ := any_eq_true.mp hclosed
    simp only [Bool.and_eq_true, decide_eq_true_eq] at hrow
    exact ⟨k, hsame ▸ hk, hrow.1.1, hrow.2⟩
  · obtain ⟨_, hclosable, h⟩ := bind_eq_ok.mp h
    obtain ⟨⟨digest, db₁⟩, hreceipt, h⟩ := bind_eq_ok.mp h
    rw [hkey.1, hkey.2] at hreceipt
    obtain ⟨receipt, hread⟩ := request?_appendReceipt hreceipt hq
    obtain ⟨hsame, hcloses⟩ :=
      advanceExternal_eq hkey hread ⟨.inl rfl, rfl, rfl⟩ (Except.ok.inj h)
    obtain ⟨_, -, rfl⟩ := appendReceipt_eq_ok hreceipt
    refine ⟨?_, fun k hk => ?_, hcloses⟩
    · obtain ⟨k, hk, hrow⟩ := any_eq_true.mp (ensure_eq_ok.mp hclosable)
      refine ⟨closeCheckpoint q proof k, hsame ▸ mem_updateWhere_of hk hrow, ?_, rfl⟩
      obtain ⟨hown, hcode, -⟩ := isClosable_eq_true.mp hrow
      exact isCheckpoint_eq_true.mpr ⟨hown, hcode⟩
    · rw [hsame]
      refine ⟨fun hmem => ?_, fun hmem => mem_updateWhere_of_not hmem ?_⟩
      · obtain ⟨old, hold, rfl⟩ := mem_updateWhere.mp hmem
        by_cases hrow : isClosable q code (currentWork q code db.work).length old = true
        · rw [if_pos hrow] at hk
          exact absurd (isClosable_eq_true.mp hrow).2.1 hk
        · rw [if_neg hrow]
          exact hold
      · exact Bool.eq_false_iff.mpr fun hrow => hk (isClosable_eq_true.mp hrow).2.1

/-- **What `external_purged` means: one store is closed.** In every reachable database, a close of
a request in `primary_purged` moves it to `external_purged` and leaves its own store as the only one
of the manifest that is verified at the closure revision. A manifest has four stores, so a move to
`external_purged` never finds all of them verified. -/
theorem closeExternalStep_external (hdb : Reachable C db) {c : Credential} {code : StoreCode}
    {proof : StoreProof} {now : ℕ} {outcome : CloseOutcome}
    (h : closeExternalStep C c code proof now db = .ok (outcome, db'))
    (hq : db.request? c.projectId c.requestId = some q) (hbefore : q.phase = .primaryPurged) :
    ∃ q', db'.request? c.projectId c.requestId = some q' ∧ q'.phase = .externalPurged ∧
      (∀ other ∈ q'.storeManifest, StoreVerified db' q' other ↔ other = code) ∧
      ¬ ∀ other ∈ q'.storeManifest, StoreVerified db' q' other := by
  obtain ⟨hclosed, hothers, q', hq', hcloses⟩ := closeExternalStep_eq_ok hq h
  obtain ⟨hp, hr⟩ := request?_key hq
  obtain ⟨hp', hr'⟩ := request?_key hq'
  have hsound := (hdb.wellFormed c.projectId c.requestId).sound q hq
  have hmember : ∀ {db : Database} {other k}, k ∈ db.checkpoints → isCheckpoint q other k = true →
      k ∈ (db.saga c.projectId c.requestId).checkpoints := by
    intro db other k hk hkey
    exact mem_filter.mpr ⟨hk, CheckpointRow.belongsTo_eq_true.mpr
      (hp ▸ hr ▸ (isCheckpoint_eq_true.mp hkey).1)⟩
  have hverified : ∀ other, StoreVerified db' q' other ↔ StoreVerified db' q other := by
    intro other
    simp only [StoreVerified, isCheckpoint, hp, hr, hp', hr', hcloses.closureRevision]
  have honly : ∀ other, StoreVerified db' q' other ↔ other = code := by
    refine fun other => (hverified other).trans ⟨?_, fun heq => heq ▸ hclosed⟩
    rintro ⟨k, hk, hkey, hrev⟩
    by_contra hne
    -- no checkpoint had a proof before the close
    have hold := (hothers k ((isCheckpoint_eq_true.mp hkey).2.symm ▸ hne)).mp hk
    rw [CheckpointRow.verifiedRevision, hsound.proof_eq_none hbefore (hmember hold hkey)] at hrev
    cases hrev
  have hphase : q'.phase = .externalPurged := by
    obtain ⟨k, hk, hkey, hrev⟩ := hclosed
    have hcall : (Call.closeExternalStep c code proof now).perform C db = .ok db' :=
      map_eq_ok.mpr ⟨_, h, rfl⟩
    have hafter := (Saga.wellFormed_of_steps (hdb.wellFormed c.projectId c.requestId)
      (Call.perform_moves hcall c.projectId c.requestId)).sound q' hq'
    have hdone := hafter.proof_phase k (hmember hk hkey)
      (Option.isSome_map.symm.trans (congrArg Option.isSome hrev))
    have hmoved := hcloses.phase
    rw [hbefore] at hmoved
    grind
  refine ⟨q', hq', hphase, fun other _ => honly other, fun hall => ?_⟩
  have hmanifest : manifestIsValid q'.storeManifest = true := by
    rw [hcloses.storeManifest]
    refine hsound.admissible.started (hsound.admissible.leased ?_)
    obtain ⟨_, hlease, -⟩ := bind_eq_ok.mp h
    obtain ⟨-, hreq, hholds⟩ := assertLease_eq_ok.mp hlease
    obtain rfl := Option.some.inj (hq.symm.trans hreq)
    obtain ⟨-, -, -, l, hl, -⟩ := holds_eq_true.mp hholds
    exact hl ▸ rfl
  simp only [manifestIsValid, Bool.and_eq_true, decide_eq_true_eq] at hmanifest
  have hone : q'.storeManifest ⊆ [code] := fun other hother =>
    mem_singleton.mpr ((honly other).mp (hall other hother))
  have hlength := (subperm_of_subset hmanifest.1.1.1.1.2 hone).length_le
  simp [hmanifest.1.1.1.1.1.1] at hlength

namespace Sample

/-- The database before the first store is closed: in the order of the manifest the graph. -/
def beforeClose : Database := after (toPrimaryPurged ++ eraseStore .graphNone .project)

/-- The close returns, and afterwards the phase has moved while the trace store is open. -/
theorem beforeClose_closes : ((closeExternalStep standardCluster credential .graphNone proof 0
    beforeClose).toOption.bind fun result => (result.2.request? project request).map fun q =>
      (q.phase, decide (.traceFsV1 ∈ q.storeManifest),
        decide (StoreVerified result.2 q .traceFsV1))) = some (.externalPurged, true, false) := by
  decide +kernel

theorem beforeClose_phase :
    (beforeClose.request? project request).map (·.phase) = some .primaryPurged := by
  decide +kernel

/-- The first store to be closed moves the phase, and the trace store is still open. -/
theorem first_close_moves_phase : ∃ outcome db' q q', Reachable standardCluster beforeClose ∧
    closeExternalStep standardCluster credential .graphNone proof 0 beforeClose =
      .ok (outcome, db') ∧
    beforeClose.request? project request = some q ∧ q.phase = .primaryPurged ∧
    db'.request? project request = some q' ∧ q'.phase = .externalPurged ∧
    .traceFsV1 ∈ q'.storeManifest ∧ ¬ StoreVerified db' q' .traceFsV1 := by
  obtain ⟨⟨outcome, db'⟩, hok, hrow⟩ := Option.bind_eq_some_iff.mp beforeClose_closes
  obtain ⟨q', hq', hfacts⟩ := Option.map_eq_some_iff.mp hrow
  obtain ⟨q, hq, hphase⟩ := Option.map_eq_some_iff.mp beforeClose_phase
  simp only [Prod.mk.injEq, decide_eq_true_eq, decide_eq_false_iff_not] at hfacts
  exact ⟨outcome, db', q, q', reachable_after _, toOption_eq_some.mp hok, hq, hphase, hq',
    hfacts.1, hfacts.2.1, hfacts.2.2⟩

/-- The first close leaves the closed graph as the only verified store. -/
theorem first_close_alone : ∃ outcome db' q',
    closeExternalStep standardCluster credential .graphNone proof 0 beforeClose =
      .ok (outcome, db') ∧ db'.request? project request = some q' ∧ q'.phase = .externalPurged ∧
    (∀ other ∈ q'.storeManifest, StoreVerified db' q' other ↔ other = .graphNone) ∧
    ¬ ∀ other ∈ q'.storeManifest, StoreVerified db' q' other := by
  obtain ⟨⟨outcome, db'⟩, hok, -⟩ := Option.bind_eq_some_iff.mp beforeClose_closes
  obtain ⟨q, hq, hphase⟩ := Option.map_eq_some_iff.mp beforeClose_phase
  have h := toOption_eq_some.mp hok
  obtain ⟨q', hq', hafter⟩ := closeExternalStep_external (reachable_after _) h hq hphase
  exact ⟨outcome, db', q', h, hq', hafter⟩

end Sample

end Tracebed.Erasure
