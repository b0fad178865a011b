import Tracebed.AuthorizedBatch
import Tracebed.ErasureSealed
import Tracebed.SdkClient

/-!
# Submissions for an Erased Subject

A batch of trace events that names an erased subject is always refused, but not always as a
fence. A run whose fence is down is refused without raising, and the caller receives
`ErasureFenced`. A new run meets the completed request as a late run, which that request no longer
takes, and the error it raises is no fence to the caller (`Sample.new_run_retried`). `cause` says
for each write, from the database before the batch, why it would raise, and
`erased_submission_fenced_iff` when the caller receives `ErasureFenced`.
-/

open Py Fallible Interaction Routine Tracebed.Queue Table List Option

namespace Tracebed.Erasure

variable {C : Cluster} {db db' : Database} {p r run : UUID} {s s' : Ingress}

/-! ### Why a trace event is refused -/

/-- Why the routine raises for a trace event of a project without an active request. -/
inductive Cause where
  | malformed | foreignRun | mixedSubjects | overCapacity | overDepth | lateClosure
  deriving DecidableEq

/-- The SQLSTATE a cause is raised with. -/
def Cause.state : Cause → SqlState
  | malformed => .insufficientPrivilege
  | foreignRun => .P0002
  | mixedSubjects => .P0002
  | overCapacity => .P0004
  | overDepth => .P0005
  | lateClosure => .P0014

def Cause.isFence : Cause → Bool
  | overCapacity => true
  | overDepth => true
  | _ => false

section Causes

variable (C : Cluster)

/-- Too many subjects for the run or for one of its memories, or subjects that are no
digests. -/
def exceedsCapacity (db : Database) (project run : UUID) (full : List Digest) : Bool :=
  maxSubjects < full.length || memoryOverflows C db project run full ||
    !subjectDigestsAreValid full

/-- Why the subjects of a run are not bound: their fences belong to one erased subject, to
several, or there is no room for them. -/
def bindCause (db : Database) (project run : UUID) (full : List Digest) : Option Cause :=
  match (fenceHolders db project full).dedup with
  | [] => if exceedsCapacity C db project run full then some .overCapacity else none
  | [_] =>
    match memoryClosure db project (boundMemories db project run) with
    | .error _ => some .overDepth
    | .ok _ => some .lateClosure
  | _ => some .mixedSubjects

/-- The subjects of a run with the tags of a write. -/
def subjectsWith (db : Database) (project run : UUID) (tags : List PyStr) : List Digest :=
  concreteDigests C project (runDigests db project run ++ tags.map (tagDigest C project))

/-- Why the routine raises for a trace event, if it does. A run whose fence is down is refused
without raising. -/
def cause (settings : QueueSettings) (access : AccessContext) (grant : GrantBinding)
    (db : Database) (write : AuthorizedQueueWrite) : Option Cause :=
  match checkedTags settings access grant write db with
  | .error _ => some .malformed
  | .ok tags =>
    if (runFence? db access.projectId write.runId).any (· ≠ .live) then none
    else if (ownerRow? db access.projectId write.runId).any
        (·.owner ≠ some (access.principalId, access.agentTypeId)) then some .foreignRun
    else if (tags.map (tagDigest C access.projectId)).Nodup then
      bindCause C db access.projectId write.runId
        (subjectsWith C db access.projectId write.runId tags)
    else some .malformed

end Causes

/-! ### Opening the run of a trace event -/

variable {settings : QueueSettings} {access : AccessContext} {grant : GrantBinding}
  {write : AuthorizedQueueWrite}

theorem blockingRequest?_eq_none (h : isQuiesced db p = false) : blockingRequest? db p = none := by
  have hnone : db.requests.filter (isBlocking p) = [] :=
    filter_eq_nil_iff.mpr fun q hq => any_eq_false.mp h q hq
  rw [blockingRequest?, hnone]
  rfl

/-- What opening the run of the caller leaves: the owner is the caller, the fence is live, and
nothing else that a bind reads has changed. -/
structure OpenFor (access : AccessContext) (run : UUID) (db db' : Database) : Prop where
  requests : db'.requests = db.requests
  holders : ∀ digests request, request ∈ fenceHolders db' access.projectId digests ↔
    request ∈ fenceHolders db access.projectId digests
  runSet : db'.runSet = db.runSet
  grants : db'.grants = db.grants ∧ db'.projects = db.projects ∧
    db'.admissionsOpen = db.admissionsOpen
  rows : ∀ t, t ≠ .runOwner → db'.primary t = db.primary t
  owner : ∃ row, ownerRow? db' access.projectId run = some row ∧
    row.owner = some (access.principalId, access.agentTypeId)
  live : runFence? db' access.projectId run = some .live

theorem runFence?_ensureRunFence (h : ¬ (runFence? db p run).any (· ≠ .live) = true) :
    runFence? (ensureRunFence p run db) p run = some .live := by
  cases hfence : runFence? db p run with
  | some state =>
    obtain ⟨f, hf, hkey, rfl⟩ := runFence?_eq_some hfence
    have hthere : ensureRunFence p run db = db := by
      have hmem : RunFence.key ⟨p, run, .live⟩ ∈ db.runFences.map RunFence.key :=
        mem_map.mpr ⟨f, hf, hkey⟩
      rw [ensureRunFence, insertNew, if_pos hmem]
    rw [hthere, hfence]
    rw [hfence, any_some, decide_eq_true_eq, not_not] at h
    rw [h]
  | none =>
    have hnone := map_eq_none_iff.mp hfence
    have habsent : RunFence.key ⟨p, run, .live⟩ ∉ db.runFences.map RunFence.key := by
      intro hmem
      obtain ⟨f, hf, hkey⟩ := mem_map.mp hmem
      obtain ⟨hp, hr⟩ := Prod.ext_iff.mp hkey
      refine find?_eq_none.mp hnone f hf ?_
      simp [show f.projectId = p from hp, show f.runId = run from hr]
    rw [runFence?, ensureRunFence, insertNew, if_neg habsent, find?_append, hnone]
    simp

theorem openErasureGuardedRun_quiet
    (hgrant : hasActiveGrant db access.projectId access.principalId access.agentTypeId
      grant.grantId .data = true)
    (hquiet : isQuiesced db access.projectId = false) :
    openErasureGuardedRun C access.projectId access.principalId access.agentTypeId grant.grantId
        run db =
      if (runFence? db access.projectId run).any (· ≠ .live) then .ok (⟨false, false⟩, db)
      else match ownerRow? db access.projectId run with
        | some row =>
          if row.owner = some (access.principalId, access.agentTypeId) then
            .ok (⟨true, false⟩, ensureRunFence access.projectId run db)
          else .error .P0002
        | none => .ok (⟨true, false⟩, ensureRunFence access.projectId run
            (insertOwner C access.projectId run access.principalId access.agentTypeId db)) := by
  rw [openErasureGuardedRun, ensure_bind, if_pos hgrant, blockingRequest?_eq_none hquiet]
  dsimp only [any_none]
  rw [if_neg Bool.false_ne_true]
  refine if_congr Iff.rfl rfl ?_
  cases ownerRow? db access.projectId run with
  | some row =>
    dsimp only
    rw [ensure_bind]
    exact if_congr decide_eq_true_iff rfl rfl
  | none => rfl

theorem ownerRow?_insertOwner (h : ownerRow? db p run = none) (principal agentType : UUID) :
    ∃ row, ownerRow? (insertOwner C p run principal agentType db) p run = some row ∧
      row.owner = some (principal, agentType) := by
  rw [ownerRow?, rowsOf, insertOwner, Database.setPrimary]
  dsimp only
  rw [if_pos rfl, filter_append, find?_append]
  rw [ownerRow?, rowsOf] at h
  rw [h]
  exact ⟨_, by simp; rfl, rfl⟩

theorem openErasureGuardedRun_open
    (hgrant : hasActiveGrant db access.projectId access.principalId access.agentTypeId
      grant.grantId .data = true)
    (hquiet : isQuiesced db access.projectId = false)
    (hup : ¬ (runFence? db access.projectId run).any (· ≠ .live) = true)
    (howner : ¬ (ownerRow? db access.projectId run).any
      (·.owner ≠ some (access.principalId, access.agentTypeId)) = true) :
    ∃ db', openErasureGuardedRun C access.projectId access.principalId access.agentTypeId
        grant.grantId run db = .ok (⟨true, false⟩, db') ∧ OpenFor access run db db' := by
  rw [openErasureGuardedRun_quiet hgrant hquiet, if_neg hup]
  cases hrow : ownerRow? db access.projectId run with
  | some row =>
    rw [hrow, any_some, decide_eq_true_eq, not_not] at howner
    exact ⟨ensureRunFence access.projectId run db, if_pos howner, rfl, fun _ _ => Iff.rfl, rfl,
      ⟨rfl, rfl, rfl⟩, fun _ _ => rfl, ⟨row, hrow, howner⟩, runFence?_ensureRunFence hup⟩
  | none =>
    exact ⟨_, rfl, rfl, fun _ _ => Iff.rfl, rfl, ⟨rfl, rfl, rfl⟩, fun t ht => if_neg ht,
      ownerRow?_insertOwner hrow _ _, runFence?_ensureRunFence hup⟩

/-! ### Binding the subjects of an open run -/

variable {digests : List Digest}

theorem mem_fenceHolders_ensureSubjectFences {full : List Digest} :
    r ∈ fenceHolders (ensureSubjectFences p full db) p digests ↔ r ∈ fenceHolders db p digests := by
  rw [mem_fenceHolders, mem_fenceHolders]
  constructor
  · rintro ⟨f, hf, hp, hd, hr⟩
    rcases mem_insertAll hf with hf | ⟨hf, -⟩
    · exact ⟨f, hf, hp, hd, hr⟩
    · obtain ⟨_, -, rfl⟩ := mem_map.mp hf
      cases hr
  · rintro ⟨f, hf, h⟩
    exact ⟨f, subset_insertAll _ _ hf, h⟩

namespace OpenFor

variable {db₁ : Database}

theorem ensureRunFence (h : OpenFor access run db db₁) :
    OpenFor access run db (ensureRunFence access.projectId run db₁) :=
  { h with live := runFence?_ensureRunFence (by rw [h.live]; simp) }

theorem dedup_fenceHolders (h : OpenFor access run db db₁) (digests : List Digest) :
    (fenceHolders db₁ access.projectId digests).dedup.Perm
      (fenceHolders db access.projectId digests).dedup := by
  refine (perm_ext_iff_of_nodup (nodup_dedup _) (nodup_dedup _)).mpr fun r => ?_
  rw [mem_dedup, mem_dedup, h.holders]

theorem head?_fenceHolders (h : OpenFor access run db db₁) {holder : Option UUID}
    (hone : (fenceHolders db access.projectId digests).dedup = holder.toList) :
    (fenceHolders db₁ access.projectId digests).head? = holder := by
  have hmem : ∀ r, r ∈ fenceHolders db₁ access.projectId digests ↔ holder = some r := by
    intro r
    rw [h.holders, ← mem_dedup, hone, mem_toList]
  cases hlist : fenceHolders db₁ access.projectId digests with
  | nil =>
    cases holder with
    | none => rfl
    | some r =>
      have := (hmem r).mpr rfl
      rw [hlist] at this
      cases this
  | cons r rest => exact ((hmem r).mp (hlist ▸ mem_cons_self)).symm

end OpenFor

theorem refreshLateClosure_complete {runs memories : List UUID} (hquiet : isQuiesced db p = false) :
    refreshLateClosure C p r runs memories db = .error .P0014 := by
  rw [refreshLateClosure]
  cases hq : db.request? p r with
  | none => rfl
  | some q =>
    have hopen := any_eq_false.mp hquiet q (mem_of_find?_eq_some hq)
    have hcomplete : q.disposition = .scopeComplete := by
      by_contra hne
      exact hopen (by simp [isBlocking, (request?_key hq).1, hne])
    change (ensure _ _ >>= _) = _
    rw [ensure_bind, if_neg (by simp [hcomplete])]

/-- A late run of a completed request is refused, for the depth of its closure or for being
late. -/
theorem captureLate_complete (hquiet : isQuiesced db p = false)
    (hnew : run ∉ db.capturedRuns p r) : captureLate C p r run db =
      match memoryClosure db p (boundMemories db p run) with
      | .error e => .error e
      | .ok _ => .error .P0014 := by
  rw [captureLate, if_neg hnew]
  cases memoryClosure db p (boundMemories db p run) with
  | error e => rfl
  | ok memories => exact refreshLateClosure_complete hquiet

variable {e : SqlState}

theorem memoryClosure_error {seeds : List UUID} (h : memoryClosure db p seeds = .error e) :
    e = .P0005 := by
  obtain h | ⟨_, -, h⟩ := bind_eq_error.mp h
  · by_contra hne
    exact ensure_ne_error (Ne.symm hne) h
  · cases h

variable {full : List Digest} {db₁ : Database} {tags : List PyStr}
  {writes : List AuthorizedQueueWrite}

theorem memoryOverflows_congr (hsubjects : db'.primary .traceSubject = db.primary .traceSubject)
    (hbindings : db'.primary .runMemoryBinding = db.primary .runMemoryBinding) :
    memoryOverflows C db' p run full = memoryOverflows C db p run full := by
  have hmemories : boundMemories db' p run = boundMemories db p run := by
    rw [boundMemories, boundMemories, rowsOf, rowsOf, hbindings]
  have hruns : ∀ m, boundRuns db' p m = boundRuns db p m := fun m => by
    rw [boundRuns, boundRuns, rowsOf, rowsOf, hbindings]
  have hdigests : runDigests db' p = runDigests db p := funext fun run => by
    rw [runDigests, runDigests, rowsOf, rowsOf, hsubjects]
  rw [memoryOverflows, memoryOverflows, hmemories, hdigests]
  simp [hruns]

theorem bindFenced_open (h : OpenFor access run db db₁) (full : List Digest) :
    ∃ db₂, OpenFor access run db db₂ ∧
      (∀ holder : Option UUID, (fenceHolders db access.projectId full).dedup = holder.toList →
        bindFenced C access.projectId run full none db₁ =
          if holder.isNone && (decide (maxSubjects < full.length) ||
              memoryOverflows C db access.projectId run full) then .error .P0004
          else finishBind C access.projectId run full (decide (maxSubjects < full.length) ||
            memoryOverflows C db access.projectId run full) true holder db₂) ∧
      (1 < (fenceHolders db access.projectId full).dedup.length →
        bindFenced C access.projectId run full none db₁ = .error .P0002) := by
  generalize hmany : decide (maxSubjects < full.length) = tooMany
  generalize hfenced : (if !tooMany && (none : Option RequestRow).isNone then
    ensureSubjectFences access.projectId full db₁ else db₁) = fenced
  have hopen : OpenFor access run db fenced := by
    rw [← hfenced]
    split
    · exact { h with holders := fun digests request =>
        mem_fenceHolders_ensureSubjectFences.trans (h.holders digests request) }
    · exact h
  have hover : memoryOverflows C (ensureRunFence access.projectId run fenced) access.projectId run
      full = memoryOverflows C db access.projectId run full :=
    memoryOverflows_congr (hopen.rows _ (by decide)) (hopen.rows _ (by decide))
  have hlive : runFence? (ensureRunFence access.projectId run fenced) access.projectId run =
      some .live := hopen.ensureRunFence.live
  refine ⟨_, hopen.ensureRunFence, fun holder hone => ?_, fun htwo => ?_⟩
  · have hlength : (fenceHolders fenced access.projectId full).dedup.length ≤ 1 := by
      rw [(hopen.dedup_fenceHolders full).length_eq, hone]
      cases holder <;> simp
    rw [bindFenced, hmany, hfenced, ensure_bind, if_pos (decide_eq_true hlength)]
    dsimp only
    rw [hlive, hopen.head?_fenceHolders hone, hover]
    cases holder with
    | none => cases tooMany <;> cases memoryOverflows C db access.projectId run full <;> rfl
    | some request => cases tooMany <;> rfl
  · have hlength : ¬ (fenceHolders fenced access.projectId full).dedup.length ≤ 1 := by
      rw [(hopen.dedup_fenceHolders full).length_eq]
      exact not_le.mpr htwo
    rw [bindFenced, hmany, hfenced, ensure_bind, if_neg (by simpa using hlength)]

theorem checkedTags_error (htopic : write.topic = .traceEvent)
    (h : checkedTags settings access grant write db = .error e) : e = .insufficientPrivilege := by
  by_contra hne
  have hensure : ∀ b, ensure b SqlState.insufficientPrivilege ≠ .error e := fun _ =>
    ensure_ne_error (Ne.symm hne)
  have htags : ∀ payload, eventTags payload ≠ .error e := by
    refine fun payload => bind_ne_error (hensure _) fun _ _ => ?_
    split
    · split
      · exact orThrow_ne_error (Ne.symm hne)
      · rintro ⟨⟩
    · rintro ⟨⟩
  refine absurd h ?_
  refine bind_ne_error (hensure _) fun _ _ => ?_
  refine bind_ne_error (hensure _) fun _ _ => ?_
  refine bind_ne_error (hensure _) fun _ _ => ?_
  refine bind_ne_error (by rw [htopic]; exact htags _) fun _ _ => ?_
  exact bind_ne_error (hensure _) (by rintro _ _ ⟨⟩)

theorem checkedTags_eq_ok (h : checkedTags settings access grant write db = .ok tags) :
    directTags write.topic (.obj write.payload) = .ok tags ∧
      hasActiveGrant db access.projectId access.principalId access.agentTypeId grant.grantId
        (requiredRole write.topic) = true ∧
      tags.length ≤ 64 ∧ tags.Nodup ∧ tags.all subjectTagIsValid = true := by
  obtain ⟨_, -, h⟩ := bind_eq_ok.mp h
  obtain ⟨_, -, h⟩ := bind_eq_ok.mp h
  obtain ⟨_, hgrant, h⟩ := bind_eq_ok.mp h
  obtain ⟨tags, htags, h⟩ := bind_eq_ok.mp h
  obtain ⟨_, hvalid, h⟩ := bind_eq_ok.mp h
  cases h
  simp only [ensure_eq_ok, Bool.and_eq_true, decide_eq_true_eq] at hvalid
  exact ⟨htags, ensure_eq_ok.mp hgrant, hvalid.1.1, hvalid.1.2, hvalid.2⟩

theorem bindRunSubjectTags_open (htags : checkedTags settings access grant write db = .ok tags)
    (htopic : write.topic = .traceEvent) (hquiet : isQuiesced db access.projectId = false)
    (h : OpenFor access write.runId db db₁) :
    bindRunSubjectTags C (bindArguments access grant write tags) db₁ =
      if (tags.map (tagDigest C access.projectId)).Nodup then
        bindFenced C access.projectId write.runId
          (subjectsWith C db access.projectId write.runId tags) none db₁
      else .error .insufficientPrivilege := by
  obtain ⟨-, hgrant, hlength, hnodup, hvalid⟩ := checkedTags_eq_ok htags
  have hrole : requiredRole write.topic = .data := by rw [htopic]; rfl
  have hargs : (bindArguments access grant write tags).isValid = true := by
    simp [BindArguments.isValid, bindArguments, hrole, hlength, hnodup, hvalid]
  have hactive : hasActiveGrant db₁ access.projectId access.principalId access.agentTypeId
      grant.grantId (requiredRole write.topic) = true := by
    rwa [hasActiveGrant, h.grants.1, h.grants.2.1, h.grants.2.2]
  have hblocking : blockingRequest? db₁ access.projectId = none := by
    refine blockingRequest?_eq_none ?_
    rwa [isQuiesced, h.requests]
  have howns : ownsRun db₁ (bindArguments access grant write tags) = true := by
    obtain ⟨row, hrow, howner⟩ := h.owner
    change (match ownerRow? db₁ access.projectId write.runId with
      | some row => _
      | none => _) = true
    rw [hrow]
    simp [bindArguments, howner]
  have hdigests : runDigests db₁ access.projectId write.runId =
      runDigests db access.projectId write.runId := by
    rw [runDigests, runDigests, rowsOf, rowsOf, h.rows _ (by decide)]
  rw [bindRunSubjectTags, ensure_bind, if_pos hargs, ensure_bind]
  refine (if_pos hactive).trans ?_
  change (if (blockingRequest? db₁ access.projectId).any _ then _ else _) = _
  rw [hblocking, if_neg (by simp), ensure_bind, if_pos howns, ensure_bind]
  refine if_congr decide_eq_true_iff ?_ rfl
  change (if isForeign _ (blockingRequest? db₁ access.projectId) then _ else
    bindFenced C access.projectId write.runId (concreteDigests C access.projectId
      (runDigests db₁ access.projectId write.runId ++ _)) (blockingRequest? db₁ access.projectId)
        db₁) = _
  rw [hblocking, hdigests]
  exact if_neg Bool.false_ne_true

theorem Database.RunsFallen.not_captured (h : db.RunsFallen)
    (hup : ¬ (runFence? db p run).any (· ≠ .live) = true) (r : UUID) :
    run ∉ db.capturedRuns p r := by
  intro hmem
  obtain ⟨row, hfilter, rfl⟩ := mem_map.mp hmem
  obtain ⟨hrow, hkey⟩ := mem_filter.mp hfilter
  obtain ⟨rfl, -⟩ := of_decide_eq_true hkey
  exact hup (h.runFence?_any.mpr (h.fallen row hrow))

/-- An open run that carries an erased subject comes too late. -/
theorem finishBind_late {holder : UUID} (hquiet : isQuiesced db access.projectId = false)
    (hnew : run ∉ db.capturedRuns access.projectId holder) (h : OpenFor access run db db₁)
    (tooMany : Bool) :
    finishBind C access.projectId run full tooMany true (some holder) db₁ =
      match memoryClosure db access.projectId (boundMemories db access.projectId run) with
      | .error e => .error e
      | .ok _ => .error .P0014 := by
  obtain ⟨bound, hbound, hrequests, hruns, hrows⟩ : ∃ bound, (if tooMany then db₁ else
      bindSubjects C access.projectId run full db₁) = bound ∧ bound.requests = db.requests ∧
      bound.runSet = db.runSet ∧
      ∀ t, t ≠ .runOwner → t ≠ .traceSubject → bound.primary t = db.primary t := by
    cases tooMany with
    | true => exact ⟨_, rfl, h.requests, h.runSet, fun t howner _ => h.rows t howner⟩
    | false =>
      exact ⟨_, rfl, h.requests, h.runSet, fun t howner hsubject =>
        (if_neg hsubject).trans (h.rows t howner)⟩
  have hclosure : memoryClosure (setRunFenced access.projectId holder run bound)
      access.projectId (boundMemories (setRunFenced access.projectId holder run bound)
        access.projectId run) =
      memoryClosure db access.projectId (boundMemories db access.projectId run) := by
    have hlinks := hrows .memoryLink (by decide) (by decide)
    have hbindings := hrows .runMemoryBinding (by decide) (by decide)
    simp [memoryClosure, boundMemories, rowsOf, setRunFenced, hlinks, hbindings]
  rw [finishBind, hbound, if_pos rfl, captureLate_complete, hclosure]
  · cases memoryClosure db access.projectId (boundMemories db access.projectId run) <;> rfl
  · rwa [isQuiesced, show (setRunFenced access.projectId holder run bound).requests =
      bound.requests from rfl, hrequests]
  · rwa [Database.capturedRuns, show (setRunFenced access.projectId holder run bound).runSet =
      bound.runSet from rfl, hruns]

theorem propagate_owner (h : (ownerRow? db p run).isSome = true) :
    (ownerRow? (propagate C p run full db) p run).isSome = true := by
  have hiff : ∀ db : Database, (ownerRow? db p run).isSome = true ↔
      ∃ row ∈ db.primary .runOwner, row.projectId = p ∧ row.runId = some run := fun db => by
    simp [ownerRow?, rowsOf]
  have hupdate : ∀ {db : Database} {t : PrimaryTable} {c : PrimaryRow → Bool}
      {f : PrimaryRow → List Digest}, (ownerRow? db p run).isSome = true →
      (ownerRow? (db.setPrimary t (updateWhere c
        (fun row => { row with subjectDigests := f row }) (db.primary t))) p run).isSome =
          true := by
    intro db t c f howner
    obtain ⟨row, hrow, hp, hr⟩ := (hiff db).mp howner
    rw [hiff, Database.setPrimary]
    dsimp only
    split
    · next ht =>
      refine ⟨_, mem_updateWhere.mpr ⟨row, ht ▸ hrow, rfl⟩, ?_⟩
      split <;> exact ⟨hp, hr⟩
    · exact ⟨row, hrow, hp, hr⟩
  have hbind : (ownerRow? (bindSubjects C p run full db) p run).isSome = true := h
  have hruns := List.foldlRecOn (motive := fun db => (ownerRow? db p run).isSome = true)
    propagatedTables (propagateRun p run full) hbind fun _ howner _ _ => hupdate howner
  have hmemories : (ownerRow? (propagateMemories C p run _) p run).isSome = true := hupdate hruns
  exact List.foldlRecOn (motive := fun db => (ownerRow? db p run).isSome = true)
    derivedTables (propagateDerived C p run) hmemories fun _ howner _ _ => hupdate howner

/-- What the routine answers once the run is open, by the cause of a refusal. -/
theorem bindFenced_finish {full : List Digest} {db₁ : Database} (hs : s.db.Sealed C)
    (hquiet : isQuiesced s.db access.projectId = false)
    (hup : ¬ (runFence? s.db access.projectId write.runId).any (· ≠ .live) = true)
    (h : OpenFor access write.runId s.db db₁) {answer : Except EnqueueState (Reply Ingress)}
    (hanswer : ((bindFenced C access.projectId write.runId full none db₁).mapError .refused >>=
      fun bound => finishEnqueue settings access write false bound.1 { s with db := bound.2 }) =
        answer) :
    match bindCause C s.db access.projectId write.runId full with
    | some c => answer = .error (.refused c.state)
    | none => ∃ s', answer = .ok ⟨none, true, s'⟩ := by
  obtain ⟨db₂, hopen, hone, hseveral⟩ := bindFenced_open (C := C) h full
  rw [bindCause]
  rcases hholders : (fenceHolders s.db access.projectId full).dedup with - | ⟨holder, - | ⟨_, _⟩⟩
  · rw [hone none hholders] at hanswer
    have howner : (ownerRow? (propagate C access.projectId write.runId full db₂) access.projectId
        write.runId).isSome = true := by
      obtain ⟨row, hrow, -⟩ := hopen.owner
      exact propagate_owner (hrow ▸ rfl)
    rcases Bool.eq_false_or_eq_true (decide (maxSubjects < full.length) ||
      memoryOverflows C s.db access.projectId write.runId full) with hcrowded | hcrowded
    · simp only [exceedsCapacity, hcrowded] at hanswer ⊢
      exact hanswer.symm
    · simp only [exceedsCapacity, hcrowded] at hanswer ⊢
      change finishEnqueue settings access write false ⟨full, true⟩ _ = answer at hanswer
      rw [finishEnqueue, if_neg (by simp), ensure_bind] at hanswer
      rcases Bool.eq_false_or_eq_true (subjectDigestsAreValid full) with hvalid | hvalid
      · rw [if_pos hvalid, ensure_bind, if_pos howner] at hanswer
        simp only [hvalid]
        exact ⟨_, hanswer.symm⟩
      · rw [if_neg (by simp [hvalid])] at hanswer
        simp only [hvalid]
        exact hanswer.symm
  · rw [hone (some holder) hholders,
      finishBind_late hquiet (hs.runs.not_captured hup holder) hopen] at hanswer
    cases hclosure : memoryClosure s.db access.projectId
        (boundMemories s.db access.projectId write.runId) with
    | ok _ =>
      rw [hclosure] at hanswer
      exact hanswer.symm
    | error e =>
      rw [hclosure, memoryClosure_error hclosure] at hanswer
      exact hanswer.symm
  · rw [hseveral (by simp [hholders])] at hanswer
    exact hanswer.symm

/-- The routine for a trace event that passed its checks, by the opening of its run. -/
theorem enqueueAuthorized_eq (hchecked : checkedTags settings access grant write s.db = .ok tags)
    (htopic : write.topic = .traceEvent) (enqueue : Bool) :
    enqueueAuthorized C settings access grant write enqueue s =
      match openErasureGuardedRun C access.projectId access.principalId access.agentTypeId
        grant.grantId write.runId s.db with
      | .error e => .error (.refused e)
      | .ok (opened, db₁) =>
        if opened.writable || opened.lateBindEligible then
          (bindRunSubjectTags C (bindArguments access grant write tags) db₁).mapError .refused >>=
            fun bound => finishEnqueue settings access write enqueue bound.1
              { s with db := bound.2 }
        else .ok ⟨none, false, s⟩ := by
  rw [enqueueAuthorized, hchecked, openedDatabase, htopic]
  rcases openErasureGuardedRun C access.projectId access.principalId access.agentTypeId
      grant.grantId write.runId s.db with e | ⟨⟨_ | _, _ | _⟩, db₁⟩ <;> rfl

/-- **What the routine answers to a trace event** of a project that no request blocks, where it
is not asked to insert. -/
theorem enqueueAuthorized_trace (hs : s.db.Sealed C)
    (hquiet : isQuiesced s.db access.projectId = false) (htopic : write.topic = .traceEvent) :
    match cause C settings access grant s.db write with
    | some c => enqueueAuthorized C settings access grant write false s = .error (.refused c.state)
    | none =>
      if (runFence? s.db access.projectId write.runId).any (· ≠ .live) then
        enqueueAuthorized C settings access grant write false s = .ok ⟨none, false, s⟩
      else ∃ s', enqueueAuthorized C settings access grant write false s =
        .ok ⟨none, true, s'⟩ := by
  rw [cause]
  cases hchecked : checkedTags settings access grant write s.db with
  | error e =>
    obtain rfl := checkedTags_error htopic hchecked
    rw [enqueueAuthorized, hchecked]
    rfl
  | ok tags =>
    have hgrant := (checkedTags_eq_ok hchecked).2.1
    rw [htopic] at hgrant
    have hanswer := enqueueAuthorized_eq (C := C) hchecked htopic false
    by_cases hdown : (runFence? s.db access.projectId write.runId).any (· ≠ .live) = true
    · rw [openErasureGuardedRun_quiet hgrant hquiet, if_pos hdown] at hanswer
      simp only [if_pos hdown]
      exact hanswer
    simp only [if_neg hdown]
    by_cases howner : (ownerRow? s.db access.projectId write.runId).any
        (·.owner ≠ some (access.principalId, access.agentTypeId)) = true
    · obtain ⟨row, hrow, hforeign⟩ := (any_eq_true _ _).mp howner
      rw [openErasureGuardedRun_quiet hgrant hquiet, if_neg hdown, hrow] at hanswer
      dsimp only at hanswer
      rw [if_neg (of_decide_eq_true hforeign)] at hanswer
      rw [if_pos howner]
      exact hanswer
    rw [if_neg howner]
    obtain ⟨db₁, hopen, hfor⟩ := openErasureGuardedRun_open (C := C) hgrant hquiet hdown howner
    rw [hopen] at hanswer
    dsimp only at hanswer
    rw [bindRunSubjectTags_open hchecked htopic hquiet hfor] at hanswer
    by_cases hnodup : (tags.map (tagDigest C access.projectId)).Nodup
    · rw [if_pos hnodup] at hanswer ⊢
      exact bindFenced_finish hs hquiet hdown hfor hanswer.symm
    · rw [if_neg hnodup] at hanswer ⊢
      exact hanswer

/-! ### The first pass over a batch -/

variable {now : Moment} {session : Session (Work Ingress)}

theorem eval_callAuthorizedEnqueue (enqueue : Bool) :
    eval (boundary C settings) (callAuthorizedEnqueue access now grant write enqueue) session () =
      match (enqueueAuthorized C settings access grant write enqueue
        session.working.db).mapError queueErrorOf with
      | .ok reply => some ((.ok reply,
          { session with working := session.working.after write enqueue reply }), ())
      | .error e => some ((.error e, session), ()) := by
  rw [callAuthorizedEnqueue, eval_bind_ok eval_get, eval_bind, Queue.ask, eval_perform]
  dsimp only [boundary]
  cases (enqueueAuthorized C settings access grant write enqueue session.working.db).mapError
    queueErrorOf with
  | ok reply | error e => rfl

def Cause.error (c : Cause) : QueueError := queueErrorOf (.refused c.state)

variable (C settings access grant) in
/-- The write is refused without raising. -/
def isHeld (db : Database) (write : AuthorizedQueueWrite) : Bool :=
  (cause C settings access grant db write).isNone &&
    (runFence? db access.projectId write.runId).any (· ≠ .live)

/-- One write of the first pass: its cause is noted, and the database stays as it is. -/
theorem eval_preflightNext (hs : s.db.Sealed C)
    (hquiet : isQuiesced s.db access.projectId = false) (htopic : write.topic = .traceEvent)
    (hdb : session.working.db = s) (found : Findings) :
    ∃ session', session'.working.db = s ∧
      eval (boundary C settings) (preflightNext access now grant found write) session () =
        some ((.ok ⟨found.error <|> (cause C settings access grant s.db write).map Cause.error,
          found.fenced || isHeld C settings access grant s.db write⟩, session'), ()) := by
  rw [preflightNext, eval_bind, preflight, eval_savepoint, eval_callAuthorizedEnqueue, hdb, isHeld]
  have hanswer : match cause C settings access grant s.db write with
    | some c => _
    | none => _ := enqueueAuthorized_trace hs hquiet htopic
  cases hcause : cause C settings access grant s.db write with
  | some c =>
    rw [hcause] at hanswer
    rw [hanswer]
    exact ⟨session, hdb, by simp [Except.mapError, errorOf, isFenced, Cause.error]⟩
  | none =>
    rw [hcause] at hanswer
    by_cases hdown : (runFence? s.db access.projectId write.runId).any (· ≠ .live) = true
    · rw [if_pos hdown] at hanswer
      rw [hanswer, hdown]
      refine ⟨{ session with working := session.working.after write false ⟨none, false, s⟩ },
        rfl, ?_⟩
      simp [Except.mapError, errorOf, isFenced]
    · rw [if_neg hdown] at hanswer
      obtain ⟨s', hanswer⟩ := hanswer
      rw [hanswer, Bool.eq_false_iff.mpr hdown]
      exact ⟨session, hdb, by simp [Except.mapError, errorOf, isFenced]⟩

/-- The first pass notes the first cause and whether a write is held. -/
theorem eval_preflights (hs : s.db.Sealed C) (hquiet : isQuiesced s.db access.projectId = false)
    (htopic : ∀ w ∈ writes, w.topic = .traceEvent) (hdb : session.working.db = s)
    (found : Findings) :
    ∃ session',
      eval (boundary C settings) (writes.foldlM (preflightNext access now grant) found) session () =
        some ((.ok ⟨found.error <|>
            (writes.findSome? (cause C settings access grant s.db)).map Cause.error,
          found.fenced || writes.any (isHeld C settings access grant s.db)⟩, session'), ()) := by
  induction writes generalizing session found with
  | nil =>
    refine ⟨session, ?_⟩
    obtain ⟨error, fenced⟩ := found
    cases error <;> cases fenced <;> rfl
  | cons w writes ih =>
    obtain ⟨session₁, hdb₁, hfirst⟩ := eval_preflightNext hs hquiet
      (htopic w mem_cons_self) hdb found
    obtain ⟨session₂, hrest⟩ := ih (forall_mem_cons.mp htopic).2 hdb₁ _
    refine ⟨session₂, ?_⟩
    rw [foldlM_cons, eval_bind_ok hfirst, hrest, findSome?_cons, Bool.or_assoc]
    obtain ⟨error, fenced⟩ := found
    cases error <;> cases cause C settings access grant s.db w <;> rfl

/-- What a batch of trace events comes to after its first pass. -/
theorem eval_enqueueOrdered (hs : s.db.Sealed C) (hquiet : isQuiesced s.db access.projectId = false)
    (htopic : ∀ w ∈ writes, w.topic = .traceEvent) (hgrant : access.grantFor .data = some grant)
    (hrefused : (writes.findSome? (cause C settings access grant s.db)).isSome = true ∨
      writes.any (isHeld C settings access grant s.db) = true) :
    ∃ session, eval (boundary C settings) (enqueueOrdered access now .data writes)
      (.start ⟨s, [], []⟩) () =
        some ((.error (((writes.findSome? (cause C settings access grant s.db)).map
          Cause.error).getD .erasureFenced), session), ()) := by
  generalize hcause : (writes.findSome? (cause C settings access grant s.db)) = first at hrefused ⊢
  generalize hheld : writes.any (isHeld C settings access grant s.db) = held at hrefused
  have hfold : ∃ session', eval (boundary C settings)
      (writes.foldlM (preflightNext access now grant) ⟨none, false⟩) (.start ⟨s, [], []⟩) () =
        some ((.ok ⟨first.map Cause.error, held⟩, session'), ()) := by
    rw [← hcause, ← hheld]
    exact eval_preflights hs hquiet htopic rfl ⟨none, false⟩
  obtain ⟨session', hfold⟩ := hfold
  have hrole : (grantFor access .data : Producer Ingress GrantBinding) = pure grant := by
    rw [grantFor, hgrant]
  have hpass : eval (boundary C settings) (preflightAll access now .data writes)
      (.start ⟨s, [], []⟩) () =
        some ((.ok ⟨first.map Cause.error, held⟩, .start session'.working), ()) := by
    rw [preflightAll, eval_transaction, hrole]
    exact congrArg (Option.map _) hfold
  have hshared : eval (boundary C settings) (Queue.ask (.shared access.projectId))
      (.start ⟨s, [], []⟩) () = some ((.ok (), .start ⟨s, [], []⟩), ()) := rfl
  refine ⟨.start session'.working, ?_⟩
  rw [enqueueOrdered, eval_bind_ok hshared, eval_bind_ok hpass]
  cases first with
  | some c => rfl
  | none =>
    obtain rfl : held = true := hrefused.resolve_left Bool.false_ne_true
    rfl

/-! ### Batches that name an erased subject -/

theorem mem_sortedDigests {d : Digest} : d ∈ sortedDigests digests ↔ d ∈ digests := by
  simp [sortedDigests]

/-- A tag of a write is among the subjects its run gets, the reserved one apart. -/
theorem mem_subjectsWith {tag : PyStr} (htag : tag ∈ tags)
    (hreserved : tagDigest C p tag ≠ projectDigest C p) :
    tagDigest C p tag ∈ subjectsWith C db p run tags := by
  have hmem : tagDigest C p tag ∈ sortedDigests ((runDigests db p run ++
      tags.map (tagDigest C p)).filter (· ≠ projectDigest C p)) :=
    mem_sortedDigests.mpr (mem_filter.mpr ⟨mem_append_right _
      (mem_map_of_mem htag), by simpa using hreserved⟩)
  rw [subjectsWith, concreteDigests]
  split
  · next hnil =>
    rw [hnil] at hmem
    cases hmem
  · exact hmem

theorem fenceHolders_eq_nil (h : bindCause C db p run full = none) :
    fenceHolders db p full = [] := by
  rw [bindCause] at h
  split at h
  · next hnil => exact (dedup_eq_nil _).mp hnil
  · split at h <;> cases h
  · cases h

variable {q : RequestRow}

/-- A trace event that names an erased subject is refused with a cause, or held because its run
is fenced. -/
theorem isHeld_of_erased {tag : PyStr} (hs : s.db.Sealed C)
    (hquiet : isQuiesced s.db access.projectId = false) (hq : q ∈ s.db.requests)
    (hproject : q.projectId = access.projectId)
    (hscope : q.scope = .subject (tagDigest C access.projectId tag))
    (hreserved : tagDigest C access.projectId tag ≠ projectDigest C access.projectId)
    (htags : directTags write.topic (.obj write.payload) = .ok tags) (htag : tag ∈ tags)
    (hcause : cause C settings access grant s.db write = none) :
    isHeld C settings access grant s.db write = true := by
  rw [isHeld, hcause, isNone_none, Bool.true_and]
  by_contra hup
  rw [cause] at hcause
  cases hchecked : checkedTags settings access grant write s.db with
  | error e =>
    rw [hchecked] at hcause
    cases hcause
  | ok tags' =>
    obtain rfl : tags' = tags := Except.ok.inj ((checkedTags_eq_ok hchecked).1.symm.trans htags)
    simp only [hchecked, if_neg hup] at hcause
    split at hcause
    · cases hcause
    split at hcause
    · have hfallen := hs.guarded.fallen q hq _ hscope
      rw [hproject] at hfallen
      exact (hfallen.resolve_right (not_projectRequested hquiet)).fenceHolders_ne_nil
        (mem_subjectsWith htag hreserved) (fenceHolders_eq_nil hcause)
    · cases hcause

theorem planAuthorizedEnqueue_trace {plan : AuthorizedQueuePlan}
    (hplan : planAuthorizedEnqueue access writes = .ok plan)
    (htopic : ∀ w ∈ writes, w.topic = .traceEvent) :
    plan.requiredRole = .data ∧ access.grantFor .data = some plan.grant := by
  obtain ⟨_, -, h⟩ := bind_eq_ok.mp hplan
  obtain ⟨first, hfirst, h⟩ := bind_eq_ok.mp h
  obtain ⟨_, -, h⟩ := bind_eq_ok.mp h
  obtain ⟨_, -, h⟩ := bind_eq_ok.mp h
  obtain ⟨grant, hgrant, h⟩ := bind_eq_ok.mp h
  cases h
  rw [orThrow_eq_ok] at hfirst hgrant
  rw [htopic first (mem_of_mem_head? hfirst)] at hgrant ⊢
  exact ⟨rfl, hgrant⟩

/-- **When a batch that names an erased subject is refused as a fence.** Some trace event of an
admissible batch has a tag whose subject request is complete, and no request is active. The
caller receives `ErasureFenced`, with nothing inserted, exactly if the first write that raises,
in the order of the runs, raises for its capacity or the depth of its closure. A run that meets
the completed request raises for its late closure instead. -/
theorem erased_submission_fenced_iff (limits : AdmissionLimits) (settings : QueueSettings)
    (now : Moment) (hs : s.Reachable C) {q : RequestRow} {tag : PyStr}
    (hq : q ∈ s.db.requests) (hproject : q.projectId = access.projectId)
    (hscope : q.scope = .subject (tagDigest C access.projectId tag))
    (hquiet : isQuiesced s.db access.projectId = false)
    (hreserved : tagDigest C access.projectId tag ≠ projectDigest C access.projectId)
    {writes : List AuthorizedQueueWrite} {plan : AuthorizedQueuePlan}
    (hplan : planAuthorizedEnqueue access writes = .ok plan)
    (hmeasure : measureWrites limits writes = .ok ())
    (htopic : ∀ w ∈ writes, w.topic = .traceEvent) (hwrite : write ∈ writes) {tags : List PyStr}
    (htags : directTags write.topic (.obj write.payload) = .ok tags) (htag : tag ∈ tags) :
    ((runBatch limits (some now) (boundary C settings) () s access writes).result =
        some (.error (.domain .erasureFenced)) ∧
      (runBatch limits (some now) (boundary C settings) () s access writes).committed.rows = []) ↔
    ∀ c, (inRunOrder writes).findSome? (cause C settings access plan.grant s.db) = some c →
      c.isFence = true := by
  have hsealed := hs.sealed
  obtain ⟨hrole, hgrant⟩ := planAuthorizedEnqueue_trace hplan htopic
  have hmem : ∀ w, w ∈ inRunOrder writes ↔ w ∈ writes := fun w => StableSort.mem_sortByKey
  have heval : _ → ∃ session, eval (boundary C settings) (enqueueOrdered access now .data
      (inRunOrder writes)) (.start ⟨s, [], []⟩) () = _ :=
    eval_enqueueOrdered hsealed hquiet (fun w hw => htopic w ((hmem w).mp hw)) hgrant
  generalize hfirst : (inRunOrder writes).findSome? (cause C settings access plan.grant s.db) =
    first at heval
  have hrefused : first.isSome = true ∨
      (inRunOrder writes).any (isHeld C settings access plan.grant s.db) = true := by
    cases first with
    | some c => exact .inl rfl
    | none =>
      have hnone := findSome?_eq_none_iff.mp hfirst write ((hmem write).mpr hwrite)
      refine .inr (any_eq_true.mpr ⟨write, (hmem write).mpr hwrite, ?_⟩)
      exact isHeld_of_erased hsealed hquiet hq hproject hscope hreserved htags htag hnone
  obtain ⟨session, heval⟩ := heval hrefused
  have hresult : (runBatch limits (some now) (boundary C settings) () s access writes).result =
      some (.error (.domain ((first.map Cause.error).getD .erasureFenced))) := by
    have hprepared : (enqueueManyAuthorized limits (some now) access writes :
        Except BatchError (Producer Ingress (List ℤ))) =
          .ok (enqueueOrdered access now .data (inRunOrder writes)) := by
      rw [enqueueManyAuthorized, hplan, ← hrole]
      rw [hmeasure]
      rfl
    rw [runBatch, hprepared]
    dsimp only
    rw [outcome_of_eval heval]
    rfl
  have hrows := (runBatch_whole limits (some now) (boundary C settings) () s access writes).raised _
    hresult
  rw [hresult]
  cases first with
  | none => exact ⟨by simp, fun _ => ⟨rfl, hrows⟩⟩
  | some c =>
    have hfence : c.error = .erasureFenced ↔ c.isFence = true := by cases c <;> decide
    constructor
    · rintro ⟨hfenced, -⟩ c' hc
      cases hc
      exact hfence.mp (BatchError.domain.inj (Except.error.inj (Option.some.inj hfenced)))
    · intro h
      exact ⟨by rw [← hfence.mpr (h c rfl)]; rfl, hrows⟩

/-! ### A run that names an erased subject -/

namespace Sample

/-- The caller of the batch. -/
def grantId : UUID := ⟨6⟩

def caller : AccessContext := ⟨project, principal, principal, [⟨grantId, .data, none⟩]⟩

def queueSettings : QueueSettings := ⟨5, 100, 100, 100⟩

def limits : AdmissionLimits := ⟨1000, 10, 1000⟩

def moment : Moment := ⟨0, str "2026-01-01T00:00:00+00:00"⟩

/-- A trace event of a run, with the tag of a subject. -/
def event (run : UUID) (tag : PyStr) : AuthorizedQueueWrite where
  topic := .traceEvent
  runId := run
  payload := [(str "seq", .int 0), (str "event", .obj [(str "type", .str (str "artifact_ref")),
    (str "payload", .obj [(str "subject_tags", .arr [.str tag])])])]
  priority := 0
  availableAt := none

/-- As many subjects as a run can have, each in a row of its own. -/
def crowd : List PrimaryRow := (range maxSubjects).map fun i =>
  ⟨i, project, some ⟨8⟩, [], [replicate 32 i.toUInt8], [], false, none, none⟩

/-- The queue of the database of the run to completion, with a grant for the caller and another run
that has no room for a subject. -/
def ingress : Ingress where
  db := { initial with
    grants := ⟨project, principal, principal, grantId, .data⟩ :: initial.grants
    primary := fun t => if t = .traceSubject then crowd else initial.primary t }
  backlog := []
  nextId := 1

def toCompletion : List Call := toExternalPurged ++ [.verifyAndComplete credential 0]

/-- The erasure of the subject is complete. -/
def erased : Ingress :=
  Runs.exec (Ingress.step standardCluster) ingress (toCompletion.map .call)

theorem erased_reachable : erased.Reachable standardCluster := by
  refine ⟨ingress, _, ⟨rfl, rfl, rfl, rfl, rfl, rfl, ?_, ?_, ?_, ?_⟩, rfl⟩
  · simp [ingress, initial]
  · simp [ingress, initial]
  · simp [ingress, initial, Table.Keyed]
  · simp [ingress, initial]

theorem erased_quiet : isQuiesced erased.db caller.projectId = false := by decide +kernel

/-- A run that nobody has heard of. -/
def newRun : UUID := ⟨9⟩

theorem erased_request : ∃ q ∈ erased.db.requests, q.projectId = caller.projectId ∧
    q.scope = .subject (tagDigest standardCluster caller.projectId tag) ∧
    q.disposition = .scopeComplete ∧
    newRun ∉ erased.db.capturedRuns caller.projectId q.requestId := by
  decide +kernel

/-- A new run that names the erased subject, and before it a run without room for its subject. -/
def crowdedBatch : List AuthorizedQueueWrite := [event newRun tag, event ⟨8⟩ (str "person-2")]

/-- The batch is refused as a fence, because the crowded run is the first to raise. -/
theorem crowded_batch_refused :
    (∃ q ∈ erased.db.requests, newRun ∉ erased.db.capturedRuns caller.projectId q.requestId) ∧
    (runBatch limits (some moment) (boundary standardCluster queueSettings) () erased caller
      crowdedBatch).result = some (.error (.domain .erasureFenced)) ∧
    (runBatch limits (some moment) (boundary standardCluster queueSettings) () erased caller
      crowdedBatch).committed.rows = [] := by
  obtain ⟨q, hq, hproject, hscope, -, hnew⟩ := erased_request
  have hplan : planAuthorizedEnqueue caller crowdedBatch =
      .ok ⟨.traceEvent, .data, ⟨grantId, .data, none⟩⟩ := rfl
  have htags : directTags (event newRun tag).topic (.obj (event newRun tag).payload) =
      .ok [tag] := by decide +kernel
  have hfirst : (inRunOrder crowdedBatch).findSome? (cause standardCluster queueSettings caller
      ⟨grantId, .data, none⟩ erased.db) = some .overCapacity := by decide +kernel
  have hiff := erased_submission_fenced_iff limits queueSettings moment erased_reachable hq hproject
    hscope erased_quiet (by decide +kernel) hplan (by decide +kernel)
    (by simp [crowdedBatch, event]) mem_cons_self htags mem_cons_self
  refine ⟨⟨q, hq, hnew⟩, hiff.mpr fun c hc => ?_⟩
  obtain rfl := Option.some.inj (hfirst.symm.trans hc)
  rfl

/-- **A new run that names the erased subject is not refused as a fence.** The completed request
takes no late runs, so the caller receives an internal error, and the client sends the batch
again. -/
theorem new_run_retried : erased.Reachable standardCluster ∧
    isQuiesced erased.db caller.projectId = false ∧
    (∃ q ∈ erased.db.requests, q.projectId = caller.projectId ∧
      q.scope = .subject (tagDigest standardCluster caller.projectId tag) ∧
      q.disposition = .scopeComplete ∧
      newRun ∉ erased.db.capturedRuns caller.projectId q.requestId) ∧
    (runBatch limits (some moment) (boundary standardCluster queueSettings) () erased caller
      [event newRun tag]).result = some (.error (.domain .tracebedError)) ∧
    Sdk.post (.status (statusCode .tracebedError)) = .retry :=
  ⟨erased_reachable, erased_quiet, erased_request, by decide +kernel, rfl⟩

end Sample

end Tracebed.Erasure
