import Tracebed.ErasureAdmission
import Tracebed.Lib.Runs

/-!
# Every Interleaving of the Erasure Routines

A call of a routine is one transaction: it runs to its end, or it raises and changes nothing.
The system takes calls in any order, from any callers and with any arguments and times, so
stale leases, crashed workers and late binds are all among its runs. Grants, projects and
business rows are arbitrary at the start, which also covers those that appear later.
-/

open Py Fallible Table Option Prod

namespace Tracebed.Erasure

variable (C : Cluster)

/-! ### Calls -/

/-- A call of a routine, with its arguments and the time at the server. -/
inductive Call where
  | requestErasure (args : RequestArguments) (now : ℕ)
  | bindRunSubjectTags (args : BindArguments)
  | runtimeWrite (project : UUID) (t : PrimaryTable) (rows : List PrimaryRow)
  | claimNext (args : ClaimArguments) (now : ℕ)
  | claimRequest (request : UUID) (args : ClaimArguments) (now : ℕ)
  | renew (c : Credential) (leaseSeconds now : ℕ)
  | release (c : Credential) (now : ℕ)
  | fail (c : Credential) (report : FailureReport) (now : ℕ)
  | resumeBlocked (request : UUID) (now : ℕ)
  | cryptoStep (c : Credential) (now : ℕ)
  | sealTraceManifest (c : Credential) (revision count : ℕ) (digest : Digest) (now : ℕ)
  | preparePrimary (c : Credential) (now : ℕ)
  | primaryBatch (c : Credential) (limit now : ℕ)
  | externalWorkBatch (c : Credential) (code : StoreCode) (limit now : ℕ)
  | markExternalWork (c : Credential) (item : WorkItem) (proof : StoreProof) (now : ℕ)
  | closeExternalStep (c : Credential) (code : StoreCode) (proof : StoreProof) (now : ℕ)
  | verifyAndComplete (c : Credential) (now : ℕ)

variable (db : Database)

/-- The database after a call that returns. -/
def Call.perform : Call → Except SqlState Database
  | requestErasure args now => (Erasure.requestErasure C args now db).map snd
  | bindRunSubjectTags args => (Erasure.bindRunSubjectTags C args db).map snd
  | runtimeWrite project t rows => (Erasure.runtimeWrite project t rows db).map snd
  | claimNext args now => (Erasure.claimNext C args now db).map snd
  | claimRequest request args now => (Erasure.claimRequest C request args now db).map snd
  | renew c leaseSeconds now => (Erasure.renew c leaseSeconds now db).map snd
  | release c now => (Erasure.release c now db).map snd
  | fail c report now => (Erasure.fail C c report now db).map snd
  | resumeBlocked request now => (Erasure.resumeBlocked C request now db).map snd
  | cryptoStep c now => (Erasure.cryptoStep C c now db).map snd
  | sealTraceManifest c revision count digest now =>
    (Erasure.sealTraceManifest C c revision count digest now db).map snd
  | preparePrimary c now => (Erasure.preparePrimary C c now db).map snd
  | primaryBatch c limit now => (Erasure.primaryBatch C c limit now db).map snd
  | externalWorkBatch c code limit now =>
    (Erasure.externalWorkBatch C c code limit now db).map snd
  | markExternalWork c item proof now =>
    (Erasure.markExternalWork c item proof now db).map snd
  | closeExternalStep c code proof now =>
    (Erasure.closeExternalStep C c code proof now db).map snd
  | verifyAndComplete c now => (Erasure.verifyAndComplete C c now db).map snd

/-- The database after a call; one that raises is rolled back. -/
def step (call : Call) : Database :=
  match call.perform C db with
  | .ok db => db
  | .error _ => db

/-- A database before its first erasure request. Projects, grants, keys and business rows are
arbitrary; fences are live, and the leaves of every active project are attached. -/
structure Database.Initial (db : Database) : Prop where
  requests : db.requests = []
  runSet : db.runSet = []
  memSet : db.memSet = []
  work : db.work = []
  checkpoints : db.checkpoints = []
  receipts : db.receipts = []
  subjectFences : ∀ f ∈ db.subjectFences, f.state = .live
  runFences : ∀ f ∈ db.runFences, f.state = .live
  projects : Table.Keyed ProjectRow.projectId db.projects
  attached : ∀ p ∈ db.projects, p.status = .active → p.projectId ∈ db.attached

/-- The databases that calls lead to. -/
def Reachable : Prop :=
  ∃ db₀ calls, Database.Initial db₀ ∧ db = Runs.exec (step C) db₀ calls

/-! ### Reading the request -/

section Request

variable {db : Database} {p r p' r' : UUID} {q : RequestRow} {f : RequestRow → RequestRow}

theorem isRequest_eq_true : isRequest p r q = true ↔ q.projectId = p ∧ q.requestId = r := by
  simp [isRequest]

/-- The row of a request has its key. -/
theorem request?_key (h : db.request? p r = some q) : q.projectId = p ∧ q.requestId = r :=
  isRequest_eq_true.mp (List.find?_some (p := isRequest p r) h)

/-- An update of one request is read back there and nowhere else. -/
theorem request?_updateRequest
    (hf : ∀ q, (f q).projectId = q.projectId ∧ (f q).requestId = q.requestId) :
    (db.updateRequest p r f).request? p' r' =
      if p' = p ∧ r' = r then (db.request? p r).map f else db.request? p' r' := by
  have hkey : (isRequest p' r' ∘ fun q => if isRequest p r q then f q else q) =
      isRequest p' r' := by
    funext q
    change isRequest p' r' (if isRequest p r q then f q else q) = isRequest p' r' q
    split
    · rw [isRequest, isRequest, (hf q).1, (hf q).2]
    · rfl
  rw [Database.request?, Database.updateRequest, updateWhere, List.find?_map, hkey]
  by_cases hsame : p' = p ∧ r' = r
  · obtain ⟨rfl, rfl⟩ := hsame
    rw [if_pos ⟨rfl, rfl⟩]
    refine map_congr fun q hq => if_pos ?_
    exact isRequest_eq_true.mpr (request?_key hq)
  · rw [if_neg hsame]
    refine (map_congr fun q hq => if_neg fun h => hsame ?_).trans map_id'
    obtain ⟨hp, hr⟩ := isRequest_eq_true.mp h
    obtain ⟨hp', hr'⟩ := request?_key hq
    exact ⟨hp'.symm.trans hp, hr'.symm.trans hr⟩

/-- The row after its update. -/
theorem request?_updateRequest_self
    (hf : ∀ q, (f q).projectId = q.projectId ∧ (f q).requestId = q.requestId)
    (hq : db.request? p r = some q) : (db.updateRequest p r f).request? p r = some (f q) := by
  rw [request?_updateRequest hf, if_pos ⟨rfl, rfl⟩, hq]
  rfl

variable {c : Credential}

/-- A live lease is on a request that is there. -/
theorem assertLease_eq_ok {now : ℕ} : assertLease c now db = .ok q ↔
    (1 ≤ c.generation ∧ ownerIsValid c.owner = true) ∧
      db.request? c.projectId c.requestId = some q ∧ holds q c now = true := by
  rw [assertLease, bind_eq_ok]
  constructor
  · rintro ⟨_, hc, h⟩
    obtain ⟨q', hq, h⟩ := bind_eq_ok.mp h
    obtain ⟨_, hh, h⟩ := bind_eq_ok.mp h
    cases h
    exact ⟨by simpa using hc, orThrow_eq_ok.mp hq, ensure_eq_ok.mp hh⟩
  · rintro ⟨hc, hq, hh⟩
    exact ⟨(), ensure_eq_ok.mpr (by simpa using hc), bind_eq_ok.mpr ⟨q, orThrow_eq_ok.mpr hq,
      guard_ok (ensure_eq_ok.mpr hh) rfl⟩⟩

/-- What a live lease says about the row. -/
theorem holds_eq_true {now : ℕ} : holds q c now = true ↔
    q.disposition = .active ∧ q.phase ≠ .scopeComplete ∧ q.generation = c.generation ∧
      ∃ l, q.lease = some l ∧ l.token = c.leaseToken ∧ l.owner = c.owner ∧ now < l.expiresAt := by
  simp [holds, any_eq_true, and_assoc]

/-- A live lease names the request by its key. -/
theorem assertLease_request {now : ℕ} (h : assertLease c now db = .ok q) :
    db.request? q.projectId q.requestId = some q := by
  obtain ⟨-, hreq, -⟩ := assertLease_eq_ok.mp h
  obtain ⟨hp, hr⟩ := request?_key hreq
  rwa [hp, hr]

/-- A claim finds the request that its identifier names. -/
theorem request?_of_find {request : UUID} (h : db.requests.find? (·.requestId = request) = some q) :
    db.request? q.projectId q.requestId = some q := by
  have hr : q.requestId = request := by simpa using List.find?_some h
  obtain ⟨hprop, before, after, hsplit, hbefore⟩ := List.find?_eq_some_iff_append.mp h
  refine List.find?_eq_some_iff_append.mpr
    ⟨isRequest_eq_true.mpr ⟨rfl, rfl⟩, before, after, hsplit, fun other hother => ?_⟩
  have hne := hbefore other hother
  simp only [Bool.not_eq_true', decide_eq_false_iff_not] at hne
  rw [Bool.not_eq_true']
  exact Bool.eq_false_iff.mpr fun hreq => hne ((isRequest_eq_true.mp hreq).2.trans hr)

/-! ### Receipts -/

variable {C : Cluster} {db' : Database} {generation now : ℕ} {entry : ReceiptEntry}
  {digest : Digest}

/-- What an appended receipt leaves. -/
theorem appendReceipt_eq_ok (h : appendReceipt C p r generation now entry db = .ok (digest, db')) :
    ∃ q, db.request? p r = some q ∧
      db' = db.addReceipt (newReceipt C db q generation now entry) := by
  obtain ⟨_, -, h⟩ := bind_eq_ok.mp h
  obtain ⟨q, hq, h⟩ := bind_eq_ok.mp h
  obtain ⟨_, -, h⟩ := bind_eq_ok.mp h
  exact ⟨q, orThrow_eq_ok.mp hq, (mk.inj (Except.ok.inj h)).2.symm⟩

/-- What an answered request leaves: nothing new where its scope has one already, otherwise its
row, its closure and the receipt of its fence. -/
theorem requestErasure_eq_ok {args : RequestArguments}
    (h : requestErasure C args now db = .ok (r, db')) :
    (db.requests.find? fun q => q.projectId = args.projectId && q.scope = args.scope C) ≠ none ∧
        db' = db ∨
      ∃ db₁ closure entry digest, closure = closureDigest C db₁ args.projectId args.newRequestId 1 ∧
        r = args.newRequestId ∧ db.request? args.projectId args.newRequestId = none ∧
        captureClosure C args { db with requests := db.requests ++ [newRequest C args now] } =
          .ok db₁ ∧ entry.stepCode ≠ .postgres ∧
        appendReceipt C args.projectId args.newRequestId 0 now entry
          (db₁.updateRequest args.projectId args.newRequestId (·.published closure)) =
            .ok (digest, db') := by
  obtain ⟨_, -, h⟩ := bind_eq_ok.mp h
  obtain ⟨_, -, h⟩ := bind_eq_ok.mp h
  split at h
  · next hfound =>
    cases h
    exact .inl ⟨by rw [hfound]; nofun, rfl⟩
  obtain ⟨_, -, h⟩ := bind_eq_ok.mp h
  obtain ⟨_, hnew, h⟩ := bind_eq_ok.mp h
  obtain ⟨db₁, hclosure, h⟩ := bind_eq_ok.mp h
  obtain ⟨db₂, hpublish, h⟩ := bind_eq_ok.mp h
  cases h
  obtain ⟨⟨digest, db₃⟩, hreceipt, h⟩ := bind_eq_ok.mp hpublish
  cases h
  exact .inr ⟨db₁, _, ⟨.fence, .succeeded, .ok, 0, 1, _⟩, digest, rfl, rfl, by simpa using hnew,
    hclosure, nofun, hreceipt⟩

/-- The request after a receipt. -/
theorem request?_addReceipt {receipt : ReceiptRow}
    (h : db.request? receipt.projectId receipt.requestId = some q) :
    (db.addReceipt receipt).request? receipt.projectId receipt.requestId =
      some (q.chained receipt) :=
  request?_updateRequest_self (f := (·.chained receipt)) (fun _ => ⟨rfl, rfl⟩) h

/-- The request after an appended receipt. -/
theorem request?_appendReceipt (h : appendReceipt C p r generation now entry db = .ok (digest, db'))
    (hq : db.request? p r = some q) : ∃ receipt, db'.request? p r = some (q.chained receipt) := by
  obtain ⟨q', hq', rfl⟩ := appendReceipt_eq_ok h
  obtain rfl := Option.some.inj (hq.symm.trans hq')
  obtain ⟨rfl, rfl⟩ := request?_key hq
  exact ⟨_, request?_addReceipt hq⟩

end Request

end Tracebed.Erasure
