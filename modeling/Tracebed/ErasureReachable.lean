import Tracebed.ErasureMoves

/-!
# The System Moves Every Saga by Its Steps

The routines of the API and the runtime write fences, captured runs and business rows. Seen
from one request, an accepted request is its creation, a late bind enlarges the closure of the
request whose fence it meets, and everything else goes unnoticed (`step_moves`). So in every
reachable database the rows of every request are well-formed (`Reachable.wellFormed`).
-/

open Py Fallible Table List

namespace Tracebed.Erasure

variable {C : Cluster} {db db' db'' : Database} {p r : UUID}

/-! ### Changes beside the sagas -/

/-- The tables of the sagas are untouched. -/
structure SameSagas (db db' : Database) : Prop where
  requests : db'.requests = db.requests
  runSet : db'.runSet = db.runSet
  work : db'.work = db.work
  checkpoints : db'.checkpoints = db.checkpoints
  receipts : db'.receipts = db.receipts

namespace SameSagas

theorem refl (db : Database) : SameSagas db db := ⟨rfl, rfl, rfl, rfl, rfl⟩

theorem trans (h : SameSagas db db') (h' : SameSagas db' db'') : SameSagas db db'' where
  requests := h'.requests.trans h.requests
  runSet := h'.runSet.trans h.runSet
  work := h'.work.trans h.work
  checkpoints := h'.checkpoints.trans h.checkpoints
  receipts := h'.receipts.trans h.receipts

theorem moves (h : SameSagas db db') : Moves db db' :=
  .of_same h.requests h.runSet h.work h.checkpoints h.receipts

end SameSagas

/-- At most the captured runs of one request change. -/
structure OnlyRuns (p r : UUID) (db db' : Database) : Prop where
  requests : db'.requests = db.requests
  work : db'.work = db.work
  checkpoints : db'.checkpoints = db.checkpoints
  receipts : db'.receipts = db.receipts
  others : ∀ p' r', ¬ (p' = p ∧ r' = r) → db'.capturedRuns p' r' = db.capturedRuns p' r'

namespace OnlyRuns

theorem of_same (h : SameSagas db db') : OnlyRuns p r db db' where
  requests := h.requests
  work := h.work
  checkpoints := h.checkpoints
  receipts := h.receipts
  others := fun _ _ _ => by rw [Database.capturedRuns, h.runSet]; rfl

theorem trans (h : OnlyRuns p r db db') (h' : OnlyRuns p r db' db'') : OnlyRuns p r db db'' where
  requests := h'.requests.trans h.requests
  work := h'.work.trans h.work
  checkpoints := h'.checkpoints.trans h.checkpoints
  receipts := h'.receipts.trans h.receipts
  others := fun p' r' hne => (h'.others p' r' hne).trans (h.others p' r' hne)

end OnlyRuns

variable {q : RequestRow}

/-- A change of the request row and the captured runs of one request. -/
theorem Moves.of_rows (hrequest : ∀ p' r', db'.request? p' r' =
      if p' = p ∧ r' = r then some q else db.request? p' r') (hwork : db'.work = db.work)
    (hcheckpoints : db'.checkpoints = db.checkpoints) (hreceipts : db'.receipts = db.receipts)
    (hothers : ∀ p' r', ¬ (p' = p ∧ r' = r) → db'.capturedRuns p' r' = db.capturedRuns p' r')
    (hstep : Saga.Step (db.saga p r)
      { db.saga p r with request := some q, runs := db'.capturedRuns p r }) : Moves db db' := by
  refine .of_saga (p := p) (r := r) (.single ?_) fun p' r' hne => ?_
  · have hsaga : db'.saga p r =
        { db.saga p r with request := some q, runs := db'.capturedRuns p r } := by
      simp [Database.saga, hrequest, hwork, hcheckpoints, hreceipts]
    rwa [hsaga]
  · simp [Database.saga, hrequest, hwork, hcheckpoints, hreceipts, hothers p' r' hne,
      if_neg hne]

/-- Capturing a run for one request. -/
theorem captureRun_onlyRuns (p r run : UUID) (db : Database) :
    OnlyRuns p r db (captureRun p r run db) where
  requests := rfl
  work := rfl
  checkpoints := rfl
  receipts := rfl
  others := by
    intro p' r' hne
    rw [Database.capturedRuns, captureRun, filter_insertNew_of_not]
    · rfl
    · exact decide_eq_false fun h => hne (h.imp Eq.symm Eq.symm)

variable {run : UUID}

/-- A captured run is not captured again. -/
theorem captureRun_eq_self (h : run ∈ db.capturedRuns p r) : captureRun p r run db = db := by
  obtain ⟨s, hs, rfl⟩ := mem_map.mp h
  obtain ⟨hrow, hd⟩ := mem_filter.mp hs
  obtain ⟨rfl, rfl⟩ := of_decide_eq_true hd
  have hkey : RunSetRow.key ⟨s.projectId, s.requestId, s.runId, 1⟩ ∈
      db.runSet.map RunSetRow.key := mem_map.mpr ⟨s, hrow, rfl⟩
  rw [captureRun, insertNew, if_pos hkey]

/-! ### Accepting a request -/

theorem fenceTarget_eq_ok {scope : Scope} (h : fenceTarget p r scope db = .ok db') :
    ∃ subjectFences, db' = { db with subjectFences } := by
  cases scope with
  | subject digest =>
    obtain ⟨_, -, h⟩ := bind_eq_ok.mp h
    exact ⟨_, (Except.ok.inj h).symm⟩
  | project => exact ⟨db.subjectFences, (Except.ok.inj h).symm⟩

theorem fenceRun_onlyRuns (h : fenceRun p r db run = .ok db') : OnlyRuns p r db db' := by
  obtain ⟨_, -, h⟩ := bind_eq_ok.mp h
  cases h
  have hfence : SameSagas db (ensureRunFence p run db) := ⟨rfl, rfl, rfl, rfl, rfl⟩
  refine (OnlyRuns.of_same hfence).trans ((captureRun_onlyRuns p r run _).trans (.of_same ?_))
  exact ⟨rfl, rfl, rfl, rfl, rfl⟩

variable {args : RequestArguments}

theorem captureClosure_onlyRuns (h : captureClosure C args db = .ok db') :
    OnlyRuns args.projectId args.newRequestId db db' := by
  obtain ⟨db₁, hfence, h⟩ := bind_eq_ok.mp h
  obtain ⟨db₂, hruns, h⟩ := bind_eq_ok.mp h
  obtain ⟨memories, -, h⟩ := bind_eq_ok.mp h
  cases h
  obtain ⟨_, rfl⟩ := fenceTarget_eq_ok hfence
  have hfold : OnlyRuns args.projectId args.newRequestId db db₂ :=
    foldlM_preserves (I := OnlyRuns args.projectId args.newRequestId db) hruns
      (.of_same ⟨rfl, rfl, rfl, rfl, rfl⟩)
      fun _ _ _ _ hrun hsofar => hsofar.trans (fenceRun_onlyRuns hrun)
  exact hfold.trans (.of_same ⟨rfl, rfl, rfl, rfl, rfl⟩)

/-- The key of a new row is read at that row, every other key as before. -/
theorem find?_append_of_none (h : db.request? q.projectId q.requestId = none) (p r : UUID) :
    (db.requests ++ [q]).find? (isRequest p r) =
      if p = q.projectId ∧ r = q.requestId then some q else db.request? p r := by
  rw [find?_append]
  by_cases hsame : p = q.projectId ∧ r = q.requestId
  · obtain ⟨rfl, rfl⟩ := hsame
    have hnone : db.requests.find? (isRequest q.projectId q.requestId) = none := h
    rw [hnone]
    simp [isRequest]
  · have hnot : isRequest p r q = false :=
      Bool.eq_false_iff.mpr fun h => hsame ((isRequest_eq_true.mp h).imp Eq.symm Eq.symm)
    rw [if_neg hsame, find?_cons_of_neg (by simp [hnot]), find?_nil, Option.or_none]
    rfl

theorem requestErasure_moves {now : ℕ} {request : UUID}
    (h : requestErasure C args now db = .ok (request, db')) : Moves db db' := by
  obtain ⟨-, rfl⟩ | ⟨db₁, closure, entry, digest, -, -, hnone, hclosure, hentry, hreceipt⟩ :=
    requestErasure_eq_ok h
  · exact .refl _
  have honly := captureClosure_onlyRuns hclosure
  refine Moves.trans ?_ (Leads.appendReceipt_of_ne hreceipt (.inl hentry)).moves
  have hfound := find?_append_of_none (q := newRequest C args now) hnone
  have hfresh : ((newRequest C args now).published closure).IsFresh := ⟨rfl, rfl, rfl, rfl, rfl⟩
  refine .of_rows (p := args.projectId) (r := args.newRequestId) (fun p' r' => ?_) honly.work
    honly.checkpoints honly.receipts honly.others (.create hnone hfresh)
  refine Eq.trans (request?_updateRequest ?_) ?_
  · exact fun _ => ⟨rfl, rfl⟩
  rw [Database.request?, Database.request?, honly.requests, hfound, hfound]
  by_cases hsame : p' = args.projectId ∧ r' = args.newRequestId
  · rw [if_pos hsame, if_pos hsame]
    exact congrArg (Option.map _) (if_pos ⟨rfl, rfl⟩)
  · rw [if_neg hsame, if_neg hsame]
    exact if_neg hsame

/-! ### Binding subject tags -/

theorem primary_trans (h : db' = { db with primary := db'.primary })
    (h' : db'' = { db' with primary := db''.primary }) :
    db'' = { db with primary := db''.primary } :=
  h'.trans (by rw [h])

theorem foldl_primary {α : Type*} {f : Database → α → Database}
    (h : ∀ db a, f db a = { db with primary := (f db a).primary }) (l : List α) (db : Database) :
    l.foldl f db = { db with primary := (l.foldl f db).primary } := by
  induction l generalizing db with
  | nil => rfl
  | cons a l ih => exact primary_trans (h db a) (ih _)

/-- What a bind propagates are business rows. -/
theorem propagate_eq (p run : UUID) (full : List Digest) (db : Database) :
    propagate C p run full db = { db with primary := (propagate C p run full db).primary } := by
  have hruns := foldl_primary (f := propagateRun p run full) (fun _ _ => rfl) propagatedTables
    (bindSubjects C p run full db)
  have hmemories : ∀ db, propagateMemories C p run db =
      { db with primary := (propagateMemories C p run db).primary } := fun _ => rfl
  refine primary_trans (primary_trans (primary_trans ?_ hruns) (hmemories _)) ?_
  · rfl
  · exact foldl_primary (f := propagateDerived C p run) (fun _ _ => rfl) _ _

theorem stampLate_onlyRuns (p r : UUID) (runs memories : List UUID) (revision : ℕ)
    (db : Database) : OnlyRuns p r db (stampLate p r runs memories revision db) where
  requests := rfl
  work := rfl
  checkpoints := rfl
  receipts := rfl
  others := by
    intro p' r' hne
    refine congrArg (map _) (filter_updateWhere_of_not ?_ ?_ _)
    · exact fun _ _ => rfl
    refine fun s hs => Bool.eq_false_iff.mpr fun hstamped => hne ?_
    simp only [Bool.and_eq_true, decide_eq_true_eq] at hs hstamped
    exact ⟨hs.1.symm.trans hstamped.1.1, hs.2.symm.trans hstamped.1.2⟩

/-- A late capture leaves the closure alone where it had the run already, and refreshes it
otherwise. -/
theorem captureLate_eq_ok (h : captureLate C p r run db = .ok db') :
    ∃ captured memories, captured = captureMemories p r memories (captureRun p r run db) ∧
      (db' = captured ∧ run ∈ db.capturedRuns p r ∨
        ∃ q runs new digest, db.request? p r = some q ∧
          db' = (stampLate p r runs new (q.closureRevision + 1) captured).updateRequest p r
            fun row => { row with closureRevision := q.closureRevision + 1,
                                  closureDigest := digest }) := by
  obtain ⟨memories, -, h⟩ := bind_eq_ok.mp h
  refine ⟨_, memories, rfl, ?_⟩
  by_cases hold : run ∈ db.capturedRuns p r ∧
      ((memories.map Prod.fst).filter (· ∉ db.capturedMemories p r)).isEmpty
  · rw [if_pos hold.1] at h
    exact .inl ⟨(Except.ok.inj ((if_pos hold.2).symm.trans h)).symm, hold.1⟩
  · have hnew : ¬ ((if run ∈ db.capturedRuns p r then [] else [run]).isEmpty &&
        ((memories.map Prod.fst).filter (· ∉ db.capturedMemories p r)).isEmpty) = true := by
      split <;> simp_all
    obtain ⟨q, hq, h⟩ := bind_eq_ok.mp ((if_neg hnew).symm.trans h)
    obtain ⟨_, -, h⟩ := bind_eq_ok.mp h
    exact .inr ⟨q, _, _, _, orThrow_eq_ok.mp hq, (Except.ok.inj h).symm⟩

variable {outcome : BindOutcome}

/-- The end of a bind writes business rows, and where a request blocks the run, the run enters
the closure of that request. -/
theorem finishBind_eq_ok {full : List Digest} {tooMany runIsLive : Bool} {blocking : Option UUID}
    (h : finishBind C p run full tooMany runIsLive blocking db = .ok (outcome, db')) :
    ∃ bound primary, bound = { db with primary := primary } ∧ (db' = bound ∨ ∃ request,
      captureLate C p request run
        (if runIsLive then setRunFenced p request run bound else bound) = .ok db') := by
  cases blocking with
  | none =>
    cases h
    exact ⟨_, _, propagate_eq p run full db, .inl rfl⟩
  | some request =>
    obtain ⟨db₁, hlate, h⟩ := bind_eq_ok.mp h
    cases h
    cases tooMany with
    | true => exact ⟨db, _, rfl, .inr ⟨request, hlate⟩⟩
    | false => exact ⟨bindSubjects C p run full db, _, rfl, .inr ⟨request, hlate⟩⟩

/-- **What a bind does**: nothing where a request keeps the run away. Otherwise it ensures the
fences and writes business rows, and where a request holds one of the fences the run enters the
closure of that request. -/
theorem bindRunSubjectTags_eq_ok {args : BindArguments}
    (h : bindRunSubjectTags C args db = .ok (outcome, db')) :
    db' = db ∨ ∃ db₁ full bound primary, db₁ = ensureSubjectFences args.projectId full db ∧
      bound = { ensureRunFence args.projectId args.runId db₁ with primary := primary } ∧
      (db' = bound ∨ ∃ request, captureLate C args.projectId request args.runId
        (if ((runFence? (ensureRunFence args.projectId args.runId db₁) args.projectId
            args.runId).bind (·.requestId)).isNone then
          setRunFenced args.projectId request args.runId bound else bound) = .ok db') := by
  obtain ⟨_, -, h⟩ := bind_eq_ok.mp h
  obtain ⟨_, -, h⟩ := bind_eq_ok.mp h
  dsimp only at h
  split at h
  · cases h
    exact .inl rfl
  obtain ⟨_, -, h⟩ := bind_eq_ok.mp h
  obtain ⟨_, -, h⟩ := bind_eq_ok.mp h
  split at h
  · cases h
    exact .inl rfl
  obtain ⟨_, -, h⟩ := bind_eq_ok.mp h
  obtain ⟨_, -, h⟩ := bind_eq_ok.mp h
  obtain ⟨_, -, h⟩ := bind_eq_ok.mp h
  obtain ⟨_, -, h⟩ := bind_eq_ok.mp h
  have hensured : ∀ (b : Bool) full, ∃ full',
      (if b then ensureSubjectFences args.projectId full db else db) =
        ensureSubjectFences args.projectId full' db := by
    intro b full
    cases b with
    | false => exact ⟨[], rfl⟩
    | true => exact ⟨full, rfl⟩
  obtain ⟨full, hfull⟩ := hensured _ _
  obtain ⟨bound, primary, hbound, hend⟩ := finishBind_eq_ok h
  exact .inr ⟨_, full, bound, primary, hfull, hbound, hend⟩

theorem captureLate_moves (h : captureLate C p r run db = .ok db') : Moves db db' := by
  obtain ⟨captured, memories, hcaptured, ⟨rfl, hold⟩ | ⟨q, runs, new, digest, hq, rfl⟩⟩ :=
    captureLate_eq_ok h
  · rw [hcaptured, captureRun_eq_self hold]
    exact SameSagas.moves ⟨rfl, rfl, rfl, rfl, rfl⟩
  have honly : OnlyRuns p r db captured := by
    rw [hcaptured]
    exact (captureRun_onlyRuns p r run db).trans (.of_same ⟨rfl, rfl, rfl, rfl, rfl⟩)
  have hlate := honly.trans (stampLate_onlyRuns p r runs new (q.closureRevision + 1) captured)
  generalize stampLate p r runs new (q.closureRevision + 1) captured = late at hlate
  have hstep : Saga.Step (db.saga p r) { db.saga p r with
        request := some { q with closureRevision := q.closureRevision + 1, closureDigest := digest }
        runs := late.capturedRuns p r } := .late hq
  refine .of_rows (p := p) (r := r) (fun p' r' => ?_) hlate.work hlate.checkpoints hlate.receipts
    hlate.others hstep
  refine Eq.trans (request?_updateRequest ?_) ?_
  · exact fun _ => ⟨rfl, rfl⟩
  rw [Database.request?, Database.request?, hlate.requests]
  change (if _ then Option.map _ (db.request? p r) else _) = _
  rw [hq]
  rfl

theorem bindRunSubjectTags_moves {args : BindArguments}
    (h : bindRunSubjectTags C args db = .ok (outcome, db')) : Moves db db' := by
  obtain rfl | ⟨_, full, bound, primary, rfl, hbound, hend⟩ := bindRunSubjectTags_eq_ok h
  · exact .refl _
  have hsame : SameSagas db bound := by
    rw [hbound]
    exact ⟨rfl, rfl, rfl, rfl, rfl⟩
  obtain rfl | ⟨request, hlate⟩ := hend
  · exact hsame.moves
  refine (hsame.trans ?_).moves.trans (captureLate_moves hlate)
  split
  · exact ⟨rfl, rfl, rfl, rfl, rfl⟩
  · exact .refl _

/-! ### The system -/

/-- The calls that change what is fenced or which keys are live. -/
def Call.isDrastic : Call → Bool
  | requestErasure .. => true
  | bindRunSubjectTags .. => true
  | cryptoStep .. => true
  | _ => false

variable {call : Call}

/-- **Every other call moves every saga by its steps, and is tame.** -/
theorem Call.perform_leads (hcalm : call.isDrastic = false) (h : call.perform C db = .ok db') :
    Leads db db' := by
  cases call <;> obtain ⟨⟨_, _⟩, hcall, rfl⟩ := map_eq_ok.mp h
  case requestErasure => cases hcalm
  case bindRunSubjectTags => cases hcalm
  case cryptoStep => cases hcalm
  case runtimeWrite => exact runtimeWrite_leads hcall
  case claimNext => exact claimNext_leads hcall
  case claimRequest => exact claimSelected_leads hcall
  case renew => exact renew_leads hcall
  case release => exact release_leads hcall
  case fail => exact fail_leads hcall
  case resumeBlocked => exact resumeBlocked_leads hcall
  case sealTraceManifest => exact sealTraceManifest_leads hcall
  case preparePrimary => exact preparePrimary_leads hcall
  case primaryBatch => exact primaryBatch_leads hcall
  case externalWorkBatch => exact externalWorkBatch_leads hcall
  case markExternalWork => exact markExternalWork_leads hcall
  case closeExternalStep => exact closeExternalStep_leads hcall
  case verifyAndComplete => exact verifyAndComplete_leads hcall

/-- A call that returns moves every saga by its steps. -/
theorem Call.perform_moves (h : call.perform C db = .ok db') : Moves db db' := by
  by_cases hcalm : call.isDrastic = false
  · exact (perform_leads hcalm h).moves
  cases call <;> first | exact absurd rfl hcalm | obtain ⟨⟨_, _⟩, hcall, rfl⟩ := map_eq_ok.mp h
  case requestErasure => exact requestErasure_moves hcall
  case bindRunSubjectTags => exact bindRunSubjectTags_moves hcall
  case cryptoStep => exact cryptoStep_moves hcall

variable (C) in
/-- **Each call of the system moves every saga by its steps.** -/
theorem step_moves (db : Database) (call : Call) : Moves db (step C db call) := by
  rw [step]
  split
  · next h => exact Call.perform_moves h
  · exact .refl db

/-- Before the first request nothing belongs to any. -/
theorem Database.Initial.wellFormed (h : db.Initial) (p r : UUID) : (db.saga p r).WellFormed where
  absent := fun _ => by simp [Database.saga, h.work, h.checkpoints, h.receipts]
  sound := fun q hq => by
    rw [Database.saga, Database.request?, h.requests] at hq
    cases hq

/-- **In every reachable database the rows of every request are well-formed.** -/
theorem Reachable.wellFormed (h : Reachable C db) (p r : UUID) : (db.saga p r).WellFormed := by
  obtain ⟨db₀, calls, hinit, rfl⟩ := h
  refine Runs.exec_invariant (I := fun db : Database => (db.saga p r).WellFormed)
    (hinit.wellFormed p r) ?_
  exact fun db call _ hdb => Saga.wellFormed_of_steps hdb (step_moves C db call p r)

end Tracebed.Erasure
