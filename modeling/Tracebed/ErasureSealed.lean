import Tracebed.ErasureIngress
import Tracebed.ErasureKeys

/-!
# Captured Runs Stay Fenced

With submissions beside the erasure routines, the fences of captured runs stay down and those of
erased subjects too (`Ingress.Reachable.sealed`). A run that a request has captured is never open
again.
-/

open Py Fallible Tracebed.Queue Table Option Except

namespace Tracebed.Erasure

variable {C : Cluster} {db db' : Database} {p r run : UUID} {s s' : Ingress}

/-! ### The fences of captured runs -/

theorem runFence?_eq_some {state : FenceState} (h : runFence? db p run = some state) :
    ∃ f ∈ db.runFences, f.key = (p, run) ∧ f.state = state := by
  obtain ⟨f, hf, rfl⟩ := map_eq_some_iff.mp h
  have hkey := List.find?_some hf
  rw [Bool.and_eq_true, decide_eq_true_eq, decide_eq_true_eq] at hkey
  exact ⟨f, List.mem_of_find?_eq_some hf, Prod.ext hkey.1 hkey.2, rfl⟩

/-- The fence of a run is down exactly if it is read so. -/
theorem Database.RunsFallen.runFence?_any (h : db.RunsFallen) :
    (runFence? db p run).any (· ≠ .live) = true ↔ RunFallen db p run := by
  rw [any_eq_true]
  constructor
  · rintro ⟨state, hstate, hlive⟩
    obtain ⟨f, hf, hkey, rfl⟩ := runFence?_eq_some hstate
    exact ⟨f, hf, hkey, of_decide_eq_true hlive⟩
  · rintro ⟨f, hf, hkey, hlive⟩
    have hsome : (runFence? db p run).isSome = true := by
      rw [runFence?, isSome_map, List.find?_isSome]
      obtain ⟨hp, hr⟩ := Prod.ext_iff.mp hkey
      exact ⟨f, hf, by simp [show f.projectId = p from hp, show f.runId = run from hr]⟩
    obtain ⟨state, hstate⟩ := isSome_iff_exists.mp hsome
    obtain ⟨g, hg, hkey', rfl⟩ := runFence?_eq_some hstate
    refine ⟨g.state, hstate, decide_eq_true ?_⟩
    rwa [h.uniform g hg f hf (hkey'.trans hkey.symm)]

namespace Database.RunsFallen

theorem ensureRunFence (h : db.RunsFallen) : (ensureRunFence p run db).RunsFallen where
  uniform := fun f hf g hg hkey => by
    have hnew : ∀ {f g : RunFence}, f ∈ db.runFences → f.key = g.key → g = ⟨p, run, .live⟩ →
        RunFence.key ⟨p, run, .live⟩ ∉ db.runFences.map RunFence.key → False := by
      rintro f g hf hkey rfl habsent
      exact habsent (hkey ▸ List.mem_map_of_mem hf)
    rcases mem_insertNew.mp hf with hf | ⟨hf, habsent⟩ <;>
      rcases mem_insertNew.mp hg with hg | ⟨hg, habsent'⟩
    · exact h.uniform f hf g hg hkey
    · exact (hnew hf hkey hg habsent').elim
    · exact (hnew hg hkey.symm hf habsent).elim
    · rw [hf, hg]
  fallen := fun s hs => by
    obtain ⟨f, hf, hdown⟩ := h.fallen s hs
    exact ⟨f, mem_insertNew.mpr (.inl hf), hdown⟩

theorem setRunFenced (h : db.RunsFallen) : (setRunFenced p r run db).RunsFallen := by
  refine h.updateFences (fun f g hkey _ => ?_) rfl rfl nofun
  obtain ⟨hp, hr⟩ := Prod.ext_iff.mp hkey
  rw [show f.projectId = g.projectId from hp, show f.runId = g.runId from hr]

/-- A run whose fence is down may be captured. -/
theorem captureRun (h : db.RunsFallen) (hdown : RunFallen db p run) :
    (captureRun p r run db).RunsFallen where
  uniform := h.uniform
  fallen := fun s hs => by
    rcases mem_insertNew.mp hs with hs | ⟨rfl, -⟩
    · exact h.fallen s hs
    · exact hdown

end Database.RunsFallen

/-- The fence of a run that has one falls. -/
theorem runFallen_setRunFenced (h : (p, run) ∈ db.runFences.map RunFence.key) :
    RunFallen (setRunFenced p r run db) p run := by
  obtain ⟨f, hf, hkey⟩ := List.mem_map.mp h
  obtain ⟨hp, hr⟩ := Prod.ext_iff.mp hkey
  refine ⟨_, mem_updateWhere_of hf ?_, hkey, nofun⟩
  simp [show f.projectId = p from hp, show f.runId = run from hr]

theorem fenceRun_runsFallen (h : fenceRun p r db run = .ok db') (hdb : db.RunsFallen) :
    db'.RunsFallen := by
  obtain ⟨_, -, h⟩ := bind_eq_ok.mp h
  cases h
  have hfenced : (setRunFenced p r run (ensureRunFence p run db)).RunsFallen :=
    hdb.ensureRunFence.setRunFenced
  exact hfenced.captureRun (runFallen_setRunFenced (key_mem_insertNew _ _))

theorem requestErasure_runsFallen {args : RequestArguments} {now : ℕ} {request : UUID}
    (h : requestErasure C args now db = .ok (request, db')) (hdb : db.RunsFallen) :
    db'.RunsFallen := by
  obtain ⟨-, rfl⟩ | ⟨db₁, closure, entry, digest, -, -, -, hclosure, -, hreceipt⟩ :=
    requestErasure_eq_ok h
  · exact hdb
  obtain ⟨db₄, hfence, h⟩ := bind_eq_ok.mp hclosure
  obtain ⟨db₅, hruns, h⟩ := bind_eq_ok.mp h
  obtain ⟨memories, -, h⟩ := bind_eq_ok.mp h
  cases h
  obtain ⟨_, rfl⟩ := fenceTarget_eq_ok hfence
  have hfenced : db₅.RunsFallen := foldlM_preserves (I := Database.RunsFallen) hruns
    (hdb.of_same rfl rfl) fun _ _ _ _ hrun => fenceRun_runsFallen hrun
  obtain ⟨q, -, rfl⟩ := appendReceipt_eq_ok hreceipt
  exact hfenced.of_same rfl rfl

theorem cryptoStep_runsFallen {c : Credential} {now : ℕ} {outcome : CryptoOutcome}
    (h : cryptoStep C c now db = .ok (outcome, db')) (hdb : db.RunsFallen) : db'.RunsFallen := by
  obtain ⟨q, -, ⟨rfl, -⟩ | ⟨entry, digest, -, -, hreceipt⟩⟩ := cryptoStep_eq_ok h
  · exact hdb
  · obtain ⟨_, -, rfl⟩ := appendReceipt_eq_ok hreceipt
    exact hdb.of_same rfl rfl

theorem captureLate_runsFallen (h : captureLate C p r run db = .ok db') (hdb : db.RunsFallen)
    (hdown : RunFallen db p run) : db'.RunsFallen := by
  obtain ⟨captured, memories, hcaptured, hend⟩ := captureLate_eq_ok h
  have hfallen : captured.RunsFallen := by
    rw [hcaptured]
    exact (hdb.captureRun hdown).of_same rfl rfl
  obtain ⟨rfl, -⟩ | ⟨q, runs, new, digest, -, rfl⟩ := hend
  · exact hfallen
  refine ⟨hfallen.uniform, fun row hrow => ?_⟩
  obtain ⟨old, hold, rfl⟩ := mem_updateWhere.mp hrow
  split
  · exact hfallen.fallen old hold
  · exact hfallen.fallen old hold

variable {outcome : BindOutcome} {args : BindArguments}

theorem bindRunSubjectTags_runsFallen (h : bindRunSubjectTags C args db = .ok (outcome, db'))
    (hdb : db.RunsFallen) :
    db'.RunsFallen := by
  obtain rfl | ⟨db₁, full, bound, primary, hdb₁, hbound, hend⟩ := bindRunSubjectTags_eq_ok h
  · exact hdb
  have hsubjects : db₁.RunsFallen := hdb₁ ▸ hdb.of_same rfl rfl
  have hfences : bound.runFences = (ensureRunFence args.projectId args.runId db₁).runFences := by
    rw [hbound]
  have hstart : bound.RunsFallen := hsubjects.ensureRunFence.of_same (by rw [hbound]) hfences
  obtain rfl | ⟨request, hlate⟩ := hend
  · exact hstart
  -- The run enters a closure with its fence down: set here, or held by a request before.
  cases hholder : (runFence? (ensureRunFence args.projectId args.runId db₁) args.projectId
      args.runId).bind (·.requestId) with
  | none =>
    rw [hholder] at hlate
    exact captureLate_runsFallen hlate hstart.setRunFenced
      (runFallen_setRunFenced (hfences ▸ key_mem_insertNew _ _))
  | some holder =>
    rw [hholder] at hlate
    obtain ⟨state, hstate, hrequest⟩ := bind_eq_some_iff.mp hholder
    obtain ⟨f, hf, hkey, rfl⟩ := runFence?_eq_some hstate
    refine captureLate_runsFallen hlate hstart ⟨f, hfences ▸ hf, hkey, fun hlive => ?_⟩
    rw [hlive] at hrequest
    cases hrequest

/-! ### What every action keeps -/

/-- Erased keys stay erased, and captured runs stay fenced. -/
structure Database.Sealed (C : Cluster) (db : Database) : Prop where
  guarded : db.Guarded C
  runs : db.RunsFallen

theorem Database.Initial.sealed (h : db.Initial) : db.Sealed C where
  guarded := h.guarded
  runs := by
    refine ⟨fun f hf g hg _ => (h.runFences f hf).trans (h.runFences g hg).symm, fun s hs => ?_⟩
    rw [h.runSet] at hs
    cases hs

/-- A change of business rows and run fences. -/
theorem Database.Sealed.of_same (h : db.Sealed C) (hrequests : db'.requests = db.requests)
    (hfences : db'.subjectFences = db.subjectFences) (hkeys : db'.subjectKeys = db.subjectKeys)
    (hruns : db'.RunsFallen) : db'.Sealed C where
  guarded := by
    refine h.guarded.of_followed (.of_same hrequests) (fun p d hd => .inl ?_)
      fun k hk _ => .inl (hkeys ▸ hk)
    rwa [Fallen, hfences]
  runs := hruns

theorem bindRunSubjectTags_sealed (h : bindRunSubjectTags C args db = .ok (outcome, db'))
    (hdb : db.Sealed C) :
    db'.Sealed C where
  guarded := by
    obtain ⟨writes, rfl⟩ := bindRunSubjectTags_writes h
    have hsame := Statement.apply_undisturbed (.bind args.projectId writes) db
    exact hdb.guarded.of_followed hsame.followed (fun p d hd => .inl ((hsame.fallen p d).mpr hd))
      fun k hk _ => .inl hk
  runs := bindRunSubjectTags_runsFallen h hdb.runs

theorem Call.perform_sealed {call : Call} (h : call.perform C db = .ok db') (hdb : db.Sealed C) :
    db'.Sealed C := by
  by_cases hcalm : call.isDrastic = false
  · have htame := (Call.perform_leads hcalm h).tame hdb.guarded.standing
    exact ⟨htame.guarded hdb.guarded, htame.runs hdb.runs⟩
  · cases call with
    | requestErasure args now =>
      obtain ⟨⟨_, _⟩, hcall, rfl⟩ := map_eq_ok.mp h
      exact ⟨(requestErasure_owed hdb.guarded.standing hcall).guarded hdb.guarded,
        requestErasure_runsFallen hcall hdb.runs⟩
    | cryptoStep c now =>
      obtain ⟨⟨_, _⟩, hcall, rfl⟩ := map_eq_ok.mp h
      exact ⟨(cryptoStep_owed hdb.guarded.standing hcall none).guarded hdb.guarded,
        cryptoStep_runsFallen hcall hdb.runs⟩
    | bindRunSubjectTags args =>
      obtain ⟨⟨_, _⟩, hcall, rfl⟩ := map_eq_ok.mp h
      exact bindRunSubjectTags_sealed hcall hdb
    | _ => exact absurd rfl hcalm

variable {principal agentType grantId : UUID} {opened : Opened}

theorem openErasureGuardedRun_sealed
    (h : openErasureGuardedRun C p principal agentType grantId run db = .ok (opened, db'))
    (hdb : db.Sealed C) : db'.Sealed C := by
  obtain ⟨_, -, h⟩ := bind_eq_ok.mp h
  have hfence : ∀ {db₁ : Database}, db₁.Sealed C → (ensureRunFence p run db₁).Sealed C :=
    fun hdb₁ => hdb₁.of_same rfl rfl rfl hdb₁.runs.ensureRunFence
  have hsame : ∀ {result : Opened}, (result, db) = (opened, db') → db'.Sealed C := by
    intro result heq
    obtain ⟨-, rfl⟩ := Prod.mk.inj heq
    exact hdb
  dsimp only at h
  split at h
  · exact hsame (ok.inj h)
  split at h
  · exact hsame (ok.inj h)
  split at h
  · obtain ⟨_, -, h⟩ := bind_eq_ok.mp h
    split at h
    · exact hsame (ok.inj h)
    · cases h
      exact hfence hdb
  · split at h
    · exact hsame (ok.inj h)
    · cases h
      exact hfence (hdb.of_same rfl rfl rfl (hdb.runs.of_same rfl rfl))

variable {settings : QueueSettings} {access : AccessContext} {grant : GrantBinding}
  {write : AuthorizedQueueWrite}

theorem openedDatabase_sealed (h : openedDatabase C access grant write db = .ok (some db'))
    (hdb : db.Sealed C) : db'.Sealed C := by
  rw [openedDatabase] at h
  split at h
  · obtain ⟨⟨opened, db₁⟩, hopen, h⟩ := bind_eq_ok.mp h
    have hsome := ok.inj h
    split at hsome
    · cases hsome
      exact openErasureGuardedRun_sealed hopen hdb
    · cases hsome
  · obtain ⟨_, -, h⟩ := bind_eq_ok.mp h
    obtain ⟨_, -, h⟩ := bind_eq_ok.mp h
    obtain rfl := Option.some.inj (ok.inj h)
    exact hdb

theorem enqueueAuthorized_sealed {enqueue : Bool} {reply : Reply Ingress}
    (h : enqueueAuthorized C settings access grant write enqueue s = .ok reply)
    (hs : s.db.Sealed C) : reply.db.db.Sealed C := by
  obtain ⟨tags, -, h⟩ := bind_eq_ok.mp h
  obtain ⟨opened, hopen, h⟩ := bind_eq_ok.mp h
  cases opened with
  | none =>
    cases h
    exact hs
  | some db₁ =>
    have hopened := openedDatabase_sealed (mapError_eq_ok.mp hopen) hs
    obtain ⟨⟨bound, db₂⟩, hbind, h⟩ := bind_eq_ok.mp h
    have hbound := bindRunSubjectTags_sealed (mapError_eq_ok.mp hbind) hopened
    dsimp only at h
    rw [finishEnqueue] at h
    split at h
    · cases h
      exact hbound
    obtain ⟨_, -, h⟩ := bind_eq_ok.mp h
    obtain ⟨_, -, h⟩ := bind_eq_ok.mp h
    split at h
    · cases h
      exact hbound
    · obtain ⟨_, -, h⟩ := bind_eq_ok.mp h
      cases h
      exact hbound.of_same rfl rfl rfl (hbound.runs.of_same rfl rfl)

theorem Action.perform_sealed {action : Action} (h : action.perform C s = some s')
    (hs : s.db.Sealed C) : s'.db.Sealed C := by
  cases action <;> obtain ⟨_, hresult, rfl⟩ := map_eq_some_iff.mp h <;>
    have hok := toOption_eq_some.mp hresult
  case call => exact Call.perform_sealed hok hs
  case opens => exact openErasureGuardedRun_sealed hok hs
  case enqueues => exact enqueueAuthorized_sealed hok hs

/-- **Every state that submissions and erasure routines lead to is sealed.** -/
theorem Ingress.Reachable.sealed (h : s.Reachable C) : s.db.Sealed C := by
  obtain ⟨s₀, actions, hinit, rfl⟩ := h
  refine Runs.exec_invariant (I := fun s : Ingress => s.db.Sealed C) hinit.sealed ?_
  intro s action _ hs
  change ((action.perform C s).getD s).db.Sealed C
  cases hperform : action.perform C s with
  | none => exact hs
  | some s' => exact Action.perform_sealed hperform hs

end Tracebed.Erasure
