import Tracebed.ErasureCompletion

/-!
# What Erasure Never Takes Back

Workers take turns on a request: a lease runs out, and the next claim gives the request to another
worker under a higher generation. Whatever order the calls come in, a request keeps its scope and
moves through the phases in their order (`request_progress`), and every call of a worker that was
superseded is refused (`superseded_fenced`).
-/

open Py Fallible Relation

namespace Tracebed.Erasure

variable {C : Cluster} {db db' : Database} {p r : UUID} {q q' : RequestRow} {s s' : Saga}
  {call : Call} {c : Credential}

/-- A later state of a request. -/
structure RequestRow.Leads (q q' : RequestRow) : Prop where
  scope : q'.scope = q.scope
  phase : ReflTransGen Phase.Advances q.phase q'.phase
  revision : q.closureRevision ≤ q'.closureRevision
  generation : q.generation ≤ q'.generation

theorem RequestRow.Leads.refl (q : RequestRow) : q.Leads q := ⟨rfl, .refl, le_rfl, le_rfl⟩

theorem RequestRow.Leads.trans {a b c : RequestRow} (h : a.Leads b) (h' : b.Leads c) : a.Leads c :=
  ⟨h'.scope.trans h.scope, h.phase.trans h'.phase, h.revision.trans h'.revision,
    h.generation.trans h'.generation⟩

theorem Saga.Step.leads (h : Saga.Step s s') (hq : s.request = some q) :
    ∃ q', s'.request = some q' ∧ q.Leads q' := by
  cases h with
  | create hnone => simp [hnone] at hq
  | quiet h hquiet =>
    cases h.symm.trans hq
    exact ⟨_, rfl, hquiet.scope, hquiet.phase ▸ .refl, hquiet.revision.ge, hquiet.generation⟩
  | advance h hp =>
    cases h.symm.trans hq
    exact ⟨_, rfl, rfl, .single hp, le_rfl, le_rfl⟩
  | late h =>
    cases h.symm.trans hq
    exact ⟨_, rfl, rfl, .refl, Nat.le_succ _, le_rfl⟩
  | close h hp =>
    cases h.symm.trans hq
    refine ⟨_, rfl, ?_⟩
    rw [RequestRow.afterClose]
    split_ifs
    · refine ⟨rfl, ?_, le_rfl, le_rfl⟩
      rcases hp with hp | hp
      · exact hp ▸ .single .external
      · exact hp ▸ .refl
    · exact .refl q
  | _ => exact ⟨q, hq, .refl q⟩

/-- No call takes a request back. -/
theorem step_leads (C : Cluster) (call : Call) (hq : db.request? p r = some q) :
    ∃ q', (step C db call).request? p r = some q' ∧ q.Leads q' := by
  have hsteps : ∀ {t}, ReflTransGen Saga.Step (db.saga p r) t →
      ∃ q', t.request = some q' ∧ q.Leads q' := by
    intro t ht
    induction ht with
    | refl => exact ⟨q, hq, .refl q⟩
    | tail _ hstep ih =>
      obtain ⟨q₁, hq₁, hleads⟩ := ih
      obtain ⟨q₂, hq₂, hnext⟩ := hstep.leads hq₁
      exact ⟨q₂, hq₂, hleads.trans hnext⟩
  exact hsteps (step_moves C db call p r)

/-- **Requests only go forward.** Whatever calls are made, in whatever order, a request is never
lost, keeps its scope, passes through the phases in their order, and its closure revision and
its lease generation never decrease. -/
theorem request_progress (hq : db.request? p r = some q) (calls : List Call) :
    ∃ q', (Runs.exec (step C) db calls).request? p r = some q' ∧ q.Leads q' := by
  refine Runs.exec_invariant (I := fun db : Database => ∃ q', db.request? p r = some q' ∧
    q.Leads q') ⟨q, hq, .refl q⟩ ?_
  rintro db call - ⟨q₁, hq₁, hleads⟩
  obtain ⟨q₂, hq₂, hnext⟩ := step_leads C call hq₁
  exact ⟨q₂, hq₂, hleads.trans hnext⟩

theorem exec_generation {n : ℕ} (h : ∃ q, db.request? p r = some q ∧ n ≤ q.generation)
    (calls : List Call) :
    ∃ q, (Runs.exec (step C) db calls).request? p r = some q ∧ n ≤ q.generation := by
  refine Runs.exec_invariant
    (I := fun db : Database => ∃ q, db.request? p r = some q ∧ n ≤ q.generation) h ?_
  rintro db call - ⟨q₁, hq₁, hle⟩
  obtain ⟨q₂, hq₂, hnext⟩ := step_leads C call hq₁
  exact ⟨q₂, hq₂, hle.trans hnext.generation⟩

def Call.credential? : Call → Option Credential
  | renew c .. | release c .. | fail c .. | cryptoStep c .. | sealTraceManifest c ..
  | preparePrimary c .. | primaryBatch c .. | externalWorkBatch c .. | markExternalWork c ..
  | closeExternalStep c .. | verifyAndComplete c .. => some c
  | _ => none

theorem Call.assertLease_of_perform (hc : call.credential? = some c)
    (h : call.perform C db = .ok db') : ∃ now q, assertLease c now db = .ok q := by
  cases call <;> cases hc <;> obtain ⟨_, hcall, -⟩ := map_eq_ok.mp h
  case renew =>
    obtain ⟨_, -, hcall⟩ := bind_eq_ok.mp hcall
    obtain ⟨q, hq, -⟩ := bind_eq_ok.mp hcall
    exact ⟨_, q, hq⟩
  all_goals
    obtain ⟨q, hq, -⟩ := bind_eq_ok.mp hcall
    exact ⟨_, q, hq⟩

/-- **A superseded worker changes nothing.** Once a claim of a request has returned, every call
under a credential of an earlier generation is refused, however many calls come between. -/
theorem superseded_fenced {request : UUID} {args : ClaimArguments} {now : ℕ} {k : Claim}
    (h : claimSelected C request args now db = .ok (some k, db')) (calls : List Call)
    (hcall : call.credential? = some c) (hproject : c.projectId = k.projectId)
    (hrequest : c.requestId = k.requestId) (hold : c.generation < k.generation) :
    step C (Runs.exec (step C) db' calls) call = Runs.exec (step C) db' calls := by
  have hclaimed : ∃ q, db'.request? k.projectId k.requestId = some q ∧
      k.generation ≤ q.generation := by
    obtain ⟨_, -, h⟩ := bind_eq_ok.mp h
    split at h
    · cases h
    · next q hq =>
      split_ifs at h <;> cases h
      exact ⟨_, request?_updateRequest_self (fun _ => ⟨rfl, rfl⟩) (request?_of_find hq), le_rfl⟩
  obtain ⟨q, hq, hle⟩ := exec_generation hclaimed calls
  rw [step]
  split
  · next hok =>
    obtain ⟨_, _, hlease⟩ := Call.assertLease_of_perform hcall hok
    obtain ⟨-, hfound, hholds⟩ := assertLease_eq_ok.mp hlease
    rw [hproject, hrequest, hq] at hfound
    cases hfound
    have := (holds_eq_true.mp hholds).2.2.1
    omega
  · rfl

namespace Sample

/-- The worker gives the request back, and another one takes it over. -/
theorem request_handed_over : ∃ q q', beforeClose.request? project request = some q ∧
    (Runs.exec (step standardCluster) beforeClose [.release credential 0,
      .claimRequest request ⟨str "other", 900, manifest, principal⟩ 0]).request? project
      request = some q' ∧ q.Leads q' := by
  obtain ⟨q, hq, -⟩ := Option.map_eq_some_iff.mp beforeClose_phase
  obtain ⟨q', hq', hleads⟩ := request_progress (C := standardCluster) hq _
  exact ⟨q, q', hq, hq', hleads⟩

/-- The worker's lease runs out, and another worker claims the request. -/
theorem reclaimed_fenced : ∃ k db', claimSelected standardCluster request
    ⟨str "other", 900, manifest, principal⟩ (seconds 900) beforeClose = .ok (some k, db') ∧
    step standardCluster db' (.release credential 0) = db' := by
  have hclaim : ((claimSelected standardCluster request ⟨str "other", 900, manifest, principal⟩
      (seconds 900) beforeClose).toOption.bind fun result => result.1.map fun k =>
        (k.projectId, k.requestId, k.generation)) = some (project, request, 2) := by
    decide +kernel
  obtain ⟨⟨_, db'⟩, hok, hk⟩ := Option.bind_eq_some_iff.mp hclaim
  obtain ⟨k, rfl, hk⟩ := Option.map_eq_some_iff.mp hk
  simp only [Option.map_some, Option.some.injEq, Prod.mk.injEq] at hk
  exact ⟨k, db', toOption_eq_some.mp hok, superseded_fenced (toOption_eq_some.mp hok) [] rfl
    hk.1.symm hk.2.1.symm (hk.2.2 ▸ by decide)⟩

end Sample

end Tracebed.Erasure
