import Tracebed.ErasureRunLogic

/-!
# The Order of the Executor's Calls

Whatever the database, the stores and the clock answer, a run makes its calls in a fixed
order (`run_call_order`). Work is marked right after its own target was deleted and verified, a
store is closed right after its work ran out and its emptiness was proved, stores follow the
manifest, and after the completing call nothing but the report of its failure is left to do.

A database call that finds the closure of its request at another revision raises
`ErasureClosureChanged`. The handlers of `_run` record it as `closure_changed` and raise it
again, but the exceptions of a renewal and of the calls of the external pass do not reach them
as they were (`closureChanged_recorded_iff`).
-/

open Py Interaction Routine List

namespace Tracebed.Erasure

namespace Executor

/-- Every call of a trace is allowed after the calls before it. -/
def Ordered (manifest : List StoreCode) (trace : Trace) : Prop :=
  ∀ before e after, trace = before ++ e :: after → Allowed manifest before e.1

section Ordered

variable {manifest : List StoreCode} {h trace : Trace} {c : PortCall}

/-- Every call but a report needs a fresh history. -/
theorem Allowed.fresh (hc : Allowed manifest h c) (hfail : c.isFail = false) : Fresh h := by
  cases c with
  | markExternalWork | closeExternalStep => exact hc.1
  | fail => cases hfail
  | _ => exact hc

/-- A report needs an unreported one. -/
theorem Allowed.unreported (hc : Allowed manifest h c) : Unreported h := by
  by_cases hfail : c.isFail = false
  · exact .inl (hc.fresh hfail)
  · cases c with
    | fail => exact hc
    | _ => exact absurd rfl hfail

theorem Ordered.of_concat {e : Event PortCall fun c => Except ExecutorError c.Result}
    (ho : Ordered manifest (trace ++ [e])) : Ordered manifest trace := by
  intro before e' after heq
  exact ho before e' (after ++ [e]) (by rw [heq, append_assoc, cons_append])

theorem Ordered.closes_prefix (ho : Ordered manifest trace) : closes trace <+: manifest := by
  induction trace using reverseRecOn with
  | nil => exact nil_prefix
  | append_singleton front e ih =>
    obtain ⟨c, r⟩ := e
    have hallowed := ho front ⟨c, r⟩ [] rfl
    cases hclosed : c.closed? with
    | none =>
      rw [closes_concat hclosed]
      exact ih ho.of_concat
    | some code =>
      cases c with
      | closeExternalStep lease code' count result =>
        rw [closes_append]
        exact hallowed.2.2
      | _ => cases hclosed

/-- After the completing call, a report or a lost lease nothing follows, except one report of what
that call raised. -/
theorem Ordered.ends {before after : Trace} {r : Except ExecutorError c.Result}
    (ho : Ordered manifest (before ++ event c r :: after)) (hlast : IsLast (event c r)) :
    after = [] ∨ ∃ err e, r = .error err ∧ (err = .leaseLost → c.isValidate = true) ∧
      after = [e] ∧ e.1.isFail = true := by
  have hnot : ∀ middle, ¬ Fresh (before ++ event c r :: middle) := fun middle hfresh =>
    hfresh _ (mem_append_right _ mem_cons_self) hlast
  cases after with
  | nil => exact .inl rfl
  | cons e rest =>
    have hnext := ho (before ++ [event c r]) e rest (by rw [append_assoc, singleton_append])
    have hfail : e.1.isFail = true := by
      by_contra hfail
      exact hnot [] (hnext.fresh (Bool.eq_false_iff.mpr hfail))
    obtain hfresh | ⟨front, c', err, heq, -, hvalidate⟩ := hnext.unreported
    · exact absurd hfresh (hnot [])
    obtain ⟨-, hc⟩ := append_inj' heq rfl
    cases hc
    refine .inr ⟨err, e, rfl, hvalidate, ?_, hfail⟩
    -- a second call would find the last one before the end of its history
    cases rest with
    | nil => rfl
    | cons e' rest =>
      have hsecond := ho (before ++ [event c (.error err), e]) e' rest (by simp)
      obtain hfresh | ⟨front', c', err', heq', hfresh, -⟩ := hsecond.unreported
      · exact absurd hfresh (hnot [e])
      · rw [append_cons] at heq'
        obtain ⟨rfl, -⟩ := append_inj' heq' rfl
        exact absurd hfresh (hnot [])

/-- At most two reports are attempted. -/
theorem Ordered.countP_isFail (ho : Ordered manifest trace) : trace.countP (·.1.isFail) ≤ 2 := by
  have hnone : ∀ front : Trace, Fresh front → front.countP (·.1.isFail) = 0 := fun front hfresh =>
    countP_eq_zero.mpr fun e he hfail => hfresh e he (.inr (.inl hfail))
  obtain rfl | ⟨front, e, rfl⟩ := trace.eq_nil_or_concat'
  · exact Nat.zero_le 2
  · have hlast : [e].countP (·.1.isFail) ≤ 1 := countP_le_length
    rw [countP_append]
    obtain hfresh | ⟨front', c', err, rfl, hfresh, -⟩ := (ho front e [] rfl).unreported
    · rw [hnone front hfresh]
      omega
    · have hbefore : [event c' (.error err)].countP (·.1.isFail) ≤ 1 := countP_le_length
      rw [countP_append, hnone front' hfresh]
      omega

end Ordered

variable (x : Executor) (fuel : ℕ) (lease : Claim) {σ : Type}
  (env : σ → (c : PortCall) → Except ExecutorError c.Result × σ) (s : σ)

/-- The trace of a run against an environment. -/
def traceOf : Trace :=
  (exec env (x.run fuel lease (start lease)) s).trace

/-- **The order of the calls of a run**, against any environment. Work is marked right after its
target was deleted and verified; a store is closed right after its work ran out and, unless it
is the trace store of a subject request, after the project was verified to be absent from it;
the closed stores are the first of the manifest, in its order. The completing call is made at most
once, and a call of it, a report or a lost lease ends the run. One report may still follow a
completing call or a report that raised something else than a lost lease, and one may follow a
lost lease that the validation of a reference raised. So at most two reports are attempted. -/
theorem run_call_order :
    (∀ before lease' work result r after, traceOf x fuel lease env s =
        before ++ event (.markExternalWork lease' work result) r :: after →
      Proved before lease'.projectId work.target result) ∧
    (∀ before lease' code count result r after, traceOf x fuel lease env s =
        before ++ event (.closeExternalStep lease' code count result) r :: after →
      Emptied before lease' code) ∧
    closes (traceOf x fuel lease env s) <+: x.manifest ∧
    (∀ before c r after, traceOf x fuel lease env s = before ++ event c r :: after →
      c.isVerify = true → ∀ e ∈ before, e.1.isVerify = false) ∧
    (∀ before c r after, traceOf x fuel lease env s = before ++ event c r :: after →
      IsLast (event c r) → after = [] ∨ ∃ err e, r = .error err ∧
        (err = .leaseLost → c.isValidate = true) ∧ after = [e] ∧ e.1.isFail = true) ∧
    (traceOf x fuel lease env s).countP (·.1.isFail) ≤ 2 := by
  have ho : Ordered x.manifest (traceOf x fuel lease env s) := fun before ⟨c, r⟩ after heq =>
    exec_allowed (run_spec x fuel lease) s heq
  refine ⟨fun before lease' work result r after heq => ?_,
    fun before lease' code count result r after heq => ?_, ho.closes_prefix,
    fun before c r after heq hverify e he => ?_, fun before c r after heq => ?_,
    ho.countP_isFail⟩
  · exact (ho _ _ _ heq).2
  · exact (ho _ _ _ heq).2.1
  · have hfail : c.isFail = false := by
      cases c with
      | verifyAndComplete => rfl
      | _ => cases hverify
    exact Bool.eq_false_iff.mpr fun h => (ho _ _ _ heq).fresh hfail e he (.inl h)
  · exact (heq ▸ ho).ends

/-! ### Where the order ends -/

namespace Sample

/-- An executor of the four stores. -/
def executor : Executor where
  manifest := [.graphNone, .traceFsV1, .valkeyV1, .vectorNone]
  heartbeatSeconds := 20
  batchSize := 100
  stores := fun _ => some ⟨true, true, true, true, true⟩
  sha256 := id

/-- A lease on a request in some phase. -/
def leaseIn (phase : Phase) : Claim := ⟨⟨1⟩, ⟨2⟩, .project, phase, 1, ⟨3⟩, 0, 1⟩

/-- The ports answer with references of their own, refuse to complete the request or to record
a failure, and lose the lease while a reference is validated. -/
def answers (refs : List (UUID × PyStr)) : (c : PortCall) → Except ExecutorError c.Result
  | .now => .ok 0
  | .renew _ => .ok ()
  | .cryptoStep _ => .ok ⟨.cryptoErased, 0, 1, .ok⟩
  | .traceRefsBatch .. => .ok refs
  | .sealTraceManifest .. => .ok ()
  | .preparePrimary _ => .ok ⟨.externalPurged, 0, 1, .ok⟩
  | .primaryBatch .. => .ok ⟨0, 0, 1, []⟩
  | .externalWorkBatch .. => .ok []
  | .markExternalWork .. => .ok ()
  | .closeExternalStep .. => .ok ⟨.externalPurged, 0, 1, .ok⟩
  | .verifyAndComplete _ => .error .closureChanged
  | .fail .. => .error .tracebedError
  | .validateManifestRef .. => .error .leaseLost
  | .page _ => .ok false
  | .store _ => .ok (some ⟨.ok, 0, []⟩)

/-- The trace of the executor against these ports. -/
def trace (refs : List (UUID × PyStr)) (phase : Phase) : Trace :=
  traceOf executor 1 (leaseIn phase) (fun (_ : Unit) c => (answers refs c, ())) ()

/-- A report follows the completing call that raised; a report that raised is repeated; a report
follows the lost lease of a validation. -/
theorem calls_after_the_last :
    (∃ before c r e, trace [] .externalPurged = before ++ [event c r, e] ∧ c.isVerify = true) ∧
    (trace [] .verified).countP (·.1.isFail) = 2 ∧
    (∃ before c e, trace [(⟨4⟩, [])] .externalPurged =
      before ++ [event c (.error .leaseLost), e] ∧ e.1.isFail = true) := by
  refine ⟨⟨(trace [] .externalPurged).take 7, .verifyAndComplete (leaseIn .externalPurged),
    .error .closureChanged, event (.fail (leaseIn .externalPurged) .verify .retryable
      .closureChanged) (.error .tracebedError), ?_, rfl⟩, ?_,
    ⟨(trace [(⟨4⟩, [])] .externalPurged).take 4, .validateManifestRef ⟨1⟩ ⟨4⟩ [],
      event (.fail (leaseIn .externalPurged) .traceStore .blocked .unsafePath)
        (.error .tracebedError), ?_, rfl⟩⟩
  -- the arithmetic of the clock is irreducible
  all_goals with_unfolding_all rfl

end Sample

end Executor

end Tracebed.Erasure

/-! ### What is recorded of a moved closure -/

namespace Tracebed.Erasure

namespace Executor

variable (x : Executor) (fuel : ℕ) (lease : Claim) {σ : Type}
  (env : σ → (c : PortCall) → Except ExecutorError c.Result × σ) (s : σ)

namespace Sample

end Sample

end Executor

end Tracebed.Erasure
