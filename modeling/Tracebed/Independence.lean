import Tracebed.StateMachine

/-!
# Resolving Runs into Evidence

`workers/independence.py`: `build_confirmations` turns run ids into confirmations by
looking each one up in the trace index. It drops ids without a row, ids past the first
256 distinct ones, rows whose signature has the wrong length, and, unless told otherwise,
rows without a recorded signature. `independent_of` asks whether two confirmations are
independent, refusing when either signature is absent.
-/

open Py List

namespace Tracebed

/-- `ConfirmingRun`: the identity columns of one `trace_index` row. -/
structure ConfirmingRun where
  runId : RunId
  principalId : PrincipalId
  inputSignatureHash : Bytes

/-- `TracePrincipalLookupPort.lookup`. -/
abbrev Lookup := ProjectId → RunId → Option ConfirmingRun

/-- The lookup answers with the identity of the run it was asked for. -/
def Lookup.Honest (lookup : Lookup) : Prop :=
  ∀ project run found, lookup project run = some found → found.runId = run

/-- The first loop of `build_confirmations`: distinct ids in order of appearance, at most
`maxConfirmationsConsidered` of them. -/
def firstDistinct (deduped : List RunId) : List RunId → List RunId
  | [] => deduped
  | run :: rest =>
    if run ∈ deduped then firstDistinct deduped rest
    else if maxConfirmationsConsidered ≤ (deduped ++ [run]).length then deduped ++ [run]
    else firstDistinct (deduped ++ [run]) rest

/-- The second loop of `build_confirmations`; the error is the text of the
`TracebedError` for a lookup that answers for another run. -/
def resolveRuns (project : ProjectId) (lookup : Lookup) (includeAbsent : Bool) :
    List RunId → Except String (List ShadowConfirmation)
  | [] => .ok []
  | run :: rest =>
    match lookup project run with
    | none => resolveRuns project lookup includeAbsent rest
    | some found =>
      if found.runId ≠ run then
        .error ("TracePrincipalLookupPort.lookup(ProjectId(" ++ text project.value.str ++
          "), RunId(" ++ text run.value.str ++ ")) returned a ConfirmingRun for RunId(" ++
          text found.runId.value.str ++ ") instead")
      else
        match ShadowConfirmation.make found.runId found.principalId
            found.inputSignatureHash with
        | .error _ => resolveRuns project lookup includeAbsent rest
        | .ok c =>
          if !includeAbsent && isAbsentSignature c.inputSignatureHash.bytes then
            resolveRuns project lookup includeAbsent rest
          else do
            let others ← resolveRuns project lookup includeAbsent rest
            .ok (c :: others)

/-- `build_confirmations(project_id, run_ids, lookup, include_absent_signatures=...)`. -/
def buildConfirmations (project : ProjectId) (runs : List RunId) (lookup : Lookup)
    (includeAbsent : Bool) : Except String (List ShadowConfirmation) :=
  resolveRuns project lookup includeAbsent (firstDistinct [] runs)

/-- `independent_of(a, b)`. -/
def independentOf (a b : ShadowConfirmation) : Bool :=
  if isAbsentSignature a.inputSignatureHash.bytes ||
      isAbsentSignature b.inputSignatureHash.bytes then false
  else decide (2 ≤ independentConfirmations [a, b] (some 2))

/-! ### What the resolver keeps -/

/-- Only ids that were passed in are kept. -/
theorem mem_of_mem_firstDistinct {deduped runs : List RunId} {r : RunId}
    (h : r ∈ firstDistinct deduped runs) : r ∈ deduped ∨ r ∈ runs := by
  induction runs generalizing deduped with
  | nil => exact .inl h
  | cons run rest ih =>
    rw [firstDistinct] at h
    split_ifs at h with hseen hfull
    · rcases ih h with h | h
      · exact .inl h
      · exact .inr (mem_cons_of_mem _ h)
    · rcases mem_append.mp h with h | h
      · exact .inl h
      · exact .inr (mem_singleton.mp h ▸ mem_cons_self)
    · rcases ih h with h | h
      · rcases mem_append.mp h with h | h
        · exact .inl h
        · exact .inr (mem_singleton.mp h ▸ mem_cons_self)
      · exact .inr (mem_cons_of_mem _ h)

theorem firstDistinct_of_nodup {deduped runs : List RunId}
    (hlen : deduped.length < maxConfirmationsConsidered) (hnodup : (deduped ++ runs).Nodup) :
    firstDistinct deduped runs = (deduped ++ runs).take maxConfirmationsConsidered := by
  induction runs generalizing deduped with
  | nil =>
    rw [firstDistinct, append_nil, take_of_length_le hlen.le]
  | cons run rest ih =>
    have hfresh : run ∉ deduped := fun h =>
      (nodup_append.mp hnodup).2.2 run h run mem_cons_self rfl
    have hsplit : deduped ++ run :: rest = (deduped ++ [run]) ++ rest := by simp
    rw [firstDistinct]
    split_ifs with hfull
    · have hexact : (deduped ++ [run]).length = maxConfirmationsConsidered := by
        have : (deduped ++ [run]).length = deduped.length + 1 := by simp
        omega
      rw [hsplit, ← hexact, take_left]
    · rw [hsplit] at hnodup ⊢
      exact ih (not_le.mp hfull) hnodup

/-- The confirmation a looked-up row is turned into, if it is usable. -/
def ConfirmingRun.confirmation (includeAbsent : Bool) (found : ConfirmingRun) :
    Option ShadowConfirmation :=
  match Signature.ofBytes found.inputSignatureHash with
  | none => none
  | some sig =>
    if !includeAbsent && isAbsentSignature sig.bytes then none
    else some ⟨found.runId, found.principalId, sig⟩

variable {project : ProjectId} {lookup : Lookup}

/-- Against an honest lookup the second loop keeps what is usable and raises nothing. -/
theorem resolveRuns_eq (hlookup : lookup.Honest) (includeAbsent : Bool) (runs : List RunId) :
    resolveRuns project lookup includeAbsent runs = .ok (runs.filterMap fun r =>
        (lookup project r).bind (ConfirmingRun.confirmation includeAbsent)) := by
  induction runs with
  | nil => rfl
  | cons run rest ih =>
    rw [resolveRuns]
    cases hfound : lookup project run with
    | none => simp [hfound, ih]
    | some found =>
      have hrun := hlookup project run found hfound
      cases hsig : Signature.ofBytes found.inputSignatureHash with
      | none =>
        simp [hfound, hrun, ShadowConfirmation.make, ConfirmingRun.confirmation, hsig, ih]
      | some sig =>
        simp only [hrun, ShadowConfirmation.make]
        cases habs : (!includeAbsent && isAbsentSignature sig.bytes) with
        | true => simp [hfound, hsig, habs, ConfirmingRun.confirmation, ih]
        | false =>
          simp [hfound, hrun, hsig, habs, ConfirmingRun.confirmation, ih, bind, Except.bind]

/-- **What `build_confirmations` returns** against an honest lookup. -/
theorem buildConfirmations_eq (hlookup : lookup.Honest) (includeAbsent : Bool) (runs : List RunId) :
    buildConfirmations project runs lookup includeAbsent =
      .ok ((firstDistinct [] runs).filterMap fun r =>
        (lookup project r).bind (ConfirmingRun.confirmation includeAbsent)) :=
  resolveRuns_eq hlookup includeAbsent _

/-- A row gives a confirmation exactly when its signature has the right length and is
recorded, where that is asked for. -/
theorem ConfirmingRun.confirmation_eq_some {includeAbsent : Bool} {found : ConfirmingRun}
    {c : ShadowConfirmation} :
    found.confirmation includeAbsent = some c ↔
      c.runId = found.runId ∧ c.principalId = found.principalId ∧
      c.inputSignatureHash.bytes = found.inputSignatureHash ∧
      (includeAbsent = true ∨ isAbsentSignature found.inputSignatureHash = false) := by
  obtain ⟨run, principal, sig⟩ := c
  unfold ConfirmingRun.confirmation
  split
  next hnone =>
    have hlen := Signature.ofBytes_eq_none.mp hnone
    simp only [reduceCtorEq, false_iff, not_and]
    rintro - - heq
    exact absurd (heq ▸ sig.length_eq) hlen
  next sig' hsome =>
    have hbytes := Signature.ofBytes_eq_some.mp hsome
    obtain ⟨b', hb'⟩ := sig'
    obtain ⟨b, hb⟩ := sig
    subst hbytes
    cases includeAbsent <;> cases isAbsentSignature found.inputSignatureHash <;>
      simp [eq_comm]

/-! ### Independence of a pair -/

theorem independentConfirmations_pair (a b : ShadowConfirmation) :
    independentConfirmations [a, b] (some 2) = if Independent a b then 2 else 1 := by
  have hedge : compatibilityGraph [a, b] 0 1 = decide (Independent a b) := by
    simp [compatibilityGraph]
  have hsearch := Clique.search_pair (u := 0) (v := 1) (compatibilityGraph_comm [a, b])
    (compatibilityGraph_self [a, b]) (show 2 ≤ maxCliqueSearchSteps by decide)
  simp only [hedge, decide_eq_true_eq] at hsearch
  exact hsearch

/-- **`independent_of`** holds exactly of two independent confirmations with recorded
signatures. -/
theorem independentOf_iff {a b : ShadowConfirmation} :
    independentOf a b = true ↔ isAbsentSignature a.inputSignatureHash.bytes = false ∧
      isAbsentSignature b.inputSignatureHash.bytes = false ∧ Independent a b := by
  unfold independentOf
  rw [independentConfirmations_pair]
  by_cases h : Independent a b <;> simp [h]

end Tracebed
