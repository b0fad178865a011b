import Tracebed.ErasureExecutor

/-!
# A Logic of Runs

`Allowed` says after which history the executor may make a call, and `Settled` what is recorded
of a closure that a database call found moved. Each part of the executor is shown once to make no
other call and to stop as it should, whatever its ports answer; `run_spec` says it of a whole run.

A history is `Fresh` while no completion, no failure report and no lost lease is in it, and
`Unreported` if nothing but a last call that raised ended it. It is `Quiet` while no database call
raised a moved closure and no receipt was recorded. Every part of the `try` block keeps it so
until a call raises the moved closure, and then stops with the exception that the call's place
makes of it.
-/

open List hiding after
open Py Interaction Routine

namespace Tracebed.Erasure

/-! ### Reading a trace -/

/-- The calls of a run with their answers. -/
abbrev Trace := Interaction.Routine.History PortCall PortCall.Result ExecutorError

variable (h : Trace)

namespace PortCall

/-- The heartbeat: the clock, renewals, and the pages at which an operation asks for them. -/
def isHeartbeat : PortCall → Bool
  | now => true
  | renew _ => true
  | page _ => true
  | _ => false

/-- The completing call. -/
def isVerify : PortCall → Bool
  | verifyAndComplete _ => true
  | _ => false

def isFail : PortCall → Bool
  | fail .. => true
  | _ => false

def isValidate : PortCall → Bool
  | validateManifestRef .. => true
  | _ => false

/-- The store a call closes. -/
def closed? : PortCall → Option StoreCode
  | closeExternalStep _ code _ _ => some code
  | _ => none

/-- The calls that are allowed after every fresh history. -/
def isPlain : PortCall → Bool
  | markExternalWork .. => false
  | closeExternalStep .. => false
  | fail .. => false
  | verifyAndComplete _ => false
  | _ => true

/-- The calls of the database port. -/
def isDatabase : PortCall → Bool
  | now => false
  | validateManifestRef .. => false
  | page _ => false
  | store _ => false
  | _ => true

/-- What the call raises reaches the handlers of a run as it is. -/
def reachesHandlers : PortCall → Bool
  | renew _ => false
  | externalWorkBatch .. => false
  | markExternalWork .. => false
  | closeExternalStep .. => false
  | _ => true

end PortCall

/-- A call with its answer. -/
abbrev event (c : PortCall) (r : Except ExecutorError c.Result) :
    Event PortCall fun c => Except ExecutorError c.Result := ⟨c, r⟩

namespace Executor

/-- The calls beside the heartbeat. -/
def steps : Trace := h.filter fun e => !e.1.isHeartbeat

/-- The stores closed so far. -/
def closes : List StoreCode := h.filterMap fun e => e.1.closed?

/-- The completing call, a report of a failure, or a call that lost the lease. -/
def IsLast (e : Event PortCall fun c => Except ExecutorError c.Result) : Prop :=
  e.1.isVerify = true ∨ e.1.isFail = true ∨ e.2 = .error .leaseLost

/-- Nothing has ended the run yet. -/
def Fresh : Prop := ∀ e ∈ h, ¬ IsLast e

/-- No failure is recorded yet: nothing but the last call can have ended the run, and it raised.
A lost lease is reported only if the validation of a reference raised it. -/
def Unreported : Prop :=
  Fresh h ∨ ∃ front c err, h = front ++ [event c (.error err)] ∧ Fresh front ∧
    (err = .leaseLost → c.isValidate = true)

/-- The target of the work was deleted and then verified, with this result. -/
def Proved (project : UUID) (target : Target) (result : StoreProof) : Prop :=
  ∃ front code erased, steps h = front ++
    [event (.store (.erase code project target)) (.ok (some erased)),
      event (.store (.verifyAbsent code project target)) (.ok (some result))]

/-- The work of the store ran out and, unless the proofs of its targets suffice, the project
was then verified to be absent from it. -/
def Emptied (lease : Claim) (code : StoreCode) : Prop :=
  ∃ front limit, steps h = front ++ [event (.externalWorkBatch lease code limit) (.ok [])] ∧
      closesByTargets lease code = true ∨
    ∃ proof, steps h = front ++ [event (.externalWorkBatch lease code limit) (.ok []),
      event (.store (.verifyAbsent code lease.projectId .project)) (.ok (some proof))]

/-- After which history a call may be made. -/
def Allowed (manifest : List StoreCode) (h : Trace) : PortCall → Prop
  | .markExternalWork lease work result => Fresh h ∧ Proved h lease.projectId work.target result
  | .closeExternalStep lease code _ _ =>
    Fresh h ∧ Emptied h lease code ∧ closes h ++ [code] <+: manifest
  | .fail .. => Unreported h
  | _ => Fresh h

/-- The failure receipt a call records: a report that returns. -/
def receipt? : Event PortCall (fun c => Except ExecutorError c.Result) →
    Option (StepResult × ResultCode)
  | ⟨.fail _ _ result code, .ok _⟩ => some (result, code)
  | _ => none

/-- The failure receipts of a history. -/
def receipts : List (StepResult × ResultCode) := h.filterMap receipt?

/-- A database call that found the closure moved. -/
def Moved (e : Event PortCall fun c => Except ExecutorError c.Result) : Prop :=
  e.1.isDatabase = true ∧ e.2 = .error .closureChanged

/-- No database call found the closure moved. -/
def Calm : Prop := ∀ e ∈ h, ¬ Moved e

/-- No moved closure so far, and no receipt. -/
structure Quiet (h : Trace) : Prop where
  calm : Calm h
  unrecorded : receipts h = []

/-! ### Histories that grow -/

section Histories

variable {h h' : Trace} {c : PortCall} {r : Except ExecutorError c.Result} {e : ExecutorError}

theorem steps_append (h h' : Trace) : steps (h ++ h') = steps h ++ steps h' :=
  filter_append _ _

theorem closes_append (h h' : Trace) : closes (h ++ h') = closes h ++ closes h' :=
  filterMap_append

/-- A heartbeat goes unnoticed. -/
theorem steps_concat_heartbeat (hc : c.isHeartbeat = true) :
    steps (h ++ [event c r]) = steps h := by
  have hlast : steps [event c r] = [] := filter_cons_of_neg (by simp [hc])
  rw [steps_append, hlast, append_nil]

/-- Any other call is a step. -/
theorem steps_concat (hc : c.isHeartbeat = false) :
    steps (h ++ [event c r]) = steps h ++ [event c r] := by
  have hlast : steps [event c r] = [event c r] := filter_cons_of_pos (by simp [hc])
  rw [steps_append, hlast]

/-- Closing a store is no heartbeat. -/
theorem closes_steps (h : Trace) : closes (steps h) = closes h := by
  rw [steps, closes, filterMap_filter]
  refine filterMap_congr fun e _ => ?_
  obtain ⟨c, r⟩ := e
  cases c <;> rfl

/-- Histories with the same steps close the same stores. -/
theorem closes_of_steps (heq : steps h' = steps h) : closes h' = closes h := by
  rw [← closes_steps h', heq, closes_steps]

/-- A call that closes nothing. -/
theorem closes_concat (hc : c.closed? = none) : closes (h ++ [event c r]) = closes h := by
  have hlast : closes [event c r] = [] := filterMap_cons_none hc
  rw [closes_append, hlast, append_nil]

theorem Fresh.concat (hf : Fresh h) (hverify : c.isVerify = false) (hfail : c.isFail = false)
    (hr : r ≠ .error .leaseLost) : Fresh (h ++ [event c r]) := by
  rw [Fresh, forall_mem_append, forall_mem_singleton]
  exact ⟨hf, by simp [IsLast, hverify, hfail, hr]⟩

theorem fresh_nil : Fresh [] := fun _ he => absurd he not_mem_nil

/-- After a call that raised no lost lease, a report may be due. -/
theorem Fresh.unreported_concat (hf : Fresh h) (he : e ≠ .leaseLost) :
    Unreported (h ++ [event c (.error e)]) :=
  .inr ⟨h, c, e, rfl, hf, fun h => absurd h he⟩

theorem isPlain_eq (hc : c.isPlain = true) :
    c.isVerify = false ∧ c.isFail = false ∧ c.closed? = none := by
  cases c <;> first | exact ⟨rfl, rfl, rfl⟩ | cases hc

theorem receipts_append (h h' : Trace) : receipts (h ++ h') = receipts h ++ receipts h' :=
  filterMap_append

@[simp] theorem receipt?_error : receipt? (event c (.error e)) = none := by
  cases c <;> rfl

theorem receipts_concat_error : receipts (h ++ [event c (.error e)]) = receipts h := by
  simp [receipts]

theorem calm_concat {e : Event PortCall fun c => Except ExecutorError c.Result} (hc : Calm h)
    (he : ¬ Moved e) : Calm (h ++ [e]) := by
  rw [Calm, forall_mem_append, forall_mem_singleton]
  exact ⟨hc, he⟩

variable {a : c.Result}

theorem not_moved_ok : ¬ Moved (event c (.ok a)) := fun h => nomatch h.2

theorem quiet_nil : Quiet [] := ⟨fun _ he => (not_mem_nil he).elim, rfl⟩

theorem Quiet.concat_ok (hq : Quiet h) (hfail : c.isFail = false) :
    Quiet (h ++ [event c (.ok a)]) where
  calm := calm_concat hq.calm not_moved_ok
  unrecorded := by
    have hnone : receipts [event c (.ok a)] = [] := by cases c <;> first | rfl | cases hfail
    rw [receipts_append, hq.unrecorded, hnone, append_nil]

theorem Quiet.concat_error (hq : Quiet h) (he : ¬ Moved (event c (.error e))) :
    Quiet (h ++ [event c (.error e)]) :=
  ⟨calm_concat hq.calm he, receipts_concat_error.trans hq.unrecorded⟩

/-- A moved closure before the last event of a history that was calm before is the one but
last. -/
theorem eq_of_moved {e m f : Event PortCall fun c => Except ExecutorError c.Result}
    (hc : Calm front) (hm : Moved e) (hf : ¬ Moved f)
    (heq : front ++ [m, f] = before ++ e :: after) : e = m ∧ after = [f] := by
  obtain ⟨mid, rfl, htail⟩ | ⟨mid, rfl, htail⟩ := append_eq_append_iff.mp heq
  · match mid with
    | [] => exact ⟨(cons.inj htail).1.symm, (cons.inj htail).2.symm⟩
    | [_] => exact absurd hm ((cons.inj (cons.inj htail).2).1 ▸ hf)
    | _ :: _ :: _ => exact absurd (congrArg length htail) (by simp)
  · match mid with
    | [] => exact ⟨(cons.inj htail).1, (cons.inj htail).2⟩
    | _ :: _ =>
      obtain ⟨rfl, -⟩ := cons.inj htail
      exact absurd hm (hc _ (mem_append_right _ mem_cons_self))

end Histories

/-! ### Parts of a run -/

/-- What is raised for a moved closure, by the call that found it. A renewal that finds it is a
lost lease everywhere. -/
structure Channel where
  raises : PortCall → ExecutorError → Prop
  renew : ∀ lease, raises (.renew lease) .leaseLost

/-- In the `try` block: the moved closure is raised as it is, or as something else. -/
def outward : Channel where
  raises := fun c e => c.reachesHandlers = true ↔ e = .closureChanged
  renew := by simp [PortCall.reachesHandlers]

/-- In the external pass: whatever is raised will be raised as something else. -/
def inward : Channel := ⟨fun c _ => c.reachesHandlers = false, fun _ => rfl⟩

/-- The last call found the closure moved, and this is raised for it. -/
def Signalled (M : Channel) (e : ExecutorError) (h : Trace) : Prop :=
  ∃ front c, h = front ++ [event c (.error .closureChanged)] ∧ c.isDatabase = true ∧
    Quiet front ∧ M.raises c e

/-- Nothing has ended the run yet, and there was nothing to record. -/
structure Going (h : Trace) : Prop extends Quiet h where
  fresh : Fresh h

variable {e : ExecutorError}

section Parts

variable {α β : Type} {manifest : List StoreCode} {M M' : Channel} {l : Locals} {h : Trace}
  {c : PortCall}

/-- A call that raises leaves the history quiet, unless it found the closure moved. -/
theorem Quiet.signals (hq : Quiet h) (hM : c.isDatabase = true → M.raises c .closureChanged) :
    Quiet (h ++ [event c (.error e)]) ∨ Signalled M e (h ++ [event c (.error e)]) := by
  by_cases hmoved : Moved (event c (.error e))
  · obtain ⟨hdb, he⟩ := hmoved
    obtain rfl : e = .closureChanged := Except.error.inj he
    exact .inr ⟨h, c, rfl, hdb, hq, hM hdb⟩
  · exact .inl (hq.concat_error hmoved)

/-- A part of a run that returns has left it going; one that raises has left it unreported, unless
the lease is lost, and quiet, unless its last call found the closure moved. -/
def Ends (M : Channel) (Q : α → Trace → Prop) (r : Except ExecutorError α) (_ : Locals)
    (h : Trace) : Prop :=
  match r with
  | .ok a => Going h ∧ Q a h
  | .error e => (e ≠ .leaseLost → Unreported h) ∧ (Quiet h ∨ Signalled M e h)

/-- The calls of a part are allowed, and it ends as it should. -/
abbrev Spec (manifest : List StoreCode) (M : Channel) (p : Exec α) (l : Locals) (h : Trace)
    (Q : α → Trace → Prop) : Prop :=
  wp (Allowed manifest) Calm p l h (Ends M Q)

variable {Q : α → Trace → Prop} {p : Exec α} {R : β → Trace → Prop}

theorem Spec.ret {a : α} (hg : Going h) (hq : Q a h) : Spec manifest M (pure a) l h Q := ⟨hg, hq⟩

theorem Spec.raise (hg : Going h) : Spec manifest M (throw e) l h Q :=
  ⟨fun _ => .inl hg.fresh, .inl hg.toQuiet⟩

variable {f : α → Exec β}

theorem Spec.bind (hp : Spec manifest M p l h Q)
    (hf : ∀ a l h, Going h → Q a h → Spec manifest M (f a) l h R) :
    Spec manifest M (p >>= f) l h R := by
  rw [Spec, wp_bind]
  refine wp_mono hp fun r l h hr => ?_
  match r with
  | .ok a => exact hf a l h hr.1 hr.2
  | .error e => exact hr

theorem Spec.mono {R : α → Trace → Prop} (hp : Spec manifest M p l h Q)
    (hQ : ∀ a h, Q a h → R a h) : Spec manifest M p l h R := by
  refine wp_mono hp fun r l h hr => ?_
  match r with
  | .ok a => exact ⟨hr.1, hQ a h hr.2⟩
  | .error e => exact hr

theorem Spec.read {f : Locals → Exec β} (hr : Spec manifest M (f l) l h R) :
    Spec manifest M (get >>= f) l h R := by
  exact hr

/-- Another exception in place of the one that was raised. -/
theorem Spec.rethrow {g : ExecutorError → ExecutorError} (hp : Spec manifest M p l h Q)
    (hg : g .leaseLost = .leaseLost) (hM : ∀ c e, M.raises c e → M'.raises c (g e)) :
    Spec manifest M' (tryCatch p fun e => throw (g e)) l h Q := by
  rw [Spec, wp_tryCatch]
  refine wp_mono hp fun r l h hr => ?_
  match r with
  | .ok a => exact hr
  | .error e => exact ⟨fun hne => hr.1 fun he => hne (he ▸ hg), hr.2.imp_right
      fun ⟨front, c, heq, hdb, hq, hm⟩ => ⟨front, c, heq, hdb, hq, hM c e hm⟩⟩

/-- A call that is allowed here and raises no lost lease. -/
theorem Spec.granted (hverify : c.isVerify = false) (hfail : c.isFail = false)
    (hM : c.isDatabase = true → M.raises c .closureChanged) (hg : Going h)
    (hc : Allowed manifest h c) :
    Spec manifest M (ask c) l h fun a h' => h' = h ++ [event c (.ok a)] := by
  refine ⟨hc, fun r => ?_⟩
  match r with
  | .ok a =>
    exact ⟨⟨hg.toQuiet.concat_ok hfail, hg.fresh.concat hverify hfail nofun⟩, rfl⟩
  | .error e => exact ⟨hg.fresh.unreported_concat, hg.toQuiet.signals hM⟩

/-- A plain call. -/
theorem Spec.call (hc : c.isPlain = true) (hM : c.isDatabase = true → M.raises c .closureChanged)
    (hg : Going h) : Spec manifest M (ask c) l h fun a h' => h' = h ++ [event c (.ok a)] := by
  obtain ⟨hverify, hfail, -⟩ := isPlain_eq hc
  refine Spec.granted hverify hfail hM hg ?_
  cases c <;> first | exact hg.fresh | cases hc

/-- A plain call that is none of the database's. -/
theorem Spec.foreign (hc : c.isPlain = true) (hdb : c.isDatabase = false) (hg : Going h) :
    Spec manifest M (ask c) l h fun a h' => h' = h ++ [event c (.ok a)] :=
  .call hc (fun h => absurd (hdb.symm.trans h) (by decide)) hg

variable {body : α → Exec (α ⊕ β)}

/-- A loop whose body closes nothing; its last pass leaves `P`. -/
theorem Spec.loop {P : Trace → Prop}
    (hbody : ∀ a l h, Going h → Spec manifest M (body a) l h fun r h' =>
      closes h' = closes h ∧ ∀ b, r = .inr b → P h') (fuel : ℕ) {a : α} (hg : Going h) :
    Spec manifest M (loop fuel body a) l h fun _ h' => closes h' = closes h ∧ P h' := by
  refine wp_loop (I := fun _ _ h' => Going h' ∧ closes h' = closes h) (fun _ _ _ hg => hg.1.calm)
    ?_ fuel ⟨hg, rfl⟩
  rintro a l₁ h₁ ⟨hg₁, heq₁⟩
  refine wp_mono (hbody a l₁ h₁ hg₁) fun r l₂ h₂ hr => ?_
  match r with
  | .ok (.inl _) => exact ⟨hr.1, hr.2.1.trans heq₁⟩
  | .ok (.inr b) => exact ⟨hr.1, hr.2.1.trans heq₁, hr.2.2 b rfl⟩
  | .error e => exact hr

/-- A part that closes no store. -/
def Keeps (manifest : List StoreCode) (M : Channel) (p : Exec α) : Prop :=
  ∀ l h, Going h → Spec manifest M p l h fun _ h' => closes h' = closes h

theorem Keeps.ret (a : α) : Keeps manifest M (pure a) := fun _ _ hg => ⟨hg, rfl⟩

theorem Keeps.raise (e : ExecutorError) : Keeps manifest M (throw e : Exec α) := fun _ _ hg =>
  .raise hg

theorem Keeps.read : Keeps manifest M (get : Exec Locals) := fun _ _ hg => ⟨hg, rfl⟩

theorem Keeps.write (f : Locals → Locals) : Keeps manifest M (modify f : Exec PUnit) :=
  fun _ _ hg => ⟨hg, rfl⟩

theorem Keeps.bind (hp : Keeps manifest M p) (hf : ∀ a, Keeps manifest M (f a)) :
    Keeps manifest M (p >>= f) := fun l h hg =>
  (hp l h hg).bind fun a l' h' hg' heq => (hf a l' h' hg').mono fun _ _ heq' => heq'.trans heq

theorem Keeps.call (hc : c.isPlain = true)
    (hM : c.isDatabase = true → M.raises c .closureChanged) : Keeps manifest M (ask c) :=
  fun _ _ hg => (Spec.call hc hM hg).mono fun _ _ heq => heq ▸ closes_concat (isPlain_eq hc).2.2

/-- A call of the database whose exceptions reach the handlers. -/
theorem Keeps.outward (hc : c.isPlain = true) (hreaches : c.reachesHandlers = true) :
    Keeps manifest outward (ask c) :=
  .call hc fun _ => iff_of_true hreaches rfl

theorem Keeps.loop (hbody : ∀ a, Keeps manifest M (body a)) (fuel : ℕ) (a : α) :
    Keeps manifest M (loop fuel body a) := fun _ _ hg =>
  (Spec.loop (P := fun _ => True) (fun a l h hg => (hbody a l h hg).mono
    fun _ _ heq => ⟨heq, fun _ _ => trivial⟩) fuel hg).mono fun _ _ h => h.1

theorem Keeps.foldlM {f : β → α → Exec β} (hf : ∀ b a, Keeps manifest M (f b a)) (xs : List α)
    (b : β) : Keeps manifest M (xs.foldlM f b) := by
  intro l h hg
  refine wp_foldlM (I := fun _ _ _ h' => Going h' ∧ closes h' = closes h) ?_ (fun _ _ _ h => h)
    ⟨hg, rfl⟩
  rintro b a rest l₁ h₁ ⟨hg₁, heq₁⟩
  refine wp_mono (hf b a l₁ h₁ hg₁) fun r l₂ h₂ hr => ?_
  match r with
  | .ok _ => exact ⟨hr.1, hr.2.trans heq₁⟩
  | .error e => exact hr

end Parts

/-! ### The executor -/

variable {x : Executor} {fuel : ℕ} {held lease : Claim} {manifest : List StoreCode} {M : Channel}
  {l : Locals} {h : Trace}

theorem schedule_spec (hg : Going h) :
    Spec manifest M x.schedule l h fun _ h' => steps h' = steps h := by
  refine (Spec.foreign rfl rfl hg).bind fun now l' h' hg' heq => ?_
  subst heq
  exact ⟨hg', steps_concat_heartbeat rfl⟩

/-- Whatever a renewal raises, unless it is no domain error, becomes a lost lease. -/
theorem renew_spec (hg : Going h) :
    Spec manifest M (tryCatch (ask (.renew held)) fun e => throw (lostLease e)) l h
      fun _ h' => steps h' = steps h := by
  refine ⟨hg.fresh, fun r => ?_⟩
  match r with
  | .ok a =>
    exact ⟨⟨hg.toQuiet.concat_ok rfl, hg.fresh.concat rfl rfl nofun⟩, steps_concat_heartbeat rfl⟩
  | .error e =>
    refine ⟨fun hne => hg.fresh.unreported_concat fun he => hne (congrArg lostLease he), ?_⟩
    by_cases hmoved : Moved (event (.renew held) (.error e))
    · obtain rfl : e = .closureChanged := Except.error.inj hmoved.2
      exact .inr ⟨h, _, rfl, rfl, hg.toQuiet, M.renew held⟩
    · exact .inl (hg.toQuiet.concat_error hmoved)

theorem beforeSideEffect_spec (hg : Going h) :
    Spec manifest M (x.beforeSideEffect held) l h fun _ h' => steps h' = steps h := by
  refine (Spec.foreign rfl rfl hg).bind fun now l₁ h₁ hg₁ heq₁ => ?_
  subst heq₁
  refine Spec.read ?_
  split
  · exact ⟨hg₁, steps_concat_heartbeat rfl⟩
  · refine (renew_spec hg₁).bind fun _ l₂ h₂ hg₂ heq₂ => ?_
    refine (schedule_spec hg₂).mono fun _ h₃ heq₃ => ?_
    rw [heq₃, heq₂, steps_concat_heartbeat rfl]

theorem beforeSideEffect_keeps : Keeps manifest M (x.beforeSideEffect held) := fun _ _ hg =>
  (beforeSideEffect_spec hg).mono fun _ _ => closes_of_steps

theorem callStore_spec (op : StoreOp) (hg : Going h) :
    Spec manifest M (x.callStore fuel held op) l h fun a h' =>
      steps h' = steps h ++ [event (.store op) (.ok a)] := by
  refine wp_loop (I := fun _ _ h' => Going h' ∧ steps h' = steps h) (fun _ _ _ hg => hg.1.calm) ?_
    fuel ⟨hg, rfl⟩
  rintro ⟨⟩ l₁ h₁ ⟨hg₁, heq₁⟩
  refine wp_mono (Q := Ends M fun (r : Unit ⊕ Option StoreProof) h' => match r with
    | .inl _ => steps h' = steps h
    | .inr a => steps h' = steps h ++ [event (.store op) (.ok a)]) ?_ fun r l₂ h₂ hr => ?_
  · refine (Spec.foreign rfl rfl hg₁).bind fun asks l₂ h₂ hg₂ heq₂ => ?_
    subst heq₂
    have hsame : steps (h₁ ++ [event (.page op) (.ok asks)]) = steps h :=
      (steps_concat_heartbeat rfl).trans heq₁
    split
    · refine (beforeSideEffect_spec hg₂).bind fun _ l₃ h₃ hg₃ heq₃ => ?_
      exact .ret hg₃ (heq₃.trans hsame)
    · refine (Spec.foreign rfl rfl hg₂).bind fun result l₃ h₃ hg₃ heq₃ => ?_
      subst heq₃
      exact .ret hg₃ ((steps_concat rfl).trans (congrArg (· ++ _) hsame))
  · match r with
    | .ok (.inl _) => exact hr
    | .ok (.inr a) => exact hr
    | .error e => exact hr

theorem storeResult_spec (op : StoreOp) (hg : Going h) :
    Spec manifest M (x.storeResult fuel held op) l h fun a h' =>
      steps h' = steps h ++ [event (.store op) (.ok (some a))] := by
  refine (callStore_spec op hg).bind fun result l₁ h₁ hg₁ heq₁ => ?_
  match result with
  | some result => exact .ret hg₁ heq₁
  | none => exact .raise hg₁

theorem deleteAndVerify_spec (port : StorePort) (project : UUID) (code : StoreCode)
    (target : Target) (hg : Going h) :
    Spec manifest M (x.deleteAndVerify fuel held port project code target) l h fun result h' =>
      ∃ erased, steps h' = steps h ++
        [event (.store (.erase code project target)) (.ok (some erased)),
          event (.store (.verifyAbsent code project target)) (.ok (some result))] := by
  rw [deleteAndVerify]
  split
  · refine (storeResult_spec _ hg).bind fun erased l₁ h₁ hg₁ heq₁ => ?_
    refine (beforeSideEffect_spec hg₁).bind fun _ l₂ h₂ hg₂ heq₂ => ?_
    refine (storeResult_spec _ hg₂).mono fun result h₃ heq₃ => ⟨erased, ?_⟩
    rw [heq₃, heq₂, heq₁, append_assoc]
    rfl
  · exact .raise hg

/-- Whatever a validation raises becomes a block. -/
theorem validate_keeps (ref : UUID × PyStr) :
    Keeps manifest M (tryCatch (ask (.validateManifestRef lease.projectId ref.1 ref.2)) fun _ =>
      throw (.operatorBlocked (some .unsafePath))) := by
  intro l h hg
  refine ⟨hg.fresh, fun r => ?_⟩
  match r with
  | .ok frame =>
    exact ⟨⟨hg.toQuiet.concat_ok rfl, hg.fresh.concat rfl rfl nofun⟩, closes_concat rfl⟩
  | .error e => exact ⟨fun _ => .inr ⟨h, _, e, rfl, hg.fresh, fun _ => rfl⟩,
      .inl (hg.toQuiet.concat_error fun hm => nomatch hm.1)⟩

theorem sealRef_keeps (s : SealState) (ref : UUID × PyStr) :
    Keeps manifest M (x.sealRef held lease s ref) := by
  refine beforeSideEffect_keeps.bind fun _ => (validate_keeps ref).bind fun frame => ?_
  split
  · exact .raise _
  · exact .ret _

theorem sealTraceManifest_keeps : Keeps manifest outward (x.sealTraceManifest fuel held lease) := by
  rw [sealTraceManifest]
  split
  · refine (Keeps.loop (fun s => ?_) fuel _).bind fun s => .outward rfl rfl
    refine beforeSideEffect_keeps.bind fun _ => (Keeps.outward rfl rfl).bind fun refs => ?_
    split
    · exact .ret _
    · refine (Keeps.foldlM sealRef_keeps refs s).bind fun s => ?_
      split
      · exact .ret _
      · exact .ret _
  · exact .raise _

/-! ### The external pass -/

variable (code : StoreCode)

theorem eraseWork_keeps (port : StorePort) (s : StoreState) (work : WorkItem) :
    Keeps manifest inward (x.eraseWork fuel held lease code port s work) := by
  refine beforeSideEffect_keeps.bind fun _ l₁ h₁ hg₁ => ?_
  refine (deleteAndVerify_spec port lease.projectId code work.target hg₁).bind
    fun result l₂ h₂ hg₂ heq₂ => ?_
  refine (beforeSideEffect_spec hg₂).bind fun _ l₃ h₃ hg₃ heq₃ => ?_
  obtain ⟨erased, heq₂⟩ := heq₂
  have hproved : Proved h₃ lease.projectId work.target result :=
    ⟨steps h₁, code, erased, heq₃.trans heq₂⟩
  have hsame : closes h₃ = closes h₁ := by
    rw [closes_of_steps heq₃, ← closes_steps, heq₂, closes_append, closes_steps]
    exact append_nil _
  have hallowed : Allowed manifest h₃ (.markExternalWork lease work result) :=
    ⟨hg₃.fresh, hproved⟩
  refine (Spec.granted rfl rfl (fun _ => rfl) hg₃ hallowed).bind fun _ l₄ h₄ hg₄ heq₄ => ?_
  refine .ret hg₄ ?_
  rw [heq₄, closes_concat rfl, hsame]

theorem eraseBatch_spec (port : StorePort) (s : StoreState) (hg : Going h) :
    Spec manifest inward (x.eraseBatch fuel held lease code port s) l h fun r h' =>
      closes h' = closes h ∧ ∀ s', r = .inr s' → ∃ front, steps h' = front ++
        [event (.externalWorkBatch lease code x.batchSize) (.ok [])] := by
  refine (beforeSideEffect_spec hg).bind fun _ l₁ h₁ hg₁ heq₁ => ?_
  refine (Spec.call rfl (fun _ => rfl) hg₁).bind fun batch l₂ h₂ hg₂ heq₂ => ?_
  have hsame : closes h₂ = closes h := by
    rw [heq₂, closes_concat rfl, closes_of_steps heq₁]
  split
  · next hempty =>
    refine .ret hg₂ ⟨hsame, fun _ _ => ⟨steps h₁, ?_⟩⟩
    rw [heq₂, steps_concat rfl, isEmpty_iff.mp hempty]
  · refine (Keeps.foldlM (eraseWork_keeps code port) batch s l₂ h₂ hg₂).bind
      fun s' l₃ h₃ hg₃ heq₃ => ?_
    exact .ret hg₃ ⟨heq₃.trans hsame, nofun⟩

variable {front : Trace}

theorem closeProof_spec (port : StorePort) (aggregate : Digest) (hg : Going h) {limit : ℕ}
    (hbatch : steps h = front ++ [event (.externalWorkBatch lease code limit) (.ok [])]) :
    Spec manifest M (x.closeProof fuel held lease code port aggregate) l h fun _ h' =>
      closes h' = closes h ∧ Emptied h' lease code := by
  rw [closeProof]
  split
  · next hclose => exact .ret hg ⟨rfl, front, limit, .inl ⟨hbatch, hclose⟩⟩
  · rw [verifyProjectZero]
    split
    · refine (storeResult_spec _ hg).mono fun proof h' heq => ⟨?_, front, limit, .inr ⟨proof, ?_⟩⟩
      · rw [← closes_steps, heq, closes_append, closes_steps]
        exact append_nil _
      · rw [heq, hbatch, append_assoc]
        rfl
    · exact .raise hg

theorem eraseStore_spec (port : StorePort) (hg : Going h)
    (hnext : closes h ++ [code] <+: manifest) :
    Spec manifest inward (x.eraseStore fuel held lease code port) l h fun _ h' =>
      closes h' = closes h ++ [code] := by
  refine (Spec.loop (fun s l₁ h₁ hg₁ => eraseBatch_spec code port s hg₁) fuel hg).bind
    fun s l₁ h₁ hg₁ heq₁ => ?_
  obtain ⟨hsame₁, front, hbatch⟩ := heq₁
  refine (beforeSideEffect_spec hg₁).bind fun _ l₂ h₂ hg₂ heq₂ => ?_
  refine (closeProof_spec code port s.aggregate hg₂ (heq₂.trans hbatch)).bind
    fun proof l₃ h₃ hg₃ heq₃ => ?_
  have hsame : closes h₃ = closes h := by
    rw [heq₃.1, closes_of_steps heq₂, hsame₁]
  have hallowed : ∀ count result, Allowed manifest h₃
      (.closeExternalStep lease code count result) :=
    fun _ _ => ⟨hg₃.fresh, heq₃.2, hsame ▸ hnext⟩
  refine (Spec.granted rfl rfl (fun _ => rfl) hg₃ (hallowed _ _)).mono fun _ h₄ heq₄ => ?_
  rw [heq₄, closes_append, hsame]
  rfl

theorem wrapped_ne_closureChanged (e : ExecutorError) : wrapped e ≠ .closureChanged := by
  cases e <;> nofun

theorem runExternalStore_spec (hg : Going h) (hnext : closes h ++ [code] <+: manifest) :
    Spec manifest outward (x.runExternalStore fuel held lease code) l h fun _ h' =>
      closes h' = closes h ++ [code] := by
  rw [runExternalStore]
  split
  · exact .raise hg
  · refine (eraseStore_spec code _ hg hnext).rethrow rfl fun c e hm => ?_
    exact iff_of_false (Bool.eq_false_iff.mp hm) (wrapped_ne_closureChanged e)

/-! ### The run -/

theorem atRevision_keeps (revision : ℕ) (phase : Phase) :
    Keeps manifest M (atRevision revision phase) := by
  cases phase <;> first | exact .write _ | exact .raise _

theorem runCrypto_keeps : Keeps manifest outward runCrypto := by
  refine Keeps.read.bind fun l => ?_
  split
  · exact (Keeps.write _).bind fun _ => (Keeps.outward rfl rfl).bind fun outcome =>
      atRevision_keeps _ _
  · exact .ret _

theorem purgeOnce_keeps (finished : Bool) : Keeps manifest outward (x.purgeOnce held finished) := by
  refine (Keeps.write _).bind fun _ => beforeSideEffect_keeps.bind fun _ => ?_
  refine Keeps.read.bind fun l => (Keeps.outward rfl rfl).bind fun batch => ?_
  split
  · exact (atRevision_keeps _ _).bind fun _ => .ret _
  · exact (atRevision_keeps _ _).bind fun _ => .ret _

theorem runPrimary_keeps : Keeps manifest outward (x.runPrimary fuel held) := by
  refine Keeps.read.bind fun l => ?_
  split
  · refine (Keeps.write _).bind fun _ => sealTraceManifest_keeps.bind fun _ => ?_
    refine (Keeps.write _).bind fun _ => (Keeps.outward rfl rfl).bind fun outcome => ?_
    refine (atRevision_keeps _ _).bind fun _ => Keeps.read.bind fun prepared => ?_
    exact Keeps.loop (fun _ => purgeOnce_keeps _) fuel ()
  · exact .ret _

theorem runStore_spec (hg : Going h) (hnext : closes h ++ [code] <+: manifest) :
    Spec manifest outward (x.runStore fuel held code) l h fun _ h' =>
      closes h' = closes h ++ [code] := by
  refine (beforeSideEffect_keeps _ _ hg).bind fun _ l₁ h₁ hg₁ hsame => Spec.read ?_
  refine (runExternalStore_spec code hg₁ (hsame ▸ hnext)).bind fun outcome l₂ h₂ hg₂ heq₂ => ?_
  refine (atRevision_keeps _ _ _ _ hg₂).mono fun _ h₃ heq₃ => ?_
  rw [heq₃, heq₂, hsame]

/-- The stores are closed one after the other, as the manifest has them. -/
theorem runStores_spec (hg : Going h) (hnone : closes h = []) :
    Spec x.manifest outward (x.runStores fuel held) l h fun _ h' => closes h' <+: x.manifest := by
  refine Spec.read ?_
  split
  · refine wp_forM (I := fun rest _ h' => Going h' ∧ closes h' ++ rest = x.manifest) ?_ ?_
      ⟨hg, by rw [hnone, nil_append]⟩
    · rintro code rest l₁ h₁ ⟨hg₁, heq₁⟩
      have hnext : closes h₁ ++ [code] <+: x.manifest :=
        ⟨rest, by rw [append_assoc, singleton_append, heq₁]⟩
      refine wp_mono (runStore_spec code hg₁ hnext) fun r l₂ h₂ hr => ?_
      match r with
      | .ok _ =>
        refine ⟨hr.1, ?_⟩
        rw [hr.2, append_assoc, singleton_append, heq₁]
      | .error e => exact hr
    · rintro l₁ h₁ ⟨hg₁, heq₁⟩
      exact ⟨hg₁, [], heq₁⟩
  · exact .ret hg (hnone ▸ nil_prefix)

/-- What is known when the `try` block is left. Its error is unreported, unless the lease is
lost; its last part may have recorded a receipt of its own, and then gives up its lease. -/
def Leaves (r : Except ExecutorError StepOutcome) (_ : Locals) (h : Trace) : Prop :=
  match r with
  | .ok _ => Calm h
  | .error e => (e ≠ .leaseLost → Unreported h) ∧
      (Quiet h ∨ Signalled outward e h ∨ e = .leaseLost ∧ Calm h)

/-- A part of the `try` block followed by the rest of it. -/
theorem Spec.bind_leaves {α : Type} {p : Exec α} {f : α → Exec StepOutcome}
    {Q : α → Trace → Prop} (hp : Spec manifest outward p l h Q)
    (hf : ∀ a l h, Going h → Q a h → wp (Allowed manifest) Calm (f a) l h Leaves) :
    wp (Allowed manifest) Calm (p >>= f) l h Leaves := by
  rw [wp_bind]
  refine wp_mono hp fun r l h hr => ?_
  match r with
  | .ok a => exact hf a l h hr.1 hr.2
  | .error e => exact ⟨hr.1, hr.2.imp_right .inl⟩

variable {c : PortCall}

/-- An exception of the last part's call. -/
theorem Going.leaves_error (hg : Going h) (l : Locals) (hc : c.reachesHandlers = true) :
    Leaves (.error e) l (h ++ [event c (.error e)]) :=
  ⟨hg.fresh.unreported_concat, (hg.toQuiet.signals fun _ => iff_of_true hc rfl).imp_right .inl⟩

/-- The last part of a run completes it or reports, and leaves its own error unreported. -/
theorem finish_spec (hg : Going h) : wp (Allowed manifest) Calm finish l h Leaves := by
  rw [finish, wp_bind]
  simp only [wp_get]
  split
  · refine ⟨hg.fresh, fun r => ?_⟩
    cases r with
    | ok _ => exact calm_concat hg.calm not_moved_ok
    | error e => exact hg.leaves_error l rfl
  · split
    · exact hg.calm
    · refine ⟨.inl hg.fresh, fun r => ?_⟩
      cases r with
      | ok _ => exact ⟨fun hne => absurd rfl hne,
          .inr (.inr ⟨rfl, calm_concat hg.calm not_moved_ok⟩)⟩
      | error e => exact hg.leaves_error l rfl

theorem body_spec (hg : Going h) (hnone : closes h = []) :
    wp (Allowed x.manifest) Calm (x.body fuel held) l h Leaves := by
  refine (runCrypto_keeps _ _ hg).bind_leaves fun _ l₁ h₁ hg₁ heq₁ => ?_
  refine (runPrimary_keeps _ _ hg₁).bind_leaves fun _ l₂ h₂ hg₂ heq₂ => ?_
  have hnone₂ : closes h₂ = [] := heq₂.trans (heq₁.trans hnone)
  exact (runStores_spec hg₂ hnone₂).bind_leaves fun _ l₃ h₃ hg₃ _ => finish_spec hg₃

/-! ### What is recorded of a moved closure -/

variable {r : Except ExecutorError StepOutcome}

/-- A run that found the closure moved raises that and records it once, exactly if the call's
exceptions reach the handlers and a report after it returned. -/
def Settled (r : Except ExecutorError StepOutcome) (h : Trace) : Prop :=
  ∀ before c after, c.isDatabase = true →
    h = before ++ event c (.error .closureChanged) :: after →
      (r = .error .closureChanged ∧ receipts h = [(.retryable, .closureChanged)] ↔
        c.reachesHandlers = true ∧
          ∃ lease step result code, event (.fail lease step result code) (.ok ()) ∈ after)

theorem settled_of_calm (hc : Calm h) : Settled r h := by
  rintro before c after hdb rfl
  exact absurd ⟨hdb, rfl⟩ (hc _ (mem_append_right _ mem_cons_self))

theorem settled_of_receipts_eq_nil (hr : receipts h = []) : Settled r h := by
  intro before c after _ heq
  refine iff_of_false (fun ⟨_, hone⟩ => nomatch hr.symm.trans hone) ?_
  rintro ⟨-, lease, step, result, code, hmem⟩
  have hnone := filterMap_eq_nil_iff.mp hr (event (.fail lease step result code) (.ok ()))
    (heq ▸ mem_append_right _ (mem_cons_of_mem _ hmem))
  cases hnone

/-- A report that returned, right after the call that found the closure moved. -/
theorem settled_of_report {lease : Claim} {step : StepCode} {result : StepResult}
    {code : ResultCode} (hq : Quiet front) (hm : outward.raises c e)
    (hreport : report e = some (result, code)) :
    Settled (.error e) (front ++ [event c (.error .closureChanged)] ++
      [event (.fail lease step result code) (.ok ())]) := by
  intro before c' after hdb heq
  rw [append_assoc] at heq
  obtain ⟨hc, rfl⟩ := eq_of_moved hq.calm ⟨hdb, rfl⟩ not_moved_ok heq
  obtain rfl : c' = c := congrArg Sigma.fst hc
  have hone : receipts (front ++ [event c' (.error .closureChanged)] ++
      [event (.fail lease step result code) (.ok ())]) = [(result, code)] := by
    rw [receipts_append, receipts_concat_error, hq.unrecorded]
    rfl
  rw [hone]
  constructor
  · rintro ⟨he, -⟩
    exact ⟨hm.mpr (Except.error.inj he), lease, step, result, code, mem_singleton_self _⟩
  · rintro ⟨hreaches, -⟩
    obtain rfl := hm.mp hreaches
    exact ⟨rfl, congrArg (fun p => [p]) (Option.some.inj hreport).symm⟩

theorem settled_of_signalled (hs : Signalled outward e h) : Settled r h := by
  obtain ⟨front, c, rfl, -, hq, -⟩ := hs
  exact settled_of_receipts_eq_nil (receipts_concat_error.trans hq.unrecorded)

/-- The handlers settle what the `try` block left. -/
theorem handler_spec (hl : Leaves (.error e) l h) :
    wp (Allowed manifest) Calm (handler e) l h fun r _ h => Settled r h := by
  unfold handler
  split
  · next result code hreport =>
    have hne : e ≠ .leaseLost := by
      rintro rfl
      cases hreport
    refine ⟨hl.1 hne, fun r => ?_⟩
    obtain hq | ⟨front, c, rfl, hdb, hq, hm⟩ | ⟨rfl, -⟩ := hl.2
    · match r with
      | .ok _ => exact settled_of_calm (calm_concat hq.calm not_moved_ok)
      | .error e => exact settled_of_receipts_eq_nil (receipts_concat_error.trans hq.unrecorded)
    · match r with
      | .ok _ => exact settled_of_report hq hm hreport
      | .error e =>
        refine settled_of_receipts_eq_nil ?_
        rw [receipts_concat_error, receipts_concat_error, hq.unrecorded]
    · cases hreport
  · obtain hq | hsignalled | ⟨-, hc⟩ := hl.2
    · exact settled_of_calm hq.calm
    · exact settled_of_signalled hsignalled
    · exact settled_of_calm hc

/-- **Every call of a run is allowed after the calls before it, and a moved closure is
settled.** -/
theorem run_spec (x : Executor) (fuel : ℕ) (lease : Claim) :
    wp (Allowed x.manifest) Calm (x.run fuel lease) (start lease) [] fun r _ h => Settled r h := by
  rw [run, wp_bind]
  refine wp_mono (schedule_spec (M := outward) ⟨quiet_nil, fresh_nil⟩) fun r l h hr => ?_
  match r with
  | .error e => exact hr.2.elim (fun hq => settled_of_calm hq.calm) settled_of_signalled
  | .ok _ => ?_
  rw [wp_tryCatch]
  refine wp_mono (body_spec hr.1 (closes_of_steps hr.2)) fun r l h hr => ?_
  match r with
  | .ok _ => exact settled_of_calm hr
  | .error e => exact handler_spec hr

end Executor

end Tracebed.Erasure
