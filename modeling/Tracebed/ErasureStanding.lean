import Tracebed.ErasureSystem

/-!
# What the Routines Leave Standing

Seen from the subject keys, most routines are tame: they start no request, raise no fallen
fence and bring no key to life, and a request they touch stays where it is between its fence
and its completion. What falls and never rises again is what keeps erased keys erased.
-/

open Py Fallible Table List

namespace Tracebed.Erasure

/-! ### What the routines leave standing -/

/-- The keys of the scope are destroyed. -/
def Phase.isErased : Phase → Bool
  | requested => false
  | fenced => false
  | _ => true

/-- The row of a request later on, as far as keys are concerned. -/
structure Follows (q q' : RequestRow) : Prop where
  projectId : q'.projectId = q.projectId
  requestId : q'.requestId = q.requestId
  scope : q'.scope = q.scope
  erased : q'.phase.isErased = q.phase.isErased
  complete : q.disposition = .scopeComplete → q'.disposition = .scopeComplete
  settled : (q.disposition = .scopeComplete → q.phase = .scopeComplete) →
    q'.disposition = .scopeComplete → q'.phase = .scopeComplete

theorem Follows.refl (q : RequestRow) : Follows q q := ⟨rfl, rfl, rfl, rfl, id, id⟩

theorem Follows.trans {a b c : RequestRow} (h : Follows a b) (h' : Follows b c) : Follows a c where
  projectId := h'.projectId.trans h.projectId
  requestId := h'.requestId.trans h.requestId
  scope := h'.scope.trans h.scope
  erased := h'.erased.trans h.erased
  complete := h'.complete ∘ h.complete
  settled := h'.settled ∘ h.settled

/-- Requests have distinct keys, and only a finished request is disposed of as complete. -/
structure Database.Standing (db : Database) : Prop where
  keyed : Table.Keyed RequestRow.key db.requests
  settled : ∀ q ∈ db.requests, q.disposition = .scopeComplete → q.phase = .scopeComplete

variable {C : Cluster} {db db' db'' : Database} {p r : UUID} {q : RequestRow}

/-- Each request is followed by its later row, in place. -/
def Followed (db db' : Database) : Prop :=
  ∃ f, db'.requests = db.requests.map f ∧ ∀ q ∈ db.requests, Follows q (f q)

namespace Followed

theorem of_same (h : db'.requests = db.requests) : Followed db db' :=
  ⟨id, by rw [h, map_id], fun q _ => .refl q⟩

theorem trans (h : Followed db db') (h' : Followed db' db'') : Followed db db'' := by
  obtain ⟨f, heq, hf⟩ := h
  obtain ⟨g, heq', hg⟩ := h'
  refine ⟨g ∘ f, by rw [heq', heq, map_map], fun q hq => (hf q hq).trans ?_⟩
  exact hg (f q) (heq ▸ mem_map_of_mem hq)

/-- Every later row follows an earlier one. -/
theorem exists_before (h : Followed db db') {q' : RequestRow} (hq' : q' ∈ db'.requests) :
    ∃ q ∈ db.requests, Follows q q' := by
  obtain ⟨f, heq, hf⟩ := h
  rw [heq] at hq'
  obtain ⟨q, hq, rfl⟩ := mem_map.mp hq'
  exact ⟨q, hq, hf q hq⟩

/-- Every earlier row is followed by a later one. -/
theorem exists_after (h : Followed db db') (hq : q ∈ db.requests) :
    ∃ q' ∈ db'.requests, Follows q q' := by
  obtain ⟨f, heq, hf⟩ := h
  exact ⟨f q, heq ▸ mem_map_of_mem hq, hf q hq⟩

theorem standing (h : Followed db db') (hdb : db.Standing) : db'.Standing where
  keyed := by
    obtain ⟨f, heq, hf⟩ := h
    have hkeys : db'.requests.map RequestRow.key = db.requests.map RequestRow.key := by
      rw [heq, map_map]
      refine map_congr_left fun q hq => ?_
      exact Prod.ext (hf q hq).projectId (hf q hq).requestId
    rw [Table.Keyed, hkeys]
    exact hdb.keyed
  settled := fun q' hq' => by
    obtain ⟨q, hq, hfollows⟩ := h.exists_before hq'
    exact hfollows.settled (hdb.settled q hq)

end Followed

/-- The fence of a run is down. -/
def RunFallen (db : Database) (project run : UUID) : Prop :=
  ∃ f ∈ db.runFences, f.key = (project, run) ∧ f.state ≠ .live

/-- The fences of all captured runs are down. A run has one state, however many rows. -/
structure Database.RunsFallen (db : Database) : Prop where
  uniform : ∀ f ∈ db.runFences, ∀ g ∈ db.runFences, f.key = g.key → f.state = g.state
  fallen : ∀ s ∈ db.runSet, RunFallen db s.projectId s.runId

theorem Database.RunsFallen.of_same (h : db.RunsFallen) (hruns : db'.runSet = db.runSet)
    (hfences : db'.runFences = db.runFences) : db'.RunsFallen := by
  refine ⟨hfences ▸ h.uniform, fun s hs => ?_⟩
  rw [RunFallen, hfences]
  exact h.fallen s (hruns ▸ hs)

/-- An update that moves the fences of a run together, and none of them up, leaves the runs
fallen. -/
theorem Database.RunsFallen.updateFences (h : db.RunsFallen) {p : RunFence → Bool}
    {state : FenceState} (hp : ∀ f g, f.key = g.key → f.state = g.state → p f = p g)
    (hruns : db'.runSet = db.runSet)
    (hfences : db'.runFences = updateWhere p (fun f => { f with state := state }) db.runFences)
    (hdown : state ≠ .live) : db'.RunsFallen where
  uniform := fun f' hf' g' hg' hkey => by
    rw [hfences] at hf' hg'
    obtain ⟨f, hf, rfl⟩ := mem_updateWhere.mp hf'
    obtain ⟨g, hg, rfl⟩ := mem_updateWhere.mp hg'
    have hkey' : f.key = g.key := by split at hkey <;> split at hkey <;> exact hkey
    have hstate := h.uniform f hf g hg hkey'
    rw [hp f g hkey' hstate]
    split
    · rfl
    · exact hstate
  fallen := fun s hs => by
    obtain ⟨f, hf, hkey, hlive⟩ := h.fallen s (hruns ▸ hs)
    refine ⟨_, hfences ▸ mem_updateWhere.mpr ⟨f, hf, rfl⟩, ?_⟩
    split
    · exact ⟨hkey, hdown⟩
    · exact ⟨hkey, hlive⟩

/-- A change that neither starts a request nor revives a fence or a key. -/
structure Tame (db db' : Database) : Prop where
  requests : Followed db db'
  fences_kept : ∀ f ∈ db.subjectFences, f.state ≠ .live →
    (∃ f' ∈ db'.subjectFences, f'.key = f.key ∧ f'.state ≠ .live) ∨
      ∃ q ∈ db'.requests, q.projectId = f.projectId ∧ q.scope = .project
  fences_new : ∀ f' ∈ db'.subjectFences, f'.state ≠ .live →
    ∃ f ∈ db.subjectFences, f.key = f'.key ∧ f.state ≠ .live
  keys : ∀ k ∈ db'.subjectKeys, k.state.isLive = true → k ∈ db.subjectKeys
  runs : db.RunsFallen → db'.RunsFallen

namespace Tame

/-- A change that touches neither requests nor fences nor keys. -/
theorem of_same (hrequests : db'.requests = db.requests)
    (hfences : db'.subjectFences = db.subjectFences) (hkeys : db'.subjectKeys = db.subjectKeys)
    (hruns : db'.runSet = db.runSet) (hrunFences : db'.runFences = db.runFences) :
    Tame db db' where
  requests := .of_same hrequests
  fences_kept := fun f hf hlive => .inl ⟨f, hfences ▸ hf, rfl, hlive⟩
  fences_new := fun f hf hlive => ⟨f, hfences ▸ hf, rfl, hlive⟩
  keys := fun _ hk _ => hkeys ▸ hk
  runs := fun h => h.of_same hruns hrunFences

theorem refl (db : Database) : Tame db db := of_same rfl rfl rfl rfl rfl

theorem trans (h : Tame db db') (h' : Tame db' db'') : Tame db db'' where
  requests := h.requests.trans h'.requests
  fences_kept := by
    intro f hf hlive
    have hproject : (∃ q ∈ db'.requests, q.projectId = f.projectId ∧ q.scope = .project) →
        ∃ q ∈ db''.requests, q.projectId = f.projectId ∧ q.scope = .project := by
      rintro ⟨q, hq, hp, hs⟩
      obtain ⟨q', hq', hfollows⟩ := h'.requests.exists_after hq
      exact ⟨q', hq', hfollows.projectId.trans hp, hfollows.scope.trans hs⟩
    rcases h.fences_kept f hf hlive with ⟨f', hf', hkey, hlive'⟩ | hgone
    · rcases h'.fences_kept f' hf' hlive' with ⟨f'', hf'', hkey', hlive''⟩ | hgone
      · exact .inl ⟨f'', hf'', hkey'.trans hkey, hlive''⟩
      · have hp : f'.projectId = f.projectId := congrArg Prod.fst hkey
        exact .inr (hp ▸ hgone)
    · exact .inr (hproject hgone)
  fences_new := by
    intro f'' hf'' hlive
    obtain ⟨f', hf', hkey, hlive'⟩ := h'.fences_new f'' hf'' hlive
    obtain ⟨f, hf, hkey', hlive''⟩ := h.fences_new f' hf' hlive'
    exact ⟨f, hf, hkey'.trans hkey, hlive''⟩
  keys := fun k hk hlive => h.keys k (h'.keys k hk hlive) hlive
  runs := h'.runs ∘ h.runs

theorem standing (h : Tame db db') (hdb : db.Standing) : db'.Standing := h.requests.standing hdb

/-- An update of one request. -/
theorem updateRequest (hdb : db.Standing) {f : RequestRow → RequestRow}
    (hq : db.request? p r = some q) (hf : Follows q (f q)) : Tame db (db.updateRequest p r f) where
  requests := by
    refine ⟨fun q => if isRequest p r q then f q else q, rfl, fun other hother => ?_⟩
    beta_reduce
    split
    · next hkey =>
      have hsame : other = q := by
        obtain ⟨hp, hr⟩ := isRequest_eq_true.mp hkey
        obtain ⟨hp', hr'⟩ := request?_key hq
        refine hdb.keyed.eq_of_key hother (mem_of_find?_eq_some hq) ?_
        rw [RequestRow.key, RequestRow.key, hp, hr, hp', hr']
      exact hsame ▸ hf
    · exact .refl other
  fences_kept := fun f hf hlive => .inl ⟨f, hf, rfl, hlive⟩
  fences_new := fun f hf hlive => ⟨f, hf, rfl, hlive⟩
  keys := fun k hk _ => hk
  runs := fun h => h.of_same rfl rfl

/-- A receipt. -/
theorem appendReceipt (hdb : db.Standing) {generation now : ℕ} {entry : ReceiptEntry}
    {digest : Digest}
    (h : Erasure.appendReceipt C p r generation now entry db = .ok (digest, db')) :
    Tame db db' := by
  obtain ⟨q, hq, rfl⟩ := appendReceipt_eq_ok h
  obtain ⟨rfl, rfl⟩ := request?_key hq
  have hstore : Tame db { db with
      receipts := db.receipts ++ [newReceipt C db q generation now entry] } :=
    of_same rfl rfl rfl rfl rfl
  exact hstore.trans (updateRequest (hstore.standing hdb) hq ⟨rfl, rfl, rfl, rfl, id, id⟩)

end Tame

/-- A request under a live lease is not complete. -/
theorem ne_scopeComplete_of_assertLease {c : Credential} {now : ℕ}
    (h : assertLease c now db = .ok q) : q.disposition ≠ .scopeComplete := by
  obtain ⟨-, -, hholds⟩ := assertLease_eq_ok.mp h
  rw [(holds_eq_true.mp hholds).1]
  exact nofun

theorem dropIfEmpty_eq_ok (h : dropIfEmpty q db = .ok db') :
    db' = db ∨ q.scope = .project ∧ db' = dropLeaves q.projectId db := by
  rw [dropIfEmpty] at h
  split at h
  · next hproject =>
    obtain ⟨_, -, h⟩ := bind_eq_ok.mp h
    split at h
    · exact .inr ⟨hproject.2, (Except.ok.inj h).symm⟩
    · obtain ⟨_, -, h⟩ := bind_eq_ok.mp h
      exact .inl (Except.ok.inj h).symm
  · exact .inl (Except.ok.inj h).symm

/-- Dropping the leaves of a project that is itself erased. -/
theorem dropLeaves_tame (hq : q ∈ db.requests) (hproject : q.scope = .project) :
    Tame db (dropLeaves q.projectId db) := by
  refine ⟨.of_same rfl, fun f hf hlive => ?_,
    fun f hf hlive => ⟨f, (mem_filter.mp hf).1, rfl, hlive⟩, fun k hk _ => hk,
    fun hruns => ⟨fun f hf g hg => ?_, fun s hs => ?_⟩⟩
  · by_cases hp : f.projectId = q.projectId
    · exact .inr ⟨q, hq, hp.symm, hproject⟩
    · exact .inl ⟨f, mem_filter.mpr ⟨hf, by simpa using hp⟩, rfl, hlive⟩
  · exact hruns.uniform f (mem_filter.mp hf).1 g (mem_filter.mp hg).1
  · obtain ⟨hs, hp⟩ := mem_filter.mp hs
    obtain ⟨f, hf, hkey, hlive⟩ := hruns.fallen s hs
    refine ⟨f, mem_filter.mpr ⟨hf, ?_⟩, hkey, hlive⟩
    rw [show f.projectId = s.projectId from congrArg Prod.fst hkey]
    exact hp

/-- Fences that become permanent were down before. -/
theorem finalizeFences_tame (q : RequestRow) (db : Database) : Tame db (finalizeFences q db) where
  requests := .of_same rfl
  fences_kept := fun f hf hlive => by
    refine .inl ⟨_, mem_updateWhere.mpr ⟨f, hf, rfl⟩, ?_⟩
    split
    · exact ⟨rfl, nofun⟩
    · exact ⟨rfl, hlive⟩
  fences_new := fun f' hf' hlive => by
    obtain ⟨f, hf, rfl⟩ := mem_updateWhere.mp hf'
    split at hlive
    · next hrow =>
      rw [if_pos hrow]
      rw [Bool.and_eq_true, decide_eq_true_eq, decide_eq_true_eq] at hrow
      exact ⟨f, hf, rfl, by rw [hrow.2]; exact nofun⟩
    · next hrow =>
      rw [if_neg hrow]
      exact ⟨f, hf, rfl, hlive⟩
  keys := fun k hk _ => hk
  runs := fun hruns => by
    refine hruns.updateFences (fun f g hkey hstate => ?_) rfl rfl nofun
    rw [show f.projectId = g.projectId from congrArg Prod.fst hkey, hstate]

end Tracebed.Erasure
