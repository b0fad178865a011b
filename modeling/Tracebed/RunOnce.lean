import Tracebed.TraceBatches
import Tracebed.StandardWriter

/-!
# One Pass Over the Queue

`TraceWriter.run_once`: the claimed items are parsed, refused items are settled at once, the
rest is grouped by run in order of first appearance, and each group is processed under the
project's activity gate. Settlement is a log of the calls made on the queue.

## Main results

* `runOnce_settles_iff`: every claimed item is settled exactly once, and acked only if
  recorded, exactly when no item is poisoned and no gate fails.
* `batch_abandoned`: a poisoned item abandons the batch it was claimed with.
-/

open Py List Prod Function

namespace Tracebed

variable {D : Type}

/-! ### The pass -/

/-- What is done with a claimed item. The delay of a nack is left out. -/
inductive Settlement
  | ack
  | nack
  | reject (reason : String)
  deriving DecidableEq

/-- The calls made on the queue, in order. -/
abbrev SettlementLog := List (QueueItem × Settlement)

/-- `_reject(item, reason)`: only version 1 items can be rejected for good. -/
def rejection (item : QueueItem) (reason : String) : QueueItem × Settlement :=
  (item, if item.authorityVersion = 1 then .reject reason else .nack)

abbrev RunKey := ProjectId × RunId

/-- What the first loop does with one item. -/
inductive Sorted (D : Type)
  | settled (how : Settlement)
  | grouped (key : RunKey) (env : QueueEnvelope D)

/-- The body of the first loop of `run_once`. -/
def sortItem (W : Writer D) (item : QueueItem) : Except PyError (Sorted D) := do
  match ← parseItem W.prims W.unicode W.pydantic item with
  | none => pure (.settled (rejection item "malformed_business_payload").2)
  | some env =>
    match (if item.authorityVersion = 1 then item.runId else some env.runId) with
    | none => pure (.settled (rejection item "malformed_authority").2)
    | some run =>
      if item.authorityVersion = 0 ∧ env.projectId ≠ item.projectId then
        pure (.settled .nack)
      else pure (.grouped (item.projectId, run) env)

/-- The groups of a batch, in order of first appearance. -/
abbrev Groups (D : Type) := List (RunKey × List (Delivery D))

/-- `groups.setdefault(key, []).append(d)`. -/
def addToGroup (key : RunKey) (d : Delivery D) : Groups D → Groups D
  | [] => [(key, [d])]
  | (k, ds) :: rest =>
    if k = key then (k, ds ++ [d]) :: rest else (k, ds) :: addToGroup key d rest

/-- The first loop of `run_once`. -/
def sortItems (W : Writer D) :
    List QueueItem → Groups D → SettlementLog → SettlementLog × Except PyError (Groups D)
  | [], groups, log => (log, .ok groups)
  | item :: rest, groups, log =>
    match sortItem W item with
    | .error e => (log, .error e)
    | .ok (.settled how) => sortItems W rest groups (log ++ [(item, how)])
    | .ok (.grouped key env) => sortItems W rest (addToGroup key (env, item) groups) log

/-- What the activity gate of a group does: it opens and closes, it is busy, it raises
something else on entry, or it raises after the body when its lock cannot be released. -/
inductive Gate
  | opens
  | busy
  | raises (e : PyError) (other : e ≠ .activityBusy)
  | releaseFails
  deriving DecidableEq

/-- The environment of one group. -/
structure GroupEnv where
  gate : Gate
  faults : Faults

/-- What is stored about one run. -/
structure RunRecord (D : Type) where
  row : Option (TraceIndexRow D)
  jobs : List (LearningJob D)
  objects : ℕ → Option Bytes
  archive : List (QueueEnvelope D)

/-- What is stored about all runs; the keys are shared by the runs of a project. -/
structure World (D : Type) where
  records : RunKey → RunRecord D
  keys : ProjectId → KeyTable D

/-- The state a transaction of one run reads. -/
def World.store (w : World D) (key : RunKey) : Store D :=
  let r := w.records key
  ⟨r.row, r.jobs, w.keys key.1, r.objects, r.archive⟩

/-- The state a transaction of one run leaves. -/
def World.put (w : World D) (key : RunKey) (s : Store D) : World D where
  records := update w.records key ⟨s.row, s.jobs, s.objects, s.archive⟩
  keys := update w.keys key.1 s.keys

/-- Every delivery of a group is nacked. -/
def nackAll (pairs : List (Delivery D)) : SettlementLog := pairs.map fun d => (d.2, .nack)

/-- The settlement of a group: the end of `_process_group`, or the handlers around it. -/
def settleGroup (pairs : List (Delivery D)) : Except PyError (Verdict D) → SettlementLog × ℕ
  | .error _ => (nackAll pairs, 0)
  | .ok v =>
    ((v.acked.map fun d => (d.2, .ack)) ++
      (v.invalid.map fun d => rejection d.2 "malformed_business_payload") ++
      v.refused.map fun d => rejection d.2 "owner_conflict", v.newCount)

/-- The body of the second loop of `run_once`. -/
def runGroup [DecidableEq D] (W : Writer D) (key : RunKey) (pairs : List (Delivery D))
    (env : GroupEnv) (w : World D) : World D × SettlementLog × Except PyError ℕ :=
  let (s, result) := processGroup W key.1 key.2 pairs env.faults (w.store key)
  let (log, count) := settleGroup pairs result
  match env.gate with
  | .opens => (w.put key s, log, .ok count)
  | .busy => (w, nackAll pairs, .ok 0)
  | .raises e _ => (w, [], .error e)
  | .releaseFails =>
    (w.put key s, log, .error (.runtimeError "activity lock release failed"))

/-- The second loop of `run_once`. -/
def runGroups [DecidableEq D] (W : Writer D) (env : RunKey → GroupEnv) :
    Groups D → World D → SettlementLog → ℕ → World D × SettlementLog × Except PyError ℕ
  | [], w, log, processed => (w, log, .ok processed)
  | (key, pairs) :: rest, w, log, processed =>
    match runGroup W key pairs (env key) w with
    | (w', calls, .error e) => (w', log ++ calls, .error e)
    | (w', calls, .ok count) => runGroups W env rest w' (log ++ calls) (processed + count)

/-- `run_once` on the items it claims: the stored state afterwards, the calls made on the
queue, and the number returned or the exception that escapes. -/
def runOnce [DecidableEq D] (W : Writer D) (env : RunKey → GroupEnv) (items : List QueueItem)
    (w : World D) : World D × SettlementLog × Except PyError ℕ :=
  match sortItems W items [] [] with
  | (log, .error e) => (w, log, .error e)
  | (log, .ok groups) => runGroups W env groups w log 0

/-! ### Poisoned items -/

variable (type : EventType)

/-- The payload validator of the type hashes a list or a dictionary. -/
def poisonedPayload (payload : Dict) : Bool :=
  match type with
  | .artifactRef | .stateNote =>
    match Dict.find payload subjectTagsKey with
    | some (.arr tags) => tags.length ≤ maxSubjectTags && !tags.all hashable
    | _ => false
  | .runEnd =>
    match Dict.find payload (str "status") with
    | some v => !hashable v
    | none => false
  | _ => false

def poisonedEvent : Json → Bool
  | .obj m =>
    match Dict.find m (str "type") with
    | some (.str s) =>
      match EventType.ofText s, Dict.find m (str "payload") with
      | some type, some (.obj payload) => poisonedPayload type payload
      | _, _ => false
    | _ => false
  | _ => false

/-- A poisoned item: its event is looked at, and its payload is poisoned. Among the
`subject_tags` of an `artifact_ref` or a `state_note` there is a list or a dictionary, or the
`status` of a `run_end` is one. -/
def poisoned (item : QueueItem) : Bool :=
  (item.authorityVersion ≠ 1 || (item.runId.isSome && item.sourcePrincipalId.isSome &&
    item.sourceAgentTypeId.isSome && item.runOwnerPrincipalId.isSome &&
    item.runOwnerAgentTypeId.isSome &&
    Dict.hasKeys item.payload [str "seq", str "event"])) &&
  match Dict.find item.payload (str "event") with
  | some v => poisonedEvent v
  | none => false

/-- A computation raises something that is no `ValueError`. -/
def Escapes {α : Type} (x : Except PyError α) : Prop :=
  ∃ e, x = .error e ∧ ∀ msg, e ≠ .valueError msg

section Escapes

variable {α β : Type}

@[simp] theorem escapes_ok (a : α) : ¬Escapes (.ok a : Except PyError α) := by
  rintro ⟨e, h, -⟩
  cases h

@[simp] theorem escapes_valueError (msg : String) :
    ¬Escapes (.error (.valueError msg) : Except PyError α) := by
  rintro ⟨e, h, hne⟩
  exact hne msg (Except.error.inj h).symm

@[simp] theorem escapes_typeError (msg : String) :
    Escapes (.error (.typeError msg) : Except PyError α) :=
  ⟨_, rfl, nofun⟩

variable {f : α → Except PyError β}

/-- A sequence of computations raises where the first or the second does. -/
theorem escapes_bind {x : Except PyError α} :
    Escapes (x >>= f) ↔ Escapes x ∨ ∃ a, x = .ok a ∧ Escapes (f a) := by
  cases x <;> simp [Escapes, bind, Except.bind]

@[simp] theorem escapes_require_valueError (b : Bool) (msg : String) :
    ¬Escapes (require b (.valueError msg)) := by
  cases b <;> simp [require]

@[simp] theorem escapes_require_typeError (b : Bool) (msg : String) :
    Escapes (require b (.typeError msg)) ↔ b = false := by
  cases b <;> simp [require]

@[simp] theorem escapes_orRaise (x : Option α) (msg : String) :
    ¬Escapes (orRaise x (.valueError msg)) := by
  cases x <;> simp [orRaise]

/-- A loop raises only what its body raises. -/
theorem not_escapes_mapM (hf : ∀ a, ¬Escapes (f a)) (l : List α) : ¬Escapes (l.mapM f) := by
  induction l with
  | nil => exact escapes_ok _
  | cons a l ih =>
    rw [mapM_cons, escapes_bind]
    rintro (h | ⟨b, -, h⟩)
    · exact hf a h
    · rcases escapes_bind.mp h with h | ⟨bs, -, h⟩
      · exact ih h
      · exact escapes_ok _ h

/-- The same for a loop without results. -/
theorem not_escapes_forM {f : α → Except PyError Unit} (hf : ∀ a, ¬Escapes (f a))
    (l : List α) : ¬Escapes (l.forM f) := by
  induction l with
  | nil => exact escapes_ok _
  | cons a l ih =>
    intro h
    rcases escapes_bind.mp h with h | ⟨-, -, h⟩
    · exact hf a h
    · exact ih h

end Escapes

/-- One entry of `subject_tags` is refused with a `ValueError`. -/
theorem not_escapes_checkSubjectTag (v : Json) : ¬Escapes (checkSubjectTag v) := by
  cases v with
  | str tag =>
    rw [checkSubjectTag]
    split
    · exact escapes_ok _
    · exact escapes_valueError _
  | _ => exact escapes_valueError _

/-- The validators of the payload: **hashing comes before the type check**. -/
theorem escapes_checkPayload (payload : Dict) :
    Escapes (checkPayload type payload) ↔ poisonedPayload type payload = true := by
  have htags : Escapes (validatedSubjectTags payload) ↔
      poisonedPayload .artifactRef payload = true := by
    rw [validatedSubjectTags, poisonedPayload]
    cases hfind : Dict.find payload subjectTagsKey with
    | none => simp
    | some v =>
      cases v with
      | arr tags =>
        simp only [escapes_require_valueError, false_or, require_eq_ok, escapes_bind,
          escapes_require_typeError, not_escapes_forM not_escapes_checkSubjectTag, and_false,
          exists_const, or_false, Bool.and_eq_true, Bool.not_eq_true']
      | _ => simp
  cases type with
  | artifactRef | stateNote => exact htags
  | runEnd =>
    rw [checkPayload, checkStatus, poisonedPayload]
    cases Dict.find payload (str "status") with
    | none => simp
    | some v =>
      rw [escapes_bind]
      simp only [escapes_require_typeError, escapes_require_valueError, and_false,
        exists_false, or_false, Bool.not_eq_true']
  | _ => simp [checkPayload, poisonedPayload]

theorem escapes_payloadField (m : Dict) :
    Escapes (payloadField type m) ↔
      ∃ p, Dict.find m (str "payload") = some (.obj p) ∧ poisonedPayload type p = true := by
  rw [payloadField]
  split
  · next hfind => simp [hfind]
  · next p hfind =>
    simp only [hfind, Option.some.injEq, Json.obj.injEq, exists_eq_left']
    rw [← escapes_checkPayload]
    split
    · next h => exact iff_of_false (escapes_ok _) (h ▸ escapes_ok _)
    · next h => exact iff_of_false (escapes_valueError _) (h ▸ escapes_valueError _)
    · next e hne h => exact iff_of_true ⟨e, rfl, hne⟩ ⟨e, h, hne⟩
  · next v hobj hfind =>
    refine iff_of_false (escapes_valueError _) ?_
    rintro ⟨p, hp, -⟩
    rw [hfind] at hp
    exact hobj p (Option.some.inj hp)

variable (X : Pydantic D)

theorem escapes_validateEvent (v : Json) :
    Escapes (validateEvent X v) ↔ poisonedEvent v = true := by
  cases v with
  | obj m =>
    rw [validateEvent, poisonedEvent]
    cases Dict.find m (str "type") with
    | none => simp [validationError]
    | some t =>
      cases t with
      | str s =>
        dsimp only
        cases EventType.ofText s with
        | none => simp [validationError]
        | some type =>
          simp only [escapes_bind, escapes_payloadField, validationError]
          cases Dict.find m (str "payload") with
          | none => simp [pure, Except.pure]
          | some q => cases q <;> simp [pure, Except.pure]
      | _ => simp [validationError]
  | _ => simp [validateEvent, poisonedEvent, validationError]

theorem escapes_eventField (m : Dict) :
    Escapes (eventField X m) ↔
      ∃ v, Dict.find m (str "event") = some v ∧ poisonedEvent v = true := by
  rw [eventField]
  cases Dict.find m (str "event") with
  | none => simp [validationError]
  | some v => simp [escapes_validateEvent]

variable (P : Primitives) (U : UnicodeData)

/-- Computing a signature raises nothing but `ValueError`. -/
theorem not_escapes_inputSignatureHash (agent : AgentTypeId) (query : PyStr)
    (template : Option PyStr) (manifest : Option (List PyStr)) :
    ¬Escapes (inputSignatureHash P U agent query template manifest) := by
  have hcanonical : ∀ v, ¬Escapes (canonicalJson v) := fun v => by
    simp [canonicalJson, escapes_bind]
  have hmanifest : ¬Escapes (normaliseToolManifest manifest) := by
    cases manifest with
    | none => exact escapes_ok _
    | some l => simp [normaliseToolManifest, escapes_bind, pure, Except.pure]
  have hshingle : ∀ w, ¬Escapes (shingleHash P w) := fun w => by
    simp [shingleHash, escapes_bind, pure, Except.pure]
  have hsimhash : ¬Escapes (simhash64 P U query) := by
    rw [simhash64]
    split_ifs
    · exact escapes_ok _
    · simp [escapes_bind, not_escapes_mapM hshingle, pure, Except.pure]
  simp [inputSignatureHash, escapes_bind, hcanonical, hmanifest, hsimhash, pure, Except.pure]

/-- Reading a `run_start` raises nothing but `ValueError`. -/
theorem not_escapes_runStartFeatures (env : QueueEnvelope D) :
    ¬Escapes (runStartFeatures P U env) := by
  have hquery : ∀ p, ¬Escapes (queryTextOf p) := fun p => by
    rw [queryTextOf]
    split <;> simp
  have htemplate : ∀ p, ¬Escapes (workflowTemplateOf p) := fun p => by
    rw [workflowTemplateOf]
    split <;> simp
  have hmanifest : ∀ p, ¬Escapes (toolManifestOf p) := fun p => by
    rw [toolManifestOf]
    split
    · simp
    · next l _ => cases asStrings l <;> simp [orRaise, Except.map]
    · simp
  simp [runStartFeatures, escapes_bind, hquery, htemplate, hmanifest,
    not_escapes_inputSignatureHash, pure, Except.pure]

/-- A version 1 item raises when it is complete and its event is poisoned. -/
theorem escapes_parseV1 (item : QueueItem) :
    Escapes (parseV1 X item) ↔ (item.runId.isSome = true ∧ item.sourcePrincipalId.isSome = true ∧
      item.sourceAgentTypeId.isSome = true ∧ item.runOwnerPrincipalId.isSome = true ∧
      item.runOwnerAgentTypeId.isSome = true ∧
      Dict.hasKeys item.payload [str "seq", str "event"] = true) ∧
      Escapes (eventField X item.payload) := by
  rw [parseV1]
  split
  · next h1 h2 h3 h4 h5 =>
    simp only [escapes_bind, validationError, h1, h2, h3, h4, h5]
    simp [pure, Except.pure]
  · next hnone =>
    refine iff_of_false (escapes_valueError _) ?_
    simp only [Option.isSome_iff_exists]
    rintro ⟨⟨⟨_, h1⟩, ⟨_, h2⟩, ⟨_, h3⟩, ⟨_, h4⟩, ⟨_, h5⟩, -⟩, -⟩
    exact hnone _ _ _ _ _ h1 h2 h3 h4 h5

/-- A legacy item raises when its event is poisoned. -/
theorem escapes_parseV0 (item : QueueItem) :
    Escapes (parseV0 X item) ↔ Escapes (eventField X item.payload) := by
  simp only [parseV0, escapes_bind, validationError]
  simp [pure, Except.pure]

theorem escapes_parse_iff (item : QueueItem) :
    Escapes (if item.authorityVersion = 1 then parseV1 X item else parseV0 X item) ↔
      poisoned item = true := by
  have hevent : Escapes (eventField X item.payload) ↔
      (match Dict.find item.payload (str "event") with
        | some v => poisonedEvent v
        | none => false) = true := by
    rw [escapes_eventField]
    cases Dict.find item.payload (str "event") <;> simp
  rw [poisoned]
  by_cases hv : item.authorityVersion = 1
  · rw [if_pos hv, escapes_parseV1, hevent]
    simp [hv, and_assoc]
  · rw [if_neg hv, escapes_parseV0, hevent]
    simp [hv]

/-- **An item escapes parsing exactly when it is poisoned.** -/
theorem parseItem_error_iff (X : Pydantic D) (item : QueueItem) :
    (∃ e, parseItem P U X item = .error e) ↔ poisoned item = true := by
  rw [← escapes_parse_iff X, parseItem]
  split
  · next h =>
    rw [h]
    simp
  · next e hne h =>
    rw [h]
    exact iff_of_true ⟨e, rfl⟩ ⟨e, rfl, hne⟩
  · next env h =>
    rw [h]
    refine iff_of_false ?_ (escapes_ok _)
    rintro ⟨e, he⟩
    split_ifs at he
    have hstart := not_escapes_runStartFeatures P U env
    split at he
    · cases he
    · cases he
    · next e' hne h' =>
      rw [h'] at hstart
      exact hstart ⟨e', rfl, hne⟩

/-! ### The first loop -/

theorem sortItem_error_iff (W : Writer D) (item : QueueItem) :
    (∃ e, sortItem W item = .error e) ↔ poisoned item = true := by
  rw [← parseItem_error_iff W.prims W.unicode W.pydantic, sortItem]
  cases parseItem W.prims W.unicode W.pydantic item with
  | error e => simp [bind, Except.bind]
  | ok parsed =>
    refine iff_of_false ?_ (by simp)
    rintro ⟨e, he⟩
    simp only [bind, Except.bind] at he
    cases parsed with
    | none => cases he
    | some env =>
      dsimp only at he
      split at he
      · cases he
      · split_ifs at he
        · cases he
        · cases he

variable {W : Writer D} {item : QueueItem}

theorem rejection_ne_ack (item : QueueItem) (reason : String) :
    (rejection item reason).2 ≠ .ack := by
  rw [rejection]
  split_ifs <;> simp

theorem sortItem_settled_ne_ack {how : Settlement} (h : sortItem W item = .ok (.settled how)) :
    how ≠ .ack := by
  obtain ⟨parsed, -, h⟩ := Fallible.bind_eq_ok.mp h
  cases parsed with
  | none =>
    obtain ⟨rfl⟩ := Except.ok.inj h
    exact rejection_ne_ack _ _
  | some env =>
    dsimp only at h
    split at h
    · obtain ⟨rfl⟩ := Except.ok.inj h
      exact rejection_ne_ack _ _
    · split_ifs at h
      · obtain ⟨rfl⟩ := Except.ok.inj h
        simp
      · cases Except.ok.inj h

def groupKey (W : Writer D) (item : QueueItem) : Option RunKey :=
  match sortItem W item with
  | .ok (.grouped key _) => some key
  | _ => none

def Groups.items (groups : Groups D) : List QueueItem :=
  groups.flatMap fun g => g.2.map snd

def Groups.keys (groups : Groups D) : List RunKey := groups.map fst

@[simp] theorem Groups.keys_cons (g : RunKey × List (Delivery D)) (rest : Groups D) :
    Groups.keys (g :: rest) = g.1 :: Groups.keys rest := rfl

/-- **Groups as the first loop builds them**: their keys are distinct, and every delivery was
sorted into its group. -/
structure WellGrouped (W : Writer D) (groups : Groups D) : Prop where
  distinct : groups.keys.Nodup
  sorted : ∀ g ∈ groups, ∀ d ∈ g.2, sortItem W d.2 = .ok (.grouped g.1 d.1)

variable (key : RunKey)

theorem addToGroup_items (d : Delivery D) (groups : Groups D) :
    (addToGroup key d groups).items.Perm (d.2 :: groups.items) := by
  induction groups with
  | nil => exact List.Perm.refl _
  | cons g rest ih =>
    rw [addToGroup]
    split_ifs with hk
    · simp only [Groups.items, flatMap_cons, map_append, append_assoc]
      exact perm_middle
    · exact (ih.append_left _).trans perm_middle

theorem addToGroup_keys (d : Delivery D) (groups : Groups D) :
    (addToGroup key d groups).keys =
      if key ∈ groups.keys then groups.keys else groups.keys ++ [key] := by
  induction groups with
  | nil => rfl
  | cons g rest ih =>
    obtain ⟨k, ds⟩ := g
    rw [addToGroup]
    by_cases hk : k = key
    · subst hk
      simp
    · rw [if_neg hk, Groups.keys_cons, ih, Groups.keys_cons]
      by_cases hin : key ∈ Groups.keys rest
      · rw [if_pos hin, if_pos (mem_cons_of_mem _ hin)]
      · have hout : key ∉ k :: Groups.keys rest := by
          simp [Ne.symm hk, hin]
        rw [if_neg hin, if_neg hout, cons_append]

variable {groups : Groups D}

theorem WellGrouped.addToGroup (h : WellGrouped W groups) {key : RunKey} {d : Delivery D}
    (hd : sortItem W d.2 = .ok (.grouped key d.1)) :
    WellGrouped W (addToGroup key d groups) := by
  refine ⟨?_, ?_⟩
  · rw [addToGroup_keys]
    split_ifs with hin
    · exact h.distinct
    · exact nodup_append.mpr ⟨h.distinct, nodup_singleton _, by
        rintro a ha b hb rfl
        exact hin (mem_singleton.mp hb ▸ ha)⟩
  · have hsorted := h.sorted
    clear h
    induction groups with
    | nil =>
      intro g hg e he
      obtain rfl := mem_singleton.mp hg
      obtain rfl := mem_singleton.mp he
      exact hd
    | cons p rest ih =>
      obtain ⟨k, ds⟩ := p
      intro g hg e he
      rw [Tracebed.addToGroup] at hg
      split_ifs at hg with hk
      · rcases mem_cons.mp hg with rfl | hg
        · rcases mem_append.mp he with he | he
          · exact hsorted (k, ds) mem_cons_self e he
          · obtain rfl := mem_singleton.mp he
            rw [hk]
            exact hd
        · exact hsorted g (mem_cons_of_mem _ hg) e he
      · rcases mem_cons.mp hg with rfl | hg
        · exact hsorted (k, ds) mem_cons_self e he
        · exact ih (forall_mem_cons.mp hsorted).2 g hg e he

variable {items : List QueueItem}

/-- **The first loop without poison**: every item is settled at once or grouped, none of the
former is acked, and the groups are those of the items. -/
theorem sortItems_ok (log : SettlementLog) (hgroups : WellGrouped W groups)
    (h : ∀ item ∈ items, poisoned item = false) :
    ∃ calls groups', sortItems W items groups log = (log ++ calls, .ok groups') ∧
      WellGrouped W groups' ∧
      (calls.map fst ++ groups'.items).Perm (items ++ groups.items) ∧
      (∀ c ∈ calls, c.2 ≠ .ack) ∧
      ∀ key, key ∈ groups'.keys ↔
        key ∈ groups.keys ∨ ∃ item ∈ items, groupKey W item = some key := by
  induction items generalizing groups log with
  | nil => exact ⟨[], groups, by simp [sortItems], hgroups, by simp, by simp, by simp⟩
  | cons item rest ih =>
    have hrest : ∀ i ∈ rest, poisoned i = false := fun i hi => h i (mem_cons_of_mem _ hi)
    cases hsort : sortItem W item with
    | error e =>
      have hp := (sortItem_error_iff W item).mp ⟨e, hsort⟩
      rw [h item mem_cons_self] at hp
      cases hp
    | ok sorted =>
      cases sorted with
      | settled how =>
        obtain ⟨calls, groups', heq, hwell, hperm, hack, hkeys⟩ :=
          ih (log ++ [(item, how)]) hgroups hrest
        refine ⟨(item, how) :: calls, groups', ?_, hwell, ?_, ?_, ?_⟩
        · rw [sortItems, hsort]
          dsimp only
          rw [heq, append_assoc, singleton_append]
        · exact hperm.cons item
        · exact forall_mem_cons.mpr ⟨sortItem_settled_ne_ack hsort, hack⟩
        · intro key
          have hnone : groupKey W item = none := by rw [groupKey, hsort]
          rw [hkeys]
          simp [hnone]
      | grouped key env =>
        obtain ⟨calls, groups', heq, hwell, hperm, hack, hkeys⟩ :=
          ih log (hgroups.addToGroup (d := (env, item)) hsort) hrest
        refine ⟨calls, groups', ?_, hwell, ?_, hack, ?_⟩
        · rw [sortItems, hsort]
          exact heq
        · refine hperm.trans (((addToGroup_items key (env, item) groups).append_left rest).trans ?_)
          exact perm_middle
        · intro k
          have hsome : groupKey W item = some key := by rw [groupKey, hsort]
          rw [hkeys, addToGroup_keys]
          simp only [mem_cons, exists_eq_or_imp, hsome, Option.some.injEq]
          split_ifs with hin
          · constructor
            · rintro (hk | hk)
              · exact .inl hk
              · exact .inr (.inr hk)
            · rintro (hk | rfl | hk)
              · exact .inl hk
              · exact .inl hin
              · exact .inr hk
          · rw [mem_append, mem_singleton, or_assoc, eq_comm]

/-- **The first loop with poison**: the exception escapes. -/
theorem sortItems_error (groups : Groups D) (log : SettlementLog)
    (h : ∃ item ∈ items, poisoned item = true) :
    ∃ e, (sortItems W items groups log).2 = .error e := by
  induction items generalizing groups log with
  | nil =>
    obtain ⟨item, hitem, -⟩ := h
    cases hitem
  | cons first rest ih =>
    rw [sortItems]
    cases hsort : sortItem W first with
    | error e => exact ⟨e, rfl⟩
    | ok sorted =>
      have hrest : ∃ item ∈ rest, poisoned item = true := by
        obtain ⟨item, hitem, hp⟩ := h
        rcases mem_cons.mp hitem with rfl | hitem
        · obtain ⟨e, he⟩ := (sortItem_error_iff W item).mpr hp
          rw [hsort] at he
          cases he
        · exact ⟨item, hitem, hp⟩
      cases sorted with
      | settled how | grouped key env => exact ih _ _ hrest

/-! ### The second loop -/

variable {pairs : List (Delivery D)}

theorem settleGroup_perm (result : Except PyError (Verdict D))
    (h : ∀ v, result = .ok v → (v.acked ++ v.invalid ++ v.refused).Perm pairs) :
    ((settleGroup pairs result).1.map fst).Perm (pairs.map snd) := by
  cases result with
  | error e => simp [settleGroup, nackAll, comp_def]
  | ok v =>
    have hperm := (h v rfl).map snd
    simpa [settleGroup, rejection, comp_def] using hperm

theorem mem_settleGroup_ack {result : Except PyError (Verdict D)}
    (h : (item, .ack) ∈ (settleGroup pairs result).1) :
    ∃ v, result = .ok v ∧ ∃ d ∈ v.acked, d.2 = item := by
  cases result with
  | error e =>
    obtain ⟨d, -, hd⟩ := mem_map.mp h
    cases hd
  | ok v =>
    rcases mem_append.mp h with h | h
    · rcases mem_append.mp h with h | h
      · obtain ⟨d, hd, heq⟩ := mem_map.mp h
        exact ⟨v, rfl, d, hd, congrArg fst heq⟩
      · obtain ⟨d, -, heq⟩ := mem_map.mp h
        exact absurd (congrArg snd heq) (rejection_ne_ack _ _)
    · obtain ⟨d, -, heq⟩ := mem_map.mp h
      exact absurd (congrArg snd heq) (rejection_ne_ack _ _)

section Groups

variable [DecidableEq D] {project : ProjectId} {run : RunId} {f : Faults} {s : Store D}
  {v : Verdict D}

/-- **The four result lists** of a committed transaction are its deliveries. -/
theorem processGroup_partition (h : (processGroup W project run pairs f s).2 = .ok v) :
    (v.acked ++ v.invalid ++ v.refused).Perm pairs := by
  have hout := outcome_of_ok h
  generalize (processGroup W project run pairs f s).1 = s' at hout
  cases hout with
  | frozen classified =>
    obtain ⟨-, -, hperm⟩ := classify_spec classified
    exact ((filter_append_perm _ _).append_right _).trans hperm
  | foreign classified =>
    obtain ⟨-, -, hperm⟩ := classify_spec classified
    exact hperm
  | nothingNew classified | written classified =>
    obtain ⟨-, -, hperm⟩ := classify_spec classified
    rw [Verdict.acked, append_nil]
    exact ((filter_append_perm _ _).append_right _).trans hperm

/-- **An ack is justified**: the item was sorted into a run, a transaction of that run
committed and acked it, and the row that transaction left, with the item's sequence number
recorded, is still the one that is stored. -/
def AckJustified (W : Writer D) (env : RunKey → GroupEnv) (w : World D) (item : QueueItem) : Prop :=
  ∃ key pairs s v d, (processGroup W key.1 key.2 pairs (env key).faults s).2 = .ok v ∧
    d ∈ v.acked ∧ d.2 = item ∧ sortItem W item = .ok (.grouped key d.1) ∧
    (w.records key).row = (processGroup W key.1 key.2 pairs (env key).faults s).1.row ∧
    d.1.seq ∈ seenSeqs (w.records key).row

/-- A gate that lets a group be settled: it opens and closes, or it is busy. -/
def Gate.passes : Gate → Bool
  | .opens | .busy => true
  | .raises .. | .releaseFails => false

theorem runGroup_opens (pairs : List (Delivery D)) {env : GroupEnv} (w : World D)
    (h : env.gate = .opens) :
    let result := processGroup W key.1 key.2 pairs env.faults (w.store key)
    runGroup W key pairs env w = (w.put key result.1, (settleGroup pairs result.2).1,
      .ok (settleGroup pairs result.2).2) := by
  rw [runGroup, h]

theorem runGroup_passes (pairs : List (Delivery D)) (env : RunKey → GroupEnv) (w : World D)
    (hgate : (env key).gate.passes = true)
    (hsorted : ∀ d ∈ pairs, sortItem W d.2 = .ok (.grouped key d.1)) :
    ∃ w' calls n, runGroup W key pairs (env key) w = (w', calls, .ok n) ∧
      (calls.map fst).Perm (pairs.map snd) ∧
      (∀ k, k ≠ key → w'.records k = w.records k) ∧
      ∀ item, (item, .ack) ∈ calls → AckJustified W env w' item ∧ groupKey W item = some key := by
  cases hg : (env key).gate with
  | opens =>
    refine ⟨_, _, _, runGroup_opens key pairs w hg, ?_, ?_, ?_⟩
    · exact settleGroup_perm _ fun v hv => processGroup_partition hv
    · intro k hk
      exact update_of_ne hk _ _
    · intro item hitem
      obtain ⟨v, hv, d, hd, rfl⟩ := mem_settleGroup_ack hitem
      have hmem : d ∈ pairs := (processGroup_partition hv).mem_iff.mp
        (mem_append_left _ (mem_append_left _ hd))
      have hrow : ((w.put key (processGroup W key.1 key.2 pairs (env key).faults
          (w.store key)).1).records key).row =
          (processGroup W key.1 key.2 pairs (env key).faults (w.store key)).1.row := by
        simp [World.put]
      refine ⟨⟨key, pairs, w.store key, v, d, hv, hd, rfl, hsorted d hmem, hrow, ?_⟩, ?_⟩
      · rw [hrow]
        exact acked_recorded hv d hd
      · rw [groupKey, hsorted d hmem]
  | busy =>
    refine ⟨w, nackAll pairs, 0, by rw [runGroup, hg], by simp [nackAll, comp_def],
      fun _ _ => rfl, ?_⟩
    intro item hitem
    obtain ⟨d, -, heq⟩ := mem_map.mp hitem
    cases heq
  | raises | releaseFails =>
    rw [hg] at hgate
    cases hgate

theorem runGroup_fails (pairs : List (Delivery D)) (env : RunKey → GroupEnv) (w : World D)
    (hgate : (env key).gate.passes = false) :
    ∃ e, (runGroup W key pairs (env key) w).2.2 = .error e := by
  rw [runGroup]
  cases hg : (env key).gate with
  | opens | busy =>
    rw [hg] at hgate
    cases hgate
  | raises e => exact ⟨e, rfl⟩
  | releaseFails => exact ⟨_, rfl⟩

theorem AckJustified.mono {env : RunKey → GroupEnv} {w w' : World D} (h : AckJustified W env w item)
    (hsame : ∀ key, groupKey W item = some key → w'.records key = w.records key) :
    AckJustified W env w' item := by
  obtain ⟨key, pairs, s, v, d, hv, hd, hitem, hsort, hrow, hseen⟩ := h
  have hkey := hsame key (by rw [groupKey, hsort])
  exact ⟨key, pairs, s, v, d, hv, hd, hitem, hsort, hkey ▸ hrow, hkey ▸ hseen⟩

/-- **The second loop when every gate passes.** -/
theorem runGroups_passes (env : RunKey → GroupEnv) (hwell : WellGrouped W groups)
    (hgates : ∀ key ∈ Groups.keys groups, (env key).gate.passes = true) (w : World D)
    (log : SettlementLog) (processed : ℕ) :
    ∃ w' calls n, runGroups W env groups w log processed = (w', log ++ calls, .ok n) ∧
      (calls.map fst).Perm (Groups.items groups) ∧
      (∀ k, k ∉ Groups.keys groups → w'.records k = w.records k) ∧
      ∀ item, (item, .ack) ∈ calls → AckJustified W env w' item := by
  induction groups generalizing w log processed with
  | nil => exact ⟨w, [], processed, by simp [runGroups], by simp [Groups.items], by simp, by simp⟩
  | cons g rest ih =>
    obtain ⟨key, pairs⟩ := g
    have hdistinct := hwell.distinct
    rw [Groups.keys_cons, nodup_cons] at hdistinct
    obtain ⟨w₁, calls, n, hone, hperm, hother, hacks⟩ := runGroup_passes key pairs env w
      (hgates key mem_cons_self) (hwell.sorted (key, pairs) mem_cons_self)
    obtain ⟨w₂, calls', n', hrest, hperm', hother', hacks'⟩ := ih
      ⟨hdistinct.2, fun g hg => hwell.sorted g (mem_cons_of_mem _ hg)⟩
      (forall_mem_cons.mp hgates).2 w₁ (log ++ calls) (processed + n)
    refine ⟨w₂, calls ++ calls', n', ?_, ?_, ?_, ?_⟩
    · rw [runGroups, hone]
      dsimp only
      rw [hrest, append_assoc]
    · rw [map_append]
      exact hperm.append hperm'
    · intro k hk
      rw [Groups.keys_cons, mem_cons, not_or] at hk
      rw [hother' k hk.2, hother k hk.1]
    · intro item hitem
      rcases mem_append.mp hitem with hitem | hitem
      · obtain ⟨hjust, hkey⟩ := hacks item hitem
        refine hjust.mono fun k hk => hother' k ?_
        obtain rfl : key = k := Option.some.inj (hkey.symm.trans hk)
        exact hdistinct.1
      · exact hacks' item hitem

/-- **The second loop when a gate does not pass**: the exception escapes. -/
theorem runGroups_fails (env : RunKey → GroupEnv)
    (h : ∃ key ∈ Groups.keys groups, (env key).gate.passes = false) (w : World D)
    (log : SettlementLog) (processed : ℕ) :
    ∃ e, (runGroups W env groups w log processed).2.2 = .error e := by
  induction groups generalizing w log processed with
  | nil =>
    obtain ⟨key, hkey, -⟩ := h
    cases hkey
  | cons g rest ih =>
    obtain ⟨key, pairs⟩ := g
    rw [runGroups]
    cases hone : runGroup W key pairs (env key) w with
    | mk w₁ result =>
      obtain ⟨calls, result⟩ := result
      cases result with
      | error e => exact ⟨e, rfl⟩
      | ok n =>
        refine ih ?_ w₁ _ _
        obtain ⟨k, hk, hgate⟩ := h
        rw [Groups.keys_cons, mem_cons] at hk
        rcases hk with rfl | hk
        · obtain ⟨e, he⟩ := runGroup_fails (W := W) k pairs env w hgate
          rw [hone] at he
          cases he
        · exact ⟨k, hk, hgate⟩

end Groups

/-! ### The pass as a whole -/

/-- **Every claimed item is settled exactly once**: `run_once` returns, its calls on the queue
are one for each claimed item, and every ack is justified by what is stored afterwards. -/
structure Settles [DecidableEq D] (W : Writer D) (env : RunKey → GroupEnv)
    (items : List QueueItem) (w : World D) : Prop where
  returns : ∃ n, (runOnce W env items w).2.2 = .ok n
  once : ((runOnce W env items w).2.1.map fst).Perm items
  acks : ∀ item, (item, .ack) ∈ (runOnce W env items w).2.1 →
    AckJustified W env (runOnce W env items w).1 item

/-- **A pass settles its batch exactly when** no claimed item is poisoned and the gate of
every group passes. -/
theorem runOnce_settles_iff [DecidableEq D] (W : Writer D) (env : RunKey → GroupEnv)
    (items : List QueueItem) (w : World D) :
    Settles W env items w ↔ (∀ item ∈ items, poisoned item = false) ∧
      ∀ item ∈ items, ∀ key, groupKey W item = some key → (env key).gate.passes = true := by
  have hempty : WellGrouped W ([] : Groups D) := ⟨nodup_nil, by simp⟩
  constructor
  · intro h
    obtain ⟨n, hn⟩ := h.returns
    have hclean : ∀ item ∈ items, poisoned item = false := by
      intro item hitem
      by_contra hp
      obtain ⟨e, he⟩ := sortItems_error (W := W) [] [] ⟨item, hitem, by simpa using hp⟩
      rw [runOnce] at hn
      generalize sortItems W items [] [] = result at he hn
      obtain ⟨log, result⟩ := result
      dsimp only at he
      subst he
      cases hn
    refine ⟨hclean, fun item hitem key hkey => ?_⟩
    obtain ⟨calls, groups, heq, -, -, -, hkeys⟩ := sortItems_ok [] hempty hclean
    by_contra hgate
    obtain ⟨e, he⟩ := runGroups_fails (W := W) env
      ⟨key, (hkeys key).mpr (.inr ⟨item, hitem, hkey⟩), by simpa using hgate⟩ w ([] ++ calls) 0
    rw [runOnce, heq] at hn
    rw [he] at hn
    cases hn
  · rintro ⟨hclean, hgates⟩
    obtain ⟨calls, groups, heq, hwell, hperm, hack, hkeys⟩ := sortItems_ok [] hempty hclean
    have hpass : ∀ key ∈ Groups.keys groups, (env key).gate.passes = true := by
      intro key hkey
      rcases (hkeys key).mp hkey with hkey | ⟨item, hitem, hkey⟩
      · cases hkey
      · exact hgates item hitem key hkey
    obtain ⟨w', calls', n, hrun, hperm', -, hacks⟩ :=
      runGroups_passes env hwell hpass w ([] ++ calls) 0
    have hresult : runOnce W env items w = (w', calls ++ calls', .ok n) := by
      rw [runOnce, heq]
      exact hrun
    refine ⟨⟨n, by rw [hresult]⟩, ?_, ?_⟩
    · rw [hresult, map_append]
      have hitems : (calls.map fst ++ Groups.items groups).Perm items := by
        simpa [Groups.items] using hperm
      exact (hperm'.append_left _).trans hitems
    · rw [hresult]
      intro item hitem
      rcases mem_append.mp hitem with hitem | hitem
      · exact absurd rfl (hack _ hitem)
      · exact hacks item hitem

/-- A `state_note` one of whose subject tags is a list. -/
def poisonItem : QueueItem := stdItem 2 [(str "seq", .int 1), (str "event", .obj [
  (str "ts", .str (str "2026-01-01T00:00:00Z")), (str "type", .str (str "state_note")),
  (str "payload", .obj [(subjectTagsKey, .arr [.arr []])])])]

/-- **A poisoned item abandons its batch.** A `tool_call` is claimed together with a
`state_note` whose `subject_tags` are `[[]]`: a `TypeError` escapes and neither item is
settled. -/
theorem batch_abandoned :
    let items := [stdItem 1 [(str "seq", .int 0),
      (str "event", toolCallEvent.dump stampPydantic)], poisonItem]
    let env : RunKey → GroupEnv := fun _ => ⟨.opens, noFaults 0⟩
    let w : World Stamp := ⟨fun _ => ⟨none, [], fun _ => none, []⟩, fun _ => []⟩
    (runOnce stdWriter env items w).2.1.length = 0 ∧
      (runOnce stdWriter env items w).2.2 = .error (.typeError "unhashable type") ∧
      ¬Settles stdWriter env items w := by
  intro items env w
  have hlog : (runOnce stdWriter env items w).2.1.length = 0 := by decide +kernel
  have hresult : (runOnce stdWriter env items w).2.2 = .error (.typeError "unhashable type") := by
    decide +kernel
  refine ⟨hlog, hresult, fun h => ?_⟩
  obtain ⟨n, hn⟩ := h.returns
  rw [hresult] at hn
  cases hn

end Tracebed
