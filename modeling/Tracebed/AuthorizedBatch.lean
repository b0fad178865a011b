import Tracebed.AuthorizedQueue

/-!
# A Batch Is Admitted as a Whole

Whatever the boundary answers, an admission either inserts every write of its batch once and
returns their identifiers, or raises and inserts nothing (`runBatch_atomic`). A preflight that
found its run not writable is committed in either case, because its error is kept until the
transaction is over. The caller's order matters only within a run.
-/

open Py Fallible Interaction Routine Option Bool Prod

namespace Tracebed.Queue

variable {δ : Type} {access : AccessContext} {now : Moment} {grant : GrantBinding}

/-! ### Reading a trace -/

/-- The write of a preflight that answered not writable. -/
def refusal? : Event (QueueCall δ) (fun c => Except QueueError c.Result) →
    Option AuthorizedQueueWrite
  | ⟨.execute _ _ _ write _ false, .ok reply⟩ => if reply.writable then none else some write
  | _ => none

/-- The writes whose preflights answered not writable. -/
def refusals (h : Trace δ) : List AuthorizedQueueWrite := h.filterMap refusal?

theorem refusals_concat (h : Trace δ)
    (e : Event (QueueCall δ) fun c => Except QueueError c.Result) :
    refusals (h ++ [e]) = refusals h ++ (refusal? e).toList := by
  rw [refusals, List.filterMap_append, List.filterMap_cons]
  cases refusal? e <;> rfl

/-! ### The passes -/

/-- No call is excluded, and the passes always come to an end. -/
abbrev Spec {α : Type} (p : Producer δ α) (s : Session (Work δ)) (h : Trace δ)
    (Q : Except QueueError α → Session (Work δ) → Trace δ → Prop) : Prop :=
  wp (fun _ _ => True) (fun _ => False) p s h Q

variable {s : Session (Work δ)} {h : Trace δ} {write : AuthorizedQueueWrite}

/-- The call as an event, with its reply. -/
abbrev executed (access : AccessContext) (now : Moment) (grant : GrantBinding)
    (write : AuthorizedQueueWrite) (enqueue : Bool) (s : Session (Work δ))
    (r : Except QueueError (Reply δ)) :
    Event (QueueCall δ) fun c => Except QueueError c.Result :=
  ⟨.execute s.working.db access grant write (write.availableAt.getD now) enqueue, r⟩

theorem callAuthorizedEnqueue_spec {enqueue : Bool}
    {Q : Except QueueError (Reply δ) → Session (Work δ) → Trace δ → Prop}
    (hok : ∀ reply, Q (.ok reply) { s with working := s.working.after write enqueue reply }
      (h ++ [executed access now grant write enqueue s (.ok reply)]))
    (herror : ∀ e, Q (.error e) s (h ++ [executed access now grant write enqueue s (.error e)])) :
    Spec (callAuthorizedEnqueue access now grant write enqueue) s h Q := by
  refine ⟨trivial, fun r => ?_⟩
  match r with
  | .ok reply => exact hok reply
  | .error e => exact herror e

/-- What part of a transaction leaves where nothing was inserted: what it contained is what its
preflights refused. -/
structure Contains (s : Session (Work δ)) (h : Trace δ) (s' : Session (Work δ)) (h' : Trace δ) :
    Prop where
  committed : s'.committed = s.committed
  rows : s'.working.rows = s.working.rows
  contained : ∃ new, s'.working.contained = s.working.contained ++ new ∧
    refusals h' = refusals h ++ new

theorem Contains.refl : Contains s h s h := ⟨rfl, rfl, [], by simp, by simp⟩

theorem Contains.trans {s₁ s₂ : Session (Work δ)} {h₁ h₂ : Trace δ} (h₀₁ : Contains s h s₁ h₁)
    (h₁₂ : Contains s₁ h₁ s₂ h₂) : Contains s h s₂ h₂ := by
  obtain ⟨new, hnew, href⟩ := h₀₁.contained
  obtain ⟨new', hnew', href'⟩ := h₁₂.contained
  refine ⟨h₁₂.committed.trans h₀₁.committed, h₁₂.rows.trans h₀₁.rows, new ++ new', ?_, ?_⟩
  · rw [hnew', hnew, List.append_assoc]
  · rw [href', href, List.append_assoc]

theorem after_preflight_rows (w : Work δ) (reply : Reply δ) :
    (w.after write false reply).rows = w.rows := by
  rw [Work.after]
  cases reply.queueId <;> rfl

theorem preflight_spec : Spec (preflight access now grant write) s h fun r s' h' =>
    ∃ answer, r = .ok answer ∧ Contains s h s' h' := by
  rw [Spec, preflight, wp_savepoint]
  refine callAuthorizedEnqueue_spec (fun reply => ⟨.ok reply, rfl, ?_⟩) fun e =>
    ⟨.error e, rfl, rfl, rfl, [], (List.append_nil _).symm, refusals_concat ..⟩
  by_cases hw : reply.writable = true
  · refine ⟨by simp [hw], by simp [hw], [], by simp [hw], ?_⟩
    rw [refusals_concat, refusal?, if_pos hw]
    rfl
  · refine ⟨by simp [hw], by simp [hw, after_preflight_rows], [write], by simp [hw, Work.after], ?_⟩
    rw [refusals_concat, refusal?, if_neg hw]
    rfl

theorem preflightNext_spec (found : Findings) :
    Spec (preflightNext access now grant found write) s h fun r s' h' =>
      ∃ found', r = .ok found' ∧ Contains s h s' h' := by
  rw [Spec, preflightNext, wp_bind]
  refine wp_mono preflight_spec ?_
  rintro _ s' h' ⟨answer, rfl, hc⟩
  exact ⟨_, rfl, hc⟩

/-- The first pass commits what it refused, and inserts nothing. -/
theorem preflightAll_spec (role : ProjectRole) (writes : List AuthorizedQueueWrite)
    (hrows : s.committed.rows = []) (hcontained : s.committed.contained = refusals h) :
    Spec (preflightAll access now role writes) s h fun _ s' h' =>
      s'.committed.rows = [] ∧ s'.committed.contained = refusals h' := by
  rw [Spec, preflightAll, wp_transaction, wp_bind, grantFor]
  split
  · rw [wp_pure]
    refine wp_mono (wp_foldlM (I := fun _ _ s' h' => Contains (.start s.committed) h s' h')
      (Q := fun r s' h' => Contains (.start s.committed) h s' h' ∧ ∃ found, r = .ok found)
      ?_ ?_ .refl) ?_
    · intro found write rest s₁ h₁ hc
      refine wp_mono (preflightNext_spec found) ?_
      rintro _ s₂ h₂ ⟨found', rfl, hc'⟩
      exact hc.trans hc'
    · exact fun found s₁ h₁ hc => ⟨hc, found, rfl⟩
    · rintro _ s₁ h₁ ⟨hc, found, rfl⟩
      obtain ⟨new, hnew, href⟩ := hc.contained
      refine ⟨hc.rows.trans hrows, ?_⟩
      change s₁.working.contained = refusals h₁
      rw [hnew, href]
      exact congrArg (· ++ new) hcontained
  · exact ⟨hrows, hcontained⟩

/-- The second pass under way: either every write so far is inserted under its identifier and
nothing is contained, or nothing is inserted and what is refused is contained. -/
structure Underway (base : Work δ) (writes rest : List AuthorizedQueueWrite) (p : Progress)
    (s : Session (Work δ)) (h : Trace δ) : Prop where
  committed : s.committed = base
  refused : (refusals h).Sublist s.working.contained
  inserted : p.fenced = false → p.error = none ∧ refusals h = base.contained ∧ ∃ before,
    writes = before ++ rest ∧ s.working.rows = before.zip p.ids ∧ p.ids.length = before.length
  fenced : p.fenced = true → p.ids = [] ∧ s.working.rows = []

variable {base : Work δ} {p : Progress} {writes : List AuthorizedQueueWrite}

theorem Underway.preflight {rest : List AuthorizedQueueWrite} {s' : Session (Work δ)} {h' : Trace δ}
    (hu : Underway base writes (write :: rest) p s h) (hf : p.fenced = true)
    (hc : Contains s h s' h') (error : Option QueueError) :
    Underway base writes rest { p with error := error } s' h' := by
  obtain ⟨new, hnew, href⟩ := hc.contained
  refine ⟨hc.committed.trans hu.committed, ?_, fun hf' => (nomatch hf.symm.trans hf'),
    fun _ => ⟨(hu.fenced hf).1, hc.rows.trans (hu.fenced hf).2⟩⟩
  rw [hnew, href]
  exact hu.refused.append_right new

/-- A step of the second pass keeps it under way, or raises with nothing refused but what is
committed. -/
theorem enqueueNext_spec {rest : List AuthorizedQueueWrite}
    (hu : Underway base writes (write :: rest) p s h) :
    Spec (enqueueNext access now grant p write) s h fun r s' h' =>
      match r with
      | .ok p' => Underway base writes rest p' s' h'
      | .error _ => s'.committed = base ∧ refusals h' = base.contained := by
  rw [Spec, enqueueNext]
  split
  · next hf =>
    rw [wp_bind]
    refine wp_mono preflight_spec ?_
    rintro _ s' h' ⟨answer, rfl, hc⟩
    exact hu.preflight hf hc _
  · next hf =>
    obtain ⟨herror, href, before, hsplit, hrows, hlength⟩ := hu.inserted (eq_false_iff.mpr hf)
    have hsame : ∀ r, refusals (h ++ [executed access now grant write true s r]) = refusals h := by
      intro r
      rw [refusals_concat]
      cases r <;> exact List.append_nil _
    rw [wp_bind]
    refine callAuthorizedEnqueue_spec (fun reply => ?_) fun e =>
      ⟨hu.committed, (hsame _).trans href⟩
    dsimp only
    split
    · next hw =>
      have hw' : reply.writable = false := by simpa using hw
      split
      · next hids =>
        have hnone : p.ids = [] := List.isEmpty_iff.mp hids
        have hbefore : before = [] := by
          rw [hnone] at hlength
          exact List.length_eq_zero_iff.mp hlength.symm
        refine ⟨hu.committed, ?_, fun hf' => (nomatch hf'), fun _ => ⟨hnone, ?_⟩⟩
        · rw [hsame]
          simp only [Work.after, hw']
          exact hu.refused.trans (List.sublist_append_left _ _)
        · have hempty : s.working.rows = [] := by rw [hrows, hbefore, List.zip_nil_left]
          simp only [Work.after, hw']
          cases reply.queueId <;> exact hempty
      · exact ⟨hu.committed, (hsame _).trans href⟩
    · next hw =>
      have hw' : reply.writable = true := by simpa using hw
      split
      · next id hid =>
        refine ⟨hu.committed, ?_, fun _ => ⟨herror, (hsame _).trans href, before ++ [write],
          ?_, ?_, ?_⟩, fun hf' => absurd hf' hf⟩
        · rw [hsame]
          simp only [Work.after, hw']
          exact hu.refused
        · rw [hsplit, List.append_assoc, List.singleton_append]
        · simp only [Work.after, hid, hw']
          rw [hrows, List.zip_append hlength.symm]
          rfl
        · simp [hlength]
      · exact ⟨hu.committed, (hsame _).trans href⟩

/-- What an admission may leave. -/
def Atomic (writes : List AuthorizedQueueWrite) (r : Except QueueError (List ℤ))
    (s : Session (Work δ)) (h : Trace δ) : Prop :=
  (refusals h).Sublist s.committed.contained ∧
    match r with
    | .ok ids => s.committed.rows = writes.zip ids ∧ ids.length = writes.length
    | .error _ => s.committed.rows = []

/-- The second pass commits every write, or none of them. -/
theorem enqueueAll_spec (role : ProjectRole) (writes : List AuthorizedQueueWrite)
    (hrows : s.committed.rows = []) (hcontained : s.committed.contained = refusals h) :
    Spec (enqueueAll access now role writes) s h fun r s' h' =>
      (refusals h').Sublist s'.committed.contained ∧
        match r with
        | .ok p =>
          (p.fenced = true → s'.committed.rows = []) ∧
            (p.fenced = false → p.error = none ∧
              s'.committed.rows = writes.zip p.ids ∧ p.ids.length = writes.length)
        | .error _ => s'.committed.rows = [] := by
  have hstart : Underway s.committed writes writes ⟨[], false, none⟩ (.start s.committed) h :=
    ⟨rfl, hcontained ▸ List.Sublist.refl _, fun _ => ⟨rfl, hcontained.symm, [], rfl, hrows, rfl⟩,
      nofun⟩
  rw [Spec, enqueueAll, wp_transaction, wp_bind, grantFor]
  split
  · rw [wp_pure]
    refine wp_mono (wp_foldlM (I := fun rest p s' h' => Underway s.committed writes rest p s' h')
      (Q := fun r s' h' =>
        match r with
        | .ok p => Underway s.committed writes [] p s' h'
        | .error _ => s'.committed = s.committed ∧ refusals h' = s.committed.contained)
      ?_ (fun _ _ _ hu => hu) hstart) ?_
    · intro p write rest s₁ h₁ hu
      refine wp_mono (enqueueNext_spec hu) fun r s₂ h₂ hr => ?_
      match r with
      | .ok p' => exact hr
      | .error e => exact hr
    · intro r s₁ h₁ hr
      match r with
      | .error e =>
        refine ⟨?_, ?_⟩
        · change (refusals h₁).Sublist s₁.committed.contained
          rw [hr.1, hr.2]
        · change s₁.committed.rows = []
          rw [hr.1, hrows]
      | .ok p =>
        refine ⟨hr.refused, fun hf => (hr.fenced hf).2, fun hf => ?_⟩
        obtain ⟨herror, -, before, hsplit, hinserted, hlength⟩ := hr.inserted hf
        rw [List.append_nil] at hsplit
        subst hsplit
        exact ⟨herror, hinserted, hlength⟩
  · exact ⟨hcontained ▸ List.Sublist.refl _, hrows⟩

theorem raiseKept_spec {error : Option QueueError} {fenced : Bool}
    {Q : Except QueueError Unit → Session (Work δ) → Trace δ → Prop}
    (hraise : error ≠ none ∨ fenced = true → ∀ e, Q (.error e) s h)
    (hpass : error = none → fenced = false → Q (.ok ()) s h) :
    Spec (raiseKept error fenced) s h Q := by
  match error, fenced with
  | some e, _ => exact hraise (.inl (some_ne_none e)) e
  | none, true => exact hraise (.inr rfl) .erasureFenced
  | none, false => exact hpass rfl rfl

/-- **All or nothing.** What the two passes leave, against any environment. -/
theorem enqueueOrdered_atomic (access : AccessContext) (now : Moment) (role : ProjectRole)
    (writes : List AuthorizedQueueWrite) (db : δ) :
    Spec (enqueueOrdered access now role writes) (.start ⟨db, [], []⟩) [] (Atomic writes) := by
  refine ⟨trivial, fun r => ?_⟩
  have hnone : refusals [(⟨.shared access.projectId, r⟩ :
      Event (QueueCall δ) fun c => Except QueueError c.Result)] = [] := rfl
  match r with
  | .error e => exact ⟨hnone ▸ List.Sublist.refl _, rfl⟩
  | .ok _ => ?_
  refine wp_bind.mpr (wp_mono (preflightAll_spec role writes rfl hnone.symm) ?_)
  rintro (e | found) s₁ h₁ ⟨hrows₁, hcontained₁⟩
  · exact ⟨hcontained₁ ▸ List.Sublist.refl _, hrows₁⟩
  have hrefused₁ : (refusals h₁).Sublist s₁.committed.contained := hcontained₁ ▸ List.Sublist.refl _
  refine wp_bind.mpr (raiseKept_spec (fun _ e => ⟨hrefused₁, hrows₁⟩) fun _ _ => ?_)
  refine wp_bind.mpr (wp_mono (enqueueAll_spec role writes hrows₁ hcontained₁) ?_)
  rintro (e | p) s₂ h₂ ⟨hrefused₂, hrows₂⟩
  · exact ⟨hrefused₂, hrows₂⟩
  obtain ⟨hfenced, hinserted⟩ := hrows₂
  refine wp_bind.mpr (raiseKept_spec (fun hkept e => ⟨hrefused₂, ?_⟩) fun _ hf => ?_)
  · refine hfenced (of_not_eq_false fun hf => ?_)
    exact hkept.elim (fun herror => herror (hinserted hf).1) fun hf' => nomatch hf.symm.trans hf'
  · exact ⟨hrefused₂, (hinserted hf).2⟩

/-! ### The caller's order -/

section Order

variable {limits : AdmissionLimits} {writes' : List AuthorizedQueueWrite}

theorem utf8Encode_append (a b : PyStr) :
    utf8Encode (a ++ b) = (utf8Encode a).bind fun x => (utf8Encode b).map (x ++ ·) := by
  induction a with
  | nil => simp [utf8Encode]
  | cons c a ih =>
    rw [List.cons_append, utf8Encode, utf8Encode, ih]
    cases utf8Char c with
    | none => rfl
    | some x =>
      cases utf8Encode a with
      | none => rfl
      | some y => cases utf8Encode b <;> simp

/-- The bytes of a value, where it has a text. -/
def byteLength (value : Json) : ℕ := ((compactJsonBytes value).map List.length).getD 0

/-- The text of a list is as long as those of its elements with the brackets and commas. -/
theorem compactJsonBytes_arr {values : List Json}
    (hall : ∀ v ∈ values, (compactJsonBytes v).isSome) :
    ∃ bytes, compactJsonBytes (.arr values) = some bytes ∧
      bytes.length = (values.map byteLength).sum + (values.length - 1) + 2 := by
  have hparts : ∃ parts bytes, Json.dumpsItems ⟨false, true, false⟩ values = some parts ∧
      utf8Encode (Json.joinComma parts) = some bytes ∧ parts.length = values.length ∧
      bytes.length = (values.map byteLength).sum + (values.length - 1) := by
    induction values with
    | nil => exact ⟨[], [], rfl, rfl, rfl, rfl⟩
    | cons v values ih =>
      obtain ⟨parts, bytes, hdump, hencode, hcount, hlength⟩ :=
        ih fun w hw => hall w (List.mem_cons_of_mem v hw)
      obtain ⟨b, hb⟩ := isSome_iff_exists.mp (hall v List.mem_cons_self)
      obtain ⟨text, htext, hb'⟩ := bind_eq_some_iff.mp hb
      have hv : byteLength v = b.length := by rw [byteLength, hb]; rfl
      refine ⟨text :: parts, ?_⟩
      match parts with
      | [] =>
        obtain rfl : values = [] := List.length_eq_zero_iff.mp hcount.symm
        refine ⟨b, ?_, hb', rfl, by simp [hv]⟩
        simp [Json.dumpsItems, htext]
      | part :: parts =>
        refine ⟨b ++ 44 :: bytes, ?_, ?_, ?_, ?_⟩
        · simp [Json.dumpsItems, htext, hdump]
        · have hcomma : utf8Encode (44 :: Json.joinComma (part :: parts)) = some (44 :: bytes) := by
            rw [utf8Encode, hencode]
            rfl
          rw [Json.joinComma, utf8Encode_append, hb', hcomma]
          rfl
        · simp only [List.length_cons] at hcount ⊢
          omega
        · simp only [List.length_cons, List.map_cons, List.sum_cons, List.length_append]
            at hcount ⊢
          omega
  obtain ⟨parts, bytes, hdump, hencode, -, hlength⟩ := hparts
  refine ⟨91 :: (bytes ++ [93]), ?_, by simp [hlength]⟩
  rw [compactJsonBytes, Json.dumps, hdump]
  change utf8Encode (91 :: (Json.joinComma parts ++ [93])) = _
  rw [utf8Encode, utf8Encode_append, hencode]
  rfl

theorem measureWrites_eq_ok : measureWrites limits writes = .ok () ↔
    (∀ w ∈ writes, fits limits.maxItemBytes (envelope w) = true) ∧
      writes.length ≤ limits.maxBatchItems ∧
      (writes.map fun w => byteLength (envelope w)).sum + (writes.length - 1) + 2 ≤
        limits.maxBatchBytes := by
  have hsize : (∀ w ∈ writes, fits limits.maxItemBytes (envelope w) = true) →
      (fits limits.maxBatchBytes (.arr (writes.map envelope)) = true ↔
        (writes.map fun w => byteLength (envelope w)).sum + (writes.length - 1) + 2 ≤
          limits.maxBatchBytes) := by
    intro hall
    have htexts : ∀ v ∈ writes.map envelope, (compactJsonBytes v).isSome := by
      intro v hv
      obtain ⟨w, hw, rfl⟩ := List.mem_map.mp hv
      obtain ⟨b, hb, -⟩ := (any_eq_true _ _).mp (hall w hw)
      exact isSome_iff_exists.mpr ⟨b, hb⟩
    obtain ⟨bytes, hbytes, hlength⟩ := compactJsonBytes_arr htexts
    rw [fits, hbytes, any_some, decide_eq_true_eq, hlength, List.map_map, List.length_map]
    rfl
  rw [measureWrites, bind_eq_ok]
  constructor
  · rintro ⟨_, hall, h⟩
    obtain ⟨_, hcount, h⟩ := bind_eq_ok.mp h
    have hall' := List.all_eq_true.mp (ensure_eq_ok.mp hall)
    exact ⟨hall', by simpa using hcount, (hsize hall').mp (ensure_eq_ok.mp h)⟩
  · rintro ⟨hall, hcount, hfits⟩
    refine ⟨(), ensure_eq_ok.mpr (List.all_eq_true.mpr hall), ?_⟩
    refine guard_ok (ensure_eq_ok.mpr (decide_eq_true hcount)) ?_
    exact ensure_eq_ok.mpr ((hsize hall).mpr hfits)

variable {e : BatchError}

theorem eq_valueError_of_ensure {b : Bool} (h : ensure b BatchError.valueError = .error e) :
    e = .valueError := by
  cases b with
  | true => cases h
  | false => exact (Except.error.inj h).symm

theorem measureWrites_error (h : measureWrites limits writes = .error e) : e = .valueError := by
  obtain h | ⟨_, -, h⟩ := bind_eq_error.mp h
  · exact eq_valueError_of_ensure h
  obtain h | ⟨_, -, h⟩ := bind_eq_error.mp h
  · exact eq_valueError_of_ensure h
  · exact eq_valueError_of_ensure h

theorem measureWrites_perm (hperm : writes.Perm writes') :
    measureWrites limits writes = measureWrites limits writes' := by
  have hiff : measureWrites limits writes = .ok () ↔ measureWrites limits writes' = .ok () := by
    rw [measureWrites_eq_ok, measureWrites_eq_ok, hperm.length_eq, (hperm.map _).sum_eq]
    simp [hperm.mem_iff]
  cases h : measureWrites limits writes with
  | ok u => exact (hiff.mp h).symm
  | error e =>
    cases h' : measureWrites limits writes' with
    | ok u => exact nomatch h.symm.trans (hiff.mpr h')
    | error e' => rw [measureWrites_error h, measureWrites_error h']

theorem all_topic_perm (hperm : writes.Perm writes') {w w' : AuthorizedQueueWrite}
    (hw' : w' ∈ writes') (hall : writes.all (·.topic = w.topic) = true) :
    w'.topic = w.topic ∧ writes'.all (·.topic = w'.topic) = true := by
  have htopic : ∀ v ∈ writes', v.topic = w.topic := fun v hv =>
    of_decide_eq_true (List.all_eq_true.mp hall v (hperm.mem_iff.mpr hv))
  refine ⟨htopic w' hw', List.all_eq_true.mpr fun v hv => ?_⟩
  exact decide_eq_true ((htopic v hv).trans (htopic w' hw').symm)

theorem planAuthorizedEnqueue_perm (hperm : writes.Perm writes') :
    planAuthorizedEnqueue access writes = planAuthorizedEnqueue access writes' := by
  match writes, writes' with
  | [], [] => rfl
  | [], w' :: rest' => exact absurd hperm.length_eq (by simp)
  | w :: rest, [] => exact absurd hperm.length_eq (by simp)
  | w :: rest, w' :: rest' =>
    have hmem : w ∈ w :: rest := List.mem_cons_self
    have hmem' : w' ∈ w' :: rest' := List.mem_cons_self
    rw [planAuthorizedEnqueue, hperm.length_eq]
    refine congrArg _ (funext fun _ => ?_)
    change (ensure _ _ >>= _) = (ensure _ _ >>= _)
    by_cases hall : (w :: rest).all (·.topic = w.topic) = true
    · obtain ⟨htopic, hall'⟩ := all_topic_perm hperm hmem' hall
      rw [hall, hall', htopic]
    · have hall' : ¬ (w' :: rest').all (·.topic = w'.topic) = true := fun h =>
        hall (all_topic_perm hperm.symm hmem h).2
      rw [eq_false_iff.mpr hall, eq_false_iff.mpr hall']
      rfl

/-- The writes of each run in their order. -/
def SameRuns (writes writes' : List AuthorizedQueueWrite) : Prop :=
  ∀ run, writes.filter (·.runId = run) = writes'.filter (·.runId = run)

theorem SameRuns.filter_key (hruns : SameRuns writes writes') (k : ℕ) :
    writes.filter (fun w => w.runId.int.toNat = k) =
      writes'.filter fun w => w.runId.int.toNat = k := by
  by_cases hk : k < 2 ^ 128
  · have hkey : ∀ w : AuthorizedQueueWrite, decide (w.runId.int.toNat = k) =
        decide (w.runId = ⟨BitVec.ofNat 128 k⟩) := by
      intro w
      refine decide_eq_decide.mpr ⟨fun h => ?_, fun h => ?_⟩
      · rw [← h, BitVec.ofNat_toNat, BitVec.setWidth_eq]
      · rw [h, BitVec.toNat_ofNat, Nat.mod_eq_of_lt hk]
    simp only [hkey]
    exact hruns _
  · have hnone : ∀ w : AuthorizedQueueWrite, w.runId.int.toNat ≠ k := fun w h =>
      hk (h ▸ w.runId.int.isLt)
    simp [hnone]

/-- The order of the runs in a batch does not matter. -/
theorem enqueueManyAuthorized_eq (hruns : SameRuns writes writes') (now : Option Moment) :
    (enqueueManyAuthorized limits now access writes : Except BatchError (Producer δ (List ℤ))) =
      enqueueManyAuthorized limits now access writes' := by
  have hperm : writes.Perm writes' := StableSort.perm_of_filter_eq hruns.filter_key
  have horder : inRunOrder writes = inRunOrder writes' :=
    StableSort.sortByKey_eq_of_filter_eq hruns.filter_key
  rw [enqueueManyAuthorized, enqueueManyAuthorized, planAuthorizedEnqueue_perm hperm,
    measureWrites_perm hperm, horder]

end Order

/-! ### Batches -/

/-- An admission of a batch as a whole: it comes to an end; if it returned, there is one
identifier for each write and every write was inserted once; if it raised, nothing was
inserted; and what its preflights refused is contained. -/
structure Whole (writes : List AuthorizedQueueWrite) (a : Admission δ) : Prop where
  ended : ∃ result, a.result = some result
  returned : ∀ ids, a.result = some (.ok ids) → ids.length = writes.length ∧
    (a.committed.rows.map fst).Perm writes ∧ a.committed.rows.map snd = ids
  raised : ∀ e, a.result = some (.error e) → a.committed.rows = []
  contained : (refusals a.trace).Sublist a.committed.contained

theorem rows_of_zip {ids : List ℤ} (hlength : ids.length = (inRunOrder writes).length) :
    ids.length = writes.length ∧ (((inRunOrder writes).zip ids).map fst).Perm writes ∧
      ((inRunOrder writes).zip ids).map snd = ids := by
  have hperm : (inRunOrder writes).Perm writes := StableSort.perm_sortByKey writes
  refine ⟨hlength.trans hperm.length_eq, ?_, List.map_snd_zip hlength.le⟩
  rw [List.map_fst_zip hlength.ge]
  exact hperm

variable (limits : AdmissionLimits) (now : Option Moment) {σ : Type}
  (env : σ → (c : QueueCall δ) → Except QueueError c.Result × σ) (s : σ) (db : δ)
  (access : AccessContext) (writes : List AuthorizedQueueWrite)

theorem runBatch_whole : Whole writes (runBatch limits now env s db access writes) := by
  rw [runBatch]
  cases hprepared : enqueueManyAuthorized limits now access writes with
  | error e => exact ⟨⟨_, rfl⟩, nofun, fun _ _ => rfl, .refl _⟩
  | ok routine =>
    obtain ⟨plan, -, hprepared⟩ := bind_eq_ok.mp hprepared
    obtain ⟨-, -, hprepared⟩ := bind_eq_ok.mp hprepared
    obtain ⟨now', -, hprepared⟩ := bind_eq_ok.mp hprepared
    cases hprepared
    have hend := exec_outcome env
      (enqueueOrdered_atomic access now' plan.requiredRole (inRunOrder writes) db) s
    dsimp only
    split at hend
    · next result houtcome =>
      obtain ⟨result, session⟩ := result
      rw [houtcome]
      obtain ⟨hcontained, hresult⟩ := hend
      match result with
      | .ok ids =>
        refine ⟨⟨_, rfl⟩, fun ids' hids => ?_, nofun, hcontained⟩
        obtain rfl : ids = ids' := Except.ok.inj (Option.some.inj hids)
        rw [hresult.1]
        exact rows_of_zip hresult.2
      | .error e =>
        exact ⟨⟨_, rfl⟩, nofun, fun _ _ => hresult, hcontained⟩
    · exact hend.elim

/-- **A batch is admitted as a whole**, against any environment, and the order of the caller's
writes matters only within a run. -/
theorem runBatch_atomic : Whole writes (runBatch limits now env s db access writes) ∧
      ∀ writes', SameRuns writes writes' → runBatch limits now env s db access writes' =
        runBatch limits now env s db access writes := by
  refine ⟨runBatch_whole limits now env s db access writes, fun writes' hruns => ?_⟩
  rw [runBatch, runBatch, enqueueManyAuthorized_eq hruns now]

end Tracebed.Queue
