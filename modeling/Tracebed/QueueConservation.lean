import Tracebed.QueueDelivery

/-!
# No Row of the Queue Is Lost or Handed Out Twice

A run of the queue is any list of enqueues, claims, dispositions with any generation, passages of
time and changes of the fences. `Kept` says that each row that was enqueued has a record in the
log, of the form that `Delivery.Recorded` asks for at the place where the row is.

The result is `queue_conserved`: each row is in one place, leaves `work_queue` only in the ways
`Removes` lists, is handed out at most `maxAttempts + 1` times and never under a running lease,
and a disposition of any other generation changes nothing.
-/

open Py Fallible Delivery Table List

namespace Tracebed.Queue

variable {β : Type} {s s' : QueueStore β} {log log' : List (QueueEvent β)} {c row : QueueRow β}
  {id : ℕ}

/-! ### What the log says about a row -/

/-- What a disposition that was granted puts on record. -/
def DisposeCall.deed (call : DisposeCall) (e : ℤ) : Deed ℤ :=
  match call.action with
  | .ack => .acked call.generation.attempts.toNat e
  | .nack => .nacked call.generation.attempts.toNat e
  | .reject => .rejected call.generation.attempts.toNat e

/-- What an event puts on record about a row. -/
def deedsOf (id : ℕ) : QueueEvent β → List (Deed ℤ)
  | .claimed rows => (rows.filter (·.id = id)).map fun row =>
    .handed row.attempts (row.leaseExpiresAt.getD 0)
  | .disposed call true =>
    if call.generation.id = id then (call.generation.leaseExpiresAt.map call.deed).toList else []
  | _ => []

/-- The record of a row. -/
def past (id : ℕ) (log : List (QueueEvent β)) : List (Deed ℤ) := log.flatMap (deedsOf id)

/-- The row that an event enqueues. -/
def QueueEvent.submission? : QueueEvent β → Option (QueueRow β)
  | .enqueued row => some row
  | _ => none

/-- The rows that were enqueued, as they were then. -/
def submissions (log : List (QueueEvent β)) : List (QueueRow β) :=
  log.filterMap QueueEvent.submission?

/-- Where a row is that was enqueued. -/
def placeOf (s : QueueStore β) (id : ℕ) : Place ℤ :=
  match s.queue.find? (·.id = id) with
  | some row => .queued row.attempts row.leaseExpiresAt
  | none => if s.dead.any (·.row.id = id) then .dead else .acknowledged

theorem past_concat (id : ℕ) (log : List (QueueEvent β)) (e : QueueEvent β) :
    past id (log ++ [e]) = past id log ++ deedsOf id e := by
  rw [past, flatMap_append, flatMap_singleton]
  rfl

theorem submissions_concat (log : List (QueueEvent β)) (e : QueueEvent β) :
    submissions (log ++ [e]) = submissions log ++ e.submission?.toList := by
  rw [submissions, filterMap_append, filterMap_cons]
  cases e.submission? <;> rfl

theorem deedsOf_claimed_concat (id : ℕ) (rows : List (QueueRow β)) (row : QueueRow β) (e : ℤ) :
    deedsOf id (.claimed (rows ++ [row.leased e])) = deedsOf id (.claimed rows) ++
      if row.id = id then [.handed (row.attempts + 1) e] else [] := by
  rw [deedsOf, filter_append, map_append, filter_singleton]
  by_cases h : row.id = id
  · rw [if_pos h, show decide ((row.leased e).id = id) = true from decide_eq_true h]
    rfl
  · rw [if_neg h, show decide ((row.leased e).id = id) = false from decide_eq_false h]
    rfl

/-! ### The place of a row -/

theorem placeOf_of_mem (hkeyed : Table.Keyed QueueRow.id s.queue) (h : row ∈ s.queue) :
    placeOf s row.id = .queued row.attempts row.leaseExpiresAt := by
  have hsome : (s.queue.find? (·.id = row.id)).isSome = true := by
    rw [find?_isSome]
    exact ⟨row, h, decide_eq_true rfl⟩
  obtain ⟨found, hfound⟩ := Option.isSome_iff_exists.mp hsome
  have hsame : found = row := hkeyed.eq_of_key (mem_of_find?_eq_some hfound) h
    (of_decide_eq_true (find?_some (p := fun r : QueueRow β => decide (r.id = row.id)) hfound))
  rw [placeOf, hfound, hsame]

theorem placeOf_of_not_mem (h : ∀ row ∈ s.queue, row.id ≠ id) :
    placeOf s id = if s.dead.any (·.row.id = id) then .dead else .acknowledged := by
  have hnone : s.queue.find? (·.id = id) = none :=
    find?_eq_none.mpr fun row hrow => by simpa using h row hrow
  rw [placeOf, hnone]

/-- A row is where it was if its rows are what they were. -/
theorem placeOf_congr (hkeyed : Table.Keyed QueueRow.id s.queue)
    (hkeyed' : Table.Keyed QueueRow.id s'.queue)
    (hqueue : ∀ row, row.id = id → (row ∈ s'.queue ↔ row ∈ s.queue))
    (hdead : s'.dead.any (·.row.id = id) = s.dead.any (·.row.id = id)) :
    placeOf s' id = placeOf s id := by
  by_cases h : ∃ row ∈ s.queue, row.id = id
  · obtain ⟨row, hrow, rfl⟩ := h
    rw [placeOf_of_mem hkeyed hrow, placeOf_of_mem hkeyed' ((hqueue row rfl).mpr hrow)]
  · have hnot : ∀ row ∈ s.queue, row.id ≠ id := fun row hrow heq => h ⟨row, hrow, heq⟩
    rw [placeOf_of_not_mem hnot, placeOf_of_not_mem, hdead]
    exact fun row hrow heq => hnot row ((hqueue row heq).mp hrow) heq

/-! ### One row -/

theorem isGeneration_iff (hkeyed : Table.Keyed QueueRow.id s.queue) (hc : c ∈ s.queue)
    (hrow : row ∈ s.queue) : isGeneration c row = true ↔ row = c := by
  constructor
  · intro h
    simp only [isGeneration, Bool.and_eq_true, decide_eq_true_eq] at h
    exact hkeyed.eq_of_key hrow hc h.1.1
  · rintro rfl
    simp [isGeneration]

theorem mem_remove (hkeyed : Table.Keyed QueueRow.id s.queue) (hc : c ∈ s.queue) :
    row ∈ (s.remove c).queue ↔ row ∈ s.queue ∧ row ≠ c := by
  rw [QueueStore.remove, mem_filter]
  refine and_congr_right fun hrow => ?_
  rw [Bool.not_eq_true', ← Bool.not_eq_true, isGeneration_iff hkeyed hc hrow]

theorem mem_rewrite (hkeyed : Table.Keyed QueueRow.id s.queue) (hc : c ∈ s.queue)
    {f : QueueRow β → QueueRow β} :
    row ∈ (s.rewrite c f).queue ↔ row ∈ s.queue ∧ row ≠ c ∨ row = f c := by
  rw [QueueStore.rewrite, mem_updateWhere]
  constructor
  · rintro ⟨old, hold, rfl⟩
    split
    · next h => exact .inr (by rw [(isGeneration_iff hkeyed hc hold).mp h])
    · next h => exact .inl ⟨hold, fun heq => h ((isGeneration_iff hkeyed hc hold).mpr heq)⟩
  · rintro (⟨hrow, hne⟩ | rfl)
    · exact ⟨row, hrow, if_neg fun h => hne ((isGeneration_iff hkeyed hc hrow).mp h)⟩
    · exact ⟨c, hc, if_pos ((isGeneration_iff hkeyed hc hc).mpr rfl)⟩

/-! ### What every action keeps -/

/-- The tables have each row once, and the log agrees with them about every row that was
enqueued. -/
structure Kept (s : QueueStore β) (log : List (QueueEvent β)) : Prop where
  keyed : Table.Keyed QueueRow.id s.queue
  deadKeyed : Table.Keyed (fun d : DeadRow β => d.row.id) s.dead
  apart : ∀ row ∈ s.queue, ∀ d ∈ s.dead, d.row.id ≠ row.id
  submitted : ∀ row ∈ s.queue, ∃ sub ∈ submissions log, sub.id = row.id ∧
    sub.maxAttempts = row.maxAttempts
  issued : (∀ sub ∈ submissions log, sub.id < s.nextId) ∧ (∀ d ∈ s.dead, d.row.id < s.nextId)
  unissued : ∀ id, s.nextId ≤ id → past id log = []
  distinct : Table.Keyed QueueRow.id (submissions log)
  recorded : ∀ sub ∈ submissions log,
    Recorded sub.maxAttempts s.now (past sub.id log) (placeOf s sub.id)

namespace Kept

theorem recorded_of_mem (h : Kept s log) (hc : c ∈ s.queue) :
    Recorded c.maxAttempts s.now (past c.id log) (.queued c.attempts c.leaseExpiresAt) := by
  obtain ⟨sub, hsub, hid, hmax⟩ := h.submitted c hc
  have hrecorded := h.recorded sub hsub
  rwa [hid, hmax, placeOf_of_mem h.keyed hc] at hrecorded

theorem id_lt (h : Kept s log) (hc : c ∈ s.queue) : c.id < s.nextId := by
  obtain ⟨sub, hsub, hid, -⟩ := h.submitted c hc
  exact hid ▸ h.issued.1 sub hsub

theorem change (h : Kept s log) (hc : c ∈ s.queue) (hkeyed : Table.Keyed QueueRow.id s'.queue)
    (hdeadKeyed : Table.Keyed (fun d : DeadRow β => d.row.id) s'.dead)
    (hapart : ∀ row ∈ s'.queue, ∀ d ∈ s'.dead, d.row.id ≠ row.id)
    (hqueue : ∀ row ∈ s'.queue, ∃ old ∈ s.queue, old.id = row.id ∧
      old.maxAttempts = row.maxAttempts)
    (hdead : ∀ d ∈ s'.dead, d ∈ s.dead ∨ d.row = c)
    (hsame : s'.nextId = s.nextId ∧ s'.now = s.now) (hlog : submissions log' = submissions log)
    (hothers : ∀ id, id ≠ c.id → past id log' = past id log ∧ placeOf s' id = placeOf s id)
    (hrecorded : Recorded c.maxAttempts s.now (past c.id log') (placeOf s' c.id)) :
    Kept s' log' where
  keyed := hkeyed
  deadKeyed := hdeadKeyed
  apart := hapart
  submitted := fun row hrow => by
    obtain ⟨old, hold, hid, hmax⟩ := hqueue row hrow
    obtain ⟨sub, hsub, hid', hmax'⟩ := h.submitted old hold
    exact ⟨sub, hlog ▸ hsub, hid'.trans hid, hmax'.trans hmax⟩
  issued := by
    rw [hlog, hsame.1]
    refine ⟨h.issued.1, fun d hd => ?_⟩
    rcases hdead d hd with hd | hd
    · exact h.issued.2 d hd
    · exact hd ▸ h.id_lt hc
  unissued := fun id hid => by
    have hlt := h.id_lt hc
    rw [hsame.1] at hid
    rw [(hothers id (by omega)).1]
    exact h.unissued id hid
  distinct := hlog ▸ h.distinct
  recorded := fun sub hsub => by
    rw [hlog] at hsub
    rw [hsame.2]
    by_cases hid : sub.id = c.id
    · obtain ⟨own, hown, hid', hmax⟩ := h.submitted c hc
      obtain rfl := h.distinct.eq_of_key hsub hown (hid.trans hid'.symm)
      rwa [hid, hmax]
    · rw [(hothers sub.id hid).1, (hothers sub.id hid).2]
      exact h.recorded sub hsub

variable {f : QueueRow β → QueueRow β}

/-- A row is updated. -/
theorem rewrite (h : Kept s log) (hc : c ∈ s.queue)
    (hf : ∀ row, (f row).id = row.id ∧ (f row).maxAttempts = row.maxAttempts)
    (hlog : submissions log' = submissions log)
    (hothers : ∀ id, id ≠ c.id → past id log' = past id log)
    (hrecorded : Recorded c.maxAttempts s.now (past c.id log')
      (.queued (f c).attempts (f c).leaseExpiresAt)) : Kept (s.rewrite c f) log' := by
  have hkeyed : Table.Keyed QueueRow.id (s.rewrite c f).queue :=
    h.keyed.updateWhere fun row => (hf row).1
  have hmem : ∀ row, row ∈ (s.rewrite c f).queue ↔ row ∈ s.queue ∧ row ≠ c ∨ row = f c :=
    fun row => mem_rewrite h.keyed hc
  have hold : ∀ row ∈ (s.rewrite c f).queue, ∃ old ∈ s.queue, old.id = row.id ∧
      old.maxAttempts = row.maxAttempts := by
    intro row hrow
    rcases (hmem row).mp hrow with ⟨hrow, -⟩ | rfl
    · exact ⟨row, hrow, rfl, rfl⟩
    · exact ⟨c, hc, (hf c).1.symm, (hf c).2.symm⟩
  refine h.change hc hkeyed h.deadKeyed (fun row hrow d hd => ?_) hold (fun d hd => .inl hd)
    ⟨rfl, rfl⟩ hlog (fun id hid => ⟨hothers id hid, ?_⟩) ?_
  · obtain ⟨old, hold, hid, -⟩ := hold row hrow
    exact hid ▸ h.apart old hold d hd
  · refine placeOf_congr h.keyed hkeyed (fun row hrow => ?_) rfl
    subst hrow
    rw [hmem]
    constructor
    · rintro (⟨hrow, -⟩ | rfl)
      · exact hrow
      · exact absurd (hf c).1 hid
    · exact fun hrow => .inl ⟨hrow, fun heq => hid (congrArg QueueRow.id heq)⟩
  · rw [← (hf c).1, placeOf_of_mem hkeyed ((hmem _).mpr (.inr rfl)), (hf c).1]
    exact hrecorded

/-- The other rows after a row has left the queue. -/
theorem mem_remove_id (h : Kept s log) (hc : c ∈ s.queue) :
    (∀ row ∈ (s.remove c).queue, row ∈ s.queue ∧ row.id ≠ c.id) ∧
      ∀ row, row.id ≠ c.id → (row ∈ (s.remove c).queue ↔ row ∈ s.queue) := by
  refine ⟨fun row hrow => ?_, fun row hid => ?_⟩
  · obtain ⟨hrow, hne⟩ := (mem_remove h.keyed hc).mp hrow
    exact ⟨hrow, fun hid => hne (h.keyed.eq_of_key hrow hc hid)⟩
  · rw [mem_remove h.keyed hc]
    exact ⟨fun hrow => hrow.1, fun hrow => ⟨hrow, fun heq => hid (congrArg QueueRow.id heq)⟩⟩

/-- A row is deleted. -/
theorem remove (h : Kept s log) (hc : c ∈ s.queue) (hlog : submissions log' = submissions log)
    (hothers : ∀ id, id ≠ c.id → past id log' = past id log)
    (hrecorded : Recorded c.maxAttempts s.now (past c.id log') .acknowledged) :
    Kept (s.remove c) log' := by
  obtain ⟨hleft, hmem⟩ := h.mem_remove_id hc
  have hkeyed : Table.Keyed QueueRow.id (s.remove c).queue := h.keyed.filter _
  refine h.change hc hkeyed h.deadKeyed (fun row hrow => h.apart row (hleft row hrow).1)
    (fun row hrow => ⟨row, (hleft row hrow).1, rfl, rfl⟩) (fun d hd => .inl hd) ⟨rfl, rfl⟩ hlog
    (fun id hid => ⟨hothers id hid, ?_⟩) ?_
  · exact placeOf_congr h.keyed hkeyed (fun row hrow => hmem row (hrow ▸ hid)) rfl
  · have hdead : s.dead.any (·.row.id = c.id) = false :=
      any_eq_false.mpr fun d hd => by simpa using h.apart c hc d hd
    rw [placeOf_of_not_mem fun row hrow => (hleft row hrow).2]
    change Recorded _ _ _ (if s.dead.any _ then _ else _)
    rw [hdead]
    exact hrecorded

/-- A row is moved to the dead letters. -/
theorem bury (h : Kept s log) (hc : c ∈ s.queue) {reason : Option PyStr}
    (hlog : submissions log' = submissions log)
    (hothers : ∀ id, id ≠ c.id → past id log' = past id log)
    (hrecorded : Recorded c.maxAttempts s.now (past c.id log') .dead) :
    Kept (s.bury c reason) log' := by
  obtain ⟨hleft, hmem⟩ := h.mem_remove_id hc
  have hkeyed : Table.Keyed QueueRow.id (s.bury c reason).queue := h.keyed.filter _
  have hdead : ∀ d ∈ (s.bury c reason).dead, d ∈ s.dead ∨ d = ⟨c, s.now, reason⟩ := fun d hd =>
    (mem_append.mp hd).imp id mem_singleton.mp
  refine h.change hc hkeyed (h.deadKeyed.append_singleton ?_) (fun row hrow d hd => ?_)
    (fun row hrow => ⟨row, (hleft row hrow).1, rfl, rfl⟩)
    (fun d hd => (hdead d hd).imp id fun heq => by rw [heq]) ⟨rfl, rfl⟩ hlog
    (fun id hid => ⟨hothers id hid, ?_⟩) ?_
  · intro hmem
    obtain ⟨d, hd, heq⟩ := mem_map.mp hmem
    exact h.apart c hc d hd heq
  · rcases hdead d hd with hd | rfl
    · exact h.apart row (hleft row hrow).1 d hd
    · exact (hleft row hrow).2.symm
  · refine placeOf_congr h.keyed hkeyed (fun row hrow => hmem row (hrow ▸ hid)) ?_
    rw [QueueStore.bury]
    simp [Ne.symm hid]
  · have hgone : ∀ row ∈ (s.bury c reason).queue, row.id ≠ c.id := fun row hrow =>
      (hleft row hrow).2
    rw [placeOf_of_not_mem hgone, if_pos]
    · exact hrecorded
    · exact any_eq_true.mpr ⟨⟨c, s.now, reason⟩, mem_append_right _ mem_cons_self,
        decide_eq_true rfl⟩

end Kept

/-! ### The loop of a claim -/

theorem filter_isGeneration (hkeyed : Table.Keyed QueueRow.id s.queue) (hc : c ∈ s.queue) :
    s.queue.filter (isGeneration c) = [c] := by
  have hmem : c ∈ s.queue.filter (isGeneration c) :=
    mem_filter.mpr ⟨hc, (isGeneration_iff hkeyed hc hc).mpr rfl⟩
  have hall : ∀ row ∈ s.queue.filter (isGeneration c), row = c := fun row hrow =>
    (isGeneration_iff hkeyed hc (mem_filter.mp hrow).1).mp (mem_filter.mp hrow).2
  obtain ⟨row, hrow⟩ := length_eq_one_iff.mp
    ((hkeyed.filter _).length_eq_one hmem fun row hrow => by rw [hall row hrow])
  rw [hrow, hall row (hrow ▸ mem_cons_self)]

/-- The lease a claim grants in a state. -/
def ClaimCall.expiry (call : ClaimCall) (s : QueueStore β) : ℤ := s.now + call.lease

/-- What a candidate in the queue comes to: nothing, the dead letters, or a lease. -/
theorem claimOne_cases (call : ClaimCall) (hkeyed : Table.Keyed QueueRow.id s.queue)
    (hc : c ∈ s.queue) : claimOne call c s = ([], s) ∨
      c.maxAttempts < c.attempts ∧
        claimOne call c s = ([], s.bury c (some (str "max_attempts_exceeded"))) ∨
      c.attempts ≤ c.maxAttempts ∧ claimOne call c s = ([c.leased (call.expiry s)],
        s.rewrite c (QueueRow.leased (call.expiry s))) := by
  rw [claimOne]
  split
  · exact .inl rfl
  split
  · next hover =>
    have hany : s.queue.any (isGeneration c) = true :=
      any_eq_true.mpr ⟨c, hc, (isGeneration_iff hkeyed hc hc).mpr rfl⟩
    rw [if_pos hany]
    exact .inr (.inl ⟨hover, rfl⟩)
  · next hover =>
    rw [filter_isGeneration hkeyed hc]
    exact .inr (.inr ⟨not_lt.mp hover, rfl⟩)

/-- **Invariant rule of the loop.** What a burial and a lease of a free row of the queue keep, the
loop keeps. -/
theorem claimAll_invariant {call : ClaimCall} {P : List (QueueRow β) → QueueStore β → Prop}
    (hbury : ∀ claimed s c, P claimed s → c ∈ s.queue → IsFree s.now c.leaseExpiresAt →
      c.maxAttempts < c.attempts → P claimed (s.bury c (some (str "max_attempts_exceeded"))))
    (hlease : ∀ claimed s c, P claimed s → c ∈ s.queue → IsFree s.now c.leaseExpiresAt →
      c.attempts ≤ c.maxAttempts → P (claimed ++ [c.leased (call.expiry s)])
        (s.rewrite c (QueueRow.leased (call.expiry s))))
    {cs claimed : List (QueueRow β)} (hkeyed : Table.Keyed QueueRow.id s.queue)
    (hcs : ∀ c ∈ cs, c ∈ s.queue ∧ IsFree s.now c.leaseExpiresAt)
    (hdistinct : Table.Keyed QueueRow.id cs) (hP : P claimed s) :
    P (claimAll call cs claimed s).1 (claimAll call cs claimed s).2 := by
  induction cs generalizing claimed s with
  | nil => exact hP
  | cons c rest ih =>
    obtain ⟨hc, hfree⟩ := hcs c mem_cons_self
    have hrest : ∀ row ∈ rest, row ∈ s.queue ∧ IsFree s.now row.leaseExpiresAt ∧ row ≠ c := by
      intro row hrow
      obtain ⟨hmem, hfree⟩ := hcs row (mem_cons_of_mem _ hrow)
      refine ⟨hmem, hfree, fun heq => ?_⟩
      exact (nodup_cons.mp hdistinct).1 (heq ▸ mem_map_of_mem hrow)
    have hdistinct' : Table.Keyed QueueRow.id rest := (nodup_cons.mp hdistinct).2
    rw [claimAll]
    rcases claimOne_cases call hkeyed hc with hone | ⟨hover, hone⟩ | ⟨hle, hone⟩
    · rw [hone]
      dsimp only
      rw [append_nil]
      split
      · exact hP
      · exact ih hkeyed (fun row hrow => ⟨(hrest row hrow).1, (hrest row hrow).2.1⟩) hdistinct' hP
    · have hnext := hbury claimed s c hP hc hfree hover
      rw [hone]
      dsimp only
      rw [append_nil]
      split
      · exact hnext
      · refine ih (hkeyed.filter _) (fun row hrow => ?_) hdistinct' hnext
        obtain ⟨hmem, hfree, hne⟩ := hrest row hrow
        exact ⟨(mem_remove hkeyed hc).mpr ⟨hmem, hne⟩, hfree⟩
    · have hnext := hlease claimed s c hP hc hfree hle
      rw [hone]
      dsimp only
      split
      · exact hnext
      · refine ih (hkeyed.updateWhere fun _ => rfl) (fun row hrow => ?_) hdistinct' hnext
        obtain ⟨hmem, hfree, hne⟩ := hrest row hrow
        exact ⟨(mem_rewrite hkeyed hc).mpr (.inl ⟨hmem, hne⟩), hfree⟩

theorem candidates_spec (call : ClaimCall) (hkeyed : Table.Keyed QueueRow.id s.queue) :
    (∀ c ∈ candidates call s, c ∈ s.queue ∧ IsFree s.now c.leaseExpiresAt) ∧
      Table.Keyed QueueRow.id (candidates call s) := by
  have hperm := perm_insertionSort (claimedBefore (β := β))
    (s.queue.filter fun row => isClaimable s call.topic row && !call.locked row.id)
  refine ⟨fun c hc => ?_, ?_⟩
  · obtain ⟨hmem, hclaimable⟩ := mem_filter.mp (hperm.mem_iff.mp (mem_of_mem_take hc))
    refine ⟨hmem, fun e he => ?_⟩
    simp only [isClaimable, Bool.and_eq_true, Option.all_eq_true] at hclaimable
    exact of_decide_eq_true (hclaimable.1.1.2 e he)
  · have hsorted : Table.Keyed QueueRow.id (List.insertionSort claimedBefore
        (s.queue.filter fun row => isClaimable s call.topic row && !call.locked row.id)) :=
      (hperm.map QueueRow.id).nodup_iff.mpr (hkeyed.filter _)
    exact hsorted.sublist ((take_sublist _ _).map _)

/-! ### The actions -/

/-- An event that puts nothing on record. -/
theorem Kept.of_silent (h : Kept s log) {e : QueueEvent β} (he : e.submission? = none)
    (hdeeds : ∀ id, deedsOf id e = []) : Kept s (log ++ [e]) := by
  have hsub : submissions (log ++ [e]) = submissions log := by
    rw [submissions_concat, he]
    exact append_nil _
  have hpast : ∀ id, past id (log ++ [e]) = past id log := fun id => by
    rw [past_concat, hdeeds, append_nil]
  exact { h with
      submitted := hsub ▸ h.submitted
      issued := hsub ▸ h.issued
      unissued := fun id hid => (hpast id).trans (h.unissued id hid)
      distinct := hsub ▸ h.distinct
      recorded := fun sub hmem => hpast sub.id ▸ h.recorded sub (hsub ▸ hmem) }

variable {rows : List (QueueRow β)} {e : ℤ}

theorem nacked_of_claimed {n : ℕ} (h : .nacked n e ∈ past id (log ++ [.claimed rows])) :
    .nacked n e ∈ past id log := by
  rw [past_concat] at h
  rcases mem_append.mp h with h | h
  · exact h
  · obtain ⟨row, -, heq⟩ := mem_map.mp h
    cases heq

/-- The hand-outs of a row are over in a log. -/
def Over (log : List (QueueEvent β)) (now : ℤ) (id : ℕ) : Prop :=
  ∀ n e, .handed n e ∈ past id log → .nacked n e ∈ past id log ∨ e < now

/-- What a claim leaves: the log keeps up with it, every row it returns was free, and a row that
has left the queue was free and had been handed out too often. -/
structure Claimed (log : List (QueueEvent β)) (s : QueueStore β) (claimed : List (QueueRow β))
    (s' : QueueStore β) : Prop where
  kept : Kept s' (log ++ [.claimed claimed])
  now : s'.now = s.now
  ended : ∀ row ∈ claimed, Over log s.now row.id
  left : ∀ row ∈ s.queue, row ∈ s'.queue ∨
    (∃ other ∈ s'.queue, other.id = row.id ∧ ¬ IsFree s.now other.leaseExpiresAt) ∨
    row.maxAttempts < row.attempts ∧ IsFree s.now row.leaseExpiresAt

namespace Claimed

variable {claimed : List (QueueRow β)} {st : QueueStore β}

/-- A row that is free changes, and the others stay. -/
theorem left_of (h : Claimed log s claimed st) (hfree : IsFree st.now c.leaseExpiresAt)
    {st' : QueueStore β} (hmem : ∀ row ∈ st.queue, row ≠ c → row ∈ st'.queue)
    (hc : (∃ other ∈ st'.queue, other.id = c.id ∧ ¬ IsFree s.now other.leaseExpiresAt) ∨
      c.maxAttempts < c.attempts ∧ IsFree s.now c.leaseExpiresAt) :
    ∀ row ∈ s.queue, row ∈ st'.queue ∨
      (∃ other ∈ st'.queue, other.id = row.id ∧ ¬ IsFree s.now other.leaseExpiresAt) ∨
      row.maxAttempts < row.attempts ∧ IsFree s.now row.leaseExpiresAt := by
  intro row hrow
  rcases h.left row hrow with hrow | ⟨other, hother, hid, hheld⟩ | hgone
  · by_cases heq : row = c
    · exact .inr (heq ▸ hc)
    · exact .inl (hmem row hrow heq)
  · have hne : other ≠ c := fun heq => hheld (heq ▸ h.now ▸ hfree)
    exact .inr (.inl ⟨other, hmem other hother hne, hid, hheld⟩)
  · exact .inr (.inr hgone)

/-- A row is given up. -/
theorem bury (h : Claimed log s claimed st) (hc : c ∈ st.queue)
    (hfree : IsFree st.now c.leaseExpiresAt) (hover : c.maxAttempts < c.attempts)
    (reason : Option PyStr) : Claimed log s claimed (st.bury c reason) where
  kept := h.kept.bury hc rfl (fun _ _ => rfl) (h.kept.recorded_of_mem hc).give_up
  now := h.now
  ended := h.ended
  left := h.left_of hfree (fun _ hrow hne => (mem_remove h.kept.keyed hc).mpr ⟨hrow, hne⟩)
    (.inr ⟨hover, h.now ▸ hfree⟩)

/-- A row is handed out. -/
theorem lease (h : Claimed log s claimed st) (hc : c ∈ st.queue)
    (hfree : IsFree st.now c.leaseExpiresAt) (hle : c.attempts ≤ c.maxAttempts) (he : st.now < e) :
    Claimed log s (claimed ++ [c.leased e]) (st.rewrite c (QueueRow.leased e)) where
  kept := by
    refine h.kept.rewrite hc (fun _ => ⟨rfl, rfl⟩) ?_ (fun id hid => ?_) ?_
    · rw [submissions_concat, submissions_concat]
      rfl
    · rw [past_concat, past_concat, deedsOf_claimed_concat, if_neg hid.symm, append_nil]
    · rw [past_concat, deedsOf_claimed_concat, if_pos rfl, ← append_assoc, ← past_concat]
      exact (h.kept.recorded_of_mem hc).hand hle hfree e
  now := h.now
  ended := fun row hrow => by
    rcases mem_append.mp hrow with hrow | hrow
    · exact h.ended row hrow
    · intro n f hn
      rw [mem_singleton.mp hrow] at hn ⊢
      have hpast : .handed n f ∈ past c.id (log ++ [.claimed claimed]) := by
        rw [past_concat]
        exact mem_append_left _ hn
      rw [← h.now]
      exact ((h.kept.recorded_of_mem hc).spaced hfree hpast).imp nacked_of_claimed id
  left := h.left_of hfree (fun _ hrow hne => (mem_rewrite h.kept.keyed hc).mpr (.inl ⟨hrow, hne⟩))
    (.inl ⟨c.leased e, (mem_rewrite h.kept.keyed hc).mpr (.inr rfl), rfl,
      fun hend => lt_asymm (h.now ▸ he) (hend e rfl)⟩)

end Claimed

theorem claim_claimed {call : ClaimCall} (h : Kept s log)
    (hclaim : claim call s = some (rows, s')) : Claimed log s rows s' := by
  rw [claim] at hclaim
  split at hclaim
  · next hvalid =>
    have hlong : 0 < call.lease := by
      simp only [ClaimCall.isValid, Bool.and_eq_true, decide_eq_true_eq] at hvalid
      exact hvalid.1.1
    obtain ⟨hcs, hdistinct⟩ := candidates_spec call h.keyed
    have hstart : Claimed log s [] s :=
      ⟨h.of_silent rfl fun _ => rfl, rfl, nofun, fun row hrow => .inl hrow⟩
    have hlate : ∀ st : QueueStore β, st.now < call.expiry st := fun st =>
      lt_add_of_pos_right _ hlong
    have hend := claimAll_invariant (P := Claimed log s)
      (fun claimed st c h hc hfree hover => h.bury hc hfree hover _)
      (fun claimed st c h hc hfree hle => h.lease hc hfree hle (hlate st))
      h.keyed hcs hdistinct hstart
    rwa [Option.some.inj hclaim] at hend
  · cases hclaim

variable {call : DisposeCall} {answer : Bool}

/-- What a disposition comes to: it changes nothing, or it is what its action does to the row
that is named. -/
theorem disposition_cases (h : disposition call s = some (answer, s')) : answer = false ∧ s' = s ∨
      ∃ c ∈ s.queue, ∃ e, isNamed call.generation c = true ∧ c.leaseExpiresAt = some e ∧
        answer = true ∧ s' = match call.action with
          | .ack => s.remove c
          | .nack => s.rewrite c (QueueRow.released (s.now + call.backoff.getD 0))
          | .reject => s.bury c call.reason := by
  rw [disposition] at h
  split at h
  · next hvalid =>
    have h := Option.some.inj h
    split at h
    · obtain ⟨rfl, rfl⟩ := Prod.mk.inj h
      exact .inl ⟨rfl, rfl⟩
    · next c hfind =>
      split at h
      · obtain ⟨rfl, rfl⟩ := Prod.mk.inj h
        exact .inl ⟨rfl, rfl⟩
      · have hc := mem_of_find?_eq_some hfind
        have hnamed := find?_some hfind
        have hlease : c.leaseExpiresAt = call.generation.leaseExpiresAt := by
          simp only [isNamed, Bool.and_eq_true, decide_eq_true_eq] at hnamed
          exact hnamed.2
        simp only [DisposeCall.isValid, Generation.isValid, Bool.and_eq_true] at hvalid
        obtain ⟨e, he⟩ := Option.isSome_iff_exists.mp hvalid.1.2
        have hfound : s.queue.any (isGeneration c) = true :=
          any_eq_true.mpr ⟨c, hc, by simp [isGeneration]⟩
        refine .inr ⟨c, hc, e, hnamed, hlease.trans he, ?_⟩
        rw [dispose, hfound] at h
        cases haction : call.action <;> rw [haction] at h <;>
          exact ⟨(Prod.mk.inj h).1.symm, (Prod.mk.inj h).2.symm⟩
  · cases h

theorem isNamed_iff {g : Generation} : isNamed g c = true ↔
    (c.id : ℤ) = g.id ∧ (c.attempts : ℤ) = g.attempts ∧ c.leaseExpiresAt = g.leaseExpiresAt := by
  simp only [isNamed, Bool.and_eq_true, decide_eq_true_eq, and_assoc]

theorem deedsOf_disposed (hnamed : isNamed call.generation c = true)
    (he : c.leaseExpiresAt = some e) (id : ℕ) :
    deedsOf id (QueueEvent.disposed (β := β) call true) =
      if c.id = id then [call.deed e] else [] := by
  obtain ⟨hid, -, hlease⟩ := isNamed_iff.mp hnamed
  rw [deedsOf, ← hid, ← hlease, he]
  simp only [Nat.cast_inj, Option.map_some, Option.toList_some]

theorem Kept.dispose (h : Kept s log) (hcall : disposition call s = some (answer, s')) :
    Kept s' (log ++ [.disposed call answer]) := by
  rcases disposition_cases hcall with ⟨rfl, rfl⟩ | ⟨c, hc, e, hnamed, he, rfl, rfl⟩
  · exact h.of_silent rfl fun _ => rfl
  · have hsub : submissions (log ++ [.disposed call true]) = submissions log := by
      rw [submissions_concat]
      exact append_nil _
    have hpast : ∀ id, past id (log ++ [.disposed call true]) =
        past id log ++ if c.id = id then [call.deed e] else [] := fun id => by
      rw [past_concat, deedsOf_disposed hnamed he]
    have hothers : ∀ id, id ≠ c.id → past id (log ++ [.disposed call true]) = past id log :=
      fun id hid => by rw [hpast, if_neg hid.symm, append_nil]
    have hattempts : call.generation.attempts.toNat = c.attempts := by
      rw [← (isNamed_iff.mp hnamed).2.1, Int.toNat_natCast]
    have hrecorded := h.recorded_of_mem hc
    rw [he] at hrecorded
    have hown := hpast c.id
    rw [if_pos rfl, DisposeCall.deed, hattempts] at hown
    cases haction : call.action with
    | ack =>
      rw [haction] at hown
      refine h.remove hc hsub hothers ?_
      rw [hown]
      exact hrecorded.step (.ack _ e)
    | nack =>
      rw [haction] at hown
      refine h.rewrite hc (fun _ => ⟨rfl, rfl⟩) hsub hothers ?_
      rw [hown]
      exact hrecorded.step (.nack _ e)
    | reject =>
      rw [haction] at hown
      refine h.bury hc hsub hothers ?_
      rw [hown]
      exact hrecorded.step (.reject _ e)

theorem Kept.enqueue (h : Kept s log) (projectId : UUID) (topic : Topic) (priority : ℤ)
    (maxAttempts : ℕ) (availableAt : ℤ) (body : β) :
    Kept { s with
        queue := s.queue ++ [newRow s projectId topic priority maxAttempts availableAt body],
        nextId := s.nextId + 1 }
      (log ++ [.enqueued (newRow s projectId topic priority maxAttempts availableAt body)]) := by
  set row := newRow s projectId topic priority maxAttempts availableAt body with hrow
  have hnew : row.id = s.nextId := rfl
  have hsub : submissions (log ++ [.enqueued row]) = submissions log ++ [row] :=
    submissions_concat log _
  have hpast : ∀ id, past id (log ++ [.enqueued row]) = past id log := fun id => by
    rw [past_concat]
    exact append_nil _
  have hkeyed : Table.Keyed QueueRow.id (s.queue ++ [row]) := by
    refine h.keyed.append_singleton fun hmem => ?_
    obtain ⟨old, hold, hid⟩ := mem_map.mp hmem
    exact absurd (h.id_lt hold) (by omega)
  refine ⟨hkeyed, h.deadKeyed, fun r hr d hd => ?_, fun r hr => ?_, ⟨fun sub hs => ?_, fun d hd =>
    Nat.lt_succ_of_lt (h.issued.2 d hd)⟩, fun id hid => ?_, ?_, fun sub hs => ?_⟩
  · rcases mem_append.mp hr with hr | hr
    · exact h.apart r hr d hd
    · have := h.issued.2 d hd
      rw [mem_singleton.mp hr]
      omega
  · rw [hsub]
    rcases mem_append.mp hr with hr | hr
    · obtain ⟨sub, hs, heq⟩ := h.submitted r hr
      exact ⟨sub, mem_append_left _ hs, heq⟩
    · rw [mem_singleton.mp hr]
      exact ⟨row, mem_append_right _ mem_cons_self, rfl, rfl⟩
  · rw [hsub] at hs
    rcases mem_append.mp hs with hs | hs
    · exact Nat.lt_succ_of_lt (h.issued.1 sub hs)
    · rw [mem_singleton.mp hs]
      exact Nat.lt_succ_self _
  · rw [hpast]
    exact h.unissued id (by dsimp only at hid; omega)
  · rw [hsub]
    refine h.distinct.append_singleton fun hmem => ?_
    obtain ⟨old, hold, hid⟩ := mem_map.mp hmem
    exact absurd (h.issued.1 old hold) (by omega)
  · rw [hpast]
    rw [hsub] at hs
    rcases mem_append.mp hs with hs | hs
    · have hplace : placeOf ⟨s.queue ++ [row], s.dead, s.nextId + 1, s.fenced, s.now⟩ sub.id =
          placeOf s sub.id := by
        refine placeOf_congr h.keyed hkeyed (fun r hr => ⟨fun hmem => ?_, fun hmem =>
          mem_append_left _ hmem⟩) rfl
        rcases mem_append.mp hmem with hmem | hmem
        · exact hmem
        · have := h.issued.1 sub hs
          rw [mem_singleton.mp hmem] at hr
          omega
      rw [hplace]
      exact h.recorded sub hs
    · rw [mem_singleton.mp hs, h.unissued row.id hnew.ge,
        placeOf_of_mem hkeyed (mem_append_right _ mem_cons_self)]
      exact Recorded.start _ _

variable {w : QueueWorld β}

/-- Every action keeps the tables in agreement with the log. -/
theorem QueueWorld.step_kept (h : Kept w.store w.log) (a : QueueAction β) :
    Kept (w.step a).store (w.step a).log := by
  have hdenied : Kept w.store (w.log ++ [.denied]) := h.of_silent rfl fun _ => rfl
  cases a with
  | enqueue projectId topic priority maxAttempts availableAt body =>
    exact h.enqueue projectId topic priority maxAttempts availableAt body
  | claim call =>
    simp only [QueueWorld.step, QueueStore.perform]
    split
    · next hclaim => exact (claim_claimed h hclaim).kept
    · exact hdenied
  | dispose call =>
    simp only [QueueWorld.step, QueueStore.perform]
    split
    · next hcall => exact h.dispose hcall
    · exact hdenied
  | pass time =>
    simp only [QueueWorld.step, QueueStore.perform, Option.toList_none, append_nil]
    have hle : w.store.now ≤ w.store.now + time := le_add_of_nonneg_right (Int.natCast_nonneg time)
    exact { h with recorded := fun sub hs => (h.recorded sub hs).later hle }
  | fence fenced =>
    simp only [QueueWorld.step, QueueStore.perform, Option.toList_none, append_nil]
    exact { h with recorded := h.recorded }

theorem exec_kept (fenced : UUID → Bool) (now : ℤ) (actions : List (QueueAction β)) :
    Kept (Runs.exec QueueWorld.step (QueueWorld.start fenced now) actions).store
      (Runs.exec QueueWorld.step (QueueWorld.start fenced now) actions).log := by
  refine Runs.exec_invariant (I := fun w : QueueWorld β => Kept w.store w.log) ?_
    fun w a _ h => QueueWorld.step_kept h a
  exact ⟨nodup_nil, nodup_nil, nofun, nofun, ⟨nofun, nofun⟩, fun _ _ => rfl, nodup_nil, nofun⟩

/-! ### What the queue promises -/

/-- The row is in `work_queue`. -/
def IsQueued (s : QueueStore β) (id : ℕ) : Prop := ∃ row ∈ s.queue, row.id = id

/-- The row is in `dead_letter`. -/
def IsDead (s : QueueStore β) (id : ℕ) : Prop := ∃ d ∈ s.dead, d.row.id = id

/-- The row was acknowledged. -/
def IsAcknowledged (log : List (QueueEvent β)) (id : ℕ) : Prop := ∃ n e, .acked n e ∈ past id log

def ExactlyOne (p q r : Prop) : Prop := p ∧ ¬ q ∧ ¬ r ∨ ¬ p ∧ q ∧ ¬ r ∨ ¬ p ∧ ¬ q ∧ r

/-- What takes a row out of `work_queue`: an acknowledgement or a rejection of its generation, or
a claim that finds it without a running lease and handed out too often. -/
def Removes (s : QueueStore β) (row : QueueRow β) : QueueAction β → Prop
  | .dispose call => (call.action = .ack ∨ call.action = .reject) ∧
      isNamed call.generation row = true ∧ row.leaseExpiresAt.isSome = true
  | .claim _ => row.maxAttempts < row.attempts ∧ IsFree s.now row.leaseExpiresAt
  | _ => False

/-- What the queue promises in a state, for the rows that were enqueued and for whatever is done
next. -/
structure QueueWorld.Conserved (w : QueueWorld β) : Prop where
  /-- A row is in one place, and there once. -/
  place : ∀ sub ∈ submissions w.log, ExactlyOne (IsQueued w.store sub.id) (IsDead w.store sub.id)
    (IsAcknowledged w.log sub.id)
  once : (w.store.queue.map QueueRow.id).Nodup ∧ (w.store.dead.map fun d => d.row.id).Nodup
  /-- How a row leaves `work_queue`. -/
  leaves : ∀ a, ∀ row ∈ w.store.queue, ¬ IsQueued (w.step a).store row.id → Removes w.store row a
  /-- How often a row is handed out. -/
  handed : ∀ sub ∈ submissions w.log,
    (past sub.id w.log).countP Deed.isHanded ≤ sub.maxAttempts + 1
  /-- A hand-out waits for the end of the earlier ones. -/
  spaced : ∀ call rows s', claim call w.store = some (rows, s') → ∀ row ∈ rows, ∀ n e,
    .handed n e ∈ past row.id w.log → .nacked n e ∈ past row.id w.log ∨ e < w.store.now
  /-- What a disposition of any other generation comes to. -/
  stale : ∀ call, (∀ row ∈ w.store.queue, isNamed call.generation row = false) →
    w.store.perform (.dispose call) =
      (some (if call.isValid then .disposed call false else .denied), w.store)

theorem Kept.place (h : Kept s log) (hid : ∃ sub ∈ submissions log, sub.id = id) :
    ExactlyOne (IsQueued s id) (IsDead s id) (IsAcknowledged log id) := by
  obtain ⟨sub, hsub, rfl⟩ := hid
  have hacked : IsAcknowledged log sub.id ↔ placeOf s sub.id = .acknowledged :=
    (h.recorded sub hsub).acked
  by_cases hqueued : IsQueued s sub.id
  · obtain ⟨row, hrow, hid⟩ := hqueued
    refine .inl ⟨⟨row, hrow, hid⟩, fun ⟨d, hd, hid'⟩ => ?_, fun hack => ?_⟩
    · exact h.apart row hrow d hd (hid'.trans hid.symm)
    · have hplace := hacked.mp hack
      rw [← hid, placeOf_of_mem h.keyed hrow] at hplace
      cases hplace
  · have hplace := placeOf_of_not_mem fun row hrow hid => hqueued ⟨row, hrow, hid⟩
    have hany : (s.dead.any (·.row.id = sub.id)) = true ↔ IsDead s sub.id := by
      rw [any_eq_true]
      simp only [decide_eq_true_eq, IsDead]
    by_cases hdead : IsDead s sub.id
    · rw [if_pos (hany.mpr hdead)] at hplace
      refine .inr (.inl ⟨hqueued, hdead, fun hack => ?_⟩)
      rw [hacked, hplace] at hack
      cases hack
    · rw [if_neg fun hd => hdead (hany.mp hd)] at hplace
      exact .inr (.inr ⟨hqueued, hdead, hacked.mpr hplace⟩)

theorem Kept.leaves (h : Kept w.store w.log) (a : QueueAction β) (hrow : row ∈ w.store.queue)
    (hgone : ¬ IsQueued (w.step a).store row.id) :
    Removes w.store row a := by
  cases a with
  | enqueue =>
    exact absurd ⟨row, mem_append_left _ hrow, rfl⟩ hgone
  | claim call =>
    simp only [QueueWorld.step, QueueStore.perform] at hgone
    split at hgone
    · next hclaim =>
      rcases (claim_claimed h hclaim).left row hrow with hin | ⟨other, hin, hid, -⟩ | hover
      · exact absurd ⟨row, hin, rfl⟩ hgone
      · exact absurd ⟨other, hin, hid⟩ hgone
      · exact hover
    · exact absurd ⟨row, hrow, rfl⟩ hgone
  | dispose call =>
    simp only [QueueWorld.step, QueueStore.perform] at hgone
    split at hgone
    · next hcall =>
      rcases disposition_cases hcall with ⟨-, rfl⟩ | ⟨c, hc, e, hnamed, he, -, rfl⟩
      · exact absurd ⟨row, hrow, rfl⟩ hgone
      · have heq : row = c := by
          by_contra hne
          refine hgone ⟨row, ?_, rfl⟩
          cases call.action with
          | ack => exact (mem_remove h.keyed hc).mpr ⟨hrow, hne⟩
          | nack => exact (mem_rewrite h.keyed hc).mpr (.inl ⟨hrow, hne⟩)
          | reject => exact (mem_remove h.keyed hc).mpr ⟨hrow, hne⟩
        subst heq
        refine ⟨?_, hnamed, Option.isSome_iff_exists.mpr ⟨e, he⟩⟩
        cases haction : call.action with
        | ack => exact .inl rfl
        | reject => exact .inr rfl
        | nack =>
          rw [haction] at hgone
          exact absurd ⟨_, (mem_rewrite h.keyed hc).mpr (.inr rfl), rfl⟩ hgone
    · exact absurd ⟨row, hrow, rfl⟩ hgone
  | pass time | fence fenced =>
    exact absurd ⟨row, hrow, rfl⟩ hgone

/-- A disposition that names no row of the queue changes nothing. -/
theorem perform_stale (h : ∀ row ∈ s.queue, isNamed call.generation row = false) :
    s.perform (.dispose call) =
      (some (if call.isValid then .disposed call false else .denied), s) := by
  have hfind : s.queue.find? (isNamed call.generation) = none :=
    find?_eq_none.mpr fun row hrow => by rw [h row hrow]; exact Bool.false_ne_true
  rw [QueueStore.perform, disposition, hfind]
  split
  · next hsome =>
    split at hsome
    · next hvalid =>
      cases hsome
      rw [if_pos hvalid]
    · cases hsome
  · next hnone =>
    split at hnone
    · cases hnone
    · next hvalid => rw [if_neg hvalid]

/-- **No row is lost or handed out twice.** Whatever the workers call, with whatever generations,
in whatever order, and however time passes. -/
theorem queue_conserved (fenced : UUID → Bool) (now : ℤ) (actions : List (QueueAction β)) :
    (Runs.exec QueueWorld.step (QueueWorld.start fenced now) actions).Conserved := by
  have h := exec_kept fenced now actions
  refine ⟨fun sub hsub => h.place ⟨sub, hsub, rfl⟩, ⟨h.keyed, h.deadKeyed⟩,
    fun a row hrow hgone => h.leaves a hrow hgone, fun sub hsub => (h.recorded sub hsub).handed_le,
    fun call rows s' hclaim row hrow => ?_, fun call hstale => perform_stale hstale⟩
  exact (claim_claimed h hclaim).ended row hrow

namespace Sample

/-- A world with one row that nobody has claimed. -/
def oneRow : QueueWorld Unit :=
  (QueueWorld.start (fun _ => false) 0).step (.enqueue ⟨0⟩ .traceEvent 100 5 0 ())

/-- A generation that was never handed out. -/
def inventedCall : DisposeCall := ⟨⟨1, 0, some 0⟩, .ack, none, none, false⟩

/-- An invented generation is not answered: the routine raises. -/
theorem invented_generation_denied :
    (∀ row ∈ oneRow.store.queue, isNamed inventedCall.generation row = false) ∧
      (oneRow.store.perform (.dispose inventedCall)).1 = some .denied := by
  exact ⟨forall_mem_singleton.mpr rfl, rfl⟩

end Sample

end Tracebed.Queue
