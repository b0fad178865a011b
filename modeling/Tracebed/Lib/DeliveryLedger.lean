import Mathlib

/-!
# In-Order Delivery, Abstractly

Tickets are handed out in order; each one is pending until it is answered, together with
everything else at the head of the queue that goes out in the same request, or dropped from
anywhere in the queue. `Ledger` records what happened to whom, and `Ledger.Sound` is what every
history has in common: tickets are answered in order and at most once, and never past one that is
still pending.
-/

/-- What happened to tickets. -/
inductive LedgerEntry
  | answered (tickets : List ℕ)
  | dropped (ticket : ℕ)
  deriving DecidableEq

def LedgerEntry.answers : LedgerEntry → List ℕ
  | answered ts => ts
  | dropped _ => []

def LedgerEntry.drops : LedgerEntry → List ℕ
  | answered _ => []
  | dropped t => [t]

/-- The next ticket, the pending ones in queue order, and the history. -/
structure Ledger where
  next : ℕ
  pending : List ℕ
  history : List LedgerEntry

open List

namespace Ledger

variable (history : List LedgerEntry)

/-- All answered tickets, in the order of the answers. -/
def answered : List ℕ := history.flatMap LedgerEntry.answers

/-- All dropped tickets. -/
def dropped : List ℕ := history.flatMap LedgerEntry.drops

/-- What a queue may do. -/
inductive Step : Ledger → Ledger → Prop
  | enter (n : ℕ) (p : List ℕ) (h : List LedgerEntry) : Step ⟨n, p, h⟩ ⟨n + 1, p ++ [n], h⟩
  | drop (n t : ℕ) (before after : List ℕ) (h : List LedgerEntry) :
      Step ⟨n, before ++ t :: after, h⟩ ⟨n, before ++ after, h ++ [.dropped t]⟩
  | answer (n : ℕ) (ts rest : List ℕ) (h : List LedgerEntry) :
      Step ⟨n, ts ++ rest, h⟩ ⟨n, rest, h ++ [.answered ts]⟩

abbrev Steps : Ledger → Ledger → Prop := Relation.ReflTransGen Step

/-- Everything before an answered ticket had been answered or dropped, or goes with it. -/
def SettledBefore : Prop :=
  ∀ before ts after, history = before ++ .answered ts :: after →
    ∀ t ∈ ts, ∀ j < t, j ∈ answered before ∨ j ∈ dropped before ∨ j ∈ ts

/-- **A sound ledger.** -/
structure Sound (l : Ledger) : Prop where
  pending_sorted : l.pending.Pairwise (· < ·)
  pending_lt : ∀ t ∈ l.pending, t < l.next
  answered_lt : ∀ a ∈ answered l.history, a < l.next ∧ ∀ t ∈ l.pending, a < t
  answered_sorted : (answered l.history).Pairwise (· < ·)
  covered : ∀ j < l.next, j ∈ answered l.history ∨ j ∈ dropped l.history ∨ j ∈ l.pending
  settled_before : SettledBefore l.history

@[simp] theorem answered_append (h h' : List LedgerEntry) :
    answered (h ++ h') = answered h ++ answered h' := flatMap_append

@[simp] theorem dropped_append (h h' : List LedgerEntry) :
    dropped (h ++ h') = dropped h ++ dropped h' := flatMap_append

@[simp] theorem answered_answered (ts : List ℕ) : answered [.answered ts] = ts := by
  simp [answered, LedgerEntry.answers]

@[simp] theorem answered_dropped (t : ℕ) : answered [.dropped t] = [] := rfl

@[simp] theorem dropped_answered (ts : List ℕ) : dropped [.answered ts] = [] := rfl

@[simp] theorem dropped_dropped (t : ℕ) : dropped [.dropped t] = [t] := rfl

/-- The empty ledger is sound. -/
theorem sound_empty : Sound ⟨0, [], []⟩ where
  pending_sorted := List.Pairwise.nil
  pending_lt := nofun
  answered_lt := nofun
  answered_sorted := List.Pairwise.nil
  covered := nofun
  settled_before := fun before ts after h => by simp at h

variable {h : List LedgerEntry}

/-- An entry that answers nothing adds nothing to settle. -/
theorem SettledBefore.drop (hs : SettledBefore h) (t : ℕ) : SettledBefore (h ++ [.dropped t]) := by
  intro before ts after heq
  rcases eq_nil_or_concat after with rfl | ⟨after, last, rfl⟩
  · have := append_inj_right' heq rfl
    cases this
  · rw [concat_eq_append, ← cons_append, ← append_assoc] at heq
    exact hs before ts after (append_inj_left' heq rfl)

/-- A request is settled when everything before it is. -/
theorem SettledBefore.answer (hs : SettledBefore h) {ts : List ℕ}
    (hts : ∀ t ∈ ts, ∀ j < t, j ∈ answered h ∨ j ∈ dropped h ∨ j ∈ ts) :
    SettledBefore (h ++ [.answered ts]) := by
  intro before ts' after heq
  rcases eq_nil_or_concat after with rfl | ⟨after, last, rfl⟩
  · have hbefore := append_inj_left' heq rfl
    have hlast := append_inj_right' heq rfl
    obtain rfl := hbefore
    obtain rfl : ts = ts' := by simpa using hlast
    exact hts
  · rw [concat_eq_append, ← cons_append, ← append_assoc] at heq
    exact hs before ts' after (append_inj_left' heq rfl)

/-- **One step keeps a ledger sound.** -/
theorem Step.sound {l l' : Ledger} (h : Step l l') (hs : Sound l) : Sound l' := by
  cases h with
  | enter n p hist =>
    refine ⟨?_, ?_, ?_, hs.answered_sorted, ?_, hs.settled_before⟩
    · refine pairwise_append.mpr ⟨hs.pending_sorted, pairwise_singleton _ _, ?_⟩
      intro a ha b hb
      rw [mem_singleton.mp hb]
      exact hs.pending_lt a ha
    · exact forall_mem_append.mpr ⟨fun t ht => Nat.lt_succ_of_lt (hs.pending_lt t ht),
        forall_mem_singleton.mpr (Nat.lt_succ_self n)⟩
    · intro a ha
      obtain ⟨hlt, hpending⟩ := hs.answered_lt a ha
      exact ⟨Nat.lt_succ_of_lt hlt, forall_mem_append.mpr ⟨hpending, forall_mem_singleton.mpr hlt⟩⟩
    · intro j hj
      rcases Nat.lt_succ_iff_lt_or_eq.mp hj with hj | rfl
      · rcases hs.covered j hj with h | h | h
        · exact .inl h
        · exact .inr (.inl h)
        · exact .inr (.inr (mem_append_left _ h))
      · exact .inr (.inr (mem_append_right _ mem_cons_self))
  | drop n t before after hist =>
    have hmem : ∀ a ∈ before ++ after, a ∈ before ++ t :: after := fun a ha =>
      (mem_append.mp ha).elim (mem_append_left _)
        fun h => mem_append_right _ (mem_cons_of_mem _ h)
    have hanswered : answered (hist ++ [.dropped t]) = answered hist := by simp
    refine ⟨?_, fun a ha => hs.pending_lt a (hmem a ha), ?_, ?_, ?_, hs.settled_before.drop t⟩
    · exact hs.pending_sorted.sublist
        ((List.Sublist.refl before).append (sublist_cons_self t after))
    · intro a ha
      rw [hanswered] at ha
      obtain ⟨hlt, hpending⟩ := hs.answered_lt a ha
      exact ⟨hlt, fun b hb => hpending b (hmem b hb)⟩
    · rw [hanswered]
      exact hs.answered_sorted
    · intro j hj
      rw [hanswered, dropped_append, dropped_dropped]
      rcases hs.covered j hj with h | h | h
      · exact .inl h
      · exact .inr (.inl (mem_append_left _ h))
      · rcases mem_append.mp h with h | h
        · exact .inr (.inr (mem_append_left _ h))
        · rcases mem_cons.mp h with rfl | h
          · exact .inr (.inl (mem_append_right _ mem_cons_self))
          · exact .inr (.inr (mem_append_right _ h))
  | answer n ts rest hist =>
    obtain ⟨hts, hrest, hcross⟩ := pairwise_append.mp hs.pending_sorted
    have hanswered : answered (hist ++ [.answered ts]) = answered hist ++ ts := by simp
    have hdropped : dropped (hist ++ [.answered ts]) = dropped hist := by simp
    refine ⟨hrest, fun t ht => hs.pending_lt t (mem_append_right _ ht), ?_, ?_, ?_,
      hs.settled_before.answer ?_⟩
    · intro a ha
      rw [hanswered] at ha
      rcases mem_append.mp ha with ha | ha
      · obtain ⟨hlt, hpending⟩ := hs.answered_lt a ha
        exact ⟨hlt, fun t ht => hpending t (mem_append_right _ ht)⟩
      · exact ⟨hs.pending_lt a (mem_append_left _ ha), fun t ht => hcross a ha t ht⟩
    · rw [hanswered]
      refine pairwise_append.mpr ⟨hs.answered_sorted, hts, fun a ha t ht => ?_⟩
      exact (hs.answered_lt a ha).2 t (mem_append_left _ ht)
    · intro j hj
      rw [hanswered, hdropped]
      rcases hs.covered j hj with h | h | h
      · exact .inl (mem_append_left _ h)
      · exact .inr (.inl h)
      · rcases mem_append.mp h with h | h
        · exact .inl (mem_append_right _ h)
        · exact .inr (.inr h)
    · -- what is pending behind the request has larger tickets
      intro t ht j hj
      have hnext := hs.pending_lt t (mem_append_left _ ht)
      rcases hs.covered j (Nat.lt_trans hj hnext) with h | h | h
      · exact .inl h
      · exact .inr (.inl h)
      · rcases mem_append.mp h with h | h
        · exact .inr (.inr h)
        · exact absurd (hcross t ht j h) (Nat.lt_asymm hj)

/-- **Any number of steps keeps a ledger sound.** -/
theorem Steps.sound {l l' : Ledger} (h : Steps l l') (hs : Sound l) : Sound l' := by
  induction h with
  | refl => exact hs
  | tail _ hstep ih => exact hstep.sound ih

/-- Several tickets are dropped one after the other. -/
theorem steps_drop (n : ℕ) (before ts after : List ℕ) (h : List LedgerEntry) :
    Steps ⟨n, before ++ ts ++ after, h⟩ ⟨n, before ++ after, h ++ ts.map .dropped⟩ := by
  induction ts generalizing h with
  | nil =>
    rw [append_nil, map_nil, append_nil]
  | cons t ts ih =>
    have hfirst : Step ⟨n, before ++ t :: ts ++ after, h⟩
        ⟨n, before ++ ts ++ after, h ++ [.dropped t]⟩ := by
      rw [append_assoc, append_assoc]
      exact .drop n t before (ts ++ after) h
    have hrest := ih (h ++ [.dropped t])
    rw [append_assoc h] at hrest
    exact Relation.ReflTransGen.head hfirst hrest

end Ledger
