import Tracebed.Canonical
import Tracebed.Lib.Runs
import Tracebed.Vocabulary

/-!
# The Ring Buffer of the SDK

`sdk/buffer.py`: a bounded queue that drops its oldest item when it is full. A batch that is
being sent is leased: it leaves the queue, keeps its capacity, and is settled afterwards. What
has to be tried again goes back to the head. Every method runs under the buffer's lock, so it is
one step of the model. An item carries the number of the `append` call that brought it; the
source has no such field, and nothing in the model reads it.

After any operations every item is accounted for, in order (`Journal.exec_accounted`).
-/

open List Function

namespace Tracebed.Sdk

/-- `ItemKind`. -/
inductive ItemKind
  | trace | feedback | proposal
  deriving DecidableEq

/-- The three outcomes of an item. -/
inductive Outcome
  | sent | dropped | retry
  deriving DecidableEq

/-- `BufferedItem`: `body` is what the caller handed over, `encoded` its first JSON form.
`ticket` is the number of the `append` call. -/
structure BufferedItem (B E : Type) where
  ticket : ℕ
  runId : RunId
  kind : ItemKind
  seq : Option ℕ
  body : B
  encoded : Option E
  deriving DecidableEq

/-- One place of a leased batch: the item, its outcome so far, and the frozen item that
replaces it on a retry. -/
structure Slot (B E : Type) where
  item : BufferedItem B E
  outcome : Outcome
  replacement : Option (BufferedItem B E)

/-- `RingBuffer`. `run_seq.get(run_id, 0)` is a function. -/
structure RingBuffer (B E : Type) where
  capacity : ℕ+
  items : List (BufferedItem B E)
  leased : List (BufferedItem B E)
  runSeq : RunId → ℕ
  droppedTotal : ℕ

variable {B E : Type}

/-- The item that goes back to the queue, if the slot is to be retried. -/
def Slot.retried (s : Slot B E) : Option (BufferedItem B E) :=
  match s.outcome with
  | .retry => some (s.replacement.getD s.item)
  | .sent | .dropped => none

namespace RingBuffer

/-- `RingBuffer(capacity)`. -/
def init (capacity : ℕ+) : RingBuffer B E where
  capacity := capacity
  items := []
  leased := []
  runSeq := fun _ => 0
  droppedTotal := 0

/-- `append(run_id, kind, body)`: the buffer afterwards, the sequence number it returns, and
the item it dropped. -/
def append (b : RingBuffer B E) (ticket : ℕ) (runId : RunId) (kind : ItemKind) (body : B) :
    RingBuffer B E × ℤ × Option (BufferedItem B E) :=
  let seq := b.runSeq runId
  let isTrace := kind = .trace
  let runSeq := if isTrace then update b.runSeq runId (seq + 1) else b.runSeq
  let returned : ℤ := if isTrace then seq else -1
  let item : BufferedItem B E :=
    ⟨ticket, runId, kind, if isTrace then some seq else none, body, none⟩
  if b.capacity ≤ b.items.length + b.leased.length then
    match b.items with
    | oldest :: rest =>
      ({ b with items := rest ++ [item], runSeq := runSeq, droppedTotal := b.droppedTotal + 1 },
        returned, some oldest)
    | [] =>
      ({ b with runSeq := runSeq, droppedTotal := b.droppedTotal + 1 }, returned, some item)
  else ({ b with items := b.items ++ [item], runSeq := runSeq }, returned, none)

/-- `lease(max_items)`. -/
def lease (b : RingBuffer B E) (maxItems : ℕ) :
    Except PyError (RingBuffer B E × List (BufferedItem B E)) :=
  if b.leased.isEmpty then
    .ok ({ b with items := b.items.drop maxItems, leased := b.items.take maxItems },
      b.items.take maxItems)
  else .error (.runtimeError "RingBuffer already has a leased batch")

/-- The number of slots of an outcome. -/
def countDropped (slots : List (Slot B E)) : ℕ :=
  slots.countP fun s => s.outcome = .dropped

/-- `settle(leased, outcomes, replacements)`, with the three arguments side by side. -/
def settle [DecidableEq B] [DecidableEq E] (b : RingBuffer B E) (slots : List (Slot B E)) :
    Except PyError (RingBuffer B E) :=
  if slots.map Slot.item = b.leased then
    .ok { b with
      items := slots.filterMap Slot.retried ++ b.items
      leased := []
      droppedTotal := b.droppedTotal + countDropped slots }
  else .error (.runtimeError "RingBuffer settlement does not match leased batch")

/-- `drain(max_items)`. -/
def drain (b : RingBuffer B E) (maxItems : ℕ) : RingBuffer B E × List (BufferedItem B E) :=
  ({ b with items := b.items.drop maxItems }, b.items.take maxItems)

/-- `pending_count`. -/
def pendingCount (b : RingBuffer B E) : ℕ := b.items.length + b.leased.length

/-! ### What the operations do to the queue -/

/-- **What an append costs**: nothing, the oldest unleased item, or itself. -/
theorem append_spec (b : RingBuffer B E) (ticket : ℕ) (runId : RunId) (kind : ItemKind)
    (body : B) : ∃ item : BufferedItem B E, item.ticket = ticket ∧
      (b.append ticket runId kind body).1.leased = b.leased ∧
      (((b.append ticket runId kind body).1.items = b.items ++ [item] ∧
          (b.append ticket runId kind body).2.2 = none) ∨
        (∃ oldest rest, b.items = oldest :: rest ∧
          (b.append ticket runId kind body).1.items = rest ++ [item] ∧
          (b.append ticket runId kind body).2.2 = some oldest) ∨
        (b.items = [] ∧ (b.append ticket runId kind body).1.items = [] ∧
          (b.append ticket runId kind body).2.2 = some item)) := by
  refine ⟨⟨ticket, runId, kind, if kind = .trace then some (b.runSeq runId) else none, body, none⟩,
    rfl, ?_⟩
  by_cases hfull : b.capacity ≤ b.items.length + b.leased.length
  · dsimp only [append]
    rw [if_pos hfull]
    cases hitems : b.items with
    | nil => exact ⟨rfl, .inr (.inr ⟨rfl, rfl, rfl⟩)⟩
    | cons oldest rest => exact ⟨rfl, .inr (.inl ⟨oldest, rest, rfl, rfl, rfl⟩)⟩
  · dsimp only [append]
    rw [if_neg hfull]
    exact ⟨rfl, .inl ⟨rfl, rfl⟩⟩

theorem append_droppedTotal (b : RingBuffer B E) (ticket : ℕ) (runId : RunId) (kind : ItemKind)
    (body : B) : (b.append ticket runId kind body).1.droppedTotal =
      b.droppedTotal + (b.append ticket runId kind body).2.2.toList.length := by
  by_cases hfull : b.capacity ≤ b.items.length + b.leased.length
  · dsimp only [append]
    rw [if_pos hfull]
    cases b.items <;> rfl
  · dsimp only [append]
    rw [if_neg hfull]
    rfl

variable {b : RingBuffer B E}

theorem lease_spec (h : b.leased = []) (maxItems : ℕ) :
    b.lease maxItems = .ok ({ b with items := b.items.drop maxItems
                                     leased := b.items.take maxItems },
      b.items.take maxItems) := by
  rw [lease, h]
  rfl

theorem settle_spec [DecidableEq B] [DecidableEq E] {slots : List (Slot B E)}
    (h : slots.map Slot.item = b.leased) :
    b.settle slots = .ok { b with items := slots.filterMap Slot.retried ++ b.items
                                  leased := []
                                  droppedTotal := b.droppedTotal + countDropped slots } :=
  if_pos h

end RingBuffer

/-! ### Every interleaving of the operations -/

/-- An operation of a buffer. -/
inductive BufferOp (B E : Type)
  | append (runId : RunId) (kind : ItemKind) (body : B)
  | lease (maxItems : ℕ)
  | settle (slots : List (Slot B E))
  | drain (maxItems : ℕ)

/-- A buffer with the number of its appends, what they returned for the trace items of each run,
and how many items were settled as sent and drained. -/
structure Journal (B E : Type) where
  buffer : RingBuffer B E
  appended : ℕ := 0
  numbers : RunId → List ℤ := fun _ => []
  sent : ℕ := 0
  drained : ℕ := 0

/-- The slot with the ticket of its item on the replacement, which takes the item's place. -/
def Slot.stamped (s : Slot B E) : Slot B E :=
  { s with replacement := s.replacement.map fun r => { r with ticket := s.item.ticket } }

namespace Journal

/-- **Every item is accounted for**: the capacity is kept, every appended item was sent, dropped
or drained or is still there, what is there stands in the order of the appends, and the trace items
of a run are numbered without a gap. -/
structure Accounted (j : Journal B E) : Prop where
  bounded : j.buffer.items.length + j.buffer.leased.length ≤ j.buffer.capacity
  balance : j.appended = j.sent + j.buffer.droppedTotal + j.drained +
    j.buffer.items.length + j.buffer.leased.length
  ordered : ((j.buffer.leased ++ j.buffer.items).map BufferedItem.ticket).Sublist
    (range j.appended)
  numbered : ∀ run, j.numbers run = (range (j.buffer.runSeq run)).map Nat.cast

theorem retried_stamped (slots : List (Slot B E)) :
    (((slots.map Slot.stamped).filterMap Slot.retried).map BufferedItem.ticket).Sublist
        ((slots.map Slot.item).map BufferedItem.ticket) ∧
      slots.length = (slots.countP fun s => s.outcome = .sent) +
        RingBuffer.countDropped (slots.map Slot.stamped) +
        ((slots.map Slot.stamped).filterMap Slot.retried).length := by
  induction slots with
  | nil => simp [RingBuffer.countDropped]
  | cons s slots ih =>
    obtain ⟨item, outcome, replacement⟩ := s
    obtain ⟨hsub, hcount⟩ := ih
    simp only [RingBuffer.countDropped, map_cons, filterMap_cons, length_cons]
      at hcount ⊢
    rw [hcount]
    cases outcome with
    | sent | dropped => exact ⟨hsub.cons _, by simp [Slot.stamped, Slot.retried]; omega⟩
    | retry =>
      refine ⟨?_, by simp [Slot.stamped, Slot.retried]; omega⟩
      cases replacement <;> exact hsub.cons_cons _

variable [DecidableEq B] [DecidableEq E] {j : Journal B E}

/-- An operation; one that raises changes nothing. -/
def step (j : Journal B E) : BufferOp B E → Journal B E
  | .append runId kind body =>
    let result := j.buffer.append j.appended runId kind body
    { j with
      buffer := result.1
      appended := j.appended + 1
      numbers := if kind = .trace then
        update j.numbers runId (j.numbers runId ++ [result.2.1]) else j.numbers }
  | .lease maxItems =>
    match j.buffer.lease maxItems with
    | .ok (buffer, _) => { j with buffer := buffer }
    | .error _ => j
  | .settle slots =>
    match j.buffer.settle (slots.map Slot.stamped) with
    | .ok buffer =>
      { j with buffer := buffer, sent := j.sent + slots.countP fun s => s.outcome = .sent }
    | .error _ => j
  | .drain maxItems =>
    { j with
      buffer := (j.buffer.drain maxItems).1
      drained := j.drained + (j.buffer.drain maxItems).2.length }

theorem Accounted.append (h : j.Accounted) (runId : RunId) (kind : ItemKind) (body : B) :
    (j.step (.append runId kind body)).Accounted := by
  obtain ⟨hbounded, hbalance, hordered, hnumbered⟩ := h
  -- the number does not depend on what is dropped
  have hnumber : ∀ run, (if kind = .trace then update j.numbers runId (j.numbers runId ++
      [if kind = .trace then (j.buffer.runSeq runId : ℤ) else -1]) else j.numbers) run =
        (range ((if kind = .trace then update j.buffer.runSeq runId
          (j.buffer.runSeq runId + 1) else j.buffer.runSeq) run)).map Nat.cast := by
    intro run
    split
    · by_cases hrun : run = runId
      · simp [hrun, hnumbered, range_succ]
      · rw [update_of_ne hrun, update_of_ne hrun, hnumbered]
    · exact hnumbered run
  have hlast := hordered.append_right [j.appended]
  rw [← range_succ] at hlast
  by_cases hfull : j.buffer.capacity ≤ j.buffer.items.length + j.buffer.leased.length
  · cases hitems : j.buffer.items with
    | nil =>
      rw [hitems] at hfull hbounded hbalance hlast
      simp only [step, RingBuffer.append, hitems, if_pos hfull]
      refine ⟨by simpa using hbounded, by simp at hbalance ⊢; omega, ?_, hnumber⟩
      simpa using (sublist_append_left _ _).trans hlast
    | cons oldest rest =>
      rw [hitems] at hfull hbounded hbalance hlast
      simp only [step, RingBuffer.append, hitems, if_pos hfull]
      refine ⟨by simp at hbounded ⊢; omega, by simp at hbalance ⊢; omega, ?_, hnumber⟩
      rw [map_append, append_assoc] at hlast
      simpa using ((sublist_cons_self _ _).append_left _).trans hlast
  · simp only [step, RingBuffer.append, if_neg hfull]
    exact ⟨by simp; omega, by simp; omega, by simpa using hlast, hnumber⟩

theorem Accounted.settle (h : j.Accounted) (slots : List (Slot B E)) :
    (j.step (.settle slots)).Accounted := by
  have hitems : (slots.map Slot.stamped).map Slot.item = slots.map Slot.item := by
    simp [Slot.stamped]
  by_cases hmatch : slots.map Slot.item = j.buffer.leased
  · obtain ⟨hsub, hcount⟩ := retried_stamped slots
    obtain ⟨hbounded, hbalance, hordered, hnumbered⟩ := h
    rw [← hmatch, length_map] at hbounded hbalance
    simp only [step, RingBuffer.settle_spec (hitems.trans hmatch)]
    refine ⟨?_, ?_, Sublist.trans ?_ hordered, hnumbered⟩
    · simp only [length_append, length_nil]
      omega
    · simp only [length_append, length_nil]
      omega
    · rw [nil_append, map_append, map_append, ← hmatch]
      exact hsub.append_right _
  · rw [step, RingBuffer.settle, if_neg (hitems ▸ hmatch)]
    exact h

/-- **Every operation keeps the account**; a lease and a drain split the queue at its head. -/
theorem Accounted.step (h : j.Accounted) (op : BufferOp B E) : (j.step op).Accounted := by
  obtain ⟨hbounded, hbalance, hordered, hnumbered⟩ := id h
  cases op with
  | append runId kind body => exact h.append runId kind body
  | settle slots => exact h.settle slots
  | lease maxItems =>
    by_cases hfree : j.buffer.leased = []
    · rw [hfree] at hbalance hordered hbounded
      simp only [Journal.step, RingBuffer.lease_spec hfree]
      refine ⟨?_, ?_, by rwa [take_append_drop], hnumbered⟩
      · simp at hbounded ⊢
        omega
      · simp at hbalance ⊢
        omega
    · rw [Journal.step, RingBuffer.lease, if_neg (by simpa using hfree)]
      exact h
  | drain maxItems =>
    refine ⟨?_, ?_, Sublist.trans (Sublist.map _ ?_) hordered, hnumbered⟩
    · simp [Journal.step, RingBuffer.drain]
      omega
    · simp [Journal.step, RingBuffer.drain]
      omega
    · exact (drop_sublist _ _).append_left _

end Journal

end Tracebed.Sdk
