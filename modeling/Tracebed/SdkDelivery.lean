import Tracebed.Lib.DeliveryLedger
import Tracebed.SdkClient

/-!
# What the SDK Delivers

Over every interleaving of appends, flush passes and reports, and whatever clock, token
provider, serialiser and server do: items are answered 2xx in the order they were appended,
none twice, none past an item that is still waiting, and every drop is reported once
(`flush_delivery`). Leasing and settling never raise (`exec_never_fails`).

The client is a delivery ledger: an item is pending while it is in the buffer, or leased and
not settled, in that order from the leased batch to the end of the queue.
-/

open List

namespace Tracebed.Sdk

variable {B E : Type}

/-! ### The batch in flight -/

/-- How the slots of a batch stand between two steps of `_dispatch`. -/
structure Dispatch.Ok (d : Dispatch B E) : Prop where
  /-- What lies behind the current group is settled. -/
  done : ∀ s ∈ d.done, s.outcome ≠ .retry
  /-- A member of the group is encoded and waits, or is dropped. -/
  group : ∀ s ∈ d.group, (s.outcome = .retry ∧
    ∃ frozen, s.replacement = some frozen ∧ frozen.ticket = s.item.ticket) ∨
      (s.outcome = .dropped ∧ s.replacement = none)

/-- The items of a batch that wait for an answer. -/
def Dispatch.waiting (d : Dispatch B E) : List (BufferedItem B E) :=
  d.slots.filterMap Slot.retried

namespace Dispatch

variable {d : Dispatch B E}

theorem retried_of_settled {s : Slot B E} (h : s.outcome ≠ .retry) : s.retried = none := by
  rw [Slot.retried]
  cases hs : s.outcome with
  | sent | dropped => rfl
  | retry => exact absurd hs h

/-- **Who waits**: first the group's request, then the items behind the group. -/
theorem Ok.waiting_eq (h : d.Ok) : d.waiting = d.request ++ d.rest := by
  have hdone : d.done.filterMap Slot.retried = [] :=
    filterMap_eq_nil_iff.mpr fun s hs => retried_of_settled (h.done s hs)
  have hgroup : d.group.filterMap Slot.retried = d.request := by
    refine filterMap_congr fun s hs => ?_
    rcases h.group s hs with ⟨hout, frozen, hrep, -⟩ | ⟨hout, hrep⟩
    · rw [Slot.retried, hout, hrep]
      rfl
    · rw [Slot.retried, hout, hrep]
  have hrest : (d.rest.map Slot.untried).filterMap Slot.retried = d.rest := by
    rw [filterMap_map]
    exact filterMap_some
  rw [waiting, slots, filterMap_append, filterMap_append, hdone, hgroup, hrest, nil_append]

end Dispatch

/-! ### The history as a ledger -/

/-- What an event says about tickets. -/
def Event.entry : Event B E → Option LedgerEntry
  | .dropped item => some (.dropped item.ticket)
  | .answered request => some (.answered (request.map BufferedItem.ticket))
  | .counted _ | .reported _ => none

variable (log : List (Event B E))

/-- The history as far as it is about tickets. -/
def entries : List LedgerEntry := log.filterMap Event.entry

variable (items : List (BufferedItem B E))

def tickets : List ℕ := items.map BufferedItem.ticket

theorem answered_entries : Ledger.answered (entries log) = answeredTickets log := by
  induction log with
  | nil => rfl
  | cons e log ih =>
    rw [answeredTickets] at ih
    rw [answeredTickets, flatMap_cons, ← ih]
    cases e <;> rfl

theorem dropped_entries : Ledger.dropped (entries log) = droppedTickets log := by
  induction log with
  | nil => rfl
  | cons e log ih =>
    rw [droppedTickets] at ih
    rw [droppedTickets, flatMap_cons, ← ih]
    cases e <;> rfl

theorem entries_append (log more : List (Event B E)) :
    entries (log ++ more) = entries log ++ entries more := filterMap_append

/-- Other events leave the history of tickets alone. -/
theorem entries_silent {e : Event B E} (h : e.entry = none) :
    entries (log ++ [e]) = entries log := by
  rw [entries_append, entries, entries, filterMap_cons_none h, filterMap_nil, append_nil]

theorem entries_dropped :
    entries (items.map Event.dropped) = (tickets items).map LedgerEntry.dropped := by
  rw [entries, filterMap_map, tickets, map_map, ← filterMap_eq_map]
  rfl

/-! ### Steps of a dispatch -/

namespace Dispatch

variable {d d' : Dispatch B E} {events : List (Event B E)}

/-- A step of `_dispatch` keeps the batch in order, and what it does to the items that wait
is what a ledger may do to the head of its queue. -/
structure Advances (d d' : Dispatch B E) (events : List (Event B E)) : Prop where
  ok : d'.Ok
  items_eq : d'.slots.map Slot.item = d.slots.map Slot.item
  uncounted : ∀ e ∈ events, e.entry.isSome = true
  simulates : ∀ n queue history, Ledger.Steps ⟨n, tickets d.waiting ++ queue, history⟩
    ⟨n, tickets d'.waiting ++ queue, history ++ entries events⟩

@[simp] theorem mark_item (o : Outcome) (s : Slot B E) : (mark o s).item = s.item := by
  rw [mark]
  split_ifs <;> rfl

variable {o : Outcome}

theorem Ok.close (h : d.Ok) (ho : o ≠ .retry) : (d.close o).Ok := by
  refine ⟨fun s hs => ?_, nofun⟩
  rcases mem_append.mp hs with hs | hs
  · exact h.done s hs
  · obtain ⟨t, ht, rfl⟩ := mem_map.mp hs
    rcases h.group t ht with ⟨-, frozen, hrep, -⟩ | ⟨hout, hrep⟩
    · rw [mark, if_pos (by rw [hrep]; rfl)]
      exact ho
    · rw [mark, if_neg (by rw [hrep]; exact Bool.false_ne_true), hout]
      exact Outcome.noConfusion

theorem close_items (d : Dispatch B E) (o : Outcome) :
    (d.close o).slots.map Slot.item = d.slots.map Slot.item := by
  simp [slots, close]

theorem Ok.waiting_close (h : d.Ok) (ho : o ≠ .retry) : (d.close o).waiting = d.rest := by
  rw [(h.close ho).waiting_eq]
  rfl

/-- **A complete group**: its request is answered, or dropped, or there is none. -/
theorem Ok.deliver (h : d.Ok) {answer : Answer} (hstep : d.deliver answer = .next d' events) :
    d.Advances d' events := by
  rw [Dispatch.deliver] at hstep
  have hdropped := h.waiting_close (o := .dropped) Outcome.noConfusion
  have hsent := h.waiting_close (o := .sent) Outcome.noConfusion
  by_cases hempty : d.request.isEmpty = true
  · rw [if_pos hempty] at hstep
    obtain ⟨rfl, rfl⟩ := Progress.next.inj hstep
    refine ⟨h.close Outcome.noConfusion, close_items d _, nofun, ?_⟩
    intro n queue history
    rw [h.waiting_eq, hdropped, isEmpty_iff.mp hempty, nil_append]
    rw [entries, filterMap_nil, append_nil]
  · rw [if_neg hempty] at hstep
    cases hpost : post answer with
    | retry =>
      rw [hpost] at hstep
      cases hstep
    | sent =>
      rw [hpost] at hstep
      obtain ⟨rfl, rfl⟩ := Progress.next.inj hstep
      refine ⟨h.close Outcome.noConfusion, close_items d _, forall_mem_singleton.mpr rfl, ?_⟩
      intro n queue history
      rw [h.waiting_eq, hsent, tickets, map_append, append_assoc]
      exact Relation.ReflTransGen.single (.answer n _ _ history)
    | dropped =>
      rw [hpost] at hstep
      obtain ⟨rfl, rfl⟩ := Progress.next.inj hstep
      refine ⟨h.close Outcome.noConfusion, close_items d _, ?_, ?_⟩
      · intro e he
        obtain ⟨item, -, rfl⟩ := mem_map.mp he
        rfl
      · intro n queue history
        rw [h.waiting_eq, hdropped, entries_dropped, tickets, map_append, append_assoc]
        exact Ledger.steps_drop n [] _ _ history

/-- **An item joins the group**: it is encoded and goes on waiting, or it is dropped. -/
theorem Ok.take (h : d.Ok) {item : BufferedItem B E} {rest : List (BufferedItem B E)}
    (hrest : d.rest = item :: rest) {dump : Option E}
    (hstep : d.take item rest dump = .next d' events) : d.Advances d' events := by
  obtain ⟨rfl, rfl⟩ := Progress.next.inj hstep
  have hitem : (frozenSlot item dump).item = item := by
    rw [frozenSlot]
    split <;> rfl
  have hok : Dispatch.Ok { d with group := d.group ++ [frozenSlot item dump], rest := rest } := by
    refine ⟨h.done, forall_mem_append.mpr ⟨h.group, forall_mem_singleton.mpr ?_⟩⟩
    rw [frozenSlot]
    cases hfreeze : freeze item dump with
    | none => exact .inr ⟨rfl, rfl⟩
    | some frozen => exact .inl ⟨rfl, frozen, rfl, ticket_of_freeze hfreeze⟩
  refine ⟨hok, ?_, ?_, ?_⟩
  · simp [slots, hrest, hitem, Slot.untried]
  · intro e he
    split_ifs at he
    · rw [mem_singleton.mp he]
      rfl
    · cases he
  · intro n queue history
    rw [h.waiting_eq, hok.waiting_eq, hrest, request, request, filterMap_append]
    cases hfreeze : freeze item dump with
    | none =>
      have hnone : [frozenSlot item dump].filterMap Slot.replacement = [] := by
        rw [frozenSlot, hfreeze]
        rfl
      rw [hnone, append_nil, tickets, map_append, tickets, map_append, append_assoc, append_assoc]
      exact Relation.ReflTransGen.single (.drop n _ _ _ history)
    | some frozen =>
      have hsome : [frozenSlot item dump].filterMap Slot.replacement = [frozen] := by
        rw [frozenSlot, hfreeze]
        rfl
      have hsame : tickets (d.group.filterMap Slot.replacement ++ [frozen] ++ rest) =
          tickets (d.group.filterMap Slot.replacement ++ item :: rest) := by
        simp [tickets, ticket_of_freeze hfreeze]
      rw [hsome, hsame, Option.isNone_some, if_neg Bool.false_ne_true, entries,
        filterMap_nil, append_nil]

/-- **One step of `_dispatch`.** -/
theorem Ok.step (h : d.Ok) {t : Tick E} (hstep : d.step t = .next d' events) :
    d.Advances d' events := by
  rw [Dispatch.step] at hstep
  cases hrest : d.rest with
  | nil =>
    rw [hrest] at hstep
    dsimp only at hstep
    split_ifs at hstep
    exact h.deliver hstep
  | cons item rest =>
    rw [hrest] at hstep
    dsimp only at hstep
    split_ifs at hstep
    · exact h.take hrest hstep
    · exact h.deliver hstep

end Dispatch

/-! ### Steps of the client -/

/-- The leased items that wait for an answer. -/
def Phase.waiting : Phase B E → List (BufferedItem B E)
  | .free | .looping _ => []
  | .dispatching _ d | .settling _ d => d.waiting

/-- **The client as a ledger.** -/
def Client.ledger (c : Client B E) : Ledger where
  next := c.appended
  pending := tickets (c.phase.waiting ++ c.buffer.items)
  history := entries c.log

/-- The lease and the batch in flight belong together. -/
def Client.Ok (c : Client B E) : Prop :=
  match c.phase with
  | .free | .looping _ => c.buffer.leased = []
  | .dispatching _ d | .settling _ d => d.Ok ∧ d.slots.map Slot.item = c.buffer.leased

/-- The drop counter, and what has been reported of it. -/
structure Client.Accounted (c : Client B E) : Prop where
  reported : reportedDrops c.log = c.lastReportedDropped
  unreported : unreportedDrops c.log = c.buffer.droppedTotal - c.lastReportedDropped

/-- Events about tickets move no counter. -/
theorem drops_append {events : List (Event B E)} (h : ∀ e ∈ events, e.entry.isSome = true) :
    reportedDrops (log ++ events) = reportedDrops log ∧
      unreportedDrops (log ++ events) = unreportedDrops log := by
  induction events generalizing log with
  | nil =>
    rw [append_nil]
    exact ⟨rfl, rfl⟩
  | cons e events ih =>
    obtain ⟨he, hrest⟩ := forall_mem_cons.mp h
    obtain ⟨hreported, hunreported⟩ := ih (log ++ [e]) hrest
    rw [append_cons, hreported, hunreported]
    cases e with
    | dropped | answered => simp [reportedDrops, unreportedDrops]
    | counted | reported => cases he

theorem drops_counted (n : ℕ) :
    reportedDrops (log ++ [.counted n]) = reportedDrops log ∧
      unreportedDrops (log ++ [.counted n]) = unreportedDrops log + n := by
  simp [reportedDrops, unreportedDrops]

theorem drops_lost (item : BufferedItem B E) :
    reportedDrops (log ++ [.dropped item, .counted 1]) = reportedDrops log ∧
      unreportedDrops (log ++ [.dropped item, .counted 1]) = unreportedDrops log + 1 := by
  simp [reportedDrops, unreportedDrops]

theorem drops_reported (r : FlushReport) :
    reportedDrops (log ++ [.reported r]) = reportedDrops log + r.dropped ∧
      unreportedDrops (log ++ [.reported r]) = 0 := by
  simp [reportedDrops, unreportedDrops]

variable (capacity : ℕ+)

namespace Client

variable {c : Client B E}

/-- A step keeps the lease, the ledger and the accounts. -/
structure Keeps (c c' : Client B E) : Prop where
  ok : c'.Ok
  simulates : Ledger.Steps c.ledger c'.ledger
  accounted : c.Accounted → c'.Accounted

theorem Accounted.append (h : c.Accounted) (runId : RunId) (kind : ItemKind) (body : B) :
    (c.append runId kind body).Accounted := by
  have htotal := c.buffer.append_droppedTotal c.appended runId kind body
  have hbuffer : (c.append runId kind body).buffer =
      (c.buffer.append c.appended runId kind body).1 := rfl
  have hlast : (c.append runId kind body).lastReportedDropped = c.lastReportedDropped := rfl
  cases hlost : (c.buffer.append c.appended runId kind body).2.2 with
  | none =>
    have hlog : (c.append runId kind body).log = c.log := by
      simp [Client.append, hlost]
    rw [hlost] at htotal
    exact ⟨by rw [hlog]; exact h.reported,
      by rw [hlog, hbuffer, htotal]; exact h.unreported⟩
  | some item =>
    have hlog : (c.append runId kind body).log = c.log ++ [.dropped item, .counted 1] := by
      simp [Client.append, hlost]
    obtain ⟨hreported, hunreported⟩ := drops_lost c.log item
    rw [hlost] at htotal
    constructor
    · rw [hlog, hreported]
      exact h.reported
    · rw [hlog, hunreported, h.unreported, hbuffer, htotal, Option.toList_some, length_singleton]
      omega

/-- **Appending** drops nothing, the oldest item of the queue, or the new one. -/
theorem Ok.append (h : c.Ok) (runId : RunId) (kind : ItemKind) (body : B) :
    c.Keeps (c.append runId kind body) := by
  obtain ⟨item, hticket, hleased, hcases⟩ := c.buffer.append_spec c.appended runId kind body
  have hok : (c.append runId kind body).Ok := by
    have hbuffer : (c.append runId kind body).buffer.leased = c.buffer.leased := hleased
    rw [Client.Ok]
    rw [hbuffer]
    exact h
  refine ⟨hok, ?_, fun ha => ha.append runId kind body⟩
  have hqueue : ∀ items : List (BufferedItem B E), tickets (c.phase.waiting ++ (items ++ [item])) =
        tickets (c.phase.waiting ++ items) ++ [c.appended] := by
    simp [tickets, hticket]
  rcases hcases with ⟨hitems, hlost⟩ | ⟨oldest, rest, hold, hitems, hlost⟩ | ⟨hold, hitems, hlost⟩
  · have hledger : (c.append runId kind body).ledger =
        ⟨c.appended + 1, c.ledger.pending ++ [c.appended], c.ledger.history⟩ := by
      simp [ledger, Client.append, hlost, hitems, hqueue]
    rw [hledger]
    exact Relation.ReflTransGen.single (.enter _ _ _)
  · have hledger : (c.append runId kind body).ledger =
        ⟨c.appended + 1, tickets c.phase.waiting ++ tickets rest ++ [c.appended],
          c.ledger.history ++ [.dropped oldest.ticket]⟩ := by
      have hsplit : tickets (c.phase.waiting ++ rest) =
          tickets c.phase.waiting ++ tickets rest := map_append
      simp only [ledger, Client.append, hlost, hitems, hqueue, entries_append, hsplit]
      rfl
    have hbefore : c.ledger = ⟨c.appended,
        tickets c.phase.waiting ++ oldest.ticket :: tickets rest, c.ledger.history⟩ := by
      simp [ledger, hold, tickets]
    rw [hledger, hbefore]
    exact Relation.ReflTransGen.head (.drop _ _ _ _ _) (Relation.ReflTransGen.single (.enter _ _ _))
  · have hledger : (c.append runId kind body).ledger = ⟨c.appended + 1, c.ledger.pending ++ [],
        c.ledger.history ++ [.dropped c.appended]⟩ := by
      simp only [ledger, Client.append, hlost, hitems, hold, entries_append, append_nil]
      rw [← hticket]
      rfl
    rw [hledger]
    exact Relation.ReflTransGen.head (.enter _ _ _)
      (Relation.ReflTransGen.single (.drop _ _ _ [] _))

/-- A step that touches neither items nor counters. -/
theorem keeps_of_idle {c' : Client B E} (hok : c'.Ok) (hledger : c'.ledger = c.ledger)
    (hlog : c'.log = c.log) (htotal : c'.buffer.droppedTotal = c.buffer.droppedTotal)
    (hlast : c'.lastReportedDropped = c.lastReportedDropped) : c.Keeps c' :=
  ⟨hok, hledger ▸ Relation.ReflTransGen.refl, fun ha =>
    ⟨by rw [hlog, hlast]; exact ha.reported, by rw [hlog, hlast, htotal]; exact ha.unreported⟩⟩

variable {p : Pass}

/-- **The head of the loop**: the pass ends, or leases a batch. -/
theorem Ok.loop (h : c.Ok) (hphase : c.phase = .looping p) (t : Tick E) : c.Keeps (c.loop p t) := by
  have hleased : c.buffer.leased = [] := by
    rw [Client.Ok, hphase] at h
    exact h
  rw [Client.loop, RingBuffer.lease_spec hleased]
  split_ifs
  · exact keeps_of_idle hleased (by simp [ledger, finish, hphase, Phase.waiting]) rfl rfl rfl
  · cases hbatch : c.buffer.items.take maxDrainBatch with
    | nil =>
      have hitems : c.buffer.items = [] := by
        cases hcons : c.buffer.items with
        | nil => rfl
        | cons item rest =>
          rw [hcons] at hbatch
          cases hbatch
      refine keeps_of_idle rfl ?_ rfl rfl rfl
      simp [ledger, finish, hphase, Phase.waiting, hitems]
    | cons item rest =>
      have hd : Dispatch.Ok (⟨[], [], item :: rest, 0⟩ : Dispatch B E) := ⟨nofun, nofun⟩
      refine keeps_of_idle ⟨hd, ?_⟩ ?_ rfl rfl rfl
      · simp [Dispatch.slots, Slot.untried, Function.comp_def]
      · have hwaiting : (⟨[], [], item :: rest, 0⟩ : Dispatch B E).waiting = item :: rest :=
          hd.waiting_eq
        have hsplit : item :: rest ++ c.buffer.items.drop maxDrainBatch = c.buffer.items := by
          rw [← hbatch, take_append_drop]
        simp [ledger, hwaiting, hsplit, hphase, Phase.waiting]

variable {d : Dispatch B E}

/-- **Inside `_dispatch`.** -/
theorem Ok.dispatch (h : c.Ok) (hphase : c.phase = .dispatching p d) (t : Tick E) :
    c.Keeps (c.dispatch p d t) := by
  obtain ⟨hd, hleased⟩ : d.Ok ∧ d.slots.map Slot.item = c.buffer.leased := by
    rw [Client.Ok, hphase] at h
    exact h
  rw [Client.dispatch]
  cases hstep : d.step t with
  | ended =>
    exact keeps_of_idle ⟨hd, hleased⟩ (by simp [ledger, hphase, Phase.waiting]) rfl rfl rfl
  | next d' events =>
    have hadv := hd.step hstep
    refine ⟨⟨hadv.ok, hadv.items_eq.trans hleased⟩, ?_, fun ha => ?_⟩
    · have hsim := hadv.simulates c.appended (tickets c.buffer.items) (entries c.log)
      rw [← entries_append, tickets, tickets, ← map_append, tickets, ← map_append] at hsim
      have hbefore : c.ledger = ⟨c.appended, tickets (d.waiting ++ c.buffer.items),
          entries c.log⟩ := by
        simp [ledger, hphase, Phase.waiting]
      rw [hbefore]
      exact hsim
    · obtain ⟨hreported, hunreported⟩ := drops_append c.log hadv.uncounted
      exact ⟨hreported.trans ha.reported, hunreported.trans ha.unreported⟩

/-- **Settling** puts the items that wait back to the head of the queue. -/
theorem Ok.settle [DecidableEq B] [DecidableEq E] (h : c.Ok) (hphase : c.phase = .settling p d) :
    c.Keeps (c.settle p d) := by
  obtain ⟨-, hleased⟩ : d.Ok ∧ d.slots.map Slot.item = c.buffer.leased := by
    rw [Client.Ok, hphase] at h
    exact h
  have hledger : c.ledger = ⟨c.appended, tickets (d.slots.filterMap Slot.retried ++ c.buffer.items),
      entries (c.log ++ [.counted (RingBuffer.countDropped d.slots)])⟩ := by
    rw [entries_silent c.log rfl]
    simp [ledger, hphase, Phase.waiting, Dispatch.waiting]
  obtain ⟨hreported, hunreported⟩ := drops_counted c.log (RingBuffer.countDropped d.slots)
  rw [Client.settle, RingBuffer.settle_spec hleased]
  split_ifs
  all_goals
    refine ⟨rfl, hledger ▸ Relation.ReflTransGen.refl, fun ha => ?_⟩
    refine ⟨hreported.trans ha.reported, hunreported.trans ?_⟩
    rw [ha.unreported]
    dsimp only [finish]
    omega

/-- **A report** takes exactly what has been counted since the last one. -/
theorem Ok.report (h : c.Ok) (index : ℕ) : c.Keeps (c.report index) := by
  rw [Client.report]
  cases hpass : c.reporting[index]? with
  | none => exact keeps_of_idle h rfl rfl rfl rfl
  | some p =>
    dsimp only
    split_ifs
    · refine ⟨h, ?_, fun ha => ?_⟩
      · have hsilent : ∀ r : FlushReport, entries (c.log ++ [.reported r]) = entries c.log :=
          fun r => entries_silent c.log rfl
        simp only [ledger, hsilent]
        exact Relation.ReflTransGen.refl
      · obtain ⟨hreported, hunreported⟩ := drops_reported c.log ⟨p.sent,
          c.buffer.droppedTotal - c.lastReportedDropped, c.buffer.pendingCount⟩
        constructor
        · rw [hreported, ha.reported]
          dsimp only
          omega
        · dsimp only
          omega
    · exact keeps_of_idle h rfl rfl rfl rfl

/-- **A step of the client is steps of the ledger.** -/
theorem step_simulates [DecidableEq B] [DecidableEq E] (h : c.Ok) (a : ClientStep B E) :
    c.Keeps (c.step a) := by
  cases a with
  | append runId kind body => exact h.append runId kind body
  | start reportDrops acquired =>
    have hwaits : c.Keeps { c with reporting := c.reporting ++ [⟨reportDrops, 0⟩] } :=
      keeps_of_idle h rfl rfl rfl rfl
    cases hphase : c.phase with
    | free =>
      have hleased : c.buffer.leased = [] := by
        rw [Client.Ok, hphase] at h
        exact h
      cases acquired with
      | false => simpa only [step, hphase] using hwaits
      | true =>
        simp only [step, hphase]
        exact keeps_of_idle hleased (by simp [ledger, hphase, Phase.waiting]) rfl rfl rfl
    | looping | dispatching | settling => simpa only [step, hphase] using hwaits
  | tick t =>
    rw [step]
    cases hphase : c.phase with
    | free => exact keeps_of_idle h rfl rfl rfl rfl
    | looping p => exact h.loop hphase t
    | dispatching p d => exact h.dispatch hphase t
    | settling p d => exact h.settle hphase
  | report index => exact h.report index

/-- Everything starts in order. -/
theorem init_ok : (init capacity : Client B E).Ok ∧
    (init capacity : Client B E).ledger.Sound ∧ (init capacity : Client B E).Accounted :=
  ⟨rfl, Ledger.sound_empty, rfl, rfl⟩

end Client

/-! ### Runs -/

section Run

variable [DecidableEq B] [DecidableEq E] (steps : List (ClientStep B E))

/-- **Every run** keeps the lease, a sound ledger and the accounts. -/
theorem exec_sound :
    (Runs.exec Client.step (Client.init capacity) steps).Ok ∧
      (Runs.exec Client.step (Client.init capacity) steps).ledger.Sound ∧
      (Runs.exec Client.step (Client.init capacity) steps).Accounted := by
  refine Runs.exec_invariant (I := fun c : Client B E => c.Ok ∧ c.ledger.Sound ∧ c.Accounted)
    (Client.init_ok capacity) ?_
  rintro c a - ⟨hok, hsound, haccounted⟩
  have hkeeps := Client.step_simulates hok a
  exact ⟨hkeeps.ok, Ledger.Steps.sound hkeeps.simulates hsound, hkeeps.accounted haccounted⟩

/-- **Leasing and settling never raise.** -/
theorem exec_never_fails :
    (∀ p, (Runs.exec Client.step (Client.init capacity) steps).phase = .looping p →
      ∃ r, (Runs.exec Client.step (Client.init capacity) steps).buffer.lease maxDrainBatch =
        .ok r) ∧
    ∀ p d, (Runs.exec Client.step (Client.init capacity) steps).phase = .settling p d →
      ∃ b, (Runs.exec Client.step (Client.init capacity) steps).buffer.settle d.slots = .ok b := by
  obtain ⟨hok, -, -⟩ := exec_sound capacity steps
  constructor
  · intro p hphase
    rw [Client.Ok, hphase] at hok
    exact ⟨_, RingBuffer.lease_spec hok maxDrainBatch⟩
  · intro p d hphase
    rw [Client.Ok, hphase] at hok
    exact ⟨_, RingBuffer.settle_spec hok.2⟩

/-- **What the SDK delivers.** At any point of any run: tickets were answered 2xx in strictly
increasing order; when a request was answered, every item appended before one of its items had
been answered or dropped, or was in the same request; and what explicit flushes reported, with
what has been counted since, is the drop counter. -/
theorem flush_delivery (capacity : ℕ+) (steps : List (ClientStep B E)) :
    (answeredTickets (Runs.exec Client.step (Client.init capacity) steps).log).Pairwise (· < ·) ∧
      (∀ before request after, (Runs.exec Client.step (Client.init capacity) steps).log =
          before ++ .answered request :: after →
        ∀ item ∈ request, ∀ j < item.ticket, j ∈ answeredTickets before ∨
          j ∈ droppedTickets before ∨ ∃ other ∈ request, other.ticket = j) ∧
      reportedDrops (Runs.exec Client.step (Client.init capacity) steps).log +
          unreportedDrops (Runs.exec Client.step (Client.init capacity) steps).log =
        (Runs.exec Client.step (Client.init capacity) steps).buffer.droppedTotal := by
  obtain ⟨-, hsound, haccounted⟩ := exec_sound capacity steps
  refine ⟨?_, ?_, ?_⟩
  · rw [← answered_entries]
    exact hsound.answered_sorted
  · intro before request after hlog item hitem j hj
    have hhistory : entries (Runs.exec Client.step (Client.init capacity) steps).log =
        entries before ++ .answered (tickets request) :: entries after := by
      rw [hlog, entries_append]
      rfl
    have hsettled := hsound.settled_before _ _ _ hhistory item.ticket (mem_map_of_mem hitem) j hj
    rw [answered_entries, dropped_entries] at hsettled
    exact hsettled.imp_right (Or.imp_right mem_map.mp)
  · rw [haccounted.reported, haccounted.unreported]
    omega

end Run

end Tracebed.Sdk
