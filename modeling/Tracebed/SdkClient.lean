import Tracebed.SdkBuffer

/-!
# Flushing the SDK's Buffer

`TracebedClient._do_flush` of `sdk/client.py` and what it calls: passes of a flush, explicit
ones and those of the background thread, that lease a batch, send it in order and settle it.

A pass that holds the flush lock moves in ticks: it tests the deadline, leases, encodes one item,
sends one request, or settles. Calls of `append` come in between at any point, as do passes that
fail to get the lock and passes that report after they have released it. What the environment does
is part of the tick, and the log is a history kept beside the state.
-/

namespace Tracebed.Sdk

variable {B E : Type}

/-! ### One request -/

/-- What becomes of a request that `_post` is asked to send. -/
inductive Answer
  | expired
  | noToken
  | raised
  | status (code : ℕ)

/-- `_post(path, payload, deadline_ms)`. -/
def post : Answer → Outcome
  | .expired | .noToken | .raised => .retry
  | .status code =>
    if 200 ≤ code ∧ code < 300 then .sent
    else if code = 408 ∨ code = 429 ∨ 500 ≤ code then .retry
    else .dropped

/-- `_freeze(item, key)`; `dump` is what the serialiser makes of the model. An item that has
been encoded once keeps that form. -/
def freeze (item : BufferedItem B E) (dump : Option E) : Option (BufferedItem B E) :=
  if item.encoded.isSome then some item
  else dump.map fun e => { item with encoded := some e }

/-- Freezing keeps the item. -/
theorem ticket_of_freeze {item frozen : BufferedItem B E} {dump : Option E}
    (h : freeze item dump = some frozen) : frozen.ticket = item.ticket := by
  rw [freeze] at h
  split_ifs at h
  · cases h
    rfl
  · obtain ⟨e, -, rfl⟩ := Option.map_eq_some_iff.mp h
    rfl

/-! ### The history -/

/-- `FlushReport`. -/
structure FlushReport where
  sent : ℕ
  dropped : ℤ
  pending : ℕ

/-- An entry of the history. -/
inductive Event (B E : Type)
  /-- An item is given up: evicted, refused, not encodable, or refused by the server. -/
  | dropped (item : BufferedItem B E)
  /-- A request is answered 2xx. -/
  | answered (request : List (BufferedItem B E))
  /-- The drop counter moves. -/
  | counted (n : ℕ)
  /-- An explicit flush returns. -/
  | reported (report : FlushReport)

variable (log : List (Event B E))

def answeredTickets : List ℕ :=
  log.flatMap fun e => match e with
    | .answered request => request.map BufferedItem.ticket
    | _ => []

def droppedTickets : List ℕ :=
  log.flatMap fun e => match e with
    | .dropped item => [item.ticket]
    | _ => []

/-- The sum of `FlushReport.dropped` over the explicit flushes. -/
def reportedDrops : ℤ :=
  (log.map fun e => match e with
    | .reported r => r.dropped
    | _ => 0).sum

/-- The drops counted since the last explicit flush reported. -/
def unreportedDrops : ℤ :=
  log.foldl (fun acc e => match e with
    | .counted n => acc + n
    | .reported _ => 0
    | _ => acc) 0

/-! ### Dispatch -/

/-- `_dispatch` between two of its steps: the slots before the current delivery group, those
of the group so far, the items behind it, and the number sent. -/
structure Dispatch (B E : Type) where
  done : List (Slot B E)
  group : List (Slot B E)
  rest : List (BufferedItem B E)
  sent : ℕ

/-- An item no attempt has been made for. -/
def Slot.untried (item : BufferedItem B E) : Slot B E := ⟨item, .retry, none⟩

/-- What the environment does during one step of the pass that holds the lock. -/
structure Tick (E : Type) where
  /-- The clock is at or past the deadline. -/
  expired : Bool
  /-- A helper raises. -/
  raised : Bool
  dump : Option E
  answer : Answer

/-- What a step of `_dispatch` leads to. -/
inductive Progress (B E : Type)
  | ended
  | next (d : Dispatch B E) (events : List (Event B E))

namespace Dispatch

variable (d : Dispatch B E)

/-- The settlement of the whole batch. -/
def slots : List (Slot B E) := d.done ++ d.group ++ d.rest.map Slot.untried

/-- What the group would send. -/
def request : List (BufferedItem B E) := d.group.filterMap Slot.replacement

variable (item : BufferedItem B E)

/-- The next item belongs to the current group: the group is empty, or both are traces. -/
def joins : Bool :=
  match d.group.getLast? with
  | none => true
  | some s => s.item.kind = .trace && item.kind = .trace

/-- The slot of an item that has been encoded, or could not be. -/
def frozenSlot (dump : Option E) : Slot B E :=
  match freeze item dump with
  | none => ⟨item, .dropped, none⟩
  | some frozen => ⟨item, .retry, some frozen⟩

/-- The item joins the group. -/
def take (rest : List (BufferedItem B E)) (dump : Option E) : Progress B E :=
  .next { d with group := d.group ++ [frozenSlot item dump], rest := rest }
    (if (freeze item dump).isNone then [.dropped item] else [])

/-- The outcome of a request, entered for the items that were in it. -/
def mark (o : Outcome) (s : Slot B E) : Slot B E :=
  if s.replacement.isSome then { s with outcome := o } else s

/-- The group is over. -/
def close (o : Outcome) : Dispatch B E where
  done := d.done ++ d.group.map (mark o)
  group := []
  rest := d.rest
  sent := if o = .sent then d.sent + d.request.length else d.sent

/-- The group is complete: it is sent, if there is anything to send. -/
def deliver (answer : Answer) : Progress B E :=
  if d.request.isEmpty then .next (d.close .dropped) []
  else
    match post answer with
    | .retry => .ended
    | .sent => .next (d.close .sent) [.answered d.request]
    | .dropped => .next (d.close .dropped) (d.request.map .dropped)

/-- One step of `_dispatch(items, deadline_ms, settlement)`. -/
def step (t : Tick E) : Progress B E :=
  if t.raised then .ended
  else
    match d.rest with
    | [] => if d.group.isEmpty then .ended else d.deliver t.answer
    | item :: rest =>
      if d.joins item then
        if t.expired then .ended else d.take item rest t.dump
      else d.deliver t.answer

end Dispatch

/-! ### Passes -/

/-- A pass of `_do_flush`: whether it reports drops, and what it has sent. -/
structure Pass where
  reportDrops : Bool
  sent : ℕ

/-- Where the pass that holds the flush lock is. -/
inductive Phase (B E : Type)
  | free
  | looping (p : Pass)
  | dispatching (p : Pass) (d : Dispatch B E)
  | settling (p : Pass) (d : Dispatch B E)

/-- The client. `reporting` are passes that do not hold the lock and have yet to report;
`appended` counts the calls of `append`. -/
structure Client (B E : Type) where
  buffer : RingBuffer B E
  phase : Phase B E
  reporting : List Pass
  lastReportedDropped : ℕ
  appended : ℕ
  log : List (Event B E)

variable (c : Client B E)

/-- What can happen next. -/
inductive ClientStep (B E : Type)
  /-- A caller appends an item. -/
  | append (runId : RunId) (kind : ItemKind) (body : B)
  /-- A pass starts; it gets the lock or gives up waiting for it. -/
  | start (reportDrops acquired : Bool)
  /-- The pass that holds the lock goes on. -/
  | tick (t : Tick E)
  /-- A pass without the lock reports. -/
  | report (index : ℕ)

/-- `_MAX_DRAIN_BATCH`. -/
def maxDrainBatch : ℕ := 500

namespace Client

/-- `TracebedClient(..., buffer_capacity=capacity)`. -/
def init (capacity : ℕ+) : Client B E where
  buffer := .init capacity
  phase := .free
  reporting := []
  lastReportedDropped := 0
  appended := 0
  log := []

/-- A call of `append`. -/
def append (runId : RunId) (kind : ItemKind) (body : B) : Client B E :=
  let (buffer, _, lost) := c.buffer.append c.appended runId kind body
  { c with
    buffer := buffer
    appended := c.appended + 1
    log := c.log ++ match lost with
      | none => []
      | some item => [.dropped item, .counted 1] }

variable (p : Pass)

/-- The pass releases the lock and goes on to report. -/
def finish : Client B E :=
  { c with phase := .free, reporting := c.reporting ++ [p] }

/-- An exception leaves the pass. The handler of `flush` reports all the same; the background
loop does not. -/
def fail : Client B E :=
  { c with
    phase := .free
    reporting := if p.reportDrops then c.reporting ++ [⟨true, 0⟩] else c.reporting }

/-- The pass at the head of its loop. -/
def loop (t : Tick E) : Client B E :=
  if t.expired then c.finish p
  else
    match c.buffer.lease maxDrainBatch with
    | .error _ => c.fail p
    | .ok (buffer, []) => { c with buffer := buffer }.finish p
    | .ok (buffer, item :: rest) =>
      { c with buffer := buffer, phase := .dispatching p ⟨[], [], item :: rest, 0⟩ }

/-- The pass inside `_dispatch`. -/
def dispatch (d : Dispatch B E) (t : Tick E) : Client B E :=
  match d.step t with
  | .ended => { c with phase := .settling p d }
  | .next d' events => { c with phase := .dispatching p d', log := c.log ++ events }

/-- The `finally` clause, and the test that ends the loop after a retry. -/
def settle [DecidableEq B] [DecidableEq E] (c : Client B E) (p : Pass) (d : Dispatch B E) :
    Client B E :=
  match c.buffer.settle d.slots with
  | .error _ => c.fail p
  | .ok buffer =>
    let c : Client B E :=
      { c with buffer := buffer, log := c.log ++ [.counted (RingBuffer.countDropped d.slots)] }
    let p : Pass := { p with sent := p.sent + d.sent }
    if d.slots.any fun s => s.outcome = .retry then c.finish p
    else { c with phase := .looping p }

/-- `_report(sent=..., report_drops=...)`. The report of a background pass goes nowhere. -/
def report (index : ℕ) : Client B E :=
  match c.reporting[index]? with
  | none => c
  | some p =>
    let reporting := c.reporting.eraseIdx index
    if p.reportDrops then
      { c with
        reporting := reporting
        lastReportedDropped := c.buffer.droppedTotal
        log := c.log ++ [.reported ⟨p.sent, c.buffer.droppedTotal - c.lastReportedDropped,
          c.buffer.pendingCount⟩] }
    else { c with reporting := reporting }

def step [DecidableEq B] [DecidableEq E] (c : Client B E) : ClientStep B E → Client B E
  | .append runId kind body => c.append runId kind body
  | .start reportDrops acquired =>
    match c.phase, acquired with
    | .free, true => { c with phase := .looping ⟨reportDrops, 0⟩ }
    | _, _ => { c with reporting := c.reporting ++ [⟨reportDrops, 0⟩] }
  | .tick t =>
    match c.phase with
    | .free => c
    | .looping p => c.loop p t
    | .dispatching p d => c.dispatch p d t
    | .settling p d => c.settle p d
  | .report index => c.report index

end Client

end Tracebed.Sdk
