/-
The delivery queue of one subscription (`runtime/subscription/delivery.go`).

A `Delivery` sits between the goroutine that publishes events and the goroutine
that hands them to the subscriber.  Its state is a bounded list of pending
events, at most one open gap range, at most one stream event deferred behind
that gap, the newest variable value and a terminal event.  Every method runs
under the queue's lock, so each one is a function on the state:

* `next` — take the event to emit now;
* `enqueueSnapshot`, `enqueueVariable`, `enqueueStream` — the three producers;
* `expire`, `fail`, `stop` — the three ways a delivery ends.

`cloneEvent` copies slices and is the identity on values.  The wake-up channel
only schedules the consumer goroutine and carries no data.
-/
import MyFlowHub.Protocol

namespace Delivery

/-- `EventKind`. -/
inductive EventKind where
  | snapshot | data | gap | expired | failure
  deriving DecidableEq, Repr

/-- `Event`. -/
structure Event where
  kind : EventKind
  resource : ResourceID
  capability : CapabilityID := ""
  schema : String := ""
  revision : UInt64 := 0
  sequence : UInt64 := 0
  publisher : NodeID := 0
  publisherSequence : UInt64 := 0
  gapFrom : UInt64 := 0
  gapTo : UInt64 := 0
  value : List UInt8 := []
  reason : String := ""
  failure : Option ErrorPayload := none
  deriving DecidableEq, Repr

end Delivery

/-- `delivery`; `done` is `ctx.Err() != nil`. -/
structure Delivery where
  done : Bool
  resource : ResourceID
  capacity : ℕ
  pending : List Delivery.Event
  latestVariable : Option Delivery.Event
  gapFrom : UInt64
  gapTo : UInt64
  gapReason : String
  lastStream : UInt64
  deferredStream : Option Delivery.Event
  terminal : Option Delivery.Event
  failed : Bool
  deriving DecidableEq, Repr

namespace Delivery

/-- `newDelivery`. -/
def newDelivery (resource : ResourceID) (queue : ℕ) : Delivery where
  done := false
  resource := resource
  capacity := queue
  pending := []
  latestVariable := none
  gapFrom := 0
  gapTo := 0
  gapReason := ""
  lastStream := 0
  deferredStream := none
  terminal := none
  failed := false

def gapRange (resource : ResourceID) (gapFrom gapTo : UInt64) (reason : String) : Event :=
  { kind := .gap, resource := resource, gapFrom := gapFrom, gapTo := gapTo, reason := reason }

/-- The gap event that `next` builds from the open range. -/
def gapEvent (d : Delivery) : Event := gapRange d.resource d.gapFrom d.gapTo d.gapReason

/-- What `next` returns: the event and whether it is terminal. -/
structure Emission where
  event : Event
  terminal : Bool
  deriving DecidableEq, Repr

/-- The terminal branch of `next`. -/
def takeTerminal (d : Delivery) : Option Emission × Delivery :=
  match d.terminal with
  | some event => (some ⟨event, true⟩, { d with terminal := none })
  | none => (none, d)

/-- The branches of `next` below the terminal of a failed delivery, in source
order: deferred event, pending events, gap, variable, terminal. -/
def nextQueued (d : Delivery) : Option Emission × Delivery :=
  match d.deferredStream with
  | some event =>
    if d.gapFrom = 0 then
      (some ⟨event, false⟩, { d with deferredStream := none })
    else
      nextPending d
  | none => nextPending d
where
  nextPending (d : Delivery) : Option Emission × Delivery :=
    match d.pending with
    | event :: rest => (some ⟨event, false⟩, { d with pending := rest })
    | [] =>
      if d.gapFrom ≠ 0 then
        (some ⟨d.gapEvent, false⟩, { d with gapFrom := 0, gapTo := 0, gapReason := "" })
      else
        match d.latestVariable with
        | some event => (some ⟨event, false⟩, { d with latestVariable := none })
        | none => d.takeTerminal

/-- `delivery.next`; `none` is the `false` in the middle of its result. -/
def next (d : Delivery) : Option Emission × Delivery :=
  if d.failed && d.terminal.isSome then d.takeTerminal else d.nextQueued

/-- The guard every producer starts with: a failed or cancelled delivery takes
no more events. -/
def closed (d : Delivery) : Bool := d.failed || d.done

/-- `delivery.enqueueSnapshot`. -/
def enqueueSnapshot (d : Delivery) (event : Event) : Delivery :=
  if d.closed then d else { d with pending := d.pending ++ [event] }

/-- `delivery.enqueueVariable`. -/
def enqueueVariable (d : Delivery) (event : Event) : Delivery :=
  if d.closed then d else { d with latestVariable := some event }

/-- `delivery.enqueueStream`, its four branches in source order. -/
def enqueueStream (d : Delivery) (event : Event) : Delivery :=
  if d.closed then d
  else if d.lastStream ≠ 0 ∧ event.sequence > d.lastStream + 1 ∧ d.gapFrom = 0 then
    -- the source skipped numbers: the event waits behind the gap
    { d with
      gapFrom := d.lastStream + 1
      gapTo := event.sequence - 1
      gapReason := "source_gap"
      deferredStream := some event
      lastStream := event.sequence }
  else if d.gapFrom ≠ 0 then
    -- a gap is open: it swallows the new event, and a deferred one with it
    { d with gapTo := event.sequence, deferredStream := none, lastStream := event.sequence }
  else if d.pending.length ≥ d.capacity then
    { d with
      gapFrom := event.sequence
      gapTo := event.sequence
      gapReason := "slow_consumer"
      lastStream := event.sequence }
  else
    { d with pending := d.pending ++ [event], lastStream := event.sequence }

/-- `delivery.expire`. -/
def expire (d : Delivery) (reason : String) : Delivery :=
  if d.closed then d
  else if d.terminal.isNone then
    { d with terminal := some { kind := .expired, resource := d.resource, reason := reason } }
  else d

/-- `delivery.fail`. -/
def fail (d : Delivery) (event : Event) : Delivery :=
  if d.closed then d
  else
    { d with
      failed := true
      pending := []
      latestVariable := none
      deferredStream := none
      gapFrom := 0
      gapTo := 0
      gapReason := ""
      terminal := some event }

/-- `delivery.stop`. -/
def stop (d : Delivery) : Delivery := { d with done := true }

end Delivery
