/-
Concurrent publishing on a stream or a topic (`runtime/resource/stream.go`,
`topic.go`), down to the delivery queues of its subscribers.

A publisher first takes the next number and copies the watchers under the lock of the
resource.  It then calls the watchers one by one without the lock, so that another
publisher can be ahead of it.  `Publishing` holds the resource, the publishers that
are between these two points and the queue of every subscriber; `step` is one of the
atomic steps, and a run is any list of them.

* `Observation`, `enqueueObservation` — what a resource tells an observer;
* `Stream.publish`, `Topic.publish` — the part of a publication under the lock;
* `Publishing.step` — the system.
-/
import MyFlowHub.StreamGap
import MyFlowHub.Tables

open Std Tables Runs

namespace Resource

/-! ### Observations -/

/-- `resource.Observation`. -/
structure Observation where
  snapshot : Bool := false
  revision : UInt64 := 0
  sequence : UInt64 := 0
  publisher : NodeID := 0
  publisherSequence : UInt64 := 0
  schema : String := ""
  value : List UInt8 := []
  failure : Option ErrorPayload := none
  deriving DecidableEq, Repr

/-- What a subscription was asked for, as far as its events repeat it. -/
structure Interest where
  resource : ResourceID
  capability : CapabilityID
  deriving DecidableEq, Repr

def Observation.event (o : Observation) (request : Interest) : Delivery.Event where
  kind := if o.snapshot then .snapshot else .data
  resource := request.resource
  capability := request.capability
  schema := o.schema
  revision := o.revision
  sequence := o.sequence
  publisher := o.publisher
  publisherSequence := o.publisherSequence
  value := o.value

/-- `entry.enqueueObservation`. -/
def enqueueObservation (d : Delivery) (request : Interest) (o : Observation) : Delivery :=
  match o.failure with
  | some failure =>
    d.fail { kind := .failure, resource := request.resource, capability := request.capability,
             failure := some failure }
  | none =>
    if o.snapshot then d.enqueueSnapshot (o.event request)
    else if o.revision ≠ 0 then d.enqueueVariable (o.event request)
    else d.enqueueStream (o.event request)

/-! ### The resources -/

/-- `math.MaxUint64`. -/
def maxUint64 : UInt64 := 18446744073709551615

/-- `validatePayload`. -/
def validatePayload (maxPayloadBytes : ℕ) (value : List UInt8) : Except String Unit :=
  if value.length > maxPayloadBytes then
    .error ("resource value exceeds configured limit: got " ++ toString value.length ++ ", max " ++
      toString maxPayloadBytes)
  else .ok ()

/-- `Stream`, and the two entries of its descriptor that are read; `nextWatch`, a `uint64`, counts
fewer than `2 ^ 64` calls of `Watch`. -/
structure Stream where
  maxPayloadBytes : ℕ
  eventSchema : String
  sequence : UInt64 := 0
  nextWatch : ℕ := 0
  watchers : List ℕ := []

/-- `TopicConfig`. -/
structure TopicConfig where
  maxPublishers : ℕ
  maxSubscribers : ℕ
  maxEventsPerSecond : ℕ

/-- `publisherState`; `none` is the zero time. -/
structure PublisherState where
  sequence : UInt64 := 0
  windowStart : Option ℤ := none
  windowCount : ℕ := 0

/-- `Topic`; times are nanoseconds. -/
structure Topic where
  maxPayloadBytes : ℕ
  eventSchema : String
  config : TopicConfig
  sequence : UInt64 := 0
  publishers : ExtTreeMap NodeID PublisherState compare := ∅
  nextWatch : ℕ := 0
  watchers : List ℕ := []

/-- `Stream.Publish` under the lock: the observation for the watchers, and the stream. -/
def Stream.publish (s : Stream) (value : List UInt8) : Except String (Observation × Stream) := do
  validatePayload s.maxPayloadBytes value
  if s.sequence = maxUint64 then .error "stream sequence exhausted"
  else
    return ({ sequence := s.sequence + 1, schema := s.eventSchema, value := value },
      { s with sequence := s.sequence + 1 })

/-- The window of a publisher, started anew after a second. -/
def PublisherState.window (p : PublisherState) (now : ℤ) : PublisherState :=
  match p.windowStart with
  | none => { p with windowStart := some now, windowCount := 0 }
  | some start =>
    if now - start ≥ 1000000000 then { p with windowStart := some now, windowCount := 0 } else p

/-- `Topic.Publish` under the lock. -/
def Topic.publish (t : Topic) (publisher : NodeID) (value : List UInt8) (now : ℤ) :
    Except String (Observation × Topic) := do
  if publisher.valid = false then
    .error "topic publisher: invalid envelope: node ID must be non-zero"
  else
    validatePayload t.maxPayloadBytes value
    if t.publishers.contains publisher = false ∧ t.publishers.size ≥ t.config.maxPublishers then
      .error "topic publisher limit reached"
    else
      let state := (t.publishers[publisher]?.getD {}).window now
      if state.windowCount ≥ t.config.maxEventsPerSecond then
        .error "topic publisher rate limit reached"
      else if t.sequence = maxUint64 ∨ state.sequence = maxUint64 then
        .error "topic sequence exhausted"
      else
        let state := { state with
          sequence := state.sequence + 1, windowCount := state.windowCount + 1 }
        return ({ sequence := t.sequence + 1, publisher := publisher,
                  publisherSequence := state.sequence, schema := t.eventSchema, value := value },
          { t with sequence := t.sequence + 1, publishers := t.publishers.insert publisher state })

inductive Source where
  | stream (s : Stream)
  | topic (t : Topic)

namespace Source

def publish (publisher : NodeID) (value : List UInt8) (now : ℤ) :
    Source → Except String (Observation × Source)
  | .stream s => (s.publish value).map fun p => (p.1, .stream p.2)
  | .topic t => (t.publish publisher value now).map fun p => (p.1, .topic p.2)

def watchers : Source → List ℕ
  | .stream s => s.watchers
  | .topic t => t.watchers

/-- `Watch`: the number of the watcher, and the resource with it. -/
def watch : Source → Except String (ℕ × Source)
  | .stream s =>
    .ok (s.nextWatch + 1,
      .stream { s with nextWatch := s.nextWatch + 1, watchers := s.watchers ++ [s.nextWatch + 1] })
  | .topic t =>
    if t.watchers.length ≥ t.config.maxSubscribers then .error "topic subscriber limit reached"
    else
      .ok (t.nextWatch + 1, .topic { t with
          nextWatch := t.nextWatch + 1, watchers := t.watchers ++ [t.nextWatch + 1] })

/-- The function `Watch` returns. -/
def cancel (id : ℕ) : Source → Source
  | .stream s => .stream { s with watchers := s.watchers.filter (· ≠ id) }
  | .topic t => .topic { t with watchers := t.watchers.filter (· ≠ id) }

end Source

/-! ### The system -/

/-- A publisher that has left the lock: what it tells, and the watchers still to call. -/
structure Flight where
  observation : Observation
  remaining : List ℕ

/-- A subscription: what was asked for, and its queue with what it has emitted. -/
structure Subscriber where
  request : Interest
  run : Delivery.StreamRun

structure Publishing where
  source : Source
  flights : List Flight := []
  subscribers : ExtTreeMap ℕ Subscriber compare := ∅

inductive PublishAct where
  /-- A publisher takes the next number and copies the watchers. -/
  | publish (order : MapOrder ℕ) (publisher : NodeID) (value : List UInt8) (now : ℤ)
  /-- The publisher at this place calls its next watcher, or returns. -/
  | notify (place : ℕ)
  /-- The subscriber takes an event from its queue. -/
  | next (id : ℕ)
  /-- A subscription with a queue of this capacity. -/
  | watch (request : Interest) (queue : ℕ)
  | cancel (id : ℕ)

namespace Publishing

def deliver (m : Publishing) (id : ℕ) (o : Observation) : Publishing :=
  match m.subscribers[id]? with
  | none => m
  | some s =>
    { m with
      subscribers := m.subscribers.insert id
        { s with run := { s.run with queue := enqueueObservation s.run.queue s.request o } } }

def step (m : Publishing) : PublishAct → Publishing
  | .publish order publisher value now =>
    match m.source.publish publisher value now with
    | .error _ => m
    | .ok (o, source) =>
      { m with source := source,
               flights := m.flights ++ [⟨o, order.arrange source.watchers⟩] }
  | .notify place =>
    match m.flights[place]? with
    | none => m
    | some ⟨_, []⟩ => { m with flights := m.flights.eraseIdx place }
    | some ⟨o, id :: rest⟩ => { m with flights := m.flights.set place ⟨o, rest⟩ }.deliver id o
  | .next id =>
    match m.subscribers[id]? with
    | none => m
    | some s => { m with subscribers := m.subscribers.insert id { s with run := s.run.step .next } }
  | .watch request queue =>
    -- `Subscribe` refuses a queue without room
    if queue < 1 then m
    else
      match m.source.watch with
      | .error _ => m
      | .ok (id, source) =>
        { m with source := source,
                 subscribers := m.subscribers.insert id
                   ⟨request, Delivery.StreamRun.start request.resource queue⟩ }
  | .cancel id => { m with source := m.source.cancel id }

def start (source : Source) : Publishing := { source := source }

end Publishing

end Resource
