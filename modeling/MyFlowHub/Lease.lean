/-
The lease of a subscription (`runtime/node/operations.go`, `runtime/subscription/manager.go`,
`runtime/subscription/interest.go`).

A subscribe request asks for a lease in milliseconds.  The handler turns it into a duration, a
64-bit count of nanoseconds, and the manager compares the duration with its bounds.  The product
wraps before it is compared.

* `Config.normalized`, `Manager.subscribe`, `handleSubscribe` — the owner's side;
* `lease_face_value_iff` — leases are taken at face value exactly where the product does not wrap
  into the bounds;
* `lease_of_centuries` — a request for 584 years is granted for one second.
-/
import MyFlowHub.Routing
import MyFlowHub.Descriptors
import MyFlowHub.PolicyDecision

open Checks Protocol
open Routing

open Std (ExtTreeMap)
open Auth (Text validateResource validateCapability)
open Resource (ResourceDescriptorV2 Observation enqueueObservation)

namespace Subscription

/-- `time.Millisecond`, `time.Second`, `time.Hour` as durations. -/
def millisecond : Int64 := 1000000
def second : Int64 := 1000000000
def hour : Int64 := 3600000000000

/-! ### The manager -/

structure Config where
  maxSubscriptions : ℤ := 0
  defaultQueue : ℤ := 0
  maxQueue : ℤ := 0
  minLease : Int64 := 0
  maxLease : Int64 := 0

def Config.withDefaults (c : Config) : Config where
  maxSubscriptions := if c.maxSubscriptions ≤ 0 then 1024 else c.maxSubscriptions
  defaultQueue := if c.defaultQueue ≤ 0 then 16 else c.defaultQueue
  maxQueue := if c.maxQueue ≤ 0 then 256 else c.maxQueue
  minLease := if c.minLease ≤ 0 then second else c.minLease
  maxLease := if c.maxLease ≤ 0 then 24 * hour else c.maxLease

def Config.normalized (c : Config) : Except String Config :=
  if c.withDefaults.maxQueue < c.withDefaults.defaultQueue ∨
      c.withDefaults.maxLease < c.withDefaults.minLease then
    .error "invalid subscription configuration"
  else .ok c.withDefaults

/-- `subscription.Request`; `authorizedUntil` is `none` for the zero time. -/
structure Request where
  id : MessageID
  subscriber : NodeID
  resource : ResourceID
  capability : CapabilityID
  linkID : String
  nextHop : NodeID
  lease : Int64
  authorizedUntil : Option ℤ := none
  topologyEpoch : UInt64
  policyGeneration : UInt64
  policyIndependent : Bool
  queue : ℤ

/-- `subscription.Interest`. -/
structure Interest where
  id : MessageID
  subscriber : NodeID
  resource : ResourceID
  capability : CapabilityID
  linkID : String
  nextHop : NodeID
  leaseUntil : ℤ
  authorizedUntil : ℤ
  topologyEpoch : UInt64
  policyGeneration : UInt64

structure Entry where
  request : Request
  leaseUntil : ℤ
  delivery : Delivery

structure Manager where
  config : Config
  interests : ExtTreeMap MessageID Interest compare := ∅
  entries : ExtTreeMap MessageID Entry compare := ∅
  closed : Bool := false

/-- A registered resource: `observe` is `none` where it is not observable, and otherwise the
answer of `Observe`. -/
structure Provided where
  descriptor : ResourceDescriptorV2
  observe : Option (Except String (Option Observation))

/-- What `Subscribe` is told from outside: the clock in nanoseconds, `NewMessageID` and the
registry. -/
structure Surroundings where
  now : ℤ
  newID : Except String MessageID
  resolve : ResourceID → Option Provided

inductive Refusal where
  | invalidLease | subscriptionLimit | notSubscribable | notFound
  | malformed (text : String)
  | other (text : String)

def check (p : Prop) [Decidable p] (refusal : Refusal) : Except Refusal Unit :=
  if p then .ok () else .error refusal

variable (os : Text)

/-- A subscription as far as it is prepared before the tables are touched. -/
structure Prepared where
  id : MessageID
  queue : ℤ
  leaseUntil : ℤ
  authorizedUntil : ℤ
  snapshot : Option Observation

/-- `Subscribe` up to the tables. -/
def Manager.prepare (m : Manager) (env : Surroundings) (request : Request) :
    Except Refusal Prepared := do
  let id ← (if request.id = 0 then env.newID.mapError .other else .ok request.id)
  (validateNodeID request.subscriber).mapError .other
  (validateResource os request.resource).mapError .other
  (validateCapability os request.capability).mapError .other
  check (request.linkID ≠ "") (.other "subscription link ID is required")
  check (¬(request.lease < m.config.minLease ∨ m.config.maxLease < request.lease)) .invalidLease
  let queue := if request.queue = 0 then m.config.defaultQueue else request.queue
  check (¬(queue < 1 ∨ m.config.maxQueue < queue))
    (.other "subscription queue is outside configured limits")
  let leaseUntil := env.now + request.lease.toInt
  let authorizedUntil := request.authorizedUntil.getD leaseUntil
  check (¬authorizedUntil < leaseUntil)
    (.other "subscription authorization does not cover requested lease")
  match env.resolve request.resource with
  | none => .error .notFound
  | some value =>
    match value.descriptor.capability request.capability with
    | none => .error .notSubscribable
    | some capability =>
      check (capability.eventSchema ≠ "") .notSubscribable
      match value.observe with
      | none => .error .notSubscribable
      | some (.error text) => .error (.other text)
      | some (.ok snapshot) => .ok ⟨id, queue, leaseUntil, authorizedUntil, snapshot⟩

/-- `InterestTable.Add`; the table has room for as many as the manager. -/
def Manager.addInterest (m : Manager) (interest : Interest) : Except Refusal Manager := do
  check (interest.id ≠ 0) (.other "interest ID is required")
  (validateNodeID interest.subscriber).mapError .other
  (validateResource os interest.resource).mapError .other
  (validateCapability os interest.capability).mapError .other
  check (¬(interest.linkID = "" ∨ interest.authorizedUntil < interest.leaseUntil))
    (.other "interest requires a link and authorization covering its lease")
  check (m.interests.contains interest.id = false) (.other "interest ID already exists")
  check (¬m.config.maxSubscriptions ≤ m.interests.size)
    (.other "subscription interest limit reached")
  return { m with interests := m.interests.insert interest.id interest }

/-- `Manager.Subscribe`: the entry of the new subscription, and the manager. -/
def Manager.subscribe (m : Manager) (env : Surroundings) (request : Request) :
    Except Refusal (Entry × Manager) := do
  let prepared ← m.prepare os env request
  let request := { request with
    id := prepared.id
    authorizedUntil := some prepared.authorizedUntil }
  let delivery := Delivery.newDelivery request.resource prepared.queue.toNat
  let delivery := prepared.snapshot.elim delivery
    (enqueueObservation delivery ⟨request.resource, request.capability⟩)
  let added ← m.addInterest os
    { id := request.id
      subscriber := request.subscriber
      resource := request.resource
      capability := request.capability
      linkID := request.linkID
      nextHop := request.nextHop
      leaseUntil := prepared.leaseUntil
      authorizedUntil := prepared.authorizedUntil
      topologyEpoch := request.topologyEpoch
      policyGeneration := request.policyGeneration }
  check (m.closed = false) (.other "subscription manager is closed")
  check (m.entries.contains request.id = false) (.other "subscription ID already exists")
  check (¬m.config.maxSubscriptions ≤ m.entries.size) .subscriptionLimit
  let entry : Entry := ⟨request, prepared.leaseUntil, delivery⟩
  return (entry, { added with entries := m.entries.insert request.id entry })

/-! ### The handler -/

/-- What the handler reads of the node: its ID, the epoch of its tree, and its policy. -/
structure Owner where
  id : NodeID
  epoch : UInt64
  policyGeneration : UInt64

/-- The request that `handleSubscribe` makes of an envelope and its payload. -/
def subscribeRequest (n : Owner) (inbound : Option PeerSession) (e : Envelope)
    (leaseMS : Int64) (queue : ℤ) : Request where
  id := e.messageID
  subscriber := e.subject
  resource := e.resource
  capability := e.capability
  linkID := inbound.elim "local" PeerSession.linkID
  nextHop := inbound.elim n.id PeerSession.peer
  lease := leaseMS * millisecond
  topologyEpoch := inbound.elim n.epoch PeerSession.epoch
  policyGeneration := n.policyGeneration
  policyIndependent := e.phase = .control ∨ e.subject = n.id
  queue := queue

/-- `handleSubscribe` from the decoded payload to the answer of `Subscribe`. -/
def handleSubscribe (m : Manager) (env : Surroundings) (n : Owner)
    (inbound : Option PeerSession) (e : Envelope) (version : ℤ) (leaseMS : Int64)
    (queue : ℤ) : Except Refusal (Entry × Manager) := do
  check (¬(version ≠ 2 ∨ leaseMS ≤ 0)) (.malformed "subscription version or lease is invalid")
  m.subscribe os env (subscribeRequest n inbound e leaseMS queue)

variable {os}

/-! ### What is refused because of the lease -/

variable {c : Config} {leaseMS : Int64} {m : Manager} {refusal : Refusal} {request : Request}
  {env : Surroundings} {α : Type}

theorem check_eq_ok {p : Prop} [Decidable p] : check p refusal = .ok () ↔ p := by
  rw [check]
  split <;> simp [*]

def Refusal.OfLease : Refusal → Prop
  | .invalidLease | .malformed _ => True
  | _ => False

/-- Where the call refuses because of the lease, there is a reason. -/
def RefusesFor (reason : Prop) (x : Except Refusal α) : Prop :=
  ∀ refusal : Refusal, x = .error refusal → refusal.OfLease → reason

section

variable {reason : Prop}

theorem RefusesFor.bind {β : Type} {x : Except Refusal α} {f : α → Except Refusal β}
    (hx : RefusesFor reason x) (hf : ∀ a, RefusesFor reason (f a)) :
    RefusesFor reason (x >>= f) := by
  intro refusal h hlease
  obtain h | ⟨a, -, h⟩ := bind_eq_error.1 h
  · exact hx refusal h hlease
  · exact hf a refusal h hlease

theorem refusesFor_ok (a : α) : RefusesFor reason (.ok a) := by
  rintro refusal ⟨⟩

theorem refusesFor_error (h : refusal.OfLease → reason) :
    RefusesFor reason (.error refusal : Except Refusal α) := by
  rintro _ ⟨⟩
  exact h

theorem refusesFor_check {p : Prop} [Decidable p] (h : refusal.OfLease → ¬p → reason) :
    RefusesFor reason (check p refusal) := by
  unfold check
  split_ifs with hp
  · exact refusesFor_ok ()
  · exact refusesFor_error fun hlease => h hlease hp

theorem refusesFor_mapError (x : Except String α) : RefusesFor reason (x.mapError .other) := by
  cases x with
  | error text => exact refusesFor_error nofun
  | ok a => exact refusesFor_ok a

theorem refusesFor_addInterest (interest : Interest) :
    RefusesFor reason (m.addInterest os interest) := by
  unfold Manager.addInterest
  refine .bind (refusesFor_check nofun) fun _ => ?_
  refine .bind (refusesFor_mapError _) fun _ => ?_
  refine .bind (refusesFor_mapError _) fun _ => ?_
  refine .bind (refusesFor_mapError _) fun _ => ?_
  refine .bind (refusesFor_check nofun) fun _ => ?_
  refine .bind (refusesFor_check nofun) fun _ => ?_
  refine .bind (refusesFor_check nofun) fun _ => ?_
  exact refusesFor_ok _

end

theorem refusesFor_prepare :
    RefusesFor (request.lease < m.config.minLease ∨ m.config.maxLease < request.lease)
      (m.prepare os env request) := by
  unfold Manager.prepare
  refine .bind ?_ fun _ => ?_
  · split_ifs
    · exact refusesFor_mapError _
    · exact refusesFor_ok _
  refine .bind (refusesFor_mapError _) fun _ => ?_
  refine .bind (refusesFor_mapError _) fun _ => ?_
  refine .bind (refusesFor_mapError _) fun _ => ?_
  refine .bind (refusesFor_check nofun) fun _ => ?_
  refine .bind (refusesFor_check fun _ => not_not.mp) fun _ => ?_
  -- what follows refuses for other reasons
  refine .bind (refusesFor_check nofun) fun _ => ?_
  refine .bind (refusesFor_check nofun) fun _ => ?_
  split
  · exact refusesFor_error nofun
  split
  · exact refusesFor_error nofun
  refine .bind (refusesFor_check nofun) fun _ => ?_
  split
  · exact refusesFor_error nofun
  · exact refusesFor_error nofun
  · exact refusesFor_ok _

theorem prepare_eq_ok {prepared : Prepared} (h : m.prepare os env request = .ok prepared) :
    ¬(request.lease < m.config.minLease ∨ m.config.maxLease < request.lease) ∧
      prepared.leaseUntil = env.now + request.lease.toInt := by
  unfold Manager.prepare at h
  obtain ⟨_, -, h⟩ := bind_eq_ok.1 h
  obtain ⟨_, -, h⟩ := bind_eq_ok.1 h
  obtain ⟨_, -, h⟩ := bind_eq_ok.1 h
  obtain ⟨_, -, h⟩ := bind_eq_ok.1 h
  obtain ⟨_, -, h⟩ := bind_eq_ok.1 h
  obtain ⟨_, hbounds, h⟩ := bind_eq_ok.1 h
  obtain ⟨_, -, h⟩ := bind_eq_ok.1 h
  obtain ⟨_, -, h⟩ := bind_eq_ok.1 h
  refine ⟨check_eq_ok.1 hbounds, ?_⟩
  split at h
  · cases h
  split at h
  · cases h
  obtain ⟨_, -, h⟩ := bind_eq_ok.1 h
  split at h <;> cases h
  rfl

theorem refusesFor_subscribe :
    RefusesFor (request.lease < m.config.minLease ∨ m.config.maxLease < request.lease)
      (m.subscribe os env request) := by
  unfold Manager.subscribe
  refine .bind refusesFor_prepare fun _ => ?_
  refine .bind (refusesFor_addInterest _) fun _ => ?_
  refine .bind (refusesFor_check nofun) fun _ => ?_
  refine .bind (refusesFor_check nofun) fun _ => ?_
  refine .bind (refusesFor_check nofun) fun _ => ?_
  exact refusesFor_ok _

theorem subscribe_eq_ok {m' : Manager} {entry : Entry}
    (h : m.subscribe os env request = .ok (entry, m')) :
    ¬(request.lease < m.config.minLease ∨ m.config.maxLease < request.lease) ∧
      entry.leaseUntil = env.now + request.lease.toInt := by
  unfold Manager.subscribe at h
  obtain ⟨prepared, hprepared, h⟩ := bind_eq_ok.1 h
  obtain ⟨_, -, h⟩ := bind_eq_ok.1 h
  obtain ⟨_, -, h⟩ := bind_eq_ok.1 h
  obtain ⟨_, -, h⟩ := bind_eq_ok.1 h
  obtain ⟨_, -, h⟩ := bind_eq_ok.1 h
  cases h
  exact prepare_eq_ok hprepared

section Handler

variable {m : Manager} {env : Surroundings} {n : Owner} {inbound : Option PeerSession}
  {e : Envelope} {version queue : ℤ} {leaseMS : Int64}

/-- **Why a lease is refused.** -/
theorem refusesFor_handleSubscribe :
    RefusesFor (version ≠ 2 ∨ leaseMS ≤ 0 ∨ leaseMS * millisecond < m.config.minLease ∨
      m.config.maxLease < leaseMS * millisecond)
      (handleSubscribe os m env n inbound e version leaseMS queue) := by
  unfold handleSubscribe
  refine .bind (refusesFor_check fun _ hhead => ?_) fun _ refusal h hlease => ?_
  · exact (not_not.mp hhead).imp_right .inl
  · have hbounds := refusesFor_subscribe refusal h hlease
    exact .inr (.inr hbounds)

/-- **What lease is granted.** -/
theorem handleSubscribe_eq_ok {entry : Entry} {m' : Manager}
    (h : handleSubscribe os m env n inbound e version leaseMS queue = .ok (entry, m')) :
    ¬leaseMS ≤ 0 ∧ ¬(leaseMS * millisecond < m.config.minLease ∨
      m.config.maxLease < leaseMS * millisecond) ∧
      entry.leaseUntil = env.now + (leaseMS * millisecond).toInt := by
  unfold handleSubscribe at h
  obtain ⟨_, hhead, h⟩ := bind_eq_ok.1 h
  have hgranted := subscribe_eq_ok h
  exact ⟨(not_or.mp (check_eq_ok.1 hhead)).2, hgranted⟩

end Handler

/-! ### Face value -/

/-- What a configuration in force guarantees. -/
structure Config.Normal (c : Config) : Prop where
  minLease : 0 < c.minLease
  queue : 1 ≤ c.defaultQueue ∧ c.defaultQueue ≤ c.maxQueue
  subscriptions : 1 ≤ c.maxSubscriptions

theorem normalized_eq_ok {config : Config} (h : config.normalized = .ok c) : c.Normal := by
  unfold Config.normalized at h
  split_ifs at h with hbounds
  cases h
  have hqueue := (not_or.mp hbounds).1
  refine ⟨?_, ⟨?_, not_lt.mp hqueue⟩, ?_⟩
  · unfold Config.withDefaults
    dsimp only
    split_ifs with hmin
    · decide
    · exact Int64.not_le.mp hmin
  · unfold Config.withDefaults
    dsimp only
    split_ifs <;> omega
  · unfold Config.withDefaults
    dsimp only
    split_ifs <;> omega

theorem toInt_mul_millisecond (hpos : 0 < leaseMS.toInt) (hlt : leaseMS.toInt * 1000000 < 2 ^ 63) :
    (leaseMS * millisecond).toInt = leaseMS.toInt * 1000000 := by
  have hms : millisecond.toInt = 1000000 := by decide
  rw [Int64.toInt_mul, hms]
  apply Int.bmod_eq_of_le <;> omega

/-- So many milliseconds, as an integer, are within the bounds. -/
def Between (c : Config) (leaseMS : Int64) : Prop :=
  c.minLease.toInt ≤ leaseMS.toInt * 1000000 ∧ leaseMS.toInt * 1000000 ≤ c.maxLease.toInt

/-- A lease is refused only outside the bounds, and granted only within them and as it was asked
for. -/
def FaceValue (c : Config) (leaseMS : Int64) : Prop :=
  ∀ (os : Text) (m : Manager) (env : Surroundings) (n : Owner)
    (inbound : Option PeerSession) (e : Envelope) (queue : ℤ), m.config = c →
    (∀ refusal, handleSubscribe os m env n inbound e 2 leaseMS queue = .error refusal →
      refusal.OfLease → ¬Between c leaseMS) ∧
    ∀ entry m', handleSubscribe os m env n inbound e 2 leaseMS queue = .ok (entry, m') →
      Between c leaseMS ∧ entry.leaseUntil = env.now + leaseMS.toInt * 1000000

/-- The product wraps, and what is left of it is within the bounds. -/
def WrapsInto (c : Config) (leaseMS : Int64) : Prop :=
  2 ^ 63 ≤ leaseMS.toInt * 1000000 ∧
    ¬(leaseMS * millisecond < c.minLease ∨ c.maxLease < leaseMS * millisecond)

theorem faceValue_of_not_wrapsInto (hc : c.Normal) (h : ¬WrapsInto c leaseMS) :
    FaceValue c leaseMS := by
  intro os m env n inbound e queue hm
  have hmin : 0 < c.minLease.toInt := Int64.lt_iff_toInt_lt.mp hc.minLease
  have hmax : c.maxLease.toInt < 2 ^ 63 := c.maxLease.toInt_lt
  constructor
  · intro refusal hrefused hlease hbetween
    have hpos : 0 < leaseMS.toInt := by
      have := hbetween.1
      omega
    have hproduct := toInt_mul_millisecond hpos (by have := hbetween.2; omega)
    obtain hversion | hms | hbounds := refusesFor_handleSubscribe _ hrefused hlease
    · exact hversion rfl
    · have hle : leaseMS.toInt ≤ 0 := Int64.le_iff_toInt_le.mp hms
      omega
    · rw [hm, Int64.lt_iff_toInt_lt, Int64.lt_iff_toInt_lt, hproduct] at hbounds
      have hlow := hbetween.1
      have hhigh := hbetween.2
      omega
  · intro entry m' hgranted
    obtain ⟨hms, hbounds, huntil⟩ := handleSubscribe_eq_ok hgranted
    rw [hm] at hbounds
    have hpos : 0 < leaseMS.toInt := Int64.lt_iff_toInt_lt.mp (Int64.not_le.mp hms)
    have hlt : leaseMS.toInt * 1000000 < 2 ^ 63 := by
      by_contra hwraps
      exact h ⟨not_lt.mp hwraps, hbounds⟩
    have hproduct := toInt_mul_millisecond hpos hlt
    rw [hproduct] at huntil
    rw [Int64.lt_iff_toInt_lt, Int64.lt_iff_toInt_lt, hproduct] at hbounds
    exact ⟨⟨by omega, by omega⟩, huntil⟩

/-- A node with one resource that can be observed. -/
def plainSurroundings : Surroundings where
  now := 0
  newID := .error ""
  resolve _ := some
    { descriptor :=
        { id := ⟨1, "value"⟩, type := "mfh.variable", typeVersion := 1
          capabilities := [{ name := "subscribe", eventSchema := "event" }]
          schemas := [], limits := { maxPayloadBytes := 1 }, presentation := {} }
      observe := some (.ok none) }

def plainRequest : Envelope where
  phase := .request
  operation := .subscribe
  messageID := 1
  source := 2
  target := 1
  resource := ⟨1, "value"⟩
  capability := "subscribe"

theorem addInterest_of_checks (hc : c.Normal) (interest : Interest) (hid : interest.id ≠ 0)
    (hnode : validateNodeID interest.subscriber = .ok ())
    (hresource : validateResource os interest.resource = .ok ())
    (hcapability : validateCapability os interest.capability = .ok ())
    (hlink : ¬(interest.linkID = "" ∨ interest.authorizedUntil < interest.leaseUntil)) :
    ∃ added, Manager.addInterest os { config := c } interest = .ok added := by
  have hroom : ¬c.maxSubscriptions ≤ 0 := by
    have := hc.subscriptions
    omega
  unfold Manager.addInterest
  refine exists_bind (check_eq_ok.2 hid) (exists_bind (congrArg _ hnode) ?_)
  refine exists_bind (congrArg _ hresource) (exists_bind (congrArg _ hcapability) ?_)
  refine exists_bind (check_eq_ok.2 hlink) (exists_bind (check_eq_ok.2 ?_) ?_)
  · exact ExtTreeMap.contains_empty
  · exact exists_bind (check_eq_ok.2 hroom) ⟨_, rfl⟩

theorem subscribe_of_checks (hc : c.Normal) {value : Provided}
    {capability : Resource.CapabilityDescriptorV2} {snapshot : Option Observation}
    (hid : request.id ≠ 0) (hnode : validateNodeID request.subscriber = .ok ())
    (hresource : validateResource os request.resource = .ok ())
    (hcapability : validateCapability os request.capability = .ok ()) (hlink : request.linkID ≠ "")
    (hbounds : ¬(request.lease < c.minLease ∨ c.maxLease < request.lease))
    (hqueue : request.queue = 0) (hauthorized : request.authorizedUntil = none)
    (hvalue : env.resolve request.resource = some value)
    (hfound : value.descriptor.capability request.capability = some capability)
    (hschema : capability.eventSchema ≠ "") (hobserve : value.observe = some (.ok snapshot)) :
    ∃ granted, Manager.subscribe os { config := c } env request = .ok granted := by
  have hdefault : ¬(c.defaultQueue < 1 ∨ c.maxQueue < c.defaultQueue) := by
    have := hc.queue
    omega
  have hroom : ¬c.maxSubscriptions ≤ 0 := by
    have := hc.subscriptions
    omega
  have hprepare : Manager.prepare os { config := c } env request = .ok ⟨request.id, c.defaultQueue,
      env.now + request.lease.toInt, env.now + request.lease.toInt, snapshot⟩ := by
    unfold Manager.prepare
    refine bind_eq_ok.2 ⟨_, if_neg hid, bind_eq_ok.2 ⟨_, congrArg _ hnode, ?_⟩⟩
    refine bind_eq_ok.2 ⟨_, congrArg _ hresource, bind_eq_ok.2 ⟨_, congrArg _ hcapability, ?_⟩⟩
    refine bind_eq_ok.2 ⟨_, check_eq_ok.2 hlink, bind_eq_ok.2 ⟨_, check_eq_ok.2 hbounds, ?_⟩⟩
    rw [hqueue, if_pos rfl, hauthorized]
    refine bind_eq_ok.2 ⟨_, check_eq_ok.2 hdefault, bind_eq_ok.2 ⟨_, check_eq_ok.2 ?_, ?_⟩⟩
    · exact lt_irrefl _
    · rw [hvalue]
      dsimp only
      rw [hfound]
      refine bind_eq_ok.2 ⟨_, check_eq_ok.2 hschema, ?_⟩
      rw [hobserve]
      rfl
  unfold Manager.subscribe
  refine exists_bind hprepare ?_
  obtain ⟨added, hadded⟩ := addInterest_of_checks hc
    (⟨request.id, request.subscriber, request.resource, request.capability, request.linkID,
      request.nextHop, env.now + request.lease.toInt, env.now + request.lease.toInt,
      request.topologyEpoch, request.policyGeneration⟩ : Interest)
    hid hnode hresource hcapability (not_or.mpr ⟨hlink, lt_irrefl _⟩)
  refine exists_bind hadded (exists_bind (check_eq_ok.2 rfl) ?_)
  exact exists_bind (check_eq_ok.2 ExtTreeMap.contains_empty)
    (exists_bind (check_eq_ok.2 hroom) ⟨_, rfl⟩)

theorem exists_granted (hc : c.Normal) (hpos : ¬leaseMS ≤ 0)
    (hbounds : ¬(leaseMS * millisecond < c.minLease ∨ c.maxLease < leaseMS * millisecond)) :
    ∃ granted, handleSubscribe Auth.plainText { config := c } plainSurroundings ⟨1, 1, 1⟩ none
      plainRequest 2 leaseMS 0 = .ok granted := by
  have hresource : validateResource Auth.plainText plainRequest.resource = .ok () := by
    decide +kernel
  have hcapability : validateCapability Auth.plainText plainRequest.capability = .ok () := by
    decide +kernel
  have hid : plainRequest.messageID ≠ 0 := by decide
  have hlocal : "local" ≠ "" := by decide
  have hschema : "event" ≠ "" := by decide
  have hgranted : ∃ granted, Manager.subscribe Auth.plainText { config := c } plainSurroundings
      (subscribeRequest ⟨1, 1, 1⟩ none plainRequest leaseMS 0) = .ok granted :=
    subscribe_of_checks hc hid rfl hresource hcapability hlocal hbounds rfl rfl rfl rfl hschema rfl
  exact exists_bind (check_eq_ok.2 (not_or.mpr ⟨fun h => h rfl, hpos⟩)) hgranted

/-- **Leases are taken at face value exactly where the product does not wrap into the bounds.** -/
theorem lease_face_value_iff (config c : Config) (h : config.normalized = .ok c) (leaseMS : Int64) :
    FaceValue c leaseMS ↔ ¬WrapsInto c leaseMS := by
  have hc := normalized_eq_ok h
  refine ⟨fun hface hwraps => ?_, faceValue_of_not_wrapsInto hc⟩
  have hpos : ¬leaseMS ≤ 0 := by
    intro hle
    have hle : leaseMS.toInt ≤ 0 := Int64.le_iff_toInt_le.mp hle
    have := hwraps.1
    omega
  obtain ⟨⟨entry, m'⟩, hgranted⟩ := exists_granted hc hpos hwraps.2
  have hbetween := ((hface _ _ _ _ _ _ _ rfl).2 entry m' hgranted).1
  have hmax : c.maxLease.toInt < 2 ^ 63 := c.maxLease.toInt_lt
  have hwrap := hwraps.1
  have hhigh := hbetween.2
  omega

theorem normalized_default : ({} : Config).normalized = .ok ({} : Config).withDefaults :=
  if_neg (by decide)

theorem lease_face_value_minute :
    ({} : Config).normalized = .ok ({} : Config).withDefaults ∧
      FaceValue ({} : Config).withDefaults 60000 := by
  refine ⟨normalized_default, (lease_face_value_iff {} _ normalized_default 60000).mpr ?_⟩
  intro hwraps
  exact absurd hwraps.1 (by decide)

/-- With the default bounds, a request for 18446744074710 milliseconds is granted, for little more
than a second. -/
theorem lease_of_centuries :
    ({} : Config).normalized = .ok ({} : Config).withDefaults ∧
    ¬Between ({} : Config).withDefaults 18446744074710 ∧
    (handleSubscribe Auth.plainText { config := ({} : Config).withDefaults } plainSurroundings
      ⟨1, 1, 1⟩ none plainRequest 2 18446744074710 0).toOption.map (·.1.leaseUntil) =
        some 1000448384 := by
  refine ⟨normalized_default, fun hbetween => ?_, by decide +kernel⟩
  exact absurd hbetween.2 (by decide)

end Subscription
