/-
What a node does with an envelope that has arrived at its target
(`runtime/node/operations.go`, `runtime/node/sessions.go`).

`handleLocal` reads the policy, the tables of resource sessions and subscriptions and the
clock under different locks, so a handler is a chain of parts with other goroutines in
between, as `routeEnvelope` is in `Routing`.  `Handling` says which part is next and
`Node.handle` is that part.  What a handler is told by the resource provider, by the
subscription manager and by the clock comes with the step, as `HandlerInput`.

`Estate` puts the handlers on top of the nodes of `Adjudication` and keeps one log of
everything that matters to the owner of a resource.
-/
import MyFlowHub.Adjudication
import MyFlowHub.Delivery

open Std Function Tables Auth TreeState Runs

namespace Routing

/-! ### Data -/

/-- `phaseAllows`; the codec refuses every other envelope. -/
def phaseAllows (phase : Phase) : Operation → Bool
  | .join => phase = .request
  | .joinAck | .subscribeAck | .operateResult | .sessionOpenResult | .error => phase = .response
  | .routeAnnounce | .routeWithdraw | .resourceGap | .heartbeat => phase = .event
  | .resourceEvent => phase = .response ∨ phase = .event
  | .sessionData | .sessionClose => phase = .request ∨ phase = .control ∨ phase = .response
  | .subscribe | .unsubscribe | .operate | .sessionOpen => phase = .request ∨ phase = .control

/-- `ownedResourceSession`; times are milliseconds. -/
structure OwnedSession where
  id : MessageID
  subject : NodeID
  resource : ResourceID
  capability : CapabilityID
  linkID : String
  topologyEpoch : UInt64
  policyGeneration : UInt64
  expiresAt : ℤ
  deriving DecidableEq

/-- The request of an entry of the subscription manager. -/
structure OwnedSubscription where
  id : MessageID
  subscriber : NodeID
  resource : ResourceID
  capability : CapabilityID
  linkID : String
  nextHop : NodeID
  topologyEpoch : UInt64
  policyGeneration : UInt64
  policyIndependent : Bool
  deriving DecidableEq

structure Ledger where
  pending : List MessageID := []
  sessions : ExtTreeMap MessageID OwnedSession compare := ∅
  subscriptions : ExtTreeMap MessageID OwnedSubscription compare := ∅
  maxResourceSessions : ℕ := 256

/-- Why a request may be served: nobody had to be asked, or the policy granted it. -/
inductive Basis where
  | unasked
  | granted (policy : Policy) (request : Request)

structure SubscribePayload where
  version : ℤ
  leaseMS : ℤ
  queue : ℤ

structure SessionDataV2 where
  offset : ℤ
  checksum : String
  data : List UInt8

structure SessionCloseV2 where
  commit : Bool
  schema : String
  payload : List UInt8

/-- `resource.SessionGrant`. -/
structure SessionGrant where
  maxChunkBytes : ℤ
  maxTotalBytes : ℤ
  expiresAtUnixMS : ℤ

/-- `resourceEventPayload`. -/
structure ResourceEventPayload where
  version : ℤ := 2
  snapshot : Bool
  revision : UInt64
  sequence : UInt64
  publisher : NodeID
  publisherSequence : UInt64
  gapFrom : UInt64
  gapTo : UInt64
  reason : String
  schema : String
  value : List UInt8

structure Wire where
  decodeSubscribe : List UInt8 → Except String SubscribePayload
  decodeSessionData : List UInt8 → Except String SessionDataV2
  decodeSessionClose : List UInt8 → Except String SessionCloseV2
  encodeGrant : MessageID → CapabilityID → SessionGrant → Except String (List UInt8)
  encodeEvent : ResourceEventPayload → Except String (List UInt8)

/-- The errors of `Manager.Subscribe` that the handler tells apart. -/
inductive SubscribeError where
  | notFound | notSubscribable | limit | tooLarge | other

def SubscribeError.code : SubscribeError → ErrorCode
  | .notFound => .notFound
  | .notSubscribable => .unsupported
  | .limit | .tooLarge => .overflow
  | .other => .conflict

/-- The errors of `Registry.OpenSession` that the handler tells apart. -/
inductive OpenError where
  | notFound | unsupportedCapability | invalidSchema | valueTooLarge | other

def OpenError.code : OpenError → ErrorCode
  | .notFound => .notFound
  | .unsupportedCapability => .unsupported
  | .invalidSchema | .valueTooLarge => .malformed
  | .other => .conflict

/-- `resource.OperationResult`. -/
structure OperationResult where
  schema : String
  payload : List UInt8

/-- What the dispatcher makes of a call that was let in: a duplicate or a full dispatcher is
refused, and otherwise the operation runs. -/
inductive Dispatch where
  | refused (failure : ErrorPayload)
  | runs (result : Except ErrorPayload OperationResult)

structure HandlerInput where
  /-- `time.Now`. -/
  now : ℤ := 0
  /-- `NewMessageID`. -/
  id : Option MessageID := none
  subscribed : Except (SubscribeError × String) Unit := .ok ()
  opened : Except (OpenError × String) SessionGrant := .error (.notFound, "")
  dispatch : Dispatch := .refused ⟨.conflict, "", false, []⟩
  /-- The answer of `Write` or `Close`. -/
  result : Except String OperationResult := .error ""
  /-- The next event of the subscription; `none` when its channel was closed. -/
  event : Option Delivery.Event := none

inductive OwnerCall where
  | operate
  | subscribe
  | openSession
  | writeSession (id : MessageID)
  | closeSession (id : MessageID)
  deriving DecidableEq

inductive Handling where
  /-- `handleLocal`. -/
  | dispatch (inbound : Option PeerSession) (e : Envelope)
  /-- `authorizeLocal`, or the authorizer of the dispatcher. -/
  | authorize (inbound : Option PeerSession) (e : Envelope)
  | subscribe (inbound : Option PeerSession) (e : Envelope) (basis : Basis)
  /-- The two parts of `UnsubscribeFor`. -/
  | unsubscribe (inbound : Option PeerSession) (e : Envelope) (basis : Basis)
  | release (inbound : Option PeerSession) (e : Envelope) (basis : Basis)
      (checked : OwnedSubscription)
  | openSession (inbound : Option PeerSession) (e : Envelope) (basis : Basis)
  | admitSession (inbound : Option PeerSession) (e : Envelope) (grant : SessionGrant)
      (id : MessageID)
  /-- `validateResourceSession` after the authorization: the table, then the clock. -/
  | findSession (inbound : Option PeerSession) (e : Envelope) (basis : Basis)
  | checkSession (inbound : Option PeerSession) (e : Envelope) (basis : Basis)
      (owned : OwnedSession)
  | useSession (inbound : Option PeerSession) (e : Envelope) (basis : Basis) (owned : OwnedSession)
  | closeSession (inbound : Option PeerSession) (e : Envelope) (basis : Basis)
      (owned : OwnedSession)
  /-- `Dispatcher.Invoke` after the authorizer. -/
  | invoke (inbound : Option PeerSession) (e : Envelope) (basis : Basis)
  /-- The loop of `forwardSubscription`: the next event, the check, the envelope. -/
  | forwarding (request : Envelope)
  | recheck (request : Envelope) (event : Delivery.Event)
  | produce (request : Envelope) (event : Delivery.Event)

/-- What happened, for the statements about runs. -/
inductive Record where
  /-- A client call made the envelope. -/
  | created (n : NodeID) (e : Envelope)
  /-- The policy of the node was replaced. -/
  | committed (n : NodeID) (policy : Policy)
  /-- The envelope passed the inbound check, with this edge to the parent. -/
  | accepted (n : NodeID) (s : PeerSession) (parent : Option Edge) (e : Envelope)
  | handling (n : NodeID) (inbound : Option PeerSession) (e : Envelope)
  | authorized (n : NodeID) (e : Envelope) (basis : Basis)
  /-- A request that turns downward was granted. -/
  | adjudicated (n : NodeID) (e : Envelope) (policy : Policy) (request : Request)
  /-- An event from one child to another matched this interest. -/
  | vetted (n : NodeID) (e : Envelope) (interest : ForwardedSubscription) (policy : Policy)
  | sent (n next : NodeID) (inbound : Option PeerSession) (e : Envelope)
  | called (n : NodeID) (inbound : Option PeerSession) (e : Envelope) (basis : Basis)
      (call : OwnerCall)
  /-- An unsubscribe request took this entry out of the table. -/
  | removed (n : NodeID) (e : Envelope) (entry : OwnedSubscription)
  /-- `forwardSubscription` took an event, and made an envelope of it. -/
  | taken (n : NodeID) (request : Envelope) (event : Delivery.Event)
  | produced (n : NodeID) (request : Envelope) (e : Envelope)

structure HandlerResult where
  ledger : Ledger
  next : Option Handling := none
  records : List Record := []
  /-- The envelope it routes. -/
  send : Option Envelope := none

/-! ### The handlers -/

namespace Node

variable (os : Platform) (wire : Wire) (n : Node)

/-- `authorizeLocal`, with what it found. -/
def localBasis (e : Envelope) : Except String Basis :=
  if e.phase = .control ∨ e.subject = n.id then .ok .unasked
  else
    match authorizeRequest os n.policy e with
    | .error err => .error err
    | .ok request => .ok (.granted n.policy request)

/-- The origin of a call and the authorizer of the dispatcher. -/
def callBasis (e : Envelope) : Except String Basis :=
  if e.phase = .control ∨ e.subject = n.id then .ok .unasked
  else
    let request : Request := ⟨e.subject, e.capability, e.capability, e.resource⟩
    match n.policy.authorize request with
    | some err => .error err
    | none => .ok (.granted n.policy request)

/-- `newEnvelope`, as the handlers use it. -/
def newEnvelope (phase : Phase) (operation : Operation) (request : Envelope)
    (contentType schema : String) (payload : List UInt8) (id : Option MessageID) :
    Option Envelope :=
  id.map fun id =>
    { phase := phase
      operation := operation
      messageID := id
      correlationID := request.messageID
      source := n.id
      target := request.source
      resource := request.resource
      capability := request.capability
      contentType := contentType
      schema := schema
      payload := payload }

/-- A handler that ends with `sendError`. -/
def refuse (l : Ledger) (input : HandlerInput) (request : Envelope) (code : ErrorCode)
    (message : String) : HandlerResult :=
  { ledger := l, send := n.failureResponse os request ⟨code, message, false, []⟩ input.id }

/-- A handler that ends with `sendFailure`. -/
def refuseWith (l : Ledger) (input : HandlerInput) (request : Envelope) (failure : ErrorPayload) :
    HandlerResult :=
  { ledger := l, send := n.failureResponse os request failure input.id }

/-- `deliverPending`. -/
def deliverPending (l : Ledger) (e : Envelope) : Bool :=
  e.correlationID ≠ 0 ∧ e.correlationID ∈ l.pending

def linkIDOf (inbound : Option PeerSession) : String := inbound.elim "local" PeerSession.linkID

def handleLocal (l : Ledger) (input : HandlerInput) (inbound : Option PeerSession) (e : Envelope) :
    HandlerResult :=
  if (e.phase = .response ∨ e.phase = .event) ∧ deliverPending l e then { ledger := l }
  else
    match e.operation with
    | .unsubscribe =>
      if e.correlationID = 0 then
        n.refuse os l input e .malformed "unsubscribe requires the subscription correlation ID"
      else { ledger := l, next := some (.authorize inbound e) }
    | .operate =>
      if e.deadlineUnixMS = 0 then
        n.refuse os l input e .malformed "resource operation deadline is required"
      else { ledger := l, next := some (.authorize inbound e) }
    | .subscribe | .sessionOpen | .sessionData | .sessionClose =>
      { ledger := l, next := some (.authorize inbound e) }
    | _ => { ledger := l }

def served (inbound : Option PeerSession) (e : Envelope) (basis : Basis) : Handling :=
  match e.operation with
  | .operate => .invoke inbound e basis
  | .subscribe => .subscribe inbound e basis
  | .unsubscribe => .unsubscribe inbound e basis
  | .sessionOpen => .openSession inbound e basis
  | _ => .findSession inbound e basis

def authorize (l : Ledger) (input : HandlerInput) (inbound : Option PeerSession) (e : Envelope) :
    HandlerResult :=
  if e.operation = .operate ∧ e.deadlineUnixMS.toInt ≤ input.now then
    n.refuseWith os l input e ⟨.timeout, "command deadline has expired", true, []⟩
  else
    match if e.operation = .operate then n.callBasis e else n.localBasis os e with
    | .error err =>
      let code := if e.operation = .sessionData ∨ e.operation = .sessionClose then .expired
        else .forbidden
      n.refuse os l input e code err
    | .ok basis =>
      { ledger := l, next := some (served inbound e basis), records := [.authorized n.id e basis] }

/-- `handleSubscribe` after `authorizeLocal`. -/
def handleSubscribe (l : Ledger) (input : HandlerInput) (inbound : Option PeerSession)
    (e : Envelope) (basis : Basis) : HandlerResult :=
  match wire.decodeSubscribe e.payload with
  | .error err => n.refuse os l input e .malformed err
  | .ok payload =>
    if payload.version ≠ 2 ∨ payload.leaseMS ≤ 0 then
      n.refuse os l input e .malformed "subscription version or lease is invalid"
    else
      let call : List Record := [.called n.id inbound e basis .subscribe]
      match input.subscribed with
      | .error (err, text) => { n.refuse os l input e err.code text with records := call }
      | .ok _ =>
        if l.subscriptions.contains e.messageID then
          { n.refuse os l input e .conflict "subscription ID already exists" with records := call }
        else
          let entry : OwnedSubscription :=
            { id := e.messageID
              subscriber := e.subject
              resource := e.resource
              capability := e.capability
              linkID := linkIDOf inbound
              nextHop := inbound.elim n.id PeerSession.peer
              topologyEpoch := inbound.elim n.tree.epoch PeerSession.epoch
              policyGeneration := n.policy.generation
              policyIndependent := e.phase = .control ∨ e.subject = n.id }
          { ledger := { l with subscriptions := l.subscriptions.insert e.messageID entry }
            next := some (.forwarding e)
            records := call
            send := n.newEnvelope .response .subscribeAck e "application/json"
              "mfh.subscribe-ack.v2" [0x7b, 0x7d] input.id }

/-- `UnsubscribeFor` up to its check of the caller. -/
def handleUnsubscribe (l : Ledger) (input : HandlerInput) (inbound : Option PeerSession)
    (e : Envelope) (basis : Basis) : HandlerResult :=
  match l.subscriptions[e.correlationID]? with
  | none => n.refuse os l input e .notFound "subscription not found for caller"
  | some current =>
    if current.subscriber ≠ e.subject then
      n.refuse os l input e .notFound "subscription not found for caller"
    else { ledger := l, next := some (.release inbound e basis current) }

/-- `Manager.remove`: it takes out whatever the table holds now. -/
def release (l : Ledger) (input : HandlerInput) (e : Envelope) : HandlerResult :=
  match l.subscriptions[e.correlationID]? with
  | none => n.refuse os l input e .notFound "subscription not found for caller"
  | some current =>
    { ledger := { l with subscriptions := l.subscriptions.erase e.correlationID }
      records := [.removed n.id e current]
      send := n.newEnvelope .response .subscribeAck e "application/json" "mfh.unsubscribe-ack.v2"
        [0x7b, 0x7d] input.id }

/-- `protocol.MaxSessionChunkBytes`. -/
def maxSessionChunkBytes : ℤ := 262144

/-- `handleSessionOpen` from the call of the provider to the new session's identifier. -/
def openSession (l : Ledger) (input : HandlerInput) (inbound : Option PeerSession) (e : Envelope)
    (basis : Basis) : HandlerResult :=
  let call : List Record := [.called n.id inbound e basis .openSession]
  match input.opened with
  | .error (err, text) => { n.refuse os l input e err.code text with records := call }
  | .ok grant =>
    if grant.maxChunkBytes ≤ 0 ∨ grant.maxChunkBytes > maxSessionChunkBytes ∨
        grant.maxTotalBytes < 0 ∨ grant.expiresAtUnixMS ≤ input.now then
      { n.refuse os l input e .internal "resource returned an invalid session grant" with
        records := call }
    else
      { ledger := l
        next := input.id.map (.admitSession inbound e grant)
        records := call }

def admitSession (l : Ledger) (input : HandlerInput) (inbound : Option PeerSession) (e : Envelope)
    (grant : SessionGrant) (id : MessageID) : HandlerResult :=
  if n.closed ∨ l.sessions.size ≥ l.maxResourceSessions then
    n.refuse os l input e .overflow "resource session limit reached"
  else
    let owned : OwnedSession :=
      { id := id
        subject := e.subject
        resource := e.resource
        capability := e.capability
        linkID := linkIDOf inbound
        topologyEpoch := inbound.elim n.tree.epoch PeerSession.epoch
        policyGeneration := n.policy.generation
        expiresAt := grant.expiresAtUnixMS }
    { ledger := { l with sessions := l.sessions.insert id owned }
      -- a session whose grant cannot be sent is taken out by `dropSession`
      send :=
        match wire.encodeGrant id e.capability grant with
        | .error _ => none
        | .ok payload =>
          n.newEnvelope .response .sessionOpenResult e "application/json" "mfh.session.grant.v2"
            payload input.id }

/-- `validateResourceSession`: the session of the correlation identifier and its binding. -/
def findSession (l : Ledger) (input : HandlerInput) (inbound : Option PeerSession) (e : Envelope)
    (basis : Basis) : HandlerResult :=
  match l.sessions[e.correlationID]? with
  | none => n.refuse os l input e .expired "resource session not found"
  | some owned =>
    if owned.subject ≠ e.subject ∨ owned.resource ≠ e.resource ∨ owned.capability ≠ e.capability ∨
        owned.linkID ≠ linkIDOf inbound then
      n.refuse os l input e .expired "resource session binding does not match request"
    else { ledger := l, next := some (.checkSession inbound e basis owned) }

/-- `validateResourceSession`: the clock and the generation. -/
def checkSession (l : Ledger) (input : HandlerInput) (inbound : Option PeerSession) (e : Envelope)
    (basis : Basis) (owned : OwnedSession) : HandlerResult :=
  if owned.expiresAt ≤ input.now ∨ owned.policyGeneration ≠ n.policy.generation then
    n.refuse os { l with sessions := l.sessions.erase owned.id } input e .expired
      "resource session authorization expired"
  else { ledger := l, next := some (.useSession inbound e basis owned) }

def sessionAnswer (l : Ledger) (input : HandlerInput) (e : Envelope) (records : List Record) :
    HandlerResult :=
  match input.result with
  | .error err => { n.refuse os l input e .conflict err with records := records }
  | .ok result =>
    { ledger := l
      records := records
      send := n.newEnvelope .response e.operation e "application/octet-stream" result.schema
        result.payload input.id }

/-- `handleSessionData` and `handleSessionClose` after `validateResourceSession`. -/
def useSession (l : Ledger) (input : HandlerInput) (inbound : Option PeerSession) (e : Envelope)
    (basis : Basis) (owned : OwnedSession) : HandlerResult :=
  if e.operation = .sessionData then
    match wire.decodeSessionData e.payload with
    | .error err => n.refuse os l input e .malformed err
    | .ok _ =>
      n.sessionAnswer os l input e [.called n.id inbound e basis (.writeSession owned.id)]
  else
    match wire.decodeSessionClose e.payload with
    | .error err => n.refuse os l input e .malformed err
    | .ok _ =>
      { ledger := { l with sessions := l.sessions.erase owned.id }
        next := some (.closeSession inbound e basis owned) }

/-- `handleOperate` with `Dispatcher.Invoke` after the authorizer. -/
def invoke (l : Ledger) (input : HandlerInput) (inbound : Option PeerSession) (e : Envelope)
    (basis : Basis) : HandlerResult :=
  match input.dispatch with
  | .refused failure => n.refuseWith os l input e failure
  | .runs (.error failure) =>
    { n.refuseWith os l input e failure with records := [.called n.id inbound e basis .operate] }
  | .runs (.ok result) =>
    { ledger := l
      records := [.called n.id inbound e basis .operate]
      send := n.newEnvelope .response .operateResult e e.contentType result.schema result.payload
        input.id }

/-- `current.Cancel()` in `forwardSubscription`. -/
def cancelled (l : Ledger) (request : Envelope) : Ledger :=
  { l with subscriptions := l.subscriptions.erase request.messageID }

/-- The check of `forwardSubscription` before each event. -/
def recheck (l : Ledger) (input : HandlerInput) (request : Envelope) (event : Delivery.Event) :
    HandlerResult :=
  match n.localBasis os request with
  | .error _ =>
    n.refuse os (cancelled l request) input request .expired "subscription permission revoked"
  | .ok basis =>
    { ledger := l
      next := some (.produce request event)
      records := [.authorized n.id request basis] }

def eventPayload (event : Delivery.Event) : ResourceEventPayload where
  snapshot := event.kind = .snapshot
  revision := event.revision
  sequence := event.sequence
  publisher := event.publisher
  publisherSequence := event.publisherSequence
  gapFrom := event.gapFrom
  gapTo := event.gapTo
  reason := event.reason
  schema := event.schema
  value := event.value

/-- The failure a provider gave, or the one that says that it gave none. -/
def providerFailure (event : Delivery.Event) : ErrorPayload :=
  match event.failure with
  | none => ⟨.internal, "subscription provider returned an invalid failure", false, []⟩
  | some failure =>
    if failure.message = "" then
      ⟨.internal, "subscription provider returned an invalid failure", false, []⟩
    else failure

/-- `forwardSubscription` after its check. -/
def produce (l : Ledger) (input : HandlerInput) (request : Envelope) (event : Delivery.Event) :
    HandlerResult :=
  match event.kind with
  | .failure => n.refuseWith os (cancelled l request) input request (providerFailure event)
  | .expired => n.refuse os l input request .expired event.reason
  | _ =>
    match wire.encodeEvent (eventPayload event) with
    | .error _ => { ledger := cancelled l request }
    | .ok payload =>
      let operation := if event.kind = .gap then .resourceGap else .resourceEvent
      match n.newEnvelope .event operation request "application/json"
        "mfh.resource-event.v2" payload
        input.id with
      | none => { ledger := cancelled l request }
      | some e =>
        { ledger := l
          next := some (.forwarding request)
          records := [.produced n.id request e]
          send := some e }

def handle (l : Ledger) (input : HandlerInput) : Handling → HandlerResult
  | .dispatch inbound e => n.handleLocal os l input inbound e
  | .authorize inbound e => n.authorize os l input inbound e
  | .subscribe inbound e basis => n.handleSubscribe os wire l input inbound e basis
  | .unsubscribe inbound e basis => n.handleUnsubscribe os l input inbound e basis
  | .release _ e _ _ => n.release os l input e
  | .openSession inbound e basis => n.openSession os l input inbound e basis
  | .admitSession inbound e grant id => n.admitSession os wire l input inbound e grant id
  | .findSession inbound e basis => n.findSession os l input inbound e basis
  | .checkSession inbound e basis owned => n.checkSession os l input inbound e basis owned
  | .useSession inbound e basis owned => n.useSession os wire l input inbound e basis owned
  | .closeSession inbound e basis owned =>
    n.sessionAnswer os l input e [.called n.id inbound e basis (.closeSession owned.id)]
  | .invoke inbound e basis => n.invoke os l input inbound e basis
  | .forwarding request =>
    match input.event with
    | none => { ledger := l }
    | some event =>
      { ledger := l, next := some (.recheck request event), records := [.taken n.id request event] }
  | .recheck request event => n.recheck os l input request event
  | .produce request event => n.produce os wire l input request event

end Node

/-! ### The system -/

/-- Nodes with what they own and the handlers under way. -/
structure Estate where
  hub : Hub
  ledger : NodeID → Ledger
  handling : NodeID → List Handling
  log : List Record

inductive EstateAct where
  /-- A step of the nodes; local handlers start with the lookup that finds the target. -/
  | onHub (a : Act)
  /-- The next part of a handler. -/
  | handle (n : NodeID) (i : ℕ) (input : HandlerInput)
  /-- `registerPending` and `unregisterPending`. -/
  | expect (n : NodeID) (id : MessageID)
  | unexpect (n : NodeID) (id : MessageID)
  /-- Timers and cleanups take out sessions and subscriptions. -/
  | dropSession (n : NodeID) (id : MessageID)
  | dropSubscription (n : NodeID) (id : MessageID)

namespace Estate

variable (os : Platform) (wire : Wire)

def start (policies : NodeID → Policy) (limits : NodeID → ℕ) : Estate where
  hub := Hub.start policies limits
  ledger _ := {}
  handling _ := []
  log := []

/-- The envelopes there are: clients make requests, links exchange their own frames, and
the codec lets only valid envelopes in. -/
def admissible : Act → Bool
  | .create _ e => e.phase = .request ∧
      (e.operation = .subscribe ∨ e.operation = .unsubscribe ∨ e.operation = .operate ∨
        e.operation = .sessionOpen ∨ e.operation = .sessionData ∨ e.operation = .sessionClose)
  | .emit n next e => next ≠ n ∧ e.target = next ∧
      (e.operation = .join ∨ e.operation = .joinAck ∨ e.operation = .heartbeat ∨
        e.operation = .routeAnnounce ∨ e.operation = .routeWithdraw)
  | .receive _ _ e => phaseAllows e.phase e.operation
  | _ => true

/-- The interest that lets an event pass from one child to another. -/
def vetting (node : Node) (inbound : Option PeerSession) (route : Route) (e : Envelope) :
    Option ForwardedSubscription :=
  if inbound.any (·.role = .child) ∧ route.kind = .down ∧
      (e.operation = .resourceEvent ∨ e.operation = .resourceGap) ∧ node.interested e = true then
    node.forwarded[e.correlationID]?
  else none

/-- What a stage of `routeEnvelope` adds to the log. -/
def workNotes (n : NodeID) (node : Node) (result : SendResult) : Task → List Record
  | .lookup inbound e =>
    match (node.lookup inbound e).2 with
    | .handle => [.handling n inbound e]
    | _ => []
  | .forward inbound route e =>
    (vetting node inbound route e).toList.map fun interest => .vetted n e interest node.policy
  | .adjudicate _ _ e =>
    match authorizeRequest os node.policy e with
    | .error _ => []
    | .ok request => [.adjudicated n e node.policy request]
  | .track .. => []
  | .transmit inbound route e trackedSubscribe untrackAfterSend =>
    if (node.transmit inbound route e trackedSubscribe untrackAfterSend result).1 then
      [.sent n route.nextHop inbound e]
    else []

def notes (h : Hub) : Act → List Record
  | .create n e => [.created n e]
  | .setPolicy n policy => [.committed n policy]
  | .emit n next e => [.sent n next none e]
  | .receive n s e =>
    match Hub.inboundError (h.node n).tree s e with
    | some _ => []
    | none => [.accepted n s (h.node n).tree.parent e]
  | .work n i result _ =>
    match (h.tasks n)[i]? with
    | none => []
    | some task => workNotes os n (h.node n) result task
  | _ => []

def arrivals (h : Hub) : Act → List Handling
  | .work n i _ _ =>
    match (h.tasks n)[i]? with
    | some (.lookup inbound e) =>
      match ((h.node n).lookup inbound e).2 with
      | .handle => [.dispatch inbound e]
      | _ => []
    | _ => []
  | _ => []

def hubStep (m : Estate) (a : Act) : Estate :=
  if a.node = 0 ∨ admissible a = false then m
  else
    match m.hub.step? os a with
    | none => m
    | some hub =>
      { m with
        hub := hub
        handling := update m.handling a.node (m.handling a.node ++ arrivals m.hub a)
        log := m.log ++ notes os m.hub a }

def handleStep (m : Estate) (n : NodeID) (i : ℕ) (input : HandlerInput) : Estate :=
  match (m.handling n)[i]? with
  | none => m
  | some task =>
    let r := (m.hub.node n).handle os wire (m.ledger n) input task
    { hub :=
        match r.send with
        | none => m.hub
        | some e => m.hub.step os (.create n e)
      ledger := update m.ledger n r.ledger
      handling := update m.handling n ((m.handling n).eraseIdx i ++ r.next.toList)
      log := m.log ++ r.records }

def step (m : Estate) : EstateAct → Estate
  | .onHub a => m.hubStep os a
  | .handle n i input => if n = 0 then m else m.handleStep os wire n i input
  | .expect n id =>
    { m with ledger := update m.ledger n { m.ledger n with pending := id :: (m.ledger n).pending } }
  | .unexpect n id =>
    { m with
      ledger := update m.ledger n { m.ledger n with pending := (m.ledger n).pending.erase id } }
  | .dropSession n id =>
    { m with
      ledger := update m.ledger n { m.ledger n with sessions := (m.ledger n).sessions.erase id } }
  | .dropSubscription n id =>
    { m with
      ledger := update m.ledger n
        { m.ledger n with subscriptions := (m.ledger n).subscriptions.erase id } }

end Estate

end Routing
