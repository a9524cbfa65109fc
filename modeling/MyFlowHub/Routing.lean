/-
How a node routes an envelope (`runtime/node/routing.go`,
`runtime/node/forwarded_subscription.go`).

`routeEnvelope` reads the tree, the policy, the table of forwarded subscriptions and
the session table under different locks, and other goroutines run in between.  It is
therefore a chain of stages, each of them one step of the node:

* `lookup` — `RouteTo` and the loop check;
* `forward` — the interest check for events, then the split by direction and phase;
* `adjudicate` — `AuthorizeRequest` for a request of somebody else;
* `track` — `trackForwardedSubscription`, for a subscribe request;
* `transmit` — the session of the next hop and its `Send`.

A stage ends the call, hands over to the next stage, or answers the request with
`sendError`, which is another `routeEnvelope` call of the same goroutine.
-/
import MyFlowHub.Envelope

open Std Tables Auth

namespace Routing

/-- `link.Role` of an activated session. -/
inductive Role where
  | parent | child
  deriving DecidableEq, Repr

/-- `peerSession`. -/
structure PeerSession where
  peer : NodeID
  role : Role
  epoch : UInt64
  deriving DecidableEq, Repr

/-- The `linkID` that `ConnectParent` and `acceptChild` give a session. -/
def PeerSession.linkID (s : PeerSession) : String :=
  match s.role with
  | .parent => s!"parent:{s.peer}:{s.epoch}"
  | .child => s!"child:{s.peer}:{s.epoch}"

/-- `forwardedSubscription`. -/
structure ForwardedSubscription where
  id : MessageID
  source : NodeID
  principal : NodeID
  target : NodeID
  resource : ResourceID
  capability : CapabilityID
  generation : UInt64
  sourceLink : String := ""
  targetLink : String := ""
  deriving DecidableEq

/-- The fields of `Node` that routing uses. -/
structure Node where
  id : NodeID
  tree : TreeState
  policy : Policy
  sessions : ExtTreeMap NodeID PeerSession compare := ∅
  forwarded : ExtTreeMap MessageID ForwardedSubscription compare := ∅
  maxPending : ℕ := 1024
  closed : Bool := false

/-- The stages of `routeEnvelope`.  `inbound` is the session the envelope came from,
`none` for the node's own envelopes. -/
inductive Task where
  | lookup (inbound : Option PeerSession) (e : Envelope)
  | forward (inbound : Option PeerSession) (route : Route) (e : Envelope)
  | adjudicate (inbound : Option PeerSession) (route : Route) (e : Envelope)
  | track (inbound : Option PeerSession) (route : Route) (e : Envelope)
  | transmit (inbound : Option PeerSession) (route : Route) (e : Envelope)
      (trackedSubscribe untrackAfterSend : Bool)

inductive Outcome where
  /-- the call goes on with the next stage -/
  | proceed (task : Task)
  /-- `sendError` about the request, then the call returns -/
  | respond (request : Envelope) (code : ErrorCode) (message : String)
  /-- `handleLocal` -/
  | handle
  /-- the call returns, with an error or without -/
  | stop (error : Option String)

/-- What the session of the next hop makes of `Send`. -/
inductive SendResult where
  | inactive
  | refused (err : String)
  | queued

namespace Node

variable (os : Platform) (n : Node)

/-- `untrackForwardedSubscription`. -/
def untrack (id : MessageID) (source target : NodeID) : Node :=
  match n.forwarded[id]? with
  | none => n
  | some current =>
    if current.source ≠ source ∨ current.target ≠ target then n
    else { n with forwarded := n.forwarded.erase id }

/-- An error response on its way ends the forwarded subscription it answers. -/
def untrackError (e : Envelope) : Node :=
  if e.phase = .response ∧ e.operation = .error then n.untrack e.correlationID e.target e.source
  else n

/-- `%v` of the error `RouteTo` returns. -/
def routeError : Except TreeError Route → String
  | .ok _ => "<nil>"
  | .error err => err.message

/-- `trackForwardedSubscription`. -/
def trackForwarded (request : Envelope) (generation : UInt64) : Except String Node :=
  if generation = 0 then .error "forwarded subscription policy generation is required"
  else
    match n.tree.routeTo request.source, n.tree.routeTo request.target with
    | .ok sourceRoute, .ok targetRoute =>
      if n.closed then .error "node is closed"
      else if n.forwarded.size ≥ n.maxPending then
        .error "forwarded subscription limit reached"
      else if n.forwarded.contains request.messageID then
        .error "forwarded subscription ID already exists"
      else
        .ok { n with
          forwarded := n.forwarded.insert request.messageID
            { id := request.messageID
              source := request.source
              principal := request.principal
              target := request.target
              resource := request.resource
              capability := request.capability
              generation := generation
              sourceLink := (n.sessions[sourceRoute.nextHop]?.map PeerSession.linkID).getD ""
              targetLink := (n.sessions[targetRoute.nextHop]?.map PeerSession.linkID).getD "" } }
    | source, target =>
      .error s!"track subscription routes: source={routeError source} target={routeError target}"

/-- `authorizeForwardedSubscription`; `none` is permission. -/
def authorizeForwarded (current : ForwardedSubscription) : Option String :=
  n.policy.authorize
    { subject := if current.principal = 0 then current.source else current.principal
      action := current.capability
      capability := current.capability
      resource := current.resource }

/-- Somebody above subscribed to the event and may still see it. -/
def interested (e : Envelope) : Bool :=
  match n.forwarded[e.correlationID]? with
  | none => false
  | some interest =>
    interest.source = e.target ∧ interest.target = e.source ∧ n.authorizeForwarded interest = none

/-! ### The stages -/

/-- The code of the answer to a request without a route. -/
def unroutableCode : TreeError → ErrorCode
  | .notReachable | .staleEpoch => .staleEpoch
  | _ => .notFound

/-- `routeEnvelope` up to the loop check. -/
def lookup (inbound : Option PeerSession) (e : Envelope) : Node × Outcome :=
  if e.target = n.id then (n, .handle)
  else
    -- before the route is known, so also for an error that is then dropped
    let n := n.untrackError e
    match n.tree.routeTo e.target with
    | .error err =>
      if e.phase = .request then (n, .respond e (unroutableCode err) err.message)
      else (n, .stop (some err.message))
    | .ok route =>
      if route.kind = .here then (n, .handle)
      else if inbound.any (route.nextHop = ·.peer) then (n, .stop (some "routing loop detected"))
      else (n, .proceed (.forward inbound route e))

/-- `PromoteControl`, then the session of the next hop. -/
def promote (inbound : Option PeerSession) (route : Route) (e : Envelope)
    (untrackAfterSend : Bool) : Outcome :=
  match promoteControl e route.epoch with
  | .error err => .stop (some err)
  | .ok e' => .proceed (.transmit inbound route e' false untrackAfterSend)

/-- The interest check, and the split by direction and phase. -/
def forward (inbound : Option PeerSession) (route : Route) (e : Envelope) : Outcome :=
  if inbound.any (·.role = .child) ∧ route.kind = .down ∧
      (e.operation = .resourceEvent ∨ e.operation = .resourceGap) ∧ n.interested e = false then
    .stop none
  else if route.kind = .down then
    match e.phase with
    | .request =>
      if e.subject ≠ n.id then .proceed (.adjudicate inbound route e)
      else promote inbound route e false
    | .control => promote inbound route e false
    | _ => .proceed (.transmit inbound route e false false)
  else if e.phase = .control then .stop (some "control frame cannot be routed toward parent")
  else .proceed (.transmit inbound route e false false)

/-- `AuthorizeRequest`; with the request the policy granted. -/
def adjudicate (inbound : Option PeerSession) (route : Route) (e : Envelope) :
    Option Request × Outcome :=
  match authorizeRequest os n.policy e with
  | .error err => (none, .respond e .forbidden err)
  | .ok granted =>
    if e.operation = .subscribe then (some granted, .proceed (.track inbound route e))
    else (some granted, promote inbound route e (e.operation = .unsubscribe))

/-- The subscribe branch.  When the promotion fails, `envelope` is the empty one. -/
def track (inbound : Option PeerSession) (route : Route) (e : Envelope) : Node × Outcome :=
  match n.trackForwarded e n.policy.generation with
  | .error err => (n, .respond e .overflow err)
  | .ok n' =>
    match promoteControl e route.epoch with
    | .error err => (n'.untrack 0 0 0, .stop (some err))
    | .ok e' => (n', .proceed (.transmit inbound route e' true false))

def untrackIf (flag : Bool) (id : MessageID) (source target : NodeID) : Node :=
  if flag then n.untrack id source target else n

/-- No envelope was queued: a remote caller is told. -/
def unsent (inbound : Option PeerSession) (e : Envelope) (trackedSubscribe : Bool) (err : String) :
    Node × Outcome :=
  (n.untrackIf trackedSubscribe e.messageID e.source e.target,
    if inbound.isSome ∧ (e.phase = .request ∨ e.phase = .control) then .respond e .staleEpoch err
    else .stop (some err))

/-- The session of the next hop; the flag says that the envelope was sent. -/
def transmit (inbound : Option PeerSession) (route : Route) (e : Envelope)
    (trackedSubscribe untrackAfterSend : Bool) (result : SendResult) : Bool × Node × Outcome :=
  match n.sessions[route.nextHop]?, result with
  | none, _ | some _, .inactive =>
    (false, n.unsent inbound e trackedSubscribe s!"next hop {route.nextHop} has no active session")
  | some _, .refused err => (false, n.unsent inbound e trackedSubscribe err)
  | some _, .queued =>
    (true, n.untrackIf untrackAfterSend e.correlationID e.source e.target, .stop none)

/-- The response of `sendFailure`; `id` is what `NewMessageID` returned. -/
def failureResponse (request : Envelope) (failure : ErrorPayload) (id : Option MessageID) :
    Option Envelope :=
  if failure.message = "" then none
  else id.map fun id =>
    { phase := .response
      operation := .error
      messageID := id
      correlationID := request.messageID
      source := n.id
      target := request.source
      contentType := "application/json"
      schema := "error.v1"
      payload := os.marshalError failure }

/-- The envelope of `cancelForwardedSubscription`. -/
def cancelEnvelope (current : ForwardedSubscription) (id : MessageID) : Envelope where
  phase := .control
  operation := .unsubscribe
  messageID := id
  correlationID := current.id
  source := n.id
  principal := if current.principal = 0 then current.source else current.principal
  target := current.target
  resource := current.resource
  capability := current.capability
  contentType := "application/json"
  schema := "unsubscribe.v1"
  payload := [0x7b, 0x7d]

/-- The session table after `registerSession`. -/
def register (current : PeerSession) : Node :=
  let replaced :=
    if current.role = .parent then
      keysWhere n.sessions fun s => s.role = .parent ∧ s.peer ≠ current.peer
    else []
  { n with sessions := (eraseAll n.sessions replaced).insert current.peer current }

/-! ### What the stages can do -/

section Specs

variable {os n} {inbound : Option PeerSession} {route : Route} {e : Envelope} {task : Task}

theorem untrack_id_tree (id : MessageID) (source target : NodeID) :
    (n.untrack id source target).id = n.id ∧ (n.untrack id source target).tree = n.tree := by
  unfold untrack
  split
  · exact ⟨rfl, rfl⟩
  · split_ifs
    · exact ⟨rfl, rfl⟩
    · exact ⟨rfl, rfl⟩

theorem untrackError_id_tree (e : Envelope) :
    (n.untrackError e).id = n.id ∧ (n.untrackError e).tree = n.tree := by
  unfold untrackError
  split_ifs
  · exact untrack_id_tree _ _ _
  · exact ⟨rfl, rfl⟩

theorem trackForwarded_id_tree {generation : UInt64} {n' : Node}
    (h : n.trackForwarded e generation = .ok n') : n'.id = n.id ∧ n'.tree = n.tree := by
  unfold trackForwarded at h
  by_cases hgeneration : generation = 0
  · rw [if_pos hgeneration] at h
    cases h
  rw [if_neg hgeneration] at h
  split at h
  · split_ifs at h
    cases h
    exact ⟨rfl, rfl⟩
  · cases h

theorem lookup_id_tree (inbound : Option PeerSession) (e : Envelope) :
    (n.lookup inbound e).1.id = n.id ∧ (n.lookup inbound e).1.tree = n.tree := by
  unfold lookup
  by_cases hlocal : e.target = n.id
  · rw [if_pos hlocal]
    exact ⟨rfl, rfl⟩
  rw [if_neg hlocal]
  have hkeep := untrackError_id_tree (n := n) e
  dsimp only
  split
  · split_ifs <;> exact hkeep
  · split_ifs <;> exact hkeep

theorem lookup_proceed (h : (n.lookup inbound e).2 = .proceed task) :
    ∃ route, task = .forward inbound route e := by
  unfold lookup at h
  by_cases hlocal : e.target = n.id
  · rw [if_pos hlocal] at h
    cases h
  rw [if_neg hlocal] at h
  dsimp only at h
  split at h
  · split_ifs at h
  · next route _ =>
    split_ifs at h
    cases h
    exact ⟨route, rfl⟩

theorem promote_proceed {untrackAfterSend : Bool}
    (h : promote inbound route e untrackAfterSend = .proceed task) :
    ∃ e', task = .transmit inbound route e' false untrackAfterSend ∧ e'.phase = .control ∧
      e'.Same e := by
  unfold promote at h
  split at h
  · cases h
  · next e' hpromote =>
    cases h
    exact ⟨e', rfl, promoteControl_eq_ok hpromote⟩

/-- An envelope leaves this stage for the adjudication, or for the session of the next
hop: as control only if it was control or a request of the node itself. -/
theorem forward_proceed (h : n.forward inbound route e = .proceed task) :
    (task = .adjudicate inbound route e ∧ e.phase = .request ∧ route.kind = .down) ∨
      ∃ e', task = .transmit inbound route e' false false ∧ e'.Same e ∧
        (e'.phase = .control → route.kind = .down ∧
          (e.phase = .control ∨ e.phase = .request ∧ e.subject = n.id)) := by
  unfold forward at h
  by_cases hdrop : inbound.any (·.role = .child) ∧ route.kind = .down ∧
      (e.operation = .resourceEvent ∨ e.operation = .resourceGap) ∧ n.interested e = false
  · rw [if_pos hdrop] at h
    cases h
  rw [if_neg hdrop] at h
  by_cases hdown : route.kind = .down
  · rw [if_pos hdown] at h
    cases hphase : e.phase with
    | request =>
      rw [hphase] at h
      dsimp only at h
      by_cases hsubject : e.subject ≠ n.id
      · rw [if_pos hsubject] at h
        cases h
        exact .inl ⟨rfl, rfl, hdown⟩
      · rw [if_neg hsubject] at h
        obtain ⟨e', rfl, -, hsame⟩ := promote_proceed h
        exact .inr ⟨e', rfl, hsame, fun _ => ⟨hdown, .inr ⟨rfl, not_not.mp hsubject⟩⟩⟩
    | control =>
      rw [hphase] at h
      obtain ⟨e', rfl, -, hsame⟩ := promote_proceed h
      exact .inr ⟨e', rfl, hsame, fun _ => ⟨hdown, .inl rfl⟩⟩
    | response =>
      rw [hphase] at h
      cases h
      refine .inr ⟨e, rfl, .refl e, fun hc => ?_⟩
      rw [hphase] at hc
      cases hc
    | event =>
      rw [hphase] at h
      cases h
      refine .inr ⟨e, rfl, .refl e, fun hc => ?_⟩
      rw [hphase] at hc
      cases hc
  · rw [if_neg hdown] at h
    split_ifs at h with hcontrol
    cases h
    exact .inr ⟨e, rfl, .refl e, fun hc => absurd hc hcontrol⟩

theorem adjudicate_proceed (h : (n.adjudicate os inbound route e).2 = .proceed task) :
    ∃ granted, (n.adjudicate os inbound route e).1 = some granted ∧
      authorizeRequest os n.policy e = .ok granted ∧
      (task = .track inbound route e ∨ ∃ e' untrackAfterSend,
        task = .transmit inbound route e' false untrackAfterSend ∧ e'.phase = .control ∧
          e'.Same e) := by
  unfold adjudicate at h ⊢
  split at h
  · cases h
  · next granted hgranted =>
    rw [hgranted]
    by_cases hsubscribe : e.operation = .subscribe
    · rw [if_pos hsubscribe] at h ⊢
      cases h
      exact ⟨granted, rfl, rfl, .inl rfl⟩
    · rw [if_neg hsubscribe] at h ⊢
      obtain ⟨e', rfl, hphase, hsame⟩ := promote_proceed h
      exact ⟨granted, rfl, rfl, .inr ⟨e', _, rfl, hphase, hsame⟩⟩

theorem track_id_tree (inbound : Option PeerSession) (route : Route) (e : Envelope) :
    (n.track inbound route e).1.id = n.id ∧ (n.track inbound route e).1.tree = n.tree := by
  unfold track
  split
  · exact ⟨rfl, rfl⟩
  · next n' htrack =>
    obtain ⟨hid, htree⟩ := trackForwarded_id_tree htrack
    split
    · obtain ⟨hid', htree'⟩ := untrack_id_tree (n := n') 0 0 0
      exact ⟨hid'.trans hid, htree'.trans htree⟩
    · exact ⟨hid, htree⟩

theorem track_proceed (h : (n.track inbound route e).2 = .proceed task) :
    ∃ e', task = .transmit inbound route e' true false ∧ e'.phase = .control ∧ e'.Same e := by
  unfold track at h
  split at h
  · cases h
  · split at h
    · cases h
    · next e' hpromote =>
      cases h
      exact ⟨e', rfl, promoteControl_eq_ok hpromote⟩

theorem untrackIf_id_tree (flag : Bool) (id : MessageID) (source target : NodeID) :
    (n.untrackIf flag id source target).id = n.id ∧
      (n.untrackIf flag id source target).tree = n.tree := by
  unfold untrackIf
  split_ifs
  · exact untrack_id_tree _ _ _
  · exact ⟨rfl, rfl⟩

theorem transmit_spec {trackedSubscribe untrackAfterSend sent : Bool} {result : SendResult}
    {n' : Node} {outcome : Outcome}
    (h : n.transmit inbound route e trackedSubscribe untrackAfterSend result =
      (sent, n', outcome)) :
    n'.id = n.id ∧ n'.tree = n.tree ∧ ∀ task, outcome ≠ .proceed task := by
  have hunsent : ∀ err, (n.unsent inbound e trackedSubscribe err).1.id = n.id ∧
      (n.unsent inbound e trackedSubscribe err).1.tree = n.tree ∧
      ∀ task, (n.unsent inbound e trackedSubscribe err).2 ≠ .proceed task := by
    intro err
    obtain ⟨hid, htree⟩ := untrackIf_id_tree (n := n) trackedSubscribe e.messageID e.source e.target
    refine ⟨hid, htree, fun task => ?_⟩
    unfold unsent
    dsimp only
    split_ifs
    · simp
    · simp
  unfold transmit at h
  split at h
  · cases h
    exact hunsent _
  · cases h
    exact hunsent _
  · cases h
    exact hunsent _
  · cases h
    obtain ⟨hid, htree⟩ :=
      untrackIf_id_tree (n := n) untrackAfterSend e.correlationID e.source e.target
    exact ⟨hid, htree, by simp⟩

end Specs

end Node

end Routing
