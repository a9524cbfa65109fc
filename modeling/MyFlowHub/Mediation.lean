/-
Complete mediation at the owner of a resource.

The system is `Estate`: honest nodes, arbitrary frames on every child link, trees, policies
and sessions that change at any time.  A node acts on a frame of a session only for one of
two reasons, which `Entitled` names: the frame is control that the node accepted from the
parent it had, under the epoch it had, or it is a request and the node's own policy granted
it while the frame was handled.

Two checks of the source are not made under the lock of what they protect.  `routeEnvelope`
looks the target up after the source was validated, and `UnsubscribeFor` takes a
subscription out after it compared the subscriber.  `settled` says that nothing changed in
between.

* `complete_mediation` — in every run with settled steps a node acts on frames of sessions
  for these reasons only, and no frame from a child link is handled in the node's own name;
* `strayReply_handled` — without the condition a child has the owner handle a frame in the
  owner's name.
-/
import MyFlowHub.HubSteps

open Std Function Tables Auth TreeState Runs List

namespace Routing

open Estate Node

/-! ### Policies -/

def Record.commits (n : NodeID) : Record → Option Policy
  | .committed m policy => if m = n then some policy else none
  | _ => none

def policyAt (policies : NodeID → Policy) (n : NodeID) (log : List Record) : Policy :=
  log.foldl (fun policy r => (r.commits n).getD policy) (policies n)

variable {basis : Basis} {e : Envelope} {log : List Record} {n : NodeID}
  {policies : NodeID → Policy} {s : PeerSession}

theorem policyAt_append_eq {new : List Record} (hnew : ∀ r ∈ new, r.commits n = none) :
    policyAt policies n (log ++ new) = policyAt policies n log := by
  unfold policyAt
  rw [foldl_append]
  generalize log.foldl (fun policy r => (r.commits n).getD policy) (policies n) = policy
  induction new with
  | nil => rfl
  | cons r new ih =>
    rw [foldl_cons, hnew r mem_cons_self]
    exact ih fun r' hr' => hnew r' (mem_cons_of_mem r hr')

/-- The policy allows the subject of the envelope what the envelope asks for. -/
structure Grants (policy : Policy) (request : Request) (e : Envelope) : Prop where
  allowed : policy.authorize request = none
  subject : request.subject = e.subject
  capability : request.capability = e.capability
  resource : request.resource = e.resource

theorem basis_cases {os : Platform} {node : Node}
    (hbasis : (if e.operation = .operate then node.callBasis e else node.localBasis os e) =
      .ok basis) :
    (e.phase = .control ∨ e.subject = node.id) ∨
      e.phase ≠ .control ∧ (e.operation = .operate ∨ e.phase = .request) ∧
        ∃ request, basis = .granted node.policy request ∧ Grants node.policy request e := by
  by_cases hunasked : e.phase = .control ∨ e.subject = node.id
  · exact .inl hunasked
  obtain ⟨hcontrol, -⟩ := not_or.mp hunasked
  refine .inr ⟨hcontrol, ?_⟩
  by_cases hoperate : e.operation = .operate
  · rw [if_pos hoperate, callBasis, if_neg hunasked] at hbasis
    dsimp only at hbasis
    split at hbasis
    · cases hbasis
    · next hallowed =>
      cases hbasis
      exact ⟨.inl hoperate, _, rfl, hallowed, rfl, rfl, rfl⟩
  · rw [if_neg hoperate, localBasis, if_neg hunasked] at hbasis
    split at hbasis
    · cases hbasis
    · next request hok =>
      cases hbasis
      obtain ⟨hphase, hallowed, hsubject, hcapability, hresource, -⟩ := authorizeRequest_eq_ok hok
      exact ⟨.inr hphase, request, rfl, hallowed, hsubject, hcapability, hresource⟩

/-! ### What is known about a frame -/

/-- What the inbound check leaves of the frames of a session. -/
structure Checked (n : NodeID) (s : PeerSession) (parent : Option Edge) (e : Envelope) : Prop where
  phase : phaseAllows e.phase e.operation = true
  control : e.phase = .control → s.role = .parent ∧ parent = some ⟨s.peer, e.topologyEpoch⟩
  plain : e.phase ≠ .control → e.principal = 0
  child : s.role = .child → e.phase ≠ .control ∧ e.subject ≠ n ∧ s.peer ≠ 0

theorem checked_of_inboundError {t : TreeState} (hwf : WellFormed t)
    (hphase : phaseAllows e.phase e.operation = true) (hcheck : Hub.inboundError t s e = none) :
    Checked t.localNode s t.parent e := by
  unfold Hub.inboundError at hcheck
  cases hrole : s.role with
  | child =>
    rw [hrole] at hcheck
    obtain ⟨hcontrol, hsubject⟩ := subject_ne_of_child hwf hcheck
    unfold validateInboundChild at hcheck
    split_ifs at hcheck with hc hprincipal
    have hpeer : s.peer ≠ 0 := by
      have hsource := Option.map_eq_none_iff.mp hcheck
      unfold validateSource at hsource
      split at hsource
      · cases hsource
      · next edge hedge => exact (hwf.routed (hwf.child hedge).2.2).1
    exact ⟨hphase, fun hc => absurd hc hcontrol, fun _ => not_not.mp hprincipal,
      fun _ => ⟨hcontrol, hsubject, hpeer⟩⟩
  | parent =>
    rw [hrole] at hcheck
    refine ⟨hphase, fun hc => ⟨hrole, ?_⟩, fun hc => ?_, fun hc => ?_⟩
    · rw [validateInboundParent, if_pos hc] at hcheck
      have hparent := Option.map_eq_none_iff.mp hcheck
      unfold validateParentControl at hparent
      split at hparent
      · cases hparent
      · next edge hedge =>
        split_ifs at hparent with hnode hepoch
        rw [hedge, ← not_not.mp hnode, ← not_not.mp hepoch]
    · rw [validateInboundParent, if_neg hc] at hcheck
      split_ifs at hcheck with hprincipal
      exact not_not.mp hprincipal
    · rw [hrole] at hc
      cases hc

theorem subject_eq_source (h : e.principal = 0) : e.subject = e.source :=
  if_neg (not_not.mpr h)

/-- The node accepted the frame, and it is not in the node's own name. -/
def Arrived (log : List Record) (n : NodeID) (s : PeerSession) (e : Envelope) : Prop :=
  (e.phase ≠ .control → e.subject ≠ n) ∧
    ∃ parent, .accepted n s parent e ∈ log ∧ Checked n s parent e

/-- **Why node `n` may act on a frame of a session**: the frame is control from the parent
the node had, under the epoch it had, or it is a request and the policy in force granted it
after it was accepted. -/
def Entitled (policies : NodeID → Policy) (log : List Record) (n : NodeID) (s : PeerSession)
    (e : Envelope) (basis : Basis) : Prop :=
  (e.phase = .control ∧ s.role = .parent ∧ .accepted n s (some ⟨s.peer, e.topologyEpoch⟩) e ∈ log) ∨
    (e.phase = .request ∧ ∃ request pre post parent,
      basis = .granted (policyAt policies n pre) request ∧
      Grants (policyAt policies n pre) request e ∧
      log = pre ++ .authorized n e basis :: post ∧ .accepted n s parent e ∈ pre)

theorem Arrived.mono (h : Arrived log n s e) (new : List Record) : Arrived (log ++ new) n s e := by
  obtain ⟨hsubject, parent, hmem, hchecked⟩ := h
  exact ⟨hsubject, parent, mem_append_left _ hmem, hchecked⟩

theorem Entitled.mono (h : Entitled policies log n s e basis) (new : List Record) :
    Entitled policies (log ++ new) n s e basis := by
  rcases h with ⟨hcontrol, hrole, hmem⟩ | ⟨hphase, request, pre, post, parent, hbasis, hgrants,
    rfl, hmem⟩
  · exact .inl ⟨hcontrol, hrole, mem_append_left _ hmem⟩
  · exact .inr ⟨hphase, request, pre, post ++ new, parent, hbasis, hgrants, by simp, hmem⟩

theorem Arrived.entitled {os : Platform} {node : Node} (h : Arrived log n s e) (hid : node.id = n)
    (hpolicy : node.policy = policyAt policies n log)
    (hbasis : (if e.operation = .operate then node.callBasis e else node.localBasis os e) =
      .ok basis) :
    Entitled policies (log ++ [.authorized n e basis]) n s e basis := by
  obtain ⟨hsubject, parent, hmem, hchecked⟩ := h
  by_cases hcontrol : e.phase = .control
  · obtain ⟨hrole, rfl⟩ := hchecked.control hcontrol
    exact .inl ⟨hcontrol, hrole, mem_append_left _ hmem⟩
  rcases basis_cases hbasis with hunasked | ⟨-, hphase, request, rfl, hgrants⟩
  · -- neither shortcut is open to the frame
    rcases hunasked with hc | hself
    · exact absurd hc hcontrol
    · exact absurd (hself.trans hid) (hsubject hcontrol)
  · have hrequest : e.phase = .request := by
      rcases hphase with hoperate | hrequest
      · have hallowed := hchecked.phase
        rw [hoperate] at hallowed
        rcases of_decide_eq_true hallowed with hr | hc
        · exact hr
        · exact absurd hc hcontrol
      · exact hrequest
    rw [hpolicy] at hgrants ⊢
    exact .inr ⟨hrequest, request, log, [], parent, rfl, hgrants, rfl, hmem⟩

/-! ### The parts of a handler -/

/-- The frame a handler works on, before it asks whether it may. -/
def Handling.arrival : Handling → Option (Option PeerSession × Envelope)
  | .dispatch inbound e | .authorize inbound e => some (inbound, e)
  | _ => none

/-- The frame a handler works on, with the reason it may. -/
def Handling.claim : Handling → Option (Option PeerSession × Envelope × Basis)
  | .subscribe inbound e basis | .unsubscribe inbound e basis | .release inbound e basis _
  | .openSession inbound e basis | .findSession inbound e basis | .checkSession inbound e basis _
  | .useSession inbound e basis _ | .closeSession inbound e basis _ | .invoke inbound e basis =>
    some (inbound, e, basis)
  | _ => none

/-- `UnsubscribeFor` compared the subscriber before it goes on. -/
def Handling.compared : Handling → Prop
  | .release _ e _ checked => checked.subscriber = e.subject
  | _ => True

inductive HandlerNext (os : Platform) (node : Node) : Handling → Handling → Prop
  | starts {inbound e} : HandlerNext os node (.dispatch inbound e) (.authorize inbound e)
  | permits {inbound e basis}
      (hbasis : (if e.operation = .operate then node.callBasis e else node.localBasis os e) =
        .ok basis) :
      HandlerNext os node (.authorize inbound e) (served inbound e basis)
  | goes {task next} (harrival : next.arrival = none)
      (hclaim : next.claim = none ∨ next.claim = task.claim) (hcompared : next.compared) :
      HandlerNext os node task next

inductive HandlerNote (os : Platform) (node : Node) (l : Ledger) : Handling → Record → Prop
  | permits {inbound e basis}
      (hbasis : (if e.operation = .operate then node.callBasis e else node.localBasis os e) =
        .ok basis) :
      HandlerNote os node l (.authorize inbound e) (.authorized node.id e basis)
  | calls {task inbound e basis} (call : OwnerCall)
      (hclaim : task.claim = some (inbound, e, basis)) :
      HandlerNote os node l task (.called node.id inbound e basis call)
  | removes {inbound e basis checked entry}
      (hentry : l.subscriptions[e.correlationID]? = some entry) :
      HandlerNote os node l (.release inbound e basis checked) (.removed node.id e entry)
  | takes {request event} :
      HandlerNote os node l (.forwarding request) (.taken node.id request event)
  | rechecks {request event basis} (hbasis : node.localBasis os request = .ok basis) :
      HandlerNote os node l (.recheck request event) (.authorized node.id request basis)
  | produces {request event e} :
      HandlerNote os node l (.produce request event) (.produced node.id request e)

section Parts

variable {os : Platform} {wire : Wire} {node : Node} {l : Ledger} {input : HandlerInput}

theorem served_spec (inbound : Option PeerSession) (e : Envelope) (basis : Basis) :
    (served inbound e basis).claim = some (inbound, e, basis) ∧
      (served inbound e basis).arrival = none ∧ (served inbound e basis).compared := by
  unfold Node.served
  split <;> exact ⟨rfl, rfl, trivial⟩

@[simp] theorem refuse_next (e : Envelope) (code : ErrorCode) (message : String) :
    (node.refuse os l input e code message).next = none := rfl

@[simp] theorem refuse_records (e : Envelope) (code : ErrorCode) (message : String) :
    (node.refuse os l input e code message).records = [] := rfl

theorem handleLocal_result (inbound : Option PeerSession) (e : Envelope) :
    (node.handleLocal os l input inbound e).records = [] ∧
      ((node.handleLocal os l input inbound e).next = none ∨
        (node.handleLocal os l input inbound e).next = some (.authorize inbound e)) := by
  unfold Node.handleLocal
  split
  · exact ⟨rfl, .inl rfl⟩
  · split
    · split
      · exact ⟨rfl, .inl rfl⟩
      · exact ⟨rfl, .inr rfl⟩
    · split
      · exact ⟨rfl, .inl rfl⟩
      · exact ⟨rfl, .inr rfl⟩
    · exact ⟨rfl, .inr rfl⟩
    · exact ⟨rfl, .inr rfl⟩
    · exact ⟨rfl, .inr rfl⟩
    · exact ⟨rfl, .inr rfl⟩
    · exact ⟨rfl, .inl rfl⟩

variable (os node l input) in
theorem authorize_result (inbound : Option PeerSession) (e : Envelope) :
    ((node.authorize os l input inbound e).records = [] ∧
        (node.authorize os l input inbound e).next = none) ∨
      ∃ basis, (if e.operation = .operate then node.callBasis e else node.localBasis os e) =
          .ok basis ∧
        (node.authorize os l input inbound e).records = [.authorized node.id e basis] ∧
        (node.authorize os l input inbound e).next = some (served inbound e basis) := by
  unfold Node.authorize
  by_cases hexpired : e.operation = .operate ∧ e.deadlineUnixMS.toInt ≤ input.now
  · rw [if_pos hexpired]
    exact .inl ⟨rfl, rfl⟩
  rw [if_neg hexpired]
  cases hbasis : if e.operation = .operate then node.callBasis e else node.localBasis os e with
  | error err => exact .inl ⟨rfl, rfl⟩
  | ok basis => exact .inr ⟨basis, rfl, rfl, rfl⟩

/-- A part that may call the owner with the frame it works on, and goes on with `next`. -/
structure Serves (node : Node) (inbound : Option PeerSession) (e : Envelope) (basis : Basis)
    (r : HandlerResult) (next : Handling → Prop) : Prop where
  records : r.records = [] ∨ ∃ call, r.records = [.called node.id inbound e basis call]
  next : r.next = none ∨ ∃ x, r.next = some x ∧ next x

section

variable (inbound : Option PeerSession) (e : Envelope) (basis : Basis)

theorem handleSubscribe_serves :
    Serves node inbound e basis (node.handleSubscribe os wire l input inbound e basis)
      (· = .forwarding e) := by
  unfold Node.handleSubscribe
  split
  · exact ⟨.inl rfl, .inl rfl⟩
  · split
    · exact ⟨.inl rfl, .inl rfl⟩
    · dsimp only
      split
      · exact ⟨.inr ⟨_, rfl⟩, .inl rfl⟩
      · split
        · exact ⟨.inr ⟨_, rfl⟩, .inl rfl⟩
        · exact ⟨.inr ⟨_, rfl⟩, .inr ⟨_, rfl, rfl⟩⟩

theorem openSession_serves :
    Serves node inbound e basis (node.openSession os l input inbound e basis)
      fun x => ∃ grant id, x = .admitSession inbound e grant id := by
  unfold Node.openSession
  dsimp only
  split
  · exact ⟨.inr ⟨_, rfl⟩, .inl rfl⟩
  · next grant _ =>
    split
    · exact ⟨.inr ⟨_, rfl⟩, .inl rfl⟩
    · refine ⟨.inr ⟨_, rfl⟩, ?_⟩
      cases input.id with
      | none => exact .inl rfl
      | some id => exact .inr ⟨_, rfl, grant, id, rfl⟩

theorem sessionAnswer_serves (call : OwnerCall) (next : Handling → Prop) :
    Serves node inbound e basis
      (node.sessionAnswer os l input e [.called node.id inbound e basis call]) next := by
  unfold Node.sessionAnswer
  split
  · exact ⟨.inr ⟨call, rfl⟩, .inl rfl⟩
  · exact ⟨.inr ⟨call, rfl⟩, .inl rfl⟩

theorem useSession_serves (owned : OwnedSession) :
    Serves node inbound e basis (node.useSession os wire l input inbound e basis owned)
      (· = .closeSession inbound e basis owned) := by
  unfold Node.useSession
  split
  · split
    · exact ⟨.inl rfl, .inl rfl⟩
    · exact sessionAnswer_serves inbound e basis (.writeSession owned.id) _
  · split
    · exact ⟨.inl rfl, .inl rfl⟩
    · exact ⟨.inl rfl, .inr ⟨_, rfl, rfl⟩⟩

theorem invoke_serves (next : Handling → Prop) :
    Serves node inbound e basis (node.invoke os l input inbound e basis) next := by
  unfold Node.invoke
  split
  · exact ⟨.inl rfl, .inl rfl⟩
  · exact ⟨.inr ⟨.operate, rfl⟩, .inl rfl⟩
  · exact ⟨.inr ⟨.operate, rfl⟩, .inl rfl⟩

end

theorem produce_result (request : Envelope) (event : Delivery.Event) :
    ((node.produce os wire l input request event).records = [] ∨
        ∃ e, (node.produce os wire l input request event).records = [.produced node.id request e]) ∧
      ((node.produce os wire l input request event).next = none ∨
        (node.produce os wire l input request event).next = some (.forwarding request)) := by
  unfold Node.produce
  split
  · exact ⟨.inl rfl, .inl rfl⟩
  · exact ⟨.inl rfl, .inl rfl⟩
  · split
    · exact ⟨.inl rfl, .inl rfl⟩
    · dsimp only
      split
      · exact ⟨.inl rfl, .inl rfl⟩
      · exact ⟨.inr ⟨_, rfl⟩, .inr rfl⟩

variable {inbound : Option PeerSession}

theorem Serves.call {e : Envelope} {basis : Basis}
    {r : HandlerResult} {next : Handling → Prop} (h : Serves node inbound e basis r next)
    {x : Record} (hmem : x ∈ r.records) : ∃ call, x = .called node.id inbound e basis call := by
  rcases h.records with hnil | ⟨call, hcall⟩
  · rw [hnil] at hmem
    cases hmem
  · rw [hcall] at hmem
    exact ⟨call, mem_singleton.mp hmem⟩

theorem Serves.next_of_eq {e : Envelope} {basis : Basis}
    {r : HandlerResult} {next : Handling → Prop} (h : Serves node inbound e basis r next)
    {x : Handling} (hx : r.next = some x) : next x := by
  rcases h.next with hnone | ⟨y, hy, hnext⟩
  · rw [hnone] at hx
    cases hx
  · rw [hy] at hx
    cases hx
    exact hnext

/-- **What comes after a part of a handler.** -/
theorem handler_next {task next : Handling}
    (hnext : (node.handle os wire l input task).next = some next) :
    HandlerNext os node task next := by
  cases task with
  | dispatch inbound e =>
    have hnext : (node.handleLocal os l input inbound e).next = some next := hnext
    rcases (handleLocal_result inbound e).2 with hnone | hsome
    · rw [hnone] at hnext
      cases hnext
    · rw [hsome] at hnext
      cases hnext
      exact .starts
  -- the only part whose continuation carries a basis of its own: the one it was granted on
  | authorize inbound e =>
    have hnext : (node.authorize os l input inbound e).next = some next := hnext
    rcases authorize_result os node l input inbound e with
      ⟨-, hnone⟩ | ⟨basis, hbasis, -, hsome⟩
    · rw [hnone] at hnext
      cases hnext
    · rw [hsome] at hnext
      cases hnext
      exact .permits hbasis
  -- the parts below pass that basis on
  | subscribe inbound e basis =>
    obtain rfl := (handleSubscribe_serves inbound e basis).next_of_eq hnext
    exact .goes rfl (.inl rfl) trivial
  | unsubscribe inbound e basis =>
    simp only [handle, handleUnsubscribe] at hnext
    split at hnext
    · simp at hnext
    · next current _ =>
      split_ifs at hnext with hsubscriber
      · simp at hnext
      · cases hnext
        exact .goes rfl (.inr rfl) (not_not.mp hsubscriber)
  | release inbound e basis checked =>
    simp only [handle, release] at hnext
    split at hnext
    · simp at hnext
    · cases hnext
  | openSession inbound e basis =>
    obtain ⟨grant, id, rfl⟩ := (openSession_serves inbound e basis).next_of_eq hnext
    exact .goes rfl (.inl rfl) trivial
  | admitSession inbound e grant id =>
    simp only [handle, admitSession] at hnext
    split_ifs at hnext
    simp at hnext
  | findSession inbound e basis =>
    simp only [handle, findSession] at hnext
    split at hnext
    · simp at hnext
    · split_ifs at hnext
      · simp at hnext
      · cases hnext
        exact .goes rfl (.inr rfl) trivial
  | checkSession inbound e basis owned =>
    simp only [handle, checkSession] at hnext
    split_ifs at hnext
    · simp at hnext
    · cases hnext
      exact .goes rfl (.inr rfl) trivial
  | useSession inbound e basis owned =>
    obtain rfl := (useSession_serves inbound e basis owned).next_of_eq hnext
    exact .goes rfl (.inr rfl) trivial
  | closeSession inbound e basis owned =>
    exact ((sessionAnswer_serves inbound e basis (.closeSession owned.id)
      fun _ => False).next_of_eq hnext).elim
  | invoke inbound e basis =>
    exact ((invoke_serves inbound e basis fun _ => False).next_of_eq hnext).elim
  | forwarding request =>
    simp only [handle] at hnext
    split at hnext
    · cases hnext
    · cases hnext
      exact .goes rfl (.inl rfl) trivial
  | recheck request event =>
    simp only [handle, recheck] at hnext
    split at hnext
    · simp at hnext
    · cases hnext
      exact .goes rfl (.inl rfl) trivial
  | produce request event =>
    have hnext : (node.produce os wire l input request event).next = some next := hnext
    rcases (produce_result request event).2 with hnone | hsome
    · rw [hnone] at hnext
      cases hnext
    · rw [hsome] at hnext
      cases hnext
      exact .goes rfl (.inl rfl) trivial

/-- **What a part of a handler records.** -/
theorem handler_note {task : Handling} {r : Record}
    (hmem : r ∈ (node.handle os wire l input task).records) : HandlerNote os node l task r := by
  cases task with
  | dispatch inbound e =>
    have hmem : r ∈ (node.handleLocal os l input inbound e).records := hmem
    rw [(handleLocal_result inbound e).1] at hmem
    cases hmem
  | authorize inbound e =>
    have hmem : r ∈ (node.authorize os l input inbound e).records := hmem
    rcases authorize_result os node l input inbound e with
      ⟨hnil, -⟩ | ⟨basis, hbasis, hrecords, -⟩
    · rw [hnil] at hmem
      cases hmem
    · rw [hrecords] at hmem
      obtain rfl := mem_singleton.mp hmem
      exact .permits hbasis
  | subscribe inbound e basis =>
    obtain ⟨call, rfl⟩ := (handleSubscribe_serves inbound e basis).call hmem
    exact .calls call rfl
  | unsubscribe inbound e basis =>
    simp only [handle, handleUnsubscribe] at hmem
    split at hmem
    · simp at hmem
    · split_ifs at hmem
      · simp at hmem
      · cases hmem
  -- the entry removed is the one in the table now, not the one that was checked
  | release inbound e basis checked =>
    simp only [handle, release] at hmem
    split at hmem
    · simp at hmem
    · next entry hentry =>
      obtain rfl := mem_singleton.mp hmem
      exact .removes hentry
  | openSession inbound e basis =>
    obtain ⟨call, rfl⟩ := (openSession_serves inbound e basis).call hmem
    exact .calls call rfl
  | admitSession inbound e grant id =>
    simp only [handle, admitSession] at hmem
    split_ifs at hmem
    · simp at hmem
    · cases hmem
  | findSession inbound e basis =>
    simp only [handle, findSession] at hmem
    split at hmem
    · simp at hmem
    · split_ifs at hmem
      · simp at hmem
      · cases hmem
  | checkSession inbound e basis owned =>
    simp only [handle, checkSession] at hmem
    split_ifs at hmem
    · simp at hmem
    · cases hmem
  | useSession inbound e basis owned =>
    obtain ⟨call, rfl⟩ := (useSession_serves inbound e basis owned).call hmem
    exact .calls call rfl
  | closeSession inbound e basis owned =>
    obtain ⟨call, rfl⟩ :=
      (sessionAnswer_serves inbound e basis (.closeSession owned.id) fun _ => False).call hmem
    exact .calls call rfl
  | invoke inbound e basis =>
    obtain ⟨call, rfl⟩ := (invoke_serves inbound e basis fun _ => False).call hmem
    exact .calls call rfl
  | forwarding request =>
    simp only [handle] at hmem
    split at hmem
    · cases hmem
    · obtain rfl := mem_singleton.mp hmem
      exact .takes
  -- an event is authorized anew before it is produced
  | recheck request event =>
    simp only [handle, recheck] at hmem
    split at hmem
    · simp at hmem
    · next basis hbasis =>
      obtain rfl := mem_singleton.mp hmem
      exact .rechecks hbasis
  | produce request event =>
    have hmem : r ∈ (node.produce os wire l input request event).records := hmem
    rcases (produce_result request event).1 with hnil | ⟨e, hproduced⟩
    · rw [hnil] at hmem
      cases hmem
    · rw [hproduced] at hmem
      obtain rfl := mem_singleton.mp hmem
      exact .produces

end Parts

/-! ### The invariant -/

/-- A frame that waits for its route came over a session and was checked, or it is the
node's own; later stages have it on its way to somebody other than its source. -/
def Orderly (log : List Record) (n : NodeID) : Task → Prop
  | .lookup (some s) e => (s.role = .parent → e.source ≠ e.target) ∧
      ∃ parent, .accepted n s parent e ∈ log ∧ Checked n s parent e
  | .lookup none e => e.source = n
  | .forward _ _ e | .adjudicate _ _ e | .track _ _ e | .transmit _ _ e _ _ => e.source ≠ e.target

structure Carried (policies : NodeID → Policy) (log : List Record) (n : NodeID)
    (task : Handling) : Prop where
  arrived : ∀ s e, task.arrival = some (some s, e) → Arrived log n s e
  entitled : ∀ s e basis, task.claim = some (some s, e, basis) → Entitled policies log n s e basis
  compared : task.compared

/-- What the records before a record say about it. -/
def Mediates (policies : NodeID → Policy) (log : List Record) : Record → Prop
  | .accepted n s parent e => Checked n s parent e
  | .handling n (some s) e => (e.source ≠ n ∨ s.role = .child ∧ e.subject ≠ n) ∧
      (e.phase ≠ .control → e.subject ≠ n)
  | .called n (some s) e basis _ => Entitled policies log n s e basis
  | .removed _ e entry => entry.subscriber = e.subject
  | _ => True

theorem Orderly.mono {task : Task} (h : Orderly log n task) (new : List Record) :
    Orderly (log ++ new) n task := by
  cases task with
  | lookup inbound e =>
    cases inbound with
    | none => exact h
    | some s =>
      obtain ⟨hsource, parent, hmem, hchecked⟩ := h
      exact ⟨hsource, parent, mem_append_left _ hmem, hchecked⟩
  | forward => exact h
  | adjudicate => exact h
  | track => exact h
  | transmit => exact h

theorem Carried.mono {task : Handling} (h : Carried policies log n task) (new : List Record) :
    Carried policies (log ++ new) n task :=
  ⟨fun s e heq => (h.arrived s e heq).mono new,
    fun s e basis heq => (h.entitled s e basis heq).mono new, h.compared⟩

theorem Mediates.mono {r : Record} (h : Mediates policies log r) (new : List Record) :
    Mediates policies (log ++ new) r := by
  cases r with
  | called n inbound e basis call =>
    cases inbound with
    | none => trivial
    | some s => exact Entitled.mono h new
  | accepted => exact h
  | removed => exact h
  | handling n inbound e =>
    cases inbound with
    | none => trivial
    | some s => exact h
  | created => trivial
  | committed => trivial
  | authorized => trivial
  | adjudicated => trivial
  | vetted => trivial
  | sent => trivial
  | taken => trivial
  | produced => trivial

/-- **The invariant of the runs.** -/
structure Mediated (policies : NodeID → Policy) (m : Estate) : Prop where
  sound : Sound m.hub
  policy : ∀ n, (m.hub.node n).policy = policyAt policies n m.log
  tasks : ∀ n task, task ∈ m.hub.tasks n → Orderly m.log n task
  sends : ∀ n next inbound kind e, .sent n next inbound kind e ∈ m.hub.log → e.source ≠ e.target
  handling : ∀ n task, task ∈ m.handling n → Carried policies m.log n task
  log : Justified (Mediates policies) m.log

theorem mediated_start (policies : NodeID → Policy) (limits : NodeID → ℕ) :
    Mediated policies (start policies limits) := by
  refine ⟨sound_start policies limits, fun _ => rfl, ?_, ?_, ?_, justified_nil _⟩
  · intro n task hmem
    cases hmem
  · intro n next inbound kind e hmem
    cases hmem
  · intro n task hmem
    cases hmem

/-- The frame of a child link that names its own source as its target is still routed over
the link when the target is looked up, and the subscription that `UnsubscribeFor` takes out
is the one it compared. -/
def settled (m : Estate) : EstateAct → Bool
  | .onHub (.work n i _ _) =>
    match (m.hub.tasks n)[i]? with
    | some (.lookup (some s) e) => s.role ≠ .child ∨ e.source ≠ e.target ∨
        (m.hub.node n).tree.routeOf e.source = s.peer
    | _ => true
  | .handle n i _ =>
    match (m.handling n)[i]? with
    | some (.release _ e _ checked) =>
      (m.ledger n).subscriptions[e.correlationID]?.all fun entry => entry = checked
    | _ => true
  | _ => true

/-! ### Every settled step keeps the invariant -/

section Keeps

variable {os : Platform} {wire : Wire} {policies : NodeID → Policy} {m : Estate}
  {a : Act} {e : Envelope} {input : HandlerInput} {n : NodeID} {i : ℕ}

/-- A frame whose target is not the node leaves the lookup for somebody other than its
source. -/
theorem source_ne_target (hm : Mediated policies m) {result : SendResult} {id : Option MessageID}
      {route : Route}
    (hsettled : settled m (.onHub (.work n i result id)) = true)
    (htask : (m.hub.tasks n)[i]? = some (.lookup inbound e)) (hother : e.target ≠ (m.hub.node n).id)
    (hroute : (m.hub.node n).tree.routeTo e.target = .ok route) (hkind : route.kind ≠ .here)
    (hloop : ∀ s, inbound = some s → route.nextHop ≠ s.peer) : e.source ≠ e.target := by
  have horderly := hm.tasks n _ (mem_of_getElem? htask)
  cases inbound with
  | none =>
    have hsource : e.source = n := horderly
    rw [hm.sound.id n] at hother
    rw [hsource]
    exact fun hc => hother hc.symm
  | some s =>
    cases hrole : s.role with
    | parent => exact horderly.1 hrole
    | child =>
      simp only [settled, htask, hrole] at hsettled
      intro hself
      -- the source is still behind the link, so the loop check stops the frame
      have hrouted : (m.hub.node n).tree.routeOf e.source = s.peer := by
        rcases of_decide_eq_true hsettled with hc | hc | hrouted
        · exact absurd rfl hc
        · exact absurd hself hc
        · exact hrouted
      obtain ⟨-, parent, -, hchecked⟩ := horderly
      have hne : (m.hub.node n).tree.routeOf e.target ≠ 0 := by
        rw [← hself, hrouted]
        exact (hchecked.child hrole).2.2
      unfold routeTo at hroute
      split_ifs at hroute with hlocal
      · cases hroute
        exact hkind rfl
      · cases hroute
        refine hloop s rfl ?_
        show (m.hub.node n).tree.routeOf e.target = s.peer
        rw [← hself, hrouted]

theorem target_of_handle (hs : Sound m.hub)
    (hhandle : ((m.hub.node n).lookup inbound e).2 = .handle) : e.target = n := by
  unfold Node.lookup at hhandle
  by_cases hlocal : e.target = (m.hub.node n).id
  · exact hlocal.trans (hs.id n)
  rw [if_neg hlocal] at hhandle
  dsimp only at hhandle
  rw [(untrackError_id_tree e).2] at hhandle
  split at hhandle
  · split_ifs at hhandle
  · next route hroute =>
    split_ifs at hhandle with hhere
    unfold routeTo at hroute
    split_ifs at hroute with htarget
    · exact htarget.trans (hs.localNode n)
    · cases hroute
      cases hhere
    · split at hroute
      · cases hroute
        cases hhere
      · cases hroute

theorem Orderly.arrived {log : List Record} {s : PeerSession}
    (h : Orderly log n (.lookup (some s) e)) (htarget : e.target = n) :
    (e.source ≠ n ∨ s.role = .child ∧ e.subject ≠ n) ∧ Arrived log n s e := by
  obtain ⟨hsource, parent, hmem, hchecked⟩ := h
  cases hrole : s.role with
  | child =>
    have hsubject := (hchecked.child hrole).2.1
    exact ⟨.inr ⟨rfl, hsubject⟩, fun _ => hsubject, parent, hmem, hchecked⟩
  | parent =>
    have hother : e.source ≠ n := by
      rw [← htarget]
      exact hsource hrole
    refine ⟨.inl hother, fun hcontrol => ?_, parent, hmem, hchecked⟩
    rw [subject_eq_source (hchecked.plain hcontrol)]
    exact hother

theorem commits_notes (ha : ∀ policy, a ≠ .setPolicy n policy) :
    ∀ r ∈ Estate.notes os m.hub a, r.commits n = none := by
  intro r hr
  cases a with
  | setPolicy n' policy =>
    obtain rfl := mem_singleton.mp hr
    have hne : n' ≠ n := by
      rintro rfl
      exact ha policy rfl
    exact if_neg hne
  | create n' e => obtain rfl := mem_singleton.mp hr; rfl
  | emit n' next e => obtain rfl := mem_singleton.mp hr; rfl
  | receive n' s e =>
    simp only [Estate.notes] at hr
    split at hr
    · cases hr
    · obtain rfl := mem_singleton.mp hr
      rfl
  | work n' i result id =>
    simp only [Estate.notes] at hr
    split at hr
    · cases hr
    · next task _ =>
      cases task with
      | lookup inbound e =>
        simp only [workNotes] at hr
        split at hr
        · obtain rfl := mem_singleton.mp hr
          rfl
        · cases hr
      | forward inbound route e =>
        obtain ⟨interest, -, rfl⟩ := mem_map.mp hr
        rfl
      | adjudicate inbound route e =>
        simp only [workNotes] at hr
        split at hr
        · cases hr
        · obtain rfl := mem_singleton.mp hr
          rfl
      | track inbound route e => cases hr
      | transmit inbound route e trackedSubscribe untrackAfterSend =>
        simp only [workNotes] at hr
        split_ifs at hr
        · obtain rfl := mem_singleton.mp hr
          rfl
        · cases hr
  | _ => cases hr

section

variable (hm : Mediated policies m)
include hm

theorem Mediated.notes (ha : a.node ≠ 0) (hadmissible : admissible a = true) :
    ∀ r ∈ Estate.notes os m.hub a, Mediates policies m.log r := by
  intro r hr
  cases a with
  | create n e => obtain rfl := mem_singleton.mp hr; trivial
  | setPolicy n policy => obtain rfl := mem_singleton.mp hr; trivial
  | emit n next e => obtain rfl := mem_singleton.mp hr; trivial
  | receive n s e =>
    simp only [Estate.notes] at hr
    split at hr
    · cases hr
    · next hcheck =>
      obtain rfl := mem_singleton.mp hr
      have hchecked := checked_of_inboundError (hm.sound.wellFormed n ha) hadmissible hcheck
      rw [hm.sound.localNode n] at hchecked
      exact hchecked
  | work n i result id =>
    simp only [Estate.notes] at hr
    split at hr
    · cases hr
    · next task htask =>
      cases task with
      | lookup inbound e =>
        simp only [workNotes] at hr
        split at hr
        · next hhandle =>
          obtain rfl := mem_singleton.mp hr
          cases inbound with
          | none => trivial
          | some s =>
            have harrived := (hm.tasks n _ (mem_of_getElem? htask)).arrived
              (target_of_handle hm.sound hhandle)
            exact ⟨harrived.1, harrived.2.1⟩
        · cases hr
      | forward inbound route e =>
        obtain ⟨interest, -, rfl⟩ := mem_map.mp hr
        trivial
      | adjudicate inbound route e =>
        simp only [workNotes] at hr
        split at hr
        · cases hr
        · obtain rfl := mem_singleton.mp hr
          trivial
      | track inbound route e => cases hr
      | transmit inbound route e trackedSubscribe untrackAfterSend =>
        simp only [workNotes] at hr
        split_ifs at hr
        · obtain rfl := mem_singleton.mp hr
          trivial
        · cases hr
  | _ => cases hr

theorem Mediated.task (ha : a.node ≠ 0) (hadmissible : admissible a = true)
    (hsettled : settled m (.onHub a) = true) {task : Task}
    (horigin : TaskOrigin os m.hub a n task) :
    Orderly (m.log ++ Estate.notes os m.hub a) n task := by
  cases horigin with
  | old hmem => exact (hm.tasks n task hmem).mono _
  | made hmade => exact hmade.source
  | @received s e hact hrunning hsent hcheck =>
    subst hact
    have hchecked := checked_of_inboundError (hm.sound.wellFormed n ha) hadmissible hcheck
    rw [hm.sound.localNode n] at hchecked
    refine ⟨fun hrole => ?_, (m.hub.node n).tree.parent, ?_, hchecked⟩
    · -- the parent sent it, and nobody sends a frame to its source
      obtain ⟨ev, hmem, hev⟩ := any_eq_true.mp (hsent hrole)
      cases ev with
      | sent m' next inbound kind e' =>
        obtain ⟨-, -, rfl⟩ := of_decide_eq_true hev
        exact hm.sends _ _ _ _ _ hmem
      | _ => cases hev
    · refine mem_append_right _ ?_
      simp only [Estate.notes, hcheck]
      exact mem_singleton.mpr rfl
  | @stage i result id task₀ _ hact htask hfollows =>
    subst hact
    have hold := hm.tasks n task₀ (mem_of_getElem? htask)
    cases hfollows with
    | found hother hroute hkind hloop =>
      exact source_ne_target hm hsettled htask hother hroute hkind hloop
    | asks => exact hold
    | passes hmoved =>
      obtain ⟨hsource, htarget, -⟩ := hmoved.fields
      show Envelope.source _ ≠ Envelope.target _
      rw [hsource, htarget]
      exact hold
    | tracks => exact hold
    | granted _ _ _ hmoved =>
      obtain ⟨hsource, htarget, -⟩ := hmoved.fields
      show Envelope.source _ ≠ Envelope.target _
      rw [hsource, htarget]
      exact hold
    | tracked _ hmoved =>
      obtain ⟨hsource, htarget, -⟩ := hmoved.fields
      show Envelope.source _ ≠ Envelope.target _
      rw [hsource, htarget]
      exact hold

theorem Mediated.arrival {task : Handling} (hmem : task ∈ arrivals m.hub a) :
    Carried policies m.log a.node task := by
  cases a with
  | work n i result id =>
    simp only [arrivals] at hmem
    split at hmem
    · next inbound e htask =>
      split at hmem
      · next hhandle =>
        obtain rfl := mem_singleton.mp hmem
        refine ⟨fun s e' heq => ?_, fun s e' basis heq => ?_, trivial⟩
        · cases heq
          exact ((hm.tasks n _ (mem_of_getElem? htask)).arrived
            (target_of_handle hm.sound hhandle)).2
        · cases heq
      · cases hmem
    · cases hmem
  | _ => cases hmem

theorem Mediated.hubStep (hsettled : settled m (.onHub a) = true) :
    Mediated policies (m.hubStep os a) := by
  unfold Estate.hubStep
  split_ifs with hskip
  · exact hm
  obtain ⟨ha, hinadmissible⟩ := not_or.mp hskip
  have hadmissible : admissible a = true := by
    cases hc : admissible a with
    | true => rfl
    | false => exact absurd hc hinadmissible
  cases hstep : m.hub.step? os a with
  | none => exact hm
  | some hub =>
    refine ⟨hm.sound.step? ha hstep, fun n => ?_, fun n task hmem => ?_,
      fun n next inbound kind e hmem => ?_, fun n task hmem => ?_, ?_⟩
    · rcases node_step? hstep n with ⟨policy, rfl, hnode⟩ | hchanges
      · show (hub.node n).policy = policyAt policies n (m.log ++ [.committed n policy])
        rw [hnode, policyAt, foldl_append]
        simp [Record.commits]
      · show (hub.node n).policy = policyAt policies n (m.log ++ Estate.notes os m.hub a)
        by_cases hset : ∃ policy, a = .setPolicy n policy
        · obtain ⟨policy, rfl⟩ := hset
          cases hstep
          show (update m.hub.node n { m.hub.node n with policy := policy } n).policy = _
          rw [update_self, policyAt, foldl_append]
          simp [Estate.notes, Record.commits]
        · rw [hchanges.policy, hm.policy n,
            policyAt_append_eq (commits_notes fun policy hc => hset ⟨policy, hc⟩)]
    · exact hm.task ha hadmissible hsettled (mem_tasks_step? hm.sound.id hstep hmem)
    · rcases mem_log_step? hstep hmem with hold | ⟨route, _, _, htask⟩ | ⟨rfl, hsource⟩
      · exact hm.sends _ _ _ _ _ hold
      · exact hm.tasks n _ htask
      · obtain ⟨hnext, htarget, -⟩ := of_decide_eq_true hadmissible
        rw [hsource, htarget]
        exact fun hc => hnext hc.symm
    · have hmem : task ∈ update m.handling a.node
          (m.handling a.node ++ arrivals m.hub a) n := hmem
      by_cases hn : n = a.node
      · subst hn
        rw [update_self] at hmem
        rcases mem_append.mp hmem with hold | hnew
        · exact (hm.handling _ task hold).mono _
        · exact (hm.arrival hnew).mono _
      · rw [update_of_ne hn] at hmem
        exact (hm.handling n task hmem).mono _
    · exact hm.log.append Mediates.mono (hm.notes ha hadmissible)

end

variable (os) in
theorem Mediated.send (hm : Mediated policies m) (n : NodeID) (send : Option Envelope) :
    Mediated policies { m with
      hub := match send with
        | none => m.hub
        | some e => m.hub.step os (.create n e) } := by
  cases send with
  | none => exact hm
  | some e =>
    dsimp only
    unfold Hub.step
    split_ifs with hn
    · exact hm
    cases hstep : m.hub.step? os (.create n e) with
    | none => exact hm
    | some hub =>
      show Mediated policies { m with hub := hub }
      refine ⟨hm.sound.step? hn hstep, fun n' => ?_, fun n' task hmem => ?_,
        fun n' next inbound kind e' hmem => ?_, hm.handling, hm.log⟩
      · rcases node_step? hstep n' with ⟨policy, hc, -⟩ | hchanges
        · cases hc
        · exact hchanges.policy.trans (hm.policy n')
      · cases mem_tasks_step? hm.sound.id hstep hmem with
        | old hold => exact hm.tasks n' task hold
        | made hmade => exact hmade.source
        | received hact => cases hact
        | stage hact => cases hact
      · rcases mem_log_step? hstep hmem with hold | ⟨route, _, _, htask⟩ | ⟨hc, -⟩
        · exact hm.sends _ _ _ _ _ hold
        · exact hm.tasks n' _ htask
        · cases hc

theorem commits_handler {node : Node} {l : Ledger} {task : Handling} {r : Record}
    (hnote : HandlerNote os node l task r) (n : NodeID) : r.commits n = none := by
  cases hnote <;> rfl

section

variable (hm : Mediated policies m)
include hm

theorem Mediated.handlerNote (hsettled : settled m (.handle n i input) = true) {task : Handling}
    (htask : (m.handling n)[i]? = some task) {r : Record}
    (hnote : HandlerNote os (m.hub.node n) (m.ledger n) task r) : Mediates policies m.log r := by
  have hcarried := hm.handling n task (mem_of_getElem? htask)
  cases hnote with
  | permits => trivial
  | @calls _ inbound e basis call hclaim =>
    cases inbound with
    | none => trivial
    | some s =>
      rw [hm.sound.id n]
      exact hcarried.entitled s e basis hclaim
  | @removes inbound e basis checked entry hentry =>
    -- what is taken out is what was compared
    simp only [settled, htask, hentry, Option.all_some] at hsettled
    obtain rfl := of_decide_eq_true hsettled
    exact hcarried.compared
  | takes => trivial
  | rechecks => trivial
  | produces => trivial

theorem Mediated.handlerNext {task next : Handling} (hmem : task ∈ m.handling n)
    (hnext : ((m.hub.node n).handle os wire (m.ledger n) input task).next = some next) :
    Carried policies
      (m.log ++ ((m.hub.node n).handle os wire (m.ledger n) input task).records) n next := by
  have hcarried := hm.handling n task hmem
  cases hhandler : handler_next hnext with
  | @starts inbound e =>
    refine ⟨fun s e' heq => ?_, fun s e' basis heq => ?_, trivial⟩
    · cases heq
      exact (hcarried.arrived s e rfl).mono _
    · cases heq
  | @permits inbound e basis hbasis =>
    obtain ⟨hclaim, harrival, hcompared⟩ := served_spec inbound e basis
    refine ⟨fun s e' heq => ?_, fun s e' basis' heq => ?_, hcompared⟩
    · rw [harrival] at heq
      cases heq
    · rw [hclaim] at heq
      cases heq
      have hnext : ((m.hub.node n).authorize os (m.ledger n) input (some s) e).next = _ := hnext
      show Entitled policies
        (m.log ++ ((m.hub.node n).authorize os (m.ledger n) input (some s) e).records) n s e basis
      rcases authorize_result os (m.hub.node n) (m.ledger n) input
        (some s) e with ⟨-, hnone⟩ | ⟨basis', hbasis', hrecords, -⟩
      · rw [hnone] at hnext
        cases hnext
      · obtain rfl := Except.ok.inj (hbasis'.symm.trans hbasis)
        rw [hrecords, hm.sound.id n]
        exact (hcarried.arrived s e rfl).entitled (hm.sound.id n) (hm.policy n) hbasis
  | goes harrival hclaim hcompared =>
    refine ⟨fun s e' heq => ?_, fun s e' basis heq => ?_, hcompared⟩
    · rw [harrival] at heq
      cases heq
    · rcases hclaim with hnone | hsame
      · rw [hnone] at heq
        cases heq
      · rw [hsame] at heq
        exact (hcarried.entitled s e' basis heq).mono _

theorem Mediated.handleStep (hsettled : settled m (.handle n i input) = true) :
    Mediated policies (m.handleStep os wire n i input) := by
  unfold Estate.handleStep
  split
  · exact hm
  · next task htask =>
    dsimp only
    have hnotes : ∀ r ∈ ((m.hub.node n).handle os wire (m.ledger n) input task).records,
        Mediates policies m.log r ∧ ∀ n', r.commits n' = none := fun r hr =>
      ⟨hm.handlerNote hsettled htask (handler_note hr), commits_handler (handler_note hr)⟩
    have hsent := hm.send os n
      ((m.hub.node n).handle os wire (m.ledger n) input task).send
    refine ⟨hsent.sound, fun n' => ?_, fun n' task' hmem => ?_, hsent.sends,
      fun n' task' hmem => ?_, hm.log.append Mediates.mono fun r hr => (hnotes r hr).1⟩
    · exact (hsent.policy n').trans
        (policyAt_append_eq fun r hr => (hnotes r hr).2 n').symm
    · exact (hsent.tasks n' task' hmem).mono _
    · have hmem : task' ∈ update m.handling n ((m.handling n).eraseIdx i ++
          ((m.hub.node n).handle os wire (m.ledger n) input task).next.toList) n' := hmem
      by_cases hn : n' = n
      · subst hn
        rw [update_self] at hmem
        rcases mem_append.mp hmem with hold | hnew
        · exact (hm.handling _ task' (mem_of_mem_eraseIdx hold)).mono _
        · exact hm.handlerNext (mem_of_getElem? htask) (Option.mem_toList.mp hnew)
      · rw [update_of_ne hn] at hmem
        exact (hm.handling n' task' hmem).mono _

theorem Mediated.step {act : EstateAct} (hsettled : settled m act = true) :
    Mediated policies (m.step os wire act) := by
  cases act with
  | onHub a => exact hm.hubStep hsettled
  | handle n i input =>
    simp only [Estate.step]
    split_ifs
    · exact hm
    · exact hm.handleStep hsettled
  | expect n id => exact { hm with }
  | unexpect n id => exact { hm with }
  | dropSession n id => exact { hm with }
  | dropSubscription n id => exact { hm with }

end

theorem mediated_run (os : Platform) (wire : Wire) (policies : NodeID → Policy)
    (limits : NodeID → ℕ) {as : List EstateAct}
    (hsettled : Along (Estate.step os wire) (fun m act => settled m act = true)
      (start policies limits) as) :
    Mediated policies (as.foldl (Estate.step os wire) (start policies limits)) :=
  foldl_along (fun _ _ hm hact => hm.step hact) (mediated_start policies limits) hsettled

end Keeps

/-! ### Mediation -/

/-- The frame came to the node over a child link, or an ancestor of the node took it from a
child link and passed it down. -/
inductive Injected (log : List Record) : NodeID → PeerSession → Envelope → Prop
  | child {n s parent e} (hmem : .accepted n s parent e ∈ log) (hrole : s.role = .child) :
      Injected log n s e
  | hop {n next s s' parent e e'} (hinjected : Injected log n s e) (hmoved : e'.Moved e)
      (hsent : .sent n next (some s) e' ∈ log) (hmem : .accepted next s' parent e' ∈ log)
      (hpeer : s'.peer = n) : Injected log next s' e'

theorem Injected.principal (hlog : Justified (Mediates policies) log) (h : Injected log n s e) :
    e.principal = 0 := by
  induction h with
  | child hmem hrole =>
    obtain ⟨pre, post, heq⟩ := append_of_mem hmem
    have hchecked : Checked _ _ _ _ := hlog pre _ post heq
    exact hchecked.plain (hchecked.child hrole).1
  | hop _ hmoved _ _ _ ih => rw [hmoved.fields.2.2.1, ih]

def plainWire : Wire where
  decodeSubscribe _ := .error "unreadable"
  decodeSessionData _ := .error "unreadable"
  decodeSessionClose _ := .error "unreadable"
  encodeGrant _ _ _ := .ok []
  encodeEvent _ := .ok []

/-- Node 3 asks node 2 for an operation, and node 1 lets it pass. -/
def timedRequest : Envelope := { siblingRequest with deadlineUnixMS := 5 }

/-- The request as node 1 sends it down. -/
def timedControl : Envelope := { timedRequest with phase := .control, topologyEpoch := 1 }

def timedRun : List EstateAct :=
  [.onHub (.attach 1 ⟨2, .child, 1⟩), .onHub (.publish 1 ⟨2, .child, 1⟩),
    .onHub (.attach 1 ⟨3, .child, 1⟩), .onHub (.publish 1 ⟨3, .child, 1⟩),
    .onHub (.attach 2 ⟨1, .parent, 1⟩), .onHub (.publish 2 ⟨1, .parent, 1⟩),
    .onHub (.receive 1 ⟨3, .child, 1⟩ timedRequest), .onHub (.work 1 0 .queued none),
    .onHub (.work 1 0 .queued none), .onHub (.work 1 0 .queued none),
    .onHub (.work 1 0 .queued none), .onHub (.receive 2 ⟨1, .parent, 1⟩ timedControl),
    .onHub (.work 2 0 .queued none), .handle 2 0 {}, .handle 2 0 {},
    .handle 2 0 { dispatch := .runs (.ok ⟨"", []⟩) }]

def timedLog : List Record :=
  [.accepted 1 ⟨3, .child, 1⟩ none timedRequest,
    .adjudicated 1 timedRequest allowAll ⟨3, "invoke", "invoke", ⟨2, "lamp"⟩⟩,
    .sent 1 2 (some ⟨3, .child, 1⟩) timedControl,
    .accepted 2 ⟨1, .parent, 1⟩ (some ⟨1, 1⟩) timedControl,
    .handling 2 (some ⟨1, .parent, 1⟩) timedControl, .authorized 2 timedControl .unasked]

/-- **Complete mediation.**  In every run with settled steps:

* a node calls an operation or subscribes, or opens, writes or closes a session because of a
  frame of a session only if it is entitled to;
* a frame in the response or event phase never makes it do so;
* no frame from a child link, wherever it entered the tree, is handled by a node in whose
  name it speaks, and outside the control phase no frame of any session is;
* an unsubscribe request takes out subscriptions of its own subject only. -/
theorem complete_mediation (os : Platform) (wire : Wire) (policies : NodeID → Policy)
    (limits : NodeID → ℕ) (as : List EstateAct)
    (hsettled : Along (Estate.step os wire) (fun m act => settled m act = true)
      (start policies limits) as) :
    (∀ pre n s e basis call post,
      (as.foldl (Estate.step os wire) (start policies limits)).log =
        pre ++ .called n (some s) e basis call :: post → Entitled policies pre n s e basis) ∧
    (∀ n s e basis call, .called n (some s) e basis call ∈
        (as.foldl (Estate.step os wire) (start policies limits)).log →
      e.phase ≠ .response ∧ e.phase ≠ .event) ∧
    (∀ n s e, .handling n (some s) e ∈
        (as.foldl (Estate.step os wire) (start policies limits)).log →
      (Injected (as.foldl (Estate.step os wire) (start policies limits)).log n s e →
        e.subject ≠ n) ∧ (e.phase ≠ .control → e.subject ≠ n)) ∧
    ∀ n e entry, .removed n e entry ∈
        (as.foldl (Estate.step os wire) (start policies limits)).log →
      entry.subscriber = e.subject := by
  have hm := mediated_run os wire policies limits hsettled
  have hcalled : ∀ pre n s e basis call post,
      (as.foldl (Estate.step os wire) (start policies limits)).log =
        pre ++ .called n (some s) e basis call :: post → Entitled policies pre n s e basis :=
    fun pre n s e basis call post heq => hm.log pre _ post heq
  refine ⟨hcalled, fun n s e basis call hmem => ?_, fun n s e hmem => ?_, fun n e entry hmem => ?_⟩
  · obtain ⟨pre, post, heq⟩ := append_of_mem hmem
    rcases hcalled pre n s e basis call post heq with ⟨hphase, -⟩ | ⟨hphase, -⟩
    · rw [hphase]
      exact ⟨by decide, by decide⟩
    · rw [hphase]
      exact ⟨by decide, by decide⟩
  · obtain ⟨pre, post, heq⟩ := append_of_mem hmem
    obtain ⟨hsource, hplain⟩ := hm.log pre _ post heq
    refine ⟨fun hinjected => ?_, hplain⟩
    rcases hsource with hsource | ⟨-, hsubject⟩
    · rw [subject_eq_source (hinjected.principal hm.log)]
      exact hsource
    · exact hsubject
  · obtain ⟨pre, post, heq⟩ := append_of_mem hmem
    exact hm.log pre _ post heq

theorem complete_mediation_timedRun :
    Entitled (fun _ => allowAll) timedLog 2 ⟨1, .parent, 1⟩ timedControl .unasked ∧
      timedControl.subject ≠ 2 := by
  have hlog : (timedRun.foldl (Estate.step ⟨fun _ => true, fun _ => []⟩ plainWire)
      (start (fun _ => allowAll) fun _ => 1024)).log =
      timedLog ++ [.called 2 (some ⟨1, .parent, 1⟩) timedControl .unasked .operate] := rfl
  have hsettled : Along (Estate.step ⟨fun _ => true, fun _ => []⟩ plainWire)
      (fun m act => settled m act = true) (start (fun _ => allowAll) fun _ => 1024)
      timedRun := by
    refine ⟨rfl, rfl, rfl, rfl, rfl, rfl, rfl, rfl, rfl, rfl, rfl, rfl, rfl, rfl, rfl, rfl, ?_⟩
    trivial
  obtain ⟨hcalled, -, hhandled, -⟩ := complete_mediation ⟨fun _ => true, fun _ => []⟩ plainWire
    (fun _ => allowAll) (fun _ => 1024) timedRun hsettled
  rw [hlog] at hcalled hhandled
  have hfirst : Injected (timedLog ++
      [.called 2 (some ⟨1, .parent, 1⟩) timedControl .unasked .operate]) 1 ⟨3, .child, 1⟩
      timedRequest := .child (mem_of_getElem? (i := 0) rfl) rfl
  refine ⟨hcalled _ _ _ _ _ _ [] rfl, ?_⟩
  refine (hhandled 2 ⟨1, .parent, 1⟩ timedControl (mem_of_getElem? (i := 4) rfl)).1 ?_
  exact .hop hfirst (.inr ⟨1, rfl⟩) (mem_of_getElem? (i := 2) rfl)
    (mem_of_getElem? (i := 3) rfl) rfl

/-! ### A frame that outlives its route -/

def denyAll : Policy := ⟨fun _ => some "denied", 1⟩

/-- Node 3 claims that node 2 is below it and sends a frame from node 2 to node 2. -/
def strayReply : Envelope where
  phase := .response
  operation := .sessionData
  messageID := 7
  correlationID := 9
  source := 2
  target := 2
  resource := ⟨2, "lamp"⟩
  capability := "write"

/-- Node 1 validates the frame on the first session of node 3.  Before it looks the target
up, node 3 comes back on a second session and withdraws the route, and node 2 joins. -/
def strayRun : List EstateAct :=
  [.onHub (.attach 1 ⟨3, .child, 1⟩), .onHub (.publish 1 ⟨3, .child, 1⟩),
    .onHub (.mutate 1 (.announceWithParent 3 2 3 1)), .onHub (.receive 1 ⟨3, .child, 1⟩ strayReply),
    .onHub (.attach 1 ⟨3, .child, 2⟩), .onHub (.publish 1 ⟨3, .child, 2⟩),
    .onHub (.mutate 1 (.withdrawRoute 3 2 2)),
    .onHub (.attach 1 ⟨2, .child, 1⟩), .onHub (.publish 1 ⟨2, .child, 1⟩),
    .onHub (.attach 2 ⟨1, .parent, 1⟩), .onHub (.publish 2 ⟨1, .parent, 1⟩),
    .onHub (.work 1 0 .queued none), .onHub (.work 1 0 .queued none),
    .onHub (.work 1 0 .queued none), .onHub (.receive 2 ⟨1, .parent, 1⟩ strayReply),
    .onHub (.work 2 0 .queued none), .handle 2 0 {}, .handle 2 0 {}]

def strayLog : List Record :=
  [.accepted 1 ⟨3, .child, 1⟩ none strayReply, .sent 1 2 (some ⟨3, .child, 1⟩) strayReply,
    .accepted 2 ⟨1, .parent, 1⟩ (some ⟨1, 1⟩) strayReply,
    .handling 2 (some ⟨1, .parent, 1⟩) strayReply, .authorized 2 strayReply .unasked]

/-- The owner handles the frame in its own name, and lets it pass although no policy
grants anything. -/
theorem strayReply_handled :
    .handling 2 (some ⟨1, .parent, 1⟩) strayReply ∈
        (strayRun.foldl (Estate.step ⟨fun _ => true, fun _ => []⟩ plainWire)
          (start (fun _ => denyAll) fun _ => 1024)).log ∧
      Injected (strayRun.foldl (Estate.step ⟨fun _ => true, fun _ => []⟩ plainWire)
          (start (fun _ => denyAll) fun _ => 1024)).log 2 ⟨1, .parent, 1⟩ strayReply ∧
      strayReply.phase = .response ∧ strayReply.subject = 2 ∧
      .authorized 2 strayReply .unasked ∈
        (strayRun.foldl (Estate.step ⟨fun _ => true, fun _ => []⟩ plainWire)
          (start (fun _ => denyAll) fun _ => 1024)).log := by
  have hlog : (strayRun.foldl (Estate.step ⟨fun _ => true, fun _ => []⟩ plainWire)
      (start (fun _ => denyAll) fun _ => 1024)).log = strayLog := rfl
  rw [hlog]
  refine ⟨mem_of_getElem? (i := 3) rfl, ?_, rfl, rfl, mem_of_getElem? (i := 4) rfl⟩
  have hfirst : Injected strayLog 1 ⟨3, .child, 1⟩ strayReply :=
    .child (mem_of_getElem? (i := 0) rfl) rfl
  exact .hop hfirst (.refl _) (mem_of_getElem? (i := 1) rfl)
    (mem_of_getElem? (i := 2) rfl) rfl

end Routing
