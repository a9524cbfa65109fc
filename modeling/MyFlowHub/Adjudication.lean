/-
Control frames are adjudicated.

All nodes are honest: they run the stages of `Routing` on what they receive.  What
arrives on a child link is arbitrary, what arrives on a parent link has been sent by
the parent.  Trees, policies and sessions change at any time.

The run keeps a log of what happened.  A `Trail` is a piece of it that explains a
control frame: an ancestor made the frame itself, or got it as a request and asked its
policy, and from there every hop was taken by the recorded parent of the next node.

* `trail_of_control` — every control frame that a node accepts from its parent has a
  trail, and nothing from a child link is sent down in the node's own name.
-/
import MyFlowHub.Routing
import MyFlowHub.Sessions

open Std Function Tables Auth TreeState Runs List

namespace Routing

inductive Event where
  /-- the node's own code made the envelope -/
  | created (n : NodeID) (e : Envelope)
  /-- the envelope passed the inbound check; `parent` is the node's recorded parent -/
  | received (n : NodeID) (s : PeerSession) (parent : Option NodeID) (e : Envelope)
  /-- the node's policy granted the request -/
  | authorized (n : NodeID) (policy : Policy) (request : Request)
  /-- the envelope was queued for `next`; frames of the link layer have no direction -/
  | sent (n next : NodeID) (inbound : Option PeerSession) (kind : Option Direction) (e : Envelope)

/-- The envelope has been sent from `n` to `next`. -/
def Event.isSent (n next : NodeID) (e : Envelope) : Event → Bool
  | .sent n' next' _ _ e' => n' = n ∧ next' = next ∧ e' = e
  | _ => false

/-- Nodes, the `routeEnvelope` calls under way, and the sessions: those the tree has
accepted and those whose `runSession` is running. -/
structure Hub where
  node : NodeID → Node
  tasks : NodeID → List Task
  admitted : NodeID → List PeerSession
  running : NodeID → List PeerSession
  log : List Event

inductive Act where
  /-- any change of the tree, by any goroutine and with any arguments -/
  | mutate (n : NodeID) (m : Mutator)
  | setPolicy (n : NodeID) (policy : Policy)
  | close (n : NodeID)
  /-- the cleanups of forwarded subscriptions -/
  | forget (n : NodeID) (id : MessageID)
  | cancel (n : NodeID) (current : ForwardedSubscription) (id : MessageID)
  /-- `ConnectParent` and `acceptChild`: the tree accepts the peer, then the session
  is registered -/
  | attach (n : NodeID) (s : PeerSession)
  | publish (n : NodeID) (s : PeerSession)
  | endSession (n : NodeID) (s : PeerSession)
  /-- a client call or a local handler makes an envelope and routes it -/
  | create (n : NodeID) (e : Envelope)
  /-- heartbeats, join frames and route events go to a session directly -/
  | emit (n next : NodeID) (e : Envelope)
  | receive (n : NodeID) (s : PeerSession) (e : Envelope)
  /-- one stage of one `routeEnvelope` call -/
  | work (n : NodeID) (i : ℕ) (result : SendResult) (id : Option MessageID)

def Act.node : Act → NodeID
  | .mutate n _ | .setPolicy n _ | .close n | .forget n _ | .cancel n _ _ | .attach n _
  | .publish n _ | .endSession n _ | .create n _ | .emit n _ _ | .receive n _ _ | .work n _ _ _ => n

namespace Hub

/-- Nodes without peers, each with some policy and some limit. -/
def start (policies : NodeID → Policy) (limits : NodeID → ℕ) : Hub where
  node n := { id := n, tree := fresh n, policy := policies n, maxPending := limits n }
  tasks _ := []
  admitted _ := []
  running _ := []
  log := []

variable (os : Platform) (h : Hub)

def setNode (n : NodeID) (node : Node) : Hub := { h with node := update h.node n node }

def setTasks (n : NodeID) (tasks : List Task) : Hub := { h with tasks := update h.tasks n tasks }

def record (events : List Event) : Hub := { h with log := h.log ++ events }

/-- A new `routeEnvelope` call for an envelope of the node. -/
def originate (n : NodeID) (e : Envelope) : Hub :=
  (h.setTasks n (.lookup none e :: h.tasks n)).record [.created n e]

/-- The end of a stage; the call was taken off the list of tasks. -/
def finish (n : NodeID) (id : Option MessageID) : Outcome → Hub
  | .proceed task => h.setTasks n (task :: h.tasks n)
  | .respond request code message =>
    match (h.node n).failureResponse os request ⟨code, message, false, []⟩ id with
    | none => h
    | some response => h.originate n response
  | .handle | .stop _ => h

def workStep (n : NodeID) (task : Task) (result : SendResult) (id : Option MessageID) : Hub :=
  match task with
  | .lookup inbound e =>
    let (node, outcome) := (h.node n).lookup inbound e
    (h.setNode n node).finish os n id outcome
  | .forward inbound route e => h.finish os n id ((h.node n).forward inbound route e)
  | .adjudicate inbound route e =>
    let (granted, outcome) := (h.node n).adjudicate os inbound route e
    (h.record (granted.toList.map (.authorized n (h.node n).policy))).finish os n id outcome
  | .track inbound route e =>
    let (node, outcome) := (h.node n).track inbound route e
    (h.setNode n node).finish os n id outcome
  | .transmit inbound route e trackedSubscribe untrackAfterSend =>
    let (sent, node, outcome) :=
      (h.node n).transmit inbound route e trackedSubscribe untrackAfterSend result
    let events := if sent then [.sent n route.nextHop inbound (some route.kind) e] else []
    ((h.setNode n node).record events).finish os n id outcome

/-- The tree's answer to a joining peer. -/
def admitTree (t : TreeState) (s : PeerSession) : Except TreeError TreeState :=
  match s.role with
  | .parent => t.activateParent s.peer s.epoch
  | .child => (Overlay.Net.attachOrReattach t s.peer s.epoch).map Prod.snd

/-- The inbound check of `runSession`. -/
def inboundError (t : TreeState) (s : PeerSession) (e : Envelope) : Option InboundError :=
  match s.role with
  | .child => validateInboundChild t s.peer s.epoch e
  | .parent => validateInboundParent t s.peer e

/-- `runSession` ends: the session leaves the table if it is the registered one. -/
def dropSession (n : NodeID) (s : PeerSession) : Hub :=
  let node := h.node n
  { h with
    running := update h.running n ((h.running n).erase s)
    node := update h.node n
      (if node.sessions[s.peer]? = some s then
        { node with sessions := node.sessions.erase s.peer }
      else node) }

/-- One round of `runSession` and the dispatch of `handleInbound`.  Route events change
the tree, which is a step of its own. -/
def receiveStep (n : NodeID) (s : PeerSession) (e : Envelope) : Hub :=
  match inboundError (h.node n).tree s e with
  | some _ => h.dropSession n s
  | none =>
    let h' := h.record [.received n s ((h.node n).tree.parent.map Edge.node) e]
    if e.operation = .heartbeat ∨ e.operation = .routeAnnounce ∨ e.operation =
      .routeWithdraw then h'
    else h'.setTasks n (.lookup (some s) e :: h.tasks n)

/-- The state after a step of node `n`, if the step is possible. -/
def step? : Act → Option Hub
  | .mutate n m => some (h.setNode n { h.node n with tree := (h.node n).tree.apply m })
  | .setPolicy n policy => some (h.setNode n { h.node n with policy := policy })
  | .close n => some (h.setNode n { h.node n with closed := true })
  | .forget n id =>
    some (h.setNode n { h.node n with forwarded := (h.node n).forwarded.erase id })
  | .cancel n current id => some (h.originate n ((h.node n).cancelEnvelope current id))
  | .attach n s =>
    match admitTree (h.node n).tree s with
    | .error _ => none
    | .ok t =>
      some { h.setNode n { h.node n with tree := t } with
        admitted := update h.admitted n (s :: h.admitted n) }
  | .publish n s =>
    if s ∈ h.admitted n ∧ (h.node n).closed = false then
      some { h.setNode n ((h.node n).register s) with
        running := update h.running n (s :: h.running n) }
    else none
  | .endSession n s => some (h.dropSession n s)
  | .create n e => if e.source = n ∧ e.phase ≠ .control then some (h.originate n e) else none
  | .emit n next e =>
    if e.source = n ∧ e.phase ≠ .control then some (h.record [.sent n next none none e]) else none
  | .receive n s e =>
    if s ∈ h.running n ∧ (s.role = .parent → h.log.any (Event.isSent s.peer n e) = true) then
      some (h.receiveStep n s e)
    else none
  | .work n i result id =>
    match (h.tasks n)[i]? with
    | none => none
    | some task => some ((h.setTasks n ((h.tasks n).eraseIdx i)).workStep os n task result id)

/-- A step that is not possible, or of the identifier zero, changes nothing. -/
def step (h : Hub) (a : Act) : Hub := if a.node = 0 then h else (h.step? os a).getD h

end Hub

/-! ### Trails -/

/-- The events that bring `e` from the node `a` to another node: `a` made it or asked
its policy for it, and from there each node accepted it as control from its recorded
parent. -/
inductive Trail (e : Envelope) (a : NodeID) : NodeID → List Event → Prop
  | created {e₀} (hsame : e₀.Same e) : Trail e a a [.created a e₀]
  | adjudicated {s p e₀ policy r} (hphase : e₀.phase = .request) (hsame : e₀.Same e)
      (hsubject : r.subject = e.subject) (hcapability : r.capability = e.capability)
      (hresource : r.resource = e.resource) (hgranted : policy.authorize r = none) :
      Trail e a a [.received a s p e₀, .authorized a policy r]
  | hop {m n t inbound s e₁} (htrail : Trail e a m t) (hphase : e₁.phase = .control)
      (hsame : e₁.Same e) (hpeer : s.peer = m) (hrole : s.role = .parent) :
      Trail e a n (t ++ [Event.sent m n inbound (some .down) e₁, .received n s (some m) e₁])

/-- The log explains how `e` came to node `n`. -/
def Traced (log : List Event) (n : NodeID) (e : Envelope) : Prop :=
  ∃ a t, Trail e a n t ∧ t.Sublist log

variable {e : Envelope} {log log' : List Event} {n : NodeID}

theorem Trail.congr {e' : Envelope} {a : NodeID} {t : List Event} (h : Trail e a n t)
    (hsame : e.Same e') : Trail e' a n t := by
  induction h with
  | created hs => exact .created (hs.trans hsame)
  | adjudicated hphase hs hsubject hcapability hresource hgranted =>
    exact .adjudicated hphase (hs.trans hsame) (hsubject.trans hsame.1)
      (hcapability.trans hsame.2.1) (hresource.trans hsame.2.2.1) hgranted
  | hop _ hphase hs hpeer hrole ih => exact .hop ih hphase (hs.trans hsame) hpeer hrole

theorem Traced.congr {e' : Envelope} (h : Traced log n e) (hsame : e.Same e') :
    Traced log n e' := by
  obtain ⟨a, t, htrail, hsub⟩ := h
  exact ⟨a, t, htrail.congr hsame, hsub⟩

theorem Traced.mono (h : Traced log n e) (hlog : log.Sublist log') : Traced log' n e := by
  obtain ⟨a, t, htrail, hsub⟩ := h
  exact ⟨a, t, htrail, hsub.trans hlog⟩

/-! ### What the log and the tasks satisfy -/

/-- An envelope from a child link does not speak for the node. -/
def Foreign (n : NodeID) (inbound : Option PeerSession) (e : Envelope) : Prop :=
  ∀ s, inbound = some s → s.role = .child → e.subject ≠ n

/-- What the entries before an event say about it. -/
def Explained (log : List Event) : Event → Prop
  | .sent m _ inbound kind e =>
    (e.phase = .control → kind = some .down ∧ Traced log m e) ∧ Foreign m inbound e
  | .received n s p e => e.phase = .control →
      s.role = .parent ∧ p = some s.peer ∧ ∃ a t inbound, Trail e a s.peer t ∧
        (t ++ [Event.sent s.peer n inbound (some .down) e]).Sublist log
  | _ => True

theorem Explained.traced {s : PeerSession} {p : Option NodeID}
    (h : Explained log (.received n s p e)) (hcontrol : e.phase = .control) :
    Traced (log ++ [.received n s p e]) n e := by
  obtain ⟨hrole, rfl, a, t, inbound, htrail, hsub⟩ := h hcontrol
  refine ⟨a, t ++ [.sent s.peer n inbound (some .down) e, .received n s (some s.peer) e],
    .hop htrail hcontrol (.refl e) rfl hrole, ?_⟩
  have happend := hsub.append (List.Sublist.refl [.received n s (some s.peer) e])
  rwa [append_assoc] at happend

/-- An envelope before the adjudication. -/
def Vetted (log : List Event) (n : NodeID) (inbound : Option PeerSession) (e : Envelope) : Prop :=
  (e.phase = .control → Traced log n e) ∧
    (e.phase = .request → Traced log n e ∨ e.subject ≠ n ∧ ∃ s p, .received n s p e ∈ log) ∧
    Foreign n inbound e

def Known (log : List Event) (n : NodeID) : Task → Prop
  | .lookup inbound e => Vetted log n inbound e
  | .forward inbound _ e => Vetted log n inbound e
  | .adjudicate inbound route e => Vetted log n inbound e ∧ route.kind = .down
  | .track inbound route e => Traced log n e ∧ Foreign n inbound e ∧ route.kind = .down
  | .transmit inbound route e _ _ =>
    (e.phase = .control → route.kind = .down ∧ Traced log n e) ∧ Foreign n inbound e

theorem Vetted.mono {inbound : Option PeerSession} (h : Vetted log n inbound e)
    (hlog : log.Sublist log') : Vetted log' n inbound e := by
  obtain ⟨hcontrol, hrequest, hforeign⟩ := h
  refine ⟨fun hc => (hcontrol hc).mono hlog, fun hr => ?_, hforeign⟩
  rcases hrequest hr with htraced | ⟨hsubject, s, p, hmem⟩
  · exact Or.inl (htraced.mono hlog)
  · exact Or.inr ⟨hsubject, s, p, hlog.subset hmem⟩

theorem Known.mono {task : Task} (h : Known log n task) (hlog : log.Sublist log') :
    Known log' n task := by
  cases task with
  | lookup => exact Vetted.mono h hlog
  | forward => exact Vetted.mono h hlog
  | adjudicate => exact ⟨Vetted.mono h.1 hlog, h.2⟩
  | track => exact ⟨h.1.mono hlog, h.2⟩
  | transmit => exact ⟨fun hc => ⟨(h.1 hc).1, (h.1 hc).2.mono hlog⟩, h.2⟩

structure Sound (h : Hub) : Prop where
  id : ∀ n, (h.node n).id = n
  localNode : ∀ n, (h.node n).tree.localNode = n
  wellFormed : ∀ n, n ≠ 0 → WellFormed (h.node n).tree
  admitted : ∀ n s, s ∈ h.admitted n → s.peer ≠ n
  running : ∀ n s, s ∈ h.running n → s.peer ≠ n
  tasks : ∀ n task, task ∈ h.tasks n → Known h.log n task
  log : Justified Explained h.log

theorem sound_start (policies : NodeID → Policy) (limits : NodeID → ℕ) :
    Sound (Hub.start policies limits) := by
  refine ⟨fun n => rfl, fun n => rfl, fun n hn => ?_, ?_, ?_, ?_, justified_nil _⟩
  · have hnew : TreeState.new n = .ok (fresh n) := by
      rw [TreeState.new, if_neg (by simpa [NodeID.valid] using hn)]
    exact wellFormed_new hnew
  · intro n s hs
    cases hs
  · intro n s hs
    cases hs
  · intro n task htask
    cases htask

/-! ### Every step keeps the invariant -/

section Keeps

variable {os : Platform} {h : Hub} {n : NodeID}

section

variable (hs : Sound h)
include hs

theorem Sound.setNode (node : Node) (hid : node.id = n) (hlocal : node.tree.localNode = n)
    (hwf : n ≠ 0 → WellFormed node.tree) : Sound (h.setNode n node) := by
  have hall : ∀ m, ((h.setNode n node).node m).id = m ∧
      ((h.setNode n node).node m).tree.localNode = m ∧
      (m ≠ 0 → WellFormed ((h.setNode n node).node m).tree) := by
    intro m
    show (update h.node n node m).id = m ∧ (update h.node n node m).tree.localNode = m ∧
      (m ≠ 0 → WellFormed (update h.node n node m).tree)
    by_cases hm : m = n
    · subst hm
      rw [update_self]
      exact ⟨hid, hlocal, hwf⟩
    · rw [update_of_ne hm]
      exact ⟨hs.id m, hs.localNode m, hs.wellFormed m⟩
  exact ⟨fun m => (hall m).1, fun m => (hall m).2.1, fun m => (hall m).2.2, hs.admitted,
    hs.running, hs.tasks, hs.log⟩

theorem Sound.setNode_of_eq (node : Node)
    (hkeep : node.id = (h.node n).id ∧ node.tree = (h.node n).tree) : Sound (h.setNode n node) := by
  refine hs.setNode node (hkeep.1.trans (hs.id n)) ?_ ?_
  · rw [hkeep.2]
    exact hs.localNode n
  · rw [hkeep.2]
    exact hs.wellFormed n

theorem Sound.setTasks {tasks : List Task} (hknown : ∀ task ∈ tasks, Known h.log n task) :
    Sound (h.setTasks n tasks) := by
  refine { hs with tasks := ?_ }
  intro m task htask
  by_cases hm : m = n
  · subst hm
    simp only [Hub.setTasks, update_self] at htask
    exact hknown task htask
  · simp only [Hub.setTasks, update_of_ne hm] at htask
    exact hs.tasks m task htask

theorem Sound.record {ev : Event} (hev : Explained h.log ev) : Sound (h.record [ev]) := by
  refine { hs with tasks := ?_, log := hs.log.concat hev }
  intro m task htask
  exact (hs.tasks m task htask).mono (sublist_append_left _ _)

theorem Sound.record_nil : Sound (h.record []) := by
  have hsame : h.record [] = h := by
    unfold Hub.record
    rw [append_nil]
  rw [hsame]
  exact hs

theorem Sound.originate (n : NodeID) (e : Envelope) : Sound (h.originate n e) := by
  have hrecord : Sound (h.record [.created n e]) := hs.record trivial
  have htraced : Traced (h.log ++ [.created n e]) n e :=
    ⟨n, _, .created (.refl e), sublist_append_right _ _⟩
  refine hrecord.setTasks (n := n) fun task htask => ?_
  rcases mem_cons.mp htask with rfl | htask
  · exact ⟨fun _ => htraced, fun _ => Or.inl htraced, fun s hc => by cases hc⟩
  · exact hrecord.tasks n task htask

theorem Sound.finish {outcome : Outcome} (id : Option MessageID)
    (hproceed : ∀ task, outcome = .proceed task → Known h.log n task) :
    Sound (h.finish os n id outcome) := by
  cases outcome with
  | proceed task =>
    refine hs.setTasks fun task' htask => ?_
    rcases mem_cons.mp htask with rfl | htask
    · exact hproceed _ rfl
    · exact hs.tasks n task' htask
  | respond request code message =>
    show Sound (match (h.node n).failureResponse os request ⟨code, message, false, []⟩ id with
      | none => h
      | some response => h.originate n response)
    split
    · exact hs
    · exact hs.originate n _
  | handle => exact hs
  | stop => exact hs

theorem Sound.workStep {task : Task} (hknown : Known h.log n task) (result : SendResult)
    (id : Option MessageID) : Sound (h.workStep os n task result id) := by
  cases task with
  | lookup inbound e =>
    refine (hs.setNode_of_eq _ (Node.lookup_id_tree inbound e)).finish id fun task htask => ?_
    obtain ⟨route, rfl⟩ := Node.lookup_proceed htask
    exact hknown
  | forward inbound route e =>
    obtain ⟨hcontrol, hrequest, hforeign⟩ := hknown
    refine hs.finish id fun task htask => ?_
    rcases Node.forward_proceed htask with ⟨rfl, -, hdown⟩ | ⟨e', rfl, hsame, hpromoted⟩
    · exact ⟨⟨hcontrol, hrequest, hforeign⟩, hdown⟩
    · refine ⟨fun hc => ⟨(hpromoted hc).1, ?_⟩, fun s hin hrole => ?_⟩
      · refine Traced.congr ?_ hsame.symm
        rcases (hpromoted hc).2 with hphase | ⟨hphase, hself⟩
        · exact hcontrol hphase
        · -- a request in the node's own name did not come from a peer
          rcases hrequest hphase with htraced | ⟨hother, -⟩
          · exact htraced
          · exact absurd (hself.trans (hs.id n)) hother
      · rw [hsame.1]
        exact hforeign s hin hrole
  | adjudicate inbound route e =>
    obtain ⟨⟨-, hrequest, hforeign⟩, hdown⟩ := hknown
    have hrecord : Sound (h.record (((h.node n).adjudicate os inbound route e).1.toList.map
        (.authorized n (h.node n).policy))) := by
      cases ((h.node n).adjudicate os inbound route e).1 with
      | none => exact hs.record_nil
      | some granted => exact hs.record trivial
    refine hrecord.finish id fun task htask => ?_
    obtain ⟨granted, hgranted, hok, hnext⟩ := Node.adjudicate_proceed htask
    obtain ⟨hphase, hallowed, hsubject, hcapability, hresource, -⟩ := authorizeRequest_eq_ok hok
    -- the request the policy granted is the received one
    have htraced : Traced (h.log ++ [.authorized n (h.node n).policy granted]) n e := by
      rcases hrequest hphase with htraced | ⟨-, s, p, hmem⟩
      · exact htraced.mono (sublist_append_left _ _)
      · refine ⟨n, [.received n s p e, .authorized n (h.node n).policy granted],
          .adjudicated hphase (.refl e) hsubject hcapability hresource hallowed, ?_⟩
        exact (singleton_sublist.mpr hmem).append (List.Sublist.refl _)
    rw [hgranted]
    rcases hnext with rfl | ⟨e', untrackAfterSend, rfl, -, hsame⟩
    · exact ⟨htraced, hforeign, hdown⟩
    · refine ⟨fun _ => ⟨hdown, htraced.congr hsame.symm⟩, fun s hin hrole => ?_⟩
      rw [hsame.1]
      exact hforeign s hin hrole
  | track inbound route e =>
    obtain ⟨htraced, hforeign, hdown⟩ := hknown
    refine (hs.setNode_of_eq _ (Node.track_id_tree inbound route e)).finish id fun task htask => ?_
    obtain ⟨e', rfl, -, hsame⟩ := Node.track_proceed htask
    refine ⟨fun _ => ⟨hdown, htraced.congr hsame.symm⟩, fun s hin hrole => ?_⟩
    rw [hsame.1]
    exact hforeign s hin hrole
  | transmit inbound route e trackedSubscribe untrackAfterSend =>
    obtain ⟨hcontrol, hforeign⟩ := hknown
    obtain ⟨sent, node, outcome, heq⟩ : ∃ sent node outcome, (h.node n).transmit inbound route e
        trackedSubscribe untrackAfterSend result = (sent, node, outcome) := ⟨_, _, _, rfl⟩
    obtain ⟨hid, htree, hstop⟩ := Node.transmit_spec heq
    have hnode := hs.setNode_of_eq (n := n) node ⟨hid, htree⟩
    show Sound (match (h.node n).transmit inbound route e trackedSubscribe untrackAfterSend
      result with
      | (sent, node, outcome) => ((h.setNode n node).record
          (if sent then [.sent n route.nextHop inbound (some route.kind) e] else [])).finish os n id
            outcome)
    rw [heq]
    have hrecord : Sound ((h.setNode n node).record
        (if sent then [.sent n route.nextHop inbound (some route.kind) e] else [])) := by
      split_ifs
      · refine hnode.record ⟨fun hc => ?_, hforeign⟩
        obtain ⟨hdown, htraced⟩ := hcontrol hc
        rw [hdown]
        exact ⟨rfl, htraced⟩
      · exact hnode.record_nil
    exact hrecord.finish id fun task htask => absurd htask (hstop task)

theorem Sound.dropSession (n : NodeID) (s : PeerSession) : Sound (h.dropSession n s) := by
  have hnode := hs.setNode_of_eq (n := n) (if (h.node n).sessions[s.peer]? = some s then
    { h.node n with sessions := (h.node n).sessions.erase s.peer } else h.node n) (by
      split_ifs <;> exact ⟨rfl, rfl⟩)
  refine ⟨hnode.id, hnode.localNode, hnode.wellFormed, hs.admitted, ?_, hs.tasks, hs.log⟩
  intro m s' hs'
  simp only [Hub.dropSession] at hs'
  by_cases hm : m = n
  · subst hm
    rw [update_self] at hs'
    exact hs.running m s' (mem_of_mem_erase hs')
  · rw [update_of_ne hm] at hs'
    exact hs.running m s' hs'

theorem Sound.trail_of_sent {m : NodeID} {e : Envelope}
    (hsent : h.log.any (Event.isSent m n e) = true) (hcontrol : e.phase = .control) :
    ∃ a t inbound, Trail e a m t ∧
      (t ++ [Event.sent m n inbound (some .down) e]).Sublist h.log := by
  obtain ⟨ev, hmem, hev⟩ := any_eq_true.mp hsent
  cases ev with
  | sent m' n' inbound kind e' =>
    obtain ⟨rfl, rfl, rfl⟩ := of_decide_eq_true hev
    obtain ⟨pre, post, hlog⟩ := append_of_mem hmem
    obtain ⟨rfl, a, t, htrail, hsub⟩ := (hs.log pre _ post hlog).1 hcontrol
    refine ⟨a, t, inbound, htrail, ?_⟩
    rw [hlog]
    exact hsub.append (singleton_sublist.mpr mem_cons_self)
  | _ => cases hev

theorem Sound.receiveStep (hn : n ≠ 0) {s : PeerSession} {e : Envelope} (hrunning : s ∈ h.running n)
    (hsent : s.role = .parent → h.log.any (Event.isSent s.peer n e) = true) :
    Sound (h.receiveStep n s e) := by
  unfold Hub.receiveStep
  cases hcheck : Hub.inboundError (h.node n).tree s e with
  | some err => exact hs.dropSession n s
  | none =>
    have hwf := hs.wellFormed n hn
    -- a child never speaks for the node, and only the parent sends control
    have hfacts : (e.phase = .control → s.role = .parent ∧
          (h.node n).tree.parent.map Edge.node = some s.peer) ∧
        (e.phase = .request → e.subject ≠ n) ∧ (s.role = .child → e.subject ≠ n) := by
      unfold Hub.inboundError at hcheck
      cases hrole : s.role with
      | child =>
        rw [hrole] at hcheck
        obtain ⟨hcontrol, hsubject⟩ := subject_ne_of_child hwf hcheck
        rw [hs.localNode n] at hsubject
        exact ⟨fun hc => absurd hc hcontrol, fun _ => hsubject, fun _ => hsubject⟩
      | parent =>
        rw [hrole] at hcheck
        refine ⟨fun hc => ⟨rfl, ?_⟩, fun hr => ?_, fun hc => by cases hc⟩
        · obtain ⟨epoch, hparent⟩ := parent_of_control hcheck hc
          rw [hparent]
          rfl
        · rw [subject_of_parent hcheck hr]
          exact hs.running n s hrunning
    obtain ⟨hcontrol, hrequest, hchild⟩ := hfacts
    have hexplained : Explained h.log
        (.received n s ((h.node n).tree.parent.map Edge.node) e) := by
      intro hc
      obtain ⟨hrole, hparent⟩ := hcontrol hc
      rw [hparent]
      exact ⟨hrole, rfl, hs.trail_of_sent (hsent hrole) hc⟩
    have hrecord := hs.record hexplained
    dsimp only
    split_ifs
    · exact hrecord
    · refine hrecord.setTasks fun task htask => ?_
      rcases mem_cons.mp htask with rfl | htask
      · refine ⟨fun hc => hexplained.traced hc, fun hr => Or.inr ⟨hrequest hr, s,
          (h.node n).tree.parent.map Edge.node, ?_⟩, ?_⟩
        · exact mem_append_right _ (mem_singleton.mpr rfl)
        · rintro s' hs' hrole
          obtain rfl := Option.some.inj hs'
          exact hchild hrole
      · exact hrecord.tasks n task htask

end

theorem admitTree_spec {t t' : TreeState} (hwf : WellFormed t) {s : PeerSession}
    (hok : Hub.admitTree t s = .ok t') :
    WellFormed t' ∧ t'.localNode = t.localNode ∧ s.peer ≠ t.localNode := by
  unfold Hub.admitTree at hok
  cases hrole : s.role with
  | parent =>
    rw [hrole] at hok
    obtain ⟨hwf', hlocal, -⟩ := activateParent_spec hwf hok
    obtain ⟨-, -, hne, -⟩ := activateParent_eq_ok hok
    exact ⟨hwf', hlocal, hne⟩
  | child =>
    rw [hrole] at hok
    cases hattach : Overlay.Net.attachOrReattach t s.peer s.epoch with
    | error err =>
      rw [hattach] at hok
      cases hok
    | ok result =>
      rw [hattach] at hok
      cases hok
      obtain ⟨hwf', hlocal, hne, -⟩ := Overlay.Net.attachOrReattach_spec hwf hattach
      exact ⟨hwf', hlocal, hne⟩

theorem Sound.step? (hs : Sound h) {a : Act} (ha : a.node ≠ 0) {h' : Hub}
    (hstep : h.step? os a = some h') : Sound h' := by
  cases a with
  | mutate n m =>
    cases hstep
    refine hs.setNode _ (hs.id n) ?_ fun hn => wellFormed_apply (hs.wellFormed n hn) m
    rw [(apply_effect (h.node n).tree m).localNode_eq]
    exact hs.localNode n
  | setPolicy n policy =>
    cases hstep
    exact hs.setNode_of_eq _ ⟨rfl, rfl⟩
  | close n =>
    cases hstep
    exact hs.setNode_of_eq _ ⟨rfl, rfl⟩
  | forget n id =>
    cases hstep
    exact hs.setNode_of_eq _ ⟨rfl, rfl⟩
  | cancel n current id =>
    cases hstep
    exact hs.originate n _
  | attach n s =>
    simp only [Hub.step?] at hstep
    split at hstep
    · cases hstep
    · next t hok =>
      cases hstep
      obtain ⟨hwf, hlocal, hne⟩ := admitTree_spec (hs.wellFormed n ha) hok
      rw [hs.localNode n] at hlocal hne
      have hnode := hs.setNode (n := n) { h.node n with tree := t } (hs.id n) hlocal
        fun _ => hwf
      refine ⟨hnode.id, hnode.localNode, hnode.wellFormed, ?_, hs.running, hs.tasks, hs.log⟩
      intro m s' hs'
      by_cases hm : m = n
      · subst hm
        simp only [update_self] at hs'
        rcases mem_cons.mp hs' with rfl | hs'
        · exact hne
        · exact hs.admitted m s' hs'
      · simp only [update_of_ne hm] at hs'
        exact hs.admitted m s' hs'
  | publish n s =>
    simp only [Hub.step?] at hstep
    split_ifs at hstep with hcond
    cases hstep
    have hnode := hs.setNode_of_eq (n := n) ((h.node n).register s) ⟨rfl, rfl⟩
    refine ⟨hnode.id, hnode.localNode, hnode.wellFormed, hs.admitted, ?_, hs.tasks, hs.log⟩
    intro m s' hs'
    by_cases hm : m = n
    · subst hm
      simp only [update_self] at hs'
      rcases mem_cons.mp hs' with rfl | hs'
      · exact hs.admitted m s' hcond.1
      · exact hs.running m s' hs'
    · simp only [update_of_ne hm] at hs'
      exact hs.running m s' hs'
  | endSession n s =>
    cases hstep
    exact hs.dropSession n s
  | create n e =>
    simp only [Hub.step?] at hstep
    split_ifs at hstep
    cases hstep
    exact hs.originate n e
  | emit n next e =>
    simp only [Hub.step?] at hstep
    split_ifs at hstep with hcond
    cases hstep
    exact hs.record ⟨fun hc => absurd hc hcond.2, fun s hc => by cases hc⟩
  | receive n s e =>
    simp only [Hub.step?] at hstep
    split_ifs at hstep with hcond
    cases hstep
    exact hs.receiveStep ha hcond.1 hcond.2
  | work n i result id =>
    simp only [Hub.step?] at hstep
    split at hstep
    · cases hstep
    · next task htask =>
      cases hstep
      have hrest : Sound (h.setTasks n ((h.tasks n).eraseIdx i)) :=
        hs.setTasks fun task' htask' => hs.tasks n task' (mem_of_mem_eraseIdx htask')
      exact hrest.workStep (hs.tasks n task (mem_of_getElem? htask)) result id

theorem Sound.step (hs : Sound h) (a : Act) : Sound (h.step os a) := by
  unfold Hub.step
  split_ifs with ha
  · exact hs
  · cases hstep : h.step? os a with
    | none => exact hs
    | some h' => exact hs.step? ha hstep

theorem sound_run (os : Platform) (policies : NodeID → Policy) (limits : NodeID → ℕ)
    (as : List Act) : Sound (as.foldl (Hub.step os) (Hub.start policies limits)) :=
  foldl_invariant (fun _ a hs => hs.step a) (sound_start policies limits) as

end Keeps

/-- **Control frames are adjudicated.**  A control frame that node `n` accepts comes from
its recorded parent, over hops that leave subject, capability, resource, operation and
payload as they were, from an ancestor that made it or whose policy granted it when it
came as a request.  No frame from a child link is sent on in the node's own name. -/
theorem trail_of_control (os : Platform) (policies : NodeID → Policy) (limits : NodeID → ℕ)
    (as : List Act) :
    (∀ pre n s p e post, (as.foldl (Hub.step os) (Hub.start policies limits)).log =
        pre ++ .received n s p e :: post → e.phase = .control →
      s.role = .parent ∧ p = some s.peer ∧ ∃ a t inbound, Trail e a s.peer t ∧
        (t ++ [Event.sent s.peer n inbound (some .down) e]).Sublist pre) ∧
    ∀ n next s kind e, .sent n next (some s) kind e ∈
        (as.foldl (Hub.step os) (Hub.start policies limits)).log →
      s.role = .child → e.subject ≠ n := by
  have hs := sound_run os policies limits as
  refine ⟨fun pre n s p e post hlog hcontrol => hs.log pre _ post hlog hcontrol, ?_⟩
  intro n next s kind e hmem hrole
  obtain ⟨pre, post, hlog⟩ := append_of_mem hmem
  exact (hs.log pre _ post hlog).2 s rfl hrole

/-- Nodes 2 and 3 join node 1, and node 3 asks node 2 for an operation. -/
def siblingRequest : Envelope where
  phase := .request
  operation := .operate
  messageID := 7
  source := 3
  target := 2
  resource := ⟨2, "lamp"⟩
  capability := "invoke"

/-- The request as node 1 sends it down. -/
def siblingControl : Envelope := { siblingRequest with phase := .control, topologyEpoch := 1 }

def allowAll : Policy := ⟨fun _ => none, 1⟩

def siblingRun : List Act :=
  [.attach 1 ⟨2, .child, 1⟩, .publish 1 ⟨2, .child, 1⟩, .attach 1 ⟨3, .child, 1⟩,
    .publish 1 ⟨3, .child, 1⟩, .attach 2 ⟨1, .parent, 1⟩, .publish 2 ⟨1, .parent, 1⟩,
    .receive 1 ⟨3, .child, 1⟩ siblingRequest, .work 1 0 .queued none, .work 1 0 .queued none,
    .work 1 0 .queued none, .work 1 0 .queued none, .receive 2 ⟨1, .parent, 1⟩ siblingControl]

def siblingLog : List Event :=
  [.received 1 ⟨3, .child, 1⟩ none siblingRequest,
    .authorized 1 allowAll ⟨3, "invoke", "invoke", ⟨2, "lamp"⟩⟩,
    .sent 1 2 (some ⟨3, .child, 1⟩) (some .down) siblingControl]

theorem siblingControl_adjudicated :
    (∃ a t inbound, Trail siblingControl a 1 t ∧
      (t ++ [Event.sent 1 2 inbound (some .down) siblingControl]).Sublist siblingLog) ∧
    siblingControl.subject ≠ 1 := by
  have hlog : (siblingRun.foldl (Hub.step ⟨fun _ => true, fun _ => []⟩)
      (Hub.start (fun _ => allowAll) fun _ => 1024)).log =
      siblingLog ++ [.received 2 ⟨1, .parent, 1⟩ (some 1) siblingControl] := rfl
  obtain ⟨hreceived, hsent⟩ := trail_of_control ⟨fun _ => true, fun _ => []⟩ (fun _ => allowAll)
    (fun _ => 1024) siblingRun
  refine ⟨(hreceived siblingLog 2 ⟨1, .parent, 1⟩ (some 1) siblingControl [] hlog rfl).2.2, ?_⟩
  refine hsent 1 2 ⟨3, .child, 1⟩ (some .down) siblingControl ?_ rfl
  rw [hlog]
  exact mem_append_left _ (mem_of_getElem? (i := 2) rfl)

end Routing
