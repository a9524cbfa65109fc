/-
What one step of the nodes can do, said once for the invariants of `Mediation` and
`Revocation`.

* `Follows` — which stage of `routeEnvelope` comes after which, and under what condition;
* `mem_tasks_step?` — where a call under way comes from;
* `node_step?` — what happens to policies and tracked interests;
* `mem_log_step?` — where a frame that was sent comes from.
-/
import MyFlowHub.Handlers

open Std Function Tables Auth TreeState Runs List

/-- An envelope as a hop passes it on: unchanged, or promoted. -/
def Envelope.Moved (e' e : Envelope) : Prop :=
  e' = e ∨ ∃ epoch, e' = { e with phase := .control, topologyEpoch := epoch }

theorem Envelope.Moved.refl (e : Envelope) : e.Moved e := .inl rfl

theorem Envelope.Moved.fields {e e' : Envelope} (h : e'.Moved e) :
    e'.source = e.source ∧ e'.target = e.target ∧ e'.principal = e.principal ∧
      e'.operation = e.operation ∧ e'.messageID = e.messageID ∧
      e'.correlationID = e.correlationID ∧ e'.resource = e.resource ∧
      e'.capability = e.capability := by
  rcases h with rfl | ⟨epoch, rfl⟩ <;> exact ⟨rfl, rfl, rfl, rfl, rfl, rfl, rfl, rfl⟩

namespace Routing

open Hub

theorem promoteControl_moved {e e' : Envelope} {epoch : UInt64}
    (h : promoteControl e epoch = .ok e') : e'.phase = .control ∧ e'.Moved e := by
  unfold promoteControl at h
  split_ifs at h
  cases h
  exact ⟨rfl, .inr ⟨epoch, rfl⟩⟩

def isEvent (e : Envelope) : Prop := e.operation = .resourceEvent ∨ e.operation = .resourceGap

inductive Follows (os : Platform) (node : Node) : Task → Task → Prop
  | found {inbound route e} (hother : e.target ≠ node.id)
      (hroute : node.tree.routeTo e.target = .ok route) (hkind : route.kind ≠ .here)
      (hloop : ∀ s, inbound = some s → route.nextHop ≠ s.peer) :
      Follows os node (.lookup inbound e) (.forward inbound route e)
  | asks {inbound route e} (hphase : e.phase = .request) (hdown : route.kind = .down) :
      Follows os node (.forward inbound route e) (.adjudicate inbound route e)
  | passes {inbound route e e'} (hmoved : e'.Moved e)
      (hvetted : ∀ s, inbound = some s → s.role = .child → route.kind = .down → isEvent e →
        node.interested e = true)
      (hphase : e'.phase = .control → route.kind = .down ∧
        (e.phase = .control ∨ e.phase = .request ∧ e.subject = node.id))
      (hrequest : e'.phase = .request → route.kind ≠ .down) :
      Follows os node (.forward inbound route e) (.transmit inbound route e' false false)
  | tracks {inbound route e request} (hgranted : authorizeRequest os node.policy e = .ok request)
      (hoperation : e.operation = .subscribe) :
      Follows os node (.adjudicate inbound route e) (.track inbound route e)
  | granted {inbound route e e' request untrackAfterSend}
      (hgranted : authorizeRequest os node.policy e = .ok request)
      (hoperation : e.operation ≠ .subscribe) (hphase : e'.phase = .control) (hmoved : e'.Moved e) :
      Follows os node (.adjudicate inbound route e)
        (.transmit inbound route e' false untrackAfterSend)
  | tracked {inbound route e e'} (hphase : e'.phase = .control) (hmoved : e'.Moved e) :
      Follows os node (.track inbound route e) (.transmit inbound route e' true false)

section Stages

variable {os : Platform} {n : Node} {inbound : Option PeerSession} {route : Route} {e : Envelope}
  {task : Task}

theorem follows_lookup (h : (n.lookup inbound e).2 = .proceed task) :
    Follows os n (.lookup inbound e) task := by
  unfold Node.lookup at h
  by_cases hlocal : e.target = n.id
  · rw [if_pos hlocal] at h
    cases h
  rw [if_neg hlocal] at h
  dsimp only at h
  rw [(Node.untrackError_id_tree e).2] at h
  split at h
  · split_ifs at h
  · next route hroute =>
    split_ifs at h with hhere hloop
    cases h
    refine .found hlocal hroute hhere fun s hs heq => hloop ?_
    rw [hs]
    exact decide_eq_true heq

theorem promote_moved {untrackAfterSend : Bool}
    (h : Node.promote inbound route e untrackAfterSend = .proceed task) :
    ∃ e', task = .transmit inbound route e' false untrackAfterSend ∧ e'.phase = .control ∧
      e'.Moved e := by
  unfold Node.promote at h
  split at h
  · cases h
  · next e' hpromote =>
    cases h
    exact ⟨e', rfl, promoteControl_moved hpromote⟩

theorem follows_forward (h : n.forward inbound route e = .proceed task) :
    Follows os n (.forward inbound route e) task := by
  unfold Node.forward at h
  by_cases hdrop : inbound.any (·.role = .child) ∧ route.kind = .down ∧
      (e.operation = .resourceEvent ∨ e.operation = .resourceGap) ∧ n.interested e = false
  · rw [if_pos hdrop] at h
    cases h
  rw [if_neg hdrop] at h
  -- what was not dropped is no event between children, or somebody is interested in it
  have hvetted : ∀ s, inbound = some s → s.role = .child → route.kind = .down → isEvent e →
      n.interested e = true := by
    intro s hs hrole hdown hevent
    cases hinterested : n.interested e with
    | true => rfl
    | false =>
      refine absurd ⟨?_, hdown, hevent, hinterested⟩ hdrop
      rw [hs]
      exact decide_eq_true hrole
  by_cases hdown : route.kind = .down
  · rw [if_pos hdown] at h
    cases hphase : e.phase with
    | request =>
      rw [hphase] at h
      dsimp only at h
      by_cases hsubject : e.subject ≠ n.id
      · rw [if_pos hsubject] at h
        cases h
        exact .asks hphase hdown
      · rw [if_neg hsubject] at h
        obtain ⟨e', rfl, hcontrol, hmoved⟩ := promote_moved h
        refine .passes hmoved hvetted (fun _ => ⟨hdown, .inr ⟨hphase, not_not.mp hsubject⟩⟩)
          fun hc => ?_
        rw [hcontrol] at hc
        cases hc
    | control =>
      rw [hphase] at h
      obtain ⟨e', rfl, hcontrol, hmoved⟩ := promote_moved h
      refine .passes hmoved hvetted (fun _ => ⟨hdown, .inl hphase⟩) fun hc => ?_
      rw [hcontrol] at hc
      cases hc
    | response =>
      rw [hphase] at h
      cases h
      refine .passes (.refl e) hvetted (fun hc => ?_) fun hc => ?_
      · rw [hphase] at hc
        cases hc
      · rw [hphase] at hc
        cases hc
    | event =>
      rw [hphase] at h
      cases h
      refine .passes (.refl e) hvetted (fun hc => ?_) fun hc => ?_
      · rw [hphase] at hc
        cases hc
      · rw [hphase] at hc
        cases hc
  · rw [if_neg hdown] at h
    split_ifs at h with hcontrol
    cases h
    exact .passes (.refl e) hvetted (fun hc => absurd hc hcontrol) fun _ => hdown

theorem follows_adjudicate (h : (n.adjudicate os inbound route e).2 = .proceed task) :
    Follows os n (.adjudicate inbound route e) task := by
  unfold Node.adjudicate at h
  split at h
  · cases h
  · next request hgranted =>
    by_cases hsubscribe : e.operation = .subscribe
    · rw [if_pos hsubscribe] at h
      cases h
      exact .tracks hgranted hsubscribe
    · rw [if_neg hsubscribe] at h
      obtain ⟨e', rfl, hphase, hmoved⟩ := promote_moved h
      exact .granted hgranted hsubscribe hphase hmoved

theorem follows_track (h : (n.track inbound route e).2 = .proceed task) :
    Follows os n (.track inbound route e) task := by
  unfold Node.track at h
  split at h
  · cases h
  · split at h
    · cases h
    · next e' hpromote =>
      cases h
      obtain ⟨hphase, hmoved⟩ := promoteControl_moved hpromote
      exact .tracked hphase hmoved

end Stages

/-! ### The calls under way -/

/-- The envelopes a node makes: client calls, error responses, and the end of a forwarded
subscription. -/
structure Originated (a : Act) (n : NodeID) (e : Envelope) : Prop where
  source : e.source = n
  kind : a = .create n e ∨ e.operation = .error ∨ e.operation = .unsubscribe

inductive TaskOrigin (os : Platform) (h : Hub) (a : Act) (n : NodeID) : Task → Prop
  | old {task} (hmem : task ∈ h.tasks n) : TaskOrigin os h a n task
  | received {s e} (hact : a = .receive n s e) (hrunning : s ∈ h.running n)
      (hsent : s.role = .parent → h.log.any (Event.isSent s.peer n e) = true)
      (hcheck : Hub.inboundError (h.node n).tree s e = none) :
      TaskOrigin os h a n (.lookup (some s) e)
  | made {e} (hmade : Originated a n e) : TaskOrigin os h a n (.lookup none e)
  | stage {i result id task task'} (hact : a = .work n i result id)
      (htask : (h.tasks n)[i]? = some task) (hfollows : Follows os (h.node n) task task') :
      TaskOrigin os h a n task'

section Tasks

variable {os : Platform} {h : Hub} {task : Task}

theorem mem_tasks_originate {n n' : NodeID} {e : Envelope}
    (hmem : task ∈ (h.originate n e).tasks n') :
    task ∈ h.tasks n' ∨ n' = n ∧ task = .lookup none e := by
  by_cases hn : n' = n
  · subst hn
    simp only [originate, setTasks, record, update_self] at hmem
    rcases mem_cons.mp hmem with rfl | hmem
    · exact .inr ⟨rfl, rfl⟩
    · exact .inl hmem
  · simp only [originate, setTasks, record, update_of_ne hn] at hmem
    exact .inl hmem

theorem failureResponse_spec {node : Node} {request e : Envelope} {failure : ErrorPayload}
    {id : Option MessageID} (hsome : node.failureResponse os request failure id = some e) :
    e.source = node.id ∧ e.operation = .error ∧ e.phase = .response ∧ e.target =
      request.source := by
  unfold Node.failureResponse at hsome
  split_ifs at hsome
  obtain ⟨x, -, rfl⟩ := Option.map_eq_some_iff.mp hsome
  exact ⟨rfl, rfl, rfl, rfl⟩

theorem mem_tasks_finish {n n' : NodeID} {id : Option MessageID} {outcome : Outcome}
    (hmem : task ∈ (h.finish os n id outcome).tasks n') :
    task ∈ h.tasks n' ∨ n' = n ∧ (outcome = .proceed task ∨
      ∃ e, task = .lookup none e ∧ e.source = (h.node n).id ∧ e.operation = .error) := by
  cases outcome with
  | proceed next =>
    by_cases hn : n' = n
    · subst hn
      simp only [finish, setTasks, update_self] at hmem
      rcases mem_cons.mp hmem with rfl | hmem
      · exact .inr ⟨rfl, .inl rfl⟩
      · exact .inl hmem
    · simp only [finish, setTasks, update_of_ne hn] at hmem
      exact .inl hmem
  | respond request code message =>
    simp only [finish] at hmem
    split at hmem
    · exact .inl hmem
    · next response hresponse =>
      obtain ⟨hsource, herror, -, -⟩ := failureResponse_spec hresponse
      rcases mem_tasks_originate hmem with hmem | ⟨hn, rfl⟩
      · exact .inl hmem
      · exact .inr ⟨hn, .inr ⟨response, rfl, hsource, herror⟩⟩
  | handle => exact .inl hmem
  | stop error => exact .inl hmem

theorem mem_tasks_workStep {n n' : NodeID} {next : Task} {result : SendResult}
    {id : Option MessageID} (hmem : next ∈ (h.workStep os n task result id).tasks n') :
    next ∈ h.tasks n' ∨ n' = n ∧ (Follows os (h.node n) task next ∨
      ∃ e, next = .lookup none e ∧ e.source = (h.node n).id ∧ e.operation = .error) := by
  have hself : ∀ node : Node, (h.setNode n node).node n = node := fun node => by
    show update h.node n node n = node
    rw [update_self]
  cases task with
  | lookup inbound e =>
    have hmem : next ∈ ((h.setNode n ((h.node n).lookup inbound e).1).finish os n id
      ((h.node n).lookup inbound e).2).tasks n' := hmem
    rcases mem_tasks_finish hmem with hmem | ⟨hn, hproceed | ⟨e', rfl, hsource, herror⟩⟩
    · exact .inl hmem
    · exact .inr ⟨hn, .inl (follows_lookup hproceed)⟩
    · rw [hself, (Node.lookup_id_tree inbound e).1] at hsource
      exact .inr ⟨hn, .inr ⟨e', rfl, hsource, herror⟩⟩
  | forward inbound route e =>
    rcases mem_tasks_finish hmem with hmem | ⟨hn, hproceed | hmade⟩
    · exact .inl hmem
    · exact .inr ⟨hn, .inl (follows_forward hproceed)⟩
    · exact .inr ⟨hn, .inr hmade⟩
  | adjudicate inbound route e =>
    rcases mem_tasks_finish hmem with hmem | ⟨hn, hproceed | hmade⟩
    · exact .inl hmem
    · exact .inr ⟨hn, .inl (follows_adjudicate hproceed)⟩
    · exact .inr ⟨hn, .inr hmade⟩
  | track inbound route e =>
    have hmem : next ∈ ((h.setNode n ((h.node n).track inbound route e).1).finish os n id
      ((h.node n).track inbound route e).2).tasks n' := hmem
    rcases mem_tasks_finish hmem with hmem | ⟨hn, hproceed | ⟨e', rfl, hsource, herror⟩⟩
    · exact .inl hmem
    · exact .inr ⟨hn, .inl (follows_track hproceed)⟩
    · rw [hself, (Node.track_id_tree inbound route e).1] at hsource
      exact .inr ⟨hn, .inr ⟨e', rfl, hsource, herror⟩⟩
  | transmit inbound route e trackedSubscribe untrackAfterSend =>
    obtain ⟨sent, node, outcome, heq⟩ : ∃ sent node outcome, (h.node n).transmit inbound route e
        trackedSubscribe untrackAfterSend result = (sent, node, outcome) := ⟨_, _, _, rfl⟩
    obtain ⟨hid, -, hstop⟩ := Node.transmit_spec heq
    simp only [workStep, heq] at hmem
    rcases mem_tasks_finish hmem with hmem | ⟨hn, hproceed | ⟨e', rfl, hsource, herror⟩⟩
    · exact .inl hmem
    · exact absurd hproceed (hstop next)
    · have hsource : e'.source = ((h.setNode n node).node n).id := hsource
      rw [hself, hid] at hsource
      exact .inr ⟨hn, .inr ⟨e', rfl, hsource, herror⟩⟩

/-- **Where a call under way comes from.** -/
theorem mem_tasks_step? {a : Act} {h' : Hub} (hid : ∀ n, (h.node n).id = n)
    (hstep : h.step? os a = some h') {n : NodeID} (hmem : task ∈ h'.tasks n) :
    TaskOrigin os h a n task := by
  cases a with
  | mutate m x => cases hstep; exact .old hmem
  | setPolicy m policy => cases hstep; exact .old hmem
  | close m => cases hstep; exact .old hmem
  | forget m id => cases hstep; exact .old hmem
  | cancel m current id =>
    cases hstep
    rcases mem_tasks_originate hmem with hmem | ⟨rfl, rfl⟩
    · exact .old hmem
    · exact .made ⟨hid n, .inr (.inr rfl)⟩
  | attach m s =>
    simp only [step?] at hstep
    split at hstep
    · cases hstep
    · cases hstep
      exact .old hmem
  | publish m s =>
    simp only [step?] at hstep
    split_ifs at hstep
    cases hstep
    exact .old hmem
  | endSession m s => cases hstep; exact .old hmem
  | create m e =>
    simp only [step?] at hstep
    split_ifs at hstep with hcond
    cases hstep
    rcases mem_tasks_originate hmem with hmem | ⟨rfl, rfl⟩
    · exact .old hmem
    · exact .made ⟨hcond.1, .inl rfl⟩
  | emit m next e =>
    simp only [step?] at hstep
    split_ifs at hstep
    cases hstep
    exact .old hmem
  | receive m s e =>
    simp only [step?] at hstep
    split_ifs at hstep with hcond
    cases hstep
    unfold receiveStep at hmem
    cases hcheck : inboundError (h.node m).tree s e with
    | some err =>
      rw [hcheck] at hmem
      exact .old hmem
    | none =>
      rw [hcheck] at hmem
      dsimp only at hmem
      split_ifs at hmem
      · exact .old hmem
      · by_cases hn : n = m
        · subst hn
          simp only [setTasks, record, update_self] at hmem
          rcases mem_cons.mp hmem with rfl | hmem
          · exact .received rfl hcond.1 hcond.2 hcheck
          · exact .old hmem
        · simp only [setTasks, record, update_of_ne hn] at hmem
          exact .old hmem
  | work m i result id =>
    simp only [step?] at hstep
    split at hstep
    · cases hstep
    · next t ht =>
      cases hstep
      have hrest : ∀ {x}, x ∈ (h.setTasks m ((h.tasks m).eraseIdx i)).tasks n → x ∈ h.tasks n := by
        intro x hx
        by_cases hn : n = m
        · subst hn
          simp only [setTasks, update_self] at hx
          exact mem_of_mem_eraseIdx hx
        · simpa only [setTasks, update_of_ne hn] using hx
      rcases mem_tasks_workStep hmem with hmem | ⟨rfl, hfollows | ⟨e, rfl, hsource, herror⟩⟩
      · exact .old (hrest hmem)
      · exact .stage rfl ht hfollows
      · exact .made ⟨hsource.trans (hid n), .inr (.inl herror)⟩

end Tasks

/-! ### Nodes and the log -/

section Nodes

variable {os : Platform} {h : Hub}

/-- What a step leaves of a node: its policy, unless it is replaced, and its interests,
unless one is tracked. -/
structure Keeps (node node' : Node) : Prop where
  policy : node'.policy = node.policy
  forwarded : ∀ (id : MessageID) x, node'.forwarded[id]? = some x → node.forwarded[id]? = some x

section

variable (node : Node)

theorem Keeps.refl : Keeps node node := ⟨rfl, fun _ _ hx => hx⟩

theorem keeps_erase (id : MessageID) :
    Keeps node { node with forwarded := node.forwarded.erase id } := by
  refine ⟨rfl, fun id' x hx => ?_⟩
  rw [lookup_erase] at hx
  split_ifs at hx with heq
  exact hx

theorem keeps_untrack (id : MessageID) (source target : NodeID) :
    Keeps node (node.untrack id source target) := by
  unfold Node.untrack
  split
  · exact .refl node
  · split_ifs
    · exact .refl node
    · exact keeps_erase node id

theorem keeps_untrackIf (flag : Bool) (id : MessageID) (source target : NodeID) :
    Keeps node (node.untrackIf flag id source target) := by
  unfold Node.untrackIf
  split_ifs
  · exact keeps_untrack node id source target
  · exact .refl node

theorem keeps_lookup (inbound : Option PeerSession) (e : Envelope) :
    Keeps node (node.lookup inbound e).1 := by
  have herror : Keeps node (node.untrackError e) := by
    unfold Node.untrackError
    split_ifs
    · exact keeps_untrack node _ _ _
    · exact .refl node
  unfold Node.lookup
  by_cases hlocal : e.target = node.id
  · rw [if_pos hlocal]
    exact .refl node
  rw [if_neg hlocal]
  dsimp only
  split
  · split_ifs <;> exact herror
  · split_ifs <;> exact herror

end

variable {inbound : Option PeerSession}

theorem keeps_transmit {node node' : Node} {route : Route}
    {e : Envelope} {trackedSubscribe untrackAfterSend sent : Bool} {result : SendResult}
    {outcome : Outcome}
    (heq : node.transmit inbound route e trackedSubscribe untrackAfterSend result =
      (sent, node', outcome)) : Keeps node node' := by
  unfold Node.transmit at heq
  split at heq
  · cases heq
    exact keeps_untrackIf node trackedSubscribe e.messageID e.source e.target
  · cases heq
    exact keeps_untrackIf node trackedSubscribe e.messageID e.source e.target
  · cases heq
    exact keeps_untrackIf node trackedSubscribe e.messageID e.source e.target
  · cases heq
    exact keeps_untrackIf node untrackAfterSend e.correlationID e.source e.target

structure TracksRequest (e : Envelope) (id : MessageID) (x : ForwardedSubscription) : Prop where
  id : id = e.messageID
  source : x.source = e.source
  principal : x.principal = e.principal
  target : x.target = e.target
  resource : x.resource = e.resource
  capability : x.capability = e.capability

theorem trackForwarded_node {node node' : Node} {e : Envelope} {generation : UInt64}
    (htrack : node.trackForwarded e generation = .ok node') :
    node'.policy = node.policy ∧ ∀ (id : MessageID) x, node'.forwarded[id]? = some x →
      node.forwarded[id]? = some x ∨ TracksRequest e id x := by
  unfold Node.trackForwarded at htrack
  by_cases hgeneration : generation = 0
  · rw [if_pos hgeneration] at htrack
    cases htrack
  rw [if_neg hgeneration] at htrack
  split at htrack
  · split_ifs at htrack
    cases htrack
    refine ⟨rfl, fun id x hx => ?_⟩
    rw [lookup_insert] at hx
    split_ifs at hx with heq
    · cases hx
      exact .inr ⟨heq, rfl, rfl, rfl, rfl, rfl⟩
    · exact .inl hx
  · cases htrack

theorem track_node (node : Node) (inbound : Option PeerSession) (route : Route) (e : Envelope) :
    (node.track inbound route e).1.policy = node.policy ∧
      ∀ (id : MessageID) x, (node.track inbound route e).1.forwarded[id]? = some x →
        node.forwarded[id]? = some x ∨ TracksRequest e id x := by
  unfold Node.track
  split
  · exact ⟨rfl, fun _ _ hx => .inl hx⟩
  · next node' htrack =>
    have hnode' := trackForwarded_node htrack
    split
    · have huntrack := keeps_untrack node' 0 0 0
      exact ⟨huntrack.policy.trans hnode'.1,
        fun id x hx => hnode'.2 id x (huntrack.forwarded id x hx)⟩
    · exact hnode'

theorem finish_node (n : NodeID) (id : Option MessageID) (outcome : Outcome) :
    (h.finish os n id outcome).node = h.node := by
  cases outcome with
  | respond request code message =>
    simp only [finish]
    split <;> rfl
  | proceed task => rfl
  | handle => rfl
  | stop error => rfl

/-- What a step makes of the node `n'`, when `tracks` are the requests it tracks there. -/
structure Changes (tracks : Envelope → Prop) (node node' : Node) : Prop where
  policy : node'.policy = node.policy
  forwarded : ∀ (id : MessageID) x, node'.forwarded[id]? = some x →
    node.forwarded[id]? = some x ∨ ∃ e, tracks e ∧ TracksRequest e id x

theorem Keeps.changes {tracks : Envelope → Prop} {node node' : Node} (hkeeps : Keeps node node') :
    Changes tracks node node' :=
  ⟨hkeeps.policy, fun id x hx => .inl (hkeeps.forwarded id x hx)⟩

variable (os) in
/-- One stage changes no policy, and only the subscribe branch adds an interest. -/
theorem workStep_node (n n' : NodeID) (task : Task) (result : SendResult) (id : Option MessageID) :
    Changes (fun e => n' = n ∧ ∃ inbound route, task = .track inbound route e) (h.node n')
      ((h.workStep os n task result id).node n') := by
  -- the stages replace the node they run at, and no other
  have hset : ∀ {tracks : Envelope → Prop} {node : Node},
      (n' = n → Changes tracks (h.node n) node) →
      Changes tracks (h.node n') (update h.node n node n') := by
    intro tracks node hself
    by_cases hn : n' = n
    · subst hn
      rw [update_self]
      exact hself rfl
    · rw [update_of_ne hn]
      exact (Keeps.refl _).changes
  cases task with
  | lookup inbound e =>
    simp only [workStep, finish_node, setNode]
    exact hset fun _ => (keeps_lookup _ inbound e).changes
  | forward inbound route e =>
    simp only [workStep, finish_node]
    exact (Keeps.refl _).changes
  | adjudicate inbound route e =>
    simp only [workStep, finish_node, record]
    exact (Keeps.refl _).changes
  | track inbound route e =>
    simp only [workStep, finish_node, setNode]
    refine hset fun hn => ?_
    obtain ⟨hpolicy, hforwarded⟩ := track_node (h.node n) inbound route e
    refine ⟨hpolicy, fun id x hx => ?_⟩
    rcases hforwarded id x hx with hold | hnew
    · exact .inl hold
    · exact .inr ⟨e, ⟨hn, inbound, route, rfl⟩, hnew⟩
  | transmit inbound route e trackedSubscribe untrackAfterSend =>
    obtain ⟨sent, node, outcome, heq⟩ : ∃ sent node outcome, (h.node n).transmit inbound route e
        trackedSubscribe untrackAfterSend result = (sent, node, outcome) := ⟨_, _, _, rfl⟩
    simp only [workStep, heq, finish_node, record, setNode]
    exact hset fun _ => (keeps_transmit heq).changes

def Tracks (h : Hub) (a : Act) (n : NodeID) (e : Envelope) : Prop :=
  ∃ i result id inbound route, a = .work n i result id ∧
    (h.tasks n)[i]? = some (.track inbound route e)

/-- **What a step makes of a node.** -/
theorem node_step? {a : Act} {h' : Hub} (hstep : h.step? os a = some h') (n : NodeID) :
    (∃ policy, a = .setPolicy n policy ∧ h'.node n = { h.node n with policy := policy }) ∨
      Changes (Tracks h a n) (h.node n) (h'.node n) := by
  have hset : ∀ {m : NodeID} {node : Node}, Keeps (h.node m) node →
      Changes (Tracks h a n) (h.node n) (update h.node m node n) := by
    intro m node hkeeps
    by_cases hn : n = m
    · subst hn
      rw [update_self]
      exact hkeeps.changes
    · rw [update_of_ne hn]
      exact (Keeps.refl _).changes
  have hsame : Changes (Tracks h a n) (h.node n) (h.node n) := (Keeps.refl _).changes
  have hdrop : ∀ m s, Changes (Tracks h a n) (h.node n) ((h.dropSession m s).node n) := by
    intro m s
    refine hset ?_
    split_ifs
    · exact ⟨rfl, fun _ _ hx => hx⟩
    · exact .refl _
  cases a with
  | setPolicy m policy =>
    cases hstep
    by_cases hn : n = m
    · subst hn
      exact .inl ⟨policy, rfl, update_self ..⟩
    · refine .inr ?_
      show Changes _ (h.node n) (update h.node m _ n)
      rw [update_of_ne hn]
      exact hsame
  | mutate m x => cases hstep; exact .inr (hset ⟨rfl, fun _ _ hx => hx⟩)
  | close m => cases hstep; exact .inr (hset ⟨rfl, fun _ _ hx => hx⟩)
  | forget m id => cases hstep; exact .inr (hset (keeps_erase _ id))
  | cancel m current id => cases hstep; exact .inr hsame
  | attach m s =>
    simp only [step?] at hstep
    split at hstep
    · cases hstep
    · cases hstep
      exact .inr (hset ⟨rfl, fun _ _ hx => hx⟩)
  | publish m s =>
    simp only [step?] at hstep
    split_ifs at hstep
    cases hstep
    exact .inr (hset ⟨rfl, fun _ _ hx => hx⟩)
  | endSession m s => cases hstep; exact .inr (hdrop m s)
  | create m e =>
    simp only [step?] at hstep
    split_ifs at hstep
    cases hstep
    exact .inr hsame
  | emit m next e =>
    simp only [step?] at hstep
    split_ifs at hstep
    cases hstep
    exact .inr hsame
  | receive m s e =>
    simp only [step?] at hstep
    split_ifs at hstep
    cases hstep
    unfold receiveStep
    split
    · exact .inr (hdrop m s)
    · dsimp only
      split_ifs
      · exact .inr hsame
      · exact .inr hsame
  | work m i result id =>
    simp only [step?] at hstep
    split at hstep
    · cases hstep
    · next task htask =>
      cases hstep
      obtain ⟨hpolicy, hforwarded⟩ := workStep_node os
        (h := h.setTasks m ((h.tasks m).eraseIdx i)) m n task result id
      refine .inr ⟨hpolicy, fun id' x hx => ?_⟩
      rcases hforwarded id' x hx with hold | ⟨e, ⟨rfl, inbound, route, rfl⟩, hnew⟩
      · exact .inl hold
      · exact .inr ⟨e, ⟨i, result, id, inbound, route, rfl, htask⟩, hnew⟩

variable {kind : Option Direction}

theorem mem_log_finish {n : NodeID} {id : Option MessageID} {outcome : Outcome} {m next : NodeID}
    {e : Envelope} (hmem : .sent m next inbound kind e ∈ (h.finish os n id outcome).log) :
    .sent m next inbound kind e ∈ h.log := by
  cases outcome with
  | respond request code message =>
    simp only [finish] at hmem
    split at hmem
    · exact hmem
    · rcases mem_append.mp hmem with hmem | hmem
      · exact hmem
      · cases mem_singleton.mp hmem
  | proceed task => exact hmem
  | handle => exact hmem
  | stop error => exact hmem

/-- **Where a frame that was sent comes from.** -/
theorem mem_log_step? {a : Act} {h' : Hub} (hstep : h.step? os a = some h') {m next : NodeID}
    {e : Envelope} (hmem : .sent m next inbound kind e ∈ h'.log) :
    .sent m next inbound kind e ∈ h.log ∨
      (∃ route trackedSubscribe untrackAfterSend,
        .transmit inbound route e trackedSubscribe untrackAfterSend ∈ h.tasks m) ∨
      a = .emit m next e ∧ e.source = m := by
  have hrecord : ∀ {ev : Event} {log : List Event}, .sent m next inbound kind e ∈ log ++ [ev] →
      .sent m next inbound kind e ≠ ev → .sent m next inbound kind e ∈ log := by
    intro ev log hmem hne
    rcases mem_append.mp hmem with hmem | hmem
    · exact hmem
    · exact absurd (mem_singleton.mp hmem) hne
  cases a with
  | mutate m x => cases hstep; exact .inl hmem
  | setPolicy m policy => cases hstep; exact .inl hmem
  | close m => cases hstep; exact .inl hmem
  | forget m id => cases hstep; exact .inl hmem
  | cancel m current id => cases hstep; exact .inl (hrecord hmem (by simp))
  | attach m s =>
    simp only [step?] at hstep
    split at hstep
    · cases hstep
    · cases hstep
      exact .inl hmem
  | publish m s =>
    simp only [step?] at hstep
    split_ifs at hstep
    cases hstep
    exact .inl hmem
  | endSession m s => cases hstep; exact .inl hmem
  | create m e' =>
    simp only [step?] at hstep
    split_ifs at hstep
    cases hstep
    exact .inl (hrecord hmem (by simp))
  | emit m' next' e' =>
    simp only [step?] at hstep
    split_ifs at hstep with hcond
    cases hstep
    rcases mem_append.mp hmem with hmem | hmem
    · exact .inl hmem
    · cases mem_singleton.mp hmem
      exact .inr (.inr ⟨rfl, hcond.1⟩)
  | receive m' s e' =>
    simp only [step?] at hstep
    split_ifs at hstep
    cases hstep
    unfold receiveStep at hmem
    split at hmem
    · exact .inl hmem
    · dsimp only at hmem
      split_ifs at hmem
      · exact .inl (hrecord hmem (by simp))
      · exact .inl (hrecord hmem (by simp))
  | work m' i result id =>
    simp only [step?] at hstep
    split at hstep
    · cases hstep
    · next task htask =>
      cases hstep
      cases task with
      | lookup inbound' e' =>
        have hold := mem_log_finish hmem
        exact .inl hold
      | forward inbound' route e' =>
        have hold := mem_log_finish hmem
        exact .inl hold
      | adjudicate inbound' route e' =>
        rcases mem_append.mp (mem_log_finish hmem) with hmem | hmem
        · exact .inl hmem
        · obtain ⟨granted, -, hc⟩ := mem_map.mp hmem
          cases hc
      | track inbound' route e' =>
        have hold := mem_log_finish hmem
        exact .inl hold
      | transmit inbound' route e' trackedSubscribe untrackAfterSend =>
        rcases mem_append.mp (mem_log_finish hmem) with hmem | hmem
        · exact .inl hmem
        · split_ifs at hmem
          · cases mem_singleton.mp hmem
            exact .inr (.inl ⟨route, trackedSubscribe, untrackAfterSend, mem_of_getElem? htask⟩)
          · cases hmem

end Nodes

end Routing
