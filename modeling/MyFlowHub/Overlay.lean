/-
The overlay network: nodes, links and route events
(`runtime/node/connection.go`, `runtime/node/routing.go`).

Every non-zero identifier is an honest node with its own `TreeState` and its own
session table.  A `Link` is one connection, from the dialing child to the accepting
parent, with the claimed topology epoch, the goroutines at its two ends and the queue
of route events from the child to the parent.

The tree of a node and its session table have locks of their own, so a join and a
cleanup each change them in two steps:

* `attach`, `accept` — `acceptChild` up to `AttachChild` or `ReattachChild`, then
  `registerSession`, which queues the acknowledgement;
* `activate`, `register` — `ConnectParent` up to `ActivateParent`, then
  `registerSession`;
* `stopChild`, `detach` and `stopParent`, `withdraw` — `runSession` leaves the session
  table, then changes the tree.

The other steps are the failure paths (`reject`, `acceptFail`, `joinFail`, `abort`),
the reading of `Relations()` (`snapshot`), one call of `sendRouteEvent` (`send`), one
round of the parent's session loop (`deliver`), and the end of a connection (`close`).
Sessions that the code closes from outside, because they were replaced or a join was
rolled back, close in a later `close` step.

A goroutine makes its `sendRouteEvent` calls one after the other, so what it still
has to send is a list on the link it works for, and the session loop takes no new
frame before that list is empty.
-/
import MyFlowHub.TreeInvariant

open Std Function Option

namespace Overlay

/-- The payload of `RouteAnnounce` and `RouteWithdraw`. -/
inductive Frame where
  | announce (node parent : NodeID)
  | withdraw (node : NodeID)
  deriving DecidableEq, Repr

def Frame.node : Frame → NodeID
  | .announce node _ => node
  | .withdraw node => node

def Frame.isAnnounce : Frame → Bool
  | .announce _ _ => true
  | .withdraw _ => false

abbrev LinkID := ℕ

/-- The child's end: `ConnectParent` before `ActivateParent` and after it, `runSession`,
and its cleanup between the session table and the tree. -/
inductive ChildEnd where
  | joining | activated | running | leaving | ended
  deriving DecidableEq, Repr

/-- The parent's end: `acceptChild` before and after it changed the tree, `runSession`,
and its cleanup between the session table and the tree. -/
inductive ParentEnd where
  | joining
  | attached (reattached : Bool)
  | running | leaving | ended
  deriving DecidableEq, Repr

def ParentEnd.isAttached : ParentEnd → Bool
  | .attached _ => true
  | _ => false

/-- The goroutines of a link that send route events: `acceptChild`, the parent's session
loop and its cleanup, and `ConnectParent`. -/
inductive Thread where
  | accept | loop | join
  deriving DecidableEq, Repr

instance : Fintype Thread := ⟨{.accept, .loop, .join}, fun thread => by cases thread <;> decide⟩

structure Link where
  child : NodeID
  parent : NodeID
  epoch : UInt64
  childEnd : ChildEnd := .joining
  parentEnd : ParentEnd := .joining
  /-- the join acknowledgement has been queued -/
  acked : Bool := false
  /-- neither end has closed the connection -/
  isOpen : Bool := true
  /-- route events on their way to the parent -/
  queue : List Frame := []
  /-- what each goroutine still has to send -/
  sends : Thread → List Frame := fun _ => []
  /-- `ConnectParent` has not read `Relations()` yet -/
  snapshotDue : Bool := false

namespace Link

def setSends (l : Link) (thread : Thread) (frames : List Frame) : Link :=
  { l with sends := update l.sends thread frames }

@[simp] theorem sends_setSends_self (l : Link) (thread : Thread) (frames : List Frame) :
    (l.setSends thread frames).sends thread = frames := update_self ..

theorem sends_setSends_of_ne (l : Link) {u thread : Thread} (hu : u ≠ thread)
    (frames : List Frame) : (l.setSends thread frames).sends u = l.sends u := update_of_ne hu ..

def addSends (l : Link) (thread : Thread) (frames : List Frame) : Link :=
  l.setSends thread (l.sends thread ++ frames)

def sender (l : Link) : Thread → NodeID
  | .accept => l.parent
  | .loop => l.parent
  | .join => l.child

/-- The record after a roll-back of `ConnectParent`: before `registerSession`, or after a
failed first heartbeat, when `runSession` has the connection. -/
def aborted (l : Link) : Link :=
  if l.childEnd = .activated then { l with childEnd := .ended, isOpen := false }
  else { l with snapshotDue := false }

end Link

/-- The state of the network.  `sessions n x` is node `n`'s registered session with
peer `x`; its role is fixed by which end of the link `n` is. -/
structure Net where
  tree : NodeID → TreeState
  sessions : NodeID → NodeID → Option LinkID
  links : LinkID → Option Link

namespace Net

def start : Net where
  tree := TreeState.fresh
  sessions _ _ := none
  links _ := none

variable (s : Net)

def setTree (n : NodeID) (t : TreeState) : Net := { s with tree := update s.tree n t }

def setLink (k : LinkID) (l : Link) : Net := { s with links := update s.links k (some l) }

def setSession (n x : NodeID) (k : Option LinkID) : Net :=
  { s with sessions := update s.sessions n (update (s.sessions n) x k) }

/-- `registerSession` for a parent session: every other parent session leaves the
table. -/
def registerParent (c p : NodeID) (k : LinkID) : Net where
  tree := s.tree
  sessions := update s.sessions c fun x =>
    if x = p then some k
    else (s.sessions c x).filter fun j => !(s.links j).any fun l => l.child = c
  links := s.links

/-- `AttachChild`, or `ReattachChild` when the child is already there; the flag says
which. -/
def attachOrReattach (t : TreeState) (child : NodeID) (epoch : UInt64) :
    Except TreeError (Bool × TreeState) :=
  match t.attachChild child epoch with
  | .ok t' => .ok (false, t')
  | .error .childExists => (t.reattachChild child epoch).map fun t' => (true, t')
  | .error err => .error err

/-- The session on which `sendRouteEvent` at node `n` should send now: the one registered
for the recorded parent.  A frame on a session with a child would be refused there,
since route events must come from a child. -/
def uplink (n : NodeID) : Option LinkID :=
  match (s.tree n).parent with
  | none => none
  | some edge => (s.sessions n edge.node).filter fun j => (s.links j).any fun l => l.child = n

/-- `Send` of a route event of node `n` on a session; `full` says whether the control
queue is.  A session that was never registered at the child is not found by anybody. -/
def push (n : NodeID) (f : Frame) (via : Option LinkID) (full : Bool) : Net :=
  match via with
  | none => s
  | some j =>
    match s.links j with
    | none => s
    | some l =>
      if l.child = n ∧ l.childEnd ≠ .joining ∧ l.childEnd ≠ .activated ∧ l.isOpen ∧ !full then
        s.setLink j { l with queue := l.queue ++ [f] }
      else s

end Net

/-- The steps.  `order` is the order in which Go happens to range over the removed
routes.  `via` is the session that a call of `sendRouteEvent` found; it reads the tree
and the session table before it sends, so it may have found one that is not the uplink
any more.  `early` says that the session loop validated the source before another step
took the edge away. -/
inductive Act where
  | dial (k : LinkID) (child parent : NodeID)
  | attach (k : LinkID)
  | accept (k : LinkID)
  | reject (k : LinkID)
  | acceptFail (k : LinkID) (order : List NodeID)
  | joinFail (k : LinkID)
  | activate (k : LinkID)
  | register (k : LinkID)
  | abort (k : LinkID)
  | snapshot (k : LinkID)
  | send (k : LinkID) (thread : Thread) (via : Option LinkID) (full : Bool)
  | deliver (k : LinkID) (early : Bool)
  | close (k : LinkID)
  | stopChild (k : LinkID)
  | detach (k : LinkID)
  | stopParent (k : LinkID)
  | withdraw (k : LinkID) (order : List NodeID)
  deriving DecidableEq, Repr

namespace Net

/-! ### The steps of one link

Each function takes the network, the link's identifier and its record; `none` means
that the step is not possible now. -/

section Steps

variable (s : Net) (k : LinkID) (l : Link)

/-- `acceptChild` up to `AttachChild` or `ReattachChild`. -/
def attachStep : Option Net :=
  if l.parentEnd ≠ .joining then none
  else
    match attachOrReattach (s.tree l.parent) l.child l.epoch with
    | .error _ => some (s.setLink k { l with parentEnd := .ended, isOpen := false })
    | .ok (reattached, t) =>
      some ((s.setTree l.parent t).setLink k { l with parentEnd := .attached reattached })

/-- `registerSession` at the parent, which queues the acknowledgement; the announcement
is due next. -/
def acceptStep : Option Net :=
  if l.parentEnd.isAttached then
    some ((s.setSession l.parent l.child (some k)).setLink k
      (Link.addSends { l with parentEnd := .running, acked := true } .accept
        [.announce l.child l.parent]))
  else none

/-- `acceptChild` returns an error before it touches the tree. -/
def rejectStep : Option Net :=
  if l.parentEnd ≠ .joining then none
  else some (s.setLink k { l with parentEnd := .ended, isOpen := false })

/-- `acceptChild` fails after it attached the child and rolls back. -/
def acceptFailStep (order : List NodeID) : Option Net :=
  match l.parentEnd with
  | .attached reattached =>
    let (removed, t) := (s.tree l.parent).withdrawChildEpoch l.child l.epoch
    if order.isPerm removed then
      some ((s.setTree l.parent t).setLink k
        (Link.addSends { l with parentEnd := .ended, isOpen := false } .accept
          (if reattached then order.map .withdraw else [])))
    else none
  | _ => none

/-- `ConnectParent` fails before `ActivateParent`. -/
def joinFailStep : Option Net :=
  if l.childEnd ≠ .joining then none
  else some (s.setLink k { l with childEnd := .ended, isOpen := false })

/-- `ConnectParent` from the acknowledgement to `ActivateParent`. -/
def activateStep : Option Net :=
  if l.childEnd ≠ .joining ∨ !l.acked then none
  else
    match (s.tree l.child).activateParent l.parent l.epoch with
    | .error _ => some (s.setLink k { l with childEnd := .ended, isOpen := false })
    | .ok t => some ((s.setTree l.child t).setLink k { l with childEnd := .activated })

/-- `registerSession` at the child. -/
def registerStep : Option Net :=
  if l.childEnd = .activated then
    some ((s.registerParent l.child l.parent k).setLink k
      { l with childEnd := .running, snapshotDue := true })
  else none

/-- The roll-back of `ConnectParent`. -/
def abortStep : Option Net :=
  if l.childEnd = .activated ∨ l.snapshotDue then
    some ((s.setTree l.child ((s.tree l.child).detachParentEpoch l.parent l.epoch).2).setLink k
      l.aborted)
  else none

/-- `ConnectParent` reads `Relations()`. -/
def snapshotStep : Option Net :=
  if l.snapshotDue then
    some (s.setLink k (Link.addSends { l with snapshotDue := false } .join
      ((s.tree l.child).relations.map fun r => .announce r.node r.parent)))
  else none

/-- One `sendRouteEvent` call of a goroutine. -/
def sendStep (thread : Thread) (via : Option LinkID) (full : Bool) : Option Net :=
  match l.sends thread with
  | [] => none
  | f :: rest => some ((s.setLink k (l.setSends thread rest)).push (l.sender thread) f via full)

/-- `handleInbound` for a route event at the parent. -/
def handleRoute (f : Frame) : Except TreeError TreeState :=
  match f with
  | .announce node parent =>
    (s.tree l.parent).announceWithParent l.child node parent l.epoch
  | .withdraw node => (s.tree l.parent).withdrawRoute l.child node l.epoch

/-- One round of the parent's `runSession` loop. -/
def deliverStep (early : Bool) : Option Net :=
  if l.parentEnd ≠ .running ∨ l.sends .loop ≠ [] then none
  else
    match l.queue with
    | [] => none
    | f :: rest =>
      if !early ∧ (s.tree l.parent).validateSource l.child l.child l.epoch ≠ none then
        some (s.setLink k { l with queue := [], isOpen := false })
      else
        match s.handleRoute l f with
        | .error _ => some (s.setLink k { l with queue := rest })
        | .ok t =>
          some ((s.setTree l.parent t).setLink k
            (Link.setSends { l with queue := rest } .loop [f]))

/-- The cleanup of `runSession` at the child: the session table. -/
def stopChildStep : Option Net :=
  if l.childEnd ≠ .running ∨ l.isOpen then none
  else if s.sessions l.child l.parent = some k then
    some ((s.setSession l.child l.parent none).setLink k { l with childEnd := .leaving })
  else some (s.setLink k { l with childEnd := .ended })

/-- The cleanup of `runSession` at the child: the tree. -/
def detachStep : Option Net :=
  if l.childEnd = .leaving then
    some ((s.setTree l.child ((s.tree l.child).detachParentEpoch l.parent l.epoch).2).setLink k
      { l with childEnd := .ended })
  else none

/-- The cleanup of `runSession` at the parent: the session table.  Frames that were not
received are lost. -/
def stopParentStep : Option Net :=
  if l.parentEnd ≠ .running ∨ l.isOpen ∨ l.sends .loop ≠ [] then none
  else if s.sessions l.parent l.child = some k then
    some ((s.setSession l.parent l.child none).setLink k
      { l with parentEnd := .leaving, queue := [] })
  else some (s.setLink k { l with parentEnd := .ended, queue := [] })

/-- The cleanup of `runSession` at the parent: the tree, and one withdrawal for every
removed route. -/
def withdrawStep (order : List NodeID) : Option Net :=
  if l.parentEnd = .leaving then
    let (removed, t) := (s.tree l.parent).withdrawChildEpoch l.child l.epoch
    if order.isPerm removed then
      some ((s.setTree l.parent t).setLink k
        (Link.addSends { l with parentEnd := .ended } .loop (order.map .withdraw)))
    else none
  else none

end Steps

/-- `ConnectParent` up to the join request, on a new connection. -/
def dialStep (s : Net) (k : LinkID) (child parent : NodeID) : Option Net :=
  if child ≠ 0 ∧ parent.valid ∧ (s.tree child).nextEpoch ≠ 0 ∧ s.links k = none then
    some (s.setLink k { child := child, parent := parent, epoch := (s.tree child).nextEpoch })
  else none

def step? (s : Net) : Act → Option Net
  | .dial k child parent => s.dialStep k child parent
  | .attach k => (s.links k).bind (s.attachStep k)
  | .accept k => (s.links k).bind (s.acceptStep k)
  | .reject k => (s.links k).bind (s.rejectStep k)
  | .acceptFail k order => (s.links k).bind (s.acceptFailStep k · order)
  | .joinFail k => (s.links k).bind (s.joinFailStep k)
  | .activate k => (s.links k).bind (s.activateStep k)
  | .register k => (s.links k).bind (s.registerStep k)
  | .abort k => (s.links k).bind (s.abortStep k)
  | .snapshot k => (s.links k).bind (s.snapshotStep k)
  | .send k thread via full => (s.links k).bind (s.sendStep k · thread via full)
  | .deliver k early => (s.links k).bind (s.deliverStep k · early)
  | .close k => (s.links k).map fun l => s.setLink k { l with isOpen := false }
  | .stopChild k => (s.links k).bind (s.stopChildStep k)
  | .detach k => (s.links k).bind (s.detachStep k)
  | .stopParent k => (s.links k).bind (s.stopParentStep k)
  | .withdraw k order => (s.links k).bind (s.withdrawStep k · order)

def step (s : Net) (a : Act) : Net := (s.step? a).getD s

def parentOf (s : Net) (n : NodeID) : Option NodeID := (s.tree n).parent.map (·.node)

/-! ### Reading an updated network -/

section Fields

variable (s : Net)

@[simp] theorem tree_setLink (k : LinkID) (l : Link) : (s.setLink k l).tree = s.tree := rfl

@[simp] theorem tree_setTree_self (n : NodeID) (t : TreeState) : (s.setTree n t).tree n = t := by
  simp [setTree]

theorem tree_setTree_of_ne {n x : NodeID} (t : TreeState) (hx : x ≠ n) :
    (s.setTree n t).tree x = s.tree x := by
  simp [setTree, update_of_ne hx]

@[simp] theorem sessions_setLink (k : LinkID) (l : Link) :
    (s.setLink k l).sessions = s.sessions := rfl

@[simp] theorem sessions_setSession_self (n x : NodeID) (k : Option LinkID) :
    (s.setSession n x k).sessions n x = k := by
  simp [setSession]

theorem sessions_setSession_of_ne {n x n' x' : NodeID} (k : Option LinkID)
    (h : ¬ (n' = n ∧ x' = x)) : (s.setSession n x k).sessions n' x' = s.sessions n' x' := by
  simp only [setSession]
  by_cases hn : n' = n
  · rw [hn, update_self, update_of_ne fun hx => h ⟨hn, hx⟩]
  · rw [update_of_ne hn]

@[simp] theorem links_setLink_self (k : LinkID) (l : Link) : (s.setLink k l).links k = some l := by
  simp [setLink]

theorem links_setLink_of_ne {k j : LinkID} (l : Link) (hj : j ≠ k) :
    (s.setLink k l).links j = s.links j := by
  simp [setLink, update_of_ne hj]

variable {s}

theorem links_setLink_cases {k j : LinkID} {l m : Link} (h : (s.setLink k l).links j = some m) :
    j = k ∧ l = m ∨ j ≠ k ∧ s.links j = some m := by
  by_cases hj : j = k
  · rw [hj, links_setLink_self] at h
    exact Or.inl ⟨hj, some.inj h⟩
  · rw [links_setLink_of_ne s l hj] at h
    exact Or.inr ⟨hj, h⟩

/-- A route event is queued on the session that was found, or it is dropped: never when
that session is in use and has room. -/
theorem push_cases (s : Net) (n : NodeID) (f : Frame) (via : Option LinkID) (full : Bool) :
    (s.push n f via full = s ∧ ∀ j l, via = some j → s.links j = some l → l.child = n →
      l.childEnd = .running → l.isOpen = true → full = true) ∨
    ∃ j l, via = some j ∧ s.links j = some l ∧ l.child = n ∧ l.childEnd ≠ .joining ∧
      l.childEnd ≠ .activated ∧
      s.push n f via full = s.setLink j { l with queue := l.queue ++ [f] } := by
  unfold push
  split
  · exact .inl ⟨rfl, fun j l hj => by cases hj⟩
  · next j =>
    cases hl : s.links j with
    | none =>
      refine .inl ⟨rfl, fun i l hi hm => ?_⟩
      rw [← some.inj hi, hl] at hm
      cases hm
    | some l =>
      by_cases hcond : l.child = n ∧ l.childEnd ≠ .joining ∧ l.childEnd ≠ .activated ∧
          l.isOpen ∧ !full
      · exact .inr ⟨j, l, rfl, hl, hcond.1, hcond.2.1, hcond.2.2.1, if_pos hcond⟩
      · refine .inl ⟨if_neg hcond, fun i m hi hm hchild hend hopen => ?_⟩
        rw [← some.inj hi] at hm
        obtain rfl := mem_unique hl hm
        simpa [hchild, hend, hopen] using hcond

end Fields

/-! ### What a step can do -/

/-- Every possible step, branch by branch. -/
inductive Stepped (s : Net) : Act → Net → Prop
  | dial {k child parent} (hchild : child ≠ 0) (hparent : parent ≠ 0)
      (hepoch : (s.tree child).nextEpoch ≠ 0) (hk : s.links k = none) :
      Stepped s (.dial k child parent) (s.setLink k
        { child := child, parent := parent, epoch := (s.tree child).nextEpoch })
  | attach {k l re t} (hl : s.links k = some l) (hend : l.parentEnd = .joining)
      (hattach : attachOrReattach (s.tree l.parent) l.child l.epoch = .ok (re, t)) :
      Stepped s (.attach k)
        ((s.setTree l.parent t).setLink k { l with parentEnd := .attached re })
  | refuse {a k l} (hl : s.links k = some l) (hend : l.parentEnd = .joining) :
      Stepped s a (s.setLink k { l with parentEnd := .ended, isOpen := false })
  | accept {k l} (hl : s.links k = some l) (hend : l.parentEnd.isAttached = true) :
      Stepped s (.accept k) ((s.setSession l.parent l.child (some k)).setLink k
        (Link.addSends { l with parentEnd := .running, acked := true } .accept
          [.announce l.child l.parent]))
  | acceptFail {k order l re} (hl : s.links k = some l) (hend : l.parentEnd = .attached re) :
      Stepped s (.acceptFail k order)
        ((s.setTree l.parent ((s.tree l.parent).withdrawChildEpoch l.child l.epoch).2).setLink k
          (Link.addSends { l with parentEnd := .ended, isOpen := false } .accept
            (if re then order.map .withdraw else [])))
  | joinFail {a k l} (hl : s.links k = some l) (hend : l.childEnd = .joining) :
      Stepped s a (s.setLink k { l with childEnd := .ended, isOpen := false })
  | activate {k l t} (hl : s.links k = some l) (hend : l.childEnd = .joining)
      (hacked : l.acked = true)
      (hactivate : (s.tree l.child).activateParent l.parent l.epoch = .ok t) :
      Stepped s (.activate k) ((s.setTree l.child t).setLink k { l with childEnd := .activated })
  | register {k l} (hl : s.links k = some l) (hend : l.childEnd = .activated) :
      Stepped s (.register k) ((s.registerParent l.child l.parent k).setLink k
        { l with childEnd := .running, snapshotDue := true })
  | abort {k l} (hl : s.links k = some l) :
      Stepped s (.abort k)
        ((s.setTree l.child ((s.tree l.child).detachParentEpoch l.parent l.epoch).2).setLink k
          l.aborted)
  | snapshot {k l} (hl : s.links k = some l) (hdue : l.snapshotDue = true) :
      Stepped s (.snapshot k) (s.setLink k (Link.addSends { l with snapshotDue := false } .join
        ((s.tree l.child).relations.map fun r => .announce r.node r.parent)))
  | send {k thread via full l f rest} (hl : s.links k = some l)
      (hsends : l.sends thread = f :: rest) :
      Stepped s (.send k thread via full)
        ((s.setLink k (l.setSends thread rest)).push (l.sender thread) f via full)
  | deliverInvalid {k early l} (hl : s.links k = some l) :
      Stepped s (.deliver k early) (s.setLink k { l with queue := [], isOpen := false })
  | deliverRefused {k early l f rest} (hl : s.links k = some l) (hqueue : l.queue = f :: rest)
      {err : TreeError} (hhandle : s.handleRoute l f = .error err) :
      Stepped s (.deliver k early) (s.setLink k { l with queue := rest })
  | deliverAccepted {k early l f rest t} (hl : s.links k = some l) (hend : l.parentEnd = .running)
      (hsends : l.sends .loop = []) (hqueue : l.queue = f :: rest)
      (hhandle : s.handleRoute l f = .ok t) :
      Stepped s (.deliver k early)
        ((s.setTree l.parent t).setLink k (Link.setSends { l with queue := rest } .loop [f]))
  | close {k l} (hl : s.links k = some l) :
      Stepped s (.close k) (s.setLink k { l with isOpen := false })
  | stopChild {k l} (hl : s.links k = some l) (hend : l.childEnd = .running)
      (hcurrent : s.sessions l.child l.parent = some k) :
      Stepped s (.stopChild k)
        ((s.setSession l.child l.parent none).setLink k { l with childEnd := .leaving })
  | endChild {k l} (hl : s.links k = some l) (hend : l.childEnd = .running)
      (hother : s.sessions l.child l.parent ≠ some k) :
      Stepped s (.stopChild k) (s.setLink k { l with childEnd := .ended })
  | detach {k l} (hl : s.links k = some l) (hend : l.childEnd = .leaving) :
      Stepped s (.detach k)
        ((s.setTree l.child ((s.tree l.child).detachParentEpoch l.parent l.epoch).2).setLink k
          { l with childEnd := .ended })
  | stopParent {k l} (hl : s.links k = some l) (hend : l.parentEnd = .running)
      (hcurrent : s.sessions l.parent l.child = some k) :
      Stepped s (.stopParent k) ((s.setSession l.parent l.child none).setLink k
        { l with parentEnd := .leaving, queue := [] })
  | endParent {k l} (hl : s.links k = some l) (hend : l.parentEnd = .running)
      (hother : s.sessions l.parent l.child ≠ some k) :
      Stepped s (.stopParent k) (s.setLink k { l with parentEnd := .ended, queue := [] })
  | withdraw {k order l} (hl : s.links k = some l) (hend : l.parentEnd = .leaving)
      (horder : order.Perm ((s.tree l.parent).withdrawChildEpoch l.child l.epoch).1) :
      Stepped s (.withdraw k order)
        ((s.setTree l.parent ((s.tree l.parent).withdrawChildEpoch l.child l.epoch).2).setLink k
          (Link.addSends { l with parentEnd := .ended } .loop (order.map .withdraw)))

theorem stepped_of_step? {s s' : Net} {a : Act} (h : s.step? a = some s') : Stepped s a s' := by
  cases a with
  | dial k child parent =>
    simp only [step?, dialStep] at h
    split_ifs at h with hcond
    cases h
    obtain ⟨hchild, hparent, hepoch, hk⟩ := hcond
    exact .dial hchild (by simpa [NodeID.valid] using hparent) hepoch hk
  -- a failed attachment is the refusal: both are one step of the relation
  | attach k =>
    obtain ⟨l, hl, h⟩ := bind_eq_some_iff.mp h
    unfold attachStep at h
    split_ifs at h with hend
    rw [not_not] at hend
    split at h
    · cases h
      exact .refuse hl hend
    · next hattach =>
      cases h
      exact .attach hl hend hattach
  | accept k =>
    obtain ⟨l, hl, h⟩ := bind_eq_some_iff.mp h
    unfold acceptStep at h
    split_ifs at h with hend
    cases h
    exact .accept hl hend
  | reject k =>
    obtain ⟨l, hl, h⟩ := bind_eq_some_iff.mp h
    unfold rejectStep at h
    split_ifs at h with hend
    cases h
    exact .refuse hl (not_not.mp hend)
  | acceptFail k order =>
    obtain ⟨l, hl, h⟩ := bind_eq_some_iff.mp h
    unfold acceptFailStep at h
    split at h
    · next hend =>
      dsimp only at h
      split at h
      · cases h
        exact .acceptFail hl hend
      · cases h
    · cases h
  | joinFail k =>
    obtain ⟨l, hl, h⟩ := bind_eq_some_iff.mp h
    unfold joinFailStep at h
    split_ifs at h with hend
    cases h
    exact .joinFail hl (not_not.mp hend)
  -- an activation the tree refuses fails the join
  | activate k =>
    obtain ⟨l, hl, h⟩ := bind_eq_some_iff.mp h
    unfold activateStep at h
    split_ifs at h with hcond
    rw [not_or, not_not, Bool.not_eq_true, Bool.not_eq_false'] at hcond
    split at h
    · cases h
      exact .joinFail hl hcond.1
    · next t hactivate =>
      cases h
      exact .activate hl hcond.1 hcond.2 hactivate
  | register k =>
    obtain ⟨l, hl, h⟩ := bind_eq_some_iff.mp h
    unfold registerStep at h
    split_ifs at h with hend
    cases h
    exact .register hl hend
  | abort k =>
    obtain ⟨l, hl, h⟩ := bind_eq_some_iff.mp h
    unfold abortStep at h
    split_ifs at h
    cases h
    exact .abort hl
  | snapshot k =>
    obtain ⟨l, hl, h⟩ := bind_eq_some_iff.mp h
    unfold snapshotStep at h
    split_ifs at h with hdue
    cases h
    exact .snapshot hl hdue
  | send k thread via full =>
    obtain ⟨l, hl, h⟩ := bind_eq_some_iff.mp h
    unfold sendStep at h
    split at h
    · cases h
    · next f rest hsends =>
      cases h
      exact .send hl hsends
  | deliver k early =>
    obtain ⟨l, hl, h⟩ := bind_eq_some_iff.mp h
    unfold deliverStep at h
    by_cases hcond : l.parentEnd ≠ .running ∨ l.sends .loop ≠ []
    · rw [if_pos hcond] at h
      cases h
    rw [if_neg hcond] at h
    rw [not_or, not_not, not_not] at hcond
    split at h
    · cases h
    · next f rest hqueue =>
      split_ifs at h
      · cases h
        exact .deliverInvalid hl
      · split at h
        · next hhandle =>
          cases h
          exact .deliverRefused hl hqueue hhandle
        · next t hhandle =>
          cases h
          exact .deliverAccepted hl hcond.1 hcond.2 hqueue hhandle
  | close k =>
    obtain ⟨l, hl, rfl⟩ := map_eq_some_iff.mp h
    exact .close hl
  | stopChild k =>
    obtain ⟨l, hl, h⟩ := bind_eq_some_iff.mp h
    unfold stopChildStep at h
    split_ifs at h with hcond hcurrent
    · rw [not_or, not_not] at hcond
      cases h
      exact .stopChild hl hcond.1 hcurrent
    · rw [not_or, not_not] at hcond
      cases h
      exact .endChild hl hcond.1 hcurrent
  | detach k =>
    obtain ⟨l, hl, h⟩ := bind_eq_some_iff.mp h
    unfold detachStep at h
    split_ifs at h with hend
    cases h
    exact .detach hl hend
  | stopParent k =>
    obtain ⟨l, hl, h⟩ := bind_eq_some_iff.mp h
    unfold stopParentStep at h
    split_ifs at h with hcond hcurrent
    · rw [not_or, not_not] at hcond
      cases h
      exact .stopParent hl hcond.1 hcurrent
    · rw [not_or, not_not] at hcond
      cases h
      exact .endParent hl hcond.1 hcurrent
  | withdraw k order =>
    obtain ⟨l, hl, h⟩ := bind_eq_some_iff.mp h
    unfold withdrawStep at h
    split_ifs at h with hend
    dsimp only at h
    split_ifs at h with horder
    cases h
    exact .withdraw hl hend (List.isPerm_iff.mp horder)

theorem step_cases (s : Net) (a : Act) : s.step a = s ∨ Stepped s a (s.step a) := by
  unfold step
  cases h : s.step? a with
  | none => exact Or.inl rfl
  | some s' => exact Or.inr (stepped_of_step? h)

end Net

end Overlay
