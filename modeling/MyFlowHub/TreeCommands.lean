/-
The mutators of the topology as programs, and the routing invariant.

`TreeState.apply` drops the state of a call that reports an error.  Here every mutator
is the sequence of checks and assignments its Go method runs under the lock, so that a
state written before an error would be seen.  Each program computes the function of
`TreeState` of the same name (`attachParent_run` and so on).

* `exec_error` — a program that reports an error has written nothing;
* `step_eq_apply` — the state a program leaves is that of `apply`;
* **`routing_invariant`** — what routing relies on holds in every state reached.
-/
import MyFlowHub.TreeInvariant

open Std Tables Runs List

/-- Programs that read and write the topology and may stop with an error, keeping what
they wrote. -/
abbrev TreeM := EStateM TreeError TreeState

namespace TreeM

def failIf (c : Prop) [Decidable c] (e : TreeError) : TreeM Unit :=
  if c then throw e else pure ()

/-- `bumpMembershipEpochLocked`. -/
def bumpMembershipEpoch : TreeM Unit := modify TreeState.bumpMembershipEpoch

/-! ### The programs -/

/-- The assignments of `AttachParent` and `Reparent` after their checks. -/
def nextParent (parent : NodeID) : TreeM UInt64 := do
  modify fun s => { s with epoch := s.epoch + 1 }
  modify fun s => { s with parent := some ⟨parent, s.epoch⟩ }
  bumpMembershipEpoch
  return (← get).epoch

def attachParent (parent : NodeID) : TreeM UInt64 := do
  failIf (!parent.valid) .zeroNode
  let s ← get
  failIf (parent = s.localNode ∨ s.routeOf parent ≠ 0) .cycle
  failIf (s.parent ≠ none) .parentExists
  nextParent parent

def reparent (parent : NodeID) : TreeM UInt64 := do
  failIf (!parent.valid) .zeroNode
  let s ← get
  failIf (parent = s.localNode ∨ s.routeOf parent ≠ 0) .cycle
  nextParent parent

def activateParent (parent : NodeID) (epoch : UInt64) : TreeM Unit := do
  failIf (!parent.valid) .zeroNode
  failIf (epoch = 0) .zeroParentEpoch
  let s ← get
  failIf (parent = s.localNode ∨ s.routeOf parent ≠ 0) .cycle
  failIf (epoch < s.epoch ∨ (epoch = s.epoch ∧ s.parent ≠ none)) .staleEpoch
  modify fun s => { s with epoch := epoch }
  modify fun s => { s with parent := some ⟨parent, epoch⟩ }
  bumpMembershipEpoch

/-- `s.children[child]`, with the error for a child that is not there. -/
def childEdge (child : NodeID) : TreeM Edge := do
  match (← get).children[child]? with
  | none => throw .notReachable
  | some edge => return edge

def reattachChild (child : NodeID) (epoch : UInt64) : TreeM Unit := do
  failIf (epoch = 0) .zeroChildEpoch
  let current ← childEdge child
  failIf (epoch ≤ current.epoch) .staleEpoch
  modify fun s => { s with children := s.children.insert child ⟨child, epoch⟩ }
  bumpMembershipEpoch

def dropParent : TreeM Bool := do
  modify fun s => { s with epoch := s.epoch + 1 }
  modify fun s => { s with parent := none }
  bumpMembershipEpoch
  return true

def detachParent (parent : NodeID) : TreeM Bool := do
  match (← get).parent with
  | none => return false
  | some edge => if edge.node ≠ parent then return false else dropParent

def detachParentEpoch (parent : NodeID) (epoch : UInt64) : TreeM Bool := do
  match (← get).parent with
  | none => return false
  | some edge => if edge.node ≠ parent ∨ edge.epoch ≠ epoch then return false else dropParent

def attachChild (child : NodeID) (epoch : UInt64) : TreeM Unit := do
  failIf (!child.valid) .zeroNode
  failIf (epoch = 0) .zeroChildEpoch
  let s ← get
  failIf (child = s.localNode ∨ s.isParent child) .cycle
  failIf (s.children.contains child) .childExists
  failIf (s.routeOf child ≠ 0) (.reachableVia child (s.routeOf child))
  modify fun s => { s with children := s.children.insert child ⟨child, epoch⟩ }
  modify fun s => { s with routes := s.routes.insert child child }
  modify fun s => { s with parents := s.parents.insert child s.localNode }
  bumpMembershipEpoch

def announceWithParent (via descendant parent : NodeID) (edgeEpoch : UInt64) : TreeM Unit := do
  failIf (!descendant.valid) .zeroNode
  failIf (!parent.valid) .zeroNode
  let edge ← childEdge via
  let s ← get
  failIf (edge.epoch ≠ edgeEpoch) .staleEpoch
  failIf (descendant = s.localNode ∨ s.isParent descendant) .cycle
  failIf (parent = descendant ∨ (parent ≠ via ∧ s.routeOf parent ≠ via)) (.notInSubtree parent via)
  failIf (s.children[descendant]?.any (·.node ≠ via)) .routeConflict
  failIf (s.routeOf descendant ≠ 0 ∧ s.routeOf descendant ≠ via)
    (.routesVia descendant (s.routeOf descendant))
  modify fun s => { s with routes := s.routes.insert descendant via }
  modify fun s => { s with parents := s.parents.insert descendant parent }
  bumpMembershipEpoch

def announce (via descendant : NodeID) (edgeEpoch : UInt64) : TreeM Unit :=
  announceWithParent via descendant via edgeEpoch

def removeRoute (child : NodeID) (removed : List NodeID) (entry : NodeID × NodeID) :
    TreeM (List NodeID) := do
  if entry.2 = child then
    modify fun s => { s with routes := s.routes.erase entry.1 }
    modify fun s => { s with parents := s.parents.erase entry.1 }
    return removed ++ [entry.1]
  else return removed

/-- `withdrawChildLocked`, with the loop over the routes as they were before it. -/
def withdrawChildLocked (child : NodeID) : TreeM (List NodeID) := do
  let s ← get
  if !s.children.contains child then return []
  else
    modify fun s => { s with children := s.children.erase child }
    modify fun s => { s with parents := s.parents.erase child }
    let removed ← s.routes.toList.foldlM (removeRoute child) []
    bumpMembershipEpoch
    return removed

def withdrawChild (child : NodeID) : TreeM (List NodeID) := withdrawChildLocked child

def withdrawChildEpoch (child : NodeID) (epoch : UInt64) : TreeM (List NodeID) := do
  match (← get).children[child]? with
  | none => return []
  | some edge => if edge.epoch ≠ epoch then return [] else withdrawChildLocked child

def withdrawRoute (via descendant : NodeID) (edgeEpoch : UInt64) : TreeM Unit := do
  let edge ← childEdge via
  let s ← get
  failIf (edge.epoch ≠ edgeEpoch) .staleEpoch
  failIf (descendant = via) .directChild
  failIf (s.routeOf descendant ≠ via) .notReachable
  modify fun s => { s with routes := s.routes.erase descendant }
  modify fun s => { s with parents := s.parents.erase descendant }
  bumpMembershipEpoch

/-! ### What they compute -/

/-- The end of a program that computes `r` in `s`: an error leaves `s`. -/
def ends {α : Type} (s : TreeState) :
    Except TreeError (α × TreeState) → EStateM.Result TreeError TreeState α
  | .ok (a, s') => .ok a s'
  | .error e => .error e s

section Runs

variable (s : TreeState)

theorem run_pure {α : Type} (a : α) : (pure a : TreeM α).run s = .ok a s := rfl

section Bind

variable {β : Type}

theorem run_bind_of_ok {α : Type} {x : TreeM α} {a : α} {s s' : TreeState}
    (h : x.run s = .ok a s') (f : α → TreeM β) : (x >>= f).run s = (f a).run s' := by
  show EStateM.bind x f s = _
  unfold EStateM.bind
  rw [show x s = .ok a s' from h]
  rfl

theorem run_get (f : TreeState → TreeM β) : (get >>= f).run s = (f s).run s := rfl

theorem run_modify (g : TreeState → TreeState) (f : PUnit → TreeM β) :
    (modify g >>= f).run s = (f ()).run (g s) := rfl

theorem run_failIf (c : Prop) [Decidable c] (e : TreeError) (f : Unit → TreeM β) :
    (failIf c e >>= f).run s = if c then .error e s else (f ()).run s := by
  unfold failIf
  split
  · rfl
  · rfl

theorem run_bump (f : Unit → TreeM β) :
    (bumpMembershipEpoch >>= f).run s = (f ()).run s.bumpMembershipEpoch := rfl

theorem run_childEdge (child : NodeID) (f : Edge → TreeM β) :
    (childEdge child >>= f).run s =
      match s.children[child]? with
      | none => .error .notReachable s
      | some edge => (f edge).run s := by
  unfold childEdge
  rw [bind_assoc, run_get]
  cases s.children[child]? with
  | none => rfl
  | some edge => rfl

end Bind

section

variable (parent : NodeID)

theorem nextParent_run :
    (nextParent parent).run s = .ok (s.epoch + 1) (s.setParent parent (s.epoch + 1)) := by
  simp only [nextParent, run_modify, run_bump, run_get, run_pure, TreeState.bump_epoch,
    TreeState.setParent]

theorem attachParent_run : (attachParent parent).run s = ends s (s.attachParent parent) := by
  simp only [attachParent, TreeState.attachParent, run_failIf, run_get, nextParent_run]
  split_ifs <;> rfl

theorem reparent_run : (reparent parent).run s = ends s (s.reparent parent) := by
  simp only [reparent, TreeState.reparent, run_failIf, run_get, nextParent_run]
  split_ifs <;> rfl

theorem activateParent_run (epoch : UInt64) :
    (activateParent parent epoch).run s =
      ends s ((s.activateParent parent epoch).map fun s' => ((), s')) := by
  simp only [activateParent, TreeState.activateParent, run_failIf, run_get, run_modify]
  split_ifs <;> rfl

theorem reattachChild_run (child : NodeID) (epoch : UInt64) :
    (reattachChild child epoch).run s =
      ends s ((s.reattachChild child epoch).map fun s' => ((), s')) := by
  simp only [reattachChild, TreeState.reattachChild, run_failIf, run_modify, run_childEdge]
  cases s.children[child]? with
  | none => split_ifs <;> rfl
  | some current => dsimp only; split_ifs <;> rfl

theorem detachParent_run : (detachParent parent).run s = ends s (.ok (s.detachParent parent)) := by
  simp only [detachParent, TreeState.detachParent, run_get]
  cases s.parent with
  | none => rfl
  | some edge => dsimp only; split_ifs <;> rfl

theorem detachParentEpoch_run (epoch : UInt64) :
    (detachParentEpoch parent epoch).run s = ends s (.ok (s.detachParentEpoch parent epoch)) := by
  simp only [detachParentEpoch, TreeState.detachParentEpoch, run_get]
  cases s.parent with
  | none => rfl
  | some edge => dsimp only; split_ifs <;> rfl

end

section

variable (child : NodeID)

theorem attachChild_run (epoch : UInt64) :
    (attachChild child epoch).run s =
      ends s ((s.attachChild child epoch).map fun s' => ((), s')) := by
  simp only [attachChild, TreeState.attachChild, run_failIf, run_get, run_modify]
  split_ifs <;> rfl

theorem announceWithParent_run (via descendant parent : NodeID) (edgeEpoch : UInt64) :
    (announceWithParent via descendant parent edgeEpoch).run s =
      ends s ((s.announceWithParent via descendant parent edgeEpoch).map fun s' => ((), s')) := by
  simp only [announceWithParent, TreeState.announceWithParent, run_failIf, run_get,
    run_modify, run_childEdge]
  cases s.children[via]? with
  | none => split_ifs <;> rfl
  | some edge => dsimp only; split_ifs <;> rfl

/-- The loop erases the entries that lead through the child, and lists their keys. -/
theorem removeRoutes_run (entries : List (NodeID × NodeID)) (removed : List NodeID) :
    (entries.foldlM (removeRoute child) removed).run s =
      .ok (removed ++ (entries.filter fun e => decide (e.2 = child)).map Prod.fst)
        { s with
            routes := eraseAll s.routes ((entries.filter fun e => decide
              (e.2 = child)).map Prod.fst)
            parents :=
              eraseAll s.parents ((entries.filter fun e => decide (e.2 = child)).map
                Prod.fst) } := by
  induction entries generalizing s removed with
  | nil =>
    rw [filter_nil, map_nil, append_nil]
    rfl
  | cons entry entries ih =>
    rw [foldlM_cons]
    by_cases hvia : entry.2 = child
    · have hround : (removeRoute child removed entry).run s =
          .ok (removed ++ [entry.1])
            { s with routes := s.routes.erase entry.1, parents := s.parents.erase entry.1 } := by
        rw [removeRoute, if_pos hvia]
        rfl
      rw [run_bind_of_ok hround, ih, filter_cons_of_pos (by simpa using hvia), map_cons,
        append_assoc, singleton_append]
      rfl
    · have hround : (removeRoute child removed entry).run s = .ok removed s := by
        rw [removeRoute, if_neg hvia]
        rfl
      rw [run_bind_of_ok hround, ih, filter_cons_of_neg (by simpa using hvia)]

theorem withdrawChild_run : (withdrawChild child).run s = ends s (.ok (s.withdrawChild child)) := by
  simp only [withdrawChild, withdrawChildLocked, TreeState.withdrawChild, run_get]
  split_ifs
  · rfl
  · simp only [run_modify, run_bind_of_ok (removeRoutes_run _ _ _ _), run_bump, run_pure,
      nil_append]
    rfl

theorem withdrawChildEpoch_run (epoch : UInt64) :
    (withdrawChildEpoch child epoch).run s = ends s (.ok (s.withdrawChildEpoch child epoch)) := by
  simp only [withdrawChildEpoch, TreeState.withdrawChildEpoch, run_get]
  cases s.children[child]? with
  | none => rfl
  | some edge =>
    dsimp only
    split_ifs
    · rfl
    · exact withdrawChild_run s child

end

theorem withdrawRoute_run (via descendant : NodeID) (edgeEpoch : UInt64) :
    (withdrawRoute via descendant edgeEpoch).run s =
      ends s ((s.withdrawRoute via descendant edgeEpoch).map fun s' => ((), s')) := by
  simp only [withdrawRoute, TreeState.withdrawRoute, run_failIf, run_get, run_modify, run_childEdge]
  cases s.children[via]? with
  | none => rfl
  | some edge => dsimp only; split_ifs <;> rfl

end Runs

end TreeM

namespace TreeState

/-! ### Calls -/

inductive Reply where
  | done
  | epoch (epoch : UInt64)
  | detached (changed : Bool)
  | removed (nodes : List NodeID)
  deriving DecidableEq, Repr

def Mutator.exec : Mutator → TreeM Reply
  | .attachParent parent => Reply.epoch <$> TreeM.attachParent parent
  | .reparent parent => Reply.epoch <$> TreeM.reparent parent
  | .activateParent parent epoch => (fun _ => Reply.done) <$> TreeM.activateParent parent epoch
  | .detachParent parent => Reply.detached <$> TreeM.detachParent parent
  | .detachParentEpoch parent epoch => Reply.detached <$> TreeM.detachParentEpoch parent epoch
  | .attachChild child epoch => (fun _ => Reply.done) <$> TreeM.attachChild child epoch
  | .reattachChild child epoch => (fun _ => Reply.done) <$> TreeM.reattachChild child epoch
  | .announce via descendant edgeEpoch =>
    (fun _ => Reply.done) <$> TreeM.announce via descendant edgeEpoch
  | .announceWithParent via descendant parent edgeEpoch =>
    (fun _ => Reply.done) <$> TreeM.announceWithParent via descendant parent edgeEpoch
  | .withdrawChild child => Reply.removed <$> TreeM.withdrawChild child
  | .withdrawChildEpoch child epoch => Reply.removed <$> TreeM.withdrawChildEpoch child epoch
  | .withdrawRoute via descendant edgeEpoch =>
    (fun _ => Reply.done) <$> TreeM.withdrawRoute via descendant edgeEpoch

/-- The state a program leaves, whether it fails or not. -/
def stateOf {α : Type} : EStateM.Result TreeError TreeState α → TreeState
  | .ok _ s => s
  | .error _ s => s

def step (s : TreeState) (m : Mutator) : TreeState := stateOf (m.exec.run s)

/-- The program `x` computes `r` in the state `s`. -/
def Computes {α : Type} (s : TreeState) (x : TreeM α) (r : Except TreeError (α × TreeState)) :
    Prop :=
  x.run s = TreeM.ends s r

theorem Computes.map {α β : Type} {s : TreeState} {x : TreeM α}
    {r : Except TreeError (α × TreeState)} (h : Computes s x r) (f : α → β) :
    Computes s (f <$> x) (r.map fun p => (f p.1, p.2)) := by
  show EStateM.map f x s = _
  unfold EStateM.map
  rw [show x s = TreeM.ends s r from h]
  rcases r with e | ⟨a, s'⟩
  · rfl
  · rfl

def answer (s : TreeState) : Mutator → Except TreeError (Reply × TreeState)
  | .attachParent parent => (s.attachParent parent).map fun p => (.epoch p.1, p.2)
  | .reparent parent => (s.reparent parent).map fun p => (.epoch p.1, p.2)
  | .activateParent parent epoch => (s.activateParent parent epoch).map fun s' => (.done, s')
  | .detachParent parent => .ok (.detached (s.detachParent parent).1, (s.detachParent parent).2)
  | .detachParentEpoch parent epoch =>
    .ok (.detached (s.detachParentEpoch parent epoch).1, (s.detachParentEpoch parent epoch).2)
  | .attachChild child epoch => (s.attachChild child epoch).map fun s' => (.done, s')
  | .reattachChild child epoch => (s.reattachChild child epoch).map fun s' => (.done, s')
  | .announce via descendant edgeEpoch =>
    (s.announce via descendant edgeEpoch).map fun s' => (.done, s')
  | .announceWithParent via descendant parent edgeEpoch =>
    (s.announceWithParent via descendant parent edgeEpoch).map fun s' => (.done, s')
  | .withdrawChild child => .ok (.removed (s.withdrawChild child).1, (s.withdrawChild child).2)
  | .withdrawChildEpoch child epoch =>
    .ok (.removed (s.withdrawChildEpoch child epoch).1, (s.withdrawChildEpoch child epoch).2)
  | .withdrawRoute via descendant edgeEpoch =>
    (s.withdrawRoute via descendant edgeEpoch).map fun s' => (.done, s')

theorem exec_done {s : TreeState} {x : TreeM Unit} {r : Except TreeError TreeState}
    (h : x.run s = TreeM.ends s (r.map fun s' => ((), s'))) :
    ((fun _ => Reply.done) <$> x).run s = TreeM.ends s (r.map fun s' => (Reply.done, s')) := by
  have hmap := Computes.map h fun _ => Reply.done
  cases r with
  | error e => exact hmap
  | ok s' => exact hmap

theorem exec_run (s : TreeState) (m : Mutator) : m.exec.run s = TreeM.ends s (s.answer m) := by
  cases m with
  | attachParent parent => exact Computes.map (TreeM.attachParent_run s parent) Reply.epoch
  | reparent parent => exact Computes.map (TreeM.reparent_run s parent) Reply.epoch
  | activateParent parent epoch => exact exec_done (TreeM.activateParent_run s parent epoch)
  | detachParent parent => exact Computes.map (TreeM.detachParent_run s parent) Reply.detached
  | detachParentEpoch parent epoch =>
    exact Computes.map (TreeM.detachParentEpoch_run s parent epoch) Reply.detached
  | attachChild child epoch => exact exec_done (TreeM.attachChild_run s child epoch)
  | reattachChild child epoch => exact exec_done (TreeM.reattachChild_run s child epoch)
  | announce via descendant edgeEpoch =>
    exact exec_done (TreeM.announceWithParent_run s via descendant via edgeEpoch)
  | announceWithParent via descendant parent edgeEpoch =>
    exact exec_done (TreeM.announceWithParent_run s via descendant parent edgeEpoch)
  | withdrawChild child => exact Computes.map (TreeM.withdrawChild_run s child) Reply.removed
  | withdrawChildEpoch child epoch =>
    exact Computes.map (TreeM.withdrawChildEpoch_run s child epoch) Reply.removed
  | withdrawRoute via descendant edgeEpoch =>
    exact exec_done (TreeM.withdrawRoute_run s via descendant edgeEpoch)

theorem exec_error {s s' : TreeState} {m : Mutator} {e : TreeError}
    (h : m.exec.run s = .error e s') : s' = s := by
  rw [exec_run] at h
  rcases hanswer : s.answer m with e' | ⟨reply, t⟩
  · rw [hanswer] at h
    cases h
    rfl
  · rw [hanswer] at h
    cases h

theorem stateOf_ends (s : TreeState) {β : Type} (f : TreeState → β)
    (r : Except TreeError TreeState) :
    stateOf (TreeM.ends s (r.map fun s' => (f s', s'))) = s.orKeep r := by
  cases r with
  | error e => rfl
  | ok s' => rfl

theorem stateOf_ends_pair (s : TreeState) {α β : Type} (f : α → β)
    (r : Except TreeError (α × TreeState)) :
    stateOf (TreeM.ends s (r.map fun p => (f p.1, p.2))) = s.orKeep (r.map Prod.snd) := by
  cases r with
  | error e => rfl
  | ok p => rfl

theorem step_eq_apply (s : TreeState) (m : Mutator) : s.step m = s.apply m := by
  rw [step, exec_run]
  cases m with
  | attachParent parent => exact stateOf_ends_pair s _ _
  | reparent parent => exact stateOf_ends_pair s _ _
  | activateParent parent epoch => exact stateOf_ends s _ _
  | detachParent parent => rfl
  | detachParentEpoch parent epoch => rfl
  | attachChild child epoch => exact stateOf_ends s _ _
  | reattachChild child epoch => exact stateOf_ends s _ _
  | announce via descendant edgeEpoch => exact stateOf_ends s _ _
  | announceWithParent via descendant parent edgeEpoch => exact stateOf_ends s _ _
  | withdrawChild child => rfl
  | withdrawChildEpoch child epoch => rfl
  | withdrawRoute via descendant edgeEpoch => exact stateOf_ends s _ _

/-! ### Routing -/

theorem wellFormed_steps {localNode : NodeID} {s : TreeState} (h : new localNode = .ok s)
    (ms : List Mutator) : WellFormed (ms.foldl step s) := by
  refine foldl_invariant (I := WellFormed) (fun s m hs => ?_) (wellFormed_new h) ms
  rw [step_eq_apply]
  exact wellFormed_apply hs m

theorem WellFormed.routeTo_down {s : TreeState} (h : WellFormed s) {target : NodeID} {route : Route}
    (hroute : s.routeTo target = .ok route) (hdown : route.kind = .down) :
    ∃ edge, s.children[route.nextHop]? = some edge ∧ edge.epoch = route.epoch ∧ edge.epoch ≠ 0 := by
  unfold routeTo at hroute
  split_ifs at hroute with hlocal hvia
  · cases hroute
    cases hdown
  · cases hroute
    -- a route that is not zero is an entry of the table, so it leads through a child
    have hentry := (routeOf_eq_iff hvia).mp rfl
    obtain ⟨-, -, edge, hedge⟩ := h.routed hentry
    refine ⟨edge, hedge, ?_, (h.child hedge).2.1⟩
    show edge.epoch = (s.childEpoch (s.routeOf target)).getD 0
    rw [childEpoch, hedge]
    rfl
  · split at hroute
    · cases hroute
      cases hdown
    · cases hroute

/-- **The routing invariant** in every state the mutators reach. -/
theorem routing_invariant (localNode : NodeID) (s : TreeState) (h : new localNode = .ok s)
    (ms : List Mutator) :
    let t := ms.foldl step s
    (∀ (c : NodeID) (edge : Edge), t.children[c]? = some edge →
      t.routes[c]? = some c ∧ edge.epoch ≠ 0) ∧
    (∀ d v : NodeID, t.routes[d]? = some v → v ∈ t.children) ∧
    (∀ d : NodeID, d ∈ t.routes ↔ d ∈ t.parents) ∧
    (0 ∉ t.routes ∧ t.localNode ∉ t.routes ∧ ∀ edge, t.parent = some edge → edge.node ∉ t.routes) ∧
    (∀ target route, t.routeTo target = .ok route → route.kind = .down →
      route.epoch ≠ 0 ∧ route.nextHop ∈ t.children) ∧
    ∀ (m : Mutator) (e : TreeError) (t' : TreeState), m.exec.run t = .error e t' → t' = t := by
  intro t
  have hwf : WellFormed t := wellFormed_steps h ms
  have hnone : ∀ d : NodeID, d ∉ t.routes ↔ t.routes[d]? = none := fun d => by simp
  refine ⟨fun c edge hc => ?_, fun d v hd => ?_, fun d => ?_, ⟨fun h0 => ?_, fun hl => ?_, ?_⟩, ?_,
    fun m e t' => exec_error⟩
  · exact ⟨(hwf.child hc).2.2, (hwf.child hc).2.1⟩
  · obtain ⟨-, -, edge, hedge⟩ := hwf.routed hd
    exact ExtTreeMap.mem_iff_isSome_getElem?.mpr (by rw [hedge]; rfl)
  · have hkeys := hwf.sameKeys d
    rw [ExtTreeMap.mem_iff_isSome_getElem?, ExtTreeMap.mem_iff_isSome_getElem?,
      ← Option.isNone_eq_false_iff, ← Option.isNone_eq_false_iff, Bool.eq_false_iff,
      Bool.eq_false_iff, ne_eq, ne_eq, Option.isNone_iff_eq_none, Option.isNone_iff_eq_none, hkeys]
  · obtain ⟨v, hv⟩ := Option.isSome_iff_exists.mp (ExtTreeMap.mem_iff_isSome_getElem?.mp h0)
    exact (hwf.routed hv).1 rfl
  · obtain ⟨v, hv⟩ := Option.isSome_iff_exists.mp (ExtTreeMap.mem_iff_isSome_getElem?.mp hl)
    exact (hwf.routed hv).2.1 rfl
  · intro edge hedge
    exact (hnone edge.node).mpr (hwf.parent hedge).2.2.2
  · intro target route hroute hdown
    obtain ⟨edge, hedge, hepoch, hne⟩ := hwf.routeTo_down hroute hdown
    exact ⟨hepoch ▸ hne, ExtTreeMap.mem_iff_isSome_getElem?.mpr (by rw [hedge]; rfl)⟩

theorem routing_invariant_chain :
    new 1 = .ok (fresh 1) ∧
      2 ∈ ([.attachChild 2 7, .announce 2 3 7, .attachParent 9].foldl step (fresh 1)).routes ∧
      (0 : NodeID) ∉ ([.attachChild 2 7, .announce 2 3 7, .attachParent 9].foldl step
        (fresh 1)).routes :=
  ⟨rfl, by decide +kernel, (routing_invariant 1 (fresh 1) rfl _).2.2.2.1.1⟩

end TreeState
