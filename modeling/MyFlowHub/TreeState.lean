/-
The topology a node knows (`runtime/tree/tree.go`).

A `TreeState` belongs to one node.  It holds the edge to the parent, the edges to
the direct children, and for every known descendant the child it is reached through
(`routes`) and the parent it was announced with (`parents`).  Every exported method
runs under the state's lock, so a mutator is a function from the state and its
arguments to an error or the new state; on an error nothing changes.

A Go map lookup without a second result yields zero for an absent key, which is why
`routes` and `parents` are read through `getD _ 0`.
-/
import MyFlowHub.Protocol
import MyFlowHub.Tables

open Std Tables

/-- The errors of the package.  The last four wrap `ErrRouteConflict`,
`ErrRouteConflict`, `ErrForgedSource` and the error of `NodeID.Validate`. -/
inductive TreeError where
  | parentExists | childExists | cycle | routeConflict | notReachable | staleEpoch | forgedSource
  | zeroNode | zeroParentEpoch | zeroChildEpoch | directChild
  | reachableVia (child via : NodeID)
  | routesVia (descendant current : NodeID)
  | notInSubtree (parent via : NodeID)
  | createTree | scopeAnchor | scopeCandidate
  deriving DecidableEq, Repr

/-- `Error()`. -/
def TreeError.message : TreeError → String
  | .parentExists => "parent already exists"
  | .childExists => "child already exists"
  | .cycle => "tree cycle"
  | .routeConflict => "route conflict"
  | .notReachable => "node is not reachable"
  | .staleEpoch => "stale topology epoch"
  | .forgedSource => "source is not represented by child link"
  | .zeroNode => "invalid envelope: node ID must be non-zero"
  | .zeroParentEpoch => "parent epoch must be non-zero"
  | .zeroChildEpoch => "child epoch must be non-zero"
  | .directChild => "direct child must be withdrawn with WithdrawChild"
  | .reachableVia child via => s!"route conflict: {child} is already reachable via {via}"
  | .routesVia descendant current =>
    s!"route conflict: {descendant} already routes via {current}"
  | .notInSubtree parent via =>
    s!"source is not represented by child link: announced parent {parent} is not in child {via} subtree"
  | .createTree => "create tree: invalid envelope: node ID must be non-zero"
  | .scopeAnchor => "scope anchor: invalid envelope: node ID must be non-zero"
  | .scopeCandidate => "scope candidate: invalid envelope: node ID must be non-zero"

/-- `Edge`. -/
structure Edge where
  node : NodeID
  epoch : UInt64
  deriving DecidableEq, Repr

/-- `Direction`. -/
inductive Direction where
  | here | up | down
  deriving DecidableEq, Repr

/-- `Route`. -/
structure Route where
  target : NodeID
  nextHop : NodeID := 0
  epoch : UInt64
  kind : Direction
  deriving DecidableEq, Repr

/-- `Relation`: a known node and the parent it was announced with. -/
structure ParentRelation where
  node : NodeID
  parent : NodeID
  deriving DecidableEq, Repr

/-- `State`. -/
structure TreeState where
  localNode : NodeID
  parent : Option Edge
  children : ExtTreeMap NodeID Edge compare
  routes : ExtTreeMap NodeID NodeID compare
  parents : ExtTreeMap NodeID NodeID compare
  epoch : UInt64
  membershipEpoch : UInt64
  deriving DecidableEq

namespace TreeState

/-- The state `New` returns. -/
def fresh (localNode : NodeID) : TreeState where
  localNode := localNode
  parent := none
  children := ∅
  routes := ∅
  parents := ∅
  epoch := 0
  membershipEpoch := 1

/-- `New`. -/
def new (localNode : NodeID) : Except TreeError TreeState :=
  if !localNode.valid then .error .createTree else .ok (fresh localNode)

/-- `s.routes[node]`. -/
def routeOf (s : TreeState) (node : NodeID) : NodeID := s.routes.getD node 0

/-- `NextEpoch`. -/
def nextEpoch (s : TreeState) : UInt64 := s.epoch + 1

/-- `bumpMembershipEpochLocked`. -/
def bumpMembershipEpoch (s : TreeState) : TreeState :=
  if s.membershipEpoch ≠ ~~~0 then { s with membershipEpoch := s.membershipEpoch + 1 } else s

/-- The edge to the parent recorded by `AttachParent`, `Reparent` and
`ActivateParent`. -/
def setParent (s : TreeState) (parent : NodeID) (epoch : UInt64) : TreeState :=
  { s with epoch := epoch, parent := some ⟨parent, epoch⟩ }.bumpMembershipEpoch

/-- `AttachParent`. -/
def attachParent (s : TreeState) (parent : NodeID) : Except TreeError (UInt64 × TreeState) :=
  if !parent.valid then .error .zeroNode
  else if parent = s.localNode ∨ s.routeOf parent ≠ 0 then .error .cycle
  else if s.parent ≠ none then .error .parentExists
  else .ok (s.epoch + 1, s.setParent parent (s.epoch + 1))

/-- `Reparent`. -/
def reparent (s : TreeState) (parent : NodeID) : Except TreeError (UInt64 × TreeState) :=
  if !parent.valid then .error .zeroNode
  else if parent = s.localNode ∨ s.routeOf parent ≠ 0 then .error .cycle
  else .ok (s.epoch + 1, s.setParent parent (s.epoch + 1))

/-- `ActivateParent`. -/
def activateParent (s : TreeState) (parent : NodeID) (epoch : UInt64) :
    Except TreeError TreeState :=
  if !parent.valid then .error .zeroNode
  else if epoch = 0 then .error .zeroParentEpoch
  else if parent = s.localNode ∨ s.routeOf parent ≠ 0 then .error .cycle
  else if epoch < s.epoch ∨ (epoch = s.epoch ∧ s.parent ≠ none) then .error .staleEpoch
  else .ok (s.setParent parent epoch)

/-- `ReattachChild`. -/
def reattachChild (s : TreeState) (child : NodeID) (epoch : UInt64) :
    Except TreeError TreeState :=
  if epoch = 0 then .error .zeroChildEpoch
  else
    match s.children[child]? with
    | none => .error .notReachable
    | some current =>
      if epoch ≤ current.epoch then .error .staleEpoch
      else .ok { s with children := s.children.insert child ⟨child, epoch⟩ }.bumpMembershipEpoch

def clearParent (s : TreeState) : TreeState :=
  { s with epoch := s.epoch + 1, parent := none }.bumpMembershipEpoch

/-- `DetachParent`. -/
def detachParent (s : TreeState) (parent : NodeID) : Bool × TreeState :=
  match s.parent with
  | none => (false, s)
  | some edge => if edge.node ≠ parent then (false, s) else (true, s.clearParent)

/-- `DetachParentEpoch`. -/
def detachParentEpoch (s : TreeState) (parent : NodeID) (epoch : UInt64) : Bool × TreeState :=
  match s.parent with
  | none => (false, s)
  | some edge =>
    if edge.node ≠ parent ∨ edge.epoch ≠ epoch then (false, s) else (true, s.clearParent)

/-- `s.parent != nil && node == s.parent.Node`. -/
def isParent (s : TreeState) (node : NodeID) : Bool :=
  match s.parent with
  | none => false
  | some edge => node = edge.node

/-- `AttachChild`. -/
def attachChild (s : TreeState) (child : NodeID) (epoch : UInt64) :
    Except TreeError TreeState :=
  if !child.valid then .error .zeroNode
  else if epoch = 0 then .error .zeroChildEpoch
  else if child = s.localNode ∨ s.isParent child then .error .cycle
  else if s.children.contains child then .error .childExists
  else if s.routeOf child ≠ 0 then .error (.reachableVia child (s.routeOf child))
  else .ok
    { s with
        children := s.children.insert child ⟨child, epoch⟩
        routes := s.routes.insert child child
        parents := s.parents.insert child s.localNode }.bumpMembershipEpoch

/-- `ChildEpoch`. -/
def childEpoch (s : TreeState) (child : NodeID) : Option UInt64 :=
  s.children[child]?.map (·.epoch)

/-- `AnnounceWithParent`. -/
def announceWithParent (s : TreeState) (via descendant parent : NodeID) (edgeEpoch : UInt64) :
    Except TreeError TreeState :=
  if !descendant.valid then .error .zeroNode
  else if !parent.valid then .error .zeroNode
  else
    match s.children[via]? with
    | none => .error .notReachable
    | some edge =>
      if edge.epoch ≠ edgeEpoch then .error .staleEpoch
      else if descendant = s.localNode ∨ s.isParent descendant then .error .cycle
      else if parent = descendant ∨ (parent ≠ via ∧ s.routeOf parent ≠ via) then
        .error (.notInSubtree parent via)
      else if s.children[descendant]?.any (·.node ≠ via) then .error .routeConflict
      else if s.routeOf descendant ≠ 0 ∧ s.routeOf descendant ≠ via then
        .error (.routesVia descendant (s.routeOf descendant))
      else .ok
        { s with
            routes := s.routes.insert descendant via
            parents := s.parents.insert descendant parent }.bumpMembershipEpoch

/-- `Announce`. -/
def announce (s : TreeState) (via descendant : NodeID) (edgeEpoch : UInt64) :
    Except TreeError TreeState :=
  s.announceWithParent via descendant via edgeEpoch

/-- The targets `withdrawChildLocked` removes.  Go ranges over the map in no fixed
order; here they come in key order. -/
def removedBy (s : TreeState) (child : NodeID) : List NodeID :=
  keysWhere s.routes (· = child)

/-- `withdrawChildLocked`, `WithdrawChild`. -/
def withdrawChild (s : TreeState) (child : NodeID) : List NodeID × TreeState :=
  if !s.children.contains child then ([], s)
  else (s.removedBy child, { s with
        children := s.children.erase child
        routes := eraseAll s.routes (s.removedBy child)
        parents := eraseAll (s.parents.erase child) (s.removedBy child) }.bumpMembershipEpoch)

/-- `WithdrawChildEpoch`. -/
def withdrawChildEpoch (s : TreeState) (child : NodeID) (epoch : UInt64) :
    List NodeID × TreeState :=
  match s.children[child]? with
  | none => ([], s)
  | some edge => if edge.epoch ≠ epoch then ([], s) else s.withdrawChild child

/-- `WithdrawRoute`. -/
def withdrawRoute (s : TreeState) (via descendant : NodeID) (edgeEpoch : UInt64) :
    Except TreeError TreeState :=
  match s.children[via]? with
  | none => .error .notReachable
  | some edge =>
    if edge.epoch ≠ edgeEpoch then .error .staleEpoch
    else if descendant = via then .error .directChild
    else if s.routeOf descendant ≠ via then .error .notReachable
    else .ok
      { s with
          routes := s.routes.erase descendant
          parents := s.parents.erase descendant }.bumpMembershipEpoch

/-- `reachableLocked`. -/
def reachable (s : TreeState) (node : NodeID) : Bool := node = s.localNode ∨ s.routeOf node ≠ 0

/-- The loop of `ScopeContains`; `none` when the fuel runs out. -/
def scopeLoop (s : TreeState) (anchor : NodeID) : ℕ → NodeID → Option Bool
  | 0, _ => none
  | fuel + 1, current =>
    if current = anchor then some true
    else if current = s.localNode then some false
    else if s.parents.getD current 0 = 0 ∨ s.parents.getD current 0 = current then some false
    else scopeLoop s anchor fuel (s.parents.getD current 0)

/-- `ScopeContains`; `none` when `fuel` rounds of the loop were not enough. -/
def scopeContains (s : TreeState) (fuel : ℕ) (anchor candidate : NodeID) :
    Option (Except TreeError (Bool × UInt64)) :=
  if !anchor.valid then some (.error .scopeAnchor)
  else if !candidate.valid then some (.error .scopeCandidate)
  else if !s.reachable anchor || !s.reachable candidate then some (.ok (false, s.membershipEpoch))
  else (s.scopeLoop anchor fuel candidate).map fun found => .ok (found, s.membershipEpoch)

/-- `ValidateSource`; `none` is acceptance. -/
def validateSource (s : TreeState) (via source : NodeID) (edgeEpoch : UInt64) :
    Option TreeError :=
  match s.children[via]? with
  | none => some .notReachable
  | some edge =>
    if edge.epoch ≠ edgeEpoch then some .staleEpoch
    else if source = via ∨ s.routeOf source = via then none
    else some .forgedSource

/-- `ValidateParentControl`; `none` is acceptance. -/
def validateParentControl (s : TreeState) (parent : NodeID) (epoch : UInt64) :
    Option TreeError :=
  match s.parent with
  | none => some .notReachable
  | some edge =>
    if edge.node ≠ parent then some .notReachable
    else if edge.epoch ≠ epoch then some .staleEpoch
    else none

/-- `RouteTo`. -/
def routeTo (s : TreeState) (target : NodeID) : Except TreeError Route :=
  if target = s.localNode then .ok { target := target, kind := .here, epoch := s.epoch }
  else if s.routeOf target ≠ 0 then
    .ok { target := target, nextHop := s.routeOf target,
          epoch := (s.childEpoch (s.routeOf target)).getD 0, kind := .down }
  else
    match s.parent with
    | some edge => .ok { target := target, nextHop := edge.node, epoch := edge.epoch, kind := .up }
    | none => .error .notReachable

/-- The `depth` closure of `Relations`: the number of parent steps to the local node,
`none` for the largest integer it returns on a repeated or unknown node. -/
def depth (s : TreeState) : ℕ → List NodeID → ℕ → NodeID → Option ℕ
  | 0, _, _, _ => none
  | fuel + 1, seen, value, node =>
    if node = s.localNode then some value
    else if node ∈ seen then none
    else if s.parents.getD node 0 = 0 then none
    else s.depth fuel (node :: seen) (value + 1) (s.parents.getD node 0)

/-- The depth `Relations` sorts by.  Every round either ends the loop or visits a new
key of `parents`, so this fuel is never used up. -/
def depthOf (s : TreeState) (node : NodeID) : Option ℕ := s.depth (s.parents.size + 2) [] 0 node

/-- The `less` closure of `Relations`, made reflexive. -/
def relationLE (s : TreeState) (a b : ParentRelation) : Bool :=
  match s.depthOf a.node, s.depthOf b.node with
  | some i, some j => i < j || (i == j && a.node ≤ b.node)
  | some _, none => true
  | none, some _ => false
  | none, none => a.node ≤ b.node

/-- `Relations`. -/
def relations (s : TreeState) : List ParentRelation :=
  (s.parents.toList.map fun e => ⟨e.1, e.2⟩).insertionSort fun a b => s.relationLE a b

/-! ### What an accepted call has checked, and the state it leaves

The membership epoch plays no part in routing; everything else of the state is
untouched by the bump. -/

section Bump

variable (s : TreeState)

@[simp] theorem bump_localNode : s.bumpMembershipEpoch.localNode = s.localNode := by
  unfold bumpMembershipEpoch; split <;> rfl

@[simp] theorem bump_parent : s.bumpMembershipEpoch.parent = s.parent := by
  unfold bumpMembershipEpoch; split <;> rfl

@[simp] theorem bump_children : s.bumpMembershipEpoch.children = s.children := by
  unfold bumpMembershipEpoch; split <;> rfl

@[simp] theorem bump_routes : s.bumpMembershipEpoch.routes = s.routes := by
  unfold bumpMembershipEpoch; split <;> rfl

@[simp] theorem bump_parents : s.bumpMembershipEpoch.parents = s.parents := by
  unfold bumpMembershipEpoch; split <;> rfl

@[simp] theorem bump_epoch : s.bumpMembershipEpoch.epoch = s.epoch := by
  unfold bumpMembershipEpoch; split <;> rfl

end Bump

section Accepted

variable {s s' : TreeState}

theorem new_eq_ok {localNode : NodeID} (h : new localNode = .ok s) :
    localNode ≠ 0 ∧ s.localNode = localNode ∧ s.parent = none ∧ s.children = ∅ ∧ s.routes = ∅ ∧
      s.parents = ∅ := by
  unfold new at h
  split at h
  · cases h
  · next hvalid =>
    cases h
    exact ⟨by simpa [NodeID.valid] using hvalid, rfl, rfl, rfl, rfl, rfl⟩

variable {parent : NodeID} {e : UInt64}

theorem attachParent_eq_ok (h : s.attachParent parent = .ok (e, s')) :
    parent ≠ 0 ∧ parent ≠ s.localNode ∧ s.routeOf parent = 0 ∧ s.parent = none ∧
      e = s.epoch + 1 ∧ s' = s.setParent parent e := by
  unfold attachParent at h
  split_ifs at h with hvalid hcycle hparent
  cases h
  refine ⟨by simpa [NodeID.valid] using hvalid, ?_, ?_, not_not.mp hparent, rfl, rfl⟩
  · exact fun hc => hcycle (.inl hc)
  · exact not_not.mp fun hc => hcycle (.inr hc)

theorem reparent_eq_ok (h : s.reparent parent = .ok (e, s')) :
    parent ≠ 0 ∧ parent ≠ s.localNode ∧ s.routeOf parent = 0 ∧ e = s.epoch + 1 ∧
      s' = s.setParent parent e := by
  unfold reparent at h
  split_ifs at h with hvalid hcycle
  cases h
  refine ⟨by simpa [NodeID.valid] using hvalid, ?_, ?_, rfl, rfl⟩
  · exact fun hc => hcycle (.inl hc)
  · exact not_not.mp fun hc => hcycle (.inr hc)

theorem activateParent_eq_ok (h : s.activateParent parent e = .ok s') :
    parent ≠ 0 ∧ e ≠ 0 ∧ parent ≠ s.localNode ∧ s.routeOf parent = 0 ∧ s.epoch ≤ e ∧
      s' = s.setParent parent e := by
  unfold activateParent at h
  split_ifs at h with hvalid hzero hcycle hstale
  cases h
  refine ⟨by simpa [NodeID.valid] using hvalid, hzero, ?_, ?_, ?_, rfl⟩
  · exact fun hc => hcycle (.inl hc)
  · exact not_not.mp fun hc => hcycle (.inr hc)
  · exact UInt64.not_lt.mp fun hc => hstale (.inl hc)

theorem reattachChild_eq_ok {child : NodeID} (h : s.reattachChild child e = .ok s') :
    e ≠ 0 ∧ (∃ current, s.children[child]? = some current ∧ current.epoch < e) ∧
      s' = { s with children := s.children.insert child ⟨child, e⟩ }.bumpMembershipEpoch := by
  unfold reattachChild at h
  split_ifs at h with hzero
  split at h
  · cases h
  · next current hcurrent =>
    split_ifs at h with hstale
    cases h
    exact ⟨hzero, ⟨current, hcurrent, UInt64.not_le.mp hstale⟩, rfl⟩

theorem attachChild_eq_ok {child : NodeID} (h : s.attachChild child e = .ok s') :
    child ≠ 0 ∧ e ≠ 0 ∧ child ≠ s.localNode ∧ s.isParent child = false ∧
      s.children[child]? = none ∧ s.routeOf child = 0 ∧
      s' = { s with
        children := s.children.insert child ⟨child, e⟩
        routes := s.routes.insert child child
        parents := s.parents.insert child s.localNode }.bumpMembershipEpoch := by
  unfold attachChild at h
  split_ifs at h with hvalid hzero hcycle hexists hroute
  cases h
  refine ⟨by simpa [NodeID.valid] using hvalid, hzero, ?_, ?_, ?_, not_not.mp hroute, rfl⟩
  · exact fun hc => hcycle (.inl hc)
  · exact Bool.eq_false_iff.mpr fun hc => hcycle (.inr hc)
  · rw [ExtTreeMap.contains_iff_mem] at hexists
    exact ExtTreeMap.getElem?_eq_none hexists

theorem announceWithParent_eq_ok {via d p : NodeID} (h : s.announceWithParent via d p e = .ok s') :
    d ≠ 0 ∧ p ≠ 0 ∧ (∃ edge, s.children[via]? = some edge ∧ edge.epoch = e) ∧
      d ≠ s.localNode ∧ s.isParent d = false ∧ p ≠ d ∧ (p = via ∨ s.routeOf p = via) ∧
      (∀ edge, s.children[d]? = some edge → edge.node = via) ∧
      (s.routeOf d = 0 ∨ s.routeOf d = via) ∧
      s' = { s with
        routes := s.routes.insert d via
        parents := s.parents.insert d p }.bumpMembershipEpoch := by
  unfold announceWithParent at h
  by_cases hd : !d.valid
  · rw [if_pos hd] at h
    cases h
  by_cases hp : !p.valid
  · rw [if_neg hd, if_pos hp] at h
    cases h
  rw [if_neg hd, if_neg hp] at h
  split at h
  · cases h
  · next edge hedge =>
    split_ifs at h with hepoch hcycle hforged hdirect hroute
    cases h
    refine ⟨by simpa [NodeID.valid] using hd, by simpa [NodeID.valid] using hp,
      ⟨edge, hedge, not_not.mp hepoch⟩, ?_, ?_, ?_, ?_, ?_, ?_, rfl⟩
    · exact fun hc => hcycle (.inl hc)
    · exact Bool.eq_false_iff.mpr fun hc => hcycle (.inr hc)
    · exact fun hc => hforged (.inl hc)
    · by_contra hc
      rw [not_or] at hc
      exact hforged (.inr hc)
    · intro other hother
      rw [hother] at hdirect
      simpa using hdirect
    · by_contra hc
      rw [not_or] at hc
      exact hroute hc

theorem withdrawRoute_eq_ok {via d : NodeID} (h : s.withdrawRoute via d e = .ok s') :
    (∃ edge, s.children[via]? = some edge ∧ edge.epoch = e) ∧ d ≠ via ∧ s.routeOf d = via ∧
      s' = { s with
        routes := s.routes.erase d
        parents := s.parents.erase d }.bumpMembershipEpoch := by
  unfold withdrawRoute at h
  split at h
  · cases h
  · next edge hedge =>
    split_ifs at h with hepoch hdirect hroute
    cases h
    exact ⟨⟨edge, hedge, not_not.mp hepoch⟩, hdirect, not_not.mp hroute, rfl⟩

variable (s : TreeState)

theorem withdrawChild_cases (child : NodeID) :
    s.withdrawChild child = ([], s) ∨
      (∃ edge, s.children[child]? = some edge) ∧
      s.withdrawChild child = (s.removedBy child, { s with
          children := s.children.erase child
          routes := eraseAll s.routes (s.removedBy child)
          parents := eraseAll (s.parents.erase child)
            (s.removedBy child) }.bumpMembershipEpoch) := by
  unfold withdrawChild
  split_ifs with hmem
  · exact .inl rfl
  · refine .inr ⟨?_, rfl⟩
    rw [Bool.not_eq_true, Bool.not_eq_false', ExtTreeMap.contains_iff_mem] at hmem
    exact ⟨_, ExtTreeMap.getElem?_eq_some_getElem hmem⟩

theorem withdrawChildEpoch_cases (child : NodeID) (e : UInt64) :
    s.withdrawChildEpoch child e = ([], s) ∨
      (∃ edge, s.children[child]? = some edge ∧ edge.epoch = e) ∧
      s.withdrawChildEpoch child e = s.withdrawChild child := by
  unfold withdrawChildEpoch
  split
  · exact .inl rfl
  · next edge hedge =>
    split_ifs with hepoch
    · exact .inl rfl
    · exact .inr ⟨⟨edge, hedge, not_not.mp hepoch⟩, rfl⟩

theorem detachParent_cases (parent : NodeID) :
    (s.detachParent parent).2 = s ∨ (s.detachParent parent).2 = s.clearParent := by
  unfold detachParent
  split
  · exact .inl rfl
  · split_ifs
    · exact .inl rfl
    · exact .inr rfl

theorem detachParentEpoch_cases (parent : NodeID) (e : UInt64) :
    (s.detachParentEpoch parent e).2 = s ∨ s.parent = some ⟨parent, e⟩ ∧
      (s.detachParentEpoch parent e).2 = s.clearParent := by
  unfold detachParentEpoch
  split
  · exact .inl rfl
  · next edge hedge =>
    split_ifs with hedge'
    · exact .inl rfl
    · rw [not_or, not_not, not_not] at hedge'
      refine .inr ⟨?_, rfl⟩
      rw [hedge, ← hedge'.1, ← hedge'.2]

end Accepted

end TreeState
