/-
Trees, session tables and links.

A node changes its tree and its session table in different places, and both ends of a
connection have their own copy.  What can be said of every run is little: the trees are
well formed, the child waits for the acknowledgement, and a link that is not registered
at the child carries no route events.

* `attachOrReattach_spec`, `handleRoute_spec` and their like — what a step does to a tree;
* `consistent_step`, `consistent_run` — every step keeps that.
-/
import MyFlowHub.Overlay

open Std Function Runs Option

namespace TreeState

variable {s s' : TreeState} {e : UInt64}

theorem announceWithParent_parent {v d p : NodeID}
    (h : s.announceWithParent v d p e = .ok s') : s'.parent = s.parent := by
  obtain ⟨-, -, -, -, -, -, -, -, -, rfl⟩ := announceWithParent_eq_ok h
  rw [bump_parent]

theorem withdrawRoute_parent {v d : NodeID} (h : s.withdrawRoute v d e = .ok s') :
    s'.parent = s.parent := by
  obtain ⟨-, -, -, rfl⟩ := withdrawRoute_eq_ok h
  rw [bump_parent]

theorem withdrawChildEpoch_parent (s : TreeState) (c : NodeID) (e : UInt64) :
    (s.withdrawChildEpoch c e).2.parent = s.parent := by
  rcases withdrawChildEpoch_cases s c e with hsame | ⟨-, hgone⟩
  · rw [hsame]
  · rcases withdrawChild_cases s c with hsame | ⟨-, hchild⟩
    · rw [hgone, hsame]
    · rw [hgone, hchild, bump_parent]

theorem withdrawChildEpoch_localNode (s : TreeState) (c : NodeID) (e : UInt64) :
    (s.withdrawChildEpoch c e).2.localNode = s.localNode :=
  (apply_effect s (.withdrawChildEpoch c e)).localNode_eq

theorem childEpoch_eq_some {c : NodeID} :
    s.childEpoch c = some e ↔ ∃ edge, s.children[c]? = some edge ∧ edge.epoch = e := map_eq_some_iff

theorem WellFormed.childEpoch_ne (hwf : WellFormed s) {c : NodeID} (h : s.childEpoch c = some e) :
    c ≠ s.localNode := by
  obtain ⟨edge, hc, -⟩ := childEpoch_eq_some.mp h
  exact (hwf.routed (hwf.child hc).2.2).2.1

/-- `WithdrawChildEpoch` does nothing when the child has another epoch by now; else the
child goes with everything routed through it. -/
theorem withdrawChildEpoch_spec (s : TreeState) (c : NodeID) (e : UInt64) :
    (s.withdrawChildEpoch c e = ([], s) ∧ s.childEpoch c ≠ some e) ∨
      s.childEpoch c = some e ∧
      (∀ x : NodeID, (s.withdrawChildEpoch c e).2.childEpoch x =
        if x = c then none else s.childEpoch x) ∧
      (∀ d : NodeID, (s.withdrawChildEpoch c e).2.routes[d]? =
        if s.routes[d]? = some c then none else s.routes[d]?) ∧
      ∀ d, d ∈ (s.withdrawChildEpoch c e).1 ↔ s.routes[d]? = some c := by
  by_cases hedge : s.childEpoch c = some e
  · obtain ⟨edge, hc, rfl⟩ := childEpoch_eq_some.mp hedge
    obtain ⟨hchildren, hroutes, hmem⟩ := withdrawChildEpoch_lookups hc
    refine .inr ⟨hedge, fun x => ?_, hroutes, hmem⟩
    rw [childEpoch, hchildren x]
    split_ifs <;> rfl
  · left
    rcases withdrawChildEpoch_cases s c e with hsame | ⟨hc, -⟩
    · exact ⟨hsame, hedge⟩
    · exact absurd (childEpoch_eq_some.mpr hc) hedge

theorem activateParent_spec {p : NodeID} (hwf : WellFormed s) (h : s.activateParent p e = .ok s') :
    WellFormed s' ∧ s'.localNode = s.localNode ∧ s'.children = s.children ∧
      s'.routes = s.routes ∧ s'.parent = some ⟨p, e⟩ := by
  refine ⟨hwf.activateParent h, ?_⟩
  obtain ⟨-, -, -, -, -, rfl⟩ := activateParent_eq_ok h
  exact ⟨bump_localNode _, bump_children _, bump_routes _, bump_parent _⟩

theorem detachParentEpoch_spec (s : TreeState) (p : NodeID) (e : UInt64) :
    (s.detachParentEpoch p e).2.localNode = s.localNode ∧
      (s.detachParentEpoch p e).2.children = s.children ∧
      (s.detachParentEpoch p e).2.routes = s.routes ∧
      ((s.detachParentEpoch p e).2.parent = s.parent ∨
        s.parent = some ⟨p, e⟩ ∧ (s.detachParentEpoch p e).2.parent = none) := by
  rcases detachParentEpoch_cases s p e with hsame | ⟨hparent, hclear⟩
  · rw [hsame]
    exact ⟨rfl, rfl, rfl, .inl rfl⟩
  · rw [hclear]
    exact ⟨bump_localNode _, bump_children _, bump_routes _, .inr ⟨hparent, bump_parent _⟩⟩

end TreeState

open TreeState

/-- What holds of the record of every link. -/
structure Overlay.Link.Valid (l : Overlay.Link) : Prop where
  child : l.child ≠ 0
  parent : l.parent ≠ 0
  epoch : l.epoch ≠ 0
  /-- the acknowledgement is queued when the parent registers the session -/
  unacked : l.parentEnd = .joining ∨ l.parentEnd.isAttached = true → l.acked = false
  /-- the child waits for the acknowledgement -/
  waiting : l.acked = false → l.childEnd = .joining ∨ l.childEnd = .ended
  /-- nothing is sent on a session that is not registered at the child -/
  idle : l.childEnd = .joining ∨ l.childEnd = .activated → l.queue = []

namespace Overlay.Net

/-! ### Trees after a step -/

theorem attachOrReattach_eq_ok {t t' : TreeState} {child : NodeID} {epoch : UInt64} {re : Bool}
    (h : attachOrReattach t child epoch = .ok (re, t')) :
    (re = false ∧ t.attachChild child epoch = .ok t') ∨
      (re = true ∧ t.reattachChild child epoch = .ok t') := by
  unfold attachOrReattach at h
  split at h
  · next hattach =>
    cases h
    exact Or.inl ⟨rfl, hattach⟩
  · cases hre : t.reattachChild child epoch with
    | error err =>
      rw [hre] at h
      cases h
    | ok t'' =>
      rw [hre] at h
      cases h
      exact Or.inr ⟨rfl, rfl⟩
  · cases h

/-- What `acceptChild` does to the parent's tree, attached or reattached.  A direct child
is routed through itself, or had no route. -/
theorem attachOrReattach_spec {t t' : TreeState} {c : NodeID} {e : UInt64} {re : Bool}
    (hwf : WellFormed t) (h : attachOrReattach t c e = .ok (re, t')) :
    WellFormed t' ∧ t'.localNode = t.localNode ∧ c ≠ t.localNode ∧ t'.parent = t.parent ∧
      (∀ x : NodeID, t'.childEpoch x = if x = c then some e else t.childEpoch x) ∧
      (∀ d : NodeID, t'.routes[d]? = if d = c then some c else t.routes[d]?) ∧
      ∀ v, t.routes[c]? = some v → v = c := by
  have hepochs : (∀ x : NodeID, t'.children[x]? = if x = c then some ⟨c, e⟩ else t.children[x]?) →
      ∀ x : NodeID, t'.childEpoch x = if x = c then some e else t.childEpoch x := by
    intro hchildren x
    rw [childEpoch, hchildren x]
    split_ifs <;> rfl
  rcases attachOrReattach_eq_ok h with ⟨-, hok⟩ | ⟨-, hok⟩
  · obtain ⟨hchildren, hroutes⟩ := attachChild_lookups hok
    have hwf' := hwf.attachChild hok
    obtain ⟨-, -, hne, -, -, hroute, rfl⟩ := attachChild_eq_ok hok
    refine ⟨hwf', bump_localNode _, hne, bump_parent _, hepochs hchildren, hroutes, fun v hv => ?_⟩
    rw [hwf.routeOf_eq_zero.mp hroute] at hv
    cases hv
  · obtain ⟨hchildren, hroutes⟩ := hwf.reattachChild_lookups hok
    have hwf' := hwf.reattachChild hok
    obtain ⟨-, ⟨current, hcurrent, -⟩, rfl⟩ := reattachChild_eq_ok hok
    have hself := (hwf.child hcurrent).2.2
    refine ⟨hwf', bump_localNode _, (hwf.routed hself).2.1, bump_parent _, hepochs
      hchildren, hroutes,
      fun v hv => ?_⟩
    rw [hself] at hv
    exact (some.inj hv).symm

theorem handleRoute_spec {s : Net} {l : Link} {f : Frame} {t : TreeState}
    (hwf : WellFormed (s.tree l.parent)) (h : s.handleRoute l f = .ok t) :
    WellFormed t ∧ t.localNode = (s.tree l.parent).localNode ∧
      t.children = (s.tree l.parent).children ∧ t.parent = (s.tree l.parent).parent ∧
      ∀ d : NodeID, t.routes[d]? = if d = f.node then
        (if f.isAnnounce then some l.child else none) else (s.tree l.parent).routes[d]? := by
  cases f with
  | announce d p =>
    obtain ⟨hchildren, hroutes⟩ := announceWithParent_lookups h
    exact ⟨hwf.announceWithParent h,
      (Effect.announce (m := .announceWithParent _ _ _ _) (.inl rfl) h).localNode_eq, hchildren,
      announceWithParent_parent h, hroutes⟩
  | withdraw d =>
    obtain ⟨hchildren, hroutes⟩ := withdrawRoute_lookups h
    exact ⟨hwf.withdrawRoute h,
      (Effect.withdrawRoute (m := .withdrawRoute l.child d l.epoch) h).localNode_eq, hchildren,
      withdrawRoute_parent h, hroutes⟩

/-! ### Session tables after a step -/

section Tables

variable {s : Net} {a b n x : NodeID} {j k : LinkID}

theorem setSession_cases (h : (s.setSession a b (some k)).sessions n x = some j) :
    j = k ∨ s.sessions n x = some j := by
  by_cases hkey : n = a ∧ x = b
  · rw [hkey.1, hkey.2, sessions_setSession_self] at h
    exact .inl (some.inj h).symm
  · rw [sessions_setSession_of_ne s _ hkey] at h
    exact .inr h

theorem sessions_of_drop (h : (s.setSession a b none).sessions n x = some j) :
    s.sessions n x = some j := by
  by_cases hkey : n = a ∧ x = b
  · rw [hkey.1, hkey.2, sessions_setSession_self] at h
    cases h
  · rwa [sessions_setSession_of_ne s _ hkey] at h

/-- After `registerSession` at `a` its other sessions are with children. -/
theorem registerParent_iff : (s.registerParent a b k).sessions n x = some j ↔
    (n = a ∧ x = b ∧ j = k) ∨ s.sessions n x = some j ∧
      (n = a → x ≠ b ∧ ∀ l, s.links j = some l → l.child ≠ a) := by
  by_cases hn : n = a
  · subst hn
    simp only [registerParent, update_self, true_and, forall_const]
    by_cases hx : x = b
    · simp [hx, eq_comm]
    · rw [if_neg hx, filter_eq_some_iff]
      cases s.links j with
      | none => simp [hx]
      | some l => simp [hx]
  · simp [registerParent, hn]

theorem registerParent_cases (h : (s.registerParent a b k).sessions n x = some j) :
    j = k ∨ s.sessions n x = some j :=
  (registerParent_iff.mp h).imp (fun hnew => hnew.2.2) And.left

end Tables

/-! ### What holds in every run -/

/-- Trees and links are as they should be. -/
structure Consistent (s : Net) : Prop where
  localNode : ∀ n, (s.tree n).localNode = n
  wellFormed : ∀ {n : NodeID}, n ≠ 0 → WellFormed (s.tree n)
  link : ∀ {k : LinkID} {l : Link}, s.links k = some l → l.Valid
  session : ∀ {n x : NodeID} {k : LinkID}, s.sessions n x = some k → s.links k ≠ none

theorem consistent_start : Consistent start := by
  refine ⟨fun n => rfl, fun {n} hn => ?_, fun hl => (by cases hl),
    fun hk => (by cases hk)⟩
  have hnew : TreeState.new n = .ok (TreeState.fresh n) := by
    rw [TreeState.new, if_neg (by simpa [NodeID.valid] using hn)]
  exact wellFormed_new hnew

section Consistent

variable {s s' : Net} {k : LinkID} {l l' : Link} {n : NodeID} {t : TreeState}

section

variable (h : Consistent s)
include h

theorem Consistent.setLink (hl' : l'.Valid) : Consistent (s.setLink k l') := by
  refine ⟨h.localNode, h.wellFormed, fun hj => ?_, fun {n x j} hj => ?_⟩
  · rcases links_setLink_cases hj with ⟨-, rfl⟩ | ⟨-, hj⟩
    · exact hl'
    · exact h.link hj
  · by_cases hjk : j = k
    · rw [hjk, links_setLink_self]
      exact some_ne_none _
    · rw [links_setLink_of_ne s l' hjk]
      exact h.session hj

theorem Consistent.setTable {table : NodeID → NodeID → Option LinkID} (hl : s.links k = some l)
    (htable : ∀ {n x j}, table n x = some j → j = k ∨ s.sessions n x = some j) (hl' : l'.Valid) :
    Consistent ({ s with sessions := table }.setLink k l') := by
  refine Consistent.setLink ⟨h.localNode, h.wellFormed, h.link, fun hj => ?_⟩ hl'
  rcases htable hj with rfl | hj
  · rw [show _ = some l from hl]
    exact some_ne_none _
  · exact h.session hj

theorem Consistent.setTree (hlocal : t.localNode = (s.tree n).localNode) (hwf : WellFormed t)
    (hl' : l'.Valid) : Consistent ((s.setTree n t).setLink k l') := by
  refine Consistent.setLink ⟨fun x => ?_, fun {x} hx0 => ?_, h.link, h.session⟩ hl'
  · by_cases hx : x = n
    · rw [hx, tree_setTree_self, hlocal, h.localNode]
    · rw [tree_setTree_of_ne s t hx]
      exact h.localNode x
  · by_cases hx : x = n
    · rw [hx, tree_setTree_self]
      exact hwf
    · rw [tree_setTree_of_ne s t hx]
      exact h.wellFormed hx0

theorem Consistent.child (hl : s.links k = some l) : WellFormed (s.tree l.child) :=
  h.wellFormed (h.link hl).child

theorem Consistent.parent (hl : s.links k = some l) : WellFormed (s.tree l.parent) :=
  h.wellFormed (h.link hl).parent

theorem Consistent.acked (hl : s.links k = some l) (hjoining : l.childEnd ≠ .joining)
    (hended : l.childEnd ≠ .ended) : l.acked = true := by
  by_contra hnot
  rcases (h.link hl).waiting (Bool.eq_false_iff.mpr hnot) with hend | hend
  · exact hjoining hend
  · exact hended hend

theorem Consistent.stepped {a : Act} (hstep : Stepped s a s') : Consistent s' := by
  cases hstep with
  | dial hchild hparent hepoch hk =>
    exact h.setLink ⟨hchild, hparent, hepoch, fun _ => rfl, fun _ => .inl rfl, fun _ => rfl⟩
  | attach hl hend hattach =>
    obtain ⟨hwf, hlocal, -⟩ := attachOrReattach_spec (h.parent hl) hattach
    exact h.setTree hlocal hwf
      { h.link hl with unacked := fun _ => (h.link hl).unacked (.inl hend) }
  | refuse hl =>
    exact h.setLink
      { h.link hl with unacked := fun hc => by simp [ParentEnd.isAttached] at hc }
  | accept hl =>
    exact h.setTable hl setSession_cases
      { h.link hl with
        unacked := fun hc => by simp [ParentEnd.isAttached, Link.addSends, Link.setSends] at hc
        waiting := fun hc => by simp [Link.addSends, Link.setSends] at hc }
  | @acceptFail k order l re hl =>
    exact h.setTree (withdrawChildEpoch_localNode ..) ((h.parent hl).withdrawChildEpoch _ _)
      { h.link hl with
        unacked := fun hc => by simp [ParentEnd.isAttached, Link.addSends, Link.setSends] at hc }
  | joinFail hl =>
    exact h.setLink
      { h.link hl with waiting := fun _ => .inr rfl, idle := fun hc => by simp at hc }
  | activate hl hend hacked hactivate =>
    obtain ⟨hwf, hlocal, -⟩ := activateParent_spec (h.child hl) hactivate
    refine h.setTree hlocal hwf { h.link hl with
      waiting := fun hc => ?_, idle := fun _ => (h.link hl).idle (.inl hend) }
    rw [show _ = true from hacked] at hc
    cases hc
  | register hl hend =>
    have hacked := h.acked hl (by simp [hend]) (by simp [hend])
    refine h.setTable hl registerParent_cases { h.link hl with
      waiting := fun hc => ?_, idle := fun hc => by simp at hc }
    rw [show _ = true from hacked] at hc
    cases hc
  | @abort k l hl =>
    have hv := h.link hl
    refine h.setTree (detachParentEpoch_spec ..).1 ((h.child hl).detachParentEpoch _ _) ?_
    unfold Link.aborted
    split_ifs
    · exact { hv with waiting := fun _ => .inr rfl, idle := fun hc => by simp at hc }
    · exact { hv with }
  | snapshot hl => exact h.setLink { h.link hl with }
  -- a frame is queued on a registered session only, which is neither joining nor activated
  | @send k thread via full l f rest hl =>
    have hpop : Consistent (s.setLink k (l.setSends thread rest)) := h.setLink { h.link hl with }
    rcases push_cases (s.setLink k (l.setSends thread rest)) (l.sender thread) f via full with
      ⟨hdrop, -⟩ | ⟨j, m, -, hm, -, hjoining, hactivated, hpush⟩
    · rw [hdrop]
      exact hpop
    · rw [hpush]
      refine hpop.setLink { hpop.link hm with idle := fun hc => ?_ }
      rcases hc with hc | hc
      · exact absurd hc hjoining
      · exact absurd hc hactivated
  | deliverInvalid hl => exact h.setLink { h.link hl with idle := fun _ => rfl }
  -- a delivery finds a frame, so the link's queue is not the empty one of an idle link
  | deliverRefused hl hqueue =>
    refine h.setLink { h.link hl with idle := fun hc => ?_ }
    rw [(h.link hl).idle hc] at hqueue
    cases hqueue
  | deliverAccepted hl _ _ hqueue hhandle =>
    obtain ⟨hwf, hlocal, -⟩ := handleRoute_spec (h.parent hl) hhandle
    refine h.setTree hlocal hwf { h.link hl with idle := fun hc => ?_ }
    rw [(h.link hl).idle hc] at hqueue
    cases hqueue
  | close hl => exact h.setLink { h.link hl with }
  -- the ends stop one by one: the table first, then the tree
  | stopChild hl hend =>
    have hacked := h.acked hl (by simp [hend]) (by simp [hend])
    refine h.setTable hl (fun hj => .inr (sessions_of_drop hj)) { h.link hl with
      waiting := fun hc => ?_, idle := fun hc => by simp at hc }
    rw [show _ = true from hacked] at hc
    cases hc
  | endChild hl =>
    exact h.setLink
      { h.link hl with waiting := fun _ => .inr rfl, idle := fun hc => by simp at hc }
  | detach hl =>
    exact h.setTree (detachParentEpoch_spec ..).1 ((h.child hl).detachParentEpoch _ _)
      { h.link hl with waiting := fun _ => .inr rfl, idle := fun hc => by simp at hc }
  | stopParent hl =>
    exact h.setTable hl (fun hj => .inr (sessions_of_drop hj)) { h.link hl with
      unacked := fun hc => by simp [ParentEnd.isAttached] at hc, idle := fun _ => rfl }
  | endParent hl =>
    exact h.setLink { h.link hl with
      unacked := fun hc => by simp [ParentEnd.isAttached] at hc, idle := fun _ => rfl }
  | withdraw hl =>
    exact h.setTree (withdrawChildEpoch_localNode ..) ((h.parent hl).withdrawChildEpoch _ _)
      { h.link hl with
        unacked := fun hc => by simp [ParentEnd.isAttached, Link.addSends, Link.setSends] at hc }

theorem consistent_step (a : Act) : Consistent (s.step a) := by
  rcases step_cases s a with hsame | hstep
  · rw [hsame]
    exact h
  · exact h.stepped hstep

end

theorem consistent_run (as : List Act) : Consistent (as.foldl step start) :=
  foldl_invariant (I := Consistent) (fun _ a h => consistent_step h a) consistent_start as

end Consistent

end Overlay.Net
