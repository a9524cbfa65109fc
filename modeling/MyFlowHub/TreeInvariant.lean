/-
What holds of every topology state.

`Mutator` lists the exported methods that change a `TreeState`, `apply` runs one of
them, keeping the state when it reports an error.  `WellFormed` collects what the
rest of the runtime relies on without checking it again: routes lead through direct
children, the local node and the parent are never routed, and the two descendant
tables have the same keys.

* `wellFormed_apply`, `wellFormed_run` — every mutator keeps it, from `New` on.
-/
import MyFlowHub.TreeState
import MyFlowHub.Runs

open Std Tables Runs Option

namespace TreeState

inductive Mutator where
  | attachParent (parent : NodeID)
  | reparent (parent : NodeID)
  | activateParent (parent : NodeID) (epoch : UInt64)
  | detachParent (parent : NodeID)
  | detachParentEpoch (parent : NodeID) (epoch : UInt64)
  | attachChild (child : NodeID) (epoch : UInt64)
  | reattachChild (child : NodeID) (epoch : UInt64)
  | announce (via descendant : NodeID) (edgeEpoch : UInt64)
  | announceWithParent (via descendant parent : NodeID) (edgeEpoch : UInt64)
  | withdrawChild (child : NodeID)
  | withdrawChildEpoch (child : NodeID) (epoch : UInt64)
  | withdrawRoute (via descendant : NodeID) (edgeEpoch : UInt64)
  deriving DecidableEq, Repr

def orKeep (s : TreeState) : Except TreeError TreeState → TreeState
  | .ok s' => s'
  | .error _ => s

def apply (s : TreeState) : Mutator → TreeState
  | .attachParent parent => s.orKeep ((s.attachParent parent).map Prod.snd)
  | .reparent parent => s.orKeep ((s.reparent parent).map Prod.snd)
  | .activateParent parent epoch => s.orKeep (s.activateParent parent epoch)
  | .detachParent parent => (s.detachParent parent).2
  | .detachParentEpoch parent epoch => (s.detachParentEpoch parent epoch).2
  | .attachChild child epoch => s.orKeep (s.attachChild child epoch)
  | .reattachChild child epoch => s.orKeep (s.reattachChild child epoch)
  | .announce via descendant edgeEpoch => s.orKeep (s.announce via descendant edgeEpoch)
  | .announceWithParent via descendant parent edgeEpoch =>
    s.orKeep (s.announceWithParent via descendant parent edgeEpoch)
  | .withdrawChild child => (s.withdrawChild child).2
  | .withdrawChildEpoch child epoch => (s.withdrawChildEpoch child epoch).2
  | .withdrawRoute via descendant edgeEpoch => s.orKeep (s.withdrawRoute via descendant edgeEpoch)

theorem orKeep_cases (s : TreeState) (r : Except TreeError TreeState) :
    s.orKeep r = s ∨ r = .ok (s.orKeep r) := by
  cases r with
  | error e => exact Or.inl rfl
  | ok s' => exact Or.inr rfl

theorem orKeep_map_cases {β : Type} (s : TreeState) (r : Except TreeError (β × TreeState)) :
    s.orKeep (r.map Prod.snd) = s ∨ ∃ b, r = .ok (b, s.orKeep (r.map Prod.snd)) := by
  cases r with
  | error e => exact Or.inl rfl
  | ok p => exact Or.inr ⟨p.1, rfl⟩

inductive Effect (s : TreeState) (m : Mutator) : TreeState → Prop
  | kept : Effect s m s
  | setParent {p : NodeID} {e : UInt64} (hp : p ≠ 0) (hlocal : p ≠ s.localNode)
      (hroute : s.routeOf p = 0) : Effect s m (s.setParent p e)
  | clearParent : Effect s m s.clearParent
  | attachChild {c : NodeID} {e : UInt64} {s' : TreeState} (hok : s.attachChild c e = .ok s') :
      Effect s m s'
  | reattachChild {c : NodeID} {e : UInt64} {s' : TreeState}
      (hok : s.reattachChild c e = .ok s') : Effect s m s'
  | announce {v d p : NodeID} {e : UInt64} {s' : TreeState}
      (hm : m = .announceWithParent v d p e ∨ (m = .announce v d e ∧ p = v))
      (hok : s.announceWithParent v d p e = .ok s') : Effect s m s'
  | withdrawChild (c : NodeID) : Effect s m (s.withdrawChild c).2
  | withdrawRoute {v d : NodeID} {e : UInt64} {s' : TreeState}
      (hok : s.withdrawRoute v d e = .ok s') : Effect s m s'

theorem Effect.of_orKeep {s : TreeState} {m : Mutator} {r : Except TreeError TreeState}
    (h : ∀ s', r = .ok s' → Effect s m s') : Effect s m (s.orKeep r) := by
  rcases orKeep_cases s r with hsame | hok
  · rw [hsame]
    exact .kept
  · exact h _ hok

theorem Effect.of_orKeep_map {β : Type} {s : TreeState} {m : Mutator}
    {r : Except TreeError (β × TreeState)} (h : ∀ b s', r = .ok (b, s') → Effect s m s') :
    Effect s m (s.orKeep (r.map Prod.snd)) := by
  rcases orKeep_map_cases s r with hsame | ⟨b, hok⟩
  · rw [hsame]
    exact .kept
  · exact h b _ hok

theorem apply_effect (s : TreeState) (m : Mutator) : Effect s m (s.apply m) := by
  cases m with
  -- the three ways to a parent all end in `setParent`, after the same two checks on it
  | attachParent p =>
    refine .of_orKeep_map fun e s' hok => ?_
    obtain ⟨hp, hlocal, hroute, -, -, hs'⟩ := attachParent_eq_ok hok
    rw [hs']
    exact .setParent hp hlocal hroute
  | reparent p =>
    refine .of_orKeep_map fun e s' hok => ?_
    obtain ⟨hp, hlocal, hroute, -, hs'⟩ := reparent_eq_ok hok
    rw [hs']
    exact .setParent hp hlocal hroute
  | activateParent p e =>
    refine .of_orKeep fun s' hok => ?_
    obtain ⟨hp, -, hlocal, hroute, -, hs'⟩ := activateParent_eq_ok hok
    rw [hs']
    exact .setParent hp hlocal hroute
  | detachParent p =>
    show Effect s _ (s.detachParent p).2
    rcases detachParent_cases s p with hsame | hclear
    · rw [hsame]
      exact .kept
    · rw [hclear]
      exact .clearParent
  | detachParentEpoch p e =>
    show Effect s _ (s.detachParentEpoch p e).2
    rcases detachParentEpoch_cases s p e with hsame | ⟨-, hclear⟩
    · rw [hsame]
      exact .kept
    · rw [hclear]
      exact .clearParent
  | attachChild c e => exact .of_orKeep fun s' hok => .attachChild hok
  | reattachChild c e => exact .of_orKeep fun s' hok => .reattachChild hok
  | announce v d e => exact .of_orKeep fun s' hok => .announce (Or.inr ⟨rfl, rfl⟩) hok
  | announceWithParent v d p e => exact .of_orKeep fun s' hok => .announce (Or.inl rfl) hok
  | withdrawChild c => exact .withdrawChild c
  | withdrawChildEpoch c e =>
    show Effect s _ (s.withdrawChildEpoch c e).2
    rcases withdrawChildEpoch_cases s c e with hsame | ⟨-, hgone⟩
    · rw [hsame]
      exact .kept
    · rw [hgone]
      exact .withdrawChild c
  | withdrawRoute v d e => exact .of_orKeep fun s' hok => .withdrawRoute hok

theorem Effect.localNode_eq {s s' : TreeState} {m : Mutator} (h : Effect s m s') :
    s'.localNode = s.localNode := by
  cases h with
  | kept => rfl
  | setParent => exact bump_localNode _
  | clearParent => exact bump_localNode _
  | attachChild hok =>
    obtain ⟨-, -, -, -, -, -, rfl⟩ := attachChild_eq_ok hok
    exact bump_localNode _
  | reattachChild hok =>
    obtain ⟨-, -, rfl⟩ := reattachChild_eq_ok hok
    exact bump_localNode _
  | announce _ hok =>
    obtain ⟨-, -, -, -, -, -, -, -, -, rfl⟩ := announceWithParent_eq_ok hok
    exact bump_localNode _
  | withdrawChild c =>
    rcases withdrawChild_cases s c with hsame | ⟨-, hgone⟩
    · rw [hsame]
    · rw [hgone, bump_localNode]
  | withdrawRoute hok =>
    obtain ⟨-, -, -, rfl⟩ := withdrawRoute_eq_ok hok
    exact bump_localNode _

/-! ### The invariant -/

/-- What the runtime relies on. -/
structure WellFormed (s : TreeState) : Prop where
  localNode : s.localNode ≠ 0
  routed : ∀ {d v : NodeID}, s.routes[d]? = some v →
    d ≠ 0 ∧ d ≠ s.localNode ∧ ∃ edge, s.children[v]? = some edge
  child : ∀ {c : NodeID} {edge : Edge}, s.children[c]? = some edge →
    edge.node = c ∧ edge.epoch ≠ 0 ∧ s.routes[c]? = some c
  parent : ∀ {edge : Edge}, s.parent = some edge →
    edge.node ≠ 0 ∧ edge.node ≠ s.localNode ∧ edge.epoch = s.epoch ∧ s.routes[edge.node]? = none
  sameKeys : ∀ d : NodeID, s.parents[d]? = none ↔ s.routes[d]? = none
  announced : ∀ {d p : NodeID}, s.parents[d]? = some p → p ≠ 0 ∧ p ≠ d

theorem routeOf_eq (s : TreeState) (d : NodeID) : s.routeOf d = s.routes[d]?.getD 0 :=
  ExtTreeMap.getD_eq_getD_getElem?

namespace WellFormed

variable {s s' : TreeState} {d : NodeID}

theorem via_ne_zero (h : WellFormed s) {v : NodeID} (hd : s.routes[d]? = some v) : v ≠ 0 := by
  obtain ⟨-, -, edge, hedge⟩ := h.routed hd
  exact (h.routed (h.child hedge).2.2).1

theorem routeOf_eq_zero (h : WellFormed s) : s.routeOf d = 0 ↔ s.routes[d]? = none := by
  rw [routeOf_eq]
  cases hd : s.routes[d]? with
  | none => simp
  | some v => simpa using h.via_ne_zero hd

theorem routeOf_eq_iff {v : NodeID} (hv : v ≠ 0) : s.routeOf d = v ↔ s.routes[d]? = some v := by
  rw [routeOf_eq]
  cases hd : s.routes[d]? with
  | none => simpa using hv.symm
  | some w => simp

theorem child_ne_zero (h : WellFormed s) {c : NodeID} {edge : Edge}
    (hc : s.children[c]? = some edge) : c ≠ 0 :=
  (h.routed (h.child hc).2.2).1

theorem not_isParent (hd : s.isParent d = false) {edge : Edge} (hedge : s.parent = some edge) :
    d ≠ edge.node := by
  rw [isParent, hedge] at hd
  simpa using hd

end WellFormed

/-! ### Every mutator keeps it -/

section Keeps

variable {s s' : TreeState}

theorem wellFormed_new {localNode : NodeID} (h : new localNode = .ok s) : WellFormed s := by
  obtain ⟨hne, hlocal, hparent, hchildren, hroutes, hparents⟩ := new_eq_ok h
  constructor <;> simp [hlocal, hne, hparent, hchildren, hroutes, hparents]

theorem WellFormed.bump (h : WellFormed s) : WellFormed s.bumpMembershipEpoch := by
  unfold bumpMembershipEpoch
  split
  · exact { h with }
  · exact h

variable {c d : NodeID} {e : UInt64}

section

variable (h : WellFormed s)
include h

theorem WellFormed.setParent {p : NodeID} (hp : p ≠ 0) (hlocal : p ≠ s.localNode)
    (hroute : s.routeOf p = 0) : WellFormed (s.setParent p e) := by
  refine WellFormed.bump { h with parent := ?_ }
  intro edge hedge
  obtain rfl := some.inj hedge
  exact ⟨hp, hlocal, rfl, h.routeOf_eq_zero.mp hroute⟩

theorem WellFormed.clearParent : WellFormed s.clearParent :=
  WellFormed.bump { h with parent := by simp }

theorem WellFormed.reattachChild (hok : s.reattachChild c e = .ok s') : WellFormed s' := by
  obtain ⟨he, ⟨current, hcurrent, -⟩, rfl⟩ := reattachChild_eq_ok hok
  refine WellFormed.bump ⟨h.localNode, ?_, ?_, h.parent, h.sameKeys, h.announced⟩
  · intro d v hd
    obtain ⟨hd0, hdl, hedge⟩ := h.routed hd
    exact ⟨hd0, hdl, exists_lookup_insert hedge _ _⟩
  · intro x edge hx
    rcases lookup_insert_eq_some.mp hx with ⟨hxc, rfl⟩ | ⟨-, hx⟩
    · exact ⟨hxc.symm, he, by rw [hxc]; exact (h.child hcurrent).2.2⟩
    · exact h.child hx

theorem WellFormed.attachChild (hok : s.attachChild c e = .ok s') : WellFormed s' := by
  obtain ⟨hc, he, hlocal, hparent, -, -, rfl⟩ := attachChild_eq_ok hok
  refine WellFormed.bump ⟨h.localNode, ?_, ?_, ?_, ?_, ?_⟩
  · intro d v hd
    rcases lookup_insert_eq_some.mp hd with ⟨hdc, rfl⟩ | ⟨-, hd⟩
    · exact ⟨hdc ▸ hc, hdc ▸ hlocal, _, lookup_insert_self _ _ _⟩
    · obtain ⟨hd0, hdl, hedge⟩ := h.routed hd
      exact ⟨hd0, hdl, exists_lookup_insert hedge _ _⟩
  · intro x edge hx
    rcases lookup_insert_eq_some.mp hx with ⟨hxc, rfl⟩ | ⟨hxc, hx⟩
    · exact ⟨hxc.symm, he, by rw [hxc]; exact lookup_insert_self _ _ _⟩
    · obtain ⟨hnode, hepoch, hroute⟩ := h.child hx
      exact ⟨hnode, hepoch, by rw [lookup_insert_of_ne _ _ hxc]; exact hroute⟩
  · intro edge hedge
    obtain ⟨h0, hl, hepoch, hroute⟩ := h.parent hedge
    refine ⟨h0, hl, hepoch, ?_⟩
    rw [lookup_insert_of_ne _ _ (not_isParent hparent hedge).symm]
    exact hroute
  · intro d
    show (s.parents.insert c s.localNode)[d]? = none ↔ (s.routes.insert c c)[d]? = none
    rw [lookup_insert, lookup_insert]
    split_ifs
    · simp
    · exact h.sameKeys d
  · intro d p hd
    rcases lookup_insert_eq_some.mp hd with ⟨hdc, rfl⟩ | ⟨-, hd⟩
    · exact ⟨h.localNode, by rw [hdc]; exact hlocal.symm⟩
    · exact h.announced hd

theorem WellFormed.announceWithParent {via p : NodeID}
    (hok : s.announceWithParent via d p e = .ok s') : WellFormed s' := by
  obtain ⟨hd, hp, ⟨edge, hvia, -⟩, hlocal, hparent, hpd, -, hdirect, -, rfl⟩ :=
    announceWithParent_eq_ok hok
  refine WellFormed.bump ⟨h.localNode, ?_, ?_, ?_, ?_, ?_⟩
  · intro x v hx
    rcases lookup_insert_eq_some.mp hx with ⟨hxd, rfl⟩ | ⟨-, hx⟩
    · exact ⟨hxd ▸ hd, hxd ▸ hlocal, edge, hvia⟩
    · exact h.routed hx
  · intro c cedge hc
    obtain ⟨hnode, hepoch, hroute⟩ := h.child hc
    refine ⟨hnode, hepoch, ?_⟩
    show (s.routes.insert d via)[c]? = some c
    rw [lookup_insert]
    split_ifs with hcd
    · -- a direct child is only announced by itself
      have := hdirect cedge (hcd ▸ hc)
      rw [← this, hnode]
    · exact hroute
  · intro pedge hpedge
    obtain ⟨h0, hl, hepoch, hroute⟩ := h.parent hpedge
    refine ⟨h0, hl, hepoch, ?_⟩
    rw [lookup_insert_of_ne _ _ (not_isParent hparent hpedge).symm]
    exact hroute
  · intro x
    show (s.parents.insert d p)[x]? = none ↔ (s.routes.insert d via)[x]? = none
    rw [lookup_insert, lookup_insert]
    split_ifs
    · simp
    · exact h.sameKeys x
  · intro x q hx
    rcases lookup_insert_eq_some.mp hx with ⟨hxd, rfl⟩ | ⟨-, hx⟩
    · exact ⟨hp, hxd ▸ hpd⟩
    · exact h.announced hx

theorem WellFormed.withdrawRoute {via : NodeID} (hok : s.withdrawRoute via d e = .ok s') :
    WellFormed s' := by
  obtain ⟨⟨edge, hvia, -⟩, hne, hroute, rfl⟩ := withdrawRoute_eq_ok hok
  have hd := (routeOf_eq_iff (h.child_ne_zero hvia)).mp hroute
  refine WellFormed.bump ⟨h.localNode, ?_, ?_, ?_, ?_, ?_⟩
  · intro x v hx
    rw [lookup_erase] at hx
    split_ifs at hx
    exact h.routed hx
  · intro c cedge hc
    obtain ⟨hnode, hepoch, hcroute⟩ := h.child hc
    refine ⟨hnode, hepoch, ?_⟩
    -- `d` is reached through another node, so it is no direct child
    have hcd : c ≠ d := by
      rintro rfl
      exact hne (mem_unique hcroute hd)
    rw [lookup_erase_of_ne _ hcd]
    exact hcroute
  · intro pedge hpedge
    obtain ⟨h0, hl, hepoch, hproute⟩ := h.parent hpedge
    refine ⟨h0, hl, hepoch, ?_⟩
    show (s.routes.erase d)[pedge.node]? = none
    rw [lookup_erase, hproute, ite_self]
  · intro x
    show (s.parents.erase d)[x]? = none ↔ (s.routes.erase d)[x]? = none
    rw [lookup_erase, lookup_erase]
    split_ifs
    · simp
    · exact h.sameKeys x
  · intro x q hx
    rw [lookup_erase] at hx
    split_ifs at hx
    exact h.announced hx

end

theorem mem_removedBy : d ∈ s.removedBy c ↔ s.routes[d]? = some c := by
  rw [removedBy, mem_keysWhere]
  constructor
  · rintro ⟨v, hv, hvc⟩
    rw [hv, of_decide_eq_true hvc]
  · intro hd
    exact ⟨c, hd, decide_eq_true rfl⟩

theorem WellFormed.withdrawChild (h : WellFormed s) (c : NodeID) :
    WellFormed (s.withdrawChild c).2 := by
  rcases withdrawChild_cases s c with hsame | ⟨⟨edge, hc⟩, hgone⟩
  · rw [hsame]
    exact h
  rw [hgone]
  obtain ⟨-, -, hcc⟩ := h.child hc
  refine WellFormed.bump ⟨h.localNode, ?_, ?_, ?_, ?_, ?_⟩
  · intro d v hd
    rw [lookup_eraseAll] at hd
    split_ifs at hd with hmem
    obtain ⟨hd0, hdl, vedge, hv⟩ := h.routed hd
    have hvc : v ≠ c := by
      rintro rfl
      exact hmem (mem_removedBy.mpr hd)
    exact ⟨hd0, hdl, vedge, by rw [lookup_erase_of_ne _ hvc]; exact hv⟩
  · intro x xedge hx
    rw [lookup_erase] at hx
    split_ifs at hx with hxc
    obtain ⟨hnode, hepoch, hroute⟩ := h.child hx
    refine ⟨hnode, hepoch, ?_⟩
    show (eraseAll s.routes (s.removedBy c))[x]? = some x
    rw [lookup_eraseAll, if_neg, hroute]
    intro hmem
    exact hxc (mem_unique hroute (mem_removedBy.mp hmem))
  · intro pedge hpedge
    obtain ⟨h0, hl, hepoch, hproute⟩ := h.parent hpedge
    refine ⟨h0, hl, hepoch, ?_⟩
    show (eraseAll s.routes (s.removedBy c))[pedge.node]? = none
    rw [lookup_eraseAll, hproute, ite_self]
  · intro x
    show (eraseAll (s.parents.erase c) (s.removedBy c))[x]? = none ↔
      (eraseAll s.routes (s.removedBy c))[x]? = none
    rw [lookup_eraseAll, lookup_eraseAll]
    split_ifs with hmem
    · simp
    · have hxc : x ≠ c := by
        rintro rfl
        exact hmem (mem_removedBy.mpr hcc)
      rw [lookup_erase_of_ne _ hxc]
      exact h.sameKeys x
  · intro x q hx
    rw [lookup_eraseAll, lookup_erase] at hx
    split_ifs at hx
    exact h.announced hx

theorem WellFormed.effect {m : Mutator} (h : WellFormed s) (heff : Effect s m s') :
    WellFormed s' := by
  cases heff with
  | kept => exact h
  | setParent hp hlocal hroute => exact h.setParent hp hlocal hroute
  | clearParent => exact h.clearParent
  | attachChild hok => exact h.attachChild hok
  | reattachChild hok => exact h.reattachChild hok
  | announce _ hok => exact h.announceWithParent hok
  | withdrawChild c => exact h.withdrawChild c
  | withdrawRoute hok => exact h.withdrawRoute hok

/-- **Every mutator keeps the state well formed.** -/
theorem wellFormed_apply (h : WellFormed s) (m : Mutator) : WellFormed (s.apply m) :=
  h.effect (apply_effect s m)

theorem wellFormed_run {localNode : NodeID} (h : new localNode = .ok s) (ms : List Mutator) :
    WellFormed (ms.foldl apply s) :=
  foldl_invariant (I := WellFormed) (fun _ m hs => wellFormed_apply hs m) (wellFormed_new h) ms

end Keeps

/-! ### The tables after a call, entry by entry -/

section Lookups

variable {s s' : TreeState} {c : NodeID} {e : UInt64}

theorem attachChild_lookups (h : s.attachChild c e = .ok s') :
    (∀ x : NodeID, s'.children[x]? = if x = c then some ⟨c, e⟩ else s.children[x]?) ∧
      ∀ d : NodeID, s'.routes[d]? = if d = c then some c else s.routes[d]? := by
  obtain ⟨-, -, -, -, -, -, rfl⟩ := attachChild_eq_ok h
  constructor
  · intro x
    rw [bump_children, lookup_insert]
  · intro d
    rw [bump_routes, lookup_insert]

theorem WellFormed.reattachChild_lookups (hwf : WellFormed s) (h : s.reattachChild c e = .ok s') :
    (∀ x : NodeID, s'.children[x]? = if x = c then some ⟨c, e⟩ else s.children[x]?) ∧
      ∀ d : NodeID, s'.routes[d]? = if d = c then some c else s.routes[d]? := by
  obtain ⟨-, ⟨current, hcurrent, -⟩, rfl⟩ := reattachChild_eq_ok h
  constructor
  · intro x
    rw [bump_children, lookup_insert]
  · intro d
    rw [bump_routes]
    split_ifs with hd
    · rw [hd]
      exact (hwf.child hcurrent).2.2
    · rfl

theorem announceWithParent_lookups {v d p : NodeID} (h : s.announceWithParent v d p e = .ok s') :
    s'.children = s.children ∧
      ∀ x : NodeID, s'.routes[x]? = if x = d then some v else s.routes[x]? := by
  obtain ⟨-, -, -, -, -, -, -, -, -, rfl⟩ := announceWithParent_eq_ok h
  refine ⟨bump_children _, fun x => ?_⟩
  rw [bump_routes, lookup_insert]

theorem withdrawRoute_lookups {v d : NodeID} (h : s.withdrawRoute v d e = .ok s') :
    s'.children = s.children ∧
      ∀ x : NodeID, s'.routes[x]? = if x = d then none else s.routes[x]? := by
  obtain ⟨-, -, -, rfl⟩ := withdrawRoute_eq_ok h
  refine ⟨bump_children _, fun x => ?_⟩
  rw [bump_routes, lookup_erase]

theorem withdrawChildEpoch_lookups {edge : Edge} (hc : s.children[c]? = some edge) :
    (∀ x : NodeID, (s.withdrawChildEpoch c edge.epoch).2.children[x]? =
        if x = c then none else s.children[x]?) ∧
      (∀ d : NodeID, (s.withdrawChildEpoch c edge.epoch).2.routes[d]? =
        if s.routes[d]? = some c then none else s.routes[d]?) ∧
      ∀ d, d ∈ (s.withdrawChildEpoch c edge.epoch).1 ↔ s.routes[d]? = some c := by
  have heq : s.withdrawChildEpoch c edge.epoch = s.withdrawChild c := by
    rw [withdrawChildEpoch, hc]
    exact if_neg fun h => h rfl
  have hmem : ¬ (!s.children.contains c) = true := by
    rw [Bool.not_eq_true, Bool.not_eq_false', ExtTreeMap.contains_iff_mem,
      ExtTreeMap.mem_iff_isSome_getElem?, hc]
    rfl
  rw [heq, withdrawChild, if_neg hmem]
  refine ⟨fun x => ?_, fun d => ?_, fun d => mem_removedBy⟩
  · rw [bump_children, lookup_erase]
  · rw [bump_routes, lookup_eraseAll]
    by_cases hd : s.routes[d]? = some c
    · rw [if_pos hd, if_pos (mem_removedBy.mpr hd)]
    · rw [if_neg hd, if_neg fun hc => hd (mem_removedBy.mp hc)]

theorem WellFormed.withdrawChildEpoch (h : WellFormed s) (c : NodeID) (e : UInt64) :
    WellFormed (s.withdrawChildEpoch c e).2 := h.effect (apply_effect s (.withdrawChildEpoch c e))

theorem WellFormed.detachParentEpoch (h : WellFormed s) (p : NodeID) (e : UInt64) :
    WellFormed (s.detachParentEpoch p e).2 := h.effect (apply_effect s (.detachParentEpoch p e))

theorem WellFormed.activateParent (h : WellFormed s) {p : NodeID}
    (hok : s.activateParent p e = .ok s') : WellFormed s' := by
  obtain ⟨hp, -, hlocal, hroute, -, rfl⟩ := activateParent_eq_ok hok
  exact h.setParent hp hlocal hroute

end Lookups

end TreeState
