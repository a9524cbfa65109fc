/-
Cycles of parent links.

Joining every node to the parent recorded in its tree gives a directed graph on the
network.  A node refuses a parent that is in its routes table, but it learns its routes
from announcements that may still be in flight, so three joins can close a cycle that
none of the three nodes sees.

* `treelike_iff_informed` — the graph is acyclic in every state of a run exactly when
  each node that calls `ActivateParent` has the new parent in its routes table if that
  parent already hangs below it.
-/
import MyFlowHub.Sessions
import MyFlowHub.Pointers

open Std Function Runs Pointers Relation

namespace Overlay.Net

open TreeState

/-- Where `routeEnvelope` at a node sends an envelope for the target, if upward. -/
def forwardUp (s : Net) (target n : NodeID) : Option NodeID :=
  match (s.tree n).routeTo target with
  | .ok route => if route.kind = .up then some route.nextHop else none
  | .error _ => none

/-- The recorded parents form no cycle. -/
structure Treelike (s : Net) : Prop where
  /-- no node reaches itself along recorded parents -/
  acyclic : Acyclic s.parentOf
  /-- an envelope that is only forwarded upward visits no node twice -/
  visitsOnce : ∀ target n hops, (trail (s.forwardUp target) hops n).Nodup

/-- `ConnectParent` is about to call `ActivateParent`, for another node and with an epoch
that is not stale. -/
structure Joins (s : Net) (l : Link) : Prop where
  childEnd : l.childEnd = .joining
  acked : l.acked = true
  parent : l.parent ≠ l.child
  epoch : ¬ (l.epoch < (s.tree l.child).epoch ∨
    (l.epoch = (s.tree l.child).epoch ∧ (s.tree l.child).parent ≠ none))

/-- The joining node has the new parent in its routes table if it hangs below the node. -/
def Informed (s : Net) : Act → Prop
  | .activate k => ∀ l, s.links k = some l → Joins s l → Leads s.parentOf l.parent l.child →
      (s.tree l.child).routeOf l.parent ≠ 0
  | _ => True

/-- What `ActivateParent` decides about a join: it refuses what is in the routes table. -/
theorem Joins.activateParent {s : Net} {k : LinkID} {l : Link} (h : Joins s l)
    (hcons : Consistent s) (hl : s.links k = some l)
      (hroute : (s.tree l.child).routeOf l.parent = 0) :
    (s.tree l.child).activateParent l.parent l.epoch =
      .ok ((s.tree l.child).setParent l.parent l.epoch) := by
  have hvalid := hcons.link hl
  unfold TreeState.activateParent
  rw [if_neg (by simpa [NodeID.valid] using hvalid.parent), if_neg hvalid.epoch, if_neg,
    if_neg h.epoch]
  rw [hcons.localNode]
  simp [h.parent, hroute]

theorem Joins.of_activateParent {s : Net} {l : Link} {t : TreeState} (hcons : Consistent s)
    (hend : l.childEnd = .joining) (hacked : l.acked = true)
    (h : (s.tree l.child).activateParent l.parent l.epoch = .ok t) :
    Joins s l ∧ (s.tree l.child).routeOf l.parent = 0 := by
  unfold TreeState.activateParent at h
  split_ifs at h with _ _ hcycle hstale
  rw [not_or, not_not, hcons.localNode] at hcycle
  exact ⟨⟨hend, hacked, hcycle.1, hstale⟩, hcycle.2⟩

theorem treelike_of_acyclic {s : Net} (h : Acyclic s.parentOf) : Treelike s := by
  refine ⟨h, fun target n hops => Acyclic.nodup_trail (h.mono ?_) hops n⟩
  intro a b hab
  simp only [forwardUp, routeTo] at hab
  rw [parentOf]
  split_ifs at hab with hlocal hdown
  · simp at hab
  · simp at hab
  · cases hparent : (s.tree a).parent with
    | none => simp [hparent] at hab
    | some edge => simpa [hparent] using hab

/-! ### How a step changes the recorded parents -/

section Parents

variable (s : Net)

@[simp] theorem parentOf_setLink (k : LinkID) (l : Link) : (s.setLink k l).parentOf = s.parentOf :=
  rfl

theorem parentOf_setTree_self (n : NodeID) (t : TreeState) :
    (s.setTree n t).parentOf n = t.parent.map (·.node) := by
  rw [parentOf, tree_setTree_self]

theorem parentOf_setTree_of_ne {n x : NodeID} (t : TreeState) (hx : x ≠ n) :
    (s.setTree n t).parentOf x = s.parentOf x := by
  rw [parentOf, tree_setTree_of_ne s t hx, parentOf]

theorem parentOf_setTree_of_eq {n : NodeID} {t : TreeState} (h : t.parent = (s.tree n).parent) :
    (s.setTree n t).parentOf = s.parentOf := by
  funext x
  by_cases hx : x = n
  · rw [hx, parentOf_setTree_self, h, parentOf]
  · exact s.parentOf_setTree_of_ne t hx

theorem parentOf_push (n : NodeID) (f : Frame) (via : Option LinkID) (full : Bool) :
    (s.push n f via full).parentOf = s.parentOf := by
  rcases push_cases s n f via full with ⟨hdrop, -⟩ | ⟨j, l, -, -, -, -, -, hpush⟩
  · rw [hdrop]
  · rw [hpush]
    rfl

end Parents

/-- What a step does to the recorded parents: nothing, one detachment, or one
activation. -/
inductive ParentEffect (s : Net) (a : Act) (s' : Net) : Prop
  | kept (h : s'.parentOf = s.parentOf)
  | detached (h : ∀ n, s'.parentOf n = none ∨ s'.parentOf n = s.parentOf n)
  | activated (k : LinkID) (l : Link) (t : TreeState) (ha : a = .activate k)
      (hl : s.links k = some l) (hend : l.childEnd = .joining) (hacked : l.acked = true)
      (hactivate : (s.tree l.child).activateParent l.parent l.epoch = .ok t)
      (h : s'.parentOf = (s.setTree l.child t).parentOf)

theorem parentOf_detach (s : Net) (l : Link) (n : NodeID) :
    (s.setTree l.child ((s.tree l.child).detachParentEpoch l.parent l.epoch).2).parentOf n = none ∨
      (s.setTree l.child ((s.tree l.child).detachParentEpoch l.parent l.epoch).2).parentOf n =
        s.parentOf n := by
  by_cases hn : n = l.child
  · rw [hn, parentOf_setTree_self]
    obtain ⟨-, -, -, h | ⟨-, h⟩⟩ := detachParentEpoch_spec (s.tree l.child) l.parent l.epoch
    · rw [h]
      exact Or.inr rfl
    · rw [h]
      exact Or.inl rfl
  · exact Or.inr (s.parentOf_setTree_of_ne _ hn)

theorem parentEffect_of_stepped {s s' : Net} {a : Act} (hcons : Consistent s)
    (h : Stepped s a s') : ParentEffect s a s' := by
  cases h with
  | attach hl hend hattach =>
    obtain ⟨-, -, -, hparent, -⟩ := attachOrReattach_spec (hcons.parent hl) hattach
    exact .kept (s.parentOf_setTree_of_eq hparent)
  | acceptFail => exact .kept (s.parentOf_setTree_of_eq (withdrawChildEpoch_parent ..))
  | @activate k l t hl hend hacked hactivate =>
    exact .activated k l t rfl hl hend hacked hactivate rfl
  | @abort k l => exact .detached (s.parentOf_detach l)
  | send => exact .kept (parentOf_push ..)
  | deliverAccepted hl hend hsends hqueue hhandle =>
    obtain ⟨-, -, -, hparent, -⟩ := handleRoute_spec (hcons.parent hl) hhandle
    exact .kept (s.parentOf_setTree_of_eq hparent)
  | @detach k l => exact .detached (s.parentOf_detach l)
  | withdraw => exact .kept (s.parentOf_setTree_of_eq (withdrawChildEpoch_parent ..))
  | _ => exact .kept rfl

theorem parentOf_activate {s : Net} {l : Link} {t : TreeState}
    (h : (s.tree l.child).activateParent l.parent l.epoch = .ok t) :
    (s.setTree l.child t).parentOf l.child = some l.parent := by
  obtain ⟨-, -, -, -, -, rfl⟩ := activateParent_eq_ok h
  rw [parentOf_setTree_self, setParent, bump_parent]
  rfl

/-! ### Whole runs -/

/-- **An informed step keeps the recorded parents acyclic.** -/
theorem acyclic_step {s : Net} {a : Act} (hcons : Consistent s) (h : Acyclic s.parentOf)
    (ha : Informed s a) : Acyclic (s.step a).parentOf := by
  rcases step_cases s a with hsame | hstep
  · rwa [hsame]
  cases parentEffect_of_stepped hcons hstep with
  | kept heq => rwa [heq]
  | detached hdet =>
    refine h.mono fun n p hp => ?_
    rcases hdet n with hnone | hsame
    · rw [hnone] at hp
      cases hp
    · rwa [hsame] at hp
  | activated k l t hact hl hend hacked hactivate heq =>
    subst hact
    -- an accepted parent is not in the routes table, so it does not hang below the node
    obtain ⟨hjoins, hroute⟩ := Joins.of_activateParent hcons hend hacked hactivate
    have hleads : ¬ Leads s.parentOf l.parent l.child := fun hc => ha l hl hjoins hc hroute
    rw [heq]
    exact h.update hleads (parentOf_activate hactivate) fun n hn => s.parentOf_setTree_of_ne t hn

/-- **An uninformed step closes a cycle.** -/
theorem not_acyclic_step {s : Net} {a : Act} (hcons : Consistent s) (ha : ¬ Informed s a) :
    ¬ Acyclic (s.step a).parentOf := by
  cases a with
  | activate k =>
    simp only [Informed, not_forall, not_not] at ha
    obtain ⟨l, hl, hjoins, hleads, hroute⟩ := ha
    have hactivate := hjoins.activateParent hcons hl hroute
    have heq : (s.step (.activate k)).parentOf =
        (s.setTree l.child ((s.tree l.child).setParent l.parent l.epoch)).parentOf := by
      simp [step, step?, activateStep, hl, hjoins.childEnd, hjoins.acked, hactivate]
    rw [heq]
    intro hacyclic
    have hback := hleads.update fun n hn => s.parentOf_setTree_of_ne
      ((s.tree l.child).setParent l.parent l.epoch) hn
    exact hacyclic l.child (TransGen.head' (parentOf_activate hactivate) hback)
  | _ => exact absurd trivial ha

/-- **The recorded parents form a forest in every state of a run exactly when the routes
tables were complete enough at every activation of the run.** -/
theorem treelike_iff_informed (as : List Act) :
    (∀ pre, pre <+: as → Treelike (pre.foldl step start)) ↔ Along step Informed start as := by
  constructor
  · intro hall
    by_contra hnot
    obtain ⟨pre, a, post, rfl, -, hbad⟩ := exists_first_of_not_along hnot
    have hpre : pre ++ [a] <+: pre ++ a :: post := ⟨post, by simp⟩
    have htree := hall _ hpre
    rw [List.foldl_append] at htree
    exact not_acyclic_step (consistent_run pre) hbad htree.acyclic
  · rintro halong pre ⟨post, rfl⟩
    have hstart : Acyclic start.parentOf := by
      intro n hn
      obtain ⟨m, hnm, -⟩ := TransGen.head'_iff.mp hn
      cases hnm
    have hrun := foldl_along (I := fun s : Net => Consistent s ∧ Acyclic s.parentOf)
      (fun s a hs ha => ⟨consistent_step hs.1 a, acyclic_step hs.1 hs.2 ha⟩)
      ⟨consistent_start, hstart⟩ (along_append.mp halong).1
    exact treelike_of_acyclic hrun.2

/-- Node 2 joins 3, node 1 joins 2, and node 3 joins 1 before it has heard that 1 is
below 2. -/
def threeJoins : List Act :=
  [.dial 0 2 3, .attach 0, .accept 0, .activate 0, .register 0, .snapshot 0,
    .dial 1 1 2, .attach 1, .accept 1, .activate 1, .register 1, .snapshot 1,
    .dial 2 3 1, .attach 2, .accept 2, .activate 2]

/-- **Three racing joins close a cycle of parent links**, and an envelope that node 1
forwards upward comes back to it. -/
theorem threeJoins_cycle :
    ¬ Acyclic (threeJoins.foldl step start).parentOf ∧
      trail ((threeJoins.foldl step start).forwardUp 9) 3 1 = [1, 2, 3, 1] := by
  constructor
  · intro h
    have h12 : Points (threeJoins.foldl step start).parentOf 1 2 := by
      show (threeJoins.foldl step start).parentOf 1 = some 2
      decide
    have h23 : Points (threeJoins.foldl step start).parentOf 2 3 := by
      show (threeJoins.foldl step start).parentOf 2 = some 3
      decide
    have h31 : Points (threeJoins.foldl step start).parentOf 3 1 := by
      show (threeJoins.foldl step start).parentOf 3 = some 1
      decide
    exact h 1 ((TransGen.single h12).tail h23 |>.tail h31)
  · decide

end Overlay.Net
