/-
Termination of scope evaluation.

`ScopeContains` climbs the announced parents from a candidate until it meets the
anchor, the local node, or a node without an entry.  The walk carries no visited
set, so it ends exactly when the announced parents form no cycle.

`AnnounceWithParent` overwrites the parent of a known descendant and only checks
that the new parent lies below the same child, not that it lies outside the subtree
of the descendant itself.  An announcement is `Grounded` when it does not put a node
below itself, and

* `scopeTerminates_iff_grounded` — scope evaluation terminates in every state of a
  run from `New` exactly when every accepted announcement of the run was grounded.
-/
import MyFlowHub.TreeInvariant
import MyFlowHub.Pointers

open Std Tables Runs Pointers Relation

namespace TreeState

/-- One round of the climb: the announced parent of a node other than the local one. -/
def up (s : TreeState) (node : NodeID) : Option NodeID :=
  if node = s.localNode then none else s.parents[node]?

/-- Scope evaluation terminates in the state. -/
structure ScopeTerminates (s : TreeState) : Prop where
  /-- the climb from any node reaches the local node or a node without an entry -/
  ends : ∀ node, Ends s.up node
  /-- the loop returns for every pair of non-zero identifiers -/
  returns : ∀ anchor candidate, anchor ≠ 0 → candidate ≠ 0 →
    ∃ fuel r, s.scopeContains fuel anchor candidate = some (.ok r)

/-- An announcement that, if it is accepted, puts no node below itself. -/
def Grounded (s : TreeState) : Mutator → Prop
  | .announceWithParent via descendant parent epoch =>
    (∃ s', s.announceWithParent via descendant parent epoch = .ok s') →
      ¬ Leads s.up parent descendant
  | .announce via descendant epoch =>
    (∃ s', s.announce via descendant epoch = .ok s') → ¬ Leads s.up via descendant
  | _ => True

/-! ### The loop follows the climb -/

/-- **`ScopeContains` decides the ancestor relation** wherever the climb ends. -/
theorem scopeLoop_spec {s : TreeState} (h : WellFormed s) (anchor : NodeID) {node : NodeID}
    (hends : Ends s.up node) :
    ∃ fuel found, s.scopeLoop anchor fuel node = some found ∧
      (found = true ↔ Leads s.up node anchor) := by
  -- the induction is on the climb, and the loop takes one unit of fuel for each of its steps
  induction hends with
  | @stop node hnone =>
    refine ⟨1, decide (node = anchor), ?_, ?_⟩
    · rw [scopeLoop]
      by_cases ha : node = anchor
      · rw [if_pos ha, decide_eq_true ha]
      · rw [if_neg ha, decide_eq_false ha]
        by_cases hl : node = s.localNode
        · rw [if_pos hl]
        · rw [if_neg hl, if_pos]
          rw [up, if_neg hl] at hnone
          left
          rw [ExtTreeMap.getD_eq_getD_getElem?, hnone]
          rfl
    · rw [decide_eq_true_eq]
      constructor
      · intro ha
        exact leads_iff.mpr (.inl ha)
      · intro hleads
        by_contra ha
        exact not_leads_of_none hnone ha hleads
  | @step node next hup _ ih =>
    obtain ⟨fuel, found, hloop, hfound⟩ := ih
    by_cases ha : node = anchor
    · refine ⟨1, true, ?_, ?_⟩
      · rw [scopeLoop, if_pos ha]
      · exact iff_of_true rfl (leads_iff.mpr (.inl ha))
    · refine ⟨fuel + 1, found, ?_, ?_⟩
      · have hl : node ≠ s.localNode := by
          intro hl
          rw [up, if_pos hl] at hup
          exact Option.some_ne_none next hup.symm
        rw [up, if_neg hl] at hup
        obtain ⟨hzero, hself⟩ := h.announced hup
        have hget : s.parents.getD node 0 = next := by
          rw [ExtTreeMap.getD_eq_getD_getElem?, hup]
          rfl
        rw [scopeLoop, if_neg ha, if_neg hl, hget, if_neg, hloop]
        rintro (hc | hc)
        · exact hzero hc
        · exact hself hc
      · rw [hfound, leads_iff (a := node)]
        constructor
        · intro hleads
          exact .inr ⟨next, hup, hleads⟩
        · rintro (hc | ⟨c, hc, hleads⟩)
          · exact absurd hc ha
          · obtain rfl := Option.mem_unique hup hc
            exact hleads

theorem scopeTerminates_of_ends {s : TreeState} (h : WellFormed s) (hends : ∀ n, Ends s.up n) :
    ScopeTerminates s := by
  refine ⟨hends, fun anchor candidate ha hc => ?_⟩
  obtain ⟨fuel, found, hloop, -⟩ := scopeLoop_spec h anchor (hends candidate)
  refine ⟨fuel, ?_⟩
  rw [scopeContains, if_neg (by simpa [NodeID.valid] using ha),
    if_neg (by simpa [NodeID.valid] using hc)]
  by_cases hreach : !s.reachable anchor || !s.reachable candidate
  · rw [if_pos hreach]
    exact ⟨_, rfl⟩
  · rw [if_neg hreach, hloop]
    exact ⟨_, rfl⟩

/-! ### One mutator at a time -/

section Step

variable {s s' : TreeState}

theorem up_localNode (s : TreeState) : s.up s.localNode = none := if_pos rfl

theorem up_congr (hlocal : s'.localNode = s.localNode) (hparents : s'.parents = s.parents) :
    s'.up = s.up := by
  funext node
  rw [up, up, hlocal, hparents]

theorem up_insert {d p : NodeID} (hlocal : s'.localNode = s.localNode)
    (hparents : s'.parents = s.parents.insert d p) (hd : d ≠ s.localNode) :
    s'.up d = some p ∧ ∀ node, node ≠ d → s'.up node = s.up node := by
  constructor
  · rw [up, hlocal, if_neg hd, hparents, lookup_insert_self]
  · intro node hne
    rw [up, up, hlocal, hparents, lookup_insert_of_ne _ _ hne]

theorem up_attachChild {c : NodeID} {e : UInt64} (hok : s.attachChild c e = .ok s') :
    s'.up c = some s.localNode ∧ ∀ node, node ≠ c → s'.up node = s.up node := by
  obtain ⟨-, -, hlocal, -, -, -, rfl⟩ := attachChild_eq_ok hok
  refine up_insert ?_ ?_ hlocal
  · rw [bump_localNode]
  · rw [bump_parents]

theorem up_announce {v d p : NodeID} {e : UInt64} (hok : s.announceWithParent v d p e = .ok s') :
    s'.up d = some p ∧ ∀ node, node ≠ d → s'.up node = s.up node := by
  obtain ⟨-, -, -, hlocal, -, -, -, -, -, rfl⟩ := announceWithParent_eq_ok hok
  refine up_insert ?_ ?_ hlocal
  · rw [bump_localNode]
  · rw [bump_parents]

theorem up_withdrawChild (s : TreeState) (c node : NodeID) :
    (s.withdrawChild c).2.up node = none ∨ (s.withdrawChild c).2.up node = s.up node := by
  rcases withdrawChild_cases s c with hsame | ⟨-, hgone⟩
  · rw [hsame]
    exact .inr rfl
  · rw [hgone, up, up, bump_localNode, bump_parents]
    by_cases hl : node = s.localNode
    · left
      exact if_pos hl
    · rw [if_neg hl, if_neg hl, lookup_eraseAll, lookup_erase]
      split_ifs
      · exact .inl rfl
      · exact .inl rfl
      · exact .inr rfl

/-- **A grounded call keeps every climb finite.** -/
theorem ends_effect {m : Mutator} (heff : Effect s m s') (h : ∀ n, Ends s.up n)
    (hgrounded : Grounded s m) : ∀ n, Ends s'.up n := by
  cases heff with
  | kept => exact h
  | @setParent p e =>
    have hup : (s.setParent p e).up = s.up := up_congr (bump_localNode _) (bump_parents _)
    rwa [hup]
  | clearParent =>
    have hup : s.clearParent.up = s.up := up_congr (bump_localNode _) (bump_parents _)
    rwa [hup]
  | attachChild hok =>
    obtain ⟨-, -, hlocal, -⟩ := attachChild_eq_ok hok
    obtain ⟨hc, hother⟩ := up_attachChild hok
    exact Ends.update h (not_leads_of_none s.up_localNode hlocal.symm) hc hother
  | reattachChild hok =>
    obtain ⟨-, -, hs'⟩ := reattachChild_eq_ok hok
    have hup : s'.up = s.up := up_congr (by rw [hs', bump_localNode]) (by rw [hs', bump_parents])
    rwa [hup]
  | @announce v d p e _ hm hok =>
    have hleads : ¬ Leads s.up p d := by
      rcases hm with rfl | ⟨rfl, rfl⟩
      · exact hgrounded ⟨_, hok⟩
      · exact hgrounded ⟨_, hok⟩
    obtain ⟨hd, hother⟩ := up_announce hok
    exact Ends.update h hleads hd hother
  | withdrawChild c => exact fun n => (h n).mono (up_withdrawChild s c)
  | withdrawRoute hok =>
    obtain ⟨-, -, -, rfl⟩ := withdrawRoute_eq_ok hok
    refine fun n => (h n).mono fun node => ?_
    rw [up, up, bump_localNode, bump_parents]
    by_cases hl : node = s.localNode
    · left
      exact if_pos hl
    · rw [if_neg hl, if_neg hl, lookup_erase]
      split_ifs
      · exact .inl rfl
      · exact .inr rfl

/-- **An announcement that is not grounded starts an endless climb.** -/
theorem not_ends_of_not_grounded {m : Mutator} (hbad : ¬ Grounded s m) :
    ∃ n, ¬ Ends (s.apply m).up n := by
  have hcycle : ∀ {v d p : NodeID} {e : UInt64} {s' : TreeState},
      s.announceWithParent v d p e = .ok s' → Leads s.up p d → ¬ Ends s'.up d := by
    intro v d p e s' hok hleads
    obtain ⟨hd, hother⟩ := up_announce hok
    exact not_ends_update hleads hd hother
  cases m with
  | announceWithParent v d p e =>
    simp only [Grounded, Classical.not_imp, not_not] at hbad
    obtain ⟨⟨s', hok⟩, hleads⟩ := hbad
    refine ⟨d, ?_⟩
    rw [apply, hok]
    exact hcycle hok hleads
  | announce v d e =>
    simp only [Grounded, Classical.not_imp, not_not] at hbad
    obtain ⟨⟨s', hok⟩, hleads⟩ := hbad
    refine ⟨d, ?_⟩
    rw [apply, hok]
    exact hcycle hok hleads
  | _ => exact absurd trivial hbad

end Step

/-! ### Whole runs -/

/-- **Scope evaluation terminates in every state of a run exactly when no accepted
announcement of the run puts a node below itself.** -/
theorem scopeTerminates_iff_grounded (localNode : NodeID) (s₀ : TreeState)
    (hnew : new localNode = .ok s₀) (ms : List Mutator) :
    (∀ pre, pre <+: ms → ScopeTerminates (pre.foldl apply s₀)) ↔
      Along apply Grounded s₀ ms := by
  constructor
  · intro hall
    by_contra hnot
    obtain ⟨pre, m, post, rfl, -, hbad⟩ := exists_first_of_not_along hnot
    obtain ⟨n, hn⟩ := not_ends_of_not_grounded hbad
    have hpre : pre ++ [m] <+: pre ++ m :: post := ⟨post, by simp⟩
    have hterm := hall _ hpre
    rw [List.foldl_append] at hterm
    exact hn (hterm.ends n)
  · rintro halong pre ⟨post, rfl⟩
    have hstart : ∀ n, Ends s₀.up n := by
      obtain ⟨-, -, -, -, -, hparents⟩ := new_eq_ok hnew
      refine fun n => .stop ?_
      rw [up, hparents, ExtTreeMap.getElem?_empty, ite_self]
    refine scopeTerminates_of_ends (wellFormed_run hnew pre) ?_
    exact foldl_along (I := fun s => ∀ n, Ends s.up n)
      (fun s m hs hm => ends_effect (apply_effect s m) hs hm) hstart (along_append.mp halong).1

/-- Child 2 announces 3 below itself, 4 below 3, and then 3 below 4. -/
def swappedAnnouncements : List Mutator :=
  [.attachChild 2 1, .announce 2 3 1, .announceWithParent 2 4 3 1, .announceWithParent 2 3 4 1]

/-- **An accepted announcement makes `ScopeContains` loop forever.**  After the last
announcement 3 and 4 are each other's parents, and asking node 1 whether 3 is in its
own scope never returns. -/
theorem swappedAnnouncements_loop :
    ∃ s₀, new 1 = .ok s₀ ∧ ¬ Ends (swappedAnnouncements.foldl apply s₀).up 3 ∧
      ∀ fuel, (swappedAnnouncements.foldl apply s₀).scopeContains fuel 1 3 = none := by
  refine ⟨_, rfl, not_ends_of_cycle (TransGen.tail (.single (b := 4) ?_) ?_), fun fuel => ?_⟩
  · show TreeState.up _ 3 = some 4
    decide
  · show TreeState.up _ 4 = some 3
    decide
  · generalize hs : List.foldl apply _ swappedAnnouncements = s
    have hlocal : s.localNode = 1 := by rw [← hs]; decide
    have hthree : s.parents.getD 3 0 = 4 := by rw [← hs]; decide
    have hfour : s.parents.getD 4 0 = 3 := by rw [← hs]; decide
    have hreach : (!s.reachable 1 || !s.reachable 3) = false := by rw [← hs]; decide
    -- the loop alternates between the two nodes and meets neither the anchor nor node 1
    have hloop : ∀ fuel, s.scopeLoop 1 fuel 3 = none ∧ s.scopeLoop 1 fuel 4 = none := by
      intro fuel
      induction fuel with
      | zero => exact ⟨rfl, rfl⟩
      | succ fuel ih =>
        constructor
        · rw [scopeLoop, hlocal, hthree]
          exact ih.2
        · rw [scopeLoop, hlocal, hfour]
          exact ih.1
    rw [scopeContains, if_neg (by decide), if_neg (by decide), hreach, if_neg (by decide),
      (hloop fuel).1]
    rfl

/-- A child, a node below it, and a move of that node's child to the child itself. -/
theorem scopeTerminates_moved :
    ∃ s₀, new 1 = .ok s₀ ∧ ScopeTerminates
      ([Mutator.attachChild 2 1, .announce 2 3 1, .announceWithParent 2 4 3 1,
        .announceWithParent 2 4 2 1].foldl apply s₀) := by
  refine ⟨_, rfl, (scopeTerminates_iff_grounded 1 _ rfl _).mpr ?_ _ List.prefix_rfl⟩
  refine ⟨trivial, ?_, ?_, ?_, trivial⟩
  · exact fun _ => not_leads_of_walk 2 [2, 1] (by decide) (by decide)
  · exact fun _ => not_leads_of_walk 3 [3, 2, 1] (by decide) (by decide)
  · exact fun _ => not_leads_of_walk 2 [2, 1] (by decide) (by decide)

end TreeState
