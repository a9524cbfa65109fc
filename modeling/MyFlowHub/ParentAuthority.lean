/-
Revoked parent authority never comes back.

Every edge to a parent carries the epoch counter of the moment it was installed.  While
the counter has room, an edge is only installed under an epoch above every epoch used
before: `AttachParent` and `Reparent` count up, detaching counts up, and
`ActivateParent` takes the epoch of the counter again only when no edge is there.

* `Counted` — the invariant over the list of epochs installed so far;
* **`revoked_authority`** — installed epochs increase, and what was revoked stays revoked.
-/
import MyFlowHub.TreeCommands

open Std Tables Runs List

namespace TreeState

/-- The epoch of the edge to the parent that a call has installed, from its answer. -/
def installs : Mutator → EStateM.Result TreeError TreeState Reply → Option UInt64
  | .attachParent _, .ok (.epoch e) _ => some e
  | .reparent _, .ok (.epoch e) _ => some e
  | .activateParent _ e, .ok _ _ => some e
  | _, _ => none

/-- The epochs installed along a run, in order. -/
def installed : TreeState → List Mutator → List UInt64
  | _, [] => []
  | s, m :: ms => (installs m (m.exec.run s)).toList ++ installed (s.step m) ms

def Room (s : TreeState) (_ : Mutator) : Prop := s.epoch ≤ 18446744073709551614

variable {m : Mutator} {p : NodeID} {s : TreeState} {e : UInt64}

theorem toNat_succ_of_room (h : Room s m) : s.epoch < s.epoch + 1 := by
  have hle : s.epoch.toNat ≤ 18446744073709551614 := UInt64.le_iff_toNat_le.mp h
  rw [UInt64.lt_iff_toNat_lt, UInt64.toNat_add]
  show s.epoch.toNat < (s.epoch.toNat + 1) % 2 ^ 64
  omega

/-! ### One call -/

/-- What a call does to the edge to the parent: it installs a new one under a fresh epoch,
removes it and counts up, or leaves it and the counter alone. -/
inductive ParentEffect (s : TreeState) (m : Mutator) : Prop
  | installed (p : NodeID) (e : UInt64) (hanswer : installs m (m.exec.run s) = some e)
      (hparent : (s.step m).parent = some ⟨p, e⟩) (hepoch : (s.step m).epoch = e)
      (hfresh : s.epoch < e ∨ s.epoch = e ∧ s.parent = none)
  | cleared (hanswer : installs m (m.exec.run s) = none) (hparent : (s.step m).parent = none)
      (hepoch : (s.step m).epoch = s.epoch + 1)
  | kept (hanswer : installs m (m.exec.run s) = none) (hparent : (s.step m).parent = s.parent)
      (hepoch : (s.step m).epoch = s.epoch)

theorem activateParent_fresh {s' : TreeState} (h : s.activateParent p e = .ok s') :
    (s.epoch < e ∨ s.epoch = e ∧ s.parent = none) ∧ s' = s.setParent p e := by
  -- an epoch `ActivateParent` accepts is above the counter, unless no edge is there
  unfold activateParent at h
  split_ifs at h with hvalid hzero hcycle hstale
  cases h
  refine ⟨?_, rfl⟩
  rw [not_or] at hstale
  rcases UInt64.lt_or_eq_of_le (UInt64.not_lt.mp hstale.1) with hlt | heq
  · exact .inl hlt
  · exact .inr ⟨heq, not_not.mp fun hparent => hstale.2 ⟨heq.symm, hparent⟩⟩

theorem setParent_parent (s : TreeState) (p : NodeID) (e : UInt64) :
    (s.setParent p e).parent = some ⟨p, e⟩ ∧ (s.setParent p e).epoch = e :=
  ⟨bump_parent _, bump_epoch _⟩

theorem clearParent_parent (s : TreeState) :
    s.clearParent.parent = none ∧ s.clearParent.epoch = s.epoch + 1 :=
  ⟨bump_parent _, bump_epoch _⟩

theorem withdrawChild_edge (s : TreeState) (c : NodeID) :
    (s.withdrawChild c).2.parent = s.parent ∧ (s.withdrawChild c).2.epoch = s.epoch := by
  rcases withdrawChild_cases s c with hsame | ⟨-, hgone⟩
  · rw [hsame]
    exact ⟨rfl, rfl⟩
  · rw [hgone]
    exact ⟨bump_parent _, bump_epoch _⟩

theorem ParentEffect.of_kept (hanswer : installs m (m.exec.run s) = none)
    (happly : (s.apply m).parent = s.parent ∧ (s.apply m).epoch = s.epoch) : ParentEffect s m := by
  rw [← step_eq_apply] at happly
  exact .kept hanswer happly.1 happly.2

theorem ParentEffect.of_orKeep {r : Except TreeError TreeState}
    (hanswer : installs m (m.exec.run s) = none) (happly : s.apply m = s.orKeep r)
    (hok : ∀ s', r = .ok s' → s'.parent = s.parent ∧ s'.epoch = s.epoch) : ParentEffect s m := by
  refine .of_kept hanswer ?_
  rw [happly]
  rcases orKeep_cases s r with hsame | hr
  · rw [hsame]
    exact ⟨rfl, rfl⟩
  · exact hok _ hr

theorem ParentEffect.of_error {err : TreeError} (h : s.answer m = .error err) :
    ParentEffect s m := by
  have hrun : m.exec.run s = .error err s := by
    rw [exec_run, h]
    rfl
  have hstep : s.step m = s := by
    rw [step, hrun]
    rfl
  refine .kept ?_ (by rw [hstep]) (by rw [hstep])
  rw [hrun]
  cases m <;> rfl

theorem ParentEffect.of_cleared (hanswer : installs m (m.exec.run s) = none)
    (happly : s.apply m = s ∨ s.apply m = s.clearParent) : ParentEffect s m := by
  rw [← step_eq_apply] at happly
  rcases happly with hsame | hclear
  · exact .kept hanswer (by rw [hsame]) (by rw [hsame])
  · obtain ⟨hparent, hepoch⟩ := clearParent_parent s
    exact .cleared hanswer (by rw [hclear, hparent]) (by rw [hclear, hepoch])

theorem ParentEffect.of_setParent (hanswer : installs m (m.exec.run s) = some e)
    (hstep : s.step m = s.setParent p e) (hfresh : s.epoch < e ∨ s.epoch = e ∧ s.parent = none) :
    ParentEffect s m := by
  obtain ⟨hparent, hepoch⟩ := setParent_parent s p e
  exact .installed p e hanswer (by rw [hstep, hparent]) (by rw [hstep, hepoch]) hfresh

theorem parentEffect (s : TreeState) (m : Mutator) (hroom : Room s m) : ParentEffect s m := by
  cases m with
  | attachParent p =>
    rcases hanswer : s.attachParent p with err | ⟨e, s'⟩
    · exact .of_error (by rw [answer, hanswer]; rfl)
    · obtain ⟨-, -, -, -, he, hs'⟩ := attachParent_eq_ok hanswer
      refine .of_setParent (p := p) ?_ ?_ (.inl (he ▸ toNat_succ_of_room hroom))
      · rw [exec_run, answer, hanswer]
        rfl
      · rw [step_eq_apply, apply, hanswer]
        exact hs'
  | reparent p =>
    rcases hanswer : s.reparent p with err | ⟨e, s'⟩
    · exact .of_error (by rw [answer, hanswer]; rfl)
    · obtain ⟨-, -, -, he, hs'⟩ := reparent_eq_ok hanswer
      refine .of_setParent (p := p) ?_ ?_ (.inl (he ▸ toNat_succ_of_room hroom))
      · rw [exec_run, answer, hanswer]
        rfl
      · rw [step_eq_apply, apply, hanswer]
        exact hs'
  | activateParent p e =>
    rcases hanswer : s.activateParent p e with err | s'
    · exact .of_error (by rw [answer, hanswer]; rfl)
    · obtain ⟨hfresh, hs'⟩ := activateParent_fresh hanswer
      refine .of_setParent (p := p) ?_ ?_ hfresh
      · rw [exec_run, answer, hanswer]
        rfl
      · rw [step_eq_apply, apply, hanswer]
        exact hs'
  | detachParent p => exact .of_cleared rfl (detachParent_cases s p)
  | detachParentEpoch p e =>
    exact .of_cleared rfl ((detachParentEpoch_cases s p e).imp id And.right)
  | attachChild c e =>
    refine .of_orKeep rfl rfl fun s' hok => ?_
    obtain ⟨-, -, -, -, -, -, rfl⟩ := attachChild_eq_ok hok
    exact ⟨bump_parent _, bump_epoch _⟩
  | reattachChild c e =>
    refine .of_orKeep rfl rfl fun s' hok => ?_
    obtain ⟨-, -, rfl⟩ := reattachChild_eq_ok hok
    exact ⟨bump_parent _, bump_epoch _⟩
  | announce v d e =>
    refine .of_orKeep rfl rfl fun s' hok => ?_
    obtain ⟨-, -, -, -, -, -, -, -, -, rfl⟩ := announceWithParent_eq_ok hok
    exact ⟨bump_parent _, bump_epoch _⟩
  | announceWithParent v d p e =>
    refine .of_orKeep rfl rfl fun s' hok => ?_
    obtain ⟨-, -, -, -, -, -, -, -, -, rfl⟩ := announceWithParent_eq_ok hok
    exact ⟨bump_parent _, bump_epoch _⟩
  | withdrawChild c => exact .of_kept rfl (withdrawChild_edge s c)
  | withdrawChildEpoch c e =>
    refine .of_kept rfl ?_
    show (s.withdrawChildEpoch c e).2.parent = s.parent ∧
      (s.withdrawChildEpoch c e).2.epoch = s.epoch
    rcases withdrawChildEpoch_cases s c e with hsame | ⟨-, hgone⟩
    · rw [hsame]
      exact ⟨rfl, rfl⟩
    · rw [hgone]
      exact withdrawChild_edge s c
  | withdrawRoute v d e =>
    refine .of_orKeep rfl rfl fun s' hok => ?_
    obtain ⟨-, -, -, rfl⟩ := withdrawRoute_eq_ok hok
    exact ⟨bump_parent _, bump_epoch _⟩

/-! ### Runs -/

/-- The epochs installed so far increase up to the counter; the last is that of the edge
to the parent, and without an edge the counter is past all of them. -/
structure Counted (log : List UInt64) (s : TreeState) : Prop where
  increasing : log.Pairwise (· < ·)
  le_epoch : ∀ e ∈ log, e ≤ s.epoch
  current : ∀ edge, s.parent = some edge → log.getLast? = some edge.epoch ∧ edge.epoch = s.epoch
  gone : s.parent = none → ∀ e ∈ log, e < s.epoch

theorem Counted.step {log : List UInt64} (h : Counted log s) (m : Mutator) (hroom : Room s m) :
    Counted (log ++ (installs m (m.exec.run s)).toList) (s.step m) := by
  cases parentEffect s m hroom with
  | installed p e hanswer hparent hepoch hfresh =>
    have hbelow : ∀ x ∈ log, x < e := by
      intro x hx
      rcases hfresh with hlt | ⟨heq, hnone⟩
      · exact UInt64.lt_of_le_of_lt (h.le_epoch x hx) hlt
      · exact heq ▸ h.gone hnone x hx
    rw [hanswer]
    refine ⟨?_, fun x hx => ?_, fun edge hedge => ?_, fun hnone => ?_⟩
    · rw [Option.toList_some, pairwise_append]
      exact ⟨h.increasing, pairwise_singleton _ _,
        fun x hx y hy => mem_singleton.mp hy ▸ hbelow x hx⟩
    · rw [hepoch]
      rcases mem_append.mp hx with hx | hx
      · exact UInt64.le_of_lt (hbelow x hx)
      · exact mem_singleton.mp hx ▸ UInt64.le_refl e
    · rw [hparent] at hedge
      cases hedge
      exact ⟨List.getLast?_concat, hepoch.symm⟩
    · rw [hparent] at hnone
      cases hnone
  | cleared hanswer hparent hepoch =>
    have hlt : ∀ x ∈ log, x < (s.step m).epoch := fun x hx =>
      UInt64.lt_of_le_of_lt (h.le_epoch x hx) (hepoch ▸ toNat_succ_of_room hroom)
    rw [hanswer, Option.toList_none, append_nil]
    refine ⟨h.increasing, fun x hx => UInt64.le_of_lt (hlt x hx), fun edge hedge => ?_,
      fun _ => hlt⟩
    rw [hparent] at hedge
    cases hedge
  | kept hanswer hparent hepoch =>
    rw [hanswer, Option.toList_none, append_nil]
    exact ⟨h.increasing, hepoch ▸ h.le_epoch, hparent ▸ hepoch ▸ h.current, hparent ▸
      hepoch ▸ h.gone⟩

theorem Counted.run {log : List UInt64} (h : Counted log s) {ms : List Mutator}
    (hroom : Along TreeState.step Room s ms) :
    Counted (log ++ installed s ms) (ms.foldl TreeState.step s) := by
  induction ms generalizing log s with
  | nil =>
    rw [installed, append_nil]
    exact h
  | cons m ms ih =>
    rw [installed, ← append_assoc]
    exact ih (h.step m hroom.1) hroom.2

theorem validateParentControl_eq_none :
    s.validateParentControl p e = none ↔ s.parent = some ⟨p, e⟩ := by
  unfold validateParentControl
  cases s.parent with
  | none => simp
  | some edge =>
    obtain ⟨node, epoch⟩ := edge
    simp only [ite_not, Option.some.injEq, Edge.mk.injEq]
    split_ifs with hnode hepoch
    · simp [hnode, hepoch]
    · simp [hepoch]
    · simp [hnode]

/-- The counter is past the epoch, and so is the edge to the parent. -/
def Past (e : UInt64) (s : TreeState) : Prop :=
  e < s.epoch ∧ ∀ edge, s.parent = some edge → edge.epoch = s.epoch

/-- The edge to the parent is the one of `e`, or it is past. -/
def HeldOrPast (p : NodeID) (e : UInt64) (s : TreeState) : Prop :=
  s.parent = some ⟨p, e⟩ ∧ s.epoch = e ∨ Past e s

theorem Past.step (h : Past e s) (m : Mutator) (hroom : Room s m) : Past e (s.step m) := by
  cases parentEffect s m hroom with
  | installed p e' _ hparent hepoch hfresh =>
    refine ⟨?_, fun edge hedge => ?_⟩
    · rw [hepoch]
      rcases hfresh with hlt | ⟨heq, -⟩
      · exact UInt64.lt_trans h.1 hlt
      · exact heq ▸ h.1
    · rw [hparent] at hedge
      cases hedge
      exact hepoch.symm
  | cleared _ hparent hepoch =>
    refine ⟨hepoch ▸ UInt64.lt_trans h.1 (toNat_succ_of_room hroom), fun edge hedge => ?_⟩
    rw [hparent] at hedge
    cases hedge
  | kept _ hparent hepoch => exact ⟨hepoch ▸ h.1, hparent ▸ hepoch ▸ h.2⟩

theorem HeldOrPast.step (h : HeldOrPast p e s) (m : Mutator) (hroom : Room s m) :
    HeldOrPast p e (s.step m) := by
  rcases h with ⟨hheld, hcounter⟩ | hpast
  · cases parentEffect s m hroom with
    | installed p' e' _ hparent hepoch hfresh =>
      -- the edge is still there, so the new epoch is above it
      refine .inr ⟨?_, fun edge hedge => ?_⟩
      · rcases hfresh with hlt | ⟨-, hnone⟩
        · rw [hepoch, ← hcounter]
          exact hlt
        · rw [hheld] at hnone
          cases hnone
      · rw [hparent] at hedge
        cases hedge
        exact hepoch.symm
    | cleared _ hparent hepoch =>
      refine .inr ⟨?_, fun edge hedge => ?_⟩
      · rw [hepoch, ← hcounter]
        exact toNat_succ_of_room hroom
      · rw [hparent] at hedge
        cases hedge
    | kept _ hparent hepoch =>
      exact .inl ⟨hparent.trans hheld, hepoch.trans hcounter⟩
  · exact .inr (hpast.step m hroom)

/-- **Revoked parent authority never comes back**: the epochs installed along a run
increase, control that was refused after it was valid is refused from then on, and the
epoch of an older edge does not detach the current one. -/
theorem revoked_authority (localNode : NodeID) (s : TreeState) (hnew : new localNode = .ok s)
    (ms : List Mutator) (hroom : Along step Room s ms) :
    (installed s ms).Pairwise (· < ·) ∧
    (∀ as bs cs, ms = as ++ (bs ++ cs) → ∀ p e, (as.foldl step s).validateParentControl p e = none →
      ((as ++ bs).foldl step s).validateParentControl p e ≠ none →
      (ms.foldl step s).validateParentControl p e ≠ none) ∧
    ∀ older last, installed s ms = older ++ [last] →
      (∀ edge, (ms.foldl step s).parent = some edge → edge.epoch = last) ∧
      ∀ e ∈ older, ∀ p, (TreeM.detachParentEpoch p e).run (ms.foldl step s) =
        .ok false (ms.foldl step s) := by
  obtain ⟨-, -, hnone, -⟩ := new_eq_ok hnew
  have hstart : Counted [] s := by
    refine ⟨List.Pairwise.nil, fun e he => absurd he not_mem_nil, fun edge hedge => ?_,
      fun _ e he => absurd he not_mem_nil⟩
    rw [hnone] at hedge
    cases hedge
  have hcounted : Counted (installed s ms) (ms.foldl step s) := hstart.run hroom
  refine ⟨hcounted.increasing, ?_, fun older last hlog => ?_⟩
  · rintro as bs cs rfl p e hvalid hrevoked hagain
    rw [along_append, along_append] at hroom
    obtain ⟨has, hbs, hcs⟩ := hroom
    rw [validateParentControl_eq_none] at hvalid hagain
    rw [ne_eq, validateParentControl_eq_none, foldl_append] at hrevoked
    have hcounter : (as.foldl step s).epoch = e := ((hstart.run has).current _ hvalid).2.symm
    have hheld := foldl_along (I := HeldOrPast p e) (fun t m ht hr => ht.step m hr)
      (.inl ⟨hvalid, hcounter⟩) hbs
    have hpast : Past e (bs.foldl step (as.foldl step s)) :=
      hheld.resolve_left fun h => hrevoked h.1
    obtain ⟨hlt, hedge⟩ := foldl_along (I := Past e) (fun t m ht hr => ht.step m hr) hpast hcs
    rw [foldl_append, foldl_append] at hagain
    have heq : e = _ := hedge _ hagain
    rw [← heq] at hlt
    exact UInt64.lt_irrefl e hlt
  · have hcurrent : ∀ edge, (ms.foldl step s).parent = some edge → edge.epoch = last := by
      intro edge hedge
      have hlast := (hcounted.current edge hedge).1
      rw [hlog, List.getLast?_concat] at hlast
      exact (Option.some.inj hlast).symm
    refine ⟨hcurrent, fun e he p => ?_⟩
    have hincreasing := hcounted.increasing
    rw [hlog, pairwise_append] at hincreasing
    have hlt : e < last := hincreasing.2.2 e he last mem_cons_self
    rw [TreeM.detachParentEpoch_run, detachParentEpoch]
    cases hparent : (ms.foldl step s).parent with
    | none => rfl
    | some edge =>
      have hne : edge.epoch ≠ e := by
        rw [hcurrent edge hparent]
        exact (UInt64.ne_of_lt hlt).symm
      dsimp only
      rw [if_pos (.inr hne)]
      rfl

theorem revoked_authority_reparented :
    new 1 = .ok (fresh 1) ∧ Along step Room (fresh 1) [.attachParent 5, .reparent 6] ∧
      installed (fresh 1) [.attachParent 5, .reparent 6] = [1, 2] ∧
      [(1 : UInt64), 2].Pairwise (· < ·) := by
  have hroom : Along step Room (fresh 1) [.attachParent 5, .reparent 6] :=
    ⟨by unfold Room; decide +kernel, by unfold Room; decide +kernel, trivial⟩
  have hlog : installed (fresh 1) [.attachParent 5, .reparent 6] = [1, 2] := by decide +kernel
  exact ⟨rfl, hroom, hlog, hlog ▸ (revoked_authority 1 (fresh 1) rfl _ hroom).1⟩

end TreeState
