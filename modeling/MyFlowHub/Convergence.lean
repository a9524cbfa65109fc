/-
Convergence of the route tables.

In a quiescent state no join or cleanup is under way and every queue is empty.  The
tables should then describe exactly what is connected: node `n` routes `d` through
its direct child `v` if and only if `d` hangs below `v` along live links.

* `converged_of_tracking` — neighbours that agree make the whole network agree.
* `converged_of_orderly` — after a run of orderly steps every quiescent state has
  converged.
* `movedTooEarly_diverges` — without that condition it need not.
-/
import MyFlowHub.Tracking

open Std Function Runs TreeState Relation Option

/-! ### From neighbours to the whole network -/

/-- If every table holds the direct children and what their tables hold, and no node is
in its own table, the tables hold the transitive closure. -/
theorem transGen_of_local {α : Type*} [Finite α] (live table : α → α → Prop)
    (hlocal : ∀ n d, table n d ↔ ∃ c, live c n ∧ (d = c ∨ table c d)) (hirr : ∀ n, ¬ table n n)
    (n d : α) : table n d ↔ TransGen live d n := by
  have hback : ∀ {d n}, TransGen live d n → table n d := by
    intro d n h
    induction h with
    | single hdn => exact (hlocal _ d).mpr ⟨d, hdn, Or.inl rfl⟩
    | tail _ hcn ih => exact (hlocal _ d).mpr ⟨_, hcn, Or.inr ih⟩
  -- no cycles, and finitely many nodes: the live relation is well founded
  have hwf : WellFounded (TransGen live) := by
    have : Std.Irrefl (TransGen live) := ⟨fun x hx => hirr x (hback hx)⟩
    exact Finite.wellFounded_of_trans_of_irrefl (TransGen live)
  refine ⟨?_, hback⟩
  induction n using hwf.induction with
  | _ n ih =>
    intro h
    obtain ⟨c, hcn, rfl | hd⟩ := (hlocal n d).mp h
    · exact .single hcn
    · exact .tail (ih c (.single hcn) hd) hcn

namespace Overlay.Net

/-! ### The statement -/

def Live (s : Net) (c p : NodeID) : Prop :=
  ∃ k l, s.links k = some l ∧ l.child = c ∧ l.parent = p ∧ l.childEnd = .running ∧
    l.parentEnd = .running ∧ l.isOpen = true

/-- A link with an empty queue, nothing left to send, and either over at both ends or
registered and in use at both ends. -/
def Idle (s : Net) (k : LinkID) (l : Link) : Prop :=
  l.queue = [] ∧ (∀ thread, l.sends thread = []) ∧ l.snapshotDue = false ∧
    ((l.childEnd = .ended ∧ l.parentEnd = .ended) ∨
      (l.childEnd = .running ∧ l.parentEnd = .running ∧ l.isOpen = true ∧
        s.sessions l.child l.parent = some k ∧ s.sessions l.parent l.child = some k))

instance (s : Net) (k : LinkID) (l : Link) : Decidable (Idle s k l) :=
  inferInstanceAs (Decidable (_ ∧ _ ∧ _ ∧ _))

theorem Idle.ends {s : Net} {k : LinkID} {l : Link} (h : Idle s k l) :
    (l.childEnd = .ended ∧ l.parentEnd = .ended) ∨
      l.childEnd = .running ∧ l.parentEnd = .running :=
  h.2.2.2.imp_right fun hrun => ⟨hrun.1, hrun.2.1⟩

/-- No join or cleanup is in progress and every queue is empty. -/
def Quiescent (s : Net) : Prop := ∀ k l, s.links k = some l → Idle s k l

/-- The tables describe what is connected. -/
structure Converged (s : Net) : Prop where
  /-- the keys are the nodes below, through live links -/
  keys : ∀ n d, n ≠ 0 → ((∃ v, (s.tree n).routes[d]? = some v) ↔ TransGen s.Live d n)
  /-- the value is the direct child on the way down -/
  via : ∀ n d v, n ≠ 0 → (s.tree n).routes[d]? = some v →
    s.Live v n ∧ ReflTransGen s.Live d v

/-- **Tracking links have converged as soon as the network is quiescent.** -/
theorem converged_of_tracking {s : Net} (hcons : Consistent s) (hreg : Registered s)
    (htrack : Tracking s) (hquiet : Quiescent s) : Converged s := by
  have hattached : ∀ {k l}, s.links k = some l → l.parentEnd.isAttached = false := by
    intro k l hl
    rcases (hquiet k l hl).ends with ⟨-, hend⟩ | ⟨-, hend⟩
    · rw [hend]
      rfl
    · rw [hend]
      rfl
  have hpending : ∀ n d, ¬ Pending s n d := by
    rintro n d ⟨k, l, hl, ⟨thread, -, f, hf, -⟩ | ⟨-, -, hend⟩⟩
    · obtain ⟨-, hsends, -⟩ := hquiet k l hl
      rw [hsends thread] at hf
      cases hf
    · rw [hattached hl] at hend
      cases hend
  -- no join is between the tree and the session table, so the edges are there
  have hcurrent : ∀ {k l}, s.links k = some l → l.childEnd = .running ∨ l.parentEnd = .running →
      Current s k l := by
    intro k l hl hrun
    obtain ⟨-, -, -, ⟨hc, hp⟩ | ⟨hc, hp, hopen, hup, hdown⟩⟩ := hquiet k l hl
    · rw [hc, hp] at hrun
      simp at hrun
    · refine ⟨hl, hc, hp, hopen, hup, (hreg.up hl hup).2.resolve_right ?_,
        (hreg.down hl hdown).2.resolve_right ?_⟩
      · rintro ⟨j, m, hj, -, hend⟩
        rcases (hquiet j m hj).ends with ⟨hm, -⟩ | ⟨hm, -⟩
        · rw [hend] at hm
          cases hm
        · rw [hend] at hm
          cases hm
      · rintro ⟨j, m, hj, -, -, hend⟩
        rw [hattached hj] at hend
        cases hend
  -- neighbours agree
  have hlocal : ∀ n d v, n ≠ 0 → ((s.tree n).routes[d]? = some v ↔
      s.Live v n ∧ (d = v ∨ ∃ w, (s.tree v).routes[d]? = some w)) := by
    intro n d v hn
    have hwf := hcons.wellFormed hn
    constructor
    · intro hd
      obtain ⟨-, -, edge, hedge⟩ := hwf.routed hd
      obtain ⟨k, l, hl, rfl, rfl, -, hholds⟩ := hreg.edge
        (childEpoch_eq_some.mpr ⟨edge, hedge, rfl⟩)
      have hrun : l.parentEnd = .running := by
        rcases hholds with hend | hend | ⟨hend, -⟩
        · rw [hattached hl] at hend
          cases hend
        · rcases (hquiet k l hl).ends with ⟨-, hl⟩ | ⟨-, hl⟩
          · rw [hend] at hl
            cases hl
          · rw [hend] at hl
            cases hl
        · exact hend
      have hcur := hcurrent hl (.inr hrun)
      refine ⟨⟨k, l, hl, rfl, rfl, hcur.childEnd, hcur.parentEnd, hcur.isOpen⟩, ?_⟩
      by_cases hdc : d = l.child
      · exact Or.inl hdc
      · right
        rw [← ne_none_iff_exists']
        intro hnone
        have hout := (htrack k l hcur d hdc (hpending _ _)).2 hnone
        rw [outcome, (hquiet k l hl).1] at hout
        exact absurd hd (of_decide_eq_false hout)
    · rintro ⟨⟨k, l, hl, rfl, rfl, hce, -, -⟩, hd⟩
      have hcur := hcurrent hl (Or.inl hce)
      by_cases hdc : d = l.child
      · obtain ⟨edge, hedge, -⟩ := childEpoch_eq_some.mp hcur.childEdge
        rw [hdc]
        exact (hwf.child hedge).2.2
      · have hrouted := hd.resolve_left hdc
        rw [← ne_none_iff_exists'] at hrouted
        have hout := (htrack k l hcur d hdc (hpending _ _)).1 hrouted (hquiet k l hl).2.2.1
        rw [outcome, (hquiet k l hl).1] at hout
        exact of_decide_eq_true hout
  have hends : ∀ {c p}, s.Live c p → c ≠ 0 ∧ p ≠ 0 := by
    rintro c p ⟨k, l, hl, rfl, rfl, -⟩
    exact ⟨(hcons.link hl).child, (hcons.link hl).parent⟩
  have htable := transGen_of_local s.Live
    (fun n d => n ≠ 0 ∧ ∃ v, (s.tree n).routes[d]? = some v) ?_ ?_
  · refine ⟨fun n d hn => ?_, fun n d v hn hd => ?_⟩
    · rw [← htable n d]
      exact (and_iff_right hn).symm
    · obtain ⟨hlive, hbelow⟩ := (hlocal n d v hn).mp hd
      refine ⟨hlive, ?_⟩
      rcases hbelow with rfl | hw
      · exact ReflTransGen.refl
      · exact ((htable v d).mp ⟨(hends hlive).1, hw⟩).to_reflTransGen
  · intro n d
    constructor
    · rintro ⟨hn, v, hd⟩
      obtain ⟨hlive, hbelow⟩ := (hlocal n d v hn).mp hd
      exact ⟨v, hlive, hbelow.imp_right fun hw => ⟨(hends hlive).1, hw⟩⟩
    · rintro ⟨v, hlive, hbelow⟩
      have hn := (hends hlive).2
      exact ⟨hn, v, (hlocal n d v hn).mpr ⟨hlive, hbelow.imp_right And.right⟩⟩
  · rintro n ⟨hn, v, hself⟩
    exact ((hcons.wellFormed hn).routed hself).2.1 (hcons.localNode n).symm

/-! ### Runs that can be evaluated -/

/-- Only links below `n` are dialed. -/
def dialsBelow (n : ℕ) : Act → Bool
  | .dial k _ _ => k < n
  | _ => true

theorem links_eq_none_of_stepped {s s' : Net} {a : Act} {k : LinkID} {n : ℕ}
    (h : Stepped s a s') (ha : dialsBelow n a = true) (hk : n ≤ k) (hnone : s.links k = none) :
    s'.links k = none := by
  have hkeep : ∀ {u : Net} {j : LinkID} {l l' : Link}, u.links j = some l → u.links k = none →
      (u.setLink j l').links k = none := by
    intro u j l l' hj hu
    rw [links_setLink_of_ne u l' fun hkj => ?_, hu]
    rw [← hkj, hu] at hj
    cases hj
  cases h with
  | @dial j =>
    have hlt : j < n := of_decide_eq_true ha
    rw [links_setLink_of_ne s _ (hlt.trans_le hk).ne', hnone]
  | @send i thread via full l f rest hl =>
    have hpop : (s.setLink i (l.setSends thread rest)).links k = none := hkeep hl hnone
    rcases push_cases (s.setLink i (l.setSends thread rest)) (l.sender thread) f via full with
      ⟨hdrop, -⟩ | ⟨j, m, -, hm, -, -, -, hpush⟩
    · rw [hdrop]
      exact hpop
    · rw [hpush]
      exact hkeep hm hpop
  | attach hl => exact hkeep (u := s.setTree _ _) hl hnone
  | accept hl => exact hkeep (u := s.setSession _ _ _) hl hnone
  | acceptFail hl => exact hkeep (u := s.setTree _ _) hl hnone
  | activate hl => exact hkeep (u := s.setTree _ _) hl hnone
  | register hl => exact hkeep (u := s.registerParent _ _ _) hl hnone
  | abort hl => exact hkeep (u := s.setTree _ _) hl hnone
  | deliverAccepted hl => exact hkeep (u := s.setTree _ _) hl hnone
  | stopChild hl => exact hkeep (u := s.setSession _ _ _) hl hnone
  | detach hl => exact hkeep (u := s.setTree _ _) hl hnone
  | stopParent hl => exact hkeep (u := s.setSession _ _ _) hl hnone
  | withdraw hl => exact hkeep (u := s.setTree _ _) hl hnone
  | refuse hl => exact hkeep hl hnone
  | joinFail hl => exact hkeep hl hnone
  | snapshot hl => exact hkeep hl hnone
  | deliverInvalid hl => exact hkeep hl hnone
  | deliverRefused hl => exact hkeep hl hnone
  | close hl => exact hkeep hl hnone
  | endChild hl => exact hkeep hl hnone
  | endParent hl => exact hkeep hl hnone

theorem links_eq_none_of_step {s : Net} {a : Act} {n : ℕ} (ha : dialsBelow n a = true)
    {k : LinkID} (hk : n ≤ k) (hnone : s.links k = none) : (s.step a).links k = none := by
  rcases step_cases s a with hsame | hstep
  · rw [hsame]
    exact hnone
  · exact links_eq_none_of_stepped hstep ha hk hnone

theorem links_eq_none_of_run {n : ℕ} {as : List Act} (has : ∀ a ∈ as, dialsBelow n a = true)
    {k : LinkID} (hk : n ≤ k) : (as.foldl step start).links k = none := by
  have hgood : Along step (fun _ a => dialsBelow n a = true) start as :=
    along_of_forall fun a ha _ => has a ha
  exact foldl_along (I := fun s : Net => s.links k = none)
    (fun _ _ hs ha => links_eq_none_of_step ha hk hs) rfl hgood

theorem quiescent_of_run {n : ℕ} {as : List Act} (has : ∀ a ∈ as, dialsBelow n a = true)
    (hidle : ∀ k < n, ((as.foldl step start).links k).all
      (fun l => Idle (as.foldl step start) k l) = true) : Quiescent (as.foldl step start) := by
  intro k l hl
  by_cases hk : k < n
  · have hall := hidle k hk
    rw [hl, all_some] at hall
    exact of_decide_eq_true hall
  · rw [links_eq_none_of_run has (Nat.not_lt.mp hk)] at hl
    cases hl

theorem live_of_any {s : Net} {c p : NodeID} (k : LinkID)
    (h : (s.links k).any (fun l => l.child = c ∧ l.parent = p ∧ l.childEnd = .running ∧
      l.parentEnd = .running ∧ l.isOpen = true) = true) : s.Live c p := by
  cases hl : s.links k with
  | none =>
    rw [hl] at h
    cases h
  | some l =>
    rw [hl, any_some] at h
    exact ⟨k, l, hl, of_decide_eq_true h⟩

/-- A condition on one step that can be evaluated and makes it orderly in a network with
fewer than `n` links: no join shares its epoch, sessions are registered for their edges,
before anything but the child itself is routed through it, events agree with the sender's
table and are queued on its uplink, and every announcement is accepted. -/
def plain (n : ℕ) (s : Net) : Act → Bool
  | .dial k child _ => k < n && (List.range n).all fun j => (s.links j).all fun l =>
      l.child ≠ child || l.epoch ≠ (s.tree child).nextEpoch
  | .accept k => (s.links k).all fun l => (s.tree l.parent).childEpoch l.child = some l.epoch
  | .register k => (s.links k).all fun l =>
      (s.tree l.child).parent = some ⟨l.parent, l.epoch⟩ &&
        (s.tree l.parent).routes.toList.all fun e => e.1 = l.child || e.2 ≠ l.child
  | .acceptFail _ _ | .abort _ => false
  | .send k thread via full => (s.links k).all fun l => via = s.uplink (l.sender thread) &&
      !full && match l.sends thread with
      | [] => true
      | f :: _ => f.isAnnounce == ((s.tree (l.sender thread)).routes[f.node]?).isSome
  | .deliver k _ => (s.links k).all fun l =>
      match l.queue with
      | [] => true
      | f :: _ => (s.handleRoute l f).toBool
  | _ => true

theorem dialsBelow_of_plain {n : ℕ} {s : Net} {a : Act} (h : plain n s a = true) :
    dialsBelow n a = true := by
  cases a with
  | dial k child parent =>
    rw [plain, Bool.and_eq_true] at h
    exact h.1
  | _ => rfl

theorem orderly_of_plain {n : ℕ} {s : Net} {a : Act} (hn : ∀ k, n ≤ k → s.links k = none)
    (h : plain n s a = true) : Orderly s a := by
  cases a with
  | dial k child parent =>
    rw [plain, Bool.and_eq_true, List.all_eq_true] at h
    intro j l hj hc he
    by_cases hjn : j < n
    · have hall := h.2 j (List.mem_range.mpr hjn)
      rw [hj, all_some] at hall
      simp [hc, he] at hall
    · rw [hn j (Nat.not_lt.mp hjn)] at hj
      cases hj
  | accept k =>
    intro l hl _
    rw [plain, hl, all_some, decide_eq_true_iff] at h
    exact h
  | register k =>
    intro l hl _
    rw [plain, hl, all_some, Bool.and_eq_true, List.all_eq_true, decide_eq_true_iff] at h
    refine ⟨h.1, fun _ d hd hvia => ?_⟩
    have he := h.2 (d, l.child) (ExtTreeMap.mem_toList_iff_getElem?_eq_some.mpr hvia)
    simp [hd] at he
  | acceptFail k order => cases h
  | abort k => cases h
  | send k thread via full =>
    intro l f rest hl hsends
    rw [plain, hl, all_some, hsends, Bool.and_eq_true, Bool.and_eq_true] at h
    obtain ⟨⟨hvia, hfull⟩, hlast⟩ := h
    refine ⟨fun j hj => ⟨(of_decide_eq_true hvia).trans hj, by simpa using hfull⟩, fun _ => ?_⟩
    rw [beq_iff_eq.mp hlast, isSome_iff_ne_none]
  | deliver k early =>
    intro l f rest hl hqueue _ _
    rw [plain, hl, all_some, hqueue] at h
    left
    cases hok : s.handleRoute l f with
    | ok t => exact ⟨t, rfl⟩
    | error err =>
      have hbool : (s.handleRoute l f).toBool = true := h
      rw [hok] at hbool
      cases hbool
  | _ => trivial

theorem along_orderly {n : ℕ} {s : Net} {as : List Act} (hn : ∀ k, n ≤ k → s.links k = none)
    (h : Along step (fun s a => plain n s a = true) s as) : Along step Orderly s as := by
  induction as generalizing s with
  | nil => trivial
  | cons a as ih =>
    refine ⟨orderly_of_plain hn h.1, ih (fun k hk => ?_) h.2⟩
    exact links_eq_none_of_step (dialsBelow_of_plain h.1) hk (hn k hk)

/-! ### Runs of orderly steps -/

/-- **After orderly steps only, every quiescent state has converged.** -/
theorem converged_of_orderly (as : List Act) (h : Along step Orderly start as)
    (hquiet : Quiescent (as.foldl step start)) : Converged (as.foldl step start) := by
  have hrun := foldl_along (I := fun s => Consistent s ∧ Registered s ∧ Tracking s) ?_ ?_ h
  · obtain ⟨hcons, hreg, htrack⟩ := hrun
    exact converged_of_tracking hcons hreg htrack hquiet
  · rintro s a ⟨hcons, hreg, htrack⟩ ha
    refine ⟨consistent_step hcons a, ?_⟩
    rcases step_cases s a with hsame | hstep
    · rw [hsame]
      exact ⟨hreg, htrack⟩
    · exact ⟨hreg.stepped hcons ha hstep, htrack.stepped hcons hreg ha hstep⟩
  · refine ⟨consistent_start, registered_start, ?_⟩
    intro k l hcur
    cases hcur.link

/-- Nodes 2 and 3 join node 1, and node 4 joins node 2. -/
def joined : List Act :=
  [.dial 0 2 1, .attach 0, .accept 0, .activate 0, .register 0, .snapshot 0,
    .dial 1 3 1, .attach 1, .accept 1, .activate 1, .register 1, .snapshot 1,
    .send 0 .accept none false, .send 1 .accept none false,
    .dial 2 4 2, .attach 2, .accept 2, .activate 2, .register 2, .snapshot 2,
    .send 2 .accept (some 0) false, .deliver 0 false, .send 0 .loop none false]

/-- Node 4 moves from node 2 to node 3, and node 3's announcement reaches node 1 before node 2's
withdrawal. -/
def movedTooEarly : List Act :=
  joined ++ [.dial 3 4 3, .attach 3, .accept 3, .activate 3, .register 3, .snapshot 3,
    .send 3 .accept (some 1) false, .deliver 1 false,
    .close 2, .stopChild 2, .stopParent 2, .withdraw 2 [4],
    .send 2 .loop (some 0) false, .deliver 0 false, .send 0 .loop none false]

/-- **A move can leave a live node out of the tables for good**: node 4 is connected
below node 3, node 3 below node 1, nothing is under way, and node 1 has no route to
node 4. -/
theorem movedTooEarly_diverges : Quiescent (movedTooEarly.foldl step start) ∧
    ¬ Converged (movedTooEarly.foldl step start) := by
  refine ⟨quiescent_of_run (n := 4) (by decide) (by decide +kernel), fun h => ?_⟩
  have h43 : (movedTooEarly.foldl step start).Live 4 3 := live_of_any 3 (by decide +kernel)
  have h31 : (movedTooEarly.foldl step start).Live 3 1 := live_of_any 1 (by decide +kernel)
  obtain ⟨v, hv⟩ := (h.keys 1 4 (by decide)).mpr (.tail (.single h43) h31)
  have hnone : ((movedTooEarly.foldl step start).tree 1).routes[(4 : NodeID)]? = none := by
    decide +kernel
  rw [hnone] at hv
  cases hv

/-- The same move in order: node 4 leaves node 2, the withdrawal reaches node 1, and only
then node 4 joins node 3. -/
def movedInOrder : List Act :=
  joined ++ [.close 2, .stopChild 2, .detach 2, .stopParent 2, .withdraw 2 [4],
    .send 2 .loop (some 0) false, .deliver 0 false, .send 0 .loop none false,
    .dial 3 4 3, .attach 3, .accept 3, .activate 3, .register 3, .snapshot 3,
    .send 3 .accept (some 1) false, .deliver 1 false, .send 1 .loop none false]

theorem movedInOrder_converged : Converged (movedInOrder.foldl step start) ∧
    ((movedInOrder.foldl step start).tree 1).routes[(4 : NodeID)]? = some 3 := by
  have hplain : Along step (fun s a => plain 4 s a = true) start movedInOrder := by
    decide +kernel
  refine ⟨converged_of_orderly movedInOrder (along_orderly (fun _ _ => rfl) hplain)
    (quiescent_of_run (n := 4) (by decide) (by decide +kernel)), by decide +kernel⟩

end Overlay.Net
