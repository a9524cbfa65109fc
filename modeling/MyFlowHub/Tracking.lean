/-
What the parent's end of a link knows about the child's table.

The child reports changes of its route table with route events.  Some are still to be
sent by one of its goroutines (`Pending`), some are in the queue of the link, and the
rest has been handled by the parent.  The invariant compares the two ends: for every
node the child has no event pending about, the parent's table, read through the events
still in the queue (`outcome`), says what the child's table says.

Three things can break it.  An announcement that reaches the parent before the
competing withdrawal is refused and never repeated; a withdrawal computed by an old
session can leave the node after a newer announcement of the same node; and a child
that reconnects does not tell its parent what it has lost in between.  `Orderly` rules
these out step by step.

* `Tracking.stepped` — an orderly step keeps the ends of every current link together.
-/
import MyFlowHub.Orderly

open Std Function Runs TreeState List Option

namespace Overlay.Net

/-- What the parent's entry for `d` will say once the queued events are handled. -/
def settle (d : NodeID) (routed : Bool) (queue : List Frame) : Bool :=
  queue.foldl (fun b f => if f.node = d then f.isAnnounce else b) routed

def outcome (s : Net) (l : Link) (d : NodeID) : Bool :=
  settle d ((s.tree l.parent).routes[d]? = some l.child) l.queue

/-- The parent's end of a link follows the child's table. -/
def Tracked (s : Net) (l : Link) : Prop :=
  ∀ d, d ≠ l.child → ¬ Pending s l.child d →
    ((s.tree l.child).routes[d]? ≠ none → l.snapshotDue = false → s.outcome l d = true) ∧
    ((s.tree l.child).routes[d]? = none → s.outcome l d = false)

def Tracking (s : Net) : Prop := ∀ k l, Current s k l → Tracked s l

/-! ### Keeping track -/

section Settle

theorem settle_append (d : NodeID) (b : Bool) (q : List Frame) (f : Frame) :
    settle d b (q ++ [f]) = if f.node = d then f.isAnnounce else settle d b q := by
  rw [settle, foldl_append]
  rfl

theorem settle_cons (d : NodeID) (b : Bool) (f : Frame) (q : List Frame) :
    settle d b (f :: q) = settle d (if f.node = d then f.isAnnounce else b) q := rfl

theorem settle_of_mem {d : NodeID} {q : List Frame} (h : ∃ g ∈ q, g.node = d) (b b' : Bool) :
    settle d b q = settle d b' q := by
  -- an event about `d` in the queue makes the entry before it irrelevant
  induction q generalizing b b' with
  | nil =>
    obtain ⟨g, hg, -⟩ := h
    cases hg
  | cons f q ih =>
    rw [settle_cons, settle_cons]
    by_cases hf : f.node = d
    · rw [if_pos hf, if_pos hf]
    · rw [if_neg hf, if_neg hf]
      obtain ⟨g, hg, hgd⟩ := h
      rcases mem_cons.mp hg with rfl | hg
      · exact absurd hgd hf
      · exact ih ⟨g, hg, hgd⟩ b b'

end Settle

section Frame

variable {s s' : Net} {l l' : Link} {k : LinkID} {n : NodeID} {d : NodeID} {t : TreeState}

/-- A link whose queue stays as it is stays tracked when both tables only change where
an event is pending. -/
theorem Tracked.frame {m m' : Link} (h : Tracked s m) (hchild : m'.child = m.child)
    (hparent : m'.parent = m.parent) (hqueue : m'.queue = m.queue)
    (hdue : m'.snapshotDue = false → m.snapshotDue = false)
    (hpend : ∀ d, Pending s m.child d → Pending s' m.child d)
    (hself : ∀ d, ¬ Pending s' m.child d →
      ((s'.tree m.child).routes[d]? = none ↔ (s.tree m.child).routes[d]? = none))
    (hvia : ∀ d, d ≠ m.child → ((s'.tree m.parent).routes[d]? = some m.child ↔
      (s.tree m.parent).routes[d]? = some m.child)) : Tracked s' m' := by
  intro d hd hnot
  rw [hchild] at hd hnot ⊢
  obtain ⟨hin, hout⟩ := h d hd fun hp => hnot (hpend d hp)
  have hsame : s'.outcome m' d = s.outcome m d := by
    rw [outcome, outcome, hchild, hparent, hqueue]
    congr 1
    exact decide_eq_decide.mpr (hvia d hd)
  rw [hsame, Ne, hself d hnot]
  exact ⟨fun hr hs => hin hr (hdue hs), hout⟩

theorem pending_of_mem (hl : s.links k = some l) (thread : Thread) {f : Frame}
    (hf : f ∈ l.sends thread) : Pending s (l.sender thread) f.node :=
  ⟨k, l, hl, .inl ⟨thread, rfl, f, hf, rfl⟩⟩

theorem pending_setLink (hl : s.links k = some l) (howes : l.Owes n d → l'.Owes n d)
    (h : Pending s n d) : Pending (s.setLink k l') n d := by
  obtain ⟨j, m, hj, hm⟩ := h
  by_cases hjk : j = k
  · subst hjk
    obtain rfl := mem_unique hl hj
    exact ⟨j, l', links_setLink_self s j l', howes hm⟩
  · exact ⟨j, m, (links_setLink_of_ne s l' hjk).trans hj, hm⟩

/-! One part of the network changes at a time; a step is a chain of such changes. -/

variable (h : Tracking s)
include h

theorem Tracking.update {table : NodeID → NodeID → Option LinkID} (hl : s.links k = some l)
    (htable : ∀ {n x j}, j ≠ k → table n x = some j → s.sessions n x = some j)
    (howes : ∀ {n d}, l.Owes n d → l'.Owes n d)
    (hk : Current ({ s with sessions := table }.setLink k l') k l' →
      Tracked ({ s with sessions := table }.setLink k l') l') :
    Tracking ({ s with sessions := table }.setLink k l') := by
  -- a change of one link and the session tables leaves the other links tracked
  intro j m hj
  rcases links_setLink_cases hj.link with ⟨rfl, rfl⟩ | ⟨hjk, hm⟩
  · exact hk hj
  · have hcur : Current s j m := ⟨hm, hj.childEnd, hj.parentEnd, hj.isOpen, htable hjk hj.up,
      hj.parentEdge, hj.childEdge⟩
    exact (h j m hcur).frame rfl rfl rfl id (fun d hd => pending_setLink hl howes hd)
      (fun d _ => Iff.rfl) fun d _ => Iff.rfl

theorem Tracking.setLink (hl : s.links k = some l) (howes : ∀ {n d}, l.Owes n d → l'.Owes n d)
    (hk : Current (s.setLink k l') k l' → Tracked (s.setLink k l') l') :
    Tracking (s.setLink k l') :=
  h.update hl (fun _ => id) howes hk

theorem Tracking.setLink_over (hl : s.links k = some l) (hchild : l'.child = l.child)
    (hparent : l'.parent = l.parent) (hsends : l'.sends = l.sends)
    (hattached : l.parentEnd.isAttached = true → l'.parentEnd.isAttached = true)
    (hover : ¬ (l'.childEnd = .running ∧ l'.parentEnd = .running ∧ l'.isOpen = true)) :
    Tracking (s.setLink k l') :=
  h.setLink hl
    (fun ho => ho.mono hchild hparent (fun thread => by rw [hsends]; exact List.Subset.refl _)
      fun hend => .inl (hattached hend))
    fun hj => absurd ⟨hj.childEnd, hj.parentEnd, hj.isOpen⟩ hover

theorem Tracking.setTree
    (hchild : ∀ {j : LinkID} {m : Link}, s.links j = some m → m.childEnd = .running →
      m.parentEnd = .running → m.parent = n → t.childEpoch m.child = some m.epoch →
      (s.tree n).childEpoch m.child = some m.epoch)
    (hparent : ∀ {j : LinkID} {m : Link}, s.links j = some m → m.childEnd = .running →
      m.child = n → t.parent = some ⟨m.parent, m.epoch⟩ →
      (s.tree n).parent = some ⟨m.parent, m.epoch⟩)
    (hself : ∀ d : NodeID, ¬ Pending s n d → (t.routes[d]? = none ↔ (s.tree n).routes[d]? = none))
    (hvia : ∀ {j : LinkID} {m : Link}, Current s j m → m.parent = n → ∀ d : NodeID, d ≠ m.child →
      (t.routes[d]? = some m.child ↔ (s.tree n).routes[d]? = some m.child)) :
    Tracking (s.setTree n t) := by
  intro j m hj
  have hcur : Current s j m := by
    refine ⟨hj.link, hj.childEnd, hj.parentEnd, hj.isOpen, hj.up, ?_, ?_⟩
    · have hedge := hj.parentEdge
      by_cases hn : m.child = n
      · rw [ParentEdge, hn, tree_setTree_self] at hedge
        rw [ParentEdge, hn]
        exact hparent hj.link hj.childEnd hn hedge
      · rwa [ParentEdge, tree_setTree_of_ne s t hn] at hedge
    · have hedge := hj.childEdge
      by_cases hn : m.parent = n
      · rw [ChildEdge, hn, tree_setTree_self] at hedge
        rw [ChildEdge, hn]
        exact hchild hj.link hj.childEnd hj.parentEnd hn hedge
      · rwa [ChildEdge, tree_setTree_of_ne s t hn] at hedge
  refine (h j m hcur).frame rfl rfl rfl id (fun d hd => hd) ?_ ?_
  · intro d hd
    by_cases hn : m.child = n
    · rw [hn, tree_setTree_self]
      exact hself d (hn ▸ hd)
    · rw [tree_setTree_of_ne s t hn]
  · intro d hd
    by_cases hn : m.parent = n
    · rw [hn, tree_setTree_self]
      exact hvia hcur hn d hd
    · rw [tree_setTree_of_ne s t hn]

end Frame

/-! ### Every orderly step keeps track -/

section Step

theorem exists_mem_relations {t : TreeState} {d : NodeID} (hwf : WellFormed t)
    (hd : t.routes[d]? ≠ none) : ∃ r ∈ t.relations, r.node = d := by
  have hparents : t.parents[d]? ≠ none := fun hnone => hd ((hwf.sameKeys d).mp hnone)
  obtain ⟨p, hp⟩ := ne_none_iff_exists'.mp hparents
  refine ⟨⟨d, p⟩, ?_, rfl⟩
  rw [relations, mem_insertionSort]
  exact mem_map.mpr ⟨(d, p), ExtTreeMap.mem_toList_iff_getElem?_eq_some.mpr hp, rfl⟩

variable {s s' : Net} {k : LinkID} {l : Link} {f : Frame} {rest : List Frame} {d : NodeID}
  {thread : Thread} {t : TreeState}

theorem Tracking.dial (h : Tracking s) (hk : s.links k = none) (hend : l.childEnd = .joining) :
    Tracking (s.setLink k l) := by
  intro j m hj
  rcases links_setLink_cases hj.link with ⟨rfl, rfl⟩ | ⟨hjk, hm⟩
  · have hrun := hj.childEnd
    rw [hend] at hrun
    cases hrun
  · refine (h j m { hj with link := hm }).frame rfl rfl rfl id ?_ (fun d _ => Iff.rfl)
      fun d _ => Iff.rfl
    rintro d ⟨i, m', hi, hrest⟩
    refine ⟨i, m', ?_, hrest⟩
    rw [links_setLink_of_ne, hi]
    rintro rfl
    rw [hk] at hi
    cases hi

section

variable (h : Tracking s) (hl : s.links k = some l)
include h hl

theorem Tracking.detach :
    Tracking ((s.setTree l.child
      ((s.tree l.child).detachParentEpoch l.parent l.epoch).2).setLink k
      { l with childEnd := .ended }) := by
  obtain ⟨-, hchildren, hroutes, hparent⟩ :=
    detachParentEpoch_spec (s.tree l.child) l.parent l.epoch
  have hlink : Tracking (s.setLink k { l with childEnd := .ended }) :=
    h.setLink_over hl rfl rfl rfl id fun hc => by simp at hc
  refine hlink.setTree (n := l.child) ?_ ?_ ?_ ?_
  · intro j m _ _ _ _ hedge
    rwa [childEpoch, hchildren] at hedge
  · intro j m _ _ _ hedge
    rcases hparent with hsame | ⟨-, hnone⟩
    · rwa [hsame] at hedge
    · rw [hnone] at hedge
      cases hedge
  · intro d _
    rw [hroutes]
    exact Iff.rfl
  · intro j m _ _ d _
    rw [hroutes]
    exact Iff.rfl

theorem Tracking.withdraw (hreg : Registered s) {order : List NodeID}
    (hend : l.parentEnd = .leaving)
    (horder : order.Perm ((s.tree l.parent).withdrawChildEpoch l.child l.epoch).1) :
    Tracking ((s.setTree l.parent
      ((s.tree l.parent).withdrawChildEpoch l.child l.epoch).2).setLink k
      (Link.addSends { l with parentEnd := .ended } .loop (order.map .withdraw))) := by
  have hparent := withdrawChildEpoch_parent (s.tree l.parent) l.child l.epoch
  have hlink : Tracking (s.setLink k
      (Link.addSends { l with parentEnd := .ended } .loop (order.map .withdraw))) := by
    refine h.setLink hl (fun ho => ho.mono rfl rfl (Link.subset_addSends _ .loop _) ?_) fun hj => ?_
    · simp [hend, ParentEnd.isAttached]
    · cases hj.parentEnd
  rcases withdrawChildEpoch_spec (s.tree l.parent) l.child l.epoch with
    ⟨hsame, -⟩ | ⟨hmine, hepochs, hroutes, hmem⟩
  · rw [hsame]
    exact hlink.setTree (n := l.parent) (fun _ _ _ _ => id) (fun _ _ _ => id) (fun _ _ => Iff.rfl)
      fun _ _ _ _ => Iff.rfl
  refine hlink.setTree (n := l.parent) ?_ ?_ ?_ ?_
  · intro j m _ _ _ _ hedge
    rw [hepochs] at hedge
    split_ifs at hedge
    exact hedge
  · intro j m _ _ _ hedge
    rwa [hparent] at hedge
  · intro d hd
    rw [hroutes d]
    split_ifs with hvia
    · refine absurd (pending_of_mem (links_setLink_self s k _) .loop (f := .withdraw d) ?_) hd
      exact Link.mem_addSends (mem_map_of_mem (horder.mem_iff.mpr ((hmem d).mpr hvia)))
    · exact Iff.rfl
  · intro j m hj hp d _
    -- the edge was that of the link that ends
    have hother : m.child ≠ l.child := by
      intro hc
      have hedge : (s.tree m.parent).childEpoch m.child = some m.epoch := hj.childEdge
      rw [hp, hc, hmine] at hedge
      have hrun := hj.parentEnd
      rcases links_setLink_cases hj.link with ⟨-, rfl⟩ | ⟨hjk, hm⟩
      · cases hrun
      · refine hjk (hreg.unique hm hl hc (some.inj hedge).symm ?_ ?_)
        · exact Link.not_over_of_parentEnd (by simp [hrun])
        · exact Link.not_over_of_parentEnd (by simp [hend])
    rw [hroutes d]
    split_ifs with hvia
    · refine iff_of_false (by simp) fun hv => ?_
      exact hother (mem_unique hv hvia)
    · exact Iff.rfl

variable (hcons : Consistent s)
include hcons

theorem Tracking.attach (hreg : Registered s) {re : Bool} (hend : l.parentEnd = .joining)
    (hattach : attachOrReattach (s.tree l.parent) l.child l.epoch = .ok (re, t)) :
    Tracking ((s.setTree l.parent t).setLink k { l with parentEnd := .attached re }) := by
  obtain ⟨-, -, -, hparent, hepochs, hroutes, hown⟩ :=
    attachOrReattach_spec (hcons.parent hl) hattach
  -- the link first, so that the child is pending when the table changes
  have hlink : Tracking (s.setLink k { l with parentEnd := .attached re }) :=
    h.setLink_over hl rfl rfl rfl (fun _ => rfl) fun hc => by simp at hc
  refine hlink.setTree (n := l.parent) ?_ ?_ ?_ ?_
  · intro j m hj _ hrun _ hedge
    rw [hepochs] at hedge
    split_ifs at hedge with hc
    · -- the epoch of the new edge is that of the link alone
      rcases links_setLink_cases hj with ⟨rfl, rfl⟩ | ⟨hjk, hj⟩
      · cases hrun
      · refine absurd (hreg.unique hj hl hc (some.inj hedge).symm ?_ ?_) hjk
        · exact Link.not_over_of_parentEnd (by simp [hrun])
        · exact Link.not_over_of_parentEnd (by simp [hend])
    · exact hedge
  · intro j m _ _ _ hedge
    rwa [hparent] at hedge
  · intro d hd
    rw [hroutes d]
    split_ifs with hdc
    · refine absurd ⟨k, _, links_setLink_self s k _, .inr ⟨rfl, hdc.symm, rfl⟩⟩ hd
    · exact Iff.rfl
  · intro j m _ _ d hd
    rw [hroutes d]
    split_ifs with hdc
    · subst hdc
      constructor
      · exact fun hc => absurd (some.inj hc) hd
      · exact fun hv => absurd (hown _ hv).symm hd
    · exact Iff.rfl

theorem Tracking.accept (hend : l.parentEnd.isAttached = true) :
    Tracking ((s.setSession l.parent l.child (some k)).setLink k
      (Link.addSends { l with parentEnd := .running, acked := true } .accept
        [.announce l.child l.parent])) := by
  refine h.update hl (fun hjk hsess => (setSession_cases hsess).resolve_left hjk)
    (fun ho => ho.mono rfl rfl (fun thread => ?_) fun _ => .inr ?_) fun hj => ?_
  · exact Link.subset_addSends _ .accept _ thread
  · refine ⟨.announce l.child l.parent, ?_, rfl⟩
    exact Link.mem_addSends (mem_singleton.mpr rfl)
  · -- the child has had no acknowledgement yet
    have hrun : l.childEnd = .running := hj.childEnd
    rcases (hcons.link hl).waiting ((hcons.link hl).unacked (.inr hend)) with hc | hc
    · rw [hc] at hrun
      cases hrun
    · rw [hc] at hrun
      cases hrun

theorem Tracking.activate (hreg : Registered s) (hend : l.childEnd = .joining)
    (hactivate : (s.tree l.child).activateParent l.parent l.epoch = .ok t) :
    Tracking ((s.setTree l.child t).setLink k { l with childEnd := .activated }) := by
  obtain ⟨-, -, hchildren, hroutes, hparent⟩ := activateParent_spec (hcons.child hl) hactivate
  have hlink : Tracking (s.setLink k { l with childEnd := .activated }) :=
    h.setLink_over hl rfl rfl rfl id fun hc => by simp at hc
  refine hlink.setTree (n := l.child) ?_ ?_ ?_ ?_
  · intro j m _ _ _ _ hedge
    rwa [childEpoch, hchildren] at hedge
  · intro j m hj hrun hc hedge
    rw [hparent] at hedge
    rcases links_setLink_cases hj with ⟨rfl, rfl⟩ | ⟨hjk, hj⟩
    · cases hrun
    · refine absurd (hreg.unique hj hl hc (congrArg Edge.epoch (some.inj hedge)).symm ?_ ?_) hjk
      · exact Link.not_over_of_childEnd (by simp [hrun])
      · exact Link.not_over_of_childEnd (by simp [hend])
  · intro d _
    rw [hroutes]
    exact Iff.rfl
  · intro j m _ _ d _
    rw [hroutes]
    exact Iff.rfl

theorem Tracking.register (hend : l.childEnd = .activated) (horderly : Orderly s (.register k)) :
    Tracking ((s.registerParent l.child l.parent k).setLink k
      { l with childEnd := .running, snapshotDue := true }) := by
  refine h.update hl (fun hjk hsess => (registerParent_cases hsess).resolve_left hjk) id ?_
  intro hj d hd hnot
  refine ⟨fun _ hdue => (by cases hdue), fun hnone => ?_⟩
  show settle d (decide ((s.tree l.parent).routes[d]? = some l.child)) l.queue = false
  rw [(hcons.link hl).idle (.inr hend)]
  refine decide_eq_false fun hvia => ?_
  rcases (horderly l hl hend).2 hj.childEdge d hd hvia with hrouted | hpending
  · exact hrouted hnone
  · exact hnot (pending_setLink hl id hpending)

theorem Tracking.snapshot :
    Tracking (s.setLink k (Link.addSends { l with snapshotDue := false } .join
      ((s.tree l.child).relations.map fun r => .announce r.node r.parent))) := by
  have howes : ∀ {n d}, l.Owes n d → (Link.addSends { l with snapshotDue := false } .join
      ((s.tree l.child).relations.map fun r => .announce r.node r.parent)).Owes n d :=
    fun ho => ho.mono rfl rfl (Link.subset_addSends _ .join _) .inl
  refine h.setLink hl howes fun hj d hd hnot => ⟨fun hrouted _ => ?_, fun hnone => ?_⟩
  · obtain ⟨r, hr, hrd⟩ := exists_mem_relations (hcons.child hl) hrouted
    refine absurd (pending_of_mem hj.link .join (f := .announce r.node r.parent) ?_) (hrd ▸ hnot)
    exact Link.mem_addSends (mem_map_of_mem hr)
  · exact (h k l { hj with link := hl } d hd fun hp => hnot (pending_setLink hl howes hp)).2 hnone

end

theorem Current.uplink (hcur : Current s k l) : s.uplink l.child = some k := by
  rw [Net.uplink, show (s.tree l.child).parent = _ from hcur.parentEdge]
  refine filter_eq_some_iff.mpr ⟨hcur.up, ?_⟩
  rw [hcur.link, any_some]
  exact decide_eq_true rfl

theorem pending_pop {n : NodeID} (hl : s.links k = some l) (hsends : l.sends thread = f :: rest)
    (h : Pending s n d) :
    Pending (s.setLink k (l.setSends thread rest)) n d ∨ n = l.sender thread ∧ d = f.node := by
  obtain ⟨j, m, hj, howes⟩ := h
  by_cases hjk : j = k
  · subst hjk
    obtain rfl := mem_unique hl hj
    rcases howes with ⟨u, hn, g, hg, hgd⟩ | hattached
    · have hkeep : g ∈ (l.setSends thread rest).sends u →
          Pending (s.setLink j (l.setSends thread rest)) n d := fun hg =>
        ⟨j, _, links_setLink_self s j _, .inl ⟨u, hn ▸ (by cases u <;> rfl), g, hg, hgd⟩⟩
      by_cases hu : u = thread
      · subst hu
        rw [hsends] at hg
        rcases mem_cons.mp hg with rfl | hg
        · exact .inr ⟨hn.symm, hgd.symm⟩
        · exact .inl (hkeep (by rwa [Link.sends_setSends_self]))
      · exact .inl (hkeep (by rwa [Link.sends_setSends_of_ne l hu]))
    · exact .inl ⟨j, _, links_setLink_self s j _, .inr hattached⟩
  · exact .inl ⟨j, m, (links_setLink_of_ne s _ hjk).trans hj, howes⟩

theorem Current.of_pop {j : LinkID} {m : Link} (hl : s.links k = some l)
    (hj : Current (s.setLink k (l.setSends thread rest)) j m) :
    ∃ m₀, Current s j m₀ ∧ m.child = m₀.child ∧ m.parent = m₀.parent ∧ m.queue = m₀.queue ∧
      m.snapshotDue = m₀.snapshotDue := by
  rcases links_setLink_cases hj.link with ⟨rfl, rfl⟩ | ⟨hjk, hm⟩
  · exact ⟨l, { hj with link := hl }, rfl, rfl, rfl, rfl⟩
  · exact ⟨m, { hj with link := hm }, rfl, rfl, rfl, rfl⟩

theorem Tracking.send (h : Tracking s) {via : Option LinkID} {full : Bool}
    (hl : s.links k = some l) (hsends : l.sends thread = f :: rest)
    (horderly : Orderly s (.send k thread via full)) :
    Tracking ((s.setLink k (l.setSends thread rest)).push (l.sender thread) f via full) := by
  obtain ⟨hqueued, hlast⟩ := horderly l f rest hl hsends
  -- a link of another node does not notice
  have hothers : ∀ {j m}, Current (s.setLink k (l.setSends thread rest)) j m →
      m.child ≠ l.sender thread → Tracked (s.setLink k (l.setSends thread rest)) m := by
    intro j m hj hm
    obtain ⟨m₀, hcur, hmc, hmp, hmq, hmdue⟩ := hj.of_pop hl
    refine (h j m₀ hcur).frame hmc hmp hmq (fun hx => hmdue.symm.trans hx) ?_ (fun d _ => Iff.rfl)
      fun d _ => Iff.rfl
    intro d hd
    exact (pending_pop hl hsends hd).resolve_right fun hx => hm (hmc.trans hx.1)
  have hup : ∀ {j m}, Current (s.setLink k (l.setSends thread rest)) j m →
      m.child = l.sender thread → via = some j ∧ full = false := by
    intro j m hj hm
    obtain ⟨m₀, hcur, hmc, -⟩ := hj.of_pop hl
    refine hqueued j ?_
    rw [← hm, hmc]
    exact hcur.uplink
  rcases push_cases (s.setLink k (l.setSends thread rest)) (l.sender thread) f via full with
    ⟨hdrop, hnone⟩ | ⟨i, mi, hvia, hmi, hchild, -, -, hpush⟩
  · rw [hdrop]
    intro j m hj
    refine hothers hj fun hm => ?_
    obtain ⟨hfound, hroom⟩ := hup hj hm
    rw [hnone j m hfound hj.link hm hj.childEnd hj.isOpen] at hroom
    cases hroom
  · rw [hpush]
    have hpend : ∀ {n d}, Pending (s.setLink k (l.setSends thread rest)) n d →
        Pending ((s.setLink k (l.setSends thread rest)).setLink i
          { mi with queue := mi.queue ++ [f] }) n d := fun hx => pending_setLink hmi id hx
    intro j m hj
    rcases links_setLink_cases hj.link with ⟨rfl, rfl⟩ | ⟨hji, hm⟩
    · -- the sender's own link: the event is the newest one in its queue
      have hcur : Current (s.setLink k (l.setSends thread rest)) j mi := { hj with link := hmi }
      obtain ⟨m₀, hcur₀, hmc, hmp, hmq, hmdue⟩ := hcur.of_pop hl
      intro d hd hnot
      show ((s.tree mi.child).routes[d]? ≠ none → mi.snapshotDue = false →
          settle d (decide ((s.tree mi.parent).routes[d]? = some mi.child))
            (mi.queue ++ [f]) = true) ∧
        ((s.tree mi.child).routes[d]? = none →
          settle d (decide ((s.tree mi.parent).routes[d]? = some mi.child))
            (mi.queue ++ [f]) = false)
      rw [settle_append]
      by_cases hfd : f.node = d
      · subst hfd
        rw [if_pos rfl]
        rw [← hchild] at hlast
        have hagree := hlast fun hx => hnot (hpend hx)
        refine ⟨fun hr _ => hagree.mpr hr, fun hr => ?_⟩
        exact Bool.eq_false_iff.mpr fun hann => hagree.mp hann hr
      · rw [if_neg hfd, hmc, hmp, hmq, hmdue]
        refine h j m₀ hcur₀ d (hmc ▸ hd) fun hx => hnot ?_
        rcases pending_pop hl hsends hx with hx | ⟨-, hx⟩
        · exact hpend (hmc ▸ hx)
        · exact absurd hx.symm hfd
    · have hcur : Current (s.setLink k (l.setSends thread rest)) j m := { hj with link := hm }
      refine (hothers hcur fun hm => ?_).frame rfl rfl rfl id (fun d hx => hpend hx)
        (fun d _ => Iff.rfl) fun d _ => Iff.rfl
      exact hji (some.inj ((hup hcur hm).1.symm.trans hvia))

theorem handleRoute_route {v : NodeID} (hwf : WellFormed (s.tree l.parent))
    (h : s.handleRoute l f = .ok t) (hv : (s.tree l.parent).routes[f.node]? = some v) :
    v = l.child := by
  -- a route event is only accepted about a node that is not routed elsewhere
  have hroute := (WellFormed.routeOf_eq_iff (hwf.via_ne_zero hv)).mpr hv
  cases f with
  | announce d p =>
    obtain ⟨-, -, -, -, -, -, -, -, hfree, -⟩ := announceWithParent_eq_ok h
    rcases hfree with hzero | hvia
    · exact absurd (hroute.symm.trans hzero) (hwf.via_ne_zero hv)
    · exact hroute.symm.trans hvia
  | withdraw d =>
    obtain ⟨-, -, hvia, -⟩ := withdrawRoute_eq_ok h
    exact hroute.symm.trans hvia

theorem handleRoute_edge (h : s.handleRoute l f = .ok t) :
    (s.tree l.parent).childEpoch l.child = some l.epoch := by
  cases f with
  | announce d p =>
    obtain ⟨-, -, hedge, -⟩ := announceWithParent_eq_ok h
    exact childEpoch_eq_some.mpr hedge
  | withdraw d =>
    obtain ⟨hedge, -⟩ := withdrawRoute_eq_ok h
    exact childEpoch_eq_some.mpr hedge

theorem not_routed_of_withdraw_refused {c : NodeID} {e : UInt64} {err : TreeError} (hc : c ≠ 0)
    (hd : d ≠ c) (hedge : t.childEpoch c = some e) (h : t.withdrawRoute c d e = .error err) :
    t.routes[d]? ≠ some c := by
  -- on the edge of the session a withdrawal is only refused when there is nothing to withdraw
  intro hvia
  obtain ⟨edge, hchild, rfl⟩ := childEpoch_eq_some.mp hedge
  have hroute := (WellFormed.routeOf_eq_iff hc).mpr hvia
  rw [withdrawRoute, hchild] at h
  simp [hd, hroute] at h

theorem Current.of_setTree {n : NodeID} {j : LinkID} {m : Link}
    (hj : Current (s.setTree n t) j m) (hchildren : t.children = (s.tree n).children)
    (hparent : t.parent = (s.tree n).parent) : Current s j m := by
  have hparents : ∀ x, ((s.setTree n t).tree x).parent = (s.tree x).parent := by
    intro x
    by_cases hx : x = n
    · rw [hx, tree_setTree_self, hparent]
    · rw [tree_setTree_of_ne s t hx]
  have hepochs : ∀ x c, ((s.setTree n t).tree x).childEpoch c = (s.tree x).childEpoch c := by
    intro x c
    by_cases hx : x = n
    · rw [hx, tree_setTree_self, childEpoch, hchildren, childEpoch]
    · rw [tree_setTree_of_ne s t hx]
  exact { hj with
    parentEdge := (hparents _).symm.trans hj.parentEdge
    childEdge := (hepochs _ _).symm.trans hj.childEdge }

section

variable (h : Tracking s) (hcons : Consistent s) (hl : s.links k = some l)
  (hqueue : l.queue = f :: rest)
include h hcons hl hqueue

theorem Tracking.deliverRefused {err : TreeError} {early : Bool}
    (hhandle : s.handleRoute l f = .error err) (horderly : Orderly s (.deliver k early)) :
    Tracking (s.setLink k { l with queue := rest }) := by
  refine h.setLink hl id fun hj d hd hnot => ?_
  have hcur : Current s k l := { hj with link := hl }
  have hquiet : ¬ Pending s l.child d := fun hx => hnot (pending_setLink hl id hx)
  have hsame : (s.setLink k { l with queue := rest }).outcome { l with queue := rest } d =
      s.outcome l d := by
    show settle d (decide ((s.tree l.parent).routes[d]? = some l.child)) rest =
      settle d (decide ((s.tree l.parent).routes[d]? = some l.child)) l.queue
    rw [hqueue, settle_cons]
    by_cases hfd : f.node = d
    · rw [if_pos hfd]
      cases hann : f.isAnnounce with
      | true =>
        rcases horderly l f rest hl hqueue hcur hann with ⟨t, hok⟩ | hvia | hlater | hx
        · rw [hok] at hhandle
          cases hhandle
        · rw [← hfd, hvia, decide_eq_true rfl]
        · exact settle_of_mem (hfd ▸ hlater) _ _
        · exact absurd (hfd ▸ hx) hquiet
      | false =>
        cases f with
        | announce node parent => cases hann
        | withdraw node =>
          have hnode : node = d := hfd
          subst hnode
          rw [decide_eq_false
            (not_routed_of_withdraw_refused (hcons.link hl).child hd hcur.childEdge hhandle)]
    · rw [if_neg hfd]
  rw [hsame]
  exact h k l hcur d hd hquiet

theorem Tracking.deliverAccepted (hreg : Registered s) (hend : l.parentEnd = .running)
    (hsends : l.sends .loop = []) (hhandle : s.handleRoute l f = .ok t) :
    Tracking ((s.setTree l.parent t).setLink k
      (Link.setSends { l with queue := rest } .loop [f])) := by
  have hwf := hcons.parent hl
  obtain ⟨-, -, hchildren, hparent, hroutes⟩ := handleRoute_spec hwf hhandle
  have hpend : ∀ {n d}, Pending s n d → Pending ((s.setTree l.parent t).setLink k
      (Link.setSends { l with queue := rest } .loop [f])) n d := by
    intro n d hx
    refine pending_setLink (s := s.setTree l.parent t) hl (fun ho => ho.mono rfl rfl ?_ .inl) hx
    intro u g hg
    by_cases hu : u = .loop
    · rw [hu, hsends] at hg
      cases hg
    · rwa [Link.sends_setSends_of_ne _ hu]
  have hforward : Pending ((s.setTree l.parent t).setLink k
      (Link.setSends { l with queue := rest } .loop [f])) l.parent f.node :=
    pending_of_mem (links_setLink_self _ k _) .loop
      (by rw [Link.sends_setSends_self]; exact mem_singleton.mpr rfl)
  intro j m hj
  rcases links_setLink_cases hj.link with ⟨rfl, rfl⟩ | ⟨hjk, hm⟩
  · -- the frame goes from the queue into the tree, which leaves the outcome of the link
    have hnew : Current (s.setTree l.parent t) j l := { hj with link := hl }
    have hcur := hnew.of_setTree hchildren hparent
    have hne := hcons.ne_of_childEdge hl hcur.childEdge
    intro d hd hnot
    have hold := h j l hcur d hd fun hx => hnot (hpend hx)
    have hsame : ((s.setTree l.parent t).setLink j
        (Link.setSends { l with queue := rest } .loop [f])).outcome
        (Link.setSends { l with queue := rest } .loop [f]) d = s.outcome l d := by
      show settle d (decide (((s.setTree l.parent t).tree l.parent).routes[d]? = some
        l.child)) rest =
        settle d (decide ((s.tree l.parent).routes[d]? = some l.child)) l.queue
      rw [hqueue, settle_cons, tree_setTree_self, hroutes d]
      by_cases hfd : d = f.node
      · rw [if_pos hfd, if_pos hfd.symm]
        cases f.isAnnounce with
        | true => rw [if_pos rfl, decide_eq_true rfl]
        | false => rw [if_neg Bool.false_ne_true, decide_eq_false (by simp)]
      · rw [if_neg hfd, if_neg fun hx => hfd hx.symm]
    rw [hsame]
    show (((s.setTree l.parent t).tree l.child).routes[d]? ≠ none → l.snapshotDue = false → _) ∧
      (((s.setTree l.parent t).tree l.child).routes[d]? = none → _)
    rw [tree_setTree_of_ne s t hne]
    exact hold
  · -- another link sees the tree of the parent change only at the node of the frame
    have hnew : Current (s.setTree l.parent t) j m := { hj with link := hm }
    have hcur := hnew.of_setTree hchildren hparent
    refine (h j m hcur).frame rfl rfl rfl id (fun d hx => hpend hx) ?_ ?_
    · intro d hnot
      show ((s.setTree l.parent t).tree m.child).routes[d]? = none ↔ _
      by_cases hn : m.child = l.parent
      · -- on the way up the node is pending: the frame has still to be forwarded
        rw [hn, tree_setTree_self, hroutes d, if_neg]
        rintro rfl
        exact hnot (hn ▸ hforward)
      · rw [tree_setTree_of_ne s t hn]
    · intro d _
      show ((s.setTree l.parent t).tree m.parent).routes[d]? = some m.child ↔ _
      by_cases hn : m.parent = l.parent
      · have hother : m.child ≠ l.child := by
          intro hc
          -- the frame was accepted on the edge of its own link
          have hedge : (s.tree m.parent).childEpoch m.child = some m.epoch := hcur.childEdge
          rw [hn, hc, handleRoute_edge hhandle] at hedge
          refine hjk (hreg.unique hm hl hc (some.inj hedge).symm ?_ ?_)
          · exact Link.not_over_of_parentEnd (by simp [hcur.parentEnd])
          · exact Link.not_over_of_parentEnd (by simp [hend])
        rw [hn, tree_setTree_self, hroutes d]
        by_cases hfd : d = f.node
        · rw [if_pos hfd]
          refine iff_of_false ?_ fun hv => ?_
          · split_ifs
            · exact fun hc => hother (some.inj hc).symm
            · simp
          · exact hother (handleRoute_route hwf hhandle (hfd ▸ hv))
        · rw [if_neg hfd]
      · rw [tree_setTree_of_ne s t hn]

end

theorem Tracking.stepped (h : Tracking s) (hcons : Consistent s) (hreg : Registered s) {a : Act}
    (horderly : Orderly s a) (hstep : Stepped s a s') : Tracking s' := by
  cases hstep with
  | dial _ _ _ hk => exact h.dial hk rfl
  | attach hl hend hattach => exact h.attach hl hcons hreg hend hattach
  | refuse hl hend =>
    exact h.setLink_over hl rfl rfl rfl (fun hc => by simp [hend, ParentEnd.isAttached] at hc)
      fun hc => by simp at hc
  | accept hl hend => exact h.accept hl hcons hend
  | acceptFail => exact horderly.elim
  | joinFail hl => exact h.setLink_over hl rfl rfl rfl id fun hc => by simp at hc
  | activate hl hend _ hactivate => exact h.activate hl hcons hreg hend hactivate
  | register hl hend => exact h.register hl hcons hend horderly
  | abort => exact horderly.elim
  | snapshot hl => exact h.snapshot hl hcons
  | send hl hsends => exact h.send hl hsends horderly
  | deliverInvalid hl => exact h.setLink_over hl rfl rfl rfl id fun hc => by simp at hc
  | deliverRefused hl hqueue hhandle =>
    exact h.deliverRefused hcons hl hqueue hhandle horderly
  | deliverAccepted hl hend hsends hqueue hhandle =>
    exact h.deliverAccepted hcons hl hqueue hreg hend hsends hhandle
  | close hl => exact h.setLink_over hl rfl rfl rfl id fun hc => by simp at hc
  | stopChild hl =>
    exact h.update hl (fun _ => sessions_of_drop) id fun hj => by cases hj.childEnd
  | endChild hl => exact h.setLink_over hl rfl rfl rfl id fun hc => by simp at hc
  | detach hl => exact h.detach hl
  | stopParent hl hend =>
    refine h.update hl (fun _ => sessions_of_drop) (fun ho => ho.mono rfl rfl ?_ ?_) fun hj => ?_
    · exact fun _ => List.Subset.refl _
    · simp [hend, ParentEnd.isAttached]
    · cases hj.parentEnd
  | endParent hl hend =>
    exact h.setLink_over hl rfl rfl rfl (fun hc => by simp [hend, ParentEnd.isAttached] at hc)
      fun hc => by simp at hc
  | withdraw hl hend horder => exact h.withdraw hl hreg hend horder

end Step

end Overlay.Net
