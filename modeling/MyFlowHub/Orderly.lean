/-
Joins that do not get in each other's way.

Two joins of one node with the same epoch, or a `registerSession` that comes after a
newer join has replaced the edge, leave a session in the table whose edge is another
one; a join that is rolled back leaves route events unreported.  `Orderly` rules these
out, step by step, together with what the propagation of routes needs: nothing is lost
on the way up, nothing is sent or refused that the tables contradict.

* `Registered` — sessions and edges belong together;
* `Registered.stepped` — an orderly step keeps that.
-/
import MyFlowHub.Sessions

open Std Function Runs TreeState Option

namespace Overlay

def Link.Over (l : Link) : Prop := l.childEnd = .ended ∧ l.parentEnd = .ended

theorem Link.not_over_of_parentEnd {l : Link} (h : l.parentEnd ≠ .ended) : ¬ l.Over :=
  fun hover => h hover.2

theorem Link.not_over_of_childEnd {l : Link} (h : l.childEnd ≠ .ended) : ¬ l.Over :=
  fun hover => h hover.1

/-- A goroutine of the link at node `n` has still to report `d`: it has a route event to
send, or it has attached `d` and announces it once the session is registered. -/
def Link.Owes (l : Link) (n d : NodeID) : Prop :=
  (∃ thread, l.sender thread = n ∧ ∃ f ∈ l.sends thread, f.node = d) ∨
    l.parent = n ∧ l.child = d ∧ l.parentEnd.isAttached = true

theorem Link.subset_addSends (l : Link) (thread : Thread) (frames : List Frame) (u : Thread) :
    l.sends u ⊆ (l.addSends thread frames).sends u := by
  rw [addSends]
  by_cases hu : u = thread
  · rw [hu, sends_setSends_self]
    exact List.subset_append_left _ _
  · rw [sends_setSends_of_ne l hu]
    exact List.Subset.refl _

theorem Link.mem_addSends {l : Link} {thread : Thread} {frames : List Frame} {f : Frame}
    (hf : f ∈ frames) : f ∈ (l.addSends thread frames).sends thread := by
  rw [addSends, sends_setSends_self]
  exact List.mem_append_right _ hf

theorem Link.Owes.mono {l l' : Link} {n d : NodeID} (h : l.Owes n d) (hchild : l'.child = l.child)
    (hparent : l'.parent = l.parent) (hsends : ∀ thread, l.sends thread ⊆ l'.sends thread)
    (hattached : l.parentEnd.isAttached = true →
      l'.parentEnd.isAttached = true ∨ ∃ f ∈ l'.sends .accept, f.node = l.child) :
    l'.Owes n d := by
  have hsender : ∀ thread, l'.sender thread = l.sender thread := by
    intro thread
    cases thread
    · exact hparent
    · exact hparent
    · exact hchild
  rcases h with ⟨thread, hn, f, hf, hfd⟩ | ⟨hp, hc, hend⟩
  · exact .inl ⟨thread, (hsender thread).trans hn, f, hsends thread hf, hfd⟩
  · rcases hattached hend with hend | ⟨f, hf, hfd⟩
    · exact .inr ⟨hparent.trans hp, hchild.trans hc, hend⟩
    · exact .inl ⟨.accept, hparent.trans hp, f, hf, hfd.trans hc⟩

namespace Net

/-- Some goroutine of the node has still to report `d`. -/
def Pending (s : Net) (n d : NodeID) : Prop := ∃ k l, s.links k = some l ∧ l.Owes n d

/-- The parent's tree has the edge of the link. -/
def ChildEdge (s : Net) (l : Link) : Prop :=
  (s.tree l.parent).childEpoch l.child = some l.epoch

/-- The child's tree has the edge of the link. -/
def ParentEdge (s : Net) (l : Link) : Prop :=
  (s.tree l.child).parent = some ⟨l.parent, l.epoch⟩

/-- Both ends use the link. -/
structure Current (s : Net) (k : LinkID) (l : Link) : Prop where
  link : s.links k = some l
  childEnd : l.childEnd = .running
  parentEnd : l.parentEnd = .running
  isOpen : l.isOpen = true
  up : s.sessions l.child l.parent = some k
  parentEdge : ParentEdge s l
  childEdge : ChildEdge s l

/-- The steps that keep the tables on track.

* A node starts no join with the epoch of one that is not over at both ends, and no join
  is rolled back.
* When a session is registered, the tree still has its edge; and when the child registers
  it, whatever the parent already routes through the child is in the child's table or
  about to be reported.
* A route event is queued on the uplink of the sender, if there is one, and the last one
  a node has pending about `d` says what its table says when it is sent.
* An announcement on a current link is accepted, unless the node is already routed
  through the child or another event about it follows. -/
def Orderly (s : Net) : Act → Prop
  | .dial _ child _ => ∀ k l, s.links k = some l → l.child = child →
      l.epoch = (s.tree child).nextEpoch → l.Over
  | .accept k => ∀ l, s.links k = some l → l.parentEnd.isAttached = true → ChildEdge s l
  | .register k => ∀ l, s.links k = some l → l.childEnd = .activated → ParentEdge s l ∧
      (ChildEdge s l → ∀ d, d ≠ l.child → (s.tree l.parent).routes[d]? = some l.child →
        (s.tree l.child).routes[d]? ≠ none ∨ Pending s l.child d)
  | .acceptFail _ _ | .abort _ => False
  | .send k thread via full => ∀ l f rest, s.links k = some l → l.sends thread = f :: rest →
      (∀ j, s.uplink (l.sender thread) = some j → via = some j ∧ full = false) ∧
      (¬ Pending (s.setLink k (l.setSends thread rest)) (l.sender thread) f.node →
        (f.isAnnounce = true ↔ (s.tree (l.sender thread)).routes[f.node]? ≠ none))
  | .deliver k _ => ∀ l f rest, s.links k = some l → l.queue = f :: rest → Current s k l →
      f.isAnnounce = true →
      (∃ t, s.handleRoute l f = .ok t) ∨ (s.tree l.parent).routes[f.node]? = some l.child ∨
        (∃ g ∈ rest, g.node = f.node) ∨ Pending s l.child f.node
  | _ => True

/-! ### Sessions and edges -/

/-- Some `acceptChild` of `p` is between the tree and the session table. -/
def Attaching (s : Net) (p c : NodeID) : Prop :=
  ∃ k l, s.links k = some l ∧ l.parent = p ∧ l.child = c ∧ l.parentEnd.isAttached = true

/-- Some `ConnectParent` of `c` is between the tree and the session table. -/
def Activating (s : Net) (c : NodeID) : Prop :=
  ∃ k l, s.links k = some l ∧ l.child = c ∧ l.childEnd = .activated

/-- The link has to take its edge out of the parent's tree. -/
def Holds (s : Net) (k : LinkID) (l : Link) : Prop :=
  l.parentEnd.isAttached = true ∨ l.parentEnd = .leaving ∨
    l.parentEnd = .running ∧ s.sessions l.parent l.child = some k

/-- Sessions and edges belong together. -/
structure Registered (s : Net) : Prop where
  unique : ∀ {j k : LinkID} {m l : Link}, s.links j = some m → s.links k = some l →
    m.child = l.child → m.epoch = l.epoch → ¬ m.Over → ¬ l.Over → j = k
  down : ∀ {k : LinkID} {l : Link}, s.links k = some l → s.sessions l.parent l.child = some k →
    l.parentEnd = .running ∧ (ChildEdge s l ∨ Attaching s l.parent l.child)
  up : ∀ {k : LinkID} {l : Link}, s.links k = some l → s.sessions l.child l.parent = some k →
    l.childEnd = .running ∧ (ParentEdge s l ∨ Activating s l.child)
  edge : ∀ {p c : NodeID} {e : UInt64}, (s.tree p).childEpoch c = some e →
    ∃ k l, s.links k = some l ∧ l.parent = p ∧ l.child = c ∧ l.epoch = e ∧ Holds s k l

theorem registered_start : Registered start := by
  refine ⟨?_, ?_, ?_, ?_⟩
  · intro j k m l hj
    cases hj
  · intro k l hk
    cases hk
  · intro k l hk
    cases hk
  · intro p c e hc
    obtain ⟨edge, hc, -⟩ := childEpoch_eq_some.mp hc
    have hnone : (TreeState.fresh p).children[c]? = none := ExtTreeMap.getElem?_empty
    rw [show start.tree p = TreeState.fresh p from rfl, hnone] at hc
    cases hc

section Registered

variable {s s' : Net} {k : LinkID} {l l' : Link} {n : NodeID} {t : TreeState}
  {table : NodeID → NodeID → Option LinkID}

/-- Which changes of one link's record and the session tables keep sessions and edges
together: the link may leave the tables. -/
structure Keeps (s : Net) (table : NodeID → NodeID → Option LinkID) (k : LinkID)
    (l l' : Link) : Prop where
  child : l'.child = l.child
  parent : l'.parent = l.parent
  epoch : l'.epoch = l.epoch
  finished : l.Over → l'.Over
  attached : l.parentEnd.isAttached = true → l'.parentEnd.isAttached = true
  activated : l.childEnd = .activated → l'.childEnd = .activated
  down : table l.parent l.child = some k → l.parentEnd = .running → l'.parentEnd = .running
  up : table l.child l.parent = some k → l.childEnd = .running → l'.childEnd = .running
  holds : ChildEdge s l → Holds s k l →
    Holds ({ s with sessions := table }.setLink k l') k l'

theorem Keeps.of_ends (hchild : l'.child = l.child) (hparent : l'.parent = l.parent)
    (hepoch : l'.epoch = l.epoch) (hchildEnd : l'.childEnd = l.childEnd)
    (hparentEnd : l'.parentEnd = l.parentEnd) : Keeps s s.sessions k l l' := by
  refine ⟨hchild, hparent, hepoch, ?_, ?_, ?_, ?_, ?_, fun _ hholds => ?_⟩
  · exact fun hover => ⟨hchildEnd.trans hover.1, hparentEnd.trans hover.2⟩
  · exact fun hend => hparentEnd ▸ hend
  · exact hchildEnd.trans
  · exact fun _ => hparentEnd.trans
  · exact fun _ => hchildEnd.trans
  · rw [Holds, hparentEnd, hparent, hchild]
    exact hholds

/-- The child's end goes on, and the link may leave the child's session table. -/
theorem Keeps.of_childEnd (hchild : l'.child = l.child) (hparent : l'.parent = l.parent)
    (hepoch : l'.epoch = l.epoch) (hparentEnd : l'.parentEnd = l.parentEnd)
    (hended : l.childEnd ≠ .ended) (hactivated : l.childEnd ≠ .activated)
    (hup : table l.child l.parent = some k → l.childEnd ≠ .running)
    (htable : ChildEdge s l → s.sessions l.parent l.child = some k →
      table l.parent l.child = some k) : Keeps s table k l l' := by
  refine ⟨hchild, hparent, hepoch, ?_, ?_, ?_, ?_, ?_, fun hedge hholds => ?_⟩
  · exact fun hover => absurd hover.1 hended
  · exact fun hend => hparentEnd ▸ hend
  · exact fun hend => absurd hend hactivated
  · exact fun _ => hparentEnd.trans
  · exact fun hsess hend => absurd hend (hup hsess)
  · rw [Holds, hparentEnd, hparent, hchild]
    exact hholds.imp_right (Or.imp_right fun hx => ⟨hx.1, htable hedge hx.2⟩)

/-- The parent's end goes on, and the link may leave the parent's session table. -/
theorem Keeps.of_parentEnd (hchild : l'.child = l.child) (hparent : l'.parent = l.parent)
    (hepoch : l'.epoch = l.epoch) (hchildEnd : l'.childEnd = l.childEnd)
    (hended : l.parentEnd ≠ .ended) (hattached : l.parentEnd.isAttached = false)
    (hdown : table l.parent l.child = some k → l.parentEnd ≠ .running)
    (hholds : ChildEdge s l → Holds s k l →
      Holds ({ s with sessions := table }.setLink k l') k l') : Keeps s table k l l' := by
  refine ⟨hchild, hparent, hepoch, ?_, ?_, ?_, ?_, ?_, hholds⟩
  · exact fun hover => absurd hover.2 hended
  · exact fun hend => absurd hend (Bool.eq_false_iff.mp hattached)
  · exact hchildEnd.trans
  · exact fun hsess hend => absurd hend (hdown hsess)
  · exact fun _ => hchildEnd.trans

/-- `acceptChild` before it changed the tree. -/
theorem Keeps.of_joining (hchild : l'.child = l.child) (hparent : l'.parent = l.parent)
    (hepoch : l'.epoch = l.epoch) (hchildEnd : l'.childEnd = l.childEnd)
    (hend : l.parentEnd = .joining) : Keeps s s.sessions k l l' := by
  refine .of_parentEnd hchild hparent hepoch hchildEnd (by simp [hend])
    (by simp [hend, ParentEnd.isAttached]) (fun _ => by simp [hend]) fun _ hholds => ?_
  simp [Holds, hend, ParentEnd.isAttached] at hholds

theorem Attaching.setLink {p c : NodeID} (h : Attaching s p c) (hl : s.links k = some l)
    (hchild : l'.child = l.child) (hparent : l'.parent = l.parent)
    (hattached : l.parent = p → l.child = c → l.parentEnd.isAttached = true →
      l'.parentEnd.isAttached = true) : Attaching (s.setLink k l') p c := by
  obtain ⟨j, m, hj, hp, hc, hend⟩ := h
  by_cases hjk : j = k
  · subst hjk
    obtain rfl := mem_unique hl hj
    exact ⟨j, l', links_setLink_self s j l', hparent.trans hp, hchild.trans hc,
      hattached hp hc hend⟩
  · exact ⟨j, m, (links_setLink_of_ne s l' hjk).trans hj, hp, hc, hend⟩

theorem Activating.setLink {c : NodeID} (h : Activating s c) (hl : s.links k = some l)
    (hchild : l'.child = l.child)
    (hactivated : l.child = c → l.childEnd = .activated → l'.childEnd = .activated) :
    Activating (s.setLink k l') c := by
  obtain ⟨j, m, hj, hc, hend⟩ := h
  by_cases hjk : j = k
  · subst hjk
    obtain rfl := mem_unique hl hj
    exact ⟨j, l', links_setLink_self s j l', hchild.trans hc, hactivated hc hend⟩
  · exact ⟨j, m, (links_setLink_of_ne s l' hjk).trans hj, hc, hend⟩

section

variable (h : Registered s)
include h

theorem Registered.unique_setLink (hl : s.links k = some l) (hchild : l'.child = l.child)
    (hepoch : l'.epoch = l.epoch) (hover : l.Over → l'.Over) {i j : LinkID} {m n : Link}
    (hi : (s.setLink k l').links i = some m) (hj : (s.setLink k l').links j = some n)
    (hc : m.child = n.child) (he : m.epoch = n.epoch) (hm : ¬ m.Over) (hn : ¬ n.Over) : i = j := by
  have hold : ∀ {j m'}, (s.setLink k l').links j = some m' → ¬ m'.Over →
      ∃ m, s.links j = some m ∧ m'.child = m.child ∧ m'.epoch = m.epoch ∧ ¬ m.Over := by
    intro j m' hj hm'
    rcases links_setLink_cases hj with ⟨rfl, rfl⟩ | ⟨-, hj⟩
    · exact ⟨l, hl, hchild, hepoch, fun hc => hm' (hover hc)⟩
    · exact ⟨m', hj, rfl, rfl, hm'⟩
  obtain ⟨m₀, hi, hmc, hme, hm⟩ := hold hi hm
  obtain ⟨n₀, hj, hnc, hne, hn⟩ := hold hj hn
  rw [hmc, hnc] at hc
  rw [hme, hne] at he
  exact h.unique hi hj hc he hm hn

theorem Registered.update (hl : s.links k = some l) (hk : Keeps s table k l l')
    (hfewer : ∀ {n x j}, table n x = some j → s.sessions n x = some j)
    (hothers : ∀ {n x j}, j ≠ k → s.sessions n x = some j → table n x = some j) :
    Registered ({ s with sessions := table }.setLink k l') := by
  refine ⟨h.unique_setLink hl hk.child hk.epoch hk.finished, ?_, ?_, ?_⟩
  · intro j m hj hsess
    rcases links_setLink_cases hj with ⟨rfl, rfl⟩ | ⟨-, hj⟩
    · rw [hk.parent, hk.child] at hsess
      obtain ⟨hend, hedge⟩ := h.down hl (hfewer hsess)
      refine ⟨hk.down hsess hend, ?_⟩
      rw [ChildEdge, hk.parent, hk.child, hk.epoch]
      exact hedge.imp id fun hx => hx.setLink hl hk.child hk.parent fun _ _ => hk.attached
    · obtain ⟨hend, hedge⟩ := h.down hj (hfewer hsess)
      exact ⟨hend, hedge.imp id fun hx => hx.setLink hl hk.child hk.parent fun _ _ => hk.attached⟩
  · intro j m hj hsess
    rcases links_setLink_cases hj with ⟨rfl, rfl⟩ | ⟨-, hj⟩
    · rw [hk.parent, hk.child] at hsess
      obtain ⟨hend, hedge⟩ := h.up hl (hfewer hsess)
      refine ⟨hk.up hsess hend, ?_⟩
      rw [ParentEdge, hk.parent, hk.child, hk.epoch]
      exact hedge.imp id fun hx => hx.setLink hl hk.child fun _ => hk.activated
    · obtain ⟨hend, hedge⟩ := h.up hj (hfewer hsess)
      exact ⟨hend, hedge.imp id fun hx => hx.setLink hl hk.child fun _ => hk.activated⟩
  · intro p c e hc
    obtain ⟨j, m, hj, rfl, rfl, rfl, hholds⟩ := h.edge hc
    by_cases hjk : j = k
    · subst hjk
      obtain rfl := mem_unique hl hj
      exact ⟨j, l', links_setLink_self _ j l', hk.parent, hk.child, hk.epoch, hk.holds hc hholds⟩
    · refine ⟨j, m, (links_setLink_of_ne _ l' hjk).trans hj, rfl, rfl, rfl, ?_⟩
      exact hholds.imp_right (Or.imp_right fun hx => ⟨hx.1, hothers hjk hx.2⟩)

theorem Registered.setLink (hl : s.links k = some l) (hk : Keeps s s.sessions k l l') :
    Registered (s.setLink k l') :=
  h.update hl hk id fun _ => id

theorem Registered.drop {a b : NodeID} (hcurrent : s.sessions a b = some k)
    (hl : s.links k = some l) (hk : Keeps s (s.setSession a b none).sessions k l l') :
    Registered ((s.setSession a b none).setLink k l') := by
  refine h.update hl hk sessions_of_drop fun hjk hsess => ?_
  show (s.setSession a b none).sessions _ _ = _
  rw [sessions_setSession_of_ne]
  · exact hsess
  · rintro ⟨rfl, rfl⟩
    exact hjk (some.inj (hsess.symm.trans hcurrent))

theorem Registered.setTree
    (hdown : ∀ {k : LinkID} {l : Link}, s.links k = some l → l.parent = n →
      l.parentEnd = .running → (s.tree n).childEpoch l.child = some l.epoch →
      t.childEpoch l.child = some l.epoch ∨ Attaching s n l.child)
    (hup : ∀ {k : LinkID} {l : Link}, s.links k = some l → l.child = n → l.childEnd = .running →
      (s.tree n).parent = some ⟨l.parent, l.epoch⟩ →
      t.parent = some ⟨l.parent, l.epoch⟩ ∨ Activating s n)
    (hedge : ∀ {c : NodeID} {e : UInt64}, t.childEpoch c = some e →
      (∃ k l, s.links k = some l ∧ l.parent = n ∧ l.child = c ∧ l.epoch = e ∧ Holds s k l) ∨
        (s.tree n).childEpoch c = some e) : Registered (s.setTree n t) := by
  refine ⟨h.unique, ?_, ?_, ?_⟩
  · intro j m hj hsess
    obtain ⟨hend, hold⟩ := h.down hj hsess
    refine ⟨hend, ?_⟩
    by_cases hn : m.parent = n
    · rw [ChildEdge, hn] at hold ⊢
      rw [tree_setTree_self]
      exact hold.elim (hdown hj hn hend) .inr
    · rw [ChildEdge, tree_setTree_of_ne s t hn]
      exact hold
  · intro j m hj hsess
    obtain ⟨hend, hold⟩ := h.up hj hsess
    refine ⟨hend, ?_⟩
    by_cases hn : m.child = n
    · rw [ParentEdge, hn] at hold ⊢
      rw [tree_setTree_self]
      exact hold.elim (hup hj hn hend) .inr
    · rw [ParentEdge, tree_setTree_of_ne s t hn]
      exact hold
  · intro p c e hc
    by_cases hp : p = n
    · rw [hp, tree_setTree_self] at hc
      rw [hp]
      exact (hedge hc).elim id h.edge
    · rw [tree_setTree_of_ne s t hp] at hc
      exact h.edge hc

theorem Registered.setTree_of_children (hchildren : t.children = (s.tree n).children)
    (hup : ∀ {k : LinkID} {l : Link}, s.links k = some l → l.child = n → l.childEnd = .running →
      (s.tree n).parent = some ⟨l.parent, l.epoch⟩ →
      t.parent = some ⟨l.parent, l.epoch⟩ ∨ Activating s n) : Registered (s.setTree n t) := by
  have hsame : ∀ c, t.childEpoch c = (s.tree n).childEpoch c := fun c => by
    rw [childEpoch, hchildren, childEpoch]
  refine h.setTree (fun _ _ _ hold => ?_) hup fun hc => ?_
  · rw [hsame]
    exact .inl hold
  · rw [hsame] at hc
    exact .inr hc

end

/-! ### Every orderly step keeps them together -/

theorem Registered.dial (h : Registered s) (hk : s.links k = none)
    (hfresh : ∀ j m, s.links j = some m → m.child = l.child → m.epoch = l.epoch → m.Over)
    (hnot : ∀ n x, s.sessions n x ≠ some k) : Registered (s.setLink k l) := by
  have hold : ∀ {j m}, s.links j = some m → (s.setLink k l).links j = some m := by
    intro j m hj
    rw [links_setLink_of_ne, hj]
    rintro rfl
    rw [hk] at hj
    cases hj
  refine ⟨?_, ?_, ?_, ?_⟩
  · intro i j m m' hi hj hc he hm hm'
    rcases links_setLink_cases hi with ⟨hik, rfl⟩ | ⟨-, hi⟩
    · rcases links_setLink_cases hj with ⟨hjk, -⟩ | ⟨-, hj⟩
      · exact hik.trans hjk.symm
      · exact absurd (hfresh j m' hj hc.symm he.symm) hm'
    · rcases links_setLink_cases hj with ⟨-, rfl⟩ | ⟨-, hj⟩
      · exact absurd (hfresh i m hi hc he) hm
      · exact h.unique hi hj hc he hm hm'
  · intro j m hj hsess
    rcases links_setLink_cases hj with ⟨rfl, rfl⟩ | ⟨-, hj⟩
    · exact absurd hsess (hnot _ _)
    · obtain ⟨hend, hedge⟩ := h.down hj hsess
      refine ⟨hend, hedge.imp id ?_⟩
      rintro ⟨i, x, hi, hx⟩
      exact ⟨i, x, hold hi, hx⟩
  · intro j m hj hsess
    rcases links_setLink_cases hj with ⟨rfl, rfl⟩ | ⟨-, hj⟩
    · exact absurd hsess (hnot _ _)
    · obtain ⟨hend, hedge⟩ := h.up hj hsess
      refine ⟨hend, hedge.imp id ?_⟩
      rintro ⟨i, x, hi, hx⟩
      exact ⟨i, x, hold hi, hx⟩
  · intro p c e hc
    obtain ⟨j, m, hj, hrest⟩ := h.edge hc
    exact ⟨j, m, hold hj, hrest⟩

section

variable (hcons : Consistent s) (hl : s.links k = some l)
include hcons hl

theorem Consistent.ne_of_childEdge (hedge : ChildEdge s l) : l.child ≠ l.parent := by
  have hne := (hcons.parent hl).childEpoch_ne hedge
  rwa [hcons.localNode] at hne

variable (h : Registered s)
include h

theorem Registered.accept (hend : l.parentEnd.isAttached = true) (hedge : ChildEdge s l)
    (hchild : l'.child = l.child) (hparent : l'.parent = l.parent) (hepoch : l'.epoch = l.epoch)
    (hchildEnd : l'.childEnd = l.childEnd) (hparentEnd : l'.parentEnd = .running) :
    Registered ((s.setSession l.parent l.child (some k)).setLink k l') := by
  have hover : ¬ l.Over := Link.not_over_of_parentEnd fun hc => by
    simp [hc, ParentEnd.isAttached] at hend
  have hne : l.child ≠ l.parent := hcons.ne_of_childEdge hl hedge
  have hself : (s.setSession l.parent l.child (some k)).sessions l.parent l.child = some k :=
    sessions_setSession_self ..
  refine ⟨h.unique_setLink hl hchild hepoch fun hc => absurd hc hover, ?_, ?_, ?_⟩
  · intro j m hj hsess
    rcases links_setLink_cases hj with ⟨rfl, rfl⟩ | ⟨hjk, hj⟩
    · refine ⟨hparentEnd, .inl ?_⟩
      rw [ChildEdge, hparent, hchild, hepoch]
      exact hedge
    · obtain ⟨hrun, hx⟩ := h.down hj ((setSession_cases hsess).resolve_left hjk)
      refine ⟨hrun, hx.imp id fun hx => hx.setLink hl hchild hparent fun hp hc => ?_⟩
      -- the session of the attached link is the new one
      rw [← hp, ← hc, sessions_setLink, hself] at hsess
      exact absurd (some.inj hsess).symm hjk
  · intro j m hj hsess
    have hold : s.sessions m.child m.parent = some j := by
      rw [sessions_setLink] at hsess
      rwa [sessions_setSession_of_ne] at hsess
      rintro ⟨hc, hp⟩
      rw [hc, hp, hself] at hsess
      obtain rfl := some.inj hsess
      obtain rfl := mem_unique (links_setLink_self _ k l') hj
      exact hne (hchild.symm.trans hc)
    rcases links_setLink_cases hj with ⟨rfl, rfl⟩ | ⟨-, hj⟩
    · rw [hchild, hparent] at hold
      obtain ⟨hrun, hx⟩ := h.up hl hold
      refine ⟨hchildEnd.trans hrun, ?_⟩
      rw [ParentEdge, hchild, hparent, hepoch]
      exact hx.imp id fun hx => hx.setLink hl hchild fun _ => hchildEnd.trans
    · obtain ⟨hrun, hx⟩ := h.up hj hold
      exact ⟨hrun, hx.imp id fun hx => hx.setLink hl hchild fun _ => hchildEnd.trans⟩
  · intro p c e hc
    obtain ⟨j, m, hj, rfl, rfl, rfl, hholds⟩ := h.edge hc
    by_cases hjk : j = k
    · subst hjk
      obtain rfl := mem_unique hl hj
      refine ⟨j, l', links_setLink_self _ j l', hparent, hchild, hepoch, .inr
        (.inr ⟨hparentEnd, ?_⟩)⟩
      rw [hparent, hchild]
      exact hself
    · refine ⟨j, m, (links_setLink_of_ne _ l' hjk).trans hj, rfl, rfl, rfl, ?_⟩
      refine hholds.imp_right (Or.imp_right fun hx => ⟨hx.1, ?_⟩)
      rw [sessions_setLink, sessions_setSession_of_ne]
      · exact hx.2
      · -- another link with the edge of this one
        rintro ⟨hp, hmc⟩
        have he : some m.epoch = some l.epoch := by
          rw [← hedge, ← hp, ← hmc]
          exact hc.symm
        refine hjk (h.unique hj hl hmc (some.inj he) (Link.not_over_of_parentEnd ?_) hover)
        simp [hx.1]

theorem Registered.register (hend : l.childEnd = .activated) (hedge : ParentEdge s l)
    (hchild : l'.child = l.child) (hparent : l'.parent = l.parent) (hepoch : l'.epoch = l.epoch)
    (hchildEnd : l'.childEnd = .running) (hparentEnd : l'.parentEnd = l.parentEnd) :
    Registered ((s.registerParent l.child l.parent k).setLink k l') := by
  have hover : ¬ l.Over := Link.not_over_of_childEnd (by simp [hend])
  obtain ⟨-, hne, -, hroute⟩ := (hcons.child hl).parent hedge
  rw [hcons.localNode] at hne
  refine ⟨h.unique_setLink hl hchild hepoch fun hc => absurd hc hover, ?_, ?_, ?_⟩
  · intro j m hj hsess
    rcases registerParent_iff.mp hsess with ⟨hp, -, rfl⟩ | ⟨hold, -⟩
    · obtain rfl := mem_unique (links_setLink_self _ j l') hj
      exact absurd (hparent.symm.trans hp) hne
    rcases links_setLink_cases hj with ⟨rfl, rfl⟩ | ⟨-, hj⟩
    · rw [hchild, hparent] at hold
      obtain ⟨hrun, hx⟩ := h.down hl hold
      refine ⟨hparentEnd.trans hrun, ?_⟩
      rw [ChildEdge, hchild, hparent, hepoch]
      exact hx.imp id fun hx => hx.setLink hl hchild hparent fun _ _ hend => hparentEnd ▸ hend
    · obtain ⟨hrun, hx⟩ := h.down hj hold
      exact ⟨hrun, hx.imp id fun hx => hx.setLink hl hchild hparent fun _ _ hend =>
        hparentEnd ▸ hend⟩
  · intro j m hj hsess
    rcases links_setLink_cases hj with ⟨rfl, rfl⟩ | ⟨hjk, hj⟩
    · refine ⟨hchildEnd, .inl ?_⟩
      rw [ParentEdge, hchild, hparent, hepoch]
      exact hedge
    · rcases registerParent_iff.mp hsess with ⟨-, -, hk⟩ | ⟨hold, hothers⟩
      · exact absurd hk hjk
      -- what is left at the node itself are sessions with children
      have hm : m.child ≠ l.child := fun hc => (hothers hc).2 m hj hc
      obtain ⟨hrun, hx⟩ := h.up hj hold
      exact ⟨hrun, hx.imp id fun hx => hx.setLink hl hchild fun hc => absurd hc.symm hm⟩
  · intro p c e hc
    obtain ⟨j, m, hj, rfl, rfl, rfl, hholds⟩ := h.edge hc
    have hsess : s.sessions m.parent m.child = some j →
        (s.registerParent l.child l.parent k).sessions m.parent m.child = some j := by
      intro hx
      refine registerParent_iff.mpr (.inr ⟨hx, fun hp => ⟨?_, fun l₀ hl₀ => ?_⟩⟩)
      · -- the new parent is not a direct child
        intro hmc
        obtain ⟨edge, hchildren, -⟩ := childEpoch_eq_some.mp hc
        rw [hp, hmc] at hchildren
        rw [((hcons.child hl).child hchildren).2.2] at hroute
        cases hroute
      · obtain rfl := mem_unique hj hl₀
        rw [← hp]
        exact hcons.ne_of_childEdge hj hc
    by_cases hjk : j = k
    · subst hjk
      obtain rfl := mem_unique hl hj
      refine ⟨j, l', links_setLink_self _ j l', hparent, hchild, hepoch, ?_⟩
      rw [Holds, hparentEnd, hparent, hchild]
      exact hholds.imp_right (Or.imp_right fun hx => ⟨hx.1, hsess hx.2⟩)
    · refine ⟨j, m, (links_setLink_of_ne _ l' hjk).trans hj, rfl, rfl, rfl, ?_⟩
      exact hholds.imp_right (Or.imp_right fun hx => ⟨hx.1, hsess hx.2⟩)

end

/-- **An orderly step keeps sessions and edges together.** -/
theorem Registered.stepped (h : Registered s) (hcons : Consistent s) {a : Act}
    (horderly : Orderly s a) (hstep : Stepped s a s') : Registered s' := by
  cases hstep with
  | dial _ _ _ hk =>
    exact h.dial hk horderly fun n x hc => hcons.session hc hk
  | @attach k l re t hl hend hattach =>
    obtain ⟨-, -, -, hparent, hepochs, -⟩ := attachOrReattach_spec (hcons.parent hl) hattach
    have hlink : Registered (s.setLink k { l with parentEnd := .attached re }) :=
      h.setLink hl (.of_joining rfl rfl rfl rfl hend)
    have hself : Attaching (s.setLink k { l with parentEnd := .attached re }) l.parent l.child :=
      ⟨k, _, links_setLink_self s k _, rfl, rfl, rfl⟩
    refine hlink.setTree (n := l.parent) ?_ ?_ ?_
    · intro j m _ _ _ hold
      rw [hepochs]
      by_cases hc : m.child = l.child
      · rw [hc]
        exact .inr hself
      · rw [if_neg hc]
        exact .inl hold
    · intro j m _ _ _ hold
      rw [hparent]
      exact .inl hold
    · intro c e hc
      rw [hepochs] at hc
      split_ifs at hc with hcl
      · obtain rfl := some.inj hc
        exact .inl ⟨k, _, links_setLink_self s k _, rfl, hcl.symm, rfl, .inl rfl⟩
      · exact .inr hc
  | refuse hl hend => exact h.setLink hl (.of_joining rfl rfl rfl rfl hend)
  | accept hl hend => exact h.accept hcons hl hend (horderly _ hl hend) rfl rfl rfl rfl rfl
  | acceptFail => exact horderly.elim
  | joinFail hl hend =>
    exact h.setLink hl (.of_childEnd rfl rfl rfl rfl (by simp [hend]) (by simp [hend])
      (fun _ => by simp [hend]) fun _ => id)
  | @activate k l t hl hend _ hactivate =>
    obtain ⟨-, -, hchildren, -⟩ := activateParent_spec (hcons.child hl) hactivate
    have hlink : Registered (s.setLink k { l with childEnd := .activated }) :=
      h.setLink hl (.of_childEnd rfl rfl rfl rfl (by simp [hend]) (by simp [hend])
        (fun _ => by simp [hend]) fun _ => id)
    exact hlink.setTree_of_children hchildren fun _ _ _ _ =>
      .inr ⟨k, _, links_setLink_self s k _, rfl, rfl⟩
  | register hl hend =>
    exact h.register hcons hl hend (horderly _ hl hend).1 rfl rfl rfl rfl rfl
  | abort => exact horderly.elim
  | snapshot hl => exact h.setLink hl (.of_ends rfl rfl rfl rfl rfl)
  | @send k thread via full l f rest hl =>
    have hpop : Registered (s.setLink k (l.setSends thread rest)) :=
      h.setLink hl (.of_ends rfl rfl rfl rfl rfl)
    rcases push_cases (s.setLink k (l.setSends thread rest)) (l.sender thread) f via full with
      ⟨hdrop, -⟩ | ⟨j, m, -, hm, -, -, -, hpush⟩
    · rw [hdrop]
      exact hpop
    · rw [hpush]
      exact hpop.setLink hm (.of_ends rfl rfl rfl rfl rfl)
  | deliverInvalid hl => exact h.setLink hl (.of_ends rfl rfl rfl rfl rfl)
  | deliverRefused hl => exact h.setLink hl (.of_ends rfl rfl rfl rfl rfl)
  | deliverAccepted hl _ _ _ hhandle =>
    obtain ⟨-, -, hchildren, hparent, -⟩ := handleRoute_spec (hcons.parent hl) hhandle
    refine Registered.setLink (h.setTree_of_children hchildren fun _ _ _ hold => ?_) hl
      (.of_ends rfl rfl rfl rfl rfl)
    rw [hparent]
    exact .inl hold
  | close hl => exact h.setLink hl (.of_ends rfl rfl rfl rfl rfl)
  | @stopChild k l hl hend hcurrent =>
    refine h.drop hcurrent hl (.of_childEnd rfl rfl rfl rfl (by simp [hend]) (by simp [hend])
      (fun hc => ?_) fun hedge hsess => ?_)
    · rw [sessions_setSession_self] at hc
      cases hc
    · rw [sessions_setSession_of_ne]
      · exact hsess
      · exact fun hc => hcons.ne_of_childEdge hl hedge hc.2
  | endChild hl hend hother =>
    exact h.setLink hl (.of_childEnd rfl rfl rfl rfl (by simp [hend]) (by simp [hend])
      (fun hc => absurd hc hother) fun _ => id)
  | @detach k l hl hend =>
    obtain ⟨-, hchildren, -, hparent⟩ :=
      detachParentEpoch_spec (s.tree l.child) l.parent l.epoch
    refine Registered.setLink (h.setTree_of_children (n := l.child) hchildren
      fun {j m} hj hc hrun hold => ?_) hl (.of_childEnd rfl rfl rfl rfl (by simp [hend])
        (by simp [hend]) (fun _ => by simp [hend]) fun _ => id)
    rcases hparent with hsame | ⟨hmine, -⟩
    · rw [hsame]
      exact .inl hold
    · -- only the link itself takes out the edge it set
      rw [hmine] at hold
      obtain rfl : k = j := h.unique hl hj hc.symm (congrArg Edge.epoch (some.inj hold))
        (Link.not_over_of_childEnd (by simp [hend])) (Link.not_over_of_childEnd (by simp [hrun]))
      obtain rfl := mem_unique hl hj
      rw [hend] at hrun
      cases hrun
  | @stopParent k l hl hend hcurrent =>
    refine h.drop hcurrent hl (.of_parentEnd rfl rfl rfl rfl (by simp [hend])
      (by simp [hend, ParentEnd.isAttached]) (fun hc => ?_) fun _ _ => .inr (.inl rfl))
    rw [sessions_setSession_self] at hc
    cases hc
  | endParent hl hend hother =>
    refine h.setLink hl (.of_parentEnd rfl rfl rfl rfl (by simp [hend])
      (by simp [hend, ParentEnd.isAttached]) (fun hc => absurd hc hother) fun _ hholds => ?_)
    simp [Holds, hend, ParentEnd.isAttached, hother] at hholds
  | @withdraw k order l hl hend =>
    have hparent := withdrawChildEpoch_parent (s.tree l.parent) l.child l.epoch
    have hspec := withdrawChildEpoch_spec (s.tree l.parent) l.child l.epoch
    have htree : Registered (s.setTree l.parent
        ((s.tree l.parent).withdrawChildEpoch l.child l.epoch).2) := by
      refine h.setTree ?_ ?_ ?_
      · intro j m hj hp hrun hold
        rcases hspec with ⟨hsame, -⟩ | ⟨hmine, hepochs, -⟩
        · rw [hsame]
          exact .inl hold
        · rw [hepochs, if_neg fun hc => ?_]
          · exact .inl hold
          · rw [hc, hmine] at hold
            obtain rfl : k = j := h.unique hl hj hc.symm (some.inj hold)
              (Link.not_over_of_parentEnd (by simp [hend]))
              (Link.not_over_of_parentEnd (by simp [hrun]))
            obtain rfl := mem_unique hl hj
            rw [hend] at hrun
            cases hrun
      · intro j m _ _ _ hold
        rw [hparent]
        exact .inl hold
      · intro c e hc
        rcases hspec with ⟨hsame, -⟩ | ⟨-, hepochs, -⟩
        · rw [hsame] at hc
          exact .inr hc
        · rw [hepochs] at hc
          split_ifs at hc
          exact .inr hc
    refine htree.setLink hl (.of_parentEnd rfl rfl rfl rfl (by simp [hend])
      (by simp [hend, ParentEnd.isAttached]) (fun _ => by simp [hend]) fun hedge _ => ?_)
    -- the edge of the link is gone
    rw [ChildEdge, tree_setTree_self] at hedge
    rcases hspec with ⟨hsame, hother⟩ | ⟨-, hepochs, -⟩
    · rw [hsame] at hedge
      exact absurd hedge hother
    · rw [hepochs, if_pos rfl] at hedge
      cases hedge

end Registered

end Net

end Overlay
