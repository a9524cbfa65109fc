/-
The end of a resource session (`runtime/node/sessions.go`, `Node.Close`).

A session is ended by its provider's `Close` or `Abort`.  Whoever takes it out of the table
makes the call: a close request, the timer of the session, the end of its link, a change of
the policy, the end of the node, or a request that finds it expired.  Looking a session up,
taking it out and calling the provider are separate steps of concurrent threads, and
`handleSessionClose` calls the provider whether or not its `delete` removed anything.

* `Duties` — the session is in the table and nobody has called its provider, or one thread
  has taken it out and has to make the call, or the calls are over;
* **`finished_once`** — if every `delete` of a close request finds the session, the provider
  is called once;
* `finished_once_fails` — a session that expires between the check and the `delete` is
  aborted and then closed.
-/
import MyFlowHub.Handlers

open Std Function Tables Runs Routing List

namespace ResourceSession

/-! ### Threads -/

inductive ProviderCall where
  | close
  /-- `Close` returns. -/
  | closeReturned (failed : Bool)
  | abort
  deriving DecidableEq

inductive Thread where
  /-- `handleSessionOpen` and then the timer -/
  | opener (id : MessageID)
  /-- `handleSessionClose` or `handleSessionData` -/
  | request (k : ℕ)
  /-- the end of a link -/
  | link (k : ℕ)
  /-- the observer of the policy -/
  | policy
  /-- `Node.Close` -/
  | node
  deriving DecidableEq

/-- A request for a session, as far as `validateResourceSession` reads it. -/
structure Request where
  correlationID : MessageID
  subject : NodeID
  resource : ResourceID
  capability : CapabilityID
  linkID : String
  /-- `handleSessionClose`, not `handleSessionData` -/
  closes : Bool

inductive Phase where
  | idle
  /-- before the response of `handleSessionOpen` -/
  | responding (owned : OwnedSession)
  | timing (owned : OwnedSession)
  /-- before `validateResourceSession` reads the table -/
  | finding (r : Request)
  /-- before it reads the clock and the policy -/
  | checking (r : Request) (owned : OwnedSession)
  /-- after it -/
  | validated (r : Request) (owned : OwnedSession)
  /-- before the provider's `Close` -/
  | closing (id : MessageID)
  /-- in the provider's `Close` -/
  | inClose (id : MessageID)
  /-- before the `Abort` after a failed `Close` -/
  | failing (id : MessageID)
  /-- before calls of `removeResourceSession` -/
  | removing (ids : List MessageID)
  /-- in `removeResourceSession`, before its `Abort` -/
  | aborting (id : MessageID) (rest : List MessageID)
  /-- in `Node.Close`, before the calls of `Abort` -/
  | dropping (ids : List MessageID)
  | ended

abbrev Table := ExtTreeMap MessageID OwnedSession compare

structure System where
  resourceSessions : Table := ∅
  /-- The identifiers given out by `NewMessageID`, which does not repeat itself. -/
  used : Finset MessageID := ∅
  clock : ℤ := 0
  /-- `auth.PolicyGeneration(n.policy)` -/
  generation : UInt64 := 0
  closed : Bool := false
  phase : Thread → Phase := fun _ => .idle
  log : List (MessageID × ProviderCall) := []

/-! ### Steps -/

inductive Act where
  | tick (d : ℕ)
  | setPolicy (generation : UInt64)
  | openSession (owned : OwnedSession)
  | respond (id : MessageID) (ok : Bool)
  | fire (id : MessageID)
  | stopTimer (id : MessageID)
  | request (k : ℕ) (r : Request)
  | find (k : ℕ)
  | check (k : ℕ)
  /-- the decoding of the payload, and in `handleSessionClose` the `delete` -/
  | proceed (k : ℕ) (decoded : Bool)
  | callClose (k : ℕ)
  | returnClose (k : ℕ) (failed : Bool)
  | unlink (k : ℕ) (linkID : String)
  | revalidate (generation : UInt64)
  | closeNode
  /-- a critical section of `removeResourceSession` -/
  | remove (th : Thread)
  | abort (th : Thread)

def Table.select (table : Table) (p : OwnedSession → Bool) : List MessageID :=
  (table.toList.filter fun entry => p entry.2).map Prod.fst

namespace System

variable (maxResourceSessions : ℕ) (s : System)

def setPhase (th : Thread) (p : Phase) : System := { s with phase := update s.phase th p }

def call (id : MessageID) (c : ProviderCall) : System := { s with log := s.log ++ [(id, c)] }

/-- `handleSessionOpen` once the provider has opened the session. -/
def openSession (owned : OwnedSession) : System :=
  if owned.id ∈ s.used then s
  else if s.closed ∨ s.resourceSessions.size ≥ maxResourceSessions then
    { s with used := insert owned.id s.used }.call owned.id .abort
  else
    { s with
      used := insert owned.id s.used
      resourceSessions := s.resourceSessions.insert owned.id owned }.setPhase (.opener owned.id)
        (.responding owned)

/-- The comparisons of `validateResourceSession`. -/
def check (k : ℕ) (r : Request) (owned : OwnedSession) : System :=
  if owned.subject ≠ r.subject ∨ owned.resource ≠ r.resource ∨ owned.capability ≠ r.capability ∨
      owned.linkID ≠ r.linkID then s.setPhase (.request k) .ended
  else if owned.expiresAt ≤ s.clock ∨ owned.policyGeneration ≠ s.generation then
    s.setPhase (.request k) (.removing [owned.id])
  else s.setPhase (.request k) (.validated r owned)

def proceed (k : ℕ) (r : Request) (owned : OwnedSession) (decoded : Bool) : System :=
  if decoded = false ∨ r.closes = false then s.setPhase (.request k) .ended
  else
    { s with resourceSessions := s.resourceSessions.erase owned.id }.setPhase (.request k)
      (.closing owned.id)

def step (s : System) : Act → System
  | .tick d => { s with clock := s.clock + d }
  | .setPolicy generation => { s with generation := generation }
  | .openSession owned => s.openSession maxResourceSessions owned
  | .respond id ok =>
    match s.phase (.opener id) with
    | .responding owned =>
      if ok = false then s.setPhase (.opener id) (.removing [owned.id])
      -- `launch` refuses when the node is closed
      else if s.closed then s.setPhase (.opener id) .ended
      else s.setPhase (.opener id) (.timing owned)
    | _ => s
  | .fire id =>
    match s.phase (.opener id) with
    | .timing owned =>
      if owned.expiresAt ≤ s.clock then s.setPhase (.opener id) (.removing [owned.id]) else s
    | _ => s
  | .stopTimer id =>
    match s.phase (.opener id) with
    | .timing _ => if s.closed then s.setPhase (.opener id) .ended else s
    | _ => s
  | .request k r =>
    match s.phase (.request k) with
    | .idle => s.setPhase (.request k) (.finding r)
    | _ => s
  | .find k =>
    match s.phase (.request k) with
    | .finding r =>
      match s.resourceSessions[r.correlationID]? with
      | none => s.setPhase (.request k) .ended
      | some owned => s.setPhase (.request k) (.checking r owned)
    | _ => s
  | .check k =>
    match s.phase (.request k) with
    | .checking r owned => s.check k r owned
    | _ => s
  | .proceed k decoded =>
    match s.phase (.request k) with
    | .validated r owned => s.proceed k r owned decoded
    | _ => s
  | .callClose k =>
    match s.phase (.request k) with
    | .closing id => (s.setPhase (.request k) (.inClose id)).call id .close
    | _ => s
  | .returnClose k failed =>
    match s.phase (.request k) with
    | .inClose id =>
      (s.setPhase (.request k) (if failed then .failing id else .ended)).call id
        (.closeReturned failed)
    | _ => s
  | .unlink k linkID =>
    match s.phase (.link k) with
    | .idle => s.setPhase (.link k) (.removing (s.resourceSessions.select (·.linkID = linkID)))
    | _ => s
  | .revalidate generation =>
    match s.phase .policy with
    | .idle =>
      s.setPhase .policy (.removing (s.resourceSessions.select (·.policyGeneration ≠ generation)))
    | _ => s
  | .closeNode =>
    match s.phase .node with
    | .idle =>
      { s with resourceSessions := ∅, closed := true }.setPhase .node
        (.dropping (s.resourceSessions.select fun _ => true))
    | _ => s
  | .remove th =>
    match s.phase th with
    -- the observer of the policy waits for the next change
    | .removing [] => s.setPhase th (if th = .policy then .idle else .ended)
    | .removing (id :: rest) =>
      if s.resourceSessions.contains id then
        { s with resourceSessions := s.resourceSessions.erase id }.setPhase th (.aborting id rest)
      else s.setPhase th (.removing rest)
    | _ => s
  | .abort th =>
    match s.phase th with
    | .aborting id rest => (s.setPhase th (.removing rest)).call id .abort
    | .failing id => (s.setPhase th .ended).call id .abort
    | .dropping (id :: rest) => (s.setPhase th (.dropping rest)).call id .abort
    | _ => s

end System

/-! ### Who has to call the provider -/

def callsOf (id : MessageID) (log : List (MessageID × ProviderCall)) : List ProviderCall :=
  (log.filter fun entry => entry.1 = id).map Prod.snd

/-- One end: an `Abort`, or a `Close` with an `Abort` only after it failed. -/
def FinishedOnce (calls : List ProviderCall) : Prop :=
  calls ∈ [[], [.abort], [.close], [.close, .closeReturned false], [.close, .closeReturned true],
    [.close, .closeReturned true, .abort]]

instance (calls : List ProviderCall) : Decidable (FinishedOnce calls) :=
  inferInstanceAs (Decidable (_ ∈ _))

def Phase.holds : Phase → List MessageID
  | .closing id | .inClose id | .failing id | .aborting id _ => [id]
  | .dropping ids => ids
  | _ => []

/-- The calls that a thread has made for the sessions it holds. -/
def Phase.made : Phase → List ProviderCall
  | .inClose _ => [.close]
  | .failing _ => [.close, .closeReturned true]
  | _ => []

theorem callsOf_append (id : MessageID) (log log' : List (MessageID × ProviderCall)) :
    callsOf id (log ++ log') = callsOf id log ++ callsOf id log' := by
  rw [callsOf, filter_append, map_append]
  rfl

theorem callsOf_self (id : MessageID) (c : ProviderCall) : callsOf id [(id, c)] = [c] := by
  simp [callsOf]

theorem callsOf_other {id id' : MessageID} (h : id' ≠ id) (c : ProviderCall) :
    callsOf id' [(id, c)] = [] := by
  simp [callsOf, h.symm]

/-- **Whose duty a session is.** -/
structure Duties (s : System) : Prop where
  keyed : ∀ (id : MessageID) owned, s.resourceSessions[id]? = some owned → id ∈ s.used
  /-- A session of the table is nobody's. -/
  tabled : ∀ (id : MessageID) owned, s.resourceSessions[id]? = some owned →
    callsOf id s.log = [] ∧ ∀ th, id ∉ (s.phase th).holds
  unused : ∀ id, id ∉ s.used → callsOf id s.log = [] ∧ ∀ th, id ∉ (s.phase th).holds
  nodup : ∀ th, (s.phase th).holds.Nodup
  unique : ∀ th th' id, id ∈ (s.phase th).holds → id ∈ (s.phase th').holds → th = th'
  made : ∀ th, ∀ id ∈ (s.phase th).holds, callsOf id s.log = (s.phase th).made
  finished : ∀ id, FinishedOnce (callsOf id s.log)

section Duties

variable {s s' : System} {id : MessageID} {p : Phase} {th : Thread}

section

variable (h : Duties s)
include h

theorem Duties.quiet (htable : s'.resourceSessions = s.resourceSessions) (hused : s'.used = s.used)
    (hlog : s'.log = s.log) (hphase : s'.phase = update s.phase th p) (hp : p.holds = []) :
    Duties s' := by
  have hholds : ∀ th' id, id ∈ (s'.phase th').holds → id ∈ (s.phase th').holds ∧
      s'.phase th' = s.phase th' := by
    intro th' id hid
    rw [hphase] at hid ⊢
    by_cases hth : th' = th
    · rw [hth, update_self, hp] at hid
      cases hid
    · rw [update_of_ne hth] at hid ⊢
      exact ⟨hid, rfl⟩
  refine ⟨?_, fun id owned howned => ?_, fun id hid => ?_, fun th' => ?_,
    fun th₁ th₂ id h₁ h₂ => ?_, fun th' id hid => ?_, ?_⟩
  · rw [htable, hused]
    exact h.keyed
  · rw [htable] at howned
    rw [hlog]
    exact ⟨(h.tabled id owned howned).1, fun th' hc => (h.tabled id owned howned).2 th'
      (hholds th' id hc).1⟩
  · rw [hused] at hid
    rw [hlog]
    exact ⟨(h.unused id hid).1, fun th' hc => (h.unused id hid).2 th' (hholds th' id hc).1⟩
  · rw [hphase]
    by_cases hth : th' = th
    · rw [hth, update_self, hp]
      exact nodup_nil
    · rw [update_of_ne hth]
      exact h.nodup th'
  · exact h.unique th₁ th₂ id (hholds th₁ id h₁).1 (hholds th₂ id h₂).1
  · obtain ⟨hold, hsame⟩ := hholds th' id hid
    rw [hlog, hsame]
    exact h.made th' id hold
  · rw [hlog]
    exact h.finished

theorem Duties.take (hused : s'.used = s.used) (hlog : s'.log = s.log)
    (hphase : s'.phase = update s.phase th p) (hnodup : p.holds.Nodup) (hmade : p.made = [])
    (hpresent : ∀ id ∈ p.holds, ∃ owned, s.resourceSessions[id]? = some owned)
    (htable : ∀ id owned, s'.resourceSessions[id]? = some owned → s.resourceSessions[id]? =
      some owned ∧ id ∉ p.holds) :
    Duties s' := by
  have hself : s'.phase th = p := by rw [hphase, update_self]
  have hother : ∀ th', th' ≠ th → s'.phase th' = s.phase th' := fun th' hth => by
    rw [hphase, update_of_ne hth]
  -- the sessions taken were nobody's
  have hfree : ∀ id ∈ p.holds, callsOf id s.log = [] ∧ ∀ th', id ∉ (s.phase th').holds := by
    intro id hid
    obtain ⟨owned, howned⟩ := hpresent id hid
    exact h.tabled id owned howned
  refine ⟨fun id owned howned => ?_, fun id owned howned => ?_, fun id hid => ?_, fun th' => ?_,
    fun th₁ th₂ id h₁ h₂ => ?_, fun th' id hid => ?_, ?_⟩
  · rw [hused]
    exact h.keyed id owned (htable id owned howned).1
  · obtain ⟨hold, hkept⟩ := htable id owned howned
    rw [hlog]
    refine ⟨(h.tabled id owned hold).1, fun th' hc => ?_⟩
    by_cases hth : th' = th
    · rw [hth, hself] at hc
      exact hkept hc
    · rw [hother th' hth] at hc
      exact (h.tabled id owned hold).2 th' hc
  · rw [hused] at hid
    rw [hlog]
    refine ⟨(h.unused id hid).1, fun th' hc => ?_⟩
    by_cases hth : th' = th
    · rw [hth, hself] at hc
      obtain ⟨owned, howned⟩ := hpresent id hc
      exact hid (h.keyed id owned howned)
    · rw [hother th' hth] at hc
      exact (h.unused id hid).2 th' hc
  · by_cases hth : th' = th
    · rw [hth, hself]
      exact hnodup
    · rw [hother th' hth]
      exact h.nodup th'
  · by_cases hth₁ : th₁ = th
    · by_cases hth₂ : th₂ = th
      · exact hth₁.trans hth₂.symm
      · rw [hth₁, hself] at h₁
        rw [hother th₂ hth₂] at h₂
        exact absurd h₂ ((hfree id h₁).2 th₂)
    · by_cases hth₂ : th₂ = th
      · rw [hother th₁ hth₁] at h₁
        rw [hth₂, hself] at h₂
        exact absurd h₁ ((hfree id h₂).2 th₁)
      · rw [hother th₁ hth₁] at h₁
        rw [hother th₂ hth₂] at h₂
        exact h.unique th₁ th₂ id h₁ h₂
  · rw [hlog]
    by_cases hth : th' = th
    · rw [hth, hself] at hid ⊢
      rw [hmade]
      exact (hfree id hid).1
    · rw [hother th' hth] at hid ⊢
      exact h.made th' id hid
  · rw [hlog]
    exact h.finished

/-- A thread calls the provider of a session it holds, and goes on to hold the rest, or the
session itself with one more call made. -/
theorem Duties.call {c : ProviderCall} (hid : id ∈ (s.phase th).holds)
    (hfinished : FinishedOnce ((s.phase th).made ++ [c]))
    (hsub : p.holds.Sublist (s.phase th).holds)
    (hmade : ∀ id' ∈ p.holds, id' = id ∧ p.made = (s.phase th).made ++ [c] ∨ id' ≠ id ∧ p.made =
      (s.phase th).made) :
    Duties ((s.setPhase th p).call id c) := by
  have hself : update s.phase th p th = p := update_self ..
  have hother : ∀ th', th' ≠ th → update s.phase th p th' = s.phase th' := fun th' hth =>
    update_of_ne hth _ _
  have hsame : ∀ id', id' ≠ id → callsOf id' (s.log ++ [(id, c)]) = callsOf id' s.log := by
    intro id' hne
    rw [callsOf_append, callsOf_other hne, append_nil]
  have hholds : ∀ th' id', id' ∈ (update s.phase th p th').holds → id' ∈ (s.phase th').holds := by
    intro th' id' hc
    by_cases hth : th' = th
    · rw [hth, hself] at hc
      rw [hth]
      exact hsub.subset hc
    · rwa [hother th' hth] at hc
  -- the session is held by this thread alone, so the new call is the next of its own calls
  have hnew : callsOf id (s.log ++ [(id, c)]) = (s.phase th).made ++ [c] := by
    rw [callsOf_append, callsOf_self, h.made th id hid]
  refine ⟨h.keyed, fun id' owned howned => ?_, fun id' hunused => ?_, fun th' => ?_,
    fun th₁ th₂ id' h₁ h₂ => h.unique th₁ th₂ id' (hholds th₁ id' h₁) (hholds th₂ id' h₂),
    fun th' id' hmem => ?_, fun id' => ?_⟩
  · have htabled := h.tabled id' owned howned
    have hne : id' ≠ id := by
      rintro rfl
      exact htabled.2 th hid
    exact ⟨(hsame id' hne).trans htabled.1, fun th' hc => htabled.2 th' (hholds th' id' hc)⟩
  · have hfree := h.unused id' hunused
    have hne : id' ≠ id := by
      rintro rfl
      exact hfree.2 th hid
    exact ⟨(hsame id' hne).trans hfree.1, fun th' hc => hfree.2 th' (hholds th' id' hc)⟩
  · show (update s.phase th p th').holds.Nodup
    by_cases hth : th' = th
    · rw [hth, hself]
      exact (h.nodup th).sublist hsub
    · rw [hother th' hth]
      exact h.nodup th'
  · have hid' : id' ∈ (update s.phase th p th').holds := hmem
    clear hmem
    show callsOf id' (s.log ++ [(id, c)]) = (update s.phase th p th').made
    by_cases hth : th' = th
    · rw [hth, hself] at hid' ⊢
      rcases hmade id' hid' with ⟨rfl, hp⟩ | ⟨hne, hp⟩
      · rw [hp, hnew]
      · rw [hp, hsame id' hne]
        exact h.made th id' (hsub.subset hid')
    · rw [hother th' hth] at hid' ⊢
      have hne : id' ≠ id := by
        rintro rfl
        exact hth (h.unique th' th id' hid' hid)
      rw [hsame id' hne]
      exact h.made th' id' hid'
  · show FinishedOnce (callsOf id' (s.log ++ [(id, c)]))
    by_cases hne : id' = id
    · rw [hne, hnew]
      exact hfinished
    · rw [hsame id' hne]
      exact h.finished id'

theorem Duties.openSession (limit : ℕ) (owned : OwnedSession) :
    Duties (s.openSession limit owned) := by
  unfold System.openSession
  by_cases hused : owned.id ∈ s.used
  · rw [if_pos hused]
    exact h
  rw [if_neg hused]
  obtain ⟨hcalls, hfree⟩ := h.unused owned.id hused
  by_cases hfull : s.closed = true ∨ s.resourceSessions.size ≥ limit
  · -- refused, and aborted at once: no table and no thread ever has it
    rw [if_pos hfull]
    have hne : ∀ {id : MessageID}, id ∈ s.used → id ≠ owned.id := by
      rintro id hid rfl
      exact hused hid
    have hsame : ∀ {id : MessageID}, id ≠ owned.id →
        callsOf id (s.log ++ [(owned.id, .abort)]) = callsOf id s.log := by
      intro id hid
      rw [callsOf_append, callsOf_other hid, append_nil]
    refine ⟨fun id o ho => Finset.mem_insert_of_mem (h.keyed id o ho), fun id o ho => ?_,
      fun id hid => ?_, h.nodup, h.unique, fun th id hid => ?_, fun id => ?_⟩
    · exact ⟨(hsame (hne (h.keyed id o ho))).trans (h.tabled id o ho).1, (h.tabled id o ho).2⟩
    · obtain ⟨hid, hunused⟩ := not_or.mp (mt Finset.mem_insert.mpr hid)
      exact ⟨(hsame hid).trans (h.unused id hunused).1, (h.unused id hunused).2⟩
    · refine (hsame ?_).trans (h.made th id hid)
      rintro rfl
      exact hfree th hid
    · show FinishedOnce (callsOf id (s.log ++ [(owned.id, .abort)]))
      by_cases hid : id = owned.id
      · rw [hid, callsOf_append, hcalls, callsOf_self]
        decide
      · rw [hsame hid]
        exact h.finished id
  · rw [if_neg hfull]
    have hinserted : Duties { s with
        used := insert owned.id s.used
        resourceSessions := s.resourceSessions.insert owned.id owned } := by
      refine ⟨fun id o ho => ?_, fun id o ho => ?_, fun id hid => ?_, h.nodup, h.unique, h.made,
        h.finished⟩
      · rw [lookup_insert] at ho
        split_ifs at ho with hid
        · rw [hid]
          exact Finset.mem_insert_self ..
        · exact Finset.mem_insert_of_mem (h.keyed id o ho)
      · rw [lookup_insert] at ho
        split_ifs at ho with hid
        · rw [hid]
          exact ⟨hcalls, hfree⟩
        · exact h.tabled id o ho
      · exact h.unused id fun hc => hid (Finset.mem_insert_of_mem hc)
    exact hinserted.quiet rfl rfl rfl rfl rfl

theorem Duties.takeOne (hpresent : s.resourceSessions.contains id = true) (hp : p.holds = [id])
    (hmade : p.made = []) :
    Duties ({ s with resourceSessions := s.resourceSessions.erase id }.setPhase th p) := by
  refine h.take rfl rfl rfl ?_ hmade (fun id' hid' => ?_) (fun id' owned howned => ?_)
  · rw [hp]
    exact nodup_singleton id
  · rw [hp, mem_singleton] at hid'
    rw [hid']
    rw [ExtTreeMap.contains_eq_isSome_getElem?, Option.isSome_iff_exists] at hpresent
    exact hpresent
  · have howned : (s.resourceSessions.erase id)[id']? = some owned := howned
    rw [lookup_erase] at howned
    split_ifs at howned with hid'
    rw [hp, mem_singleton]
    exact ⟨howned, hid'⟩

end

theorem select_spec (table : Table) (p : OwnedSession → Bool) :
    (table.select p).Nodup ∧ ∀ id ∈ table.select p, ∃ owned, table[id]? = some owned := by
  constructor
  · have hkeys : (table.toList.map Prod.fst).Nodup := by
      rw [ExtTreeMap.map_fst_toList_eq_keys]
      exact ExtTreeMap.nodup_keys
    exact hkeys.sublist (filter_sublist.map Prod.fst)
  · intro id hid
    obtain ⟨⟨id', owned⟩, hmem, rfl⟩ := mem_map.mp hid
    exact ⟨owned, ExtTreeMap.mem_toList_iff_getElem?_eq_some.mp (mem_filter.mp hmem).1⟩

theorem Duties.closeNode (h : Duties s) :
    Duties ({ s with resourceSessions := ∅, closed := true }.setPhase .node
      (.dropping (s.resourceSessions.select fun _ => true))) := by
  obtain ⟨hnodup, hpresent⟩ := select_spec s.resourceSessions fun _ => true
  refine h.take rfl rfl rfl hnodup rfl hpresent fun id owned howned => ?_
  have hempty : (∅ : Table)[id]? = some owned := howned
  simp at hempty

theorem Duties.abort (h : Duties s) (hid : (s.phase th).holds = id :: p.holds)
    (hfinished : FinishedOnce ((s.phase th).made ++ [.abort]))
    (hmade : p.holds = [] ∨ p.made = (s.phase th).made) :
    Duties ((s.setPhase th p).call id .abort) := by
  have hnodup := h.nodup th
  rw [hid] at hnodup
  refine h.call ?_ hfinished ?_ fun id' hid' => Or.inr ⟨?_, ?_⟩
  · rw [hid]
    exact mem_cons_self
  · rw [hid]
    exact sublist_cons_self ..
  · rintro rfl
    exact (nodup_cons.mp hnodup).1 hid'
  · rcases hmade with hnil | hmade
    · rw [hnil] at hid'
      cases hid'
    · exact hmade

end Duties

/-! ### Runs -/

/-- A close request in this phase finds its session in the table. -/
def Phase.Finds (table : Table) : Phase → Prop
  | .validated r owned => r.closes = true → table.contains owned.id = true
  | _ => True

instance (table : Table) : DecidablePred (Phase.Finds table)
  | .validated .. => inferInstanceAs (Decidable (_ → _))
  | .idle | .responding _ | .timing _ | .finding _ | .checking .. | .closing _ | .inClose _
  | .failing _ | .removing _ | .aborting .. | .dropping _ | .ended =>
    inferInstanceAs (Decidable True)

/-- The close request that goes on to its `delete`. -/
def Act.deleter : Act → Option ℕ
  | .proceed k true => some k
  | _ => none

/-- Where a close request takes its session out of the table, the session is there. -/
def Present (s : System) (a : Act) : Prop :=
  ∀ k ∈ a.deleter, (s.phase (.request k)).Finds s.resourceSessions

instance (s : System) : DecidablePred (Present s) := fun a =>
  inferInstanceAs (Decidable (∀ k ∈ a.deleter, _))

theorem duties_start : Duties {} := by
  refine ⟨fun id owned h => ?_, fun id owned h => ?_, fun id _ => ⟨rfl, fun _ => not_mem_nil⟩,
    fun _ => nodup_nil, fun th th' id h => ?_, fun th id h => ?_, fun id => ?_⟩
  · cases h
  · cases h
  · cases h
  · cases h
  · exact mem_cons_self

theorem Duties.step {s : System} (h : Duties s) (limit : ℕ) (a : Act) (hpresent : Present s a) :
    Duties (s.step limit a) := by
  cases a with
  | tick d => exact { h with }
  | setPolicy g => exact { h with }
  | openSession owned => exact h.openSession limit owned
  -- timers, requests and checks leave table and log as they are
  | respond id ok =>
    simp only [System.step]
    split
    · split_ifs <;> exact h.quiet rfl rfl rfl rfl rfl
    · exact h
  | fire id =>
    simp only [System.step]
    split
    · split_ifs
      · exact h.quiet rfl rfl rfl rfl rfl
      · exact h
    · exact h
  | stopTimer id =>
    simp only [System.step]
    split
    · split_ifs
      · exact h.quiet rfl rfl rfl rfl rfl
      · exact h
    · exact h
  | request k r =>
    simp only [System.step]
    split
    · exact h.quiet rfl rfl rfl rfl rfl
    · exact h
  | find k =>
    simp only [System.step]
    split
    · split <;> exact h.quiet rfl rfl rfl rfl rfl
    · exact h
  | check k =>
    simp only [System.step, System.check]
    split
    · split_ifs <;> exact h.quiet rfl rfl rfl rfl rfl
    · exact h
  -- only a close that finds its session takes it from the table: the duty moves to the caller
  | proceed k decoded =>
    simp only [System.step, System.proceed]
    split
    · next r owned hphase =>
      by_cases hskip : decoded = false ∨ r.closes = false
      · rw [if_pos hskip]
        exact h.quiet rfl rfl rfl rfl rfl
      · rw [if_neg hskip]
        obtain ⟨hdecoded, hcloses⟩ := not_or.mp hskip
        obtain rfl : decoded = true := Bool.eq_true_of_not_eq_false hdecoded
        have hfinds := hpresent k rfl
        rw [hphase] at hfinds
        exact h.takeOne (hfinds (Bool.eq_true_of_not_eq_false hcloses)) rfl rfl
    · exact h
  | callClose k =>
    simp only [System.step]
    split
    · next id hphase =>
      refine h.call ?_ ?_ ?_ fun id' hid' => Or.inl ⟨?_, ?_⟩
      · rw [hphase]
        exact mem_cons_self
      · rw [hphase]
        show FinishedOnce [.close]
        decide
      · rw [hphase]
        exact List.Sublist.refl _
      · exact mem_singleton.mp hid'
      · rw [hphase]
        rfl
    · exact h
  | returnClose k failed =>
    simp only [System.step]
    split
    · next id hphase =>
      refine h.call ?_ ?_ ?_ fun id' hid' => Or.inl ?_
      · rw [hphase]
        exact mem_cons_self
      · rw [hphase]
        show FinishedOnce [.close, .closeReturned failed]
        cases failed <;> decide
      · rw [hphase]
        cases failed with
        | true => exact List.Sublist.refl _
        | false => exact nil_sublist _
      · cases failed with
        | true => exact ⟨mem_singleton.mp hid', by rw [hphase]; rfl⟩
        | false => cases hid'
    · exact h
  | unlink k linkID =>
    simp only [System.step]
    split
    · exact h.quiet rfl rfl rfl rfl rfl
    · exact h
  | revalidate generation =>
    simp only [System.step]
    split
    · exact h.quiet rfl rfl rfl rfl rfl
    · exact h
  | closeNode =>
    simp only [System.step]
    split
    · exact h.closeNode
    · exact h
  -- a cleanup skips a session that a close took before it
  | remove th =>
    simp only [System.step]
    split
    · refine h.quiet rfl rfl rfl rfl ?_
      split_ifs <;> rfl
    · split_ifs with hcontains
      · exact h.takeOne hcontains rfl rfl
      · exact h.quiet rfl rfl rfl rfl rfl
    · exact h
  | abort th =>
    have habort : FinishedOnce [.abort] := by decide
    simp only [System.step]
    split
    · next id rest hphase =>
      refine h.abort (by rw [hphase]; rfl) ?_ (Or.inl rfl)
      rw [hphase]
      exact habort
    -- the abort that follows a failed close
    · next id hphase =>
      refine h.abort (by rw [hphase]; rfl) ?_ (Or.inl rfl)
      rw [hphase]
      show FinishedOnce [.close, .closeReturned true, .abort]
      decide
    · next id rest hphase =>
      refine h.abort (by rw [hphase]; rfl) ?_ (Or.inr (by rw [hphase]; rfl))
      rw [hphase]
      exact habort
    · exact h

/-- **A resource session is finished once**, in every run in which a close request that takes its
session out of the table finds it there. -/
theorem finished_once (limit : ℕ) (as : List Act)
    (h : Along (System.step limit) Present {} as) (id : MessageID) :
    FinishedOnce (callsOf id (as.foldl (System.step limit) {}).log) :=
  (foldl_along (fun _ a hs hgood => hs.step limit a hgood) duties_start h).finished id

/-- A session that expires at 10, of the subject 7. -/
def shortSession : OwnedSession :=
  ⟨1, 7, ⟨1, "store"⟩, "write", "local", 0, 0, 10⟩

def shortRequest : Request := ⟨1, 7, ⟨1, "store"⟩, "write", "local", true⟩

/-- The session is opened, and a close request passes the checks. -/
def checkedRun : List Act :=
  [.openSession shortSession, .respond 1 true, .request 0 shortRequest, .find 0, .check 0]

/-- The provider refuses to close, and the session is aborted. -/
def failedCloseRun : List Act :=
  checkedRun ++ [.proceed 0 true, .callClose 0, .returnClose 0 true, .abort (.request 0)]

theorem finished_once_failedClose :
    Along (System.step 256) Present {} failedCloseRun ∧
    callsOf 1 (failedCloseRun.foldl (System.step 256) {}).log =
      [.close, .closeReturned true, .abort] ∧
    FinishedOnce (callsOf 1 (failedCloseRun.foldl (System.step 256) {}).log) := by
  have hgood : Along (System.step 256) Present {} failedCloseRun := by
    decide
  exact ⟨hgood, by decide, finished_once 256 _ hgood 1⟩

/-- The timer fires after the check of a close request and before its `delete`. -/
def expiredRun : List Act :=
  checkedRun ++ [.tick 10, .fire 1, .remove (.opener 1), .abort (.opener 1), .proceed 0 true,
    .callClose 0]

/-- The session is aborted, and then closed. -/
theorem finished_once_fails :
    callsOf 1 (expiredRun.foldl (System.step 256) {}).log = [.abort, .close] ∧
    ¬ FinishedOnce (callsOf 1 (expiredRun.foldl (System.step 256) {}).log) := by
  decide

end ResourceSession
