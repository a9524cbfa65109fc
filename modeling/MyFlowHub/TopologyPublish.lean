/-
Publication of topology snapshots (`feature/management/topology.go`).

`publish` is called by every refresh, and again from inside the callbacks it runs.  It
remembers the newest snapshot offered, and whoever finds nobody publishing publishes until
nothing is pending.  A call begins when it has `publishMu`; a call made inside a callback is one
more caller whose steps come between two steps of the first.

* `Publisher.enter`, `Publisher.leave` — the two sections under `publishMu`;
* `Ordered` — who drains, and what was offered, is pending and was taken;
* **`publication_ordered`** — for every interleaving.
-/
import MyFlowHub.Protocol
import MyFlowHub.Runs

open Function Runs Option

namespace Topology

/-! ### The publisher -/

/-- An error; `tooLarge` says that it wraps `ErrPayloadTooLarge`. -/
structure Failure where
  text : String
  tooLarge : Bool
  deriving DecidableEq

/-- What `publish` reads of a `topologySnapshot`. -/
structure Snapshot where
  revision : ℕ
  value : List UInt8 := []
  valueErr : Option Failure := none
  deriving DecidableEq

/-- What `publish` and `failObservers` use of a `topologyResource`; observers are known by their
numbers. -/
structure Publisher where
  publishing : Bool := false
  pending : Option Snapshot := none
  published : ℕ := 0
  valueFailure : Option Failure := none
  observers : List ℕ := []

/-- How `base.Apply` may end. -/
inductive Applied where
  | ok
  | regression
  | valueTooLarge (text : String)
  | failed (text : String)

inductive Told where
  | applied (revision : ℕ) (value : List UInt8) (result : Applied)
  | observer (id : ℕ) (failure : ErrorPayload)

namespace Publisher

variable (p : Publisher)

/-- The snapshot that is published next leaves `pending`. -/
def take (current : Snapshot) : Publisher :=
  { p with pending := none, published := current.revision }

/-- `publish` from its lock to its first unlock: the snapshot to publish, if any. -/
def enter (snapshot : Snapshot) : Option Snapshot × Publisher :=
  if snapshot.revision ≤ p.published ∨ p.pending.any (snapshot.revision ≤ ·.revision) then (none, p)
  else if p.publishing then (none, { p with pending := some snapshot })
  else (some snapshot, { p with publishing := true }.take snapshot)

/-- The end of a round of `publish`: the next snapshot, or the end of the loop. -/
def leave : Option Snapshot × Publisher :=
  match p.pending with
  | none => (none, { p with publishing := false })
  | some current => (some current, p.take current)

/-- `failObservers`. -/
def failObservers (err : Failure) : List Told × Publisher :=
  (p.observers.map fun id =>
      .observer id ⟨if err.tooLarge then .overflow else .internal, err.text, false, []⟩,
    { p with observers := [] })

/-- A round of `publish` outside the lock; `none` is a round without an error. -/
def deliver (current : Snapshot) (result : Applied) : Option Failure × List Told × Publisher :=
  match current.valueErr with
  | some err => (none, p.failObservers err)
  | none =>
    let applied := .applied (current.revision + 1) current.value result
    let report (err : Failure) : Option Failure × List Told × Publisher :=
      let (told, p') := { p with valueFailure := some err }.failObservers err
      (some err, applied :: told, p')
    match result with
    | .ok | .regression => (none, [applied], { p with valueFailure := none })
    | .valueTooLarge text => report ⟨"payload exceeds configured limit: " ++ text, true⟩
    | .failed text => report ⟨text, false⟩

theorem deliver_frame (current : Snapshot) (result : Applied) :
    (p.deliver current result).2.2.publishing = p.publishing ∧
      (p.deliver current result).2.2.pending = p.pending ∧
      (p.deliver current result).2.2.published = p.published := by
  unfold deliver
  cases current.valueErr with
  | some err => exact ⟨rfl, rfl, rfl⟩
  | none => cases result <;> exact ⟨rfl, rfl, rfl⟩

end Publisher

/-! ### The system -/

inductive Phase where
  | idle
  /-- outside the lock, with the errors so far -/
  | publishing (current : Snapshot) (result : List Failure)
  /-- before the lock is taken again -/
  | leaving (result : List Failure)
  | returned (result : List Failure)

/-- The caller drains.  A call that is running has its lock, or drains. -/
def Phase.drains : Phase → Bool
  | .publishing .. | .leaving _ => true
  | .idle | .returned _ => false

structure System where
  publisher : Publisher := {}
  phase : ℕ → Phase := fun _ => .idle
  offered : List ℕ := []
  /-- the revisions taken for publication -/
  taken : List ℕ := []
  told : List Told := []

inductive Act where
  | publish (caller : ℕ) (snapshot : Snapshot)
  /-- the caller goes on; the result is that of `base.Apply`, where it is called -/
  | advance (caller : ℕ) (result : Applied)
  /-- `Observe` that is not refused, and its cancellation -/
  | observe (id : ℕ)
  | cancel (id : ℕ)

namespace System

variable (s : System)

/-- After a section under the lock the caller has a snapshot to publish, or returns. -/
def proceed (t : ℕ) (result : List Failure) : Option Snapshot × Publisher → System
  | (some current, p) =>
    { s with
      publisher := p
      phase := update s.phase t (.publishing current result)
      taken := s.taken ++ [current.revision] }
  | (none, p) => { s with publisher := p, phase := update s.phase t (.returned result) }

def step (s : System) : Act → System
  | .publish t snapshot =>
    if (s.phase t).drains then s
    else
      { s with offered := s.offered ++ [snapshot.revision] }.proceed t []
        (s.publisher.enter snapshot)
  | .advance t result =>
    match s.phase t with
    | .publishing current errs =>
      let (err, told, p) := s.publisher.deliver current result
      { s with
        publisher := p
        phase := update s.phase t (.leaving (errs ++ err.toList))
        told := s.told ++ told }
    | .leaving errs => s.proceed t errs s.publisher.leave
    | .idle | .returned _ => s
  | .observe id =>
    { s with publisher := { s.publisher with observers := s.publisher.observers ++ [id] } }
  | .cancel id =>
    { s with publisher := { s.publisher with observers := s.publisher.observers.erase id } }

end System

open Topology.System

/-! ### The invariant -/

/-- The newest revision that is pending or was taken. -/
def Publisher.top (p : Publisher) : ℕ := (p.pending.map Snapshot.revision).getD p.published

def highest (offered : List ℕ) : ℕ := offered.foldl max 0

structure Ordered (s : System) : Prop where
  /-- there is at most one caller that drains, and the flag says whether there is one -/
  drainer : ∃ d : Option ℕ, s.publisher.publishing = d.isSome ∧
    ∀ t, (s.phase t).drains = true ↔ d = some t
  idle : s.publisher.publishing = false → s.publisher.pending = none
  ahead : ∀ next ∈ s.publisher.pending, s.publisher.published < next.revision
  last : s.taken.getLast?.getD 0 = s.publisher.published
  bound : ∀ r ∈ s.taken, r ≤ s.publisher.published
  sorted : s.taken.Pairwise (· < ·)
  newest : highest s.offered = s.publisher.top

section Ordered

variable {s : System} {t : ℕ}

theorem highest_concat (offered : List ℕ) (r : ℕ) :
    highest (offered ++ [r]) = max (highest offered) r := by
  simp [highest]

theorem ordered_start : Ordered {} := by
  refine ⟨⟨none, rfl, fun t => by simp [Phase.drains]⟩, ?_, ?_, rfl, ?_, .nil, rfl⟩ <;> simp

variable (h : Ordered s)
include h

theorem Ordered.frame {p : Publisher} (hflag : p.publishing = s.publisher.publishing)
    (hpending : p.pending = s.publisher.pending) (hpublished : p.published = s.publisher.published)
    {phase : ℕ → Phase} (hdrains : ∀ u, (phase u).drains = (s.phase u).drains) (told : List Told) :
    Ordered { s with publisher := p, phase := phase, told := told } := by
  constructor
  · simpa only [hdrains, hflag] using h.drainer
  · simpa only [hflag, hpending] using h.idle
  · simpa only [hpending, hpublished] using h.ahead
  · simpa only [hpublished] using h.last
  · simpa only [hpublished] using h.bound
  · exact h.sorted
  · simpa only [Publisher.top, hpending, hpublished] using h.newest

theorem Ordered.take {offered : List ℕ} {current : Snapshot} (errs : List Failure)
    (hmine : ∀ u, (s.phase u).drains = true → u = t)
    (hahead : s.publisher.published < current.revision)
    (hnewest : highest offered = current.revision) :
    Ordered ({ s with offered := offered }.proceed t errs
      (some current, { s.publisher with publishing := true }.take current)) := by
  -- a caller takes a snapshot that is newer than what was taken; then only it drains
  refine ⟨⟨some t, rfl, fun u => ?_⟩, ?_, ?_, ?_, ?_, ?_, ?_⟩
  · by_cases hu : u = t
    · simp [proceed, hu, Phase.drains]
    · simp only [proceed, update_of_ne hu, Option.some.injEq]
      exact ⟨fun hdrains => (hmine u hdrains).symm, fun htu => absurd htu.symm hu⟩
  · simp [proceed, Publisher.take]
  · simp [proceed, Publisher.take]
  · simp [proceed, Publisher.take]
  · intro r hr
    rcases List.mem_append.mp hr with hold | hnew
    · exact (h.bound r hold).trans hahead.le
    · exact (List.mem_singleton.mp hnew).le
  · refine List.pairwise_append.mpr ⟨h.sorted, List.pairwise_singleton _ _, fun r hr x hx => ?_⟩
    rw [List.mem_singleton.mp hx]
    exact (h.bound r hr).trans_lt hahead
  · simpa [proceed, Publisher.take, Publisher.top] using hnewest

theorem Ordered.enter (hphase : (s.phase t).drains = false) (snapshot : Snapshot) :
    Ordered ({ s with offered := s.offered ++ [snapshot.revision] }.proceed t []
      (s.publisher.enter snapshot)) := by
  have hdrains : ∀ u, (update s.phase t (.returned []) u).drains = (s.phase u).drains :=
    forall_update (L := fun u (p : Phase) => p.drains = (s.phase u).drains) hphase.symm
      fun u _ => rfl
  unfold Publisher.enter
  split_ifs with hpassed hpublishing
  · -- the snapshot is not newer than what is pending or was taken
    refine ⟨by simpa only [proceed, hdrains] using h.drainer, h.idle, h.ahead, h.last, h.bound,
      h.sorted, ?_⟩
    have hle : snapshot.revision ≤ s.publisher.top := by
      cases hpending : s.publisher.pending with
      | none => simpa [Publisher.top, hpending] using hpassed
      | some next =>
        have := h.ahead next hpending
        simp only [hpending, any_some, decide_eq_true_eq] at hpassed
        simp only [Publisher.top, hpending, map_some, getD_some]
        omega
    rw [proceed, highest_concat, h.newest]
    exact max_eq_left hle
  · -- it replaces what is pending
    refine ⟨by simpa only [proceed, hdrains] using h.drainer, ?_, ?_, h.last, h.bound, h.sorted, ?_⟩
    · intro hfalse
      simp [proceed, hpublishing] at hfalse
    · rintro next ⟨⟩
      exact not_le.mp fun hle => hpassed (.inl hle)
    · have hlt : s.publisher.top < snapshot.revision := by
        cases hpending : s.publisher.pending with
        | none => simpa [Publisher.top, hpending] using hpassed
        | some next =>
          simp only [hpending, any_some, decide_eq_true_eq] at hpassed
          simp only [Publisher.top, hpending, map_some, getD_some]
          omega
      rw [proceed, highest_concat, h.newest]
      exact max_eq_right hlt.le
  · obtain ⟨d, hd, hdrainer⟩ := h.drainer
    have hfalse : s.publisher.publishing = false := by simpa using hpublishing
    have hahead : s.publisher.published < snapshot.revision := not_le.mp fun hle =>
      hpassed (.inl hle)
    refine h.take [] (fun u hu => ?_) hahead ?_
    · simp [(hdrainer u).mp hu, hfalse] at hd
    · rw [highest_concat, h.newest, Publisher.top, h.idle hfalse]
      exact max_eq_right hahead.le

theorem Ordered.leave {errs : List Failure} (hphase : s.phase t = .leaving errs) :
    Ordered (s.proceed t errs s.publisher.leave) := by
  obtain ⟨d, hd, hdrainer⟩ := h.drainer
  obtain rfl : d = some t := (hdrainer t).mp (by rw [hphase]; rfl)
  have hmine : ∀ u, (s.phase u).drains = true → u = t :=
    fun u hu => (some.inj ((hdrainer u).mp hu)).symm
  unfold Publisher.leave
  cases hpending : s.publisher.pending with
  | some current =>
    have hnewest : highest s.offered = current.revision := by
      rw [h.newest, Publisher.top, hpending]
      rfl
    have htake := h.take errs hmine (h.ahead current hpending) hnewest
    rwa [show ({ s.publisher with publishing := true } : Publisher) = s.publisher by
      rw [show true = s.publisher.publishing from hd.symm]] at htake
  | none =>
    refine ⟨⟨none, rfl, fun u => ?_⟩, fun _ => rfl, by simp [proceed], h.last, h.bound,
      h.sorted, ?_⟩
    · by_cases hu : u = t
      · simp [proceed, hu, Phase.drains]
      · simp only [proceed, update_of_ne hu, reduceCtorEq, iff_false]
        exact fun hdrains => hu (hmine u hdrains)
    · rw [proceed, h.newest, Publisher.top, hpending]
      rfl

theorem Ordered.step (a : Act) : Ordered (s.step a) := by
  cases a with
  | publish t snapshot =>
    simp only [System.step]
    split_ifs with hdrains
    · exact h
    · exact h.enter (by simpa using hdrains) snapshot
  | advance t result =>
    simp only [System.step]
    split
    · next current errs hphase =>
      obtain ⟨hflag, hpending, hpublished⟩ := s.publisher.deliver_frame current result
      refine h.frame hflag hpending hpublished
        (forall_update (L := fun u (p : Phase) => p.drains = (s.phase u).drains) ?_
          fun u _ => rfl) _
      rw [hphase]
      rfl
    · next errs hphase => exact h.leave hphase
    · exact h
    · exact h
  | observe id =>
    exact h.frame (p := (s.step (.observe id)).publisher) rfl rfl rfl (fun _ => rfl) s.told
  | cancel id =>
    exact h.frame (p := (s.step (.cancel id)).publisher) rfl rfl rfl (fun _ => rfl) s.told

end Ordered

/-- **Publication is ordered and loses nothing.**  In every interleaving of calls of `publish`, at
most one caller drains and the revisions taken increase; when no call is running, nothing is
pending and the revision taken last is the highest one offered. -/
theorem publication_ordered (as : List Act) :
    (∀ t u, ((as.foldl System.step {}).phase t).drains = true →
      ((as.foldl System.step {}).phase u).drains = true → t = u) ∧
    (as.foldl System.step {}).taken.Pairwise (· < ·) ∧
    ((∀ t, ((as.foldl System.step {}).phase t).drains = false) →
      (as.foldl System.step {}).publisher.pending = none ∧
      (as.foldl System.step {}).taken.getLast?.getD 0 =
        highest (as.foldl System.step {}).offered) := by
  have h : Ordered (as.foldl System.step {}) :=
    foldl_invariant (fun s a hs => hs.step a) ordered_start as
  generalize as.foldl System.step {} = s at h ⊢
  obtain ⟨d, hd, hdrainer⟩ := h.drainer
  refine ⟨fun t u ht hu => ?_, h.sorted, fun hfree => ?_⟩
  · exact some.inj (((hdrainer t).mp ht).symm.trans ((hdrainer u).mp hu))
  · have hnone : d = none := by
      refine eq_none_iff_forall_ne_some.mpr fun t ht => ?_
      have hfreet := hfree t
      simp [(hdrainer t).mpr ht] at hfreet
    have hpending := h.idle (by rw [hd, hnone]; rfl)
    refine ⟨hpending, ?_⟩
    rw [h.last, h.newest, Publisher.top, hpending]
    rfl

end Topology
