/-
Stream delivery and silent loss.

A run interleaves `enqueueStream` calls, whose events carry strictly increasing
non-zero sequence numbers, with `next` calls.  `Covers` is the delivery contract:
once the queue is drained, the emitted data and gap events account for every
number from the first to the last enqueued one exactly once and in increasing
order.

The contract fails in one situation only.  After a source gap has been emitted,
the event behind it is still deferred; an event that arrives in that moment and
jumps again overwrites it, and one that overflows the queue opens a new gap in
front of it.  `Timely` rules this moment out, and

* `covers_iff_timely` — a drained run meets the contract exactly when every
  `enqueueStream` call in it was timely.

The proof follows `plan`, the list of events the queue would emit if nothing else
arrived: `next` always pops its head, so `emitted ++ plan` only changes when an
event is enqueued.
-/
import MyFlowHub.Delivery
import MyFlowHub.Runs
import MyFlowHub.Tiling

open Runs Tiling List

namespace Delivery

open Event

/-! ### The contract -/

/-- First sequence number an emitted event accounts for. -/
def Event.low (e : Event) : ℕ :=
  if e.kind = .gap then e.gapFrom.toNat else e.sequence.toNat

/-- Last sequence number an emitted event accounts for. -/
def Event.high (e : Event) : ℕ :=
  if e.kind = .gap then e.gapTo.toNat else e.sequence.toNat

/-- The number is the sequence of a data event, or inside the range of a gap. -/
def Event.Accounts (e : Event) (n : ℕ) : Prop := e.low ≤ n ∧ n ≤ e.high

/-- `n` lies between the first and the last enqueued sequence number. -/
def Spanned (enqueued : List Event) (n : ℕ) : Prop :=
  (∃ a ∈ enqueued, a.sequence.toNat ≤ n) ∧ ∃ z ∈ enqueued, n ≤ z.sequence.toNat

/-- **The delivery contract** of a drained stream subscription. -/
structure Covers (enqueued emitted : List Event) : Prop where
  /-- every number in the span belongs to exactly one emitted event -/
  exactlyOnce : ∀ n, Spanned enqueued n →
    ∃! i : Fin emitted.length, (emitted.get i).Accounts n
  /-- emitted events account for nothing outside the span -/
  onlySpanned : ∀ e ∈ emitted, ∀ n, e.Accounts n → Spanned enqueued n
  /-- an emitted event is a gap or one of the enqueued events -/
  genuine : ∀ e ∈ emitted, e.kind = .gap ∨ e ∈ enqueued
  /-- an event that was not emitted lies inside a gap -/
  noSilentLoss : ∀ e ∈ enqueued, e ∈ emitted ∨
    ∃ g ∈ emitted, g.kind = .gap ∧ g.Accounts e.sequence.toNat
  /-- the numbers accounted for increase in emission order -/
  increasing : emitted.Pairwise fun a b => a.high < b.low

/-! ### Runs of one subscription -/

inductive StreamOp where
  | enqueueStream (event : Event)
  | next
  deriving DecidableEq, Repr

structure StreamRun where
  queue : Delivery
  emitted : List Event
  deriving DecidableEq, Repr

def StreamRun.step (s : StreamRun) : StreamOp → StreamRun
  | .enqueueStream event => { s with queue := s.queue.enqueueStream event }
  | .next =>
    match s.queue.next with
    | (some emission, queue) => ⟨queue, s.emitted ++ [emission.event]⟩
    | (none, queue) => { s with queue := queue }

def StreamRun.start (resource : ResourceID) (capacity : ℕ) : StreamRun :=
  ⟨newDelivery resource capacity, []⟩

def StreamRun.after (s : StreamRun) (ops : List StreamOp) : StreamRun :=
  ops.foldl StreamRun.step s

def enqueued : List StreamOp → List Event
  | [] => []
  | .enqueueStream event :: ops => event :: enqueued ops
  | .next :: ops => enqueued ops

/-- `next` reports that nothing is left. -/
def StreamRun.Drained (s : StreamRun) : Prop := s.queue.next.1 = none

instance (s : StreamRun) : Decidable s.Drained := inferInstanceAs (Decidable (_ = _))

/-- An `enqueueStream` call is timely unless it finds an event deferred behind a
gap that has already been emitted; then it must continue that event's sequence
and find room in the queue. -/
def Timely (s : StreamRun) : StreamOp → Prop
  | .enqueueStream event =>
    s.queue.gapFrom = 0 → s.queue.deferredStream ≠ none →
      event.sequence ≤ s.queue.lastStream + 1 ∧ s.queue.pending.length < s.queue.capacity
  | .next => True

instance (s : StreamRun) : DecidablePred (Timely s)
  | .enqueueStream _ => inferInstanceAs (Decidable (_ → _ → _))
  | .next => inferInstanceAs (Decidable True)

/-! ### The plan of a queue -/

/-- The events the queue would emit if nothing else arrived, in order. -/
def plan (d : Delivery) : List Event :=
  if d.gapFrom = 0 then d.deferredStream.toList ++ d.pending
  else d.pending ++ d.gapEvent :: d.deferredStream.toList

/-- Facts about the queue of a stream run that hold at every moment, timely or
not. -/
structure Shape (d : Delivery) : Prop where
  room : 1 ≤ d.capacity
  running : d.closed = false
  noTerminal : d.terminal = none
  noVariable : d.latestVariable = none
  pendingData : ∀ e ∈ d.pending, e.kind = .data
  deferredData : ∀ x ∈ d.deferredStream, x.kind = .data ∧ x.sequence ≤ d.lastStream
  -- an open gap ends at the last number seen, or just before the deferred event
  gapEnd : d.gapFrom ≠ 0 → d.gapTo = d.lastStream ∨
    ∃ x, d.deferredStream = some x ∧ x.sequence = d.lastStream ∧
      d.gapTo.toNat + 1 = d.lastStream.toNat
  -- what was queued behind a deferred event is newer than it
  deferredFirst : d.gapFrom = 0 → ∀ x ∈ d.deferredStream, ∀ y ∈ d.pending,
    x.sequence < y.sequence

theorem shape_newDelivery (resource : ResourceID) {capacity : ℕ} (h : 1 ≤ capacity) :
    Shape (newDelivery resource capacity) := by
  constructor <;> simp [newDelivery, closed, h]

variable {e : Event} {enq : List Event} {ops : List StreamOp} {s : StreamRun} {n : ℕ}

theorem low_of_data (h : e.kind = .data) : e.low = e.sequence.toNat := by
  rw [low, if_neg (by rw [h]; decide)]

theorem high_of_data (h : e.kind = .data) : e.high = e.sequence.toNat := by
  rw [high, if_neg (by rw [h]; decide)]

@[simp] theorem gapEvent_low (d : Delivery) : d.gapEvent.low = d.gapFrom.toNat := rfl

@[simp] theorem gapEvent_high (d : Delivery) : d.gapEvent.high = d.gapTo.toNat := rfl

theorem next_spec {d : Delivery} (h : Shape d) :
    (d.plan = [] ∧ d.next = (none, d)) ∨
      ∃ e rest d', d.plan = e :: rest ∧ d.next = (some ⟨e, false⟩, d') ∧
        d'.plan = rest ∧ Shape d' ∧ d'.lastStream = d.lastStream := by
  -- `next` pops the head of the plan and touches nothing the stream branches read
  have hfail : d.failed = false := by
    have := h.running
    rw [closed, Bool.or_eq_false_iff] at this
    exact this.1
  have hnext : d.next = d.nextQueued := by rw [next, hfail]; rfl
  rw [hnext]
  by_cases hgap : d.gapFrom = 0
  · rcases hdef : d.deferredStream with _ | x
    · rcases hpend : d.pending with _ | ⟨y, rest⟩
      · left
        refine ⟨by simp [plan, hgap, hdef, hpend], ?_⟩
        simp [nextQueued, nextQueued.nextPending, takeTerminal, hgap, hdef, hpend,
          h.noVariable, h.noTerminal]
      · right
        refine ⟨y, rest, { d with pending := rest }, by simp [plan, hgap, hdef, hpend],
          by simp [nextQueued, nextQueued.nextPending, hdef, hpend],
          by simp [plan, hgap, hdef], ?_, rfl⟩
        refine { h with pendingData := ?_, deferredFirst := ?_ }
        · exact fun e he => h.pendingData e (hpend ▸ mem_cons_of_mem y he)
        · intro _ x hx
          simp [hdef] at hx
    · right
      refine ⟨x, d.pending, { d with deferredStream := none }, by simp [plan, hgap, hdef],
        by simp [nextQueued, hgap, hdef], by simp [plan, hgap], ?_, rfl⟩
      exact ⟨h.room, h.running, h.noTerminal, h.noVariable, h.pendingData, by simp,
        fun hc => absurd hgap hc, by simp⟩
  · -- a gap is open, so the deferred event waits and `next` looks at `pending` first
    have hq : d.nextQueued = nextQueued.nextPending d := by
      rw [nextQueued]
      rcases d.deferredStream with _ | x
      · rfl
      · exact if_neg hgap
    rw [hq]
    right
    rcases hpend : d.pending with _ | ⟨y, rest⟩
    · refine ⟨d.gapEvent, d.deferredStream.toList,
        { d with gapFrom := 0, gapTo := 0, gapReason := "" }, by simp [plan, hgap, hpend],
        by simp [nextQueued.nextPending, hgap, hpend], by simp [plan, hpend], ?_, rfl⟩
      exact { h with gapEnd := by simp, deferredFirst := by simp [hpend] }
    · refine ⟨y, rest ++ d.gapEvent :: d.deferredStream.toList, { d with pending := rest },
        by simp [plan, hgap, hpend], by simp [nextQueued.nextPending, hpend],
        by simp [plan, hgap, gapEvent], ?_, rfl⟩
      refine { h with pendingData := ?_, deferredFirst := fun hc => absurd hc hgap }
      exact fun e he => h.pendingData e (hpend ▸ mem_cons_of_mem y he)

/-- The next event of a source whose numbers grow. -/
def Fresh (s : StreamRun) : StreamOp → Prop
  | .enqueueStream event => event.kind = .data ∧ s.queue.lastStream < event.sequence
  | .next => True

/-- What `enqueueStream` does to the plan, branch by branch. -/
inductive Enqueued (d : Delivery) (e : Event) (plan' : List Event) : Prop
  | jump (g : Event) (hgap : d.gapFrom = 0) (hlast : d.lastStream.toNat + 1 < e.sequence.toNat)
      (hkind : g.kind = .gap) (hlow : g.low = d.lastStream.toNat + 1)
      (hhigh : g.high + 1 = e.sequence.toNat) (hseen : d.lastStream ≠ 0)
      (hplan : plan' = d.pending ++ [g, e])
  | swallow (g : Event) (hgap : d.gapFrom ≠ 0) (hkind : g.kind = .gap)
      (hlow : g.low = d.gapFrom.toNat) (hhigh : g.high = e.sequence.toNat)
      (hplan : plan' = d.pending ++ [g])
  | overflow (g : Event) (hgap : d.gapFrom = 0) (hfull : d.capacity ≤ d.pending.length)
      (hcont : d.lastStream ≠ 0 → e.sequence.toNat = d.lastStream.toNat + 1)
      (hkind : g.kind = .gap) (hlow : g.low = e.sequence.toNat) (hhigh : g.high = e.sequence.toNat)
      (hplan : plan' = d.pending ++ g :: d.deferredStream.toList)
  | queued (hgap : d.gapFrom = 0) (hroom : d.pending.length < d.capacity)
      (hcont : d.lastStream ≠ 0 → e.sequence.toNat = d.lastStream.toNat + 1)
      (hplan : plan' = d.plan ++ [e])

theorem toNat_sub_one {a b : UInt64} (h : a < b) : (b - 1).toNat + 1 = b.toNat := by
  have hab := UInt64.lt_iff_toNat_lt.mp h
  have hone : (1 : UInt64) ≤ b := by
    rw [UInt64.le_iff_toNat_le, UInt64.toNat_one]
    omega
  rw [UInt64.toNat_sub_of_le b 1 hone, UInt64.toNat_one]
  omega

theorem enqueueStream_spec {d : Delivery} (h : Shape d) (hdata : e.kind = .data)
    (hnew : d.lastStream < e.sequence) :
    Shape (d.enqueueStream e) ∧ (d.enqueueStream e).lastStream = e.sequence ∧
      Enqueued d e (d.enqueueStream e).plan := by
  have hnat := UInt64.lt_iff_toNat_lt.mp hnew
  have hnz : e.sequence ≠ 0 := by
    intro hz
    rw [hz, UInt64.toNat_zero] at hnat
    omega
  have hdef : ∀ x ∈ d.deferredStream, x.kind = .data ∧ x.sequence ≤ e.sequence :=
    fun x hx => ⟨(h.deferredData x hx).1,
      UInt64.le_trans (h.deferredData x hx).2 (UInt64.le_of_lt hnew)⟩
  have hsucc : d.lastStream + 1 ≠ 0 := by
    intro hz
    have := Counter.toNat_add_one_of_lt hnew
    rw [hz, UInt64.toNat_zero] at this
    omega
  rw [enqueueStream, h.running]
  by_cases hjump : d.lastStream ≠ 0 ∧ e.sequence > d.lastStream + 1 ∧ d.gapFrom = 0
  · -- the source has skipped numbers: the gap goes out before the event
    rw [if_neg (by decide), if_pos hjump]
    obtain ⟨hlast, hgt, hgap⟩ := hjump
    have hgt' := UInt64.lt_iff_toNat_lt.mp hgt
    rw [Counter.toNat_add_one_of_lt hnew] at hgt'
    refine ⟨{ h with deferredData := ?_, gapEnd := ?_, deferredFirst := ?_ }, rfl, ?_⟩
    · intro x hx
      obtain rfl : e = x := by simpa using hx
      exact ⟨hdata, UInt64.le_refl _⟩
    · exact fun _ => .inr ⟨e, rfl, rfl, toNat_sub_one hnew⟩
    · exact fun hz => absurd hz hsucc
    · refine .jump (gapRange d.resource (d.lastStream + 1) (e.sequence - 1) "source_gap")
        hgap hgt' rfl (Counter.toNat_add_one_of_lt hnew) (toNat_sub_one hnew) hlast ?_
      rw [plan, if_neg hsucc]
      rfl
  · rw [if_neg (by decide), if_neg hjump]
    by_cases hgap : d.gapFrom ≠ 0
    · -- a gap that nobody was told of grows by the event
      rw [if_pos hgap]
      refine ⟨⟨h.room, h.running, h.noTerminal, h.noVariable, h.pendingData, by simp,
        fun _ => .inl rfl, fun hz => absurd hz hgap⟩, rfl, ?_⟩
      refine .swallow (gapRange d.resource d.gapFrom e.sequence d.gapReason) hgap rfl rfl rfl ?_
      rw [plan, if_neg hgap]
      rfl
    · rw [if_neg hgap]
      rw [not_not] at hgap
      have hcont : d.lastStream ≠ 0 → e.sequence.toNat = d.lastStream.toNat + 1 := by
        intro hlast
        have hle : ¬ d.lastStream + 1 < e.sequence := fun hgt => hjump ⟨hlast, hgt, hgap⟩
        rw [UInt64.lt_iff_toNat_lt, Counter.toNat_add_one_of_lt hnew] at hle
        omega
      by_cases hfull : d.pending.length ≥ d.capacity
      · -- without room the event starts a gap of its own
        rw [if_pos hfull]
        refine ⟨⟨h.room, h.running, h.noTerminal, h.noVariable, h.pendingData, hdef,
          fun _ => .inl rfl, fun hz => absurd hz hnz⟩, rfl, ?_⟩
        refine .overflow (gapRange d.resource e.sequence e.sequence "slow_consumer")
          hgap hfull hcont rfl rfl rfl ?_
        rw [plan, if_neg hnz]
        rfl
      · rw [if_neg hfull]
        refine ⟨⟨h.room, h.running, h.noTerminal, h.noVariable, ?_, hdef,
          fun hz => absurd hgap hz, ?_⟩, rfl, ?_⟩
        · intro y hy
          rcases mem_append.mp hy with hy | hy
          · exact h.pendingData y hy
          · rw [mem_singleton.mp hy]
            exact hdata
        · intro _ x hx y hy
          rcases mem_append.mp hy with hy | hy
          · exact h.deferredFirst hgap x hx y hy
          · rw [mem_singleton.mp hy]
            exact UInt64.lt_of_le_of_lt (h.deferredData x hx).2 hnew
        · refine .queued hgap (not_le.mp hfull) hcont ?_
          simp [plan, hgap]

/-! ### Timely runs keep the tiling -/

/-- What the queue has emitted, followed by what it still plans to emit. -/
def StreamRun.trace (s : StreamRun) : List Event := s.emitted ++ s.queue.plan

/-- The invariant of a timely run: the trace tiles the span of what has been
enqueued. -/
structure Sound (enq : List Event) (s : StreamRun) : Prop where
  shape : Shape s.queue
  genuine : ∀ e ∈ s.trace, e.kind = .gap ∨ e ∈ enq
  tiled : (enq = [] ∧ s.queue.lastStream = 0 ∧ s.trace = []) ∨
    ∃ first, Tiles low high first s.trace (s.queue.lastStream.toNat + 1) ∧
      s.queue.lastStream ≠ 0 ∧ (∃ a ∈ enq, a.sequence.toNat = first) ∧
      (∃ z ∈ enq, z.sequence = s.queue.lastStream) ∧
      ∀ e ∈ enq, first ≤ e.sequence.toNat ∧ e.sequence.toNat ≤ s.queue.lastStream.toNat

theorem sound_start (resource : ResourceID) {capacity : ℕ} (h : 1 ≤ capacity) :
    Sound [] (StreamRun.start resource capacity) :=
  ⟨shape_newDelivery resource h, by simp [StreamRun.trace, StreamRun.start, plan, newDelivery],
    .inl ⟨rfl, rfl, rfl⟩⟩

theorem step_next_trace (h : Shape s.queue) :
    (s.step .next).trace = s.trace ∧ Shape (s.step .next).queue ∧
      (s.step .next).queue.lastStream = s.queue.lastStream := by
  rcases next_spec h with ⟨-, hnext⟩ | ⟨e, rest, d', hplan, hnext, hplan', hshape, hlast⟩
  · have hstep : s.step .next = s := by
      simp only [StreamRun.step, hnext]
    rw [hstep]
    exact ⟨rfl, h, rfl⟩
  · simp only [StreamRun.step, hnext]
    refine ⟨?_, hshape, hlast⟩
    simp [StreamRun.trace, hplan, hplan']

theorem sound_next (h : Sound enq s) : Sound enq (s.step .next) := by
  obtain ⟨htrace, hshape, hlast⟩ := step_next_trace h.shape
  refine ⟨hshape, ?_, ?_⟩
  · rw [htrace]
    exact h.genuine
  · rw [htrace, hlast]
    exact h.tiled

theorem tiled_extend {l : List Event} {last : UInt64} {first : ℕ}
    (hl : Tiles low high first l (e.sequence.toNat + 1)) (hnew : last < e.sequence)
    (hfirst : ∃ a ∈ enq, a.sequence.toNat = first)
    (hall : ∀ x ∈ enq, first ≤ x.sequence.toNat ∧ x.sequence.toNat ≤ last.toNat) :
    ∃ first, Tiles low high first l (e.sequence.toNat + 1) ∧ e.sequence ≠ 0 ∧
      (∃ a ∈ enq ++ [e], a.sequence.toNat = first) ∧
      (∃ z ∈ enq ++ [e], z.sequence = e.sequence) ∧
      ∀ x ∈ enq ++ [e], first ≤ x.sequence.toNat ∧ x.sequence.toNat ≤ e.sequence.toNat := by
  have hnat := UInt64.lt_iff_toNat_lt.mp hnew
  obtain ⟨a, ha, hafirst⟩ := hfirst
  have hbound := hall a ha
  refine ⟨first, hl, ?_, ⟨a, mem_append_left _ ha, hafirst⟩, ⟨e, by simp, rfl⟩, ?_⟩
  · intro hz
    rw [hz, UInt64.toNat_zero] at hnat
    omega
  · intro x hx
    rcases mem_append.mp hx with hx | hx
    · have := hall x hx
      omega
    · rw [mem_singleton.mp hx]
      omega

/-- **A timely event keeps the tiling.** -/
theorem sound_enqueue (h : Sound enq s) (hdata : e.kind = .data)
    (hnew : s.queue.lastStream < e.sequence) (htimely : Timely s (.enqueueStream e)) :
    Sound (enq ++ [e]) (s.step (.enqueueStream e)) := by
  obtain ⟨hshape, hlast, hcase⟩ := enqueueStream_spec h.shape hdata hnew
  have hnat := UInt64.lt_iff_toNat_lt.mp hnew
  have hlow := low_of_data hdata
  have hhigh := high_of_data hdata
  have hold : ∀ x ∈ s.trace, x.kind = .gap ∨ x ∈ enq ++ [e] := fun x hx =>
    (h.genuine x hx).imp id (mem_append_left _)
  have htrace : (s.step (.enqueueStream e)).trace =
      s.emitted ++ (s.queue.enqueueStream e).plan := rfl
  -- a waiting event behind an emitted gap is only met by a contiguous event with room
  have hnone : s.queue.gapFrom = 0 →
      s.queue.lastStream.toNat + 1 < e.sequence.toNat ∨
        s.queue.capacity ≤ s.queue.pending.length → s.queue.deferredStream = none := by
    intro hgap hbad
    by_contra hdef
    obtain ⟨hle, hroom⟩ := htimely hgap hdef
    rw [UInt64.le_iff_toNat_le, Counter.toNat_add_one_of_lt hnew] at hle
    omega
  suffices hgoal : (∀ x ∈ s.emitted ++ (s.queue.enqueueStream e).plan,
        x.kind = .gap ∨ x ∈ enq ++ [e]) ∧
      ∃ first, Tiles low high first (s.emitted ++ (s.queue.enqueueStream e).plan)
        (e.sequence.toNat + 1) ∧ e.sequence ≠ 0 ∧
      (∃ a ∈ enq ++ [e], a.sequence.toNat = first) ∧
      (∃ z ∈ enq ++ [e], z.sequence = e.sequence) ∧
      ∀ x ∈ enq ++ [e], first ≤ x.sequence.toNat ∧ x.sequence.toNat ≤ e.sequence.toNat by
    refine ⟨hshape, ?_, .inr ?_⟩
    · rw [htrace]
      exact hgoal.1
    · rw [htrace, show (s.step (.enqueueStream e)).queue.lastStream = e.sequence from hlast]
      exact hgoal.2
  cases hcase with
  | jump g hgap hlt hkind hglow hghigh hseen hplan =>
    have hd := hnone hgap (.inl hlt)
    have htr : s.trace = s.emitted ++ s.queue.pending := by
      simp [StreamRun.trace, plan, hgap, hd]
    rw [hplan, ← append_assoc, ← htr]
    refine ⟨?_, ?_⟩
    · intro x hx
      rcases mem_append.mp hx with hx | hx
      · exact hold x hx
      · rcases mem_cons.mp hx with rfl | hx
        · exact .inl hkind
        · exact .inr (mem_append_right _ hx)
    · rcases h.tiled with ⟨-, hzero, -⟩ | ⟨first, htile, -, hfirst, -, hall⟩
      · exact absurd hzero hseen
      · refine tiled_extend ?_ hnew hfirst hall
        rw [tiles_append]
        exact ⟨_, htile, hglow, by omega, by omega, by omega, by rw [hhigh]; rfl⟩
  | swallow g hgap hkind hglow hghigh hplan =>
    have htr : s.trace = (s.emitted ++ s.queue.pending) ++
        s.queue.gapEvent :: s.queue.deferredStream.toList := by
      simp [StreamRun.trace, plan, hgap]
    rw [hplan, ← append_assoc]
    refine ⟨?_, ?_⟩
    · intro x hx
      rcases mem_append.mp hx with hx | hx
      · exact hold x (htr ▸ mem_append_left _ hx)
      · rw [mem_singleton.mp hx]
        exact .inl hkind
    · rcases h.tiled with ⟨-, -, hnil⟩ | ⟨first, htile, -, hfirst, -, hall⟩
      · rw [htr] at hnil
        exact absurd hnil (by simp)
      · refine tiled_extend ?_ hnew hfirst hall
        rw [htr, tiles_append] at htile
        obtain ⟨b, hpre, hblow, hble, hrest⟩ := htile
        have hend := hrest.le
        rw [gapEvent_low] at hblow hble
        rw [gapEvent_high] at hble hend
        rw [tiles_append]
        exact ⟨b, hpre, by omega, by omega, by rw [hghigh]; rfl⟩
  | overflow g hgap hfull hcont hkind hglow hghigh hplan =>
    have hd := hnone hgap (.inr hfull)
    have htr : s.trace = s.emitted ++ s.queue.pending := by
      simp [StreamRun.trace, plan, hgap, hd]
    rw [hplan, hd, ← append_assoc, ← htr]
    refine ⟨?_, ?_⟩
    · intro x hx
      rcases mem_append.mp hx with hx | hx
      · exact hold x hx
      · obtain rfl : x = g := by simpa using hx
        exact .inl hkind
    · rcases h.tiled with ⟨-, -, hnil⟩ | ⟨first, htile, hseen, hfirst, -, hall⟩
      · rw [htr] at hnil
        have hpend := (append_eq_nil_iff.mp hnil).2
        have hroom := h.shape.room
        rw [hpend, length_nil] at hfull
        omega
      · refine tiled_extend ?_ hnew hfirst hall
        have := hcont hseen
        rw [tiles_append]
        exact ⟨_, htile, by omega, by omega, by rw [hghigh]; rfl⟩
  | queued hgap hroom hcont hplan =>
    rw [hplan, ← append_assoc]
    refine ⟨?_, ?_⟩
    · intro x hx
      rcases mem_append.mp hx with hx | hx
      · exact hold x hx
      · exact .inr (mem_append_right _ hx)
    · rcases h.tiled with ⟨rfl, -, hnil⟩ | ⟨first, htile, hseen, hfirst, -, hall⟩
      · rw [StreamRun.trace] at hnil
        rw [hnil]
        refine ⟨e.sequence.toNat, ?_, ?_, ⟨e, by simp, rfl⟩, ⟨e, by simp, rfl⟩, by simp⟩
        · exact ⟨hlow, by omega, by rw [hhigh]; rfl⟩
        · intro hz
          rw [hz, UInt64.toNat_zero] at hnat
          omega
      · refine tiled_extend ?_ hnew hfirst hall
        have := hcont hseen
        rw [tiles_append]
        exact ⟨_, htile, by omega, by omega, by rw [hhigh]; rfl⟩

/-- **Timely runs keep the tiling**, from any sound state. -/
theorem sound_run (h : Sound enq s) (hfresh : Along StreamRun.step Fresh s ops)
    (htimely : Along StreamRun.step Timely s ops) : Sound (enq ++ enqueued ops) (s.after ops) := by
  induction ops generalizing enq s with
  | nil => simpa [enqueued, StreamRun.after] using h
  | cons op ops ih =>
    cases op with
    | enqueueStream e =>
      obtain ⟨⟨hdata, hnew⟩, hfresh⟩ := hfresh
      have hstep := sound_enqueue h hdata hnew htimely.1
      have := ih hstep hfresh htimely.2
      rwa [append_assoc] at this
    | next => exact ih (sound_next h) hfresh.2 htimely.2

theorem plan_of_drained (h : Shape s.queue) (hdrained : s.Drained) : s.queue.plan = [] := by
  rcases next_spec h with ⟨hplan, -⟩ | ⟨e, rest, d', -, hnext, -⟩
  · exact hplan
  · rw [StreamRun.Drained, hnext] at hdrained
    exact absurd hdrained (by simp)

theorem covers_of_sound (h : Sound enq s) (hdrained : s.Drained) (hdata : ∀ e ∈ enq, e.kind = .data)
    (hinc : enq.Pairwise (·.sequence < ·.sequence)) : Covers enq s.emitted := by
  have htrace : s.trace = s.emitted := by
    rw [StreamRun.trace, plan_of_drained h.shape hdrained, append_nil]
  have hgenuine := h.genuine
  have htiled := h.tiled
  rw [htrace] at hgenuine htiled
  rcases htiled with ⟨rfl, -, hnil⟩ | ⟨first, htile, -, ⟨a, ha, hafirst⟩, ⟨z, hz, hzlast⟩, hall⟩
  · rw [hnil]
    constructor <;> simp [Spanned]
  · refine ⟨?_, ?_, hgenuine, ?_, htile.pairwise⟩
    · rintro n ⟨⟨x, hx, hxn⟩, y, hy, hny⟩
      have hxa := hall x hx
      have hya := hall y hy
      exact htile.existsUnique (by omega) (by omega)
    · rintro e he n ⟨hlo, hhi⟩
      have hb := htile.bounds he
      refine ⟨⟨a, ha, by omega⟩, z, hz, ?_⟩
      rw [hzlast]
      omega
    · intro e he
      have hb := hall e he
      obtain ⟨x, hx, hlo, hhi⟩ := htile.exists_mem (n := e.sequence.toNat) hb.1 (by omega)
      by_cases hgap : x.kind = .gap
      · exact .inr ⟨x, hx, hgap, hlo, hhi⟩
      · -- a data event with the same number is the same event
        have hxenq := (hgenuine x hx).resolve_left hgap
        rw [low_of_data (hdata x hxenq)] at hlo
        rw [high_of_data (hdata x hxenq)] at hhi
        have hdistinct : enq.Pairwise fun p q => p.sequence ≠ q.sequence :=
          hinc.imp fun hlt => UInt64.ne_of_lt hlt
        have : Std.Symm fun p q : Event => p.sequence ≠ q.sequence := ⟨fun _ _ => Ne.symm⟩
        have hxe : x = e := by
          by_contra hne
          exact hdistinct.forall hxenq he hne (UInt64.toNat_inj.mp (by omega))
        exact .inl (hxe ▸ hx)

/-! ### An untimely event breaks the contract for good -/

/-- The number `n` has been seen, and whatever accounts for it comes after something
newer. -/
structure Broken (n : ℕ) (s : StreamRun) : Prop where
  shape : Shape s.queue
  seen : n ≤ s.queue.lastStream.toNat
  ordered : ∀ x ∈ s.trace, x.low ≤ x.high
  overtaken : Overtaken low high n s.trace

theorem broken_next (h : Broken n s) : Broken n (s.step .next) := by
  obtain ⟨htrace, hshape, hlast⟩ := step_next_trace h.shape
  refine ⟨hshape, ?_, ?_, ?_⟩
  · rw [hlast]
    exact h.seen
  · rw [htrace]
    exact h.ordered
  · rw [htrace]
    exact h.overtaken

theorem ordered_enqueue (hshape : Shape s.queue) (hdata : e.kind = .data)
    (hnew : s.queue.lastStream < e.sequence) (h : ∀ x ∈ s.trace, x.low ≤ x.high) :
    ∀ x ∈ (s.step (.enqueueStream e)).trace, x.low ≤ x.high := by
  obtain ⟨-, -, hcase⟩ := enqueueStream_spec hshape hdata hnew
  have hnat := UInt64.lt_iff_toNat_lt.mp hnew
  have hself : e.low ≤ e.high := by rw [low_of_data hdata, high_of_data hdata]
  have hpend : ∀ x ∈ s.emitted ++ s.queue.pending, x.low ≤ x.high := by
    intro x hx
    rcases mem_append.mp hx with hx | hx
    · exact h x (mem_append_left _ hx)
    · rw [low_of_data (hshape.pendingData x hx), high_of_data (hshape.pendingData x hx)]
  intro x hx
  change x ∈ s.emitted ++ (s.queue.enqueueStream e).plan at hx
  cases hcase with
  | jump g hgap hlt hkind hglow hghigh hseen hplan =>
    rw [hplan, ← append_assoc, mem_append] at hx
    rcases hx with hx | hx
    · exact hpend x hx
    · rcases mem_pair.mp hx with rfl | rfl
      · omega
      · exact hself
  | swallow g hgap hkind hglow hghigh hplan =>
    rw [hplan, ← append_assoc, mem_append] at hx
    rcases hx with hx | hx
    · exact hpend x hx
    · have hopen := h s.queue.gapEvent (by simp [StreamRun.trace, plan, hgap])
      rw [gapEvent_low, gapEvent_high] at hopen
      have hend : s.queue.gapTo.toNat ≤ s.queue.lastStream.toNat := by
        rcases hshape.gapEnd hgap with heq | ⟨y, -, -, heq⟩
        · rw [heq]
        · omega
      rw [mem_singleton.mp hx]
      omega
  | overflow g hgap hfull hcont hkind hglow hghigh hplan =>
    rw [hplan, ← append_assoc, mem_append] at hx
    rcases hx with hx | hx
    · exact hpend x hx
    · rcases mem_cons.mp hx with rfl | hx
      · omega
      · exact h x (by simpa [StreamRun.trace, plan, hgap] using Or.inr (Or.inl hx))
  | queued hgap hroom hcont hplan =>
    rw [hplan, ← append_assoc, mem_append] at hx
    rcases hx with hx | hx
    · exact h x hx
    · rw [mem_singleton.mp hx]
      exact hself

/-- The number stays overtaken: later events only ever remove what is in front of the
queue, widen an open gap at its end, or add numbers above everything seen. -/
theorem broken_enqueue (h : Broken n s) (hdata : e.kind = .data)
    (hnew : s.queue.lastStream < e.sequence) : Broken n (s.step (.enqueueStream e)) := by
  obtain ⟨hshape, hlast, hcase⟩ := enqueueStream_spec h.shape hdata hnew
  have hnat := UInt64.lt_iff_toNat_lt.mp hnew
  have hseen := h.seen
  have hlow := low_of_data hdata
  refine ⟨hshape, ?_, ordered_enqueue h.shape hdata hnew h.ordered, ?_⟩
  · rw [show (s.step (.enqueueStream e)).queue.lastStream = e.sequence from hlast]
    omega
  -- with no gap open, taking out the deferred event leaves `n` overtaken
  have hdrop : s.queue.gapFrom = 0 →
      Overtaken low high n (s.emitted ++ s.queue.pending) := by
    intro hgap
    have hover := h.overtaken
    rw [StreamRun.trace, plan, if_pos hgap] at hover
    cases hdef : s.queue.deferredStream with
    | none =>
      rw [hdef] at hover
      exact hover
    | some z =>
      rw [hdef] at hover
      refine hover.erase fun y hy hlo _ => ?_
      have hlt := UInt64.lt_iff_toNat_lt.mp (h.shape.deferredFirst hgap z hdef y hy)
      rw [low_of_data (h.shape.pendingData y hy)] at hlo
      rw [low_of_data (h.shape.deferredData z hdef).1]
      omega
  show Overtaken low high n (s.emitted ++ (s.queue.enqueueStream e).plan)
  cases hcase with
  | jump g hgap hlt hkind hglow hghigh hne hplan =>
    rw [hplan, ← append_assoc]
    refine (hdrop hgap).append fun x hx => ?_
    rcases mem_pair.mp hx with rfl | rfl <;> omega
  | swallow g hgap hkind hglow hghigh hplan =>
    have hover := h.overtaken
    rw [StreamRun.trace, plan, if_neg hgap, ← append_assoc] at hover
    have hopen : Overtaken low high n
        ((s.emitted ++ s.queue.pending) ++ [s.queue.gapEvent]) :=
      Overtaken.of_append (m := s.queue.deferredStream.toList) (by simpa using hover)
    obtain ⟨hbefore, hin⟩ := overtaken_concat.mp hopen
    rw [hplan, ← append_assoc, overtaken_concat]
    refine ⟨hbefore, fun hlo _ => ?_⟩
    by_cases hto : n ≤ s.queue.gapTo.toNat
    · exact hin (by rw [gapEvent_low]; omega) hto
    · -- then `n` is the deferred event that the gap now swallows
      rcases h.shape.gapEnd hgap with heq | ⟨x, hdef, hxlast, hxto⟩
      · rw [heq] at hto
        exact absurd hseen hto
      · have hxdata := (h.shape.deferredData x hdef).1
        rw [hdef] at hover
        obtain ⟨y, hy, hny⟩ := hover ((s.emitted ++ s.queue.pending) ++ [s.queue.gapEvent]) x []
          (by simp) (by rw [low_of_data hxdata, hxlast]; omega)
          (by rw [high_of_data hxdata, hxlast]; exact hseen)
        rcases mem_append.mp hy with hy | hy
        · exact ⟨y, hy, hny⟩
        · rw [mem_singleton.mp hy, gapEvent_low] at hny
          omega
  | overflow g hgap hfull hcont hkind hglow hghigh hplan =>
    have hfront : Overtaken low high n ((s.emitted ++ s.queue.pending) ++ [g]) := by
      refine (hdrop hgap).append fun x hx => ?_
      rw [mem_singleton.mp hx]
      omega
    rw [hplan]
    cases hdef : s.queue.deferredStream with
    | none => simpa using hfront
    | some z =>
      have hcat : s.emitted ++ (s.queue.pending ++ g :: (some z).toList) =
          ((s.emitted ++ s.queue.pending) ++ [g]) ++ [z] := by simp
      rw [hcat, overtaken_concat]
      exact ⟨hfront, fun _ _ => ⟨g, by simp, by omega⟩⟩
  | queued hgap hroom hcont hplan =>
    rw [hplan, ← append_assoc]
    refine h.overtaken.append fun x hx => ?_
    rw [mem_singleton.mp hx]
    omega

theorem broken_run (h : Broken n s) (hfresh : Along StreamRun.step Fresh s ops) :
    Broken n (s.after ops) := by
  have hstep : ∀ s op, Broken n s → Fresh s op → Broken n (s.step op) := by
    intro s op hs hop
    cases op with
    | enqueueStream e => exact broken_enqueue hs hop.1 hop.2
    | next => exact broken_next hs
  exact foldl_along hstep h hfresh

/-- **An untimely event overtakes the deferred one.** -/
theorem exists_broken_of_untimely (h : Sound enq s) (hdata : e.kind = .data)
    (hnew : s.queue.lastStream < e.sequence) (huntimely : ¬ Timely s (.enqueueStream e)) :
    ∃ x ∈ enq, Broken x.sequence.toNat (s.step (.enqueueStream e)) := by
  simp only [Timely, Classical.not_imp] at huntimely
  obtain ⟨hgap, hdef, hbad⟩ := huntimely
  obtain ⟨x, hx⟩ := Option.ne_none_iff_exists'.mp hdef
  obtain ⟨hxdata, hxlast⟩ := h.shape.deferredData x hx
  have hxlow := low_of_data hxdata
  have hxhigh := high_of_data hxdata
  have hnat := UInt64.lt_iff_toNat_lt.mp hnew
  have hxnat := UInt64.le_iff_toNat_le.mp hxlast
  have hlow := low_of_data hdata
  have htrace : s.trace = s.emitted ++ x :: s.queue.pending := by
    simp [StreamRun.trace, plan, hgap, hx]
  have hxmem : x ∈ s.trace := by simp [htrace]
  rcases h.tiled with ⟨-, -, hnil⟩ | ⟨first, htile, hseen, -⟩
  · rw [hnil] at hxmem
    exact absurd hxmem (by simp)
  obtain ⟨hshape, hlast, hcase⟩ := enqueueStream_spec h.shape hdata hnew
  -- in the tiling, nothing but `x` itself accounts for its number
  have hpair := htile.pairwise
  rw [htrace] at hpair
  obtain ⟨-, hback, hfront⟩ := pairwise_append.mp hpair
  have hmissing : Overtaken low high x.sequence.toNat
      (s.emitted ++ s.queue.pending) := by
    refine overtaken_of_forall fun y hy => ?_
    rintro ⟨hlo, hhi⟩
    rcases mem_append.mp hy with hy | hy
    · have := hfront y hy x mem_cons_self
      omega
    · have := (pairwise_cons.mp hback).1 y hy
      omega
  refine ⟨x, (h.genuine x hxmem).resolve_left (by rw [hxdata]; decide), hshape, ?_,
    ordered_enqueue h.shape hdata hnew fun y hy => (htile.bounds hy).2.1, ?_⟩
  · rw [show (s.step (.enqueueStream e)).queue.lastStream = e.sequence from hlast]
    omega
  show Overtaken low high x.sequence.toNat
    (s.emitted ++ (s.queue.enqueueStream e).plan)
  cases hcase with
  | jump g _ hlt _ hglow _ _ hplan =>
    rw [hplan, ← append_assoc]
    refine hmissing.append fun y hy => ?_
    rcases mem_pair.mp hy with rfl | rfl <;> omega
  | swallow _ hopen => exact absurd hgap hopen
  | overflow g _ _ _ _ hglow _ hplan =>
    have hcat : s.emitted ++ (s.queue.pending ++ g :: s.queue.deferredStream.toList) =
        ((s.emitted ++ s.queue.pending) ++ [g]) ++ [x] := by simp [hx]
    rw [hplan, hcat, overtaken_concat]
    refine ⟨hmissing.append fun y hy => ?_, fun _ _ => ⟨g, by simp, by omega⟩⟩
    rw [mem_singleton.mp hy]
    omega
  | queued _ hroom hcont _ =>
    refine absurd ⟨?_, hroom⟩ hbad
    rw [UInt64.le_iff_toNat_le, Counter.toNat_add_one_of_lt hnew, hcont hseen]

theorem not_covers_of_broken {x : Event} (h : Broken x.sequence.toNat s) (hx : x ∈ enq)
    (hdrained : s.Drained) : ¬ Covers enq s.emitted := by
  intro hcovers
  have htrace : s.trace = s.emitted := by
    rw [StreamRun.trace, plan_of_drained h.shape hdrained, append_nil]
  have hover := h.overtaken
  have hordered := h.ordered
  rw [htrace] at hover hordered
  obtain ⟨i, ⟨hlo, hhi⟩, -⟩ := hcovers.exactlyOnce _ ⟨⟨x, hx, le_rfl⟩, x, hx, le_rfl⟩
  exact not_overtaken hcovers.increasing (get_mem _ i) hlo hhi hordered hover

/-! ### The contract, exactly -/

theorem enqueued_append (as bs : List StreamOp) :
    enqueued (as ++ bs) = enqueued as ++ enqueued bs := by
  induction as with
  | nil => rfl
  | cons op as ih => cases op <;> simp [enqueued, ih]

theorem along_fresh (h : Shape s.queue)
    (hdata : ∀ e ∈ enqueued ops, e.kind = .data ∧ s.queue.lastStream < e.sequence)
    (hinc : (enqueued ops).Pairwise (·.sequence < ·.sequence)) :
    Along StreamRun.step Fresh s ops := by
  induction ops generalizing s with
  | nil => trivial
  | cons op ops ih =>
    cases op with
    | enqueueStream e =>
      obtain ⟨hkind, hnew⟩ := hdata e mem_cons_self
      obtain ⟨hbelow, hrest⟩ := pairwise_cons.mp hinc
      obtain ⟨hshape, hlast, -⟩ := enqueueStream_spec h hkind hnew
      refine ⟨⟨hkind, hnew⟩, ih hshape (fun y hy => ⟨?_, ?_⟩) hrest⟩
      · exact (hdata y (mem_cons_of_mem e hy)).1
      · rw [show (s.step (.enqueueStream e)).queue.lastStream = e.sequence from hlast]
        exact hbelow y hy
    | next =>
      obtain ⟨-, hshape, hlast⟩ := step_next_trace h
      refine ⟨trivial, ih hshape (fun y hy => ?_) hinc⟩
      rw [hlast]
      exact hdata y hy

/-- **Silent loss, exactly.**  A drained run over increasing non-zero numbers meets
the delivery contract if and only if each of its `enqueueStream` calls was timely. -/
theorem covers_iff_timely (resource : ResourceID) (capacity : ℕ) (hcap : 1 ≤ capacity)
    (ops : List StreamOp) (hdata : ∀ e ∈ enqueued ops, e.kind = .data ∧ e.sequence ≠ 0)
    (hinc : (enqueued ops).Pairwise (·.sequence < ·.sequence))
    (hdrained : ((StreamRun.start resource capacity).after ops).Drained) :
    Covers (enqueued ops) ((StreamRun.start resource capacity).after ops).emitted ↔
      Along StreamRun.step Timely (StreamRun.start resource capacity) ops := by
  have hstart := sound_start resource hcap
  have hfresh : Along StreamRun.step Fresh (StreamRun.start resource capacity) ops := by
    refine along_fresh hstart.shape (fun e he => ⟨(hdata e he).1, ?_⟩) hinc
    exact UInt64.pos_iff_ne_zero.mpr (hdata e he).2
  constructor
  · intro hcovers
    by_contra hnot
    obtain ⟨pre, op, post, rfl, hpre, hbad⟩ := exists_first_of_not_along hnot
    obtain ⟨hfpre, hfop, hfpost⟩ := along_append.mp hfresh
    have hsound := sound_run hstart hfpre hpre
    cases op with
    | next => exact hbad trivial
    | enqueueStream e =>
      obtain ⟨x, hx, hbroken⟩ := exists_broken_of_untimely hsound hfop.1 hfop.2 hbad
      have hend := broken_run hbroken hfpost
      have hafter : ((StreamRun.start resource capacity).after (pre ++ .enqueueStream e :: post)) =
          (((StreamRun.start resource capacity).after pre).step (.enqueueStream e)).after post := by
        simp [StreamRun.after, foldl_append]
      rw [hafter] at hcovers hdrained
      refine not_covers_of_broken hend ?_ hdrained hcovers
      rw [enqueued_append]
      exact mem_append_left _ hx
  · intro htimely
    exact covers_of_sound (sound_run hstart hfresh htimely) hdrained
      (fun e he => (hdata e he).1) hinc

def streamEvent (sequence : UInt64) : Event :=
  { kind := .data, resource := ⟨1, "log"⟩, sequence := sequence }

/-- Events 1, 5 and 9 through a queue of capacity 1; event 9 arrives after the gap
`[2, 4]` was emitted and before event 5 was. -/
def secondJump : List StreamOp :=
  [.enqueueStream (streamEvent 1), .next, .enqueueStream (streamEvent 5), .next,
    .enqueueStream (streamEvent 9), .next, .next, .next]

/-- **A second jump loses an event silently**: event 5 is neither emitted nor inside a
gap. -/
theorem secondJump_loses_event :
    (∀ e ∈ enqueued secondJump, e.kind = .data ∧ e.sequence ≠ 0) ∧
      (enqueued secondJump).Pairwise (·.sequence < ·.sequence) ∧
      ((StreamRun.start ⟨1, "log"⟩ 1).after secondJump).Drained ∧
      streamEvent 5 ∈ enqueued secondJump ∧
      (∀ e ∈ ((StreamRun.start ⟨1, "log"⟩ 1).after secondJump).emitted,
        ¬ (e.low ≤ 5 ∧ 5 ≤ e.high)) ∧
      ¬ Covers (enqueued secondJump) ((StreamRun.start ⟨1, "log"⟩ 1).after secondJump).emitted := by
  have hlost : ∀ e ∈ ((StreamRun.start ⟨1, "log"⟩ 1).after secondJump).emitted,
      ¬ (e.low ≤ 5 ∧ 5 ≤ e.high) := by decide
  have hmem : streamEvent 5 ∈ enqueued secondJump := by decide
  refine ⟨by decide, by decide, by decide, hmem, hlost, fun hcovers => ?_⟩
  obtain ⟨i, hi, -⟩ := hcovers.exactlyOnce 5 ⟨⟨_, hmem, le_rfl⟩, _, hmem, le_rfl⟩
  exact hlost _ (get_mem _ i) hi

/-- A run with a jump and an overflow in which every call is timely. -/
def jumpThenOverflow : List StreamOp :=
  [.enqueueStream (streamEvent 1), .enqueueStream (streamEvent 5),
    .enqueueStream (streamEvent 6), .next, .next, .enqueueStream (streamEvent 7), .next]

theorem covers_jumpThenOverflow :
    Covers (enqueued jumpThenOverflow)
      ((StreamRun.start ⟨1, "log"⟩ 1).after jumpThenOverflow).emitted :=
  (covers_iff_timely ⟨1, "log"⟩ 1 le_rfl jumpThenOverflow (by decide) (by decide)
    (by decide)).mpr (by decide)

end Delivery
