/-
The end of a subscription whose lease runs out (`runtime/subscription/delivery.go`).

`expire` records a terminal event that `next` returns when nothing else is queued.  It does not
close the queue: events are taken as before, and are returned before the terminal one.

* `next_eq` — `next` returns the first of what is queued, and then the terminal event;
* `expiry_ends_delivery` — where nothing new is taken after `expire`, the expired event follows
  what was queued;
* `expiry_postponed` — otherwise it can be put off without end.
-/
import MyFlowHub.StreamGap

open Runs List

namespace Delivery

/-! ### What is queued -/

/-- The events the queue would return before a terminal one. -/
def queued (d : Delivery) : List Event := d.plan ++ d.latestVariable.toList

/-- The event of `expire`. -/
def expiredEvent (d : Delivery) (reason : String) : Event :=
  { kind := .expired, resource := d.resource, reason := reason }

/-- A delivery that has not failed, and the end it is heading for. -/
structure Heading (resource : ResourceID) (terminal : Option Event) (d : Delivery) : Prop where
  failed : d.failed = false
  resource : d.resource = resource
  terminal : d.terminal = terminal

/-- **`next` returns the first of what is queued, and then the terminal event.** -/
theorem next_eq {resource : ResourceID} {terminal : Option Event} {d : Delivery}
    (h : Heading resource terminal d) :
    (∃ e rest d', d.queued = e :: rest ∧ d.next = (some ⟨e, false⟩, d') ∧ d'.queued = rest ∧
      Heading resource terminal d') ∨
    d.queued = [] ∧ d.next = d.takeTerminal := by
  have hnext : d.next = d.nextQueued := by
    rw [next, h.failed]
    rfl
  rw [hnext]
  by_cases hgap : d.gapFrom = 0
  · cases hdeferred : d.deferredStream with
    | some x =>
      refine Or.inl ⟨x, d.pending ++ d.latestVariable.toList, { d with deferredStream := none },
        ?_, ?_, ?_, { h with }⟩
      · simp [queued, plan, hgap, hdeferred]
      · simp [nextQueued, hgap, hdeferred]
      · simp [queued, plan, hgap]
    | none =>
      cases hpending : d.pending with
      | cons y rest =>
        refine Or.inl ⟨y, rest ++ d.latestVariable.toList, { d with pending := rest },
          ?_, ?_, ?_, { h with }⟩
        · simp [queued, plan, hgap, hdeferred, hpending]
        · simp [nextQueued, nextQueued.nextPending, hdeferred, hpending]
        · simp [queued, plan, hgap, hdeferred]
      | nil =>
        cases hlatest : d.latestVariable with
        | some v =>
          refine Or.inl ⟨v, [], { d with latestVariable := none }, ?_, ?_, ?_,
            { h with }⟩
          · simp [queued, plan, hgap, hdeferred, hpending, hlatest]
          · simp [nextQueued, nextQueued.nextPending, hgap, hdeferred, hpending, hlatest]
          · simp [queued, plan, hgap, hdeferred, hpending]
        | none =>
          refine Or.inr ⟨?_, ?_⟩
          · simp [queued, plan, hgap, hdeferred, hpending, hlatest]
          · simp [nextQueued, nextQueued.nextPending, hgap, hdeferred, hpending, hlatest]
  · -- a gap is open, so that the deferred event waits behind it
    have hq : d.nextQueued = nextQueued.nextPending d := by
      rw [nextQueued]
      cases d.deferredStream with
      | none => rfl
      | some x => exact if_neg hgap
    rw [hq]
    left
    cases hpending : d.pending with
    | cons y rest =>
      refine ⟨y, rest ++ d.gapEvent :: d.deferredStream.toList ++ d.latestVariable.toList,
        { d with pending := rest }, ?_, ?_, ?_, { h with }⟩
      · simp [queued, plan, hgap, hpending]
      · simp [nextQueued.nextPending, hpending]
      · simp [queued, plan, hgap, gapEvent]
    | nil =>
      refine ⟨d.gapEvent, d.deferredStream.toList ++ d.latestVariable.toList,
        { d with gapFrom := 0, gapTo := 0, gapReason := "" }, ?_, ?_, ?_,
        { h with }⟩
      · simp [queued, plan, hgap, hpending]
      · simp [nextQueued.nextPending, hgap, hpending]
      · simp [queued, plan, hpending]

/-! ### Runs -/

/-- The calls on a delivery that does not fail. -/
inductive ExpiryOp where
  | enqueueSnapshot (event : Event)
  | enqueueVariable (event : Event)
  | enqueueStream (event : Event)
  | expire (reason : String)
  | next
  | stop
  deriving DecidableEq, Repr

/-- The delivery, and what `next` has returned. -/
structure ExpiryRun where
  queue : Delivery
  returned : List Emission
  deriving DecidableEq, Repr

def ExpiryRun.step (s : ExpiryRun) : ExpiryOp → ExpiryRun
  | .enqueueSnapshot event => { s with queue := s.queue.enqueueSnapshot event }
  | .enqueueVariable event => { s with queue := s.queue.enqueueVariable event }
  | .enqueueStream event => { s with queue := s.queue.enqueueStream event }
  | .expire reason => { s with queue := s.queue.expire reason }
  | .next => ⟨s.queue.next.2, s.returned ++ s.queue.next.1.toList⟩
  | .stop => { s with queue := s.queue.stop }

/-- The queue takes nothing new: it is cancelled, or a gap that is open swallows the event. -/
def TakesNothing (s : ExpiryRun) : ExpiryOp → Prop
  | .enqueueSnapshot _ => s.queue.closed = true
  | .enqueueVariable _ => s.queue.closed = true
  | .enqueueStream _ => s.queue.closed = true ∨ s.queue.gapFrom ≠ 0
  | _ => True

/-- An event up to the end of a gap, which may still move. -/
def Event.opened (e : Event) : Event := if e.kind = .gap then { e with gapTo := 0 } else e

/-- What is queued, with gaps up to their ends. -/
def held (d : Delivery) : List Event := d.queued.map Event.opened

theorem opened_gapRange (resource : ResourceID) (gapFrom gapTo : UInt64) (reason : String) :
    (gapRange resource gapFrom gapTo reason).opened = gapRange resource gapFrom 0 reason := rfl

/-- A gap that swallows an event stays the same up to its end, and drops what waits behind it. -/
theorem held_enqueueStream {d : Delivery} (event : Event)
    (h : d.closed = true ∨ d.gapFrom ≠ 0) : (d.enqueueStream event).held.Sublist d.held := by
  by_cases hclosed : d.closed = true
  · rw [enqueueStream, if_pos hclosed]
  · have hgap := h.resolve_left hclosed
    rw [enqueueStream, if_neg hclosed, if_neg (fun hc => hgap hc.2.2), if_pos hgap]
    simp only [held, queued, plan, if_neg hgap, gapEvent, map_append, map_cons,
      opened_gapRange, Option.toList_none, append_assoc, cons_append, nil_append]
    refine List.Sublist.append_left (List.Sublist.cons_cons _ ?_) _
    exact sublist_append_right _ _

/-- A call that takes nothing, other than `expire` and `next`. -/
theorem step_takesNothing {resource : ResourceID} {terminal : Option Event} {s : ExpiryRun}
    {op : ExpiryOp} (h : Heading resource terminal s.queue) (htakes : TakesNothing s op)
    (hexpire : ∀ reason, op ≠ .expire reason) (hnext : op ≠ .next) :
    Heading resource terminal (s.step op).queue ∧ (s.step op).queue.held.Sublist s.queue.held ∧
      (s.step op).returned = s.returned := by
  cases op with
  | enqueueSnapshot event =>
    have hsame : s.queue.enqueueSnapshot event = s.queue := if_pos htakes
    have hstep : s.step (.enqueueSnapshot event) = s := by rw [ExpiryRun.step, hsame]
    rw [hstep]
    exact ⟨h, .refl _, rfl⟩
  | enqueueVariable event =>
    have hsame : s.queue.enqueueVariable event = s.queue := if_pos htakes
    have hstep : s.step (.enqueueVariable event) = s := by rw [ExpiryRun.step, hsame]
    rw [hstep]
    exact ⟨h, .refl _, rfl⟩
  | enqueueStream event =>
    refine ⟨?_, held_enqueueStream event htakes, rfl⟩
    simp only [ExpiryRun.step, enqueueStream]
    split_ifs <;> exact { h with }
  | expire reason => exact absurd rfl (hexpire reason)
  | next => exact absurd rfl hnext
  | stop => exact ⟨{ h with }, .refl _, rfl⟩

/-! ### The end -/

section Ending

variable {resource : ResourceID} {terminal : Event} {all : List Event}

/-- The delivery has returned some of `all` and holds the others, or it has returned the terminal
event after some of them and holds nothing but the event of a later `expire`. -/
inductive Ending (resource : ResourceID) (terminal : Event) (all : List Event) :
    ℕ → ExpiryRun → Prop
  | before {s : ExpiryRun} (hheading : Heading resource (some terminal) s.queue)
      (hplain : ∀ x ∈ s.returned, x.terminal = false)
      (hsub : (s.returned.map (·.event.opened) ++ s.queue.held).Sublist all) :
      Ending resource terminal all s.returned.length s
  | after {s : ExpiryRun} {nexts : ℕ} {later : Option Event} {front back : List Emission}
      (hheading : Heading resource later s.queue) (hlater : ∀ e ∈ later, e.kind = .expired)
      (hempty : s.queue.queued = []) (hreturned : s.returned = front ++ ⟨terminal, true⟩ :: back)
      (hplain : ∀ x ∈ front, x.terminal = false)
      (hsub : (front.map (·.event.opened)).Sublist all)
      (hback : ∀ x ∈ back, x.terminal = true ∧ x.event.kind = .expired) :
      Ending resource terminal all nexts s

variable {s : ExpiryRun} {nexts : ℕ}

theorem ending_takeTerminal {e : Event} {front back : List Emission}
    (hheading : Heading resource (some e) s.queue) (hempty : s.queue.queued = [])
    (hreturned : s.returned ++ [⟨e, true⟩] = front ++ ⟨terminal, true⟩ :: back)
    (hplain : ∀ x ∈ front, x.terminal = false) (hsub : (front.map (·.event.opened)).Sublist all)
    (hback : ∀ x ∈ back, x.terminal = true ∧ x.event.kind = .expired) :
    Ending resource terminal all nexts (s.step .next) := by
  have hnext : s.queue.next = (some ⟨e, true⟩, { s.queue with terminal := none }) := by
    obtain ⟨_, _, _, hqueued, -⟩ | ⟨-, hnext⟩ := next_eq hheading
    · rw [hempty] at hqueued
      cases hqueued
    · rw [hnext, takeTerminal, hheading.terminal]
  have hstep : s.step .next =
      ⟨{ s.queue with terminal := none }, s.returned ++ [⟨e, true⟩]⟩ := by
    rw [ExpiryRun.step, hnext]
    rfl
  rw [hstep]
  exact .after ⟨hheading.failed, hheading.resource, rfl⟩ (fun e he => by cases he) hempty hreturned
    hplain hsub hback

variable (h : Ending resource terminal all nexts s)
include h

theorem Ending.step_next : Ending resource terminal all (nexts + 1) (s.step .next) := by
  cases h with
  | before hheading hplain hsub =>
    obtain ⟨e, rest, d', hqueued, hnext, hrest, hheading'⟩ | ⟨hempty, -⟩ := next_eq hheading
    · have hstep : s.step .next = ⟨d', s.returned ++ [⟨e, false⟩]⟩ := by
        rw [ExpiryRun.step, hnext]
        rfl
      have hlength : (s.step .next).returned.length = s.returned.length + 1 := by
        rw [hstep, length_append, length_singleton]
      have hheld : s.queue.held = e.opened :: d'.held := by
        rw [held, hqueued, map_cons, held, hrest]
      rw [← hlength]
      refine .before (hstep ▸ hheading') (fun x hx => ?_) ?_
      · rw [hstep, mem_append, mem_singleton] at hx
        obtain hx | rfl := hx
        · exact hplain x hx
        · rfl
      · rw [hheld] at hsub
        rw [hstep, map_append, append_assoc]
        exact hsub
    · have hheld : s.queue.held = [] := by rw [held, hempty, map_nil]
      rw [hheld, append_nil] at hsub
      exact ending_takeTerminal hheading hempty rfl hplain hsub fun x hx => nomatch hx
  | @after _ _ later front back hheading hlater hempty hreturned hplain hsub hback =>
    cases later with
    | none =>
      have hnext : s.queue.next = (none, s.queue) := by
        obtain ⟨_, _, _, hqueued, -⟩ | ⟨-, hnext⟩ := next_eq hheading
        · rw [hempty] at hqueued
          cases hqueued
        · rw [hnext, takeTerminal, hheading.terminal]
      have hstep : s.step .next = s := by
        rw [ExpiryRun.step, hnext, Option.toList_none, append_nil]
      rw [hstep]
      exact .after hheading hlater hempty hreturned hplain hsub hback
    | some e =>
      have happend : s.returned ++ [⟨e, true⟩] =
          front ++ ⟨terminal, true⟩ :: (back ++ [⟨e, true⟩]) := by
        rw [hreturned, append_assoc, cons_append]
      refine ending_takeTerminal hheading hempty happend hplain hsub fun x hx => ?_
      rw [mem_append, mem_singleton] at hx
      obtain hx | rfl := hx
      · exact hback x hx
      · exact ⟨rfl, hlater e rfl⟩

/-- A second `expire` finds the terminal event, or records another one after it was returned. -/
theorem Ending.step_expire (reason : String) :
    Ending resource terminal all nexts (s.step (.expire reason)) := by
  by_cases hsame : s.queue.expire reason = s.queue
  · have hstep : s.step (.expire reason) = s := by rw [ExpiryRun.step, hsame]
    rwa [hstep]
  · have hqueue : s.queue.terminal = none ∧
        s.queue.expire reason =
          { s.queue with terminal := some (s.queue.expiredEvent reason) } := by
      unfold expire at hsame ⊢
      split_ifs at hsame ⊢ with hclosed hnone
      · exact absurd rfl hsame
      · exact ⟨Option.isNone_iff_eq_none.mp hnone, rfl⟩
      · exact absurd rfl hsame
    have hstep : s.step (.expire reason) =
        ⟨{ s.queue with terminal := some (s.queue.expiredEvent reason) }, s.returned⟩ := by
      rw [ExpiryRun.step, hqueue.2]
    rw [hstep]
    cases h with
    | before hheading hplain hsub =>
      rw [hheading.terminal] at hqueue
      cases hqueue.1
    | after hheading hlater hempty hreturned hplain hsub hback =>
      refine .after ⟨hheading.failed, hheading.resource, rfl⟩ (fun e he => ?_) hempty hreturned
        hplain hsub hback
      cases he
      rfl

/-- **One call.** -/
theorem Ending.step {op : ExpiryOp} (htakes : TakesNothing s op) :
    Ending resource terminal all (nexts + if op = .next then 1 else 0) (s.step op) := by
  by_cases hnext : op = .next
  · rw [if_pos hnext, hnext]
    exact h.step_next
  · rw [if_neg hnext, Nat.add_zero]
    by_cases hexpire : ∃ reason, op = .expire reason
    · obtain ⟨reason, rfl⟩ := hexpire
      exact h.step_expire reason
    · push Not at hexpire
      cases h with
      | before hheading hplain hsub =>
        obtain ⟨hheading', hheld, hreturned⟩ := step_takesNothing hheading htakes hexpire hnext
        rw [← hreturned] at hplain hsub ⊢
        exact .before hheading' hplain ((hheld.append_left _).trans hsub)
      | after hheading hlater hempty hreturned hplain hsub hback =>
        obtain ⟨hheading', hheld, hsame⟩ := step_takesNothing hheading htakes hexpire hnext
        have hempty' : (s.step op).queue.queued = [] := by
          rw [held, held, hempty, map_nil, sublist_nil, map_eq_nil_iff] at hheld
          exact hheld
        exact .after hheading' hlater hempty' (hsame.trans hreturned) hplain hsub hback

/-- **All calls after `expire`.** -/
theorem Ending.run {ops : List ExpiryOp} (htakes : Along ExpiryRun.step TakesNothing s ops) :
    Ending resource terminal all (nexts + ops.count .next) (ops.foldl ExpiryRun.step s) := by
  induction ops generalizing nexts s with
  | nil => exact h
  | cons op ops ih =>
    have hrun := ih (h.step htakes.1) htakes.2
    have hcount : nexts + (op :: ops).count .next =
        nexts + (if op = .next then 1 else 0) + ops.count .next := by
      rw [count_cons]
      by_cases hop : op = .next
      · simp only [hop, BEq.rfl, if_true]
        omega
      · simp [hop]
    rw [foldl_cons, hcount]
    exact hrun

end Ending

/-- **Expiry ends delivery where nothing new is taken after it.**  What is returned are some of the
events that were queued, in order, and then the expired event, at the latest by the call after as
many as were queued; later `expire` calls may add more of its kind. -/
theorem expiry_ends_delivery (d : Delivery) (reason : String) (ops : List ExpiryOp)
    (hfailed : d.failed = false) (hdone : d.done = false) (hterminal : d.terminal = none)
    (htakes : Along ExpiryRun.step TakesNothing ⟨d.expire reason, []⟩ ops) :
    ∃ front back,
      (ops.foldl ExpiryRun.step ⟨d.expire reason, []⟩).returned = front ++ back ∧
      (front.map (·.event.opened)).Sublist (d.queued.map Event.opened) ∧
      (∀ x ∈ front, x.terminal = false) ∧
      (∀ x ∈ back, x.terminal = true ∧ x.event.kind = .expired) ∧
      (∀ x ∈ back.head?, x = ⟨d.expiredEvent reason, true⟩) ∧
      (d.queued.length < ops.count .next → back ≠ []) := by
  have hexpire : d.expire reason = { d with terminal := some (d.expiredEvent reason) } := by
    rw [expire, closed, hfailed, hdone, hterminal]
    rfl
  rw [hexpire] at htakes ⊢
  have hstart : Ending d.resource (d.expiredEvent reason) d.held 0
      ⟨{ d with terminal := some (d.expiredEvent reason) }, []⟩ :=
    Ending.before (s := ⟨{ d with terminal := some (d.expiredEvent reason) }, []⟩)
      ⟨hfailed, rfl, rfl⟩ (fun x hx => by cases hx) (.refl _)
  have hend := hstart.run htakes
  rw [Nat.zero_add] at hend
  generalize ops.count .next = nexts at hend ⊢
  cases hend with
  | before hheading hplain hsub =>
    have hfront := (sublist_append_left _ _).trans hsub
    refine ⟨_, [], (append_nil _).symm, hfront, hplain, fun x hx => (by cases hx),
      fun x hx => (by cases hx), fun hlt => ?_⟩
    have hle := hfront.length_le
    rw [length_map, held, length_map] at hle
    omega
  | after hheading hlater hempty hreturned hplain hsub hback =>
    refine ⟨_, _, hreturned, hsub, hplain, fun x hx => ?_, fun x hx => ?_, fun _ => by simp⟩
    · obtain rfl | hx := mem_cons.mp hx
      · exact ⟨rfl, rfl⟩
      · exact hback x hx
    · cases hx
      rfl

def plainValue : Event := { kind := .data, resource := ⟨1, "value"⟩, revision := 1 }

theorem expiry_ends_delivery_plain :
    ∃ front back,
      ([ExpiryOp.next, .stop, .enqueueVariable plainValue, .next].foldl ExpiryRun.step
        ⟨((newDelivery ⟨1, "value"⟩ 4).enqueueVariable plainValue).expire "lease_expired",
          []⟩).returned =
          front ++ back ∧
      (front.map (·.event.opened)).Sublist [plainValue] ∧ back ≠ [] := by
  obtain ⟨front, back, hreturned, hsub, -, -, -, hend⟩ := expiry_ends_delivery
    ((newDelivery ⟨1, "value"⟩ 4).enqueueVariable plainValue) "lease_expired"
    [.next, .stop, .enqueueVariable plainValue, .next] rfl rfl rfl
    ⟨trivial, trivial, rfl, trivial, trivial⟩
  exact ⟨front, back, hreturned, hsub, hend (by decide)⟩

/-- A delivery whose lease has expired with nothing queued. -/
def expiredDelivery : Delivery := (newDelivery ⟨1, "value"⟩ 4).expire "lease_expired"

/-- Values that arrive after the lease has expired are returned, and put the expired event off
without end. -/
theorem expiry_postponed :
    expiredDelivery.queued = [] ∧
    ∀ n, ((List.replicate n [ExpiryOp.enqueueVariable plainValue, .next]).flatten.foldl
      ExpiryRun.step ⟨expiredDelivery, []⟩).returned = List.replicate n ⟨plainValue, false⟩ := by
  refine ⟨rfl, fun n => ?_⟩
  have hround : ∀ returned, [ExpiryOp.enqueueVariable plainValue, .next].foldl ExpiryRun.step
      ⟨expiredDelivery, returned⟩ = ⟨expiredDelivery, returned ++ [⟨plainValue, false⟩]⟩ :=
    fun returned => rfl
  have hrun : ∀ n returned, (List.replicate n
      [ExpiryOp.enqueueVariable plainValue, .next]).flatten.foldl ExpiryRun.step
        ⟨expiredDelivery, returned⟩ =
          ⟨expiredDelivery, returned ++ List.replicate n ⟨plainValue, false⟩⟩ := by
    intro n
    induction n with
    | zero => exact fun returned => by simp
    | succ n ih =>
      intro returned
      rw [replicate_succ, flatten_cons, foldl_append, hround, ih, append_assoc]
      rfl
  rw [hrun]
  rfl

end Delivery
