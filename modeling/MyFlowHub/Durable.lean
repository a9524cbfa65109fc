/-
Durable subscriptions (`sdk/go/durable.go`).

`runDurableSubscription` keeps a subscription alive by one attempt after the other.  An
attempt waits for the connection, sets a subscription up and forwards its events until the
renewal timer fires or the subscription is interrupted.  `invalidate` emits a gap when a value
was emitted since the last one; it is called while the connection is away, after a failed setup
and after an interruption, and not after a renewal.

An attempt is given by what it meets: how often the connection was found away, the outcome of
the setup, the events that arrived before its end, and its end.  Timers decide only when these
happen, and when a setup is tried again.

* `Announced` — between two data events that do not follow each other there is a gap event;
* **`losses_announced_iff`** — a run announces its losses exactly when the events of each attempt
  do, and each attempt that follows a renewal continues the sequence before it;
* `renewal_loss` — a renewal over which an event was lost.
-/
import MyFlowHub.Delivery
import MyFlowHub.Runs

open Runs

namespace Durable

open Delivery (Event EventKind)

/-! ### Attempts -/

/-- How an attempt ends once it is set up. -/
inductive Ending where
  /-- the renewal timer -/
  | renewed
  /-- the events or the errors of the subscription end it -/
  | interrupted
  /-- a permanent error, or the context is done -/
  | stopped
  deriving DecidableEq

/-- What an attempt meets; `away` counts the snapshots of `waitConnected` that were not
connected and whose gap, if any, was sent. -/
inductive Attempt where
  /-- `waitConnected` returns an error. -/
  | disconnected (away : ℕ)
  /-- A failed setup.  When the wait that follows one fails, the next attempt is
  `disconnected 0`. -/
  | setupFailed (away : ℕ) (permanent : Bool)
  | opened (away : ℕ) (events : List Event) (ending : Ending)
  deriving DecidableEq

/-- The variables of `runDurableSubscription`, and what it has sent to `events`. -/
structure State where
  lastSequence : UInt64 := 0
  sawStream : Bool := false
  sawValue : Bool := false
  output : List Event := []
  /-- The function has returned. -/
  returned : Bool := false
  deriving DecidableEq

namespace State

variable (resource : ResourceID) (s : State)

/-- The gap of `invalidate`. -/
def interruption : Event where
  kind := .gap
  resource := resource
  reason := "subscription_interrupted_unknown_range"
  gapFrom := if s.sawStream then s.lastSequence + 1 else 0

def invalidate : State :=
  if s.sawValue then { s with output := s.output ++ [s.interruption resource], sawValue := false }
  else s

def forward (event : Event) : State :=
  let s := { s with sawValue := true }
  let s :=
    if event.kind = .data ∧ event.sequence ≠ 0 then
      { s with sawStream := true, lastSequence := event.sequence }
    else s
  { s with output := s.output ++ [event] }

/-- `waitConnected` up to its result. -/
def waitConnected (away : ℕ) : State := (State.invalidate resource)^[away] s

def finish : Ending → State
  | .renewed => s
  | .interrupted => s.invalidate resource
  | .stopped => { s with returned := true }

/-- One round of `runDurableSubscription`. -/
def attempt : Attempt → State
  | .disconnected away => { s.waitConnected resource away with returned := true }
  | .setupFailed away permanent =>
    if permanent then { s.waitConnected resource away with returned := true }
    else (s.waitConnected resource away).invalidate resource
  | .opened away events ending =>
    (events.foldl forward (s.waitConnected resource away)).finish resource ending

def step (s : State) (a : Attempt) : State := if s.returned then s else s.attempt resource a

end State

/-! ### Losses -/

/-- A data event may follow the last one without a gap. -/
def Follows (last : Option ℕ) (sequence : ℕ) : Prop := ∀ p ∈ last, sequence ≤ p + 1

/-- The sequence number of the last data event, unless a gap event came after it. -/
def lastAfter (last : Option ℕ) (event : Event) : Option ℕ :=
  match event.kind with
  | .data => some event.sequence.toNat
  | .gap => none
  | _ => last

def lastData (last : Option ℕ) (events : List Event) : Option ℕ := events.foldl lastAfter last

/-- The data events follow each other and the last one of what came before, or there is a gap
event between. -/
def FollowOn (last : Option ℕ) (events : List Event) : Prop :=
  Along lastAfter (fun last event => event.kind = .data → Follows last event.sequence.toNat)
    last events

/-- **Every loss is announced**: between two data events with nothing but other events between
them, of which the second does not follow the first, there is a gap event. -/
def Announced (output : List Event) : Prop :=
  ∀ pre first mid second post, output = pre ++ first :: (mid ++ second :: post) →
    first.kind = .data → second.kind = .data → (∀ e ∈ mid, e.kind ≠ .data) →
    first.sequence.toNat + 1 < second.sequence.toNat → ∃ e ∈ mid, e.kind = .gap

/-- The condition on the attempts: the events of each one follow each other, and after a renewal
they follow the last data event of the attempts before, unless the connection was found away.  An
interruption and a failed setup leave nothing to follow, and what comes after the function has
returned does not count. -/
def Continued (last : Option ℕ) : List Attempt → Prop
  | [] => True
  | .disconnected _ :: _ | .setupFailed _ true :: _ => True
  | .setupFailed _ false :: as => Continued none as
  | .opened away events ending :: as =>
    FollowOn (if away = 0 then last else none) events ∧
      match ending with
      | .renewed => Continued (lastData (if away = 0 then last else none) events) as
      | .interrupted => Continued none as
      | .stopped => True

@[simp] theorem followOn_nil (last : Option ℕ) : FollowOn last [] := along_nil last

theorem followOn_append {last : Option ℕ} {as bs : List Event} :
    FollowOn last (as ++ bs) ↔ FollowOn last as ∧ FollowOn (lastData last as) bs :=
  along_append

theorem lastData_append (last : Option ℕ) (as bs : List Event) :
    lastData last (as ++ bs) = lastData (lastData last as) bs :=
  List.foldl_append

theorem lastData_of_neither {last : Option ℕ} {events : List Event}
    (h : ∀ e ∈ events, e.kind ≠ .data ∧ e.kind ≠ .gap) : lastData last events = last := by
  induction events with
  | nil => rfl
  | cons event events ih =>
    obtain ⟨hdata, hgap⟩ := h event (by simp)
    have : lastAfter last event = last := by
      unfold lastAfter
      split
      · contradiction
      · contradiction
      · rfl
    show lastData (lastAfter last event) events = last
    rw [this]
    exact ih fun e he => h e (by simp [he])

theorem exists_of_lastData {events : List Event} {p : ℕ} (h : lastData none events = some p) :
    ∃ pre first mid, events = pre ++ first :: mid ∧ first.kind = .data ∧
      first.sequence.toNat = p ∧ ∀ e ∈ mid, e.kind ≠ .data ∧ e.kind ≠ .gap := by
  induction events using List.reverseRecOn with
  | nil => cases h
  | append_singleton events event ih =>
    rw [lastData_append] at h
    change lastAfter (lastData none events) event = some p at h
    unfold lastAfter at h
    split at h
    case h_1 hkind =>
      exact ⟨events, event, [], rfl, hkind, Option.some.inj h, by simp⟩
    case h_2 => cases h
    case h_3 hdata hgap =>
      obtain ⟨pre, first, mid, rfl, hkind, hp, hmid⟩ := ih h
      refine ⟨pre, first, mid ++ [event], by simp, hkind, hp, fun e he => ?_⟩
      rcases List.mem_append.1 he with he | he
      · exact hmid e he
      · rw [List.mem_singleton.1 he]
        exact ⟨hdata, hgap⟩

theorem Announced.of_append {as bs : List Event} (h : Announced (as ++ bs)) : Announced as := by
  rintro pre first mid second post rfl
  exact h pre first mid second (post ++ bs) (by simp)

theorem announced_iff_followOn {output : List Event} : Announced output ↔ FollowOn none output := by
  constructor
  · intro h
    induction output using List.reverseRecOn with
    | nil => exact followOn_nil _
    | append_singleton output event ih =>
      refine followOn_append.2 ⟨ih h.of_append, fun hkind p hp => ?_, trivial⟩
      -- The last data event and this one are two consecutive ones.
      obtain ⟨pre, first, mid, rfl, hfirst, rfl, hmid⟩ := exists_of_lastData hp
      by_contra hlt
      obtain ⟨e, he, hgap⟩ := h pre first mid event [] (by simp) hfirst hkind
        (fun e he => (hmid e he).1) (by omega)
      exact (hmid e he).2 hgap
  · rintro h pre first mid second post rfl hfirst hsecond hmid hlt
    by_contra hgap
    push Not at hgap
    obtain ⟨-, -, h⟩ := followOn_append.1 h
    obtain ⟨-, hnext, -⟩ := followOn_append.1 h
    have hlast : lastData (lastAfter (lastData none pre) first) mid = some
      first.sequence.toNat := by
      rw [lastData_of_neither fun e he => ⟨hmid e he, hgap e he⟩]
      simp [lastAfter, hfirst]
    have := hnext hsecond _ hlast
    omega

/-! ### What an attempt adds -/

namespace State

variable {resource : ResourceID} {s : State}

/-- The last data event on the output, unless a gap event came after it. -/
def last (s : State) : Option ℕ := lastData none s.output

/-- `sawValue` is set while the last data event has no gap event after it. -/
def Live (s : State) : Prop := s.sawValue = false → s.last = none

theorem last_invalidate (h : s.Live) : (s.invalidate resource).last = none := by
  unfold invalidate
  split_ifs with hsaw
  · simp [last, lastData, lastAfter, interruption]
  · exact h (by simpa using hsaw)

theorem Live.invalidate (h : s.Live) : (s.invalidate resource).Live := fun _ => last_invalidate h

theorem Live.waitConnected (h : s.Live) (away : ℕ) : (s.waitConnected resource away).Live := by
  induction away generalizing s with
  | zero => exact h
  | succ away ih => exact ih h.invalidate

theorem last_waitConnected (h : s.Live) (away : ℕ) :
    (s.waitConnected resource away).last = if away = 0 then s.last else none := by
  -- after the first snapshot that is not connected nothing is left to announce
  cases away with
  | zero => rfl
  | succ away =>
    rw [if_neg (Nat.succ_ne_zero away)]
    unfold State.waitConnected
    rw [Function.iterate_succ_apply']
    exact last_invalidate (h.waitConnected away)

@[simp] theorem output_forward (event : Event) :
    (s.forward event).output = s.output ++ [event] := by
  simp only [forward]
  split_ifs <;> rfl

@[simp] theorem sawValue_forward (event : Event) : (s.forward event).sawValue = true := by
  simp only [forward]
  split_ifs <;> rfl

theorem output_foldl_forward (events : List Event) :
    (events.foldl forward s).output = s.output ++ events := by
  induction events generalizing s with
  | nil => simp
  | cons event events ih => simp [ih]

theorem Live.foldl_forward (h : s.Live) (events : List Event) : (events.foldl forward s).Live :=
  foldl_invariant (fun _ _ _ => fun hsaw => by simp at hsaw) h events

theorem followOn_invalidate :
    FollowOn none (s.invalidate resource).output ↔ FollowOn none s.output := by
  unfold invalidate
  split_ifs with hsaw
  · rw [followOn_append]
    refine and_iff_left ⟨?_, trivial⟩
    intro hkind
    cases hkind
  · rfl

theorem followOn_waitConnected (away : ℕ) :
    FollowOn none (s.waitConnected resource away).output ↔ FollowOn none s.output := by
  induction away generalizing s with
  | zero => rfl
  | succ away ih => exact ih.trans followOn_invalidate

theorem run_of_returned (h : s.returned = true) (as : List Attempt) :
    as.foldl (State.step resource) s = s := by
  induction as with
  | nil => rfl
  | cons a as ih =>
    rw [List.foldl_cons, State.step, if_pos h]
    exact ih

theorem step_of_running (h : s.returned = false) (a : Attempt) :
    s.step resource a = s.attempt resource a := by
  rw [State.step, if_neg (by simp [h])]

theorem returned_invalidate : (s.invalidate resource).returned = s.returned := by
  unfold invalidate
  split_ifs <;> rfl

theorem returned_waitConnected (away : ℕ) :
    (s.waitConnected resource away).returned = s.returned := by
  induction away generalizing s with
  | zero => rfl
  | succ away ih => exact ih.trans returned_invalidate

theorem returned_foldl_forward (events : List Event) :
    (events.foldl forward s).returned = s.returned := by
  refine foldl_invariant (I := fun u : State => u.returned = s.returned) ?_ rfl events
  intro u event hu
  rw [← hu]
  simp only [forward]
  split_ifs <;> rfl

variable (resource) in
theorem followOn_opened (h : s.Live) (away : ℕ) (events : List Event) :
    FollowOn none (events.foldl forward (s.waitConnected resource away)).output ↔
      FollowOn none s.output ∧ FollowOn (if away = 0 then s.last else none) events := by
  rw [output_foldl_forward, followOn_append, followOn_waitConnected, ← last_waitConnected h away]
  rfl

theorem last_opened (h : s.Live) (away : ℕ) (events : List Event) :
    (events.foldl forward (s.waitConnected resource away)).last =
      lastData (if away = 0 then s.last else none) events := by
  rw [last, output_foldl_forward, lastData_append, ← last_waitConnected h away]
  rfl

theorem followOn_run (h : s.Live) (hrunning : s.returned = false) (as : List Attempt) :
    FollowOn none (as.foldl (State.step resource) s).output ↔
      FollowOn none s.output ∧ Continued s.last as := by
  induction as generalizing s with
  | nil => simp [Continued]
  | cons a as ih =>
    rw [List.foldl_cons, step_of_running hrunning]
    cases a with
    | disconnected away =>
      rw [run_of_returned (by rfl)]
      exact (followOn_waitConnected away).trans (and_iff_left trivial).symm
    | setupFailed away permanent =>
      cases permanent with
      | true =>
        rw [run_of_returned (by rfl)]
        exact (followOn_waitConnected away).trans (and_iff_left trivial).symm
      | false =>
        have hwait : (s.waitConnected resource away).Live := h.waitConnected away
        show FollowOn none (as.foldl _ ((s.waitConnected resource away).invalidate
          resource)).output ↔
          _
        rw [ih hwait.invalidate (by rw [returned_invalidate, returned_waitConnected, hrunning]),
          last_invalidate hwait, followOn_invalidate, followOn_waitConnected]
        rfl
    | opened away events ending =>
      have hwait : (s.waitConnected resource away).Live := h.waitConnected away
      have hlive := hwait.foldl_forward events
      have hret : (events.foldl forward (s.waitConnected resource away)).returned = false := by
        rw [returned_foldl_forward, returned_waitConnected, hrunning]
      have hopened := followOn_opened resource h away events
      -- only a renewal hands the last data event on
      cases ending with
      | renewed =>
        show FollowOn none (as.foldl _ (events.foldl forward _)).output ↔ _
        rw [ih hlive hret, last_opened h, hopened, and_assoc]
        rfl
      | interrupted =>
        show FollowOn none (as.foldl _ ((events.foldl forward _).invalidate resource)).output ↔ _
        rw [ih hlive.invalidate (returned_invalidate.trans hret), last_invalidate hlive,
          followOn_invalidate, hopened, and_assoc]
        rfl
      | stopped =>
        rw [run_of_returned (by rfl)]
        exact hopened.trans (and_congr_right fun _ => (and_iff_left trivial).symm)

end State

/-- The channel `events` after a list of attempts. -/
def runDurableSubscription (resource : ResourceID) (as : List Attempt) : List Event :=
  (as.foldl (State.step resource) {}).output

/-- **Losses are announced exactly when attempts continue each other.**  Whatever is lost while the
connection is away, by a failed setup or by an interruption is announced by a gap; what is lost
over a renewal is not. -/
theorem losses_announced_iff (resource : ResourceID) (as : List Attempt) :
    Announced (runDurableSubscription resource as) ↔ Continued none as := by
  have hlive : State.Live {} := fun _ => rfl
  rw [announced_iff_followOn]
  exact (State.followOn_run hlive rfl as).trans (and_iff_right (followOn_nil none))

/-! ### A loss over a renewal -/

def streamed (sequence : UInt64) : Event where
  kind := .data
  resource := ⟨1, "log"⟩
  sequence := sequence

/-- The subscription is renewed after the first event, and the second one is produced between
the two. -/
def renewalRun : List Attempt :=
  [.opened 0 [streamed 1] .renewed, .opened 0 [streamed 3] .renewed]

theorem renewal_loss : ¬ Announced (runDurableSubscription ⟨1, "log"⟩ renewalRun) := by
  intro h
  have hsplit : runDurableSubscription ⟨1, "log"⟩ renewalRun =
      [] ++ streamed 1 :: ([] ++ streamed 3 :: []) := by decide
  obtain ⟨e, he, -⟩ := h [] (streamed 1) [] (streamed 3) [] hsplit rfl rfl (by simp) (by decide)
  simp at he

end Durable
