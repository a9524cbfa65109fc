/-
Polling subscriptions from the desktop (`sdk/bindings/desktop/poll_batch.go`, `client.go`).

`PollSubscriptions` goes over its subscriptions, takes at most one item from each, and
returns what it has collected; an item that does not fit is parked in its subscription.
`PollSubscription` returns one item of one subscription.  The lock of the batch calls, the
lock of each subscription, the channels and the table of subscriptions are used in separate
steps, so that calls, listeners and cancellations interleave freely.  `log` is the history.

* `Locks` — the lock of a subscription is held by the call that is between its lock and its
  unlock, and only that call touches the parked item;
* `locked_step`, **`locked_run`** — every step keeps that.
-/
import MyFlowHub.Search
import MyFlowHub.Runs

open Function Runs

namespace Desktop

/-! ### Items -/

def maxPollSubscriptions : ℕ := 4096
def maxPollEvents : ℕ := 256
def maxPollBatchBytes : ℕ := 262144
def maxPollSingleBytes : ℕ := 1048576 + 8192

inductive Kind where
  | event | error | closed
  deriving DecidableEq

/-- `SubscriptionPoll`. -/
structure Item where
  subscriptionID : ℕ
  kind : Kind
  payload : String := ""
  deriving DecidableEq

/-- The item for an identifier that is not in the table. -/
def goneItem (id : ℕ) : Item :=
  ⟨id, .error, "\x7b\"code\":\"gone\",\"message\":\"subscription is closed or unknown\"\x7d"⟩

/-! ### Subscriptions and calls -/

inductive Owner where
  | batch
  | single (t : ℕ)
  deriving DecidableEq

/-- `subscription`; the lists are what its channels hold. -/
structure Subscription where
  events : List String := []
  errors : List String := []
  done : Bool := false
  pending : Option Item := none
  pollMu : Option Owner := none

/-- Where a subscription is; an identifier is used once. -/
inductive Stage where
  | unknown
  /-- its listener exists -/
  | listening
  /-- it is in `c.subscriptions` -/
  | registered
  | removed
  deriving DecidableEq

inductive BatchPhase where
  /-- before the table is read -/
  | look
  | tryLock (id : ℕ)
  /-- `takePoll`: the errors, the end, the parked item or the events -/
  | checkErrors (id : ℕ)
  | checkDone (id : ℕ)
  | take (id : ℕ)
  /-- an item was taken, or made up for an identifier that is not known -/
  | settle (id : ℕ) (known : Bool) (item : Item)
  /-- the last `select` -/
  | waiting

/-- The batch call that holds `batchMu`. -/
structure Batch where
  ids : List ℕ
  timeoutMS : ℕ
  start : ℕ
  offset : ℕ := 0
  items : List Item := []
  bytes : ℕ := 2
  phase : BatchPhase := .look

inductive SinglePhase where
  | idle
  | tryLock (id : ℕ)
  /-- before it looks for a parked item -/
  | locked (id : ℕ)
  /-- its `select` -/
  | selecting (id : ℕ)
  | returned

inductive Entry where
  | sent (id : ℕ) (event : String)
  /-- A poll received an event from the channel. -/
  | took (id : ℕ) (event : String)
  | returned (items : List Item)
  | failed (text : String)

structure System where
  /-- `c.core != nil` -/
  opened : Bool := true
  stage : ℕ → Stage := fun _ => .unknown
  subs : ℕ → Subscription := fun _ => {}
  batchAfter : ℕ := 0
  ready : Bool := false
  batch : Option Batch := none
  single : ℕ → SinglePhase := fun _ => .idle
  log : List Entry := []

inductive Act where
  | listen (id : ℕ)
  | register (id : ℕ)
  | onEvent (id : ℕ) (event : String)
  | onError (id : ℕ) (failure : String)
  | cancel (id : ℕ)
  | close
  | stop (id : ℕ)
  | pollSubscriptions (ids : List ℕ) (timeoutMS : ℕ)
  /-- the batch call goes on -/
  | batch
  | wake
  | timer
  | pollSubscription (t : ℕ) (id : ℕ)
  /-- the call goes on up to its `select` -/
  | single (t : ℕ)
  | selectEvent (t : ℕ)
  | selectError (t : ℕ)
  | selectDone (t : ℕ)
  | selectTimeout (t : ℕ)

namespace System

variable (encodedLength : Item → Option ℕ) (s : System)

def setSub (id : ℕ) (sub : Subscription) : System := { s with subs := update s.subs id sub }

def setBatch (b : Batch) : System := { s with batch := some b }

def setSingle (t : ℕ) (p : SinglePhase) : System := { s with single := update s.single t p }

def record (entry : Entry) : System := { s with log := s.log ++ [entry] }

def unlock (id : ℕ) : System := s.setSub id { s.subs id with pollMu := none }

def setPending (id : ℕ) (pending : Option Item) : System :=
  s.setSub id { s.subs id with pending := pending }

/-! The batch call. -/

/-- The identifiers are positive, safe in JavaScript and distinct. -/
def validIDs (ids : List ℕ) : Prop :=
  1 ≤ ids.length ∧ ids.length ≤ maxPollSubscriptions ∧ (∀ id ∈ ids, 0 < id ∧ id ≤ 2 ^ 53 - 1) ∧
    ids.Nodup

instance (ids : List ℕ) : Decidable (validIDs ids) := inferInstanceAs (Decidable (_ ∧ _))

/-- The loop begins after the last subscription that was served. -/
def newBatch (ids : List ℕ) (timeoutMS : ℕ) : Batch where
  ids := ids
  timeoutMS := timeoutMS
  start := Search.search ids.length (fun i => s.batchAfter < ids.getD i 0) % ids.length

def fail (text : String) : System := { s with batch := none }.record (.failed text)

def endLoop (b : Batch) : System :=
  if b.items ≠ [] ∨ b.timeoutMS = 0 then { s with batch := none }.record (.returned b.items)
  else s.setBatch { b with phase := .waiting }

def next (b : Batch) : System :=
  if b.offset + 1 < b.ids.length ∧ b.items.length < maxPollEvents then
    s.setBatch { b with offset := b.offset + 1, phase := .look }
  else s.endLoop b

def look (b : Batch) : System :=
  let id := b.ids.getD ((b.start + b.offset) % b.ids.length) 0
  if s.opened = false then s.fail "desktop binding client is closed"
  else if s.stage id = .registered then s.setBatch { b with phase := .tryLock id }
  else s.setBatch { b with phase := .settle id false (goneItem id) }

def tryLock (b : Batch) (id : ℕ) : System :=
  match (s.subs id).pollMu with
  | some _ => s.fail "desktop subscription already has an active poll"
  | none =>
    (s.setSub id { s.subs id with pollMu := some .batch }).setBatch
      { b with phase := .checkErrors id }

def checkErrors (b : Batch) (id : ℕ) : System :=
  match (s.subs id).errors with
  | failure :: rest =>
    (s.setSub id { s.subs id with errors := rest, pending := none }).setBatch
      { b with phase := .settle id true ⟨id, .error, failure⟩ }
  | [] => s.setBatch { b with phase := .checkDone id }

def checkDone (b : Batch) (id : ℕ) : System :=
  if (s.subs id).done then
    (s.setPending id none).setBatch { b with phase := .settle id true ⟨id, .closed, ""⟩ }
  else s.setBatch { b with phase := .take id }

/-- The parked item can only be changed by who holds the lock. -/
def take (b : Batch) (id : ℕ) : System :=
  match (s.subs id).pending, (s.subs id).events with
  | some item, _ => (s.setPending id none).setBatch { b with phase := .settle id true item }
  | none, event :: rest =>
    ((s.setSub id { s.subs id with events := rest }).setBatch
      { b with phase := .settle id true ⟨id, .event, event⟩ }).record (.took id event)
  | none, [] => (s.unlock id).next b

/-- Only an item that was taken has a lock to give back. -/
def release (id : ℕ) (known : Bool) : System := if known then s.unlock id else s

def park (id : ℕ) (known : Bool) (item : Item) : System :=
  if known then s.setPending id (some item) else s

def settle (b : Batch) (id : ℕ) (known : Bool) (item : Item) : System :=
  match encodedLength item with
  | none => (s.release id known).fail "encode subscription poll"
  | some n =>
    if n + 2 > maxPollSingleBytes then
      (s.release id known).fail "subscription poll exceeds the single-event limit"
    else if b.bytes + n + 1 > maxPollBatchBytes - maxPollEvents * 16 ∧ b.items ≠ [] then
      ((s.park id known item).release id known).endLoop b
    else
      { s.release id known with batchAfter := id }.next
        { b with items := b.items ++ [item], bytes := b.bytes + n + 1 }

def batchStep (b : Batch) : System :=
  match b.phase with
  | .look => s.look b
  | .tryLock id => s.tryLock b id
  | .checkErrors id => s.checkErrors b id
  | .checkDone id => s.checkDone b id
  | .take id => s.take b id
  | .settle id known item => s.settle encodedLength b id known item
  | .waiting => s

/-! The call for one subscription. -/

def answer (t : ℕ) (item : Item) : System :=
  (s.setSingle t .returned).record
    (if (encodedLength item).isSome then .returned [item]
     else .failed "encode desktop subscription result")

/-- `PollSubscription` up to its `select`. -/
def singleStep (t : ℕ) : System :=
  match s.single t with
  | .tryLock id =>
    match (s.subs id).pollMu with
    | some _ =>
      (s.setSingle t .returned).record (.failed "desktop subscription already has an active poll")
    | none => (s.setSub id { s.subs id with pollMu := some (.single t) }).setSingle t (.locked id)
  | .locked id =>
    match (s.subs id).pending with
    | some item => ((s.setPending id none).unlock id).answer encodedLength t item
    | none => s.setSingle t (.selecting id)
  | _ => s

def step (s : System) : Act → System
  | .listen id =>
    match s.stage id with
    | .unknown => { s with stage := update s.stage id .listening }
    | _ => s
  | .register id =>
    match s.stage id with
    | .listening =>
      { s with stage := update s.stage id (if s.opened then .registered else .removed) }
    | _ => s
  | .onEvent id event =>
    -- the channel has room
    if s.stage id ≠ .unknown ∧ (s.subs id).events.length < 128 then
      { s.setSub id { s.subs id with events := (s.subs id).events ++ [event] } with
        ready := true }.record (.sent id event)
    else s
  | .onError id failure =>
    if s.stage id ≠ .unknown ∧ (s.subs id).errors.length < 16 then
      { s.setSub id { s.subs id with errors := (s.subs id).errors ++ [failure] } with
        ready := true }
    else s
  | .cancel id =>
    match s.stage id with
    | .registered => { s with stage := update s.stage id .removed }
    | _ => s
  | .close =>
    { s with
      opened := false
      stage := fun id => if s.stage id = .registered then .removed else s.stage id }
  | .stop id =>
    match s.stage id with
    | .removed => { s.setSub id { s.subs id with done := true } with ready := true }
    | _ => s
  | .pollSubscriptions ids timeoutMS =>
    if validIDs ids ∧ timeoutMS ≤ 100 then
      match s.batch with
      | none => s.setBatch (s.newBatch (ids.insertionSort (· ≤ ·)) timeoutMS)
      | some _ => s
    else s
  | .batch =>
    match s.batch with
    | some b => s.batchStep encodedLength b
    | none => s
  | .wake =>
    match s.batch with
    | some b => match b.phase with
      | .waiting =>
        if s.ready then { s with ready := false }.setBatch (s.newBatch b.ids b.timeoutMS) else s
      | _ => s
    | none => s
  | .timer =>
    match s.batch with
    | some b => match b.phase with
      | .waiting => { s with batch := none }.record (.returned [])
      | _ => s
    | none => s
  | .pollSubscription t id =>
    match s.single t with
    | .idle =>
      if s.stage id = .registered then s.setSingle t (.tryLock id)
      else (s.setSingle t .returned).record (.failed "desktop subscription was not found")
    | _ => s
  | .single t => s.singleStep encodedLength t
  | .selectEvent t =>
    match s.single t with
    | .selecting id =>
      match (s.subs id).events with
      | event :: rest =>
        (((s.setSub id { s.subs id with events := rest }).unlock id).record
          (.took id event)).answer encodedLength t ⟨id, .event, event⟩
      | [] => s
    | _ => s
  | .selectError t =>
    match s.single t with
    | .selecting id =>
      match (s.subs id).errors with
      | failure :: rest =>
        ((s.setSub id { s.subs id with errors := rest }).unlock id).answer encodedLength t
          ⟨id, .error, failure⟩
      | [] => s
    | _ => s
  | .selectDone t =>
    match s.single t with
    | .selecting id =>
      if (s.subs id).done then (s.unlock id).answer encodedLength t ⟨id, .closed, ""⟩ else s
    | _ => s
  | .selectTimeout t =>
    match s.single t with
    | .selecting id => ((s.unlock id).setSingle t .returned).record (.returned [])
    | _ => s

end System

open Desktop.System

/-! ### Locks -/

def BatchPhase.lock : BatchPhase → Option ℕ
  | .checkErrors id | .checkDone id | .take id | .settle id true _ => some id
  | _ => none

def SinglePhase.lock : SinglePhase → Option ℕ
  | .locked id | .selecting id => some id
  | _ => none

structure BatchOK (subs : ℕ → Subscription) (b : Batch) : Prop where
  lock : ∀ id, b.phase.lock = some id → (subs id).pollMu = some .batch
  settling : ∀ id item, b.phase = .settle id true item →
    item.subscriptionID = id ∧ (subs id).pending = none
  madeUp : ∀ id item, b.phase = .settle id false item → item = goneItem id
  waiting : b.phase = .waiting → b.items = []

structure SingleOK (subs : ℕ → Subscription) (t : ℕ) (p : SinglePhase) : Prop where
  lock : ∀ id, p.lock = some id → (subs id).pollMu = some (.single t)
  selecting : ∀ id, p = .selecting id → (subs id).pending = none

/-- A parked item is an item of its subscription that could be encoded. -/
def ParkedOK (encodedLength : Item → Option ℕ) (id : ℕ) (sub : Subscription) : Prop :=
  ∀ item, sub.pending = some item → item.subscriptionID = id ∧ (encodedLength item).isSome = true

structure Locks (encodedLength : Item → Option ℕ) (batch : Option Batch) (single : ℕ → SinglePhase)
    (subs : ℕ → Subscription) : Prop where
  batch : ∀ b, batch = some b → BatchOK subs b
  single : ∀ t, SingleOK subs t (single t)
  parked : ∀ id, ParkedOK encodedLength id (subs id)

section Locks

variable {encodedLength : Item → Option ℕ} {batch : Option Batch} {single : ℕ → SinglePhase}
  {subs : ℕ → Subscription} {b : Batch} {p : SinglePhase} {sub : Subscription} {id t : ℕ}

theorem update_of_lock {lock : Option ℕ} (hid : lock ≠ some id) (sub : Subscription) {id' : ℕ}
    (hlock : lock = some id') : update subs id sub id' = subs id' := by
  refine update_of_ne ?_ _ _
  rintro rfl
  exact hid hlock

theorem BatchOK.setSub (h : BatchOK subs b) (hid : b.phase.lock ≠ some id) (sub : Subscription) :
    BatchOK (update subs id sub) b := by
  refine ⟨fun id' hlock => ?_, fun id' item hphase => ?_, h.madeUp, h.waiting⟩
  · rw [update_of_lock hid sub hlock]
    exact h.lock id' hlock
  · rw [update_of_lock hid sub (by rw [hphase]; rfl)]
    exact h.settling id' item hphase

theorem SingleOK.setSub (h : SingleOK subs t p) (hid : p.lock ≠ some id) (sub : Subscription) :
    SingleOK (update subs id sub) t p := by
  refine ⟨fun id' hlock => ?_, fun id' hphase => ?_⟩
  · rw [update_of_lock hid sub hlock]
    exact h.lock id' hlock
  · rw [update_of_lock hid sub (by rw [hphase]; rfl)]
    exact h.selecting id' hphase

theorem BatchOK.holding (hlock : (subs id).pollMu = some .batch)
    (h : b.phase = .checkErrors id ∨ b.phase = .checkDone id ∨ b.phase = .take id) :
    BatchOK subs b := by
  rcases h with h | h | h
  all_goals
    refine ⟨fun id' hc => ?_, fun id' item hc => ?_, fun id' item hc => ?_, fun hc => ?_⟩
    · rw [h] at hc
      cases hc
      exact hlock
    all_goals
      rw [h] at hc
      cases hc

theorem BatchOK.unlocked (h : b.phase = .look ∨ ∃ id, b.phase = .tryLock id) : BatchOK subs b := by
  rcases h with h | ⟨id, h⟩
  · refine ⟨fun id' hc => ?_, fun id' item hc => ?_, fun id' item hc => ?_, fun hc => ?_⟩ <;>
      rw [h] at hc <;> cases hc
  · refine ⟨fun id' hc => ?_, fun id' item hc => ?_, fun id' item hc => ?_, fun hc => ?_⟩ <;>
      rw [h] at hc <;> cases hc

theorem SingleOK.plain (h : p.lock = none) : SingleOK subs t p := by
  refine ⟨fun id hc => ?_, fun id hc => ?_⟩
  · rw [h] at hc
    cases hc
  · rw [hc] at h
    cases h

section

variable (h : Locks encodedLength batch single subs)
include h

theorem Locks.putBatch (hb : BatchOK subs b) : Locks encodedLength (some b) single subs :=
  ⟨fun _ heq => Option.some.inj heq ▸ hb, h.single, h.parked⟩

theorem Locks.dropBatch : Locks encodedLength none single subs :=
  ⟨fun _ heq => (nomatch heq), h.single, h.parked⟩

theorem Locks.putSingle (hp : SingleOK subs t p) :
    Locks encodedLength batch (update single t p) subs :=
  ⟨h.batch, forall_update (L := fun u p => SingleOK subs u p) hp fun u _ => h.single u, h.parked⟩

theorem Locks.setSub (hbatch : ∀ b, batch = some b → b.phase.lock ≠ some id)
    (hsingle : ∀ t, (single t).lock ≠ some id) (hparked : ParkedOK encodedLength id sub) :
    Locks encodedLength batch single (update subs id sub) := by
  refine ⟨fun b hb => (h.batch b hb).setSub (hbatch b hb) sub,
    fun t => (h.single t).setSub (hsingle t) sub, fun id' => ?_⟩
  by_cases hid : id' = id
  · rw [hid, update_self]
    exact hparked
  · rw [update_of_ne hid]
    exact h.parked id'

theorem Locks.feed (hpending : sub.pending = (subs id).pending)
    (hpollMu : sub.pollMu = (subs id).pollMu) :
    Locks encodedLength batch single (update subs id sub) := by
  -- a subscription is changed by its listener, which does not touch its lock
  have hsame : ∀ id', (update subs id sub id').pending = (subs id').pending ∧
      (update subs id sub id').pollMu = (subs id').pollMu := by
    intro id'
    by_cases hid : id' = id
    · rw [hid, update_self]
      exact ⟨hpending, hpollMu⟩
    · rw [update_of_ne hid]
      exact ⟨rfl, rfl⟩
  refine ⟨fun b hb => ⟨fun id' hlock => ?_, fun id' item hphase => ?_, (h.batch b hb).madeUp,
    (h.batch b hb).waiting⟩, fun t => ⟨fun id' hlock => ?_, fun id' hphase => ?_⟩,
    fun id' item hitem => ?_⟩
  · rw [(hsame id').2]
    exact (h.batch b hb).lock id' hlock
  · rw [(hsame id').1]
    exact (h.batch b hb).settling id' item hphase
  · rw [(hsame id').2]
    exact (h.single t).lock id' hlock
  · rw [(hsame id').1]
    exact (h.single t).selecting id' hphase
  · rw [(hsame id').1] at hitem
    exact h.parked id' item hitem

theorem Locks.not_single (hid : (subs id).pollMu ≠ some (.single t)) : (single t).lock ≠ some id :=
  fun hlock => hid ((h.single t).lock id hlock)

theorem Locks.not_batch (hb : batch = some b) (hid : (subs id).pollMu ≠ some .batch) :
    b.phase.lock ≠ some id :=
  fun hlock => hid ((h.batch b hb).lock id hlock)

theorem Locks.byBatch (hid : (subs id).pollMu = some .batch ∨ (subs id).pollMu = none)
    (hparked : ParkedOK encodedLength id sub) (hb : BatchOK (update subs id sub) b) :
    Locks encodedLength (some b) single (update subs id sub) := by
  -- the batch call changes the subscription it holds, or takes its lock, and goes on
  refine (h.dropBatch.setSub (fun b hc => (nomatch hc)) (fun t => h.not_single ?_)
    hparked).putBatch hb
  rcases hid with hid | hid
  · rw [hid]
    simp
  · rw [hid]
    simp

theorem Locks.bySingle (hid : (subs id).pollMu = some (.single t) ∨ (subs id).pollMu = none)
    (hparked : ParkedOK encodedLength id sub) (hp : SingleOK (update subs id sub) t p) :
    Locks encodedLength batch (update single t p) (update subs id sub) := by
  -- a call for one subscription changes the subscription it holds, or takes its lock, and goes on
  refine ⟨fun b hb => ?_, forall_update (L := fun u p => SingleOK (update subs id sub) u p) hp
    fun u hu => ?_, fun id' => ?_⟩
  · refine (h.batch b hb).setSub (h.not_batch hb ?_) sub
    rcases hid with hid | hid
    · rw [hid]
      simp
    · rw [hid]
      simp
  · refine (h.single u).setSub (h.not_single ?_) sub
    rcases hid with hid | hid
    · rw [hid]
      simp [hu.symm]
    · rw [hid]
      simp
  · by_cases hne : id' = id
    · rw [hne, update_self]
      exact hparked
    · rw [update_of_ne hne]
      exact h.parked id'

end

variable {s : System}

abbrev System.Locked (encodedLength : Item → Option ℕ) (s : System) : Prop :=
  Locks encodedLength s.batch s.single s.subs

theorem locked_endLoop (h : Locks encodedLength batch s.single s.subs) (b : Batch) :
    (s.endLoop b).Locked encodedLength := by
  unfold endLoop
  by_cases hreturn : b.items ≠ [] ∨ b.timeoutMS = 0
  · rw [if_pos hreturn]
    exact h.dropBatch
  · rw [if_neg hreturn]
    refine h.putBatch ⟨fun id hc => ?_, fun id item hc => ?_, fun id item hc => ?_, fun _ => ?_⟩
    · cases hc
    · cases hc
    · cases hc
    · exact not_not.mp (not_or.mp hreturn).1

theorem locked_next (h : Locks encodedLength batch s.single s.subs) (b : Batch) :
    (s.next b).Locked encodedLength := by
  unfold next
  split_ifs
  · exact h.putBatch (.unlocked (.inl rfl))
  · exact locked_endLoop h b

theorem locked_unlock (h : s.Locked encodedLength) (hb : s.batch = some b)
    (hlock : b.phase.lock = some id) (pending : Option Item)
    (hpending : ∀ item, pending = some item → item.subscriptionID = id ∧
      (encodedLength item).isSome = true) :
    Locks encodedLength none s.single
      (update s.subs id { s.subs id with pending := pending, pollMu := none }) := by
  refine h.dropBatch.setSub (fun b hc => (nomatch hc)) (fun t => h.not_single ?_) hpending
  rw [(h.batch b hb).lock id hlock]
  simp

theorem setSub_unlock (s : System) (id : ℕ) (sub : Subscription) :
    (s.setSub id sub).unlock id = s.setSub id { sub with pollMu := none } := by
  simp [unlock, setSub]

theorem setPending_unlock (s : System) (id : ℕ) (pending : Option Item) :
    (s.setPending id pending).unlock id =
      s.setSub id { s.subs id with pending := pending, pollMu := none } :=
  setSub_unlock ..

variable (h : s.Locked encodedLength)
include h

theorem locked_look (b : Batch) : (s.look b).Locked encodedLength := by
  unfold look
  dsimp only
  split_ifs
  · exact h.dropBatch
  · exact h.putBatch (.unlocked (.inr ⟨_, rfl⟩))
  · refine h.putBatch ⟨fun id hc => ?_, fun id item hc => ?_, fun id item hc => ?_, fun hc => ?_⟩
    · cases hc
    · cases hc
    · cases hc
      rfl
    · cases hc

theorem locked_tryLock (b : Batch) (id : ℕ) : (s.tryLock b id).Locked encodedLength := by
  unfold tryLock
  cases hlock : (s.subs id).pollMu with
  | some owner => exact h.dropBatch
  | none =>
    refine h.byBatch (.inr hlock) (h.parked id) (.holding ?_ (.inl rfl))
    rw [update_self]

theorem locked_settling (b : Batch) {item : Item} (hlock : (s.subs id).pollMu = some .batch)
    (hpollMu : sub.pollMu = some .batch) (hpending : sub.pending = none)
    (hitem : item.subscriptionID = id) :
    Locks encodedLength (some { b with phase := .settle id true item }) s.single
      (update s.subs id sub) := by
  refine h.byBatch (.inl hlock) (fun item hc => ?_) ⟨fun id' hc => ?_, fun id' item hc => ?_,
    fun id' item hc => ?_, fun hc => ?_⟩
  · rw [hpending] at hc
    cases hc
  · cases hc
    rw [update_self]
    exact hpollMu
  · cases hc
    rw [update_self]
    exact ⟨hitem, hpending⟩
  · cases hc
  · cases hc

theorem locked_checkErrors (b : Batch) (hlock : (s.subs id).pollMu = some .batch) :
    (s.checkErrors b id).Locked encodedLength := by
  unfold checkErrors
  split
  · exact locked_settling h b hlock hlock rfl rfl
  · exact h.putBatch (.holding hlock (.inr (.inl rfl)))

theorem locked_checkDone (b : Batch) (hlock : (s.subs id).pollMu = some .batch) :
    (s.checkDone b id).Locked encodedLength := by
  unfold checkDone
  split_ifs
  · exact locked_settling h b hlock hlock rfl rfl
  · exact h.putBatch (.holding hlock (.inr (.inr rfl)))

theorem locked_take (hb : s.batch = some b) (hphase : b.phase = .take id) :
    (s.take b id).Locked encodedLength := by
  have hlock : (s.subs id).pollMu = some .batch := (h.batch b hb).lock id (by rw [hphase]; rfl)
  unfold take
  cases hpending : (s.subs id).pending with
  | some item => exact locked_settling h b hlock hlock rfl (h.parked id item hpending).1
  | none =>
    cases (s.subs id).events with
    | cons event rest => exact locked_settling h b hlock hlock hpending rfl
    | nil =>
      exact locked_next (s := s.unlock id)
        (locked_unlock h hb (by rw [hphase]; rfl) _ (h.parked id)) b

theorem locked_settle {known : Bool} {item : Item} (hb : s.batch = some b)
    (hphase : b.phase = .settle id known item) :
    (s.settle encodedLength b id known item).Locked encodedLength := by
  unfold settle
  cases known with
  | false =>
    -- nothing is locked
    cases encodedLength item with
    | none => exact h.dropBatch
    | some n =>
      dsimp only
      split_ifs
      · exact h.dropBatch
      · exact locked_endLoop (s := s) h b
      · exact locked_next (s := { s with batchAfter := id }) h _
  | true =>
    have hlock : b.phase.lock = some id := by rw [hphase]; rfl
    have hunlocked := locked_unlock h hb hlock _ (h.parked id)
    cases hlength : encodedLength item with
    | none => exact hunlocked
    | some n =>
      dsimp only
      split_ifs
      · exact hunlocked
      · have hparked := locked_unlock h hb hlock (some item) fun item' hitem => by
          cases hitem
          exact ⟨((h.batch b hb).settling id item hphase).1, by rw [hlength]; rfl⟩
        have heq : (s.park id true item).release id true =
            s.setSub id { s.subs id with pending := some item, pollMu := none } :=
          setPending_unlock s id (some item)
        rw [heq]
        exact locked_endLoop (s := s.setSub id _) hparked b
      · exact locked_next (s := { s.unlock id with batchAfter := id }) hunlocked _

theorem locked_batchStep (hb : s.batch = some b) :
    (s.batchStep encodedLength b).Locked encodedLength := by
  unfold batchStep
  split
  · exact locked_look h b
  · exact locked_tryLock h b _
  · next id hphase => exact locked_checkErrors h b ((h.batch b hb).lock id (by rw [hphase]; rfl))
  · next id hphase => exact locked_checkDone h b ((h.batch b hb).lock id (by rw [hphase]; rfl))
  · next id hphase => exact locked_take h hb hphase
  · next id known item hphase => exact locked_settle h hb hphase
  · exact h

theorem locked_singleReturn (hlock : (s.single t).lock = some id) (hpending : sub.pending = none) :
    Locks encodedLength s.batch (update s.single t .returned) (update s.subs id sub) := by
  refine h.bySingle (.inl ((h.single t).lock id hlock)) (fun item hc => ?_) (.plain rfl)
  rw [hpending] at hc
  cases hc

theorem locked_singleStep (t : ℕ) : (s.singleStep encodedLength t).Locked encodedLength := by
  unfold singleStep
  split
  · next id hphase =>
    split
    · exact h.putSingle (.plain rfl)
    · next hlock =>
      refine h.bySingle (.inr hlock) (h.parked id) ⟨fun id' hc => ?_, fun id' hc => ?_⟩
      · cases hc
        rw [update_self]
      · cases hc
  · next id hphase =>
    have hlock : (s.single t).lock = some id := by rw [hphase]; rfl
    split
    · rw [setPending_unlock]
      exact locked_singleReturn h hlock rfl
    · next hpending =>
      refine h.putSingle ⟨fun id' hc => ?_, fun id' hc => ?_⟩
      · cases hc
        exact (h.single t).lock id hlock
      · cases hc
        exact hpending
  · exact h

theorem locked_step (a : Act) : (s.step encodedLength a).Locked encodedLength := by
  cases a with
  | listen id | register id | cancel id =>
    simp only [step]
    split <;> exact h
  | close => exact h
  -- a callback feeds the queues without the poll lock
  | onEvent id event =>
    simp only [step]
    split_ifs
    · exact h.feed rfl rfl
    · exact h
  | onError id failure =>
    simp only [step]
    split_ifs
    · exact h.feed rfl rfl
    · exact h
  | stop id =>
    simp only [step]
    split
    · exact h.feed rfl rfl
    · exact h
  | pollSubscriptions ids timeoutMS =>
    simp only [step]
    split_ifs
    · split
      · exact h.putBatch (.unlocked (.inl rfl))
      · exact h
    · exact h
  | batch =>
    simp only [step]
    split
    · next b hb => exact locked_batchStep h hb
    · exact h
  | wake =>
    simp only [step]
    split
    · split
      · split_ifs
        · exact h.putBatch (.unlocked (.inl rfl))
        · exact h
      · exact h
    · exact h
  | timer =>
    simp only [step]
    split
    · split
      · exact h.dropBatch
      · exact h
    · exact h
  | pollSubscription t id =>
    simp only [step]
    split
    · split_ifs <;> exact h.putSingle (.plain rfl)
    · exact h
  | single t => exact locked_singleStep h t
  -- every arm of the select returns and drops the lock the poll held
  | selectEvent t =>
    simp only [step]
    split
    · next id hphase =>
      split
      · rw [setSub_unlock]
        exact locked_singleReturn h (by rw [hphase]; rfl) ((h.single t).selecting id hphase)
      · exact h
    · exact h
  | selectError t =>
    simp only [step]
    split
    · next id hphase =>
      split
      · rw [setSub_unlock]
        exact locked_singleReturn h (by rw [hphase]; rfl) ((h.single t).selecting id hphase)
      · exact h
    · exact h
  | selectDone t =>
    simp only [step]
    split
    · next id hphase =>
      split_ifs
      · exact locked_singleReturn h (by rw [hphase]; rfl) ((h.single t).selecting id hphase)
      · exact h
    · exact h
  | selectTimeout t =>
    simp only [step]
    split
    · next id hphase =>
      exact locked_singleReturn h (by rw [hphase]; rfl) ((h.single t).selecting id hphase)
    · exact h

end Locks

/-- **A lock belongs to one call in every run.** -/
theorem locked_run (encodedLength : Item → Option ℕ) (as : List Act) :
    (as.foldl (step encodedLength) {}).Locked encodedLength := by
  refine foldl_invariant (I := Locked encodedLength) (fun _ a h => locked_step h a)
    ⟨fun _ hb => ?_, fun _ => .plain rfl, fun _ _ hitem => ?_⟩ as
  · cases hb
  · cases hitem

end Desktop
