/-
No event is dropped by polling.

The items of a subscription flow from its channel into the running batch call or straight
into a result, sometimes by way of its parking place.  As long as nothing that was collected
is dropped, what polls have taken from the channel is what has flowed on, in order.

* `flow`, `Whole` — the items of a subscription outside its channel, and that they are the
  events taken from it, unless there is an error or the end among them;
* `Kept` — the condition on a step under which a batch call drops nothing and nobody overtakes
  it;
* **`no_event_dropped`** — for every run whose steps meet the condition;
* `collected_event_dropped` — a batch call that finds a subscription locked drops what it has
  collected from the others.
-/
import MyFlowHub.Polling

open Function Runs List

namespace Desktop

/-! ### What flows -/

/-- The item that the batch call has taken and not yet put anywhere. -/
def BatchPhase.item : BatchPhase → List Item
  | .settle _ true item => [item]
  | _ => []

def held : Option Batch → List Item
  | none => []
  | some b => b.items ++ b.phase.item

def Entry.items : Entry → List Item
  | .returned items => items
  | _ => []

def returnedItems (log : List Entry) : List Item := log.flatMap Entry.items

def Entry.tookFrom (id : ℕ) : Entry → Option String
  | .took id' event => if id' = id then some event else none
  | _ => none

def Entry.sentTo (id : ℕ) : Entry → Option String
  | .sent id' event => if id' = id then some event else none
  | _ => none

/-- The events that polls have received from the channel of a subscription. -/
def taken (id : ℕ) (log : List Entry) : List String := log.filterMap (Entry.tookFrom id)

def sent (id : ℕ) (log : List Entry) : List String := log.filterMap (Entry.sentTo id)

/-- The items of a subscription that were returned or collected. -/
def collected (id : ℕ) (s : System) : List Item :=
  (returnedItems s.log ++ held s.batch).filter fun item => item.subscriptionID = id

/-- The items of a subscription that are outside its channels. -/
def flow (id : ℕ) (s : System) : List Item := collected id s ++ (s.subs id).pending.toList

/-- What has flowed is what was taken, unless an error or the end is on its way or reported. -/
def Whole (id : ℕ) (s : System) : Prop :=
  (∃ item ∈ flow id s, item.kind ≠ .event) ∨ (flow id s).map Item.payload = taken id s.log

structure Flowing (s : System) : Prop where
  channel : ∀ id, sent id s.log = taken id s.log ++ (s.subs id).events
  whole : ∀ id, Whole id s

section Flowing

variable {s s' : System}

theorem returnedItems_concat (log : List Entry) (entry : Entry) :
    returnedItems (log ++ [entry]) = returnedItems log ++ entry.items := by
  simp [returnedItems]

theorem taken_concat (id : ℕ) (log : List Entry) (entry : Entry) :
    taken id (log ++ [entry]) = taken id log ++ (entry.tookFrom id).toList := by
  rw [taken, filterMap_append]
  cases h : entry.tookFrom id <;> simp [taken, h]

theorem sent_concat (id : ℕ) (log : List Entry) (entry : Entry) :
    sent id (log ++ [entry]) = sent id log ++ (entry.sentTo id).toList := by
  rw [sent, filterMap_append]
  cases h : entry.sentTo id <;> simp [sent, h]

variable {b : Batch} {id : ℕ}

theorem Whole.congr (h : Whole id s) (hflow : flow id s' = flow id s)
    (htaken : taken id s'.log = taken id s.log) : Whole id s' := by
  unfold Whole
  rw [hflow, htaken]
  exact h

theorem Whole.take {event : String} (h : Whole id s)
    (hflow : flow id s' = flow id s ++ [⟨id, .event, event⟩])
    (htaken : taken id s'.log = taken id s.log ++ [event]) : Whole id s' := by
  unfold Whole
  rw [hflow, htaken]
  rcases h with ⟨item, hitem, hkind⟩ | heq
  · exact Or.inl ⟨item, mem_append_left _ hitem, hkind⟩
  · right
    rw [map_append, heq]
    rfl

theorem Flowing.keep (h : Flowing s) (hsubs : ∀ id, (s'.subs id).pending = (s.subs id).pending ∧
      (s'.subs id).events = (s.subs id).events)
    (hcollected : returnedItems s'.log ++ held s'.batch = returnedItems s.log ++ held s.batch)
    (htaken : ∀ id, taken id s'.log = taken id s.log)
    (hsent : ∀ id, sent id s'.log = sent id s.log) : Flowing s' := by
  refine ⟨fun id => ?_, fun id => (h.whole id).congr ?_ (htaken id)⟩
  · rw [hsent, htaken, (hsubs id).2]
    exact h.channel id
  · rw [flow, flow, collected, collected, hcollected, (hsubs id).1]

theorem Flowing.only (h : Flowing s) (hsubs : ∀ id', id' ≠ id → s'.subs id' = s.subs id')
    (hcollected : ∀ id', id' ≠ id → collected id' s' = collected id' s)
    (htaken : ∀ id', id' ≠ id → taken id' s'.log = taken id' s.log)
    (hsent : ∀ id', id' ≠ id → sent id' s'.log = sent id' s.log)
    (hchannel : sent id s'.log = taken id s'.log ++ (s'.subs id).events) (hwhole : Whole id s') :
    Flowing s' := by
  constructor
  · intro id'
    by_cases hid : id' = id
    · rw [hid]
      exact hchannel
    · rw [hsent id' hid, htaken id' hid, hsubs id' hid]
      exact h.channel id'
  · intro id'
    by_cases hid : id' = id
    · rw [hid]
      exact hwhole
    · refine (h.whole id').congr ?_ (htaken id' hid)
      rw [flow, flow, hcollected id' hid, hsubs id' hid]

/-! ### The batch call -/

theorem held_of_phase (hb : s.batch = some b) (hitem : b.phase.item = []) :
    held s.batch = b.items := by
  rw [hb, held, hitem, append_nil]

theorem collected_endLoop (s : System) (b : Batch) :
    returnedItems (s.endLoop b).log ++ held (s.endLoop b).batch =
      returnedItems s.log ++ b.items := by
  unfold System.endLoop
  by_cases hreturn : b.items ≠ [] ∨ b.timeoutMS = 0
  · rw [if_pos hreturn]
    show returnedItems (s.log ++ [.returned b.items]) ++ [] = _
    rw [append_nil, returnedItems_concat]
    rfl
  · rw [if_neg hreturn]
    show returnedItems s.log ++ (b.items ++ []) = _
    rw [append_nil]

theorem collected_next (s : System) (b : Batch) :
    returnedItems (s.next b).log ++ held (s.next b).batch = returnedItems s.log ++ b.items := by
  unfold System.next
  split_ifs
  · show returnedItems s.log ++ (b.items ++ []) = _
    rw [append_nil]
  · exact collected_endLoop s b

theorem endLoop_frame (s : System) (b : Batch) : (s.endLoop b).subs = s.subs ∧
    (∀ id, taken id (s.endLoop b).log = taken id s.log) ∧
    ∀ id, sent id (s.endLoop b).log = sent id s.log := by
  unfold System.endLoop
  split_ifs
  · refine ⟨rfl, fun id => ?_, fun id => ?_⟩
    · show taken id (s.log ++ [.returned b.items]) = _
      rw [taken_concat]
      exact append_nil _
    · show sent id (s.log ++ [.returned b.items]) = _
      rw [sent_concat]
      exact append_nil _
  · exact ⟨rfl, fun _ => rfl, fun _ => rfl⟩

theorem next_frame (s : System) (b : Batch) : (s.next b).subs = s.subs ∧
    (∀ id, taken id (s.next b).log = taken id s.log) ∧
    ∀ id, sent id (s.next b).log = sent id s.log := by
  unfold System.next
  split_ifs
  · exact ⟨rfl, fun _ => rfl, fun _ => rfl⟩
  · exact endLoop_frame s b

theorem Flowing.fail (h : Flowing s) (hheld : held s.batch = []) (text : String) :
    Flowing (s.fail text) := by
  refine h.keep (fun _ => ⟨rfl, rfl⟩) ?_ (fun id => ?_) (fun id => ?_)
  · show returnedItems (s.log ++ [.failed text]) ++ [] = _
    rw [returnedItems_concat, hheld]
    simp [Entry.items]
  · show taken id (s.log ++ [.failed text]) = _
    rw [taken_concat]
    exact append_nil _
  · show sent id (s.log ++ [.failed text]) = _
    rw [sent_concat]
    exact append_nil _

theorem Flowing.phase (h : Flowing s) {p : BatchPhase} (hb : s.batch = some b)
    (hitem : b.phase.item = []) (hp : p.item = []) {subs : ℕ → Subscription}
    (hsubs : ∀ id, (subs id).pending = (s.subs id).pending ∧ (subs id).events =
      (s.subs id).events) :
    Flowing { s with subs := subs, batch := some { b with phase := p } } := by
  refine h.keep hsubs ?_ (fun _ => rfl) (fun _ => rfl)
  show returnedItems s.log ++ (b.items ++ p.item) = _
  rw [hp, append_nil, held_of_phase hb hitem]

/-! ### Items that are taken -/

/-- One more item is collected or returned, behind the others of its subscription. -/
structure Collects (s s' : System) (item : Item) : Prop where
  self : collected item.subscriptionID s' = collected item.subscriptionID s ++ [item]
  others : ∀ id, id ≠ item.subscriptionID → collected id s' = collected id s
  subs : ∀ id, id ≠ item.subscriptionID → s'.subs id = s.subs id

theorem collects_batch (item : Item) (hb : s.batch = some b) (hitem : b.phase.item = [])
    (hheld : held s'.batch = b.items ++ [item]) (hlog : returnedItems s'.log = returnedItems s.log)
    (hsubs : ∀ id, id ≠ item.subscriptionID → s'.subs id = s.subs id) : Collects s s' item := by
  have hlist : returnedItems s'.log ++ held s'.batch =
      returnedItems s.log ++ held s.batch ++ [item] := by
    rw [hlog, hheld, held_of_phase hb hitem, append_assoc]
  refine ⟨?_, fun id hid => ?_, hsubs⟩
  · rw [collected, hlist, filter_append, collected]
    simp
  · rw [collected, hlist, filter_append, collected]
    simp [hid.symm]

theorem collects_single (item : Item) (hheld : s'.batch = s.batch)
    (hlog : returnedItems s'.log = returnedItems s.log ++ [item])
    (hfree : ∀ x ∈ held s.batch, x.subscriptionID ≠ item.subscriptionID)
    (hsubs : ∀ id, id ≠ item.subscriptionID → s'.subs id = s.subs id) : Collects s s' item := by
  have hnone : (held s.batch).filter (fun x => decide
    (x.subscriptionID = item.subscriptionID)) = [] := by
    refine filter_eq_nil_iff.mpr fun x hx => ?_
    simpa using hfree x hx
  refine ⟨?_, fun id hid => ?_, hsubs⟩
  · rw [collected, hlog, hheld, filter_append, filter_append, hnone, collected,
      filter_append, hnone]
    simp
  · rw [collected, hlog, hheld, filter_append, filter_append, collected, filter_append]
    simp [hid.symm]

/-- An error or the end is collected, and a parked item may be given up for it. -/
theorem Flowing.terminal (h : Flowing s) (item : Item) (hkind : item.kind ≠ .event)
    (hself : item ∈ returnedItems s'.log ++ held s'.batch)
    (hothers : ∀ id, id ≠ item.subscriptionID → collected id s' = collected id s)
    (hsubs : ∀ id, id ≠ item.subscriptionID → s'.subs id = s.subs id)
    (hlog : ∀ id, taken id s'.log = taken id s.log ∧ sent id s'.log = sent id s.log)
    (hevents : (s'.subs item.subscriptionID).events = (s.subs item.subscriptionID).events) :
    Flowing s' := by
  refine h.only hsubs hothers (fun id _ => (hlog id).1) (fun id _ => (hlog id).2) ?_ (Or.inl ?_)
  · rw [(hlog _).1, (hlog _).2, hevents]
    exact h.channel _
  · exact ⟨item, mem_append_left _ (mem_filter.mpr ⟨hself, decide_eq_true rfl⟩), hkind⟩

theorem Flowing.unpark (h : Flowing s) (item : Item) (hc : Collects s s' item)
    (hbefore : (s.subs item.subscriptionID).pending = some item)
    (hafter : (s'.subs item.subscriptionID).pending = none)
    (hlog : ∀ id, taken id s'.log = taken id s.log ∧ sent id s'.log = sent id s.log)
    (hevents : (s'.subs item.subscriptionID).events = (s.subs item.subscriptionID).events) :
    Flowing s' := by
  refine h.only hc.subs hc.others (fun id _ => (hlog id).1) (fun id _ => (hlog id).2) ?_
    ((h.whole _).congr ?_ (hlog _).1)
  · rw [(hlog _).1, (hlog _).2, hevents]
    exact h.channel _
  · rw [flow, flow, hc.self, hbefore, hafter]
    simp

theorem Flowing.receive (h : Flowing s) (id : ℕ) (event : String)
    (hc : Collects s s' ⟨id, .event, event⟩) (hbefore : (s.subs id).pending = none)
    (hafter : (s'.subs id).pending = none)
    (htaken : ∀ id', taken id' s'.log =
      taken id' s.log ++ (Entry.tookFrom id' (.took id event)).toList)
    (hsent : ∀ id', sent id' s'.log = sent id' s.log)
    (hevents : (s.subs id).events = event :: (s'.subs id).events) : Flowing s' := by
  have hself : taken id s'.log = taken id s.log ++ [event] := by
    rw [htaken id]
    simp [Entry.tookFrom]
  refine h.only hc.subs hc.others (fun id' hid => ?_) (fun id' _ => hsent id') ?_
    ((h.whole id).take ?_ hself)
  · rw [htaken id']
    have hid : id' ≠ id := hid
    simp [Entry.tookFrom, hid.symm]
  · rw [hsent, hself, h.channel id, hevents]
    simp
  · have hcollected : collected id s' = collected id s ++ [⟨id, .event, event⟩] := hc.self
    rw [flow, flow, hcollected, hbefore, hafter]
    simp

end Flowing

/-! ### The condition -/

variable (encodedLength : Item → Option ℕ)

/-- An item can be returned: it can be encoded, and its encoding is not too long. -/
def Fits (item : Item) : Prop := ∃ n ∈ encodedLength item, n + 2 ≤ maxPollSingleBytes

instance : DecidablePred (Fits encodedLength) := fun _ => inferInstanceAs (Decidable (∃ n ∈ _, _))

/-- The batch call can go on without dropping what it has collected: if it has collected
something, the client is open and the next subscription is not locked; and what it takes fits. -/
def BatchPhase.Safe (s : System) (items : List Item) : BatchPhase → Prop
  | .look => items ≠ [] → s.opened = true
  | .tryLock id => items ≠ [] → (s.subs id).pollMu = none
  | .settle _ _ item => Fits encodedLength item
  | _ => True

instance (s : System) (items : List Item) : DecidablePred (BatchPhase.Safe encodedLength s items)
  | .look | .tryLock _ => inferInstanceAs (Decidable (_ → _))
  | .settle _ _ item => inferInstanceAs (Decidable (Fits encodedLength item))
  | .checkErrors _ | .checkDone _ | .take _ | .waiting => inferInstanceAs (Decidable True)

/-- The batch call holds no item of the subscription. -/
def Unheld (s : System) (id : ℕ) : Prop := ∀ x ∈ held s.batch, x.subscriptionID ≠ id

instance (s : System) : DecidablePred (Unheld s) := fun _ =>
  inferInstanceAs (Decidable (∀ x ∈ _, _))

/-- The subscription whose parked item a call looks for. -/
def SinglePhase.looksIn : SinglePhase → Option ℕ
  | .locked id => some id
  | _ => none

/-- The subscription from whose channels a call receives. -/
def SinglePhase.receivesFrom : SinglePhase → Option ℕ
  | .selecting id => some id
  | _ => none

/-- What a step has to meet so that no event is dropped or overtaken. -/
def Kept (s : System) : Act → Prop
  | .batch => ∀ b ∈ s.batch, b.phase.Safe encodedLength s b.items
  | .single t => ∀ id ∈ (s.single t).looksIn, Unheld s id
  | .selectEvent t => ∀ id ∈ (s.single t).receivesFrom, Unheld s id ∧
      ∀ event ∈ (s.subs id).events.head?, Fits encodedLength ⟨id, .event, event⟩
  | _ => True

instance (s : System) : DecidablePred (Kept encodedLength s)
  | .batch => inferInstanceAs (Decidable (∀ b ∈ s.batch, _))
  | .single t => inferInstanceAs (Decidable (∀ id ∈ (s.single t).looksIn, _))
  | .selectEvent t => inferInstanceAs (Decidable (∀ id ∈ (s.single t).receivesFrom, _))
  | .listen _ | .register _ | .onEvent .. | .onError .. | .cancel _ | .close | .stop _
  | .pollSubscriptions .. | .wake | .timer | .pollSubscription .. | .selectError _
  | .selectDone _ | .selectTimeout _ => inferInstanceAs (Decidable True)

section Steps

variable {encodedLength : Item → Option ℕ} {s : System}

theorem update_frame (s : System) (id : ℕ) (sub : Subscription)
    (hpending : sub.pending = (s.subs id).pending) (hevents : sub.events = (s.subs id).events)
    (id' : ℕ) :
    (update s.subs id sub id').pending = (s.subs id').pending ∧
      (update s.subs id sub id').events = (s.subs id').events := by
  by_cases hid : id' = id
  · rw [hid, update_self]
    exact ⟨hpending, hevents⟩
  · rw [update_of_ne hid]
    exact ⟨rfl, rfl⟩

variable {b : Batch} {id t : ℕ}

section

variable (h : Flowing s)
include h

section

variable (hb : s.batch = some b) (hitem : b.phase.item = [])
include hb hitem

theorem flowing_look (hsafe : b.items ≠ [] → s.opened = true) : Flowing (s.look b) := by
  unfold System.look
  dsimp only
  split_ifs with hclosed hregistered
  · refine h.fail ?_ _
    rw [held_of_phase hb hitem]
    by_contra hne
    rw [hsafe hne] at hclosed
    cases hclosed
  · exact h.phase hb hitem rfl fun _ => ⟨rfl, rfl⟩
  · exact h.phase hb hitem rfl fun _ => ⟨rfl, rfl⟩

theorem flowing_tryLock (hsafe : b.items ≠ [] → (s.subs id).pollMu = none) :
    Flowing (s.tryLock b id) := by
  unfold System.tryLock
  cases hlock : (s.subs id).pollMu with
  | some owner =>
    refine h.fail ?_ _
    rw [held_of_phase hb hitem]
    by_contra hne
    rw [hsafe hne] at hlock
    cases hlock
  | none => exact h.phase hb hitem rfl (update_frame s id _ rfl rfl)

theorem flowing_terminal (item : Item) (hid : item.subscriptionID = id) (hkind : item.kind ≠ .event)
    (sub : Subscription) (hevents : sub.events = (s.subs id).events) :
    Flowing ((s.setSub id sub).setBatch { b with phase := .settle id true item }) := by
  subst hid
  have hc : Collects s ((s.setSub item.subscriptionID sub).setBatch
      { b with phase := .settle item.subscriptionID true item }) item :=
    collects_batch item hb hitem rfl rfl fun id' hid => update_of_ne hid _ _
  refine h.terminal item hkind ?_ hc.others hc.subs (fun _ => ⟨rfl, rfl⟩) ?_
  · show item ∈ returnedItems s.log ++ (b.items ++ [item])
    simp
  · show (update s.subs item.subscriptionID sub item.subscriptionID).events = _
    rw [update_self]
    exact hevents

theorem flowing_checkErrors : Flowing (s.checkErrors b id) := by
  unfold System.checkErrors
  split
  · next failure rest _ =>
    exact flowing_terminal h hb hitem ⟨id, .error, failure⟩ rfl (by simp) _ rfl
  · exact h.phase hb hitem rfl fun _ => ⟨rfl, rfl⟩

theorem flowing_checkDone : Flowing (s.checkDone b id) := by
  unfold System.checkDone
  split_ifs
  · exact flowing_terminal h hb hitem ⟨id, .closed, ""⟩ rfl (by simp) _ rfl
  · exact h.phase hb hitem rfl fun _ => ⟨rfl, rfl⟩

end

section

variable (hlocked : s.Locked encodedLength)
include hlocked

variable (hb : s.batch = some b)
include hb

theorem flowing_take (hphase : b.phase = .take id) : Flowing (s.take b id) := by
  have hitem : b.phase.item = [] := by rw [hphase]; rfl
  unfold System.take
  cases hpending : (s.subs id).pending with
  | some item =>
    obtain rfl : item.subscriptionID = id := (hlocked.parked id item hpending).1
    refine h.unpark item (collects_batch item hb hitem rfl rfl fun id' hid => update_of_ne hid _ _)
      hpending
      ?_ (fun _ => ⟨rfl, rfl⟩) ?_
    · show (update s.subs item.subscriptionID _ item.subscriptionID).pending = none
      rw [update_self]
    · show (update s.subs item.subscriptionID _ item.subscriptionID).events = _
      rw [update_self]
  | none =>
    cases hevents : (s.subs id).events with
    | cons event rest =>
      refine h.receive id event (collects_batch _ hb hitem rfl ?_
        fun id' hid => update_of_ne hid _ _) hpending ?_ (fun id' => ?_) (fun id' => ?_) ?_
      · show returnedItems (s.log ++ [.took id event]) = _
        rw [returnedItems_concat]
        exact append_nil _
      · show (update s.subs id _ id).pending = none
        rw [update_self]
        exact hpending
      · exact taken_concat id' s.log (.took id event)
      · show sent id' (s.log ++ [.took id event]) = _
        rw [sent_concat]
        exact append_nil _
      · show (s.subs id).events = event :: (update s.subs id _ id).events
        rw [update_self, hevents]
    | nil =>
      obtain ⟨hsubs, htaken, hsent⟩ := next_frame (s.unlock id) b
      refine h.keep (fun id' => ?_) ?_ htaken hsent
      · rw [hsubs]
        exact update_frame s id { s.subs id with pollMu := none } rfl rfl id'
      · rw [collected_next, held_of_phase hb hitem]
        rfl

/-- The subscription of the item that is settled is left unlocked, with what is parked in it. -/
theorem flowing_settle {known : Bool} {item : Item} (hphase : b.phase = .settle id known item)
    (hfits : Fits encodedLength item) : Flowing (s.settle encodedLength b id known item) := by
  obtain ⟨n, hlength, hn⟩ := hfits
  unfold System.settle
  simp only [Option.mem_def.mp hlength]
  rw [if_neg (Nat.not_lt.mpr hn)]
  cases known with
  | false =>
    -- a made up item is not parked
    have hheld : held s.batch = b.items := held_of_phase hb (by rw [hphase]; rfl)
    obtain rfl := (hlocked.batch b hb).madeUp id item hphase
    have hrelease : s.release id false = s := rfl
    have hpark : s.park id false (goneItem id) = s := rfl
    rw [hpark, hrelease]
    split_ifs
    · obtain ⟨hsubs, htaken, hsent⟩ := endLoop_frame s b
      refine h.keep (fun id' => ?_) ?_ htaken hsent
      · show ((s.endLoop b).subs id').pending = _ ∧ ((s.endLoop b).subs id').events = _
        rw [hsubs]
        exact ⟨rfl, rfl⟩
      · rw [hheld]
        exact collected_endLoop s b
    · obtain ⟨hsubs, htaken, hsent⟩ := next_frame { s with batchAfter := id }
        { b with items := b.items ++ [goneItem id], bytes := b.bytes + n + 1 }
      have hcollected := collected_next { s with batchAfter := id }
        { b with items := b.items ++ [goneItem id], bytes := b.bytes + n + 1 }
      refine h.terminal (goneItem id) (by simp [goneItem]) ?_ (fun id' hid => ?_) (fun id' _ => ?_)
        (fun id' => ⟨htaken id', hsent id'⟩) ?_
      · show goneItem id ∈ returnedItems (System.next _ _).log ++ held (System.next _ _).batch
        rw [hcollected]
        simp
      · have hid' : id ≠ id' := fun hc => hid hc.symm
        show List.filter _ (returnedItems (System.next _ _).log ++ held (System.next _ _).batch) = _
        rw [hcollected, collected, hheld, ← append_assoc, filter_append]
        simp [goneItem, hid']
      · exact congrFun hsubs id'
      · exact congrArg Subscription.events (congrFun hsubs _)
  | true =>
    obtain ⟨hid, hpending⟩ := (hlocked.batch b hb).settling id item hphase
    have hheld : held s.batch = b.items ++ [item] := by
      rw [hb, held, hphase]
      rfl
    split_ifs
    · -- the item is parked
      have hpark : (s.park id true item).release id true =
          s.setSub id { s.subs id with pending := some item, pollMu := none } :=
        setPending_unlock s id (some item)
      rw [hpark]
      obtain ⟨hsubs, htaken, hsent⟩ := endLoop_frame
        (s.setSub id { s.subs id with pending := some item, pollMu := none }) b
      have hcollected := collected_endLoop
        (s.setSub id { s.subs id with pending := some item, pollMu := none }) b
      have hself : update s.subs id { s.subs id with pending := some item, pollMu := none } id =
          { s.subs id with pending := some item, pollMu := none } := update_self ..
      have hother : ∀ id', id' ≠ id → ((s.setSub id { s.subs id with
          pending := some item, pollMu := none }).endLoop b).subs id' = s.subs id' :=
            fun id' hid' =>
        (congrFun hsubs id').trans (update_of_ne hid' _ _)
      refine h.only hother (fun id' hid' => ?_) (fun id' _ => htaken id')
        (fun id' _ => hsent id') ?_
        ((h.whole id).congr ?_ (htaken id))
      · have hne : item.subscriptionID ≠ id' := by
          rw [hid]
          exact hid'.symm
        rw [collected, hcollected, collected, hheld, ← append_assoc,
          filter_append (returnedItems s.log ++ b.items)]
        simp [hne, System.setSub]
      · rw [htaken, hsent, congrFun hsubs id]
        show _ = _ ++ (update s.subs id _ id).events
        rw [hself]
        exact h.channel id
      · rw [flow, flow, collected, hcollected, collected, hheld, congrFun hsubs id]
        show _ ++ (update s.subs id _ id).pending.toList = _
        rw [hself, hpending, ← append_assoc, filter_append (returnedItems s.log ++ b.items)]
        simp [hid, System.setSub]
    · -- the item is collected
      obtain ⟨hsubs, htaken, hsent⟩ := next_frame { s.unlock id with batchAfter := id }
        { b with items := b.items ++ [item], bytes := b.bytes + n + 1 }
      refine h.keep (fun id' => ?_) ?_ htaken hsent
      · have hsame := congrFun hsubs id'
        have hframe := update_frame s id { s.subs id with pollMu := none } rfl rfl id'
        exact ⟨(congrArg Subscription.pending hsame).trans hframe.1,
          (congrArg Subscription.events hsame).trans hframe.2⟩
      · rw [hheld]
        exact collected_next { s.unlock id with batchAfter := id }
          { b with items := b.items ++ [item], bytes := b.bytes + n + 1 }

theorem flowing_batchStep (hsafe : b.phase.Safe encodedLength s b.items) :
    Flowing (s.batchStep encodedLength b) := by
  unfold System.batchStep
  split
  · next hphase =>
    rw [hphase] at hsafe
    exact flowing_look h hb (by rw [hphase]; rfl) hsafe
  · next id hphase =>
    rw [hphase] at hsafe
    exact flowing_tryLock h hb (by rw [hphase]; rfl) hsafe
  · next id hphase => exact flowing_checkErrors h hb (by rw [hphase]; rfl)
  · next id hphase => exact flowing_checkDone h hb (by rw [hphase]; rfl)
  · next id hphase => exact flowing_take h hlocked hb hphase
  · next id known item hphase =>
    rw [hphase] at hsafe
    exact flowing_settle h hlocked hb hphase hsafe
  · exact h

end

/-! ### The other calls, and runs -/

theorem Flowing.note {entry : Entry} (hitems : entry.items = [])
    (htook : ∀ id, entry.tookFrom id = none) (hsent : ∀ id, entry.sentTo id = none) :
    Flowing (s.record entry) := by
  refine h.keep (fun _ => ⟨rfl, rfl⟩) ?_ (fun id => ?_) (fun id => ?_)
  · show returnedItems (s.log ++ [entry]) ++ held s.batch = _
    rw [returnedItems_concat, hitems, append_nil]
  · show taken id (s.log ++ [entry]) = _
    rw [taken_concat, htook]
    exact append_nil _
  · show sent id (s.log ++ [entry]) = _
    rw [sent_concat, hsent]
    exact append_nil _

/-- A subscription changes, but neither its events nor its parked item; a call changes too. -/
theorem Flowing.frame {sub : Subscription} (single : ℕ → SinglePhase)
    (hpending : sub.pending = (s.subs id).pending) (hevents : sub.events = (s.subs id).events) :
    Flowing { s with subs := update s.subs id sub, single := single } :=
  h.keep (update_frame s id sub hpending hevents) rfl (fun _ => rfl) (fun _ => rfl)

end

theorem answer_log (s : System) (t : ℕ) {item : Item} (h : (encodedLength item).isSome = true) :
    (s.answer encodedLength t item).log = s.log ++ [.returned [item]] := by
  unfold System.answer
  rw [if_pos h]
  rfl

variable (h : Flowing s)
include h

theorem flowing_unpark (hlocked : s.Locked encodedLength) {item : Item}
    (hpending : (s.subs id).pending = some item) (hunheld : Unheld s id) :
    Flowing (((s.setPending id none).unlock id).answer encodedLength t item) := by
  obtain ⟨rfl, hencodes⟩ := hlocked.parked id item hpending
  rw [setPending_unlock]
  have hself : update s.subs item.subscriptionID { s.subs item.subscriptionID with
      pending := none, pollMu := none } item.subscriptionID =
        { s.subs item.subscriptionID with pending := none, pollMu := none } := update_self ..
  have hlog := answer_log (s.setSub item.subscriptionID { s.subs item.subscriptionID with
    pending := none, pollMu := none }) t hencodes
  refine h.unpark item (collects_single item rfl ?_ hunheld fun id' hid => update_of_ne hid _ _)
    hpending ((congrArg Subscription.pending hself).trans rfl) (fun id' => ?_)
    ((congrArg Subscription.events hself).trans rfl)
  · rw [hlog]
    exact returnedItems_concat ..
  · rw [hlog]
    exact ⟨(taken_concat ..).trans (append_nil _), (sent_concat ..).trans (append_nil _)⟩

theorem flowing_receive (hlocked : s.Locked encodedLength) {event : String} {rest : List String}
    (hphase : s.single t = .selecting id) (hevents : (s.subs id).events = event :: rest)
    (hunheld : Unheld s id) (hencodes : (encodedLength ⟨id, .event, event⟩).isSome = true) :
    Flowing ((((s.setSub id { s.subs id with events := rest }).unlock id).record
      (.took id event)).answer encodedLength t ⟨id, .event, event⟩) := by
  have hpending := (hlocked.single t).selecting id hphase
  rw [setSub_unlock]
  have hself : update s.subs id { s.subs id with events := rest, pollMu := none } id =
      { s.subs id with events := rest, pollMu := none } := update_self ..
  have hlog := answer_log ((s.setSub id { s.subs id with events := rest, pollMu := none }).record
    (.took id event)) t hencodes
  refine h.receive id event (collects_single ⟨id, .event, event⟩ rfl ?_ hunheld fun id' hid =>
    update_of_ne hid _ _) hpending ((congrArg Subscription.pending hself).trans hpending)
    (fun id' => ?_) (fun id' => ?_) ?_
  · rw [hlog, returnedItems_concat]
    show returnedItems (s.log ++ [.took id event]) ++ _ = _
    rw [returnedItems_concat]
    simp [Entry.items]
  · rw [hlog, taken_concat]
    show taken id' (s.log ++ [.took id event]) ++ [] = _
    rw [append_nil, taken_concat]
  · rw [hlog, sent_concat]
    show sent id' (s.log ++ [.took id event]) ++ [] = _
    rw [append_nil, sent_concat]
    exact append_nil _
  · rw [hevents]
    exact congrArg (event :: ·) (congrArg Subscription.events hself).symm

theorem flowing_report {item : Item} {sub : Subscription} (hid : item.subscriptionID = id)
    (hkind : item.kind ≠ .event) (hpending : sub.pending = (s.subs id).pending)
    (hevents : sub.events = (s.subs id).events) :
    Flowing ((s.setSub id sub).answer encodedLength t item) := by
  by_cases hencodes : (encodedLength item).isSome = true
  · subst hid
    have hlog := answer_log (s.setSub item.subscriptionID sub) t hencodes
    refine h.terminal item hkind ?_ (fun id' hid' => ?_) (fun id' hid' => update_of_ne hid' _ _)
      (fun id' => ?_) ((congrArg Subscription.events (update_self ..)).trans hevents)
    · rw [hlog, returnedItems_concat]
      simp [Entry.items]
    · rw [collected, hlog, returnedItems_concat, collected]
      show List.filter _ (returnedItems s.log ++ [item] ++ held s.batch) = _
      simp [hid'.symm]
    · rw [hlog]
      exact ⟨(taken_concat ..).trans (append_nil _), (sent_concat ..).trans (append_nil _)⟩
  · unfold System.answer
    rw [if_neg hencodes]
    exact Flowing.note (s := { s with subs := update s.subs id sub, single := _ })
      (h.frame _ hpending hevents) rfl (fun _ => rfl) (fun _ => rfl)

theorem flowing_singleStep (hlocked : s.Locked encodedLength) (t : ℕ)
    (hkept : ∀ id ∈ (s.single t).looksIn, Unheld s id) :
    Flowing (s.singleStep encodedLength t) := by
  unfold System.singleStep
  split
  · split
    · exact Flowing.note (s := s.setSingle t .returned)
        (h.keep (fun _ => ⟨rfl, rfl⟩) rfl (fun _ => rfl) (fun _ => rfl)) rfl (fun _ => rfl)
        (fun _ => rfl)
    · exact h.frame _ rfl rfl
  · next id hphase =>
    split
    · next item hpending => exact flowing_unpark h hlocked hpending (hkept id (by rw [hphase]; rfl))
    · exact h.keep (fun _ => ⟨rfl, rfl⟩) rfl (fun _ => rfl) (fun _ => rfl)
  · exact h

theorem flowing_onEvent (id : ℕ) (event : String) :
    Flowing ({ s.setSub id { s.subs id with events := (s.subs id).events ++ [event] } with
      ready := true }.record (.sent id event)) := by
  have hself : update s.subs id { s.subs id with events := (s.subs id).events ++ [event] } id =
      { s.subs id with events := (s.subs id).events ++ [event] } := update_self ..
  have htaken : ∀ id', taken id' (s.log ++ [.sent id event]) = taken id' s.log := fun id' =>
    (taken_concat ..).trans (append_nil _)
  have hreturned : returnedItems (s.log ++ [.sent id event]) = returnedItems s.log :=
    (returnedItems_concat ..).trans (append_nil _)
  have hcollected : ∀ id', collected id' ({ s.setSub id { s.subs id with
      events := (s.subs id).events ++ [event] } with ready := true }.record (.sent id event)) =
        collected id' s := by
    intro id'
    show List.filter _ (returnedItems (s.log ++ [.sent id event]) ++ held s.batch) = _
    rw [hreturned]
    rfl
  refine h.only (fun id' hid => update_of_ne hid _ _) (fun id' _ => hcollected id')
    (fun id' _ => htaken id') (fun id' hid => ?_) ?_ ((h.whole id).congr ?_ (htaken id))
  · refine (sent_concat id' s.log (.sent id event)).trans ?_
    simp [Entry.sentTo, hid.symm]
  · show sent id (s.log ++ [.sent id event]) =
      taken id (s.log ++ [.sent id event]) ++ (update s.subs id _ id).events
    rw [sent_concat, htaken, hself, h.channel id]
    simp [Entry.sentTo]
  · rw [flow, hcollected]
    show _ ++ (update s.subs id _ id).pending.toList = _
    rw [hself]
    rfl

theorem flowing_step (hlocked : s.Locked encodedLength) (a : Act) (hkept : Kept encodedLength s a) :
    Flowing (s.step encodedLength a) := by
  cases a with
  | listen id | register id | cancel id =>
    simp only [System.step]
    split
    · exact h.keep (fun _ => ⟨rfl, rfl⟩) rfl (fun _ => rfl) (fun _ => rfl)
    · exact h
  | close => exact h.keep (fun _ => ⟨rfl, rfl⟩) rfl (fun _ => rfl) (fun _ => rfl)
  | onEvent id event =>
    simp only [System.step]
    split_ifs
    · exact flowing_onEvent h id event
    · exact h
  | onError id failure =>
    simp only [System.step]
    split_ifs
    · exact h.keep (update_frame s id _ rfl rfl) rfl (fun _ => rfl) (fun _ => rfl)
    · exact h
  | stop id =>
    simp only [System.step]
    split
    · exact h.keep (update_frame s id _ rfl rfl) rfl (fun _ => rfl) (fun _ => rfl)
    · exact h
  | pollSubscriptions ids timeoutMS =>
    simp only [System.step]
    split_ifs
    · split
      · next hb =>
        refine h.keep (fun _ => ⟨rfl, rfl⟩) ?_ (fun _ => rfl) (fun _ => rfl)
        rw [hb]
        rfl
      · exact h
    · exact h
  -- what a batch holds has left its queue and is not yet returned
  | batch =>
    simp only [System.step]
    split
    · next b hb => exact flowing_batchStep h hlocked hb (hkept b hb)
    · exact h
  | wake =>
    simp only [System.step]
    split
    · next b hb =>
      split
      · next hphase =>
        split_ifs
        · refine h.keep (fun _ => ⟨rfl, rfl⟩) ?_ (fun _ => rfl) (fun _ => rfl)
          rw [held_of_phase hb (by rw [hphase]; rfl), (hlocked.batch b hb).waiting hphase]
          rfl
        · exact h
      · exact h
    · exact h
  | timer =>
    simp only [System.step]
    split
    · next b hb =>
      split
      · next hphase =>
        refine Flowing.note (s := { s with batch := none }) ?_ rfl (fun _ => rfl) (fun _ => rfl)
        refine h.keep (fun _ => ⟨rfl, rfl⟩) ?_ (fun _ => rfl) (fun _ => rfl)
        rw [held_of_phase hb (by rw [hphase]; rfl), (hlocked.batch b hb).waiting hphase]
        rfl
      · exact h
    · exact h
  | pollSubscription t id =>
    simp only [System.step]
    split
    · split_ifs
      · exact h.keep (fun _ => ⟨rfl, rfl⟩) rfl (fun _ => rfl) (fun _ => rfl)
      · exact Flowing.note (s := s.setSingle t .returned)
          (h.keep (fun _ => ⟨rfl, rfl⟩) rfl (fun _ => rfl) (fun _ => rfl)) rfl (fun _ => rfl)
          (fun _ => rfl)
    · exact h
  | single t => exact flowing_singleStep h hlocked t hkept
  -- the select of a single poll: the event it takes is returned in the same step
  | selectEvent t =>
    simp only [System.step]
    split
    · next id hphase =>
      split
      · next event rest hevents =>
        obtain ⟨hunheld, hfits⟩ := hkept id (by rw [hphase]; rfl)
        obtain ⟨n, hn, -⟩ := hfits event (by rw [hevents]; rfl)
        exact flowing_receive h hlocked hphase hevents hunheld (Option.isSome_of_mem hn)
      · exact h
    · exact h
  | selectError t =>
    simp only [System.step]
    split
    · split
      · rw [setSub_unlock]
        exact flowing_report h rfl (by simp) rfl rfl
      · exact h
    · exact h
  | selectDone t =>
    simp only [System.step]
    split
    · split_ifs
      · exact flowing_report h rfl (by simp) rfl rfl
      · exact h
    · exact h
  | selectTimeout t =>
    simp only [System.step]
    split
    · refine Flowing.note (s := { s with subs := update s.subs _ _, single := _ }) ?_ rfl
        (fun _ => rfl) (fun _ => rfl)
      exact h.frame _ rfl rfl
    · exact h

end Steps

/-- **Batch polling drops no event** in a run in which a batch call that has collected something
finds the client open and the next subscription unlocked, what it takes fits, and nobody polls a
subscription of which it holds an item: the events taken from a channel are a first part of
those sent, and they are those of the subscription that were returned, are collected by the
batch call under way, or are parked, each once and in order, unless an error or the end of the
subscription is among these.  A call for one subscription returns what is parked in it. -/
theorem no_event_dropped (as : List Act)
    (h : Along (System.step encodedLength) (Kept encodedLength) {} as) (id : ℕ) :
    sent id (as.foldl (System.step encodedLength) {}).log =
      taken id (as.foldl (System.step encodedLength) {}).log ++
        ((as.foldl (System.step encodedLength) {}).subs id).events ∧
    ((∃ item ∈ flow id (as.foldl (System.step encodedLength) {}), item.kind ≠ .event) ∨
      (flow id (as.foldl (System.step encodedLength) {})).map Item.payload =
        taken id (as.foldl (System.step encodedLength) {}).log) ∧
    ∀ t item, (as.foldl (System.step encodedLength) {}).single t = .locked id →
      ((as.foldl (System.step encodedLength) {}).subs id).pending = some item →
      ((as.foldl (System.step encodedLength) {}).step encodedLength (.single t)).log =
        (as.foldl (System.step encodedLength) {}).log ++ [.returned [item]] := by
  obtain ⟨hlocked, hflowing⟩ :
      (as.foldl (System.step encodedLength) {}).Locked encodedLength ∧
        Flowing (as.foldl (System.step encodedLength) {}) := by
    refine foldl_along (I := fun s => s.Locked encodedLength ∧ Flowing s)
      (fun s a hs hkept => ⟨locked_step hs.1 a, flowing_step hs.2 hs.1 a hkept⟩) ⟨?_, ?_⟩ h
    · refine ⟨fun b hb => (nomatch hb), fun t => .plain rfl, fun id item hitem => ?_⟩
      cases hitem
    · exact ⟨fun _ => rfl, fun _ => Or.inr rfl⟩
  refine ⟨hflowing.channel id, hflowing.whole id, fun t item hphase hpending => ?_⟩
  have hencodes := (hlocked.parked id item hpending).2
  simp only [System.step, System.singleStep, hphase, hpending]
  exact answer_log _ t hencodes

/-- Encodings with fifty characters around the payload. -/
def plainLength (item : Item) : Option ℕ := some (item.payload.length + 50)

def twoSubscriptions : List Act :=
  [.listen 1, .register 1, .listen 2, .register 2, .onEvent 1 "a"]

/-- A batch call goes over both subscriptions: one round takes the event, the next finds nothing. -/
def servedRun : List Act :=
  twoSubscriptions ++ .pollSubscriptions [2, 1] 0 :: List.replicate 11 .batch

theorem no_event_dropped_served :
    Along (System.step plainLength) (Kept plainLength) {} servedRun ∧
    returnedItems (servedRun.foldl (System.step plainLength) {}).log = [⟨1, .event, "a"⟩] ∧
    sent 1 (servedRun.foldl (System.step plainLength) {}).log =
      taken 1 (servedRun.foldl (System.step plainLength) {}).log ++
        ((servedRun.foldl (System.step plainLength) {}).subs 1).events := by
  have hkept : Along (System.step plainLength) (Kept plainLength) {} servedRun := by
    decide
  exact ⟨hkept, by decide, (no_event_dropped plainLength _ hkept 1).1⟩

/-- A call for the second subscription waits for its events, so the second round fails. -/
def lockedRun : List Act :=
  twoSubscriptions ++ [.pollSubscription 0 2, .single 0, .single 0] ++
    .pollSubscriptions [2, 1] 0 :: List.replicate 8 .batch

/-- The event of the first subscription was taken, and neither returned nor kept anywhere; no
error or end of that subscription was reported. -/
theorem collected_event_dropped :
    taken 1 (lockedRun.foldl (System.step plainLength) {}).log = ["a"] ∧
    flow 1 (lockedRun.foldl (System.step plainLength) {}) = [] := by
  decide

end Desktop
