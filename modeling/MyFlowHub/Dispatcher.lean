/-
The dispatcher of commands (`runtime/command/dispatcher.go`).

`Invoke` keeps a command from running twice.  An identifier is pending while its command is
under way and cached for a while after it was completed; a new call with a pending or cached
identifier is a duplicate.  The cache has a limit in time and one in size.  Its entries are
in a list, least recently used first, with a map from identifiers to elements of the list.

A call and the goroutine that executes its command go through phases, and every critical
section, every communication and every reading of the clock between critical sections is a
step of its own.  `log` is the history of a run.

* `Agree` — the map and the list hold the same entries;
* `prune_spec`, `evict_spec` — what the limits take out of the cache;
* **`expired_forgotten`**, **`expired_kept`** — whether an expired entry is forgotten.
-/
import MyFlowHub.Protocol
import MyFlowHub.Tables

open Std Function Tables List

namespace Command

/-! ### Results -/

/-- `command.Result`. -/
structure Result where
  schema : String := ""
  output : List UInt8 := []
  failure : Option ErrorPayload := none
  deriving DecidableEq

def codeText : ErrorCode → String
  | .malformed => "malformed"
  | .unsupported => "unsupported"
  | .unauthenticated => "unauthenticated"
  | .forbidden => "forbidden"
  | .notFound => "not_found"
  | .conflict => "conflict"
  | .staleEpoch => "stale_epoch"
  | .expired => "expired"
  | .overflow => "overflow"
  | .timeout => "timeout"
  | .gone => "gone"
  | .gap => "gap"
  | .rateLimited => "rate_limited"
  | .internal => "internal"

def timeoutResult (message : String) : Result :=
  { failure := some ⟨.timeout, message, true, []⟩ }

def forbiddenResult (message : String) : Result :=
  { failure := some ⟨.forbidden, message, false, []⟩ }

/-- `duplicateResult`, with the details of a cached failure. -/
def duplicateResult (details : List (String × String)) : Result :=
  { failure := some ⟨.conflict, "duplicate command message", false, details⟩ }

/-- `ErrPendingLimit` as a result. -/
def overflowResult : Result :=
  { failure := some ⟨.overflow, "command concurrency limit reached", true, []⟩ }

inductive ContextError where
  | canceled | deadlineExceeded
  deriving DecidableEq

def resultForContext : ContextError → Result
  | .deadlineExceeded => timeoutResult "context deadline exceeded"
  | .canceled => { failure := some ⟨.expired, "context canceled", true, []⟩ }

/-! ### Configuration and calls -/

/-- `command.Config` as it is given; durations are nanoseconds. -/
structure RawConfig where
  maxActive : ℤ
  maxDedup : ℤ
  dedupTTL : ℤ

/-- A configuration that `normalized` accepted. -/
structure Config where
  maxActive : ℕ
  maxDedup : ℕ
  dedupTTL : ℕ
  active_pos : 0 < maxActive
  dedup_pos : 0 < maxDedup
  ttl_pos : 0 < dedupTTL
  active_le : maxActive ≤ maxDedup

/-- A number of the configuration, or its default. -/
def orDefault (value : ℤ) (default : ℕ) : ℕ := if value ≤ 0 then default else value.toNat

theorem orDefault_pos (value : ℤ) {default : ℕ} (h : 0 < default) :
    0 < orDefault value default := by
  unfold orDefault
  split_ifs
  · exact h
  · omega

/-- `Config.normalized`. -/
def RawConfig.normalized (c : RawConfig) : Except String Config :=
  if h : orDefault c.maxActive 64 ≤ orDefault c.maxDedup 4096 then
    .ok
      { maxActive := orDefault c.maxActive 64
        maxDedup := orDefault c.maxDedup 4096
        dedupTTL := orDefault c.dedupTTL 300000000000
        active_pos := orDefault_pos _ (by decide)
        dedup_pos := orDefault_pos _ (by decide)
        ttl_pos := orDefault_pos _ (by decide)
        active_le := h }
  else .error "command max active cannot exceed dedup capacity"

/-- `command.Origin`; `unknown` is every other number. -/
inductive Origin where
  | unknown | adjudicated | parentControl
  deriving DecidableEq

/-- The parts of `command.Call` that `Invoke` reads. -/
structure Call where
  messageID : MessageID
  deadline : ℕ
  origin : Origin

/-- The checks of `Invoke` before it touches the state.  `invalid` is the error of the other
identifiers of the call, `authorizer` the answer of the authorizer, if there is one. -/
def Call.refusal (c : Call) (now : ℕ) (invalid : Option String)
    (authorizer : Option (Option String)) : Option Result :=
  if c.messageID = 0 then some {}
  else if invalid.isSome then some {}
  else if c.deadline ≤ now then some (timeoutResult "command deadline has expired")
  else
    match c.origin, authorizer with
    | .unknown, _ => some (forbiddenResult "command has no trusted authorization origin")
    | .parentControl, _ => none
    | .adjudicated, none => some (forbiddenResult "command authorizer is not configured")
    | .adjudicated, some answer => answer.map forbiddenResult

/-! ### The dispatcher -/

/-- `cacheRecord`.  The list never holds two records of one identifier, so a record stands for
its element. -/
structure CacheRecord where
  id : MessageID
  result : Result
  expires : ℕ
  deriving DecidableEq

abbrev Cache := ExtTreeMap MessageID CacheRecord compare

structure Dispatcher where
  active : ℕ := 0
  pending : Finset MessageID := ∅
  cache : Cache := ∅
  cacheLRU : List CacheRecord := []

/-- `pruneLocked`: the entries at the front go as long as they have expired. -/
def prune (now : ℕ) : List CacheRecord → Cache → List CacheRecord × Cache
  | [], cache => ([], cache)
  | front :: rest, cache =>
    if now < front.expires then (front :: rest, cache)
    else prune now rest (cache.erase front.id)

/-- The loop of `complete` with `removeOldestLocked`. -/
def evict (maxDedup : ℕ) : List CacheRecord → Cache → List CacheRecord × Cache
  | [], cache => ([], cache)
  | front :: rest, cache =>
    if cache.size > maxDedup then evict maxDedup rest (cache.erase front.id)
    else (front :: rest, cache)

namespace Dispatcher

variable (d : Dispatcher)

def pruneLocked (now : ℕ) : Dispatcher :=
  { d with cacheLRU := (prune now d.cacheLRU d.cache).1, cache := (prune now d.cacheLRU d.cache).2 }

/-- The details that a duplicate is told about the first call. -/
def previousCode (r : CacheRecord) : List (String × String) :=
  match r.result.failure with
  | none => []
  | some failure => [("previous_code", codeText failure.code)]

/-- `begin`; a result says that the call is a duplicate. -/
def beginCall (now : ℕ) (id : MessageID) : Dispatcher × Option Result :=
  let d := d.pruneLocked now
  if id ∈ d.pending then (d, some (duplicateResult []))
  else
    match d.cache[id]? with
    | some r =>
      -- `MoveToBack`
      ({ d with cacheLRU := d.cacheLRU.erase r ++ [r] }, some (duplicateResult (previousCode r)))
    | none => ({ d with pending := insert id d.pending }, none)

def endPending (id : MessageID) : Dispatcher := { d with pending := d.pending.erase id }

/-- The part of `complete` that takes an old entry of the identifier out. -/
def forgetEntry (id : MessageID) : Dispatcher :=
  match d.cache[id]? with
  | some r => { d with cacheLRU := d.cacheLRU.erase r, cache := d.cache.erase id }
  | none => d

/-- The part of `complete` that adds the entry and keeps the limit. -/
def remember (maxDedup : ℕ) (r : CacheRecord) : Dispatcher :=
  let lru := d.cacheLRU ++ [r]
  let cache := d.cache.insert r.id r
  { d with cacheLRU := (evict maxDedup lru cache).1, cache := (evict maxDedup lru cache).2 }

/-- `complete`, which reads the clock twice. -/
def complete (cfg : Config) (now later : ℕ) (id : MessageID) (result : Result) : Dispatcher :=
  (((d.endPending id).pruneLocked now).forgetEntry id).remember cfg.maxDedup
    ⟨id, result, later + cfg.dedupTTL⟩

end Dispatcher

/-! ### Calls and executions -/

/-- Where `Invoke` is. -/
inductive CallPhase where
  | idle
  /-- before `begin` -/
  | checked (id : MessageID) (deadline : ℕ)
  /-- after `begin`, before the `select` for a slot -/
  | accepted (id : MessageID)
  /-- before `endPending` -/
  | refusing (id : MessageID) (result : Result)
  /-- before the last `select` -/
  | waiting (id : MessageID)
  /-- before `complete` -/
  | completing (id : MessageID) (result : Result)
  | returned (result : Result)
  deriving DecidableEq

inductive ExecPhase where
  | idle
  | executing
  /-- before its `select` -/
  | offering (result : Result)
  /-- before it gives its slot back -/
  | releasing
  | ended
  deriving DecidableEq

inductive Event where
  | accepted (t : ℕ) (id : MessageID)
  /-- A call found its identifier in the cache. -/
  | presented (t : ℕ) (id : MessageID)
  | refused (t : ℕ) (id : MessageID)
  | started (t : ℕ) (id : MessageID) (now : ℕ)
  | executed (t : ℕ) (result : Result)
  | toCaller (t : ℕ) (result : Result)
  | toLate (t : ℕ) (result : Result)
  | completed (t : ℕ) (id : MessageID) (now : ℕ)
  deriving DecidableEq

structure System where
  dispatcher : Dispatcher := {}
  clock : ℕ := 0
  call : ℕ → CallPhase := fun _ => .idle
  exec : ℕ → ExecPhase := fun _ => .idle
  deadline : ℕ → ℕ := fun _ => 0
  /-- The parent context of the call is done. -/
  cancelled : ℕ → Bool := fun _ => false
  log : List Event := []

def System.done (s : System) (t : ℕ) : Bool := s.cancelled t ∨ s.deadline t ≤ s.clock

inductive Act where
  | tick (d : ℕ)
  | invoke (t : ℕ) (c : Call) (invalid : Option String) (authorizer : Option (Option String))
  | beginCall (t : ℕ)
  | cancel (t : ℕ)
  /-- the `select` for a slot; `refuse` decides when it has a choice -/
  | slot (t : ℕ) (refuse : Bool) (err : ContextError)
  | endPending (t : ℕ)
  /-- the handler returns -/
  | finish (t : ℕ) (result : Result)
  /-- the two ends of `resultChannel` meet -/
  | deliver (t : ℕ)
  /-- the goroutine finds the context done -/
  | late (t : ℕ)
  | release (t : ℕ)
  /-- `Invoke` finds the context done -/
  | giveUp (t : ℕ) (err : ContextError)
  | complete (t : ℕ) (delay : ℕ)

namespace System

variable (cfg : Config) (s : System)

def setCall (t : ℕ) (phase : CallPhase) : System := { s with call := update s.call t phase }

def setExec (t : ℕ) (phase : ExecPhase) : System := { s with exec := update s.exec t phase }

def record (events : List Event) : System := { s with log := s.log ++ events }

/-- `Invoke` up to `begin`. -/
def invoke (t : ℕ) (c : Call) (invalid : Option String) (authorizer : Option (Option String)) :
    System :=
  match c.refusal s.clock invalid authorizer with
  | some result => s.setCall t (.returned result)
  | none => s.setCall t (.checked c.messageID c.deadline)

/-- `begin` and the return of a duplicate. -/
def beginCall (t : ℕ) (id : MessageID) (deadline : ℕ) : System :=
  match s.dispatcher.beginCall s.clock id with
  | (d, some duplicate) =>
    ({ s with dispatcher := d }.setCall t (.returned duplicate)).record
      (if d.cache.contains id then [.presented t id] else [])
  | (d, none) =>
    ({ s with dispatcher := d, deadline := update s.deadline t deadline }.setCall t
      (.accepted id)).record [.accepted t id]

def start (t : ℕ) (id : MessageID) : System :=
  (({ s with dispatcher := { s.dispatcher with active := s.dispatcher.active + 1 } }.setCall t
    (.waiting id)).setExec t .executing).record [.started t id s.clock]

/-- The `select` for a slot. -/
def slot (t : ℕ) (id : MessageID) (refuse : Bool) (err : ContextError) : System :=
  if s.dispatcher.active < cfg.maxActive ∧ (refuse = false ∨ s.cancelled t = false) then
    s.start t id
  else
    s.setCall t (.refusing id (if s.cancelled t then resultForContext err else overflowResult))

def step (s : System) : Act → System
  | .tick d => { s with clock := s.clock + d }
  | .cancel t => { s with cancelled := update s.cancelled t true }
  | .invoke t c invalid authorizer =>
    match s.call t with
    | .idle => s.invoke t c invalid authorizer
    | _ => s
  | .beginCall t =>
    match s.call t with
    | .checked id deadline => s.beginCall t id deadline
    | _ => s
  | .slot t refuse err =>
    match s.call t with
    | .accepted id => s.slot cfg t id refuse err
    | _ => s
  | .endPending t =>
    match s.call t with
    | .refusing id result =>
      ({ s with dispatcher := s.dispatcher.endPending id }.setCall t (.returned result)).record
        [.refused t id]
    | _ => s
  | .finish t result =>
    match s.exec t with
    | .executing => (s.setExec t (.offering result)).record [.executed t result]
    | _ => s
  | .deliver t =>
    match s.exec t, s.call t with
    | .offering result, .waiting id =>
      ((s.setExec t .releasing).setCall t (.completing id result)).record [.toCaller t result]
    | _, _ => s
  | .late t =>
    match s.exec t with
    | .offering result =>
      if s.done t then (s.setExec t .releasing).record [.toLate t result] else s
    | _ => s
  | .release t =>
    match s.exec t with
    | .releasing =>
      { s with dispatcher := { s.dispatcher with active := s.dispatcher.active - 1 } }.setExec t
        .ended
    | _ => s
  | .giveUp t err =>
    match s.call t with
    | .waiting id => if s.done t then s.setCall t (.completing id (resultForContext err)) else s
    | _ => s
  | .complete t delay =>
    match s.call t with
    | .completing id result =>
      ({ s with
          dispatcher := s.dispatcher.complete cfg s.clock (s.clock + delay) id result
          clock := s.clock + delay }.setCall t (.returned result)).record
        [.completed t id (s.clock + delay)]
    | _ => s

def run (as : List Act) : System := as.foldl (step cfg) {}

end System

/-! ### The map and the list -/

/-- The map and the list hold the same entries, once each. -/
structure Agree (lru : List CacheRecord) (cache : Cache) : Prop where
  nodup : (lru.map CacheRecord.id).Nodup
  lookup : ∀ (id : MessageID) r, cache[id]? = some r ↔ r ∈ lru ∧ r.id = id
  size : cache.size = lru.length

section Agree

variable {lru : List CacheRecord} {cache : Cache}

theorem agree_nil : Agree [] ∅ := by
  refine ⟨nodup_nil, fun id r => ?_, ExtTreeMap.size_empty⟩
  rw [ExtTreeMap.getElem?_empty]
  simp

theorem Agree.perm (h : Agree lru cache) {lru' : List CacheRecord} (hperm : lru'.Perm lru) :
    Agree lru' cache := by
  refine ⟨(hperm.map _).nodup_iff.mpr h.nodup, fun id r => ?_, h.size.trans hperm.length_eq.symm⟩
  rw [h.lookup, hperm.mem_iff]

theorem Agree.eq_of_id (h : Agree lru cache) {r r' : CacheRecord} (hr : r ∈ lru) (hr' : r' ∈ lru)
    (hid : r.id = r'.id) : r = r' := by
  have hfirst := (h.lookup r.id r).mpr ⟨hr, rfl⟩
  rw [(h.lookup r.id r').mpr ⟨hr', hid.symm⟩] at hfirst
  exact (Option.some.inj hfirst).symm

theorem Agree.mem_iff (h : Agree lru cache) (id : MessageID) :
    cache.contains id = true ↔ id ∈ lru.map CacheRecord.id := by
  rw [ExtTreeMap.contains_eq_isSome_getElem?, Option.isSome_iff_exists, mem_map]
  exact exists_congr fun r => h.lookup id r

theorem Agree.tail {front : CacheRecord} (h : Agree (front :: lru) cache) :
    Agree lru (cache.erase front.id) := by
  obtain ⟨hfront, hnodup⟩ := nodup_cons.mp h.nodup
  have hmem := (h.lookup front.id front).mpr ⟨mem_cons_self, rfl⟩
  refine ⟨hnodup, fun id r => ?_, ?_⟩
  · rw [lookup_erase]
    split_ifs with hid
    · constructor
      · intro hc
        cases hc
      · rintro ⟨hr, hrid⟩
        exact absurd (mem_map.mpr ⟨r, hr, hrid.trans hid⟩) hfront
    · rw [h.lookup]
      constructor
      · rintro ⟨hr, hrid⟩
        rcases mem_cons.mp hr with rfl | hr
        · exact absurd hrid.symm hid
        · exact ⟨hr, hrid⟩
      · rintro ⟨hr, hrid⟩
        exact ⟨mem_cons_of_mem _ hr, hrid⟩
  · rw [ExtTreeMap.size_erase, contains_of_lookup hmem, if_pos rfl, h.size, length_cons,
      Nat.add_sub_cancel]

theorem Agree.push (h : Agree lru cache) {r : CacheRecord} (hnew : cache[r.id]? = none) :
    Agree (lru ++ [r]) (cache.insert r.id r) := by
  have hid : r.id ∉ lru.map CacheRecord.id := by
    intro hmem
    obtain ⟨r', hr', hrid⟩ := mem_map.mp hmem
    rw [(h.lookup r.id r').mpr ⟨hr', hrid⟩] at hnew
    cases hnew
  refine ⟨?_, fun id r' => ?_, ?_⟩
  · rw [map_append, nodup_append]
    refine ⟨h.nodup, nodup_singleton _, fun a ha b hb hab => hid ?_⟩
    rw [map_singleton, mem_singleton] at hb
    rwa [← hb, ← hab]
  · rw [lookup_insert, mem_append, mem_singleton]
    split_ifs with heq
    · constructor
      · intro hsome
        cases hsome
        exact ⟨Or.inr rfl, heq.symm⟩
      · rintro ⟨hr' | rfl, hrid⟩
        · exact absurd (mem_map.mpr ⟨r', hr', hrid.trans heq⟩) hid
        · rfl
    · rw [h.lookup]
      constructor
      · rintro ⟨hr', hrid⟩
        exact ⟨Or.inl hr', hrid⟩
      · rintro ⟨hr' | rfl, hrid⟩
        · exact ⟨hr', hrid⟩
        · exact absurd hrid.symm heq
  · rw [ExtTreeMap.size_insert, contains_eq_false_iff.mpr hnew, if_neg (by decide), h.size,
      length_append, length_singleton]

/-- What a drop from the front of the list leaves; `gone` says why an entry went. -/
structure Dropped (gone : CacheRecord → Prop) (lru lru' : List CacheRecord)
    (cache cache' : Cache) : Prop where
  agree : Agree lru' cache'
  suffix : lru' <:+ lru
  kept : ∀ (id : MessageID) r, cache[id]? = some r → cache'[id]? = some r ∨
    cache'[id]? = none ∧ gone r
  old : ∀ (id : MessageID) r, cache'[id]? = some r → cache[id]? = some r

theorem Dropped.refl {gone : CacheRecord → Prop} (h : Agree lru cache) :
    Dropped gone lru lru cache cache :=
  ⟨h, suffix_refl _, fun _ _ hr => Or.inl hr, fun _ _ hr => hr⟩

theorem Dropped.cons {gone : CacheRecord → Prop} {front : CacheRecord} {lru' : List CacheRecord}
    {cache' : Cache} (h : Agree (front :: lru) cache)
    (hdropped : Dropped gone lru lru' (cache.erase front.id) cache') (hgone : gone front) :
    Dropped gone (front :: lru) lru' cache cache' := by
  refine ⟨hdropped.agree, hdropped.suffix.trans (suffix_cons _ _), fun id r hr => ?_,
    fun id r hr => ?_⟩
  · by_cases hid : id = front.id
    · -- the entry of this identifier is the first one
      obtain ⟨hmem, hrid⟩ := (h.lookup id r).mp hr
      obtain rfl : r = front := h.eq_of_id hmem mem_cons_self (hrid.trans hid)
      refine Or.inr ⟨?_, hgone⟩
      cases hleft : cache'[id]? with
      | none => rfl
      | some r' =>
        have hold := hdropped.old id r' hleft
        rw [lookup_erase, if_pos hid] at hold
        cases hold
    · refine hdropped.kept id r ?_
      rwa [lookup_erase, if_neg hid]
  · have hold := hdropped.old id r hr
    rw [lookup_erase] at hold
    split_ifs at hold
    exact hold

theorem prune_spec (now : ℕ) (h : Agree lru cache) :
    Dropped (fun r => r.expires ≤ now) lru (prune now lru cache).1 cache
      (prune now lru cache).2 := by
  induction lru generalizing cache with
  | nil => exact .refl h
  | cons front rest ih =>
    unfold prune
    split_ifs with hfresh
    · exact .refl h
    · exact (ih h.tail).cons h (Nat.le_of_not_lt hfresh)

/-- The entries that the limit takes out have at least `maxDedup` entries behind them. -/
theorem evict_spec (maxDedup : ℕ) (h : Agree lru cache) :
    Dropped (fun r => ∃ before behind, lru = before ++ r :: behind ∧ maxDedup ≤ behind.length)
      lru (evict maxDedup lru cache).1 cache (evict maxDedup lru cache).2 ∧
    (evict maxDedup lru cache).2.size ≤ maxDedup := by
  induction lru generalizing cache with
  | nil =>
    refine ⟨.refl h, ?_⟩
    rw [evict, h.size]
    exact Nat.zero_le _
  | cons front rest ih =>
    unfold evict
    split_ifs with hfull
    · obtain ⟨hdropped, hsize⟩ := ih h.tail
      refine ⟨Dropped.cons h ?_ ?_, hsize⟩
      · refine { hdropped with kept := fun id r hr => ?_ }
        refine (hdropped.kept id r hr).imp_right (And.imp_right ?_)
        rintro ⟨before, behind, rfl, hlength⟩
        exact ⟨front :: before, behind, rfl, hlength⟩
      · refine ⟨[], rest, rfl, ?_⟩
        have hlength := h.size
        rw [length_cons] at hlength
        omega
    · exact ⟨.refl h, Nat.le_of_not_lt hfull⟩

end Agree

/-! ### Expired entries -/

/-- The states of a dispatcher and its clock after steps of which every `begin` meets `good`.
`completed` is the history. -/
inductive Reachable (cfg : Config) (good : Dispatcher → ℕ → MessageID → Prop) :
    Dispatcher → ℕ → List (MessageID × ℕ) → Prop
  | start : Reachable cfg good {} 0 []
  | tick {d now completed} (delay : ℕ) (h : Reachable cfg good d now completed) :
    Reachable cfg good d (now + delay) completed
  | beginCall {d now completed} (id : MessageID) (hgood : good d now id)
    (h : Reachable cfg good d now completed) :
    Reachable cfg good (d.beginCall now id).1 now completed
  | endPending {d now completed} (id : MessageID) (h : Reachable cfg good d now completed) :
    Reachable cfg good (d.endPending id) now completed
  | complete {d now completed} (id : MessageID) (result : Result) (delay : ℕ)
    (h : Reachable cfg good d now completed) :
    Reachable cfg good (d.complete cfg now (now + delay) id result) (now + delay)
      ((id, now + delay) :: completed)

/-- `begin` finds no entry that it would move to the back. -/
def Unmoved (d : Dispatcher) (now : ℕ) (id : MessageID) : Prop :=
  id ∈ d.pending ∨ (d.pruneLocked now).cache[id]? = none

/-- The entries stand in the order in which they expire. -/
structure Ordered (cfg : Config) (completed : List (MessageID × ℕ)) (d : Dispatcher) : Prop where
  agree : Agree d.cacheLRU d.cache
  sorted : d.cacheLRU.Pairwise fun r r' => r.expires ≤ r'.expires
  known : ∀ r ∈ d.cacheLRU, ∃ time, (r.id, time) ∈ completed ∧ r.expires = time + cfg.dedupTTL

section Expiry

variable {cfg : Config} {completed : List (MessageID × ℕ)} {d : Dispatcher}
    {id : MessageID} {now : ℕ}

section

variable (h : Ordered cfg completed d)
include h

theorem Ordered.dropped {gone : CacheRecord → Prop} {lru : List CacheRecord} {cache : Cache}
    (hdropped : Dropped gone d.cacheLRU lru d.cache cache) :
    Ordered cfg completed { d with cacheLRU := lru, cache := cache } :=
  ⟨hdropped.agree, h.sorted.sublist hdropped.suffix.sublist,
    fun r hr => h.known r (hdropped.suffix.subset hr)⟩

theorem Ordered.forgetEntry (id : MessageID) :
    Ordered cfg completed (d.forgetEntry id) ∧ (d.forgetEntry id).cache[id]? = none := by
  unfold Dispatcher.forgetEntry
  split
  · next r hr =>
    obtain ⟨hmem, rfl⟩ := (h.agree.lookup id r).mp hr
    refine ⟨⟨(h.agree.perm (perm_cons_erase hmem).symm).tail, h.sorted.sublist erase_sublist,
      fun r' hr' => h.known r' (mem_of_mem_erase hr')⟩, ?_⟩
    exact lookup_erase_self _ _
  · next hnone => exact ⟨h, hnone⟩

theorem Ordered.remember {r : CacheRecord} (hnew : d.cache[r.id]? = none)
    (hpast : ∀ c ∈ completed, c.2 ≤ now) (hr : r.expires = now + cfg.dedupTTL) :
    Ordered cfg ((r.id, now) :: completed) (d.remember cfg.maxDedup r) := by
  have hpush : Ordered cfg ((r.id, now) :: completed)
      { d with cacheLRU := d.cacheLRU ++ [r], cache := d.cache.insert r.id r } := by
    refine ⟨h.agree.push hnew, pairwise_append.mpr ⟨h.sorted, pairwise_singleton _ _, ?_⟩, ?_⟩
    · intro r₁ hr₁ r₂ hr₂
      obtain ⟨time, hmem, hexpires⟩ := h.known r₁ hr₁
      rw [mem_singleton.mp hr₂, hexpires, hr]
      exact Nat.add_le_add_right (hpast _ hmem) _
    · intro r₁ hr₁
      rcases mem_append.mp hr₁ with hr₁ | hr₁
      · obtain ⟨time, hmem, hexpires⟩ := h.known r₁ hr₁
        exact ⟨time, mem_cons_of_mem _ hmem, hexpires⟩
      · rw [mem_singleton.mp hr₁]
        exact ⟨now, mem_cons_self, hr⟩
  exact hpush.dropped (evict_spec cfg.maxDedup hpush.agree).1

end

theorem Reachable.ordered (h : Reachable cfg Unmoved d now completed) :
    Ordered cfg completed d ∧ ∀ c ∈ completed, c.2 ≤ now := by
  induction h with
  | start => exact ⟨⟨agree_nil, .nil, by simp⟩, by simp⟩
  | tick delay _ ih => exact ⟨ih.1, fun c hc => Nat.le_add_right_of_le (ih.2 c hc)⟩
  | @beginCall d now completed id hgood _ ih =>
    refine ⟨?_, ih.2⟩
    have hpruned := ih.1.dropped (prune_spec now ih.1.agree)
    simp only [Dispatcher.beginCall]
    split_ifs with hpending
    · exact hpruned
    · rw [hgood.resolve_left hpending]
      exact { hpruned with }
  | endPending id _ ih => exact ⟨{ ih.1 with }, ih.2⟩
  | @complete d now completed id result delay _ ih =>
    have hended : Ordered cfg completed (d.endPending id) := { ih.1 with }
    obtain ⟨hforgot, hnew⟩ := (hended.dropped (prune_spec now ih.1.agree)).forgetEntry id
    have hpast : ∀ c ∈ completed, c.2 ≤ now + delay :=
      fun c hc => Nat.le_add_right_of_le (ih.2 c hc)
    exact ⟨hforgot.remember (r := ⟨id, result, now + delay + cfg.dedupTTL⟩) hnew hpast rfl,
      forall_mem_cons.mpr ⟨Nat.le_refl _, hpast⟩⟩

theorem prune_fresh {lru : List CacheRecord} (h : lru.Pairwise fun r r' => r.expires ≤ r'.expires)
    (now : ℕ) (cache : Cache) : ∀ r ∈ (prune now lru cache).1, now < r.expires := by
  -- in the order of expiry the first entry that has not expired ends those that have
  induction lru generalizing cache with
  | nil => exact fun r hr => absurd hr not_mem_nil
  | cons front rest ih =>
    obtain ⟨hfront, hrest⟩ := pairwise_cons.mp h
    unfold prune
    split_ifs with hfresh
    · exact forall_mem_cons.mpr ⟨hfresh, fun r hr => hfresh.trans_le (hfront r hr)⟩
    · exact ih hrest _

/-- **Expired entries are forgotten** as long as no duplicate moves an entry to the back. -/
theorem expired_forgotten (h : Reachable cfg Unmoved d now completed) (later : ℕ) :
    (∀ (id : MessageID) r, (d.pruneLocked later).cache[id]? = some r → later < r.expires) ∧
    ∀ id, id ∉ d.pending → (∀ time, (id, time) ∈ completed → time + cfg.dedupTTL ≤ later) →
      (d.beginCall later id).2 = none := by
  obtain ⟨hordered, -⟩ := h.ordered
  have hpruned := hordered.dropped (prune_spec later hordered.agree)
  have hfresh := fun (id : MessageID) r hr =>
    prune_fresh hordered.sorted later _ r ((hpruned.agree.lookup id r).mp hr).1
  refine ⟨hfresh, fun id hpending hold => ?_⟩
  cases hentry : (d.pruneLocked later).cache[id]? with
  | none =>
    have hpending : id ∉ (d.pruneLocked later).pending := hpending
    simp only [Dispatcher.beginCall, hentry, if_neg hpending]
  | some r =>
    obtain ⟨hmem, rfl⟩ := (hpruned.agree.lookup id r).mp hentry
    obtain ⟨time, hcompleted, hexpires⟩ := hpruned.known r hmem
    have hlt := hfresh _ r hentry
    have hle := hold time hcompleted
    omega

def briefConfig : Config := ⟨1, 2, 10, by decide, by decide, by decide, by decide⟩

/-- Two commands are completed, and only the entry of the second has not expired. -/
theorem expired_forgotten_once : ∃ d,
    Reachable briefConfig Unmoved d 5 [(2, 5), (1, 0)] ∧ d.cache.size = 2 ∧
      (d.pruneLocked 10).cache[(2 : MessageID)]?.map CacheRecord.expires = some 15 ∧
      (d.beginCall 10 1).2 = none := by
  have h : Reachable briefConfig Unmoved _ 5 [(2, 5), (1, 0)] :=
    .complete 2 {} 0 (.beginCall 2 (.inr (by decide)) (.tick 5
      (.complete 1 {} 0 (.beginCall 1 (.inr (by decide)) .start))))
  exact ⟨_, h, by decide, by decide, (expired_forgotten h 10).2 1 (by decide) (by simp [briefConfig])⟩

/-- A duplicate of 1 puts its entry behind that of 2, which expires later. -/
theorem expired_kept : ∃ d,
    Reachable briefConfig (fun _ _ _ => True) d 10 [(2, 1), (1, 0)] ∧ 1 ∉ d.pending ∧
      (d.pruneLocked 10).cache[(1 : MessageID)]?.map CacheRecord.expires = some 10 ∧
      (d.beginCall 10 1).2 ≠ none :=
  ⟨_, .tick 9 (.beginCall 1 trivial (.complete 2 {} 0 (.beginCall 2 trivial (.tick 1
    (.complete 1 {} 0 (.beginCall 1 trivial .start)))))), by decide, by decide, by decide⟩

end Expiry

end Command
