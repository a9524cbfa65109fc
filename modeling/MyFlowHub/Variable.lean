/-
Variables (`runtime/resource/variable.go`): a value with a revision, its writers, its
watchers and its retirement.

A mutation holds the gate of the variable from its first check to its commit; the state
itself is read and written under a lock, a few lines at a time.  Watchers are called by
whoever set the `draining` flag, outside both.  `Phase` says where a call is between
two of these atomic parts, and `advance` is the next part of a call.  What the code
reads from outside — the clock, the context, the result of the write handler, the order
of a map, whether a callback panics — comes with the step, as `Input`.

A callback may call the variable again.  Such a call is one more caller whose steps
come between the start and the end of the callback, so the interleavings of the callers
cover it.
-/
import MyFlowHub.Publishing

open Std Tables

namespace Resource

/-! ### Data -/

/-- `protocol.VariableError`. -/
structure VariableError where
  code : String
  message : String
  deriving DecidableEq, Repr

/-- `VariableState`: what the owner supplies. -/
structure VariableState where
  value : List UInt8 := []
  status : String
  sourceTimeUnixMS : Option ℤ := none
  error : Option VariableError := none
  deriving DecidableEq, Repr

/-- `protocol.VariableValueV1`; the definition stands for its JSON text. -/
structure VariableValueV1 where
  version : ℤ := 1
  instanceID : String
  revision : String
  definition : Option (List UInt8) := none
  value : List UInt8
  status : String
  sourceTimeUnixMS : Option ℤ
  observedAtUnixMS : ℤ
  error : Option VariableError
  deriving DecidableEq, Repr

/-- `VariableUpdate`; `state` is absent in the update that ends an observation. -/
structure VariableUpdate where
  revision : UInt64 := 0
  state : Option VariableValueV1 := none
  failure : Option ErrorPayload := none
  eventPayload : List UInt8 := []
  deriving DecidableEq, Repr

/-- `preparedVariable`. -/
structure PreparedVariable where
  update : VariableUpdate
  payload : List UInt8
  deriving DecidableEq, Repr

/-- `variableNotification`; watchers are known by their number. -/
structure VariableNotification where
  update : VariableUpdate
  watchers : List ℕ
  deriving DecidableEq, Repr

/-- What is fixed when the variable is made.  The schema check, the JSON encoder and the
JSON decoder of the protocol package are whatever functions they are. -/
structure VariableConfig where
  instanceID : String
  definitionJSON : List UInt8
  maxPayloadBytes : ℕ
  maxQueue : ℕ
  maxSubscribers : ℕ
  payloadLimit : ℕ
  /-- Whether there is a write handler. -/
  handler : Bool
  validateVariableState : VariableValueV1 → Except String Unit
  marshal : VariableValueV1 → Except String (List UInt8)
  decode : List UInt8 → Except String Unit

/-- `Variable`, without the gate.  `cancelled` holds the watchers whose flag is set; `nextWatch`,
a `uint64`, counts fewer than `2 ^ 64` calls of `Watch`. -/
structure Variable where
  current : PreparedVariable
  retired : Bool := false
  nextWatch : ℕ := 0
  watchers : List ℕ := []
  cancelled : List ℕ := []
  pending : List VariableNotification := []
  draining : Bool := false
  deriving DecidableEq, Repr

/-- `protocol.SchemaVariableValueV1`. -/
def schemaVariableValueV1 := "mfh.variable-value.v1"

def errNotFound := "resource not found"
def errRevisionRegression := "resource revision or sequence regression"
def errRevisionConflict := "resource revision conflict"
def errQueueFull := "variable notification queue is full"

/-- The text spliced between the data event and the definition. -/
def definitionMember : List UInt8 := ",\"definition\":".toList.map fun c => UInt8.ofNat c.toNat

/-! ### The parts under the lock -/

namespace VariableConfig

variable (cfg : VariableConfig)

def envelope (now : ℤ) (revision : UInt64) (state : VariableState) : VariableValueV1 where
  instanceID := cfg.instanceID
  revision := toString revision
  value := state.value
  status := state.status
  sourceTimeUnixMS := state.sourceTimeUnixMS
  observedAtUnixMS := now
  error := state.error

/-- The read payload: the data event with the definition spliced in. -/
def splice (data : List UInt8) : List UInt8 :=
  data.dropLast ++ definitionMember ++ cfg.definitionJSON ++ [125]

def prepare (now : ℤ) (revision : UInt64) (state : VariableState) :
    Except String PreparedVariable := do
  validatePayload cfg.maxPayloadBytes state.value
  let envelope := cfg.envelope now revision state
  (cfg.validateVariableState envelope).mapError fun text => "invalid protocol payload: " ++ text
  let data ← (cfg.marshal envelope).mapError fun text => "encode variable state: " ++ text
  if (cfg.splice data).length > cfg.payloadLimit then
    .error "resource value exceeds configured limit: complete variable envelope"
  else
    return ⟨{ revision := revision,
              state := some { envelope with definition := some cfg.definitionJSON },
              eventPayload := data }, cfg.splice data⟩

/-- `NewVariable`, after the checks of descriptor and definition. -/
def newVariable (now : ℤ) (initial : VariableState) : Except String Variable := do
  let current ← cfg.prepare now 1 initial
  return { current := current }

end VariableConfig

namespace Variable

variable (cfg : VariableConfig) (v : Variable)

def revision : UInt64 := v.current.update.revision

def canCommit : Except String Unit :=
  if v.retired then .error errNotFound
  else if v.pending.length ≥ cfg.maxQueue then .error errQueueFull
  else .ok ()

def enqueueLocked (order : MapOrder ℕ) (update : VariableUpdate) : Bool × Variable :=
  if v.watchers = [] then (false, v)
  else
    let queued := { v with pending := v.pending ++ [⟨update, order.arrange v.watchers⟩] }
    if v.draining then (false, queued) else (true, { queued with draining := true })

def commit (order : MapOrder ℕ) (prepared : PreparedVariable) : Except String (Bool × Variable) :=
  if v.retired then .error errNotFound
  else if v.pending.length ≥ cfg.maxQueue then .error errQueueFull
  else .ok ({ v with current := prepared }.enqueueLocked order prepared.update)

/-- The part of `drain` under the lock. -/
def take : Option VariableNotification × Variable :=
  match v.pending with
  | [] => (none, { v with draining := false })
  | notification :: rest => (some notification, { v with pending := rest })

/-- `Watch`: the number of the watcher, its snapshot, and the variable with it. -/
def watch : Except String (ℕ × VariableUpdate × Variable) :=
  if v.retired then .error errNotFound
  else if v.watchers.length ≥ cfg.maxSubscribers then .error "variable subscriber limit reached"
  else
    .ok (v.nextWatch + 1, v.current.update,
      { v with nextWatch := v.nextWatch + 1, watchers := v.watchers ++ [v.nextWatch + 1] })

/-- `watcher.cancelled.Store(true)`. -/
def flag (id : ℕ) : Variable := { v with cancelled := id :: v.cancelled }

/-- `delete(v.watchers, id)`. -/
def detach (id : ℕ) : Variable := { v with watchers := v.watchers.filter (· ≠ id) }

def goneUpdate : VariableUpdate :=
  { failure := some ⟨.gone, "variable instance was removed", false, []⟩ }

/-- `PrepareRetire` under the lock; `none` when the variable was retired before. -/
def prepareRetire (order : MapOrder ℕ) : Option (Bool × Variable) :=
  if v.retired then none
  else
    let (drain, v') := { v with retired := true }.enqueueLocked order goneUpdate
    some (drain, { v' with watchers := [] })

end Variable

/-! ### Calls -/

/-- The arguments of `CompareAndSet`. -/
structure VariableWrite where
  instanceID : String
  revision : UInt64
  value : List UInt8
  deriving DecidableEq, Repr

inductive VariableCall where
  | compareAndSet (write : VariableWrite)
  | set (state : VariableState)
  | apply (revision : UInt64) (state : VariableState)
  | retire

abbrev Outcome := Except String VariableUpdate

inductive Phase where
  | idle
  /-- In `acquire`, before its check of the context and before its `select`. -/
  | casEnter (write : VariableWrite)
  | casWaiting (write : VariableWrite)
  /-- With the gate: before the second check of the context, and before the state is read. -/
  | casGated (write : VariableWrite)
  | casLive (write : VariableWrite)
  /-- The condition held and the proposal was prepared; `canCommit` is next. -/
  | casPrepared (write : VariableWrite) (current : UInt64) (prepared : PreparedVariable)
  /-- There is room in the queue; the handler or the commit is next. -/
  | casAdmitted (write : VariableWrite) (current : UInt64) (prepared : PreparedVariable)
  | casHandling (write : VariableWrite) (current : UInt64)
  | casReturned (write : VariableWrite) (current : UInt64) (state : VariableState)
  /-- The commit is next. -/
  | casConfirmed (write : VariableWrite) (prepared : PreparedVariable)
  /-- `Set` and `Apply`: `acquire`, the first and the second read of `prepareNext`, the
  commit. -/
  | setEnter (revision : UInt64) (state : VariableState)
  | setGated (revision : UInt64) (state : VariableState)
  | setChecked (revision : UInt64) (state : VariableState)
  | setPrepared (prepared : PreparedVariable)
  /-- Before the gate is released; `drain` says whether the caller has to drain. -/
  | releasing (outcome : Outcome) (drain : Bool)
  /-- At the top of the loop of `drain`. -/
  | draining (outcome : Outcome)
  /-- Between two callbacks, in one, and after one that panicked. -/
  | notifying (outcome : Outcome) (update : VariableUpdate) (rest : List ℕ)
  | calling (outcome : Outcome) (update : VariableUpdate) (watcher : ℕ) (rest : List ℕ)
  | detaching (outcome : Outcome) (update : VariableUpdate) (watcher : ℕ) (rest : List ℕ)
  /-- `Retire`: before `PrepareRetire`, and in its completion, before the gate. -/
  | retireEnter
  | completing (drain : Bool)
  | done (outcome : Outcome)

structure Input where
  /-- The error of the context, if it is cancelled. -/
  ctxErr : Option String := none
  now : ℤ := 0
  /-- What the write handler returns. -/
  result : Except String VariableState := .error ""
  /-- Whether the callback panics. -/
  panics : Bool := false
  order : MapOrder ℕ := .asIs

/-- Who committed: a conditional write, or the owner. -/
inductive Origin where
  | write (write : VariableWrite)
  | owner
  deriving DecidableEq, Repr

/-- What happened, for the statements about runs. -/
inductive Entry where
  | committed (caller : ℕ) (origin : Origin) (update : VariableUpdate)
  | invoked (caller : ℕ) (write : VariableWrite)
  | retired
  | registered (watcher : ℕ) (snapshot : VariableUpdate)
  | told (watcher : ℕ) (update : VariableUpdate)
  deriving DecidableEq, Repr

/-- The variable, who has the gate, and the history. -/
structure Shared where
  var : Variable
  gate : Option ℕ := none
  log : List Entry := []

namespace Shared

variable (cfg : VariableConfig) (s : Shared) (caller : ℕ) (input : Input)

def acquire (waiting taken : Phase) : Shared × Phase :=
  match s.gate with
  | none => ({ s with gate := some caller }, taken)
  | some _ => (s, waiting)

/-- The condition of `compareAndSet`, on the state it has read. -/
def checkWrite (write : VariableWrite) : Except String PreparedVariable :=
  let current := s.var.revision
  if s.var.retired then .error errNotFound
  else if write.revision = 0 ∨ write.instanceID ≠ cfg.instanceID ∨ write.revision ≠ current then
    .error (errRevisionConflict ++
      ": variable instance or revision changed (expected revision " ++ toString write.revision ++
      ", current " ++ toString current ++ ", instance changed " ++
      toString (decide (write.instanceID ≠ cfg.instanceID)) ++ ")")
  else if current = maxUint64 then .error "variable revision exhausted"
  else cfg.prepare input.now (current + 1) { value := write.value, status := "ready" }

/-- The first part of `prepareNext`: the revision to set. -/
def nextRevision (revision : UInt64) : Except String UInt64 :=
  let current := s.var.revision
  if s.var.retired then .error errNotFound
  else if current = maxUint64 then .error "variable revision exhausted"
  else
    let revision := if revision = 0 then current + 1 else revision
    if revision ≤ current then .error errRevisionRegression else .ok revision

/-- What `compareAndSet` makes of the state its handler returned. -/
def confirm (current : UInt64) (state : VariableState) : Except String PreparedVariable :=
  match input.ctxErr with
  | some text => .error ("variable write outcome unconfirmed: " ++ text)
  | none =>
    if state.status ≠ "ready" then
      .error "variable write handler did not confirm a ready value"
    else
      (cfg.prepare input.now (current + 1) state).mapError fun text =>
        "variable write result could not be published: " ++ text

def commit (origin : Origin) (prepared : PreparedVariable) : Shared × Phase :=
  match s.var.commit cfg input.order prepared with
  | .error text => (s, .releasing (.error text) false)
  | .ok (drain, v) =>
    ({ s with var := v, log := s.log ++ [.committed caller origin prepared.update] },
      .releasing (.ok prepared.update) drain)

/-- After the gate is released, or the completion has waited for it. -/
def afterGate (outcome : Outcome) (drain : Bool) : Phase :=
  if drain then .draining outcome else .done outcome

def advance : Phase → Shared × Phase
  | .idle => (s, .idle)
  | .casEnter write =>
    match input.ctxErr with
    | some text => (s, .done (.error text))
    | none => (s, .casWaiting write)
  | .casWaiting write =>
    -- `select` may take either branch when both are ready
    match input.ctxErr with
    | some text => (s, .done (.error text))
    | none => s.acquire caller (.casWaiting write) (.casGated write)
  | .casGated write =>
    match input.ctxErr with
    | some text => (s, .releasing (.error text) false)
    | none => (s, .casLive write)
  | .casLive write =>
    match s.checkWrite cfg input write with
    | .error text => (s, .releasing (.error text) false)
    | .ok prepared => (s, .casPrepared write s.var.revision prepared)
  | .casPrepared write current prepared =>
    match s.var.canCommit cfg with
    | .error text => (s, .releasing (.error text) false)
    | .ok _ => (s, .casAdmitted write current prepared)
  | .casAdmitted write current prepared =>
    if cfg.handler then
      match cfg.decode write.value, input.ctxErr with
      | .error text, _ => (s, .releasing (.error text) false)
      | .ok _, some text => (s, .releasing (.error text) false)
      | .ok _, none =>
        ({ s with log := s.log ++ [.invoked caller write] }, .casHandling write current)
    else (s, .casConfirmed write prepared)
  | .casHandling write current =>
    match input.result with
    | .error text => (s, .releasing (.error text) false)
    | .ok state => (s, .casReturned write current state)
  | .casReturned write current state =>
    match confirm cfg input current state with
    | .error text => (s, .releasing (.error text) false)
    | .ok prepared => (s, .casConfirmed write prepared)
  | .casConfirmed write prepared => s.commit cfg caller input (.write write) prepared
  | .setEnter revision state =>
    s.acquire caller (.setEnter revision state) (.setGated revision state)
  | .setGated revision state =>
    match s.nextRevision revision with
    | .error text => (s, .releasing (.error text) false)
    | .ok revision => (s, .setChecked revision state)
  | .setChecked revision state =>
    match s.var.canCommit cfg, cfg.prepare input.now revision state with
    | .error text, _ => (s, .releasing (.error text) false)
    | .ok _, .error text => (s, .releasing (.error text) false)
    | .ok _, .ok prepared => (s, .setPrepared prepared)
  | .setPrepared prepared => s.commit cfg caller input .owner prepared
  | .releasing outcome drain => ({ s with gate := none }, afterGate outcome drain)
  | .draining outcome =>
    match s.var.take with
    | (none, v) => ({ s with var := v }, .done outcome)
    | (some notification, v) =>
      ({ s with var := v }, .notifying outcome notification.update notification.watchers)
  | .notifying outcome _ [] => (s, .draining outcome)
  | .notifying outcome update (watcher :: rest) =>
    if watcher ∈ s.var.cancelled then (s, .notifying outcome update rest)
    else
      ({ s with log := s.log ++ [.told watcher update] }, .calling outcome update watcher rest)
  | .calling outcome update watcher rest =>
    if input.panics then
      ({ s with var := s.var.flag watcher }, .detaching outcome update watcher rest)
    else (s, .notifying outcome update rest)
  | .detaching outcome update watcher rest =>
    ({ s with var := s.var.detach watcher }, .notifying outcome update rest)
  | .retireEnter =>
    match s.var.prepareRetire input.order with
    | none => (s, .done (.ok {}))
    | some (drain, v) => ({ s with var := v, log := s.log ++ [.retired] }, .completing drain)
  | .completing drain => s.acquire caller (.completing drain) (.releasing (.ok {}) drain)
  | .done outcome => (s, .done outcome)

end Shared

def VariableCall.enter : VariableCall → Phase
  | .compareAndSet write => .casEnter write
  | .set state => .setEnter 0 state
  | .apply revision state =>
    if revision = 0 then .done (.error errRevisionRegression) else .setEnter revision state
  | .retire => .retireEnter

def Phase.free : Phase → Bool
  | .idle => true
  | .done _ => true
  | _ => false

/-! ### The system -/

structure VariableSystem where
  shared : Shared
  phase : ℕ → Phase

inductive VariableAct where
  /-- A caller makes a call. -/
  | call (caller : ℕ) (call : VariableCall)
  /-- A caller takes its next step. -/
  | advance (caller : ℕ) (input : Input)
  | watch
  /-- The two parts of the function `Watch` returns. -/
  | cancel (watcher : ℕ)
  | detach (watcher : ℕ)

namespace VariableSystem

def start (v : Variable) : VariableSystem := ⟨{ var := v }, fun _ => .idle⟩

variable (cfg : VariableConfig)

def watch (s : Shared) : Shared :=
  match s.var.watch cfg with
  | .error _ => s
  | .ok (watcher, snapshot, v) =>
    { s with var := v, log := s.log ++ [.registered watcher snapshot] }

def step (m : VariableSystem) : VariableAct → VariableSystem
  | .call caller call =>
    if (m.phase caller).free then
      { m with phase := Function.update m.phase caller call.enter }
    else m
  | .advance caller input =>
    let (shared, phase) := m.shared.advance cfg caller input (m.phase caller)
    ⟨shared, Function.update m.phase caller phase⟩
  | .watch => { m with shared := watch cfg m.shared }
  | .cancel watcher =>
    { m with shared := { m.shared with var := m.shared.var.flag watcher } }
  | .detach watcher =>
    -- the flag comes first
    if watcher ∈ m.shared.var.cancelled then
      { m with shared := { m.shared with var := m.shared.var.detach watcher } }
    else m

end VariableSystem

end Resource
