/-
The registry of a node and its catalog (`runtime/resource/resource.go`,
`runtime/resource/catalog.go`).

`RegisterBatch` and `Remove` change the map of resources first and prepare the catalog from the
changed map; when the catalog cannot be prepared or committed, they change the map back.  They
hold three locks: the one of catalog updates, the gate of the catalog Variable and the lock of
the registry.  A `RegistryPhase` says where a call is; a call takes one step at a time, and the
steps of the callers interleave with each other, with readers of the registry and with watchers
of the catalog Variable.  Nothing else writes that Variable.

The retirement of a removed resource concerns that resource only and is not modelled.
-/
import MyFlowHub.Descriptors

open Checks
open Std Tables Runs
open Auth (Text maxItems)

namespace Resource

/-! ### The registry -/

/-- A resource; its descriptor stays as it is, and the tag tells resources apart. -/
structure Member where
  tag : ℕ := 0
  descriptor : ResourceDescriptorV2
  deriving DecidableEq, Repr

structure RegistryConfig where
  owner : NodeID
  os : Text
  /-- What is fixed of the catalog Variable. -/
  catalog : VariableConfig
  /-- `EncodeVariablePayload` and `DecodeVariablePayload` with the definition of catalogs: a payload
  decodes to the catalog it encodes. -/
  encodeVariablePayload : ResourceCatalogV2 → Except String Bytes
  decodeVariablePayload : Bytes → Except String ResourceCatalogV2
  decode_encode : ∀ catalog payload, encodeVariablePayload catalog = .ok payload →
    decodeVariablePayload payload = .ok catalog

/-- `Registry`, without its locks. -/
structure Registry where
  resources : ExtTreeMap String Member compare
  catalog : Variable
  catalogRevision : UInt64
  catalogDescriptors : List ResourceDescriptorV2

def errDuplicate : String := "resource already registered"
def errResourceLimit : String := "resource registry limit reached"
def errReservedResource : String := "built-in resource cannot be replaced or removed"
def errValueTooLarge : String := "resource value exceeds configured limit"
def errPayloadTooLarge : String := "payload exceeds configured limit"

/-- `ResourceCatalogV2.Sort`. -/
def ResourceCatalogV2.sort (c : ResourceCatalogV2) : ResourceCatalogV2 :=
  { c with
    resources := (c.resources.map (·.sort)).insertionSort fun a b => ¬ resourceBefore b.id a.id }

variable (cfg : RegistryConfig)

/-- `NewRegistry`. -/
def newRegistry (now : ℤ) : Except String Registry := do
  Protocol.validateNodeID cfg.owner
  let descriptor := catalogDescriptor cfg.owner
  let catalogValue : ResourceCatalogV2 := ResourceCatalogV2.sort ⟨schemaVersionV2, 1, [descriptor]⟩
  let payload ← within "create resource catalog" (cfg.encodeVariablePayload catalogValue)
  -- `NewVariable` normalizes the descriptor it is given
  let normalized ← within "create resource catalog" (normalizeDescriptor cfg.os descriptor)
  let catalog ← within "create resource catalog"
    (cfg.catalog.newVariable now { value := payload, status := "ready" })
  return { resources := (∅ : ExtTreeMap String Member compare).insert builtinResourceCatalog
             { descriptor := normalized }
           catalog := catalog
           catalogRevision := 1
           catalogDescriptors := [descriptor] }

/-- The loop of `RegisterBatch` before it takes a lock: the values under their names. -/
def checkValues : List String → List (Option Member) → Except String (List (String × Member))
  | _, [] => .ok []
  | _, none :: _ => .error "register resource: value is required"
  | seen, some value :: rest => do
    let descriptor ← within "register resource" (normalizeDescriptor cfg.os value.descriptor)
    require (descriptor.id.owner = cfg.owner)
      ("register resource: owner " ++ toString descriptor.id.owner ++
        " does not match local node " ++ toString cfg.owner)
    require (descriptor.id.name ≠ builtinResourceCatalog)
      (errReservedResource ++ ": " ++ descriptor.id.name)
    require (descriptor.id.name ∉ seen) (errDuplicate ++ ": " ++ descriptor.id.name)
    let entries ← checkValues (descriptor.id.name :: seen) rest
    return (descriptor.id.name, value) :: entries

/-- What a call wants to do once it has the locks. -/
inductive Job where
  | register (entries : List (String × Member))
  | remove (name : String)
  deriving DecidableEq, Repr

/-- The checks of `RegisterBatch` before it takes a lock. -/
def registerBatch (values : List (Option Member)) : Except String Job :=
  if values.length = 0 ∨ values.length ≥ maxItems then .error errResourceLimit
  else (checkValues cfg [] values).map Job.register

/-- The checks of `Remove` before it takes a lock. -/
def remove (id : ResourceID) : Except String Job :=
  if id.owner ≠ cfg.owner then .error errNotFound
  else if id.name = builtinResourceCatalog then .error (errReservedResource ++ ": " ++ id.name)
  else .ok (.remove id.name)

/-! ### Changes of the map -/

/-- What was changed, with what is needed to change it back. -/
inductive Change where
  | added (entries : List (String × Member))
  | removed (name : String) (member : Member)
  deriving DecidableEq, Repr

def Change.apply (resources : ExtTreeMap String Member compare) :
    Change → ExtTreeMap String Member compare
  | .added entries => insertAll resources entries
  | .removed name _ => resources.erase name

/-- `rollback`. -/
def Change.undo (resources : ExtTreeMap String Member compare) :
    Change → ExtTreeMap String Member compare
  | .added entries => eraseAll resources (entries.map Prod.fst)
  | .removed name member => resources.insert name member

/-- The second loop of `RegisterBatch`; `retired` is what the values answer. -/
def admissible (retired : Member → Bool) (resources : ExtTreeMap String Member compare) :
    List (String × Member) → Except String Unit
  | [] => .ok ()
  | (name, value) :: rest =>
    if retired value then .error "register resource: retired variable requires a new instance"
    else if resources.contains name then .error (errDuplicate ++ ": " ++ name)
    else admissible retired resources rest

def Job.change (retired : Member → Bool) (resources : ExtTreeMap String Member compare) :
    Job → Except String Change
  | .register entries =>
    if maxItems < entries.length + resources.size then .error errResourceLimit
    else (admissible retired resources entries).map fun _ => .added entries
  | .remove name =>
    match resources[name]? with
    | none => .error errNotFound
    | some member => .ok (.removed name member)

/-- The word the error of a failed preparation begins with. -/
def Job.word : Job → String
  | .register _ => "register"
  | .remove _ => "remove"

/-! ### The next catalog -/

/-- The next catalog, and the state of the Variable that goes with it; `complete` tells the value
from the notice that it is too large. -/
structure Plan where
  revision : UInt64
  members : List ResourceDescriptorV2
  state : VariableState
  complete : Bool

def overflowState : VariableState where
  status := "unavailable"
  error := some ⟨"overflow",
    "Complete catalog exceeds one frame; use the authorized catalog list capability"⟩

/-- `errors.Is` with one of the two size errors, whose texts come first. -/
def oversized (text : String) : Bool :=
  decide (cfg.catalog.payloadLimit = defaultMaxPayload) &&
    (text.startsWith errPayloadTooLarge || text.startsWith errValueTooLarge)

/-- What is done about an error of the complete value. -/
def Plan.retry (plan : Plan) (text : String) : Except String Plan :=
  if plan.complete ∧ oversized cfg text = true then
    .ok { plan with state := overflowState, complete := false }
  else .error text

def catalogMembers (resources : ExtTreeMap String Member compare) :
    Except String (List ResourceDescriptorV2) := do
  let descriptors ← (values resources).mapM fun value => normalizeDescriptor cfg.os value.descriptor
  return descriptors.insertionSort fun a b => a.id.name ≤ b.id.name

/-- `prepareCatalogLocked` up to `prepareNext`. -/
def Registry.plan (r : Registry) : Except String Plan :=
  if r.catalogRevision = maxUint64 then .error "resource catalog revision exhausted"
  else
    match catalogMembers cfg r.resources with
    | .error text => .error text
    | .ok members =>
      let revision := r.catalogRevision + 1
      match cfg.encodeVariablePayload ⟨schemaVersionV2, revision, members⟩ with
      | .ok payload => .ok ⟨revision, members, { value := payload, status := "ready" }, true⟩
      | .error text => Plan.retry cfg ⟨revision, members, overflowState, true⟩ text

/-! ### Calls -/

structure RegistryInput where
  retired : Member → Bool := fun _ => false
  now : ℤ := 0
  order : MapOrder ℕ := .asIs

inductive RegistryPhase where
  | idle
  /-- Before the lock of updates, before the gate, before the lock of the registry. -/
  | enter (job : Job)
  | updating (job : Job)
  | gated (job : Job)
  /-- With all three. -/
  | locked (job : Job)
  | changed (job : Job) (change : Change)
  /-- The two reads of `prepareNext`. -/
  | reading (job : Job) (change : Change) (plan : Plan)
  | checking (job : Job) (change : Change) (plan : Plan) (revision : UInt64)
  /-- Before and after the commit of the Variable. -/
  | prepared (job : Job) (change : Change) (plan : Plan) (prepared : PreparedVariable)
  | committed (job : Job) (change : Change) (plan : Plan) (drain : Bool)
  /-- Before each of the three locks is left. -/
  | unlocking (job : Job) (outcome : Except String Unit) (drain : Bool)
  | releasing (outcome : Except String Unit) (drain : Bool)
  | leaving (outcome : Except String Unit) (drain : Bool)
  | draining (outcome : Except String Unit)
  | done (outcome : Except String Unit)

/-- What the registry lock protects, and the committed state of the catalog Variable. -/
structure View where
  resources : ExtTreeMap String Member compare
  catalogDescriptors : List ResourceDescriptorV2
  catalogRevision : UInt64
  current : PreparedVariable

def Registry.view (r : Registry) : View :=
  ⟨r.resources, r.catalogDescriptors, r.catalogRevision, r.catalog.current⟩

/-- A call that had the lock: its outcome, and the registry before and after. -/
structure RegistryEntry where
  caller : ℕ
  job : Job
  outcome : Except String Unit
  before : View
  after : View

/-- The registry, its locks and its callers.  The last five fields are for the statements about
runs: the registry when its lock was last free, what callers did with it, what readers saw, and for
each caller the job of its last call and how long the history was when it made it. -/
structure RegistrySystem where
  reg : Registry
  updateMu : Option ℕ := none
  gate : Option ℕ := none
  mu : Option ℕ := none
  phase : ℕ → RegistryPhase := fun _ => .idle
  base : View
  log : List RegistryEntry := []
  seen : List View := []
  calls : ℕ → Option Job := fun _ => none
  since : ℕ → ℕ := fun _ => 0

inductive RegistryAct where
  | register (caller : ℕ) (values : List (Option Member))
  | remove (caller : ℕ) (id : ResourceID)
  | advance (caller : ℕ) (input : RegistryInput)
  /-- A reader that takes the registry lock. -/
  | read
  /-- `Watch` on the catalog Variable, and the two parts of the function it returns. -/
  | watch
  | cancel (watcher : ℕ)
  | detach (watcher : ℕ)

namespace RegistrySystem

def start (r : Registry) : RegistrySystem := { reg := r, base := r.view }

variable (m : RegistrySystem) (caller : ℕ)

def setPhase (phase : RegistryPhase) : RegistrySystem :=
  { m with phase := Function.update m.phase caller phase }

def setResources (resources : ExtTreeMap String Member compare) : RegistrySystem :=
  { m with reg := { m.reg with resources := resources } }

def setCatalog (catalog : Variable) : RegistrySystem :=
  { m with reg := { m.reg with catalog := catalog } }

/-- Leave the lock with an error, the map changed back. -/
def rollback (job : Job) (change : Change) (text : String) : RegistrySystem :=
  (m.setResources (change.undo m.reg.resources)).setPhase caller
    (.unlocking job (.error text) false)

def preflight (job : Job) (text : String) : String :=
  job.word ++ " resource catalog preflight: " ++ text

/-- `prepareNext` failed: try the notice, or give up. -/
def retry (job : Job) (change : Change) (plan : Plan) (text : String) : RegistrySystem :=
  match plan.retry cfg text with
  | .ok plan => m.setPhase caller (.reading job change plan)
  | .error text => m.rollback caller job change (preflight job text)

def advance (input : RegistryInput) : RegistryPhase → RegistrySystem
  | .idle => m
  | .enter job =>
    match m.updateMu with
    | none => { m with updateMu := some caller }.setPhase caller (.updating job)
    | some _ => m
  | .updating job =>
    match m.gate with
    | none => { m with gate := some caller }.setPhase caller (.gated job)
    | some _ => m
  | .gated job =>
    match m.mu with
    | none => { m with mu := some caller }.setPhase caller (.locked job)
    | some _ => m
  | .locked job =>
    match job.change input.retired m.reg.resources with
    | .error text => m.setPhase caller (.unlocking job (.error text) false)
    | .ok change =>
      (m.setResources (change.apply m.reg.resources)).setPhase caller (.changed job change)
  | .changed job change =>
    match m.reg.plan cfg with
    | .error text => m.rollback caller job change (preflight job text)
    | .ok plan => m.setPhase caller (.reading job change plan)
  | .reading job change plan =>
    match Shared.nextRevision { var := m.reg.catalog } 0 with
    | .error text => m.retry cfg caller job change plan text
    | .ok revision => m.setPhase caller (.checking job change plan revision)
  | .checking job change plan revision =>
    match m.reg.catalog.canCommit cfg.catalog, cfg.catalog.prepare input.now revision
      plan.state with
    | .error text, _ => m.retry cfg caller job change plan text
    | .ok _, .error text => m.retry cfg caller job change plan text
    | .ok _, .ok prepared => m.setPhase caller (.prepared job change plan prepared)
  | .prepared job change plan prepared =>
    match m.reg.catalog.commit cfg.catalog input.order prepared with
    | .error text => m.rollback caller job change text
    | .ok (drain, v) => (m.setCatalog v).setPhase caller (.committed job change plan drain)
  | .committed job _ plan drain =>
    { m with reg := { m.reg with catalogRevision := plan.revision
                                 catalogDescriptors := plan.members } }.setPhase caller
      (.unlocking job (.ok ()) drain)
  | .unlocking job outcome drain =>
    { m with mu := none
             base := m.reg.view
             log := m.log ++ [RegistryEntry.mk caller job outcome m.base m.reg.view]
               }.setPhase caller
      (.releasing outcome drain)
  | .releasing outcome drain => { m with gate := none }.setPhase caller (.leaving outcome drain)
  | .leaving outcome drain =>
    { m with updateMu := none }.setPhase caller (if drain then .draining outcome else .done outcome)
  | .draining outcome =>
    match m.reg.catalog.take with
    | (none, v) => (m.setCatalog v).setPhase caller (.done outcome)
    | (some _, v) => m.setCatalog v
  | .done outcome => m.setPhase caller (.done outcome)

def call (job : Except String Job) : RegistrySystem :=
  let called := { m with
    calls := Function.update m.calls caller job.toOption
    since := Function.update m.since caller m.log.length }
  match m.phase caller, job with
  | .idle, .ok job | .done _, .ok job => called.setPhase caller (.enter job)
  | .idle, .error text | .done _, .error text => called.setPhase caller (.done (.error text))
  | _, _ => m

def step (m : RegistrySystem) : RegistryAct → RegistrySystem
  | .register caller values => m.call caller (registerBatch cfg values)
  | .remove caller id => m.call caller (Resource.remove cfg id)
  | .advance caller input => m.advance cfg caller input (m.phase caller)
  | .read =>
    match m.mu with
    | none => { m with seen := m.seen ++ [m.reg.view] }
    | some _ => m
  | .watch =>
    match m.reg.catalog.watch cfg.catalog with
    | .error _ => m
    | .ok (_, _, v) => m.setCatalog v
  | .cancel watcher => m.setCatalog (m.reg.catalog.flag watcher)
  | .detach watcher => m.setCatalog (m.reg.catalog.detach watcher)

def run (r : Registry) (as : List RegistryAct) : RegistrySystem := as.foldl (step cfg) (start r)

end RegistrySystem

end Resource
