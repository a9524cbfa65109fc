/-
The policy state of a node: exact grants, definitions, and bindings of subjects to
definitions (`runtime/auth/policy_store.go`).

Every mutator prepares the next tables and commits them; a commit saves the record,
adopts the tables, rebuilds the index of bindings by subject and tells the watchers.

* `PolicyStore.plan` — the eight mutators;
* `PolicyStore.perform` — the commit;
* `PolicyStore.evaluate` — the decision on a request;
* `loadPolicyState` — how a record is read, migrated and pruned.
-/
import MyFlowHub.PolicySchema
import MyFlowHub.Search

open Checks Protocol
open Std
open Encoding (parseUint formatUint)

namespace Auth

/-! ### State -/

abbrev Definitions := ExtTreeMap String PolicyDefinitionV1 compare
abbrev Bindings := ExtTreeMap String PolicyBindingV1 compare
abbrev Record := PolicyRecord PolicyDefinitionV1 PolicyBindingV1

structure PolicyTables where
  grants : List Request
  definitions : Definitions
  bindings : Bindings

/-- `PolicyState`, with its index and its watchers. -/
structure PolicyStore extends PolicyState PolicyDefinitionV1 PolicyBindingV1 where
  bySubject : ExtTreeMap NodeID (List String) compare
  nextWatch : ℕ := 0
  watchers : List ℕ := []

def PolicyStore.tables (p : PolicyStore) : PolicyTables := ⟨p.grants, p.definitions, p.bindings⟩

/-- The node a binding is for; its subject has passed the check of node IDs. -/
def PolicyBindingV1.node (b : PolicyBindingV1) : NodeID := (parseUint b.subject).getD 0

def indexBinding (index : ExtTreeMap NodeID (List String) compare)
    (entry : String × PolicyBindingV1) :
    ExtTreeMap NodeID (List String) compare :=
  index.insert entry.2.node ((index[entry.2.node]?).getD [] ++ [entry.1])

def rebuildBindingIndex (bindings : Bindings) : ExtTreeMap NodeID (List String) compare :=
  (bindings.toList.foldl indexBinding ∅).map fun _ ids => ids.mergeSort fun l r => decide (l ≤ r)

def builtinSuperadminDefinition : PolicyDefinitionV1 where
  version := 1
  id := builtinPolicySuperadmin
  label := "Super administrator"
  revision := 1
  immutable := true
  rules := [⟨⟨.all, ""⟩, ⟨.all, []⟩⟩]

/-! ### Mutators -/

/-- The environment of a call: the clock, and the order of a map. -/
structure PolicyEnv where
  now : ℤ
  order : MapOrder String

inductive PolicyCall where
  | grant (request : Request)
  | revoke (request : Request)
  | revokeSubject (subject : NodeID)
  | putDefinition (request : PolicyDefinitionPutV1)
  | deleteDefinition (request : PolicyDefinitionDeleteV1)
  | createBinding (request : PolicyBindingCreateV1) (actor : NodeID)
  | revokeBinding (bindingID : String)
  | expireBindings

inductive PolicyReply where
  | done
  | definition (definition : PolicyDefinitionV1)
  | binding (binding : PolicyBindingV1)
  deriving DecidableEq

/-- The tables to commit, if any, and what is returned if that succeeds. -/
structure PolicyPlan where
  next : Option PolicyTables
  reply : PolicyReply

def errPolicyConflict := "policy conflict"
def errPolicyNotFound := "policy record not found"
def errPolicyImmutable := "policy definition is immutable"
def errPolicyScopeUnavailable := "policy owner scope resolver is unavailable"

variable (os : Text)

namespace PolicyStore

variable (p : PolicyStore)

def grant (request : Request) : Except String PolicyPlan := do
  let request ← normalizeRequest os request
  if request ∈ p.grants then return ⟨none, .done⟩
  else
    require (p.grants.length < maxItems)
      ("policy grants cannot exceed " ++ toString maxItems ++ " items")
    return ⟨some { p.tables with grants := p.grants ++ [request] }, .done⟩

def revoke (request : Request) : Except String PolicyPlan := do
  let request ← normalizeRequest os request
  if request ∉ p.grants then return ⟨none, .done⟩
  else return ⟨some { p.tables with grants := p.grants.filter (· ≠ request) }, .done⟩

def revokeSubject (subject : NodeID) : Except String PolicyPlan := do
  validateNodeID subject
  let grants := p.grants.filter fun grant => grant.subject ≠ subject
  let bindings := p.bindings.filter fun _ binding => binding.node ≠ subject
  if (p.grants.any fun grant => grant.subject = subject) = false ∧
      (p.bindings.toList.any fun entry => entry.2.node = subject) = false then
    return ⟨none, .done⟩
  else return ⟨some ⟨grants, p.definitions, bindings⟩, .done⟩

/-- The check of `PutDefinition` against the definition that is there. -/
def checkPut (request : PolicyDefinitionPutV1) : Option PolicyDefinitionV1 → Except String Unit
  | none =>
    if request.expectedRevision = 0 then
      require (p.definitions.size < maxItems)
        ("policy definitions cannot exceed " ++ toString maxItems ++ " items")
    else .error (errPolicyNotFound ++ ": definition " ++ request.id.quote)
  | some existing => do
    require (request.expectedRevision ≠ 0)
      (errPolicyConflict ++ ": definition " ++ request.id.quote ++ " already exists")
    require (existing.immutable = false) (errPolicyImmutable ++ ": " ++ request.id)
    require (existing.revision = request.expectedRevision)
      (errPolicyConflict ++ ": definition " ++ request.id.quote ++ " revision is " ++
        toString existing.revision ++ ", want " ++ toString request.expectedRevision)
    require (existing.revision ≠ maxCollectionRevision) "policy definition revision exhausted"

def putDefinition (request : PolicyDefinitionPutV1) : Except String PolicyPlan := do
  request.validate os
  let existing := p.definitions[request.id]?
  p.checkPut request existing
  let definition : PolicyDefinitionV1 :=
    { version := 1, id := request.id, label := request.label,
      revision := (existing.map fun d => d.revision + 1).getD 1,
      rules := sortPolicyRules request.rules }
  definition.validate os
  return ⟨some { p.tables with definitions := p.definitions.insert definition.id definition },
    .definition definition⟩

/-- A binding that refers to the definition, the first in the order of the map. -/
def referencing (order : MapOrder String) (id : String) : Option PolicyBindingV1 :=
  (order.arrange p.bindings.keys).findSome? fun bindingID =>
    p.bindings[bindingID]?.filter fun binding => binding.definitionID = id

def deleteDefinition (env : PolicyEnv) (request : PolicyDefinitionDeleteV1) :
    Except String PolicyPlan := do
  request.validate os
  match p.definitions[request.id]? with
  | none => .error (errPolicyNotFound ++ ": definition " ++ request.id.quote)
  | some existing =>
    require (existing.immutable = false) (errPolicyImmutable ++ ": " ++ request.id)
    require (existing.revision = request.expectedRevision)
      (errPolicyConflict ++ ": definition " ++ request.id.quote ++ " revision is " ++
        toString existing.revision ++ ", want " ++ toString request.expectedRevision)
    match p.referencing env.order request.id with
    | some binding =>
      .error (errPolicyConflict ++ ": definition " ++ request.id.quote ++
        " is referenced by binding " ++ binding.bindingID)
    | none =>
      return ⟨some { p.tables with definitions := p.definitions.erase request.id }, .done⟩

def bindingMatchesCreate (binding : PolicyBindingV1) (request : PolicyBindingCreateV1) : Bool :=
  binding.bindingID = request.bindingID && binding.subject = request.subject &&
    binding.definitionID = request.definitionID && binding.scope = request.scope &&
    binding.expiresAtUnixMS = request.expiresAtUnixMS

def createBinding (env : PolicyEnv) (request : PolicyBindingCreateV1) (actor : NodeID) :
    Except String PolicyPlan := do
  request.validate os
  within "binding actor" (validateNodeID actor)
  require (p.definitions.contains request.definitionID = true)
    (errPolicyNotFound ++ ": definition " ++ request.definitionID.quote)
  match p.bindings[request.bindingID]? with
  | some existing =>
    require (bindingMatchesCreate existing request = true)
      (errPolicyConflict ++ ": binding " ++ request.bindingID ++
        " already exists with different content")
    return ⟨none, .binding existing⟩
  | none =>
    require (p.bindings.size < maxItems)
      ("policy bindings cannot exceed " ++ toString maxItems ++ " items")
    require (¬(request.expiresAtUnixMS ≠ 0 ∧ request.expiresAtUnixMS ≤ env.now))
      "binding expiry must be in the future"
    let binding : PolicyBindingV1 :=
      { version := 1, bindingID := request.bindingID, subject := request.subject,
        definitionID := request.definitionID, scope := request.scope,
        createdBy := formatUint actor, createdAtUnixMS := env.now,
        expiresAtUnixMS := request.expiresAtUnixMS }
    binding.validate os
    return ⟨some { p.tables with bindings := p.bindings.insert binding.bindingID binding },
      .binding binding⟩

def revokeBinding (bindingID : String) : Except String PolicyPlan := do
  validateBindingRevoke bindingID
  if p.bindings.contains bindingID = false then return ⟨none, .done⟩
  else return ⟨some { p.tables with bindings := p.bindings.erase bindingID }, .done⟩

def expireBindings (env : PolicyEnv) : Except String PolicyPlan :=
  if p.closed then .ok ⟨none, .done⟩
  else if (p.bindings.toList.any fun entry => entry.2.expired env.now) = false then
    .ok ⟨none, .done⟩
  else
    .ok ⟨some { p.tables with
      bindings := p.bindings.filter fun _ binding => !binding.expired env.now }, .done⟩

def plan (env : PolicyEnv) : PolicyCall → Except String PolicyPlan
  | .grant request => p.grant os request
  | .revoke request => p.revoke os request
  | .revokeSubject subject => p.revokeSubject subject
  | .putDefinition request => p.putDefinition os request
  | .deleteDefinition request => p.deleteDefinition os env request
  | .createBinding request actor => p.createBinding os env request actor
  | .revokeBinding bindingID => p.revokeBinding bindingID
  | .expireBindings => p.expireBindings env

/-! ### Committing -/

variable {D : Type}

/-- The state after a commit, with the index of its bindings. -/
def adopt (s : PolicyState PolicyDefinitionV1 PolicyBindingV1) : PolicyStore :=
  { s with bySubject := rebuildBindingIndex s.bindings, nextWatch := p.nextWatch,
           watchers := p.watchers }

/-- The error, the state, the device, and the generation each watcher is told. -/
structure Committed (D : Type) where
  error : Option String
  store : PolicyStore
  device : D
  told : List (ℕ × UInt64)

def commitLocked (save : Commit.Saver Record D) (next : PolicyTables) (d : D) : Committed D :=
  match p.toPolicyState.commitLocked save next.grants next.definitions next.bindings d with
  | (some text, _, d') => ⟨some text, p, d', []⟩
  | (none, s, d') => ⟨none, p.adopt s, d', p.watchers.map fun watcher => (watcher, s.generation)⟩

def perform (save : Commit.Saver Record D) (env : PolicyEnv) (call : PolicyCall) (d : D) :
    Except String PolicyReply × Committed D :=
  match p.plan os env call with
  | .error text => (.error text, ⟨some text, p, d, []⟩)
  | .ok ⟨none, reply⟩ => (.ok reply, ⟨none, p, d, []⟩)
  | .ok ⟨some next, reply⟩ =>
    let committed := p.commitLocked save next d
    match committed.error with
    | some text => (.error text, committed)
    | none => (.ok reply, committed)

/-- `WatchGeneration`, and the function it returns. -/
def watch : Except String PolicyStore :=
  if p.closed then .error "policy state is closed"
  else .ok { p with nextWatch := p.nextWatch + 1, watchers := p.watchers ++ [p.nextWatch + 1] }

def unwatch (id : ℕ) : PolicyStore := { p with watchers := p.watchers.filter (· ≠ id) }

def close : PolicyStore := if p.closed then p else { p with closed := true, watchers := [] }

end PolicyStore

/-! ### Deciding -/

/-- `OwnerScopeResolver.MatchOwnerScope`. -/
abbrev Resolver := PolicyOwnerScopeV1 → NodeID → Except String (Bool × UInt64)

inductive PolicyEvaluationSource where
  | none | exactGrant | binding
  deriving DecidableEq, Repr

/-- `protocol.PolicyEvaluationV1`. -/
structure PolicyEvaluationV1 where
  version : ℤ := 1
  allowed : Bool
  source : PolicyEvaluationSource
  policyGeneration : UInt64
  topologyEpoch : UInt64 := 0
  bindingID : String := ""
  definitionID : String := ""
  definitionRevision : UInt64 := 0
  ruleIndex : ℕ := 0
  scope : Option PolicyOwnerScopeV1 := .none
  deriving DecidableEq, Repr

def PolicyResourceSelectorV1.matches (s : PolicyResourceSelectorV1) (resourceName : String) :
    Bool :=
  match s.kind with
  | .all => true
  | .exact => resourceName = s.value
  | .prefixed =>
    resourceName = s.value || (s.value ++ "/").toList.isPrefixOf resourceName.toList
  | .other _ => false

def matchPolicyRule (rule : PolicyRuleV1) (resourceName : String) (capability : CapabilityID) :
    Bool :=
  if rule.resource.matches resourceName = false then false
  else if rule.capability.kind = .all then true
  else
    let values := rule.capability.values
    let index := Search.search values.length fun i => values[i]?.any fun v => decide
      (capability ≤ v)
    values[index]? = some capability

/-- The zero values Go reads for a key that is missing. -/
def zeroDefinition : PolicyDefinitionV1 := ⟨0, "", "", 0, false, []⟩
def zeroBinding : PolicyBindingV1 := ⟨0, "", "", "", ⟨.other "", ""⟩, "", 0, 0⟩

variable (p : PolicyStore) (resolver : Option Resolver) (now : ℤ)

/-- The loop over the bindings of the subject. -/
def PolicyStore.evaluateBindings (request : Request) :
    List PolicyBindingV1 → Except String PolicyEvaluationV1
  | [] => .ok { allowed := false, source := .none, policyGeneration := p.generation }
  | binding :: rest =>
    if binding.expired now then evaluateBindings request rest
    else
      match resolver with
      | none => .error errPolicyScopeUnavailable
      | some resolve =>
        match resolve binding.scope request.resource.owner with
        | .error text => .error ("resolve binding " ++ binding.bindingID ++ " scope: " ++ text)
        | .ok (false, _) => evaluateBindings request rest
        | .ok (true, epoch) =>
          let definition := p.definitions[binding.definitionID]?.getD zeroDefinition
          match definition.rules.findIdx? fun rule =>
              matchPolicyRule rule request.resource.name request.capability with
          | none => evaluateBindings request rest
          | some index =>
            .ok { allowed := true, source := .binding, policyGeneration := p.generation,
                  topologyEpoch := epoch, bindingID := binding.bindingID,
                  definitionID := definition.id, definitionRevision := definition.revision,
                  ruleIndex := index, scope := some binding.scope }

def PolicyStore.evaluate (request : Request) : Except String PolicyEvaluationV1 := do
  let request ← normalizeRequest os request
  if request ∈ p.grants then
    return { allowed := true, source := .exactGrant, policyGeneration := p.generation }
  else
    let bindings := ((p.bySubject[request.subject]?).getD []).map fun id =>
      p.bindings[id]?.getD zeroBinding
    p.evaluateBindings resolver now request bindings

/-! ### Loading -/

def legacyPolicyStateVersion : ℤ := 1

/-- `fmt.Sprintf("%+v", grant)`. -/
def sprintGrant (grant : Request) : String :=
  "\x7bSubject:" ++ formatUint grant.subject ++ " Action:" ++ grant.action ++ " Capability:" ++
    grant.capability ++ " Resource:\x7bOwner:" ++ formatUint grant.resource.owner ++ " Name:" ++
    grant.resource.name ++ "\x7d\x7d"

def addGrant (grants : List Request) (grant : Request) : Except String (List Request) := do
  let grant ← within "load policy state" (normalizeRequest os grant)
  require (grant ∉ grants) ("load policy state: duplicate grant " ++ sprintGrant grant)
  return grants ++ [grant]

def addDefinition (definitions : Definitions) (definition : PolicyDefinitionV1) :
    Except String Definitions := do
  within ("load policy state definition " ++ definition.id.quote) (definition.validate os)
  require (definitions.contains definition.id = false)
    ("load policy state: duplicate definition " ++ definition.id.quote)
  return definitions.insert definition.id definition

/-- The rules are compared one by one, the capability values by their text. -/
def sameRule (l r : PolicyRuleV1) : Bool :=
  l.resource = r.resource && l.capability.kind = r.capability.kind &&
    sprintValues l.capability.values = sprintValues r.capability.values

def sameDefinition (left right : PolicyDefinitionV1) : Bool :=
  left.version = right.version && left.id = right.id && left.label = right.label &&
    left.revision = right.revision && left.immutable = right.immutable &&
    left.rules.length = right.rules.length &&
    (left.rules.zip right.rules).all fun pair => sameRule pair.1 pair.2

/-- One binding of the record: refused, pruned, or filed. -/
def addBinding (now : ℤ) (definitions : Definitions) (found : Bindings × Bool)
    (binding : PolicyBindingV1) : Except String (Bindings × Bool) := do
  within ("load policy state binding " ++ binding.bindingID.quote) (binding.validate os)
  require (definitions.contains binding.definitionID = true)
    ("load policy state binding " ++ binding.bindingID.quote ++ ": unknown definition " ++
      binding.definitionID.quote)
  require (found.1.contains binding.bindingID = false)
    ("load policy state: duplicate binding " ++ binding.bindingID.quote)
  if binding.expired now then return (found.1, true)
  else return (found.1.insert binding.bindingID binding, found.2)

def freshRecord : Record where
  version := policyStateVersion
  generation := 1
  grants := []
  definitions := [builtinSuperadminDefinition]
  bindings := []

def checkHeader (state : Record) : Except String Unit := do
  require (state.generation ≠ 0) "load policy state: zero generation"
  require (state.generation ≤ maxCollectionRevision)
    ("load policy state: generation exceeds " ++ toString maxCollectionRevision)
  require (¬(maxItems < state.grants.length ∨ maxItems < state.definitions.length ∨
      maxItems < state.bindings.length))
    ("load policy state: grants, definitions, and bindings must each contain at most " ++
      toString maxItems ++ " items")

/-- The record of version 2 that a record found on disk stands for, and whether it is new. -/
def migrate (state : Record) : Except String (Record × Bool) :=
  if state.version = legacyPolicyStateVersion then
    if maxCollectionRevision ≤ state.generation then
      .error "load policy state: generation exhausted during migration"
    else
      .ok ({ state with
        version := policyStateVersion, generation := state.generation + 1,
        definitions := [builtinSuperadminDefinition], bindings := [] }, true)
  else if state.version = policyStateVersion then .ok (state, false)
  else .error ("load policy state: unsupported version " ++ toString state.version)

/-- The record to read: a fresh one, or what was found. -/
def recordToRead : Option Record → Except String (Record × Bool)
  | none => .ok (freshRecord, true)
  | some state => migrate state

/-- The state a record stands for, and whether it has to be saved. -/
def readRecord (state : Record) (migrated : Bool) (now : ℤ) :
    Except String (PolicyStore × Bool) := do
  let grants ← state.grants.foldlM (addGrant os) []
  let definitions ← state.definitions.foldlM (addDefinition os) ∅
  require ((definitions[builtinPolicySuperadmin]?.any fun d =>
      sameDefinition d builtinSuperadminDefinition) = true)
    "load policy state: canonical superadmin definition is missing or modified"
  let (bindings, pruned) ← state.bindings.foldlM (addBinding os now definitions) (∅, false)
  require (¬(pruned = true ∧ maxCollectionRevision ≤ state.generation))
    "load policy state: generation exhausted while pruning expired bindings"
  return (⟨⟨if pruned then state.generation + 1 else state.generation, grants, definitions,
    bindings, false⟩, rebuildBindingIndex bindings, 0, []⟩, migrated || pruned)

/-- `snapshotLocked`. -/
def PolicyStore.snapshot (p : PolicyStore) : Record :=
  PolicyState.record p.grants p.definitions p.bindings p.generation

/-- `LoadPolicyState`, given what the store found. -/
def loadPolicyState {D : Type} (save : Commit.Saver Record D) (now : ℤ) (found : Option Record)
    (d : D) : Except String PolicyStore × D :=
  let loaded : Except String (PolicyStore × Bool) := do
    checkHeader (found.getD freshRecord)
    let (state, migrated) ← recordToRead found
    readRecord os state migrated now
  match loaded with
  | .error text => (.error text, d)
  | .ok (p, false) => (.ok p, d)
  -- what reading changed is written back before the store is served
  | .ok (p, true) =>
    match save p.snapshot d with
    | (some text, d') => (.error ("initialize policy state: " ++ text), d')
    | (none, d') => (.ok p, d')

end Auth
