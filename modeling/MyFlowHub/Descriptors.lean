/-
Resource descriptors and the catalog that lists them (`protocol/schema_catalog.go`,
`runtime/resource/resource.go`, `runtime/resource/catalog.go`).

* `ResourceDescriptorV2.validate`, `ResourceCatalogV2.validate` — the checks;
* `normalizeDescriptor` — the form in which a descriptor is published;
* `catalogDescriptor` — the descriptor of the catalog itself, which is in that form.

Where the source ranges over a map of fields, the order in which they are checked is the one
they are written in.
-/
import MyFlowHub.PolicySchema
import MyFlowHub.Variable

open Checks Protocol
open List

open Auth (Text validateIdentifier validateCapability validateResource maxItems maxCapabilities)

namespace Resource

def maxSchemas : ℕ := 64
def maxSchemaBytes : ℕ := 255
def maxContentTypeBytes : ℕ := 127
def maxAttributeValueBytes : ℕ := 1024
def defaultMaxPayload : ℕ := 2 ^ 20
def schemaVersionV2 : ℤ := 2
def builtinResourceCatalog : String := "system/catalog"
def resourceTypeVariable : String := "mfh.variable"
def schemaVariableWriteV3 : String := "mfh.variable-write.v3"
def schemaCatalogListV1 : String := "mfh.catalog-list.v1"
def schemaCatalogPageV1 : String := "mfh.catalog-page.v1"
def maxCatalogPageBytes : ℕ := 512 * 2 ^ 10
def capabilityRead : CapabilityID := "read"
def capabilityWrite : CapabilityID := "write"
def capabilitySubscribe : CapabilityID := "subscribe"
def capabilityPublish : CapabilityID := "publish"
def capabilityList : CapabilityID := "list"

def errInvalidSchema : String := "resource operation schema does not match capability"

/-! ### Data -/

structure SchemaDescriptorV2 where
  id : String
  contentType : String
  deriving DecidableEq, Repr

structure CapabilityDescriptorV2 where
  name : CapabilityID
  permission : String := ""
  inputSchema : String := ""
  outputSchema : String := ""
  eventSchema : String := ""
  maxPayloadBytes : ℤ := 0
  deriving DecidableEq, Repr

structure ResourceLimitsV2 where
  maxPayloadBytes : ℤ
  maxSubscribers : ℤ := 0
  maxSessions : ℤ := 0
  maxQueue : ℤ := 0
  deriving DecidableEq, Repr

structure PresentationHintV2 where
  renderer : String := ""
  label : String := ""
  description : String := ""
  icon : String := ""
  deriving DecidableEq, Repr

structure ResourceDescriptorV2 where
  id : ResourceID
  type : String
  typeVersion : UInt32
  capabilities : List CapabilityDescriptorV2
  schemas : List SchemaDescriptorV2
  limits : ResourceLimitsV2
  presentation : PresentationHintV2
  deriving DecidableEq, Repr

structure ResourceCatalogV2 where
  version : ℤ
  revision : UInt64
  resources : List ResourceDescriptorV2
  deriving DecidableEq, Repr

/-! ### Checks -/

variable (os : Text)

def SchemaDescriptorV2.validate (s : SchemaDescriptorV2) : Except String Unit := do
  validateText "schema id" s.id maxSchemaBytes true
  validateText "schema content_type" s.contentType maxContentTypeBytes true

def CapabilityDescriptorV2.validate (c : CapabilityDescriptorV2) : Except String Unit := do
  validateCapability os c.name
  validateText "capability permission" c.permission maxIdentifierBytes true
  validateText "input_schema" c.inputSchema maxSchemaBytes false
  validateText "output_schema" c.outputSchema maxSchemaBytes false
  validateText "event_schema" c.eventSchema maxSchemaBytes false
  require (0 < c.maxPayloadBytes ∧ c.maxPayloadBytes ≤ defaultMaxPayload)
    ("capability max_payload_bytes must be between 1 and " ++ toString defaultMaxPayload)

/-- One of the counts of `ResourceLimitsV2`. -/
def validateCount (name : String) (value : ℤ) : Except String Unit :=
  require (0 ≤ value ∧ value ≤ maxItems) (name ++ " must be between 0 and " ++ toString maxItems)

def ResourceLimitsV2.validate (l : ResourceLimitsV2) : Except String Unit := do
  require (0 < l.maxPayloadBytes ∧ l.maxPayloadBytes ≤ defaultMaxPayload)
    ("resource max_payload_bytes must be between 1 and " ++ toString defaultMaxPayload)
  validateCount "max_subscribers" l.maxSubscribers
  validateCount "max_sessions" l.maxSessions
  validateCount "max_queue" l.maxQueue

def PresentationHintV2.validate (p : PresentationHintV2) : Except String Unit := do
  if p.renderer ≠ "" then validateIdentifier os "renderer" p.renderer
  validateText "presentation label" p.label maxLabelBytes false
  validateText "presentation description" p.description maxAttributeValueBytes false
  validateText "presentation icon" p.icon maxIdentifierBytes false

namespace ResourceDescriptorV2

/-- The loop over the schemas; `seen` holds the ones before. -/
def validateSchemas : List String → List SchemaDescriptorV2 → Except String Unit
  | _, [] => .ok ()
  | seen, schema :: rest => do
    within ("schemas[" ++ toString seen.length ++ "]") schema.validate
    require (schema.id ∉ seen) ("duplicate schema " ++ schema.id.quote)
    require (∀ before ∈ seen.getLast?, before < schema.id)
      "resource schemas must be strictly sorted by id"
    validateSchemas (seen ++ [schema.id]) rest

/-- A capability names schemas of the descriptor only. -/
def validateReference (schemas : List String) (name : CapabilityID) (field schema : String) :
    Except String Unit :=
  require (schema = "" ∨ schema ∈ schemas)
    ("capability " ++ name.quote ++ " " ++ field ++ " references unknown schema " ++ schema.quote)

def validateCapabilities (schemas : List String) :
    List CapabilityID → List CapabilityDescriptorV2 → Except String Unit
  | _, [] => .ok ()
  | seen, capability :: rest => do
    within ("capabilities[" ++ toString seen.length ++ "]") (capability.validate os)
    require (capability.name ∉ seen) ("duplicate capability " ++ capability.name.quote)
    require (∀ before ∈ seen.getLast?, before < capability.name)
      "resource capabilities must be strictly sorted by name"
    validateReference schemas capability.name "input_schema" capability.inputSchema
    validateReference schemas capability.name "output_schema" capability.outputSchema
    validateReference schemas capability.name "event_schema" capability.eventSchema
    validateCapabilities schemas (seen ++ [capability.name]) rest

def validate (d : ResourceDescriptorV2) : Except String Unit := do
  validateResource os d.id
  validateIdentifier os "resource type" d.type
  require (d.typeVersion ≠ 0) "resource type_version must be non-zero"
  require (¬(d.capabilities = [] ∨ maxCapabilities < d.capabilities.length))
    ("resource capabilities must contain between 1 and " ++ toString maxCapabilities ++ " entries")
  require (d.schemas.length ≤ maxSchemas)
    ("resource schemas exceeds " ++ toString maxSchemas ++ " entries")
  d.limits.validate
  d.presentation.validate os
  validateSchemas [] d.schemas
  validateCapabilities os (d.schemas.map (·.id)) [] d.capabilities

/-- `Capability`. -/
def capability (d : ResourceDescriptorV2) (name : CapabilityID) : Option CapabilityDescriptorV2 :=
  d.capabilities.find? (·.name = name)

/-- `Sort`. -/
def sort (d : ResourceDescriptorV2) : ResourceDescriptorV2 :=
  { d with
    capabilities := d.capabilities.insertionSort fun a b => a.name ≤ b.name
    schemas := d.schemas.insertionSort fun a b => a.id ≤ b.id }

end ResourceDescriptorV2

/-- `compareResourceID` is negative. -/
def resourceBefore (left right : ResourceID) : Prop :=
  left.owner < right.owner ∨ left.owner = right.owner ∧ left.name < right.name

instance (left right : ResourceID) : Decidable (resourceBefore left right) :=
  inferInstanceAs (Decidable (_ ∨ _))

/-- The loop of `ResourceCatalogV2.Validate`. -/
def validateMembers : List ResourceID → List ResourceDescriptorV2 → Except String Unit
  | _, [] => .ok ()
  | seen, descriptor :: rest => do
    within ("resources[" ++ toString seen.length ++ "]") (descriptor.validate os)
    require (descriptor.id ∉ seen)
      ("duplicate resource " ++ toString descriptor.id.owner ++ "/" ++ descriptor.id.name.quote)
    require (∀ before ∈ seen.getLast?, resourceBefore before descriptor.id)
      "catalog resources must be strictly sorted by owner and name"
    validateMembers (seen ++ [descriptor.id]) rest

def ResourceCatalogV2.validate (c : ResourceCatalogV2) : Except String Unit := do
  require (c.version = schemaVersionV2) ("version must be " ++ toString schemaVersionV2)
  require (c.revision ≠ 0) "catalog revision must be non-zero"
  require (¬(c.resources = [] ∨ maxItems < c.resources.length))
    ("catalog resources must contain between 1 and " ++ toString maxItems ++ " entries")
  validateMembers os [] c.resources
  require (∃ d ∈ c.resources, d.id.name = builtinResourceCatalog)
    ("catalog must describe " ++ builtinResourceCatalog)

/-! ### Normalized descriptors -/

def validateVariableDescriptor (d : ResourceDescriptorV2) : Except String Unit := do
  require (d.type = resourceTypeVariable ∧ d.typeVersion = 2)
    (errInvalidSchema ++ ": variable requires mfh.variable type_version 2")
  require (∃ read, d.capability capabilityRead = some read ∧ read.inputSchema = "" ∧
      read.outputSchema = schemaVariableValueV1)
    (errInvalidSchema ++ ": variable requires standard read capability")
  require (∃ subscribe, d.capability capabilitySubscribe = some subscribe ∧
      subscribe.eventSchema = schemaVariableValueV1)
    (errInvalidSchema ++ ": variable requires standard subscribe capability")
  require (∀ write, d.capability capabilityWrite = some write →
      write.inputSchema = schemaVariableWriteV3 ∧ write.outputSchema = schemaVariableValueV1)
    (errInvalidSchema ++ ": variable requires standard write capability")

/-- The defaults of `normalizeDescriptor`. -/
def ResourceDescriptorV2.withDefaults (d : ResourceDescriptorV2) : ResourceDescriptorV2 :=
  let limit := if d.limits.maxPayloadBytes ≤ 0 then (defaultMaxPayload : ℤ) else
    d.limits.maxPayloadBytes
  { d with
    typeVersion := if d.typeVersion = 0 then 1 else d.typeVersion
    limits := { d.limits with maxPayloadBytes := limit }
    capabilities := d.capabilities.map fun c =>
      if c.maxPayloadBytes ≤ 0 then { c with maxPayloadBytes := limit } else c }

def normalizeDescriptor (d : ResourceDescriptorV2) : Except String ResourceDescriptorV2 := do
  let d := d.withDefaults.sort
  d.validate os
  let _ ← (if d.type = resourceTypeVariable then validateVariableDescriptor d else .ok ())
  return d

theorem normalizeDescriptor_eq_ok {d d' : ResourceDescriptorV2}
    (h : normalizeDescriptor os d = .ok d') :
    d' = d.withDefaults.sort ∧ d'.validate os = .ok () := by
  obtain ⟨_, hvalid, h⟩ := bind_eq_ok.1 h
  obtain ⟨_, -, h⟩ := bind_eq_ok.1 h
  cases h
  exact ⟨rfl, hvalid⟩

theorem normalizeDescriptor_id {d d' : ResourceDescriptorV2}
    (h : normalizeDescriptor os d = .ok d') : d'.id = d.id := by
  rw [(normalizeDescriptor_eq_ok os h).1]
  rfl

/-! ### The descriptor of the catalog -/

/-- `descriptorFor`. -/
def descriptorFor (id : ResourceID) (typeID contentType schema permission : String)
    (maxPayload : ℤ) (capabilities : List CapabilityDescriptorV2) : ResourceDescriptorV2 :=
  let contentType := if contentType = "" then "application/octet-stream" else contentType
  let schema := if schema = "" then "mfh.raw.v1" else schema
  let permission := if permission = "" then "resource.access" else permission
  let maxPayload := if maxPayload ≤ 0 then (defaultMaxPayload : ℤ) else maxPayload
  ResourceDescriptorV2.sort {
    id := id
    type := typeID
    typeVersion := 1
    capabilities := capabilities.map fun c =>
      { c with
        permission := if c.permission = "" then permission else c.permission
        maxPayloadBytes := if c.maxPayloadBytes ≤ 0 then maxPayload else c.maxPayloadBytes
        inputSchema :=
          if c.inputSchema = "" ∧ c.name = capabilityPublish then schema else c.inputSchema }
    schemas := [⟨schema, contentType⟩]
    limits := ⟨maxPayload, 1024, 64, 256⟩
    presentation := { renderer := typeID } }

/-- `VariableDescriptor`. -/
def variableDescriptor (id : ResourceID) (permission : String) (maxPayload : ℤ) :
    ResourceDescriptorV2 :=
  { descriptorFor id resourceTypeVariable "application/json" schemaVariableValueV1 permission
      maxPayload
      [{ name := capabilityRead, outputSchema := schemaVariableValueV1 },
        { name := capabilitySubscribe, eventSchema := schemaVariableValueV1 }] with
    typeVersion := 2 }

/-- `catalogDescriptor`. -/
def catalogDescriptor (owner : NodeID) : ResourceDescriptorV2 :=
  let d := variableDescriptor ⟨owner, builtinResourceCatalog⟩ "resource.catalog.read"
    defaultMaxPayload
  ResourceDescriptorV2.sort { d with
    capabilities := d.capabilities ++
      [{ name := capabilityList, permission := "resource.catalog.list",
         inputSchema := schemaCatalogListV1, outputSchema := schemaCatalogPageV1,
         maxPayloadBytes := maxCatalogPageBytes }]
    schemas := d.schemas ++
      [⟨schemaCatalogListV1, "application/json"⟩, ⟨schemaCatalogPageV1, "application/json"⟩] }

theorem insertionSort_idem {α : Type*} (key : α → String) (l : List α) :
    (l.insertionSort fun a b => key a ≤ key b).insertionSort (fun a b => key a ≤ key b) =
      l.insertionSort fun a b => key a ≤ key b := by
  have : Std.Total fun a b : α => key a ≤ key b := ⟨fun a b => String.le_total (key a) (key b)⟩
  have : IsTrans α fun a b => key a ≤ key b := ⟨fun _ _ _ => le_trans⟩
  exact (pairwise_insertionSort _ l).insertionSort_eq

theorem sort_sort (d : ResourceDescriptorV2) : d.sort.sort = d.sort := by
  simp only [ResourceDescriptorV2.sort, insertionSort_idem]

theorem withDefaults_eq_self {d : ResourceDescriptorV2} (hversion : d.typeVersion ≠ 0)
    (hlimit : 0 < d.limits.maxPayloadBytes)
    (hcapabilities : ∀ c ∈ d.capabilities, 0 < c.maxPayloadBytes) : d.withDefaults = d := by
  have hmap : (d.capabilities.map fun c => if c.maxPayloadBytes ≤ 0 then
      { c with maxPayloadBytes := d.limits.maxPayloadBytes } else c) = d.capabilities := by
    conv_rhs => rw [← map_id d.capabilities]
    exact map_congr_left fun c hc => if_neg (not_le.2 (hcapabilities c hc))
  unfold ResourceDescriptorV2.withDefaults
  simp only [if_neg (not_le.2 hlimit), if_neg hversion, hmap]

theorem normalizeDescriptor_catalog {owner : NodeID} {d : ResourceDescriptorV2}
    (h : normalizeDescriptor os (catalogDescriptor owner) = .ok d) :
    d = catalogDescriptor owner := by
  have hdefaults : (catalogDescriptor owner).withDefaults = catalogDescriptor owner := by
    refine withDefaults_eq_self ?_ ?_ fun c hc => ?_
    · show (2 : UInt32) ≠ 0
      decide
    · show (0 : ℤ) < defaultMaxPayload
      decide
    have hc := (perm_insertionSort _ _).subset hc
    rcases mem_append.1 hc with hc | hc
    · obtain ⟨c', hc', rfl⟩ := mem_map.1 ((perm_insertionSort _ _).subset hc)
      rcases mem_pair.1 hc' with rfl | rfl
      · decide
      · decide
    · rw [mem_singleton.1 hc]
      decide
  rw [(normalizeDescriptor_eq_ok os h).1, hdefaults]
  exact sort_sort _

end Resource
