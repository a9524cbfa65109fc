/-
Policy definitions, bindings and requests, and the checks on them
(`protocol/schema_policy.go`, `protocol/types.go`, `runtime/auth/policy.go`).

A rule selects resources by name and capabilities by a list that has to be strictly
sorted, because decisions look a capability up by binary search.

* `PolicyDefinitionV1.validate`, `PolicyBindingV1.validate` — the checks;
* `sortPolicyRules` — the order in which rules are stored;
* `normalizeRequest` — the one form of a request that is granted and looked up;
* `sorted_of_validate` — a definition that passed has sorted capability lists.
-/
import MyFlowHub.FailedCommit


open Checks Protocol

namespace Auth

/-- What the checks of names take from the Go libraries. -/
structure Text extends Platform where
  /-- `unicode.IsControl` or `unicode.IsSpace` -/
  isControlOrSpace : Char → Bool

def maxItems : ℕ := 4096
def maxCapabilities : ℕ := 64
def maxPolicyRulesPerDefinition : ℕ := 128
def maxResourceNameBytes : ℕ := 255

def builtinPolicySuperadmin : String := "superadmin"

variable (os : Text)

/-! ### Names -/

def validateIdentifier (field value : String) : Except String Unit :=
  match validateExtensibleIdentifier os.toPlatform field value with
  | some text => .error text
  | none => .ok ()

/-- `CapabilityID.Validate`. -/
def validateCapability (capability : CapabilityID) : Except String Unit :=
  validateIdentifier os "capability" capability

def doubleSlash : List Char → Bool
  | '/' :: '/' :: _ => true
  | _ :: rest => doubleSlash rest
  | [] => false

/-- `ResourceID.Validate`. -/
def validateResource (id : ResourceID) : Except String Unit := do
  within "resource owner" (validateNodeID id.owner)
  require (¬(id.name = "" ∨ maxResourceNameBytes < id.name.utf8ByteSize))
    ("invalid envelope: resource name must be valid UTF-8 between 1 and " ++
      toString maxResourceNameBytes ++ " bytes")
  let cs := id.name.toList
  require (¬(cs.head? = some '/' ∨ cs.getLast? = some '/' ∨ doubleSlash cs = true))
    "invalid envelope: resource name must contain non-empty relative segments"
  require (∀ segment ∈ cs.splitOn '/', segment ≠ ['.'] ∧ segment ≠ ['.', '.'])
    "invalid envelope: resource name cannot contain dot segments"
  require (cs.any os.isControlOrSpace = false)
    "invalid envelope: resource name cannot contain whitespace or control characters"

/-! ### Rules -/

/-- The kinds of selectors, and what else a record may say. -/
inductive PolicySelector where
  | exact | prefixed | all
  | other (text : String)
  deriving DecidableEq, Repr

def PolicySelector.text : PolicySelector → String
  | .exact => "exact"
  | .prefixed => "prefix"
  | .all => "all"
  | .other text => text

/-- `protocol.PolicyResourceSelectorV1`. -/
structure PolicyResourceSelectorV1 where
  kind : PolicySelector
  value : String := ""
  deriving DecidableEq, Repr

def PolicyResourceSelectorV1.validate (s : PolicyResourceSelectorV1) : Except String Unit :=
  match s.kind with
  | .all => require (s.value = "") "all resource selector must not contain value"
  | .exact | .prefixed => within "resource selector value" (validateResource os ⟨1, s.value⟩)
  | .other _ => .error "resource selector kind must be exact, prefix, or all"

/-- `protocol.PolicyCapabilitySelectorV1`. -/
structure PolicyCapabilitySelectorV1 where
  kind : PolicySelector
  values : List CapabilityID := []
  deriving DecidableEq, Repr

/-- The loop over the values; `last` is the value before. -/
def validateValues : ℕ → Option CapabilityID → List CapabilityID → Except String Unit
  | _, _, [] => .ok ()
  | index, last, value :: rest => do
    within ("capability selector values[" ++ toString index ++ "]") (validateCapability os value)
    require (∀ before ∈ last, before < value)
      "capability selector values must be strictly sorted and unique"
    validateValues (index + 1) (some value) rest

def PolicyCapabilitySelectorV1.validate (s : PolicyCapabilitySelectorV1) : Except String Unit :=
  match s.kind with
  | .all => require (s.values = []) "all capability selector must not contain values"
  | .exact => do
    require (¬(s.values = [] ∨ maxCapabilities < s.values.length))
      ("exact capability selector requires 1.." ++ toString maxCapabilities ++ " values")
    validateValues os 0 none s.values
  | .prefixed | .other _ => .error "capability selector kind must be exact or all"

/-- `protocol.PolicyRuleV1`. -/
structure PolicyRuleV1 where
  resource : PolicyResourceSelectorV1
  capability : PolicyCapabilitySelectorV1
  deriving DecidableEq, Repr

def PolicyRuleV1.validate (r : PolicyRuleV1) : Except String Unit := do
  r.resource.validate os
  r.capability.validate os

/-- `fmt.Sprint` of the values. -/
def sprintValues (values : List CapabilityID) : String := "[" ++ " ".intercalate values ++ "]"

/-- What two rules of one definition must not share. -/
def PolicyRuleV1.key (r : PolicyRuleV1) : String :=
  r.resource.kind.text ++ "\x00" ++ r.resource.value ++ "\x00" ++
    r.capability.kind.text ++ "\x00" ++
    sprintValues r.capability.values

/-- The loop of `validatePolicyRules`. -/
def validateRules : ℕ → List String → List PolicyRuleV1 → Except String Unit
  | _, _, [] => .ok ()
  | index, seen, rule :: rest => do
    within ("policy rules[" ++ toString index ++ "]") (rule.validate os)
    require (rule.key ∉ seen) "policy rules must be unique"
    validateRules (index + 1) (rule.key :: seen) rest

def validatePolicyRules (rules : List PolicyRuleV1) : Except String Unit := do
  require (¬(rules = [] ∨ maxPolicyRulesPerDefinition < rules.length))
    ("policy definition requires 1.." ++ toString maxPolicyRulesPerDefinition ++ " rules")
  validateRules os 0 [] rules

/-- The order of `SortPolicyRules`. -/
def ruleLess (left right : PolicyRuleV1) : Bool :=
  if left.resource.kind.text ≠ right.resource.kind.text then
    left.resource.kind.text < right.resource.kind.text
  else if left.resource.value ≠ right.resource.value then left.resource.value < right.resource.value
  else if left.capability.kind.text ≠ right.capability.kind.text then
    left.capability.kind.text < right.capability.kind.text
  else sprintValues left.capability.values < sprintValues right.capability.values

def PolicyRuleV1.sorted (rule : PolicyRuleV1) : PolicyRuleV1 :=
  { rule with
    capability := { rule.capability with
      values := rule.capability.values.mergeSort fun l r => decide (l ≤ r) } }

def sortPolicyRules (rules : List PolicyRuleV1) : List PolicyRuleV1 :=
  (rules.map PolicyRuleV1.sorted).mergeSort fun l r => !ruleLess r l

/-! ### Definitions -/

/-- `protocol.PolicyDefinitionV1`. -/
structure PolicyDefinitionV1 where
  version : ℤ
  id : String
  label : String
  revision : UInt64
  immutable : Bool := false
  rules : List PolicyRuleV1
  deriving DecidableEq, Repr

def PolicyDefinitionV1.validate (d : PolicyDefinitionV1) : Except String Unit := do
  validateVersion d.version
  validateIdentifier os "policy definition id" d.id
  validateText "policy definition label" d.label maxLabelBytes true
  require (¬(d.revision = 0 ∨ maxCollectionRevision < d.revision))
    ("policy definition revision must be between 1 and " ++ toString maxCollectionRevision)
  validatePolicyRules os d.rules

/-- `protocol.PolicyDefinitionPutV1`. -/
structure PolicyDefinitionPutV1 where
  version : ℤ
  id : String
  label : String
  expectedRevision : UInt64 := 0
  rules : List PolicyRuleV1
  deriving DecidableEq, Repr

def PolicyDefinitionPutV1.validate (d : PolicyDefinitionPutV1) : Except String Unit := do
  validateVersion d.version
  validateIdentifier os "policy definition id" d.id
  validateText "policy definition label" d.label maxLabelBytes true
  require (d.expectedRevision ≤ maxCollectionRevision)
    ("expected_revision exceeds " ++ toString maxCollectionRevision)
  validatePolicyRules os d.rules

/-- `protocol.PolicyDefinitionDeleteV1`. -/
structure PolicyDefinitionDeleteV1 where
  version : ℤ
  id : String
  expectedRevision : UInt64
  deriving DecidableEq, Repr

def PolicyDefinitionDeleteV1.validate (d : PolicyDefinitionDeleteV1) : Except String Unit := do
  validateVersion d.version
  validateIdentifier os "policy definition id" d.id
  require (¬(d.expectedRevision = 0 ∨ maxCollectionRevision < d.expectedRevision))
    ("expected_revision must be between 1 and " ++ toString maxCollectionRevision)

/-! ### Bindings -/

/-- The kinds of owner scopes, and what else a record may say. -/
inductive PolicyScope where
  | owner | subtree | authorityDomain
  | other (text : String)
  deriving DecidableEq, Repr

/-- `protocol.PolicyOwnerScopeV1`. -/
structure PolicyOwnerScopeV1 where
  kind : PolicyScope
  nodeID : String
  deriving DecidableEq, Repr

def PolicyOwnerScopeV1.validate (s : PolicyOwnerScopeV1) : Except String Unit :=
  match s.kind with
  | .other _ => .error "policy owner scope kind must be owner, subtree, or authority-domain"
  | _ => validateNodeIDText "policy owner scope node_id" s.nodeID

/-- `protocol.PolicyBindingV1`. -/
structure PolicyBindingV1 where
  version : ℤ
  bindingID : String
  subject : String
  definitionID : String
  scope : PolicyOwnerScopeV1
  createdBy : String
  createdAtUnixMS : ℤ
  expiresAtUnixMS : ℤ := 0
  deriving DecidableEq, Repr

def PolicyBindingV1.validate (b : PolicyBindingV1) : Except String Unit := do
  validateVersion b.version
  validateHexID "binding_id" b.bindingID 16
  validateNodeIDText "subject" b.subject
  validateIdentifier os "definition_id" b.definitionID
  b.scope.validate
  validateNodeIDText "created_by" b.createdBy
  require (0 < b.createdAtUnixMS) "created_at_unix_ms must be positive"
  require (¬(b.expiresAtUnixMS < 0 ∨ b.expiresAtUnixMS ≠ 0 ∧ b.expiresAtUnixMS ≤ b.createdAtUnixMS))
    "expires_at_unix_ms must be zero or later than creation"

def PolicyBindingV1.expired (b : PolicyBindingV1) (now : ℤ) : Bool :=
  b.expiresAtUnixMS ≠ 0 && b.expiresAtUnixMS ≤ now

/-- `protocol.PolicyBindingCreateV1`. -/
structure PolicyBindingCreateV1 where
  version : ℤ
  bindingID : String
  subject : String
  definitionID : String
  scope : PolicyOwnerScopeV1
  expiresAtUnixMS : ℤ := 0
  deriving DecidableEq, Repr

def PolicyBindingCreateV1.validate (b : PolicyBindingCreateV1) : Except String Unit := do
  validateVersion b.version
  validateHexID "binding_id" b.bindingID 16
  validateNodeIDText "subject" b.subject
  validateIdentifier os "definition_id" b.definitionID
  b.scope.validate
  require (0 ≤ b.expiresAtUnixMS) "expires_at_unix_ms must not be negative"

/-- `PolicyBindingRevokeV1.Validate`, with the version the caller sets. -/
def validateBindingRevoke (bindingID : String) : Except String Unit := do
  validateVersion 1
  validateHexID "binding_id" bindingID 16

/-! ### Requests -/

def normalizeRequest (request : Request) : Except String Request := do
  validateNodeID request.subject
  let capability := if request.capability = "" then request.action else request.capability
  let action := if request.action = "" then capability else request.action
  validateCapability os capability
  require (action = capability) "policy action and capability must match"
  validateResource os request.resource
  return { request with action := action, capability := capability }

variable {os}

theorem normalizeRequest_idem {request normal : Request}
    (h : normalizeRequest os request = .ok normal) : normalizeRequest os normal = .ok normal := by
  simp only [normalizeRequest, bind_eq_ok, require_eq_ok] at h
  obtain ⟨u₁, hsubject, u₂, hcapability, u₃, hsame, u₄, hresource, h⟩ := h
  cases h
  simp only [normalizeRequest, bind_eq_ok, require_eq_ok]
  -- after the defaults are filled in both texts are the same
  refine ⟨(), hsubject, (), ?_, (), ?_, (), hresource, ?_⟩
  · simp only [hsame, ite_self]
    exact hcapability
  · simp only [hsame, ite_self]
  · simp only [hsame, ite_self]
    rfl

/-! ### What a valid definition satisfies -/

theorem validateValues_eq_ok {index : ℕ} {last : Option CapabilityID} {values : List CapabilityID}
    (h : validateValues os index last values = .ok ()) :
    values.Pairwise (· < ·) ∧ ∀ before ∈ last, ∀ value ∈ values, before < value := by
  induction values generalizing index last with
  | nil => exact ⟨List.Pairwise.nil, fun _ _ value hvalue => absurd hvalue List.not_mem_nil⟩
  | cons value rest ih =>
    simp only [validateValues, bind_eq_ok, require_eq_ok] at h
    obtain ⟨-, -, -, hlast, h⟩ := h
    obtain ⟨hpairwise, hfirst⟩ := ih h
    have hbelow : ∀ v ∈ rest, value < v := hfirst value rfl
    refine ⟨List.Pairwise.cons hbelow hpairwise, fun before hbefore v hv => ?_⟩
    rcases List.mem_cons.mp hv with rfl | hv
    · exact hlast before hbefore
    · exact (hlast before hbefore).trans (hbelow v hv)

theorem validate_of_validateRules {index : ℕ} {seen : List String} {rules : List PolicyRuleV1}
    (h : validateRules os index seen rules = .ok ()) :
    ∀ rule ∈ rules, rule.validate os = .ok () := by
  induction rules generalizing index seen with
  | nil => exact fun rule hrule => absurd hrule List.not_mem_nil
  | cons rule rest ih =>
    simp only [validateRules, bind_eq_ok, require_eq_ok] at h
    obtain ⟨u, hrule, -, -, h⟩ := h
    intro r hr
    rcases List.mem_cons.mp hr with rfl | hr
    · exact within_eq_ok.mp hrule
    · exact ih h r hr

/-- **The capability lists of a valid definition are sorted.** -/
theorem sorted_of_validate {d : PolicyDefinitionV1} (h : d.validate os = .ok ())
    {rule : PolicyRuleV1} (hrule : rule ∈ d.rules) : rule.capability.values.Pairwise (· < ·) := by
  simp only [PolicyDefinitionV1.validate, validatePolicyRules, bind_eq_ok] at h
  obtain ⟨-, -, -, -, -, -, -, -, -, -, hrules⟩ := h
  have hvalid := validate_of_validateRules hrules rule hrule
  simp only [PolicyRuleV1.validate, bind_eq_ok] at hvalid
  obtain ⟨-, -, hcapability⟩ := hvalid
  unfold PolicyCapabilitySelectorV1.validate at hcapability
  split at hcapability
  · rw [require_eq_ok] at hcapability
    rw [hcapability]
    exact List.Pairwise.nil
  · simp only [bind_eq_ok] at hcapability
    obtain ⟨-, -, hvalues⟩ := hcapability
    exact (validateValues_eq_ok hvalues).1
  · cases hcapability
  · cases hcapability

end Auth
