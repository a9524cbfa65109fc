/-
The listings of policy definitions, bindings and grants (`feature/management/policy.go`,
`protocol/schema_collection.go`).

A page is made from two reads of the policy state, each under its own lock: first the members,
then the generation, which becomes the revision of the page.  Commits may fall between them.  A
cursor names the generation of its page and the last key on it.

* `policyPage` — one page from the members and the generation that were read;
* `Walk` — the pages a client receives that follows the cursors to the end;
* `listings_consistent` — where the members are the same at both reads of each page, a page is a
  slice of the members at its revision, and a walk returns all members of one generation once;
* `page_of_deleted` — otherwise a page may show a member that its revision no longer has.
-/
import MyFlowHub.PolicyDecision
import MyFlowHub.Descriptors
import MyFlowHub.Base64

open Checks Protocol
open Tables List
open Encoding (formatUint hexEncode utf8 bigEndian bigEndianValue)
open Auth
open Resource (ResourceDescriptorV2 maxSchemaBytes maxContentTypeBytes maxAttributeValueBytes
  defaultMaxPayload)

namespace Management

open PolicyProcess

def maxCollectionPageMembers : ℕ := 256
def maxCollectionParentBytes : ℕ := 1024
def maxCollectionCursorBytes : ℕ := 1024
def maxCollectionMemberKeyBytes : ℕ := 1024
def maxAttributes : ℕ := 64
def maxAttributeKeyBytes : ℕ := 64
def resourceTypeCollection : String := "mfh.collection"
def contentTypeJSON : String := "application/json"

/-! ### Data and checks -/

structure CollectionListRequestV1 where
  version : ℤ := 1
  parent : String := ""
  cursor : String := ""
  limit : ℤ
  deriving DecidableEq, Repr

structure CollectionMemberV1 where
  key : String
  kind : String
  label : String
  contentType : String := ""
  schema : String := ""
  capabilities : List CapabilityID := []
  attributes : List (String × String) := []
  deriving DecidableEq, Repr

structure CollectionPageV1 where
  version : ℤ := 1
  revision : UInt64
  parent : String := ""
  members : List CollectionMemberV1
  nextCursor : String := ""
  deriving DecidableEq, Repr

structure PolicyCursor where
  version : ℤ
  collection : String
  revision : UInt64
  after : String
  deriving DecidableEq, Repr

def CollectionListRequestV1.validate (r : CollectionListRequestV1) : Except String Unit := do
  validateVersion r.version
  validateText "collection parent" r.parent maxCollectionParentBytes false
  validateText "collection cursor" r.cursor maxCollectionCursorBytes false
  require (0 < r.limit ∧ r.limit ≤ maxCollectionPageMembers)
    ("collection limit must be between 1 and " ++ toString maxCollectionPageMembers)

/-- `validateAttributes`, in the order in which Go ranges over the map. -/
def validateAttributes (attributes : List (String × String)) : Except String Unit := do
  require (attributes.length ≤ maxAttributes)
    ("attributes exceeds " ++ toString maxAttributes ++ " entries")
  attributes.forM fun entry => do
    validateText "attribute key" entry.1 maxAttributeKeyBytes true
    validateText "attribute value" entry.2 maxAttributeValueBytes false

variable (os : Text)

/-- The loop over the capabilities of a member; `seen` holds the ones before. -/
def validateMemberCapabilities : List CapabilityID → List CapabilityID → Except String Unit
  | _, [] => .ok ()
  | seen, capability :: rest => do
    within ("collection member capabilities[" ++ toString seen.length ++ "]")
      (validateCapability os capability)
    require (∀ before ∈ seen.getLast?, before < capability)
      "collection member capabilities must be strictly sorted and unique"
    validateMemberCapabilities (seen ++ [capability]) rest

def CollectionMemberV1.validate (m : CollectionMemberV1) : Except String Unit := do
  validateText "collection member key" m.key maxCollectionMemberKeyBytes true
  validateText "collection member kind" m.kind maxIdentifierBytes true
  validateText "collection member label" m.label maxLabelBytes true
  validateText "collection member content_type" m.contentType maxContentTypeBytes false
  validateText "collection member schema" m.schema maxSchemaBytes false
  require (m.capabilities.length ≤ maxCapabilities)
    ("collection member capabilities exceed " ++ toString maxCapabilities ++ " entries")
  validateMemberCapabilities os [] m.capabilities
  validateAttributes m.attributes

/-- The loop of `CollectionPageV1.Validate`; `seen` holds the keys before. -/
def validateCollectionMembers : List String → List CollectionMemberV1 → Except String Unit
  | _, [] => .ok ()
  | seen, member :: rest => do
    within ("collection page members[" ++ toString seen.length ++ "]") (member.validate os)
    require (∀ before ∈ seen.getLast?, before < member.key)
      "collection page members must be strictly sorted and unique by key"
    validateCollectionMembers (seen ++ [member.key]) rest

def CollectionPageV1.validate (p : CollectionPageV1) : Except String Unit := do
  validateVersion p.version
  require (¬(p.revision = 0 ∨ maxCollectionRevision < p.revision))
    ("collection page revision must be between 1 and " ++ toString maxCollectionRevision)
  validateText "collection parent" p.parent maxCollectionParentBytes false
  validateText "collection next_cursor" p.nextCursor maxCollectionCursorBytes false
  require (p.members.length ≤ maxCollectionPageMembers)
    ("collection page members exceed " ++ toString maxCollectionPageMembers ++ " entries")
  validateCollectionMembers os [] p.members

/-- The capabilities of the members are among those of the collection. -/
def validateDeclared (declared : List CapabilityID) :
    ℕ → List CollectionMemberV1 → Except String Unit
  | _, [] => .ok ()
  | index, member :: rest => do
    member.capabilities.forM fun capability =>
      require (capability ∈ declared)
        ("collection page members[" ++ toString index ++ "] capability " ++ capability.quote ++
          " is not declared by the collection")
    validateDeclared declared (index + 1) rest

def CollectionPageV1.validateForDescriptor (p : CollectionPageV1)
    (descriptor : ResourceDescriptorV2) : Except String Unit := do
  p.validate os
  within "collection descriptor" (descriptor.validate os)
  require (descriptor.type = resourceTypeCollection)
    "collection page descriptor must use mfh.collection type"
  validateDeclared (descriptor.capabilities.map (·.name)) 0 p.members

/-! ### The three collections -/

inductive PolicyCollection where
  | definitions | bindings | grants
  deriving DecidableEq, Repr

/-- `policyDefinitionsCursor`, `policyBindingsCursor`, `policyGrantsCursor`. -/
def PolicyCollection.cursorKind : PolicyCollection → String
  | .definitions => "policy-definitions"
  | .bindings => "policy-bindings"
  | .grants => "policy-grants"

def scopeText : PolicyScope → String
  | .owner => "owner"
  | .subtree => "subtree"
  | .authorityDomain => "authority-domain"
  | .other text => text

def definitionMember (value : PolicyDefinitionV1) : CollectionMemberV1 where
  key := value.id
  kind := "policy-definition"
  label := value.label
  contentType := contentTypeJSON
  schema := "mfh.policy.definition.v1"
  capabilities := ["delete", "get", "update"]
  attributes :=
    [("immutable", toString value.immutable), ("revision", formatUint value.revision),
     ("rules", toString value.rules.length)]

def bindingMember (value : PolicyBindingV1) : CollectionMemberV1 where
  key := value.bindingID
  kind := "policy-binding"
  label := value.subject ++ " → " ++ value.definitionID
  contentType := contentTypeJSON
  schema := "mfh.policy.binding.v1"
  capabilities := ["get", "revoke"]
  attributes :=
    [("definition_id", value.definitionID), ("scope_kind", scopeText value.scope.kind),
     ("scope_node", value.scope.nodeID), ("subject", value.subject)]

/-- `protocol.PolicyGrantV1`. -/
structure PolicyGrantV1 where
  subject : String
  capability : String
  resourceNode : String
  resourceName : String

def policyGrantFromRequest (value : Request) : PolicyGrantV1 where
  subject := formatUint value.subject
  capability := if value.capability = "" then value.action else value.capability
  resourceNode := formatUint value.resource.owner
  resourceName := value.resource.name

variable (sha256 : Bytes → Bytes)

def policyGrantKey (value : PolicyGrantV1) : String :=
  hexEncode (sha256 (utf8 (value.subject ++ "\x00" ++ value.capability ++ "\x00" ++
    value.resourceNode ++ "\x00" ++ value.resourceName)))

def grantMember (value : Request) : CollectionMemberV1 :=
  let grant := policyGrantFromRequest value
  { key := policyGrantKey sha256 grant
    kind := "policy-grant"
    label := grant.subject ++ " · " ++ grant.capability
    contentType := contentTypeJSON
    schema := "mfh.policy.grant.v1"
    capabilities := ["get", "revoke"]
    attributes :=
      [("capability", grant.capability), ("resource_name", grant.resourceName),
       ("resource_node", grant.resourceNode), ("subject", grant.subject)] }

/-- The members that `listPolicyDefinitions`, `listPolicyBindings` and `listPolicyGrants` make of
what they read. -/
def PolicyCollection.members (tables : PolicyTables) : PolicyCollection → List CollectionMemberV1
  | .definitions => (values tables.definitions).map definitionMember
  | .bindings => (values tables.bindings).map bindingMember
  | .grants => (requestsFromGrants tables.grants).map (grantMember sha256)

/-! ### Cursors -/

/-- What the listings take from the JSON library.  The decoder reads back what the encoder wrote
for a page of one of the three collections. -/
structure CollectionCodec where
  marshalPage : CollectionPageV1 → Bytes
  marshalCursor : PolicyCursor → Bytes
  unmarshalCursor : Bytes → Except String PolicyCursor
  marshalCursor_ne_nil : ∀ cursor, marshalCursor cursor ≠ []
  unmarshal_marshal : ∀ (collection : PolicyCollection) (revision : UInt64) (after : String),
    unmarshalCursor (marshalCursor ⟨1, collection.cursorKind, revision, after⟩) =
      .ok ⟨1, collection.cursorKind, revision, after⟩

variable (codec : CollectionCodec)

def encodePolicyCursor (collection : String) (revision : UInt64) (after : String) :
    Except String String := do
  let value := Base64.encode (codec.marshalCursor ⟨1, collection, revision, after⟩)
  require (value.utf8ByteSize ≤ maxCollectionCursorBytes)
    "policy collection cursor exceeds protocol limit"
  return value

def decodePolicyCursor (value : String) : Except String PolicyCursor :=
  match Base64.decode value with
  | none => .error "cursor encoding is malformed"
  | some payload => do
    let cursor ← codec.unmarshalCursor payload
    require (¬(cursor.version ≠ 1 ∨ cursor.collection = "" ∨ cursor.revision = 0 ∨
      cursor.after = "")) "cursor fields are invalid"
    return cursor

def policyCollectionStart (encoded collection : String) (revision : UInt64)
    (members : List CollectionMemberV1) : Except String ℕ :=
  if encoded = "" then .ok 0
  else do
    let cursor ← within "invalid policy collection cursor" (decodePolicyCursor codec encoded)
    require (cursor.collection = collection)
      "invalid policy collection cursor: collection mismatch"
    require (cursor.revision = revision) "invalid policy collection cursor: stale revision"
    let keys := members.map (·.key)
    let index := Search.search keys.length fun i => keys[i]?.any fun key => decide
      (cursor.after ≤ key)
    require (keys[index]? = some cursor.after)
      "invalid policy collection cursor: member no longer exists"
    return index + 1

/-! ### A page -/

/-- The order of `sort.Slice`; members with one key do not pass the check of a page together. -/
def sortMembers (members : List CollectionMemberV1) : List CollectionMemberV1 :=
  members.insertionSort fun l r => l.key ≤ r.key

/-- `encodePolicyResult`; the payload is the text of the page. -/
def encodePolicyResult (page : CollectionPageV1) : Except String CollectionPageV1 := do
  within "invalid protocol payload" (page.validate os)
  let data := codec.marshalPage page
  require (data.length ≠ 0) "invalid protocol payload: payload is empty"
  require (data.length ≤ defaultMaxPayload)
    ("payload exceeds configured limit: got " ++ toString data.length ++ ",
      max " ++ toString defaultMaxPayload)
  return page

/-- `policyPage`, given the members and the generation that were read. -/
def policyPage (registered : Option ResourceDescriptorV2) (collection : PolicyCollection)
    (members : List CollectionMemberV1) (revision : UInt64) (input : CollectionListRequestV1) :
    Except String CollectionPageV1 := do
  within "invalid protocol payload" input.validate
  require (input.parent = "") "policy collections are flat and do not support parent"
  let members := sortMembers members
  let start ← policyCollectionStart codec input.cursor collection.cursorKind revision members
  let stop := min (start + input.limit.toNat) members.length
  let nextCursor ←
    (if stop < members.length then
      encodePolicyCursor codec collection.cursorKind revision
        ((members[stop - 1]?.map (·.key)).getD "") else .ok "" : Except String String)
  let page : CollectionPageV1 :=
    { revision := revision, members := (members.drop start).take (stop - start),
      nextCursor := nextCursor }
  within "validate policy collection page"
    (match registered with
     | some descriptor => page.validateForDescriptor os descriptor
     | none => page.validate os)
  encodePolicyResult os codec page

variable {os} {sha256} {codec}

/-! ### What a page is -/

variable {collection : PolicyCollection} {q : PolicyStore} {after text : String}
  {revision : UInt64}

theorem encodePolicyCursor_eq_ok {collection : String}
    (h : encodePolicyCursor codec collection revision after = .ok text) :
    text = Base64.encode (codec.marshalCursor ⟨1, collection, revision, after⟩) := by
  unfold encodePolicyCursor at h
  obtain ⟨_, -, h⟩ := bind_eq_ok.1 h
  cases h
  rfl

theorem ne_empty_of_encodePolicyCursor {collection : String}
    (h : encodePolicyCursor codec collection revision after = .ok text) : text ≠ "" := by
  intro hempty
  rw [encodePolicyCursor_eq_ok h] at hempty
  have hdecode := Base64.decode_encode (codec.marshalCursor ⟨1, collection, revision, after⟩)
  rw [hempty] at hdecode
  exact codec.marshalCursor_ne_nil _ (Option.some.inj hdecode).symm

variable (codec) in
/-- The page holds the members from `start` up to `stop`, and has a cursor, to the last of them,
unless nothing follows. -/
structure IsPage (collection : PolicyCollection) (members : List CollectionMemberV1)
    (start stop : ℕ) (page : CollectionPageV1) : Prop where
  slice : page.members = (members.drop start).take (stop - start)
  start_le : start ≤ stop ∨ members.length ≤ stop
  more : stop < members.length → 0 < stop ∧
    encodePolicyCursor codec collection.cursorKind page.revision
      ((members[stop - 1]?.map (·.key)).getD "") = .ok page.nextCursor
  last : members.length ≤ stop → page.nextCursor = ""

variable {members : List CollectionMemberV1}

theorem policyPage_eq_ok {registered : Option ResourceDescriptorV2}
    {input : CollectionListRequestV1} {page : CollectionPageV1}
    (h : policyPage os codec registered collection members revision input = .ok page) :
    page.revision = revision ∧ ∃ start stop,
      policyCollectionStart codec input.cursor collection.cursorKind revision
        (sortMembers members) = .ok start ∧
      IsPage codec collection (sortMembers members) start stop page := by
  unfold policyPage at h
  obtain ⟨_, hinput, h⟩ := bind_eq_ok.1 h
  obtain ⟨_, -, h⟩ := bind_eq_ok.1 h
  obtain ⟨start, hstart, h⟩ := bind_eq_ok.1 h
  obtain ⟨nextCursor, hnext, h⟩ := bind_eq_ok.1 h
  obtain ⟨_, -, h⟩ := bind_eq_ok.1 h
  unfold encodePolicyResult at h
  obtain ⟨_, -, h⟩ := bind_eq_ok.1 h
  obtain ⟨_, -, h⟩ := bind_eq_ok.1 h
  obtain ⟨_, -, h⟩ := bind_eq_ok.1 h
  cases h
  have hlimit : 0 < input.limit := by
    rw [within_eq_ok] at hinput
    unfold CollectionListRequestV1.validate at hinput
    obtain ⟨_, -, hinput⟩ := bind_eq_ok.1 hinput
    obtain ⟨_, -, hinput⟩ := bind_eq_ok.1 hinput
    obtain ⟨_, -, hinput⟩ := bind_eq_ok.1 hinput
    exact (require_eq_ok.1 hinput).1
  refine ⟨rfl, start, _, hstart, rfl, by omega, fun hmore => ⟨by omega, ?_⟩, fun hlast => ?_⟩
  · rw [if_pos hmore] at hnext
    exact hnext
  · rw [if_neg (by omega)] at hnext
    cases hnext
    rfl

/-- The keys of the members are different and in order. -/
def Ordered (members : List CollectionMemberV1) : Prop := members.Pairwise (·.key < ·.key)

theorem ordered_sortMembers
    (h : (members.map (·.key)).Nodup) : Ordered (sortMembers members) := by
  have hperm : (sortMembers members).Perm members := perm_insertionSort _ _
  have hle : (sortMembers members).Pairwise fun l r => l.key ≤ r.key :=
    pairwise_insertionSort _ _
  have hne : (sortMembers members).Pairwise fun l r => l.key ≠ r.key :=
    pairwise_map.mp ((hperm.map _).nodup_iff.mpr h)
  exact (hle.and hne).imp fun hlr => lt_of_le_of_ne hlr.1 hlr.2

theorem policyCollectionStart_eq_ok {r : UInt64} {start : ℕ}
    (htext : encodePolicyCursor codec collection.cursorKind r after = .ok text)
    (h : policyCollectionStart codec text collection.cursorKind revision members = .ok start) :
    revision = r ∧ ∃ index, (members.map (·.key))[index]? = some after ∧ start = index + 1 := by
  unfold policyCollectionStart at h
  rw [if_neg (ne_empty_of_encodePolicyCursor htext)] at h
  obtain ⟨cursor, hcursor, h⟩ := bind_eq_ok.1 h
  obtain ⟨_, -, h⟩ := bind_eq_ok.1 h
  obtain ⟨_, hrevision, h⟩ := bind_eq_ok.1 h
  obtain ⟨_, hmember, h⟩ := bind_eq_ok.1 h
  rw [require_eq_ok] at hrevision hmember
  cases h
  rw [within_eq_ok, encodePolicyCursor_eq_ok htext, decodePolicyCursor,
    Base64.decode_encode] at hcursor
  dsimp only at hcursor
  rw [codec.unmarshal_marshal] at hcursor
  obtain ⟨_, hok, hcursor⟩ := bind_eq_ok.1 hcursor
  obtain ⟨_, -, hcursor⟩ := bind_eq_ok.1 hcursor
  cases hok
  cases hcursor
  exact ⟨hrevision.symm, _, hmember, rfl⟩

theorem Ordered.start_eq {r : UInt64} {start i : ℕ}
    (hordered : Ordered members) (hi : i < members.length)
    (htext : encodePolicyCursor codec collection.cursorKind r ((members[i]?.map (·.key)).getD "") =
      .ok text)
    (h : policyCollectionStart codec text collection.cursorKind revision members = .ok start) :
    start = i + 1 := by
  obtain ⟨-, index, hindex, rfl⟩ := policyCollectionStart_eq_ok htext h
  have hnodup : (members.map (·.key)).Nodup :=
    pairwise_map.mpr (hordered.imp fun hlt => ne_of_lt hlt)
  obtain ⟨hlt, hindex⟩ := List.getElem?_eq_some_iff.mp hindex
  have hi' : i < (members.map (·.key)).length := by rwa [length_map]
  have hkey : (members.map (·.key))[i] = (members[i]?.map (·.key)).getD "" := by
    rw [getElem_map, List.getElem?_eq_getElem hi]
    rfl
  rw [(hnodup.getElem_inj_iff).mp (hindex.trans hkey.symm)]

/-! ### Walks -/

/-- A list request: the moments at which its members and then its generation are read. -/
structure Listing where
  input : CollectionListRequestV1
  registered : Option ResourceDescriptorV2
  read : ℕ
  answered : ℕ
  le : read ≤ answered

variable (os codec sha256) in
/-- The answer, where `states` are the states of the policy at each moment. -/
def Listing.page (collection : PolicyCollection) (states : ℕ → Option PolicyStore) (l : Listing) :
    Except String CollectionPageV1 :=
  match states l.read, states l.answered with
  | some p, some q =>
    policyPage os codec l.registered collection (collection.members sha256 p.tables) q.generation
      l.input
  | _, _ => .error "policy state is not loaded"

/-- The requests and pages of a client that follows the cursors from `cursor` to the end. -/
inductive Walk (answer : Listing → Except String CollectionPageV1) :
    String → List (Listing × CollectionPageV1) → Prop
  | last {cursor : String} {l : Listing} {page : CollectionPageV1}
      (hcursor : l.input.cursor = cursor)
      (hpage : answer l = .ok page) (hend : page.nextCursor = "") : Walk answer cursor [(l, page)]
  | next {cursor : String} {l : Listing} {page : CollectionPageV1}
      {rest : List (Listing × CollectionPageV1)} (hcursor : l.input.cursor = cursor)
      (hpage : answer l = .ok page) (hmore : page.nextCursor ≠ "")
      (hrest : Walk answer page.nextCursor rest) : Walk answer cursor ((l, page) :: rest)

variable (sha256) in
/-- No commit between the two reads changed the members, and the grants have different keys. -/
def Undisturbed (collection : PolicyCollection) (states : ℕ → Option PolicyStore) (l : Listing) :
    Prop :=
  ∀ p q, states l.read = some p → states l.answered = some q →
    collection.members sha256 p.tables = collection.members sha256 q.tables ∧
    (collection = .grants → ((collection.members sha256 q.tables).map (·.key)).Nodup)

theorem Listing.page_eq_ok {states : ℕ → Option PolicyStore} {l : Listing} {page : CollectionPageV1}
    (hquiet : Undisturbed sha256 collection states l)
    (h : l.page os sha256 codec collection states = .ok page) :
    ∃ q, states l.answered = some q ∧ page.revision = q.generation ∧
      (collection = .grants → ((collection.members sha256 q.tables).map (·.key)).Nodup) ∧
      ∃ start stop,
        policyCollectionStart codec l.input.cursor collection.cursorKind page.revision
          (sortMembers (collection.members sha256 q.tables)) = .ok start ∧
        IsPage codec collection (sortMembers (collection.members sha256 q.tables)) start
          stop page := by
  unfold Listing.page at h
  split at h
  case h_1 p q hp hq =>
    obtain ⟨hsame, hkeys⟩ := hquiet p q hp hq
    rw [hsame] at h
    obtain ⟨hrevision, start, stop, hstart, hpage⟩ := policyPage_eq_ok h
    exact ⟨q, hq, hrevision, hkeys, start, stop, hrevision ▸ hstart, hpage⟩
  case h_2 => cases h

section Covering

variable {collection : PolicyCollection} {states : ℕ → Option PolicyStore} {r : UInt64}
  {M : List CollectionMemberV1}

variable (codec) in
/-- The cursor leads to this place of the list. -/
def Leads (collection : PolicyCollection) (r : UInt64) (M : List CollectionMemberV1)
    (cursor : String) (start : ℕ) : Prop :=
  cursor = "" ∧ start = 0 ∨
    ∃ i < M.length, start = i + 1 ∧
      encodePolicyCursor codec collection.cursorKind r ((M[i]?.map (·.key)).getD "") = .ok cursor

variable {cursor : String} {s : ℕ}

theorem Leads.start_eq {start : ℕ} (hordered : Ordered M)
    (hleads : Leads codec collection r M cursor s)
    (h : policyCollectionStart codec cursor collection.cursorKind r M = .ok start) : start = s := by
  obtain ⟨rfl, rfl⟩ | ⟨i, hi, rfl, htext⟩ := hleads
  · cases h
    rfl
  · exact hordered.start_eq hi htext h

section

variable {page : CollectionPageV1}

theorem Leads.isPage {l : Listing} (hordered : Ordered M)
    (hone : ∀ q k, states k = some q → q.generation = r → sortMembers
      (collection.members sha256 q.tables) = M) (hquiet : Undisturbed sha256 collection states l)
    (hpage : l.page os sha256 codec collection states = .ok page) (hrevision : page.revision = r)
    (hleads : Leads codec collection r M l.input.cursor s) :
    ∃ stop, IsPage codec collection M s stop page := by
  obtain ⟨q, hq, hgeneration, -, start, stop, hstart, h⟩ := Listing.page_eq_ok hquiet hpage
  rw [hone q _ hq (hgeneration.symm.trans hrevision)] at hstart h
  rw [hrevision] at hstart
  obtain rfl := hleads.start_eq hordered hstart
  exact ⟨stop, h⟩

theorem IsPage.leads {stop : ℕ} (h : IsPage codec collection M s stop page)
    (hrevision : page.revision = r) (hmore : page.nextCursor ≠ "") :
    s ≤ stop ∧ Leads codec collection r M page.nextCursor stop := by
  have hlt : stop < M.length := by
    by_contra hge
    exact hmore (h.last (not_lt.mp hge))
  obtain ⟨hpos, htext⟩ := h.more hlt
  refine ⟨h.start_le.resolve_right (by omega), .inr ⟨stop - 1, by omega, by omega, ?_⟩⟩
  rw [← hrevision]
  exact htext

theorem IsPage.eq_drop {stop : ℕ} (h : IsPage codec collection M s stop page)
    (hend : page.nextCursor = "") : page.members = M.drop s := by
  have hge : M.length ≤ stop := by
    by_contra hlt
    exact ne_empty_of_encodePolicyCursor (h.more (not_le.mp hlt)).2 hend
  rw [h.slice]
  apply take_of_length_le
  rw [length_drop]
  omega

end

variable {walk : List (Listing × CollectionPageV1)}

theorem Walk.head_revision {i : ℕ}
    (h : Walk (Listing.page os sha256 codec collection states) cursor walk)
    (hquiet : ∀ e ∈ walk, Undisturbed sha256 collection states e.1)
    (htext : encodePolicyCursor codec collection.cursorKind r ((M[i]?.map (·.key)).getD "") =
      .ok cursor) :
    ∀ e ∈ walk.head?, e.2.revision = r := by
  have hfirst : ∀ (l : Listing) (page : CollectionPageV1), l.input.cursor = cursor →
      Undisturbed sha256 collection states l → l.page os sha256 codec collection states = .ok page →
      page.revision = r := by
    intro l page hcursor hl hpage
    obtain ⟨q, -, -, -, start, stop, hstart, -⟩ := Listing.page_eq_ok hl hpage
    rw [hcursor] at hstart
    exact (policyCollectionStart_eq_ok htext hstart).1
  intro e he
  cases h with
  | last hcursor hpage _ =>
    cases he
    exact hfirst _ _ hcursor (hquiet _ (mem_cons_self ..)) hpage
  | next hcursor hpage _ _ =>
    cases he
    exact hfirst _ _ hcursor (hquiet _ (mem_cons_self ..)) hpage

/-- **The pages of a walk cover the list from the place its first cursor leads to.** -/
theorem Walk.covers (hordered : Ordered M) (hone : ∀ q k, states k = some q → q.generation =
    r → sortMembers
      (collection.members sha256 q.tables) = M)
    (h : Walk (Listing.page os sha256 codec collection states) cursor walk)
    (hquiet : ∀ e ∈ walk, Undisturbed sha256 collection states e.1)
    (hhead : ∀ e ∈ walk.head?, e.2.revision = r) (hleads : Leads codec collection r M cursor s) :
    (∀ e ∈ walk, e.2.revision = r) ∧ walk.flatMap (·.2.members) = M.drop s := by
  -- what is left of the list after each page is what the rest of the walk returns
  induction h generalizing s with
  | @last cursor l page hcursor hpage hend =>
    have hrevision : page.revision = r := hhead (l, page) rfl
    obtain ⟨stop, hone⟩ := Leads.isPage hordered hone (hquiet _ (mem_singleton_self _)) hpage
      hrevision (hcursor ▸ hleads)
    refine ⟨fun e he => ?_, ?_⟩
    · rw [mem_singleton.mp he]
      exact hrevision
    · rw [flatMap_singleton]
      exact hone.eq_drop hend
  | @next cursor l page rest hcursor hpage hmore hrest ih =>
    have hrevision : page.revision = r := hhead (l, page) rfl
    obtain ⟨stop, hpart⟩ := Leads.isPage hordered hone (hquiet _ (mem_cons_self ..)) hpage
      hrevision (hcursor ▸ hleads)
    obtain ⟨hle, hnext⟩ := hpart.leads hrevision hmore
    have hquiet' : ∀ e ∈ rest, Undisturbed sha256 collection states e.1 :=
      fun e he => hquiet e (mem_cons_of_mem _ he)
    have htext := hnext.resolve_left fun hempty => hmore hempty.1
    obtain ⟨i, -, -, htext⟩ := htext
    obtain ⟨hrevisions, hcover⟩ := ih hquiet' (hrest.head_revision hquiet' htext) hnext
    refine ⟨fun e he => ?_, ?_⟩
    · obtain rfl | he := mem_cons.mp he
      · exact hrevision
      · exact hrevisions e he
    · have hstop : s + (stop - s) = stop := by omega
      rw [flatMap_cons, hcover, hpart.slice]
      rw [← hstop, ← drop_drop, hstop, take_append_drop]

end Covering

/-! ### Generations -/

/-- The policy after the first `k` of the acts. -/
def history (os : Text) (m : PolicyProcess) (acts : List PolicyAct) (k : ℕ) : Option PolicyStore :=
  ((acts.take k).foldl (PolicyProcess.step os) m).running

/-- Later states have a later generation or the same tables. -/
def Later (p q : PolicyStore) : Prop :=
  p.generation.toNat < q.generation.toNat ∨ p.generation = q.generation ∧ p.tables = q.tables

theorem Later.trans {p t : PolicyStore} (hpq : Later p q) (hqt : Later q t) : Later p t := by
  obtain hpq | ⟨hpq, hpq'⟩ := hpq
  · obtain hqt | ⟨hqt, -⟩ := hqt
    · exact .inl (hpq.trans hqt)
    · exact .inl (hqt ▸ hpq)
  · obtain hqt | ⟨hqt, hqt'⟩ := hqt
    · exact .inl (hpq ▸ hqt)
    · exact .inr ⟨hpq.trans hqt, hpq'.trans hqt'⟩

theorem Later.tables_eq {p : PolicyStore} (h : Later p q)
    (hgeneration : p.generation = q.generation) : p.tables = q.tables := by
  obtain hlt | ⟨-, htables⟩ := h
  · rw [hgeneration] at hlt
    exact absurd hlt (lt_irrefl _)
  · exact htables

def Restarts : PolicyAct → Prop
  | .restart _ _ => True
  | _ => False

theorem later_of_map {m : PolicyProcess} {f : PolicyStore → PolicyStore}
    (hf : ∀ p, (f p).generation = p.generation ∧ (f p).tables = p.tables)
    (hq : m.running.map f = some q) : ∃ p, m.running = some p ∧ Later p q := by
  obtain ⟨p, hp, rfl⟩ := Option.map_eq_some_iff.mp hq
  exact ⟨p, hp, .inr ⟨(hf p).1.symm, (hf p).2.symm⟩⟩

theorem later_step {m : PolicyProcess} {act : PolicyAct} (hact : ¬Restarts act)
    (hq : (step os m act).running = some q) :
    ∃ p, m.running = some p ∧ Later p q := by
  cases act with
  | call env call fault =>
    cases hrunning : m.running with
    | none =>
      simp only [step, hrunning] at hq
      cases hq
    | some p =>
      refine ⟨p, rfl, ?_⟩
      obtain ⟨text, hperform⟩ | ⟨reply, -, hperform⟩ | ⟨next, reply, -, hlt, hperform⟩ :=
        perform_cases os p env call fault m.disk
      · simp only [step, hrunning, hperform] at hq
        cases hq
        exact .inr ⟨rfl, rfl⟩
      · simp only [step, hrunning, hperform] at hq
        cases hq
        exact .inr ⟨rfl, rfl⟩
      · simp only [step, hrunning, hperform] at hq
        cases hq
        have hsucc := (generation_succ hlt).1
        exact .inl (show p.generation.toNat < (p.generation + 1).toNat by omega)
  | watch =>
    refine later_of_map (fun p => ?_) hq
    unfold PolicyStore.watch
    split <;> exact ⟨rfl, rfl⟩
  | unwatch id => exact later_of_map (f := (·.unwatch id)) (fun p => ⟨rfl, rfl⟩) hq
  | close =>
    refine later_of_map (fun p => ?_) hq
    unfold PolicyStore.close
    split <;> exact ⟨rfl, rfl⟩
  | restart now fault => exact absurd trivial hact

section History

variable {m : PolicyProcess} {acts : List PolicyAct}

theorem later_history (hlive : ∀ act ∈ acts, ¬Restarts act) {i j : ℕ} (hij : i ≤ j)
    {q : PolicyStore} (hq : history os m acts j = some q) :
    ∃ p, history os m acts i = some p ∧ Later p q := by
  induction j, hij using Nat.le_induction generalizing q with
  | base => exact ⟨q, hq, .inr ⟨rfl, rfl⟩⟩
  | succ j hij ih =>
    unfold history at hq
    rw [take_add_one, foldl_append] at hq
    cases hact : acts[j]? with
    | none =>
      rw [hact] at hq
      exact ih hq
    | some act =>
      rw [hact] at hq
      obtain ⟨t, ht, htq⟩ := later_step (hlive act (mem_of_getElem? hact)) hq
      obtain ⟨p, hp, hpt⟩ := ih ht
      exact ⟨p, hp, hpt.trans htq⟩

/-- **A generation has one set of tables.** -/
theorem tables_eq_of_generation (hlive : ∀ act ∈ acts, ¬Restarts act) {i j : ℕ}
    {p q : PolicyStore} (hp : history os m acts i = some p) (hq : history os m acts j = some q)
    (hgeneration : p.generation = q.generation) : p.tables = q.tables := by
  obtain hij | hji := le_total i j
  · obtain ⟨p', hp', hlater⟩ := later_history hlive hij hq
    cases hp.symm.trans hp'
    exact hlater.tables_eq hgeneration
  · obtain ⟨q', hq', hlater⟩ := later_history hlive hji hp
    cases hq.symm.trans hq'
    exact (hlater.tables_eq hgeneration.symm).symm

theorem sound_history (hm : PolicyProcess.Stored os m) {k : ℕ} {p : PolicyStore}
    (hp : history os m acts k = some p) : p.Sound os :=
  (Runs.foldl_invariant (I := PolicyProcess.Stored os)
    (fun _ act h => stored_step h act) hm (acts.take k) p hp).1

end History

/-- Sound tables list different keys, except that digests of grants may collide. -/
theorem nodup_keys {tables : PolicyTables} (h : tables.Sound os)
    (hgrants : collection = .grants → ((collection.members sha256 tables).map (·.key)).Nodup) :
    ((collection.members sha256 tables).map (·.key)).Nodup := by
  cases collection with
  | definitions =>
    have hnodup : ((values tables.definitions).map PolicyDefinitionV1.id).Nodup :=
      nodup_keys_values fun a v hv => (h.definitions a v hv).1
    rwa [PolicyCollection.members, map_map]
  | bindings =>
    have hnodup : ((values tables.bindings).map PolicyBindingV1.bindingID).Nodup :=
      nodup_keys_values fun a v hv => (h.bindings a v hv).1
    rwa [PolicyCollection.members, map_map]
  | grants => exact hgrants rfl

/-- **Listings are consistent snapshots where no commit changes the members between the two reads
of a page.** -/
theorem listings_consistent (os : Text) (codec : CollectionCodec) (sha256 : Bytes → Bytes)
    (disk : Option Record) (before acts : List PolicyAct) (hlive : ∀ act ∈ acts, ¬Restarts act)
    (collection : PolicyCollection) :
    let states := history os (PolicyProcess.run os disk before) acts
    (∀ l page, Undisturbed sha256 collection states l →
      l.page os sha256 codec collection states = .ok page →
      (∃ k p, states k = some p ∧ p.generation = page.revision) ∧
      ∀ k p, states k = some p → p.generation = page.revision →
        page.members <:+: sortMembers (collection.members sha256 p.tables) ∧
        page.members.Pairwise (·.key < ·.key)) ∧
    ∀ walk, (∀ e ∈ walk, Undisturbed sha256 collection states e.1) →
      Walk (Listing.page os sha256 codec collection states) "" walk →
      ∃ r, (∃ k p, states k = some p ∧ p.generation = r) ∧ (∀ e ∈ walk, e.2.revision = r) ∧
        ∀ k p, states k = some p → p.generation = r →
          (walk.flatMap (·.2.members)).Perm (collection.members sha256 p.tables) ∧
          (walk.flatMap (·.2.members)).Pairwise (·.key < ·.key) := by
  intro states
  have hone : ∀ {i j : ℕ} {p q : PolicyStore}, states i = some p → states j = some q →
      p.generation = q.generation → p.tables = q.tables :=
    fun hp hq => tables_eq_of_generation hlive hp hq
  have hordered : ∀ {k : ℕ} {p : PolicyStore}, states k = some p →
      (collection = .grants → ((collection.members sha256 p.tables).map (·.key)).Nodup) →
      Ordered (sortMembers (collection.members sha256 p.tables)) := fun hp hgrants =>
    ordered_sortMembers (nodup_keys (sound_history (PolicyProcess.stored_run disk before) hp).tables
      hgrants)
  constructor
  · intro l page hquiet hpage
    obtain ⟨q, hq, hrevision, hgrants, start, stop, -, hpart⟩ := Listing.page_eq_ok hquiet hpage
    refine ⟨⟨_, q, hq, hrevision.symm⟩, fun k p hp hgeneration => ?_⟩
    rw [hone hp hq (hgeneration.trans hrevision), hpart.slice]
    have hpart := (List.take_prefix (stop - start) _).isInfix.trans
      (drop_suffix start (sortMembers (collection.members sha256 q.tables))).isInfix
    exact ⟨hpart, (hordered hq hgrants).sublist hpart.sublist⟩
  · intro walk hquiet hwalk
    -- the first page fixes the generation
    obtain ⟨l, page, rest, rfl, hpage⟩ : ∃ l page rest, walk = (l, page) :: rest ∧
        Listing.page os sha256 codec collection states l = .ok page := by
      cases hwalk with
      | last _ hpage _ => exact ⟨_, _, _, rfl, hpage⟩
      | next _ hpage _ _ => exact ⟨_, _, _, rfl, hpage⟩
    obtain ⟨q, hq, hrevision, hgrants, -⟩ :=
      Listing.page_eq_ok (hquiet _ (mem_cons_self ..)) hpage
    obtain ⟨hrevisions, hcover⟩ := hwalk.covers (r := q.generation)
      (M := sortMembers (collection.members sha256 q.tables)) (hordered hq hgrants)
      (fun p k hp hgeneration => by rw [hone hp hq hgeneration]) hquiet
      (fun e he => by cases he; exact hrevision) (.inl ⟨rfl, rfl⟩)
    refine ⟨q.generation, ⟨_, q, hq, rfl⟩, hrevisions, fun k p hp hgeneration => ?_⟩
    rw [hone hp hq hgeneration, hcover, drop_zero]
    exact ⟨perm_insertionSort _ _, hordered hq hgrants⟩

def plainChars : Bytes → List Char
  | a :: b :: c :: d :: rest => Char.ofNat (bigEndianValue [a, b, c, d]) :: plainChars rest
  | _ => []

theorem plainChars_flatMap (cs : List Char) :
    plainChars (cs.flatMap fun c => bigEndian 4 c.toNat) = cs := by
  induction cs with
  | nil => rfl
  | cons c cs ih =>
    have hlt : c.toNat < 256 ^ 4 := c.val.toNat_lt
    have hvalue := Encoding.bigEndianValue_bigEndian hlt
    rw [flatMap_cons]
    rw [show plainChars (bigEndian 4 c.toNat ++ cs.flatMap fun c => bigEndian 4 c.toNat) =
      Char.ofNat (bigEndianValue (bigEndian 4 c.toNat)) ::
        plainChars (cs.flatMap fun c => bigEndian 4 c.toNat) from rfl]
    rw [hvalue, ih, Char.ofNat_toNat]

def plainKind (collection : String) : UInt8 :=
  if collection = "policy-definitions" then 0 else if collection = "policy-bindings" then 1 else 2

/-- A plain text of a cursor: the collection, the revision, and the characters of the key. -/
def plainCodec : CollectionCodec where
  marshalPage _ := [0]
  marshalCursor cursor := plainKind cursor.collection :: (bigEndian 8 cursor.revision.toNat ++
    cursor.after.toList.flatMap fun c => bigEndian 4 c.toNat)
  unmarshalCursor
    | [] => .error "cursor payload is malformed"
    | kind :: bytes => .ok
      { version := 1
        collection :=
          if kind = 0 then "policy-definitions" else if kind = 1 then "policy-bindings"
          else "policy-grants"
        revision := UInt64.ofNat (bigEndianValue (bytes.take 8))
        after := String.ofList (plainChars (bytes.drop 8)) }
  marshalCursor_ne_nil _ := cons_ne_nil _ _
  unmarshal_marshal collection revision after := by
    have hrevision : UInt64.ofNat (bigEndianValue (bigEndian 8 revision.toNat)) = revision := by
      rw [Encoding.bigEndianValue_bigEndian (revision.toNat_lt.trans_eq (by norm_num)),
        UInt64.ofNat_toNat]
    dsimp only
    rw [take_left' (by simp), drop_left' (by simp), hrevision, plainChars_flatMap,
      String.ofList_toList]
    cases collection <;> rfl

/-- A fresh installation with a definition `a`. -/
def installation : List PolicyAct :=
  [.restart 1000 none, .call ⟨2000, .asIs⟩ (.putDefinition
     { version := 1, id := "a", label := "A", rules := [⟨⟨.all, ""⟩, ⟨.all, []⟩⟩] }) none]

def deletion : List PolicyAct :=
  [.call ⟨3000, .asIs⟩ (.deleteDefinition ⟨1, "a", 1⟩) none]

/-- The answers to requests for definitions during the deletion. -/
def plainListing (l : Listing) : Except String CollectionPageV1 :=
  l.page plainText id plainCodec .definitions
    (history plainText (PolicyProcess.run plainText none installation) deletion)

/-- Pages of one member, before the deletion. -/
def smallListing (cursor : String) : Listing :=
  ⟨{ cursor := cursor, limit := 1 }, none, 0, 0, le_refl 0⟩

theorem exists_plainListing {l : Listing} {next : String}
    (h : (plainListing l).toOption.map (·.nextCursor) = some next) :
    ∃ page, plainListing l = .ok page ∧ page.nextCursor = next := by
  cases hpage : plainListing l with
  | error text =>
    rw [hpage] at h
    cases h
  | ok page =>
    rw [hpage] at h
    exact ⟨page, rfl, Option.some.inj h⟩

theorem listings_consistent_installation :
    ∃ first second,
      Walk plainListing "" [(smallListing "", first), (smallListing "AAAAAAAAAAACAAAAYQ", second)] ∧
      ∃ r, ∀ k p,
        history plainText (PolicyProcess.run plainText none installation) deletion k = some p →
        p.generation = r →
        (first.members ++ second.members).Perm
          (PolicyCollection.definitions.members id p.tables) := by
  obtain ⟨first, hfirst, hcursor⟩ := exists_plainListing
    (show (plainListing (smallListing "")).toOption.map (·.nextCursor) =
      some "AAAAAAAAAAACAAAAYQ" by decide +kernel)
  obtain ⟨second, hsecond, hend⟩ := exists_plainListing
    (show (plainListing (smallListing "AAAAAAAAAAACAAAAYQ")).toOption.map (·.nextCursor) =
      some "" by decide +kernel)
  have hwalk : Walk plainListing ""
      [(smallListing "", first), (smallListing "AAAAAAAAAAACAAAAYQ", second)] :=
    .next rfl hfirst (by rw [hcursor]; decide) (.last hcursor.symm hsecond hend)
  refine ⟨first, second, hwalk, ?_⟩
  have hlive : ∀ act ∈ deletion, ¬Restarts act := by
    intro act hact
    rw [mem_singleton.mp hact]
    exact id
  -- both reads of either page are at moment 0
  have hquiet : ∀ e ∈ [(smallListing "", first), (smallListing "AAAAAAAAAAACAAAAYQ", second)],
      Undisturbed id .definitions
        (history plainText (PolicyProcess.run plainText none installation) deletion) e.1 := by
    intro e he p q hp hq
    have hsame : e.1.read = e.1.answered := by
      simp only [mem_cons, not_mem_nil, or_false] at he
      obtain rfl | rfl := he <;> rfl
    rw [hsame] at hp
    cases hp.symm.trans hq
    exact ⟨rfl, fun h => by cases h⟩
  obtain ⟨r, -, -, hall⟩ := (listings_consistent plainText plainCodec id none installation deletion
    hlive .definitions).2 _ hquiet hwalk
  refine ⟨r, fun k p hp hgeneration => ?_⟩
  have hperm := (hall k p hp hgeneration).1
  simpa only [flatMap_cons, flatMap_nil, append_nil] using hperm

/-- The definitions are listed at revision 3 with the one that revision 3 no longer has. -/
theorem page_of_deleted :
    let states := history plainText (PolicyProcess.run plainText none installation) deletion
    let l : Listing := ⟨{ limit := 16 }, none, 0, 1, Nat.zero_le 1⟩
    ((l.page plainText id plainCodec .definitions states).toOption.map fun page =>
      (page.revision, page.members.map (·.key))) = some (3, ["a", "superadmin"]) ∧
    ((states 1).map fun p =>
      (p.generation, (PolicyCollection.definitions.members id p.tables).map (·.key))) =
        some (3, ["superadmin"]) := by
  decide +kernel

end Management
