/-
The enrollment authority: permits, requests and enrollments, and the six operations on
them.

Every operation reads the state, prepares the next one and commits it; `Plan` is what
it has prepared.  The environment of a call is an argument: the readings of the clock,
the random bytes, the order in which Go ranges over a map, and the tree's answer to
the question whether a parent is below a permit's target.

* `issuePermit`, `submit`, `approve`, `reject`, `revokePermit`, `revokeEnrollment`,
  `grantForRequest` — the operations;
* `commitLocked`, `saveLocked` — how a plan becomes durable;
* `dataFromState`, `loadEnrollmentAuthority` — how it comes back.
-/
import MyFlowHub.Enrollment
import MyFlowHub.Tables

open Checks Protocol
open Std Encoding

namespace Enrollment

/-! ### State -/

inductive PermitStatus where
  | active | consumed | revoked
  deriving DecidableEq, Repr

inductive RequestStatus where
  | pending | approved | rejected | expired
  deriving DecidableEq, Repr

inductive EnrollmentStatus where
  | active | revoked
  deriving DecidableEq, Repr

/-- `enrollmentAuthorityPermitState`. -/
structure PermitState where
  permit : EnrollmentPermitV1
  status : PermitStatus
  issueRequestID : String
  consumedByRequestID : String := ""
  consumedAtUnixMS : ℤ := 0
  revokedAtUnixMS : ℤ := 0
  reason : String := ""
  deriving DecidableEq, Repr

/-- `enrollmentAuthorityRequestState`. -/
structure RequestState where
  requestID : String
  devicePublicKey : Bytes
  devicePublicKeyFingerprint : String
  parentNodeID : NodeID
  parentPublicKey : Bytes
  transcriptDigest : String
  status : RequestStatus
  admissionProfile : String := ""
  enrollmentID : String := ""
  createdAtUnixMS : ℤ
  updatedAtUnixMS : ℤ
  expiresAtUnixMS : ℤ
  reason : String := ""
  deriving DecidableEq, Repr

/-- `enrollmentAuthorityEnrollmentState`. -/
structure EnrollmentState where
  grant : EnrollmentGrantV1
  devicePublicKeyFingerprint : String
  requestID : String
  status : EnrollmentStatus
  revokedAtUnixMS : ℤ := 0
  reason : String := ""
  deriving DecidableEq, Repr

/-- `enrollmentAuthorityState`, the record on disk. -/
structure State where
  version : ℤ
  generation : UInt64
  authorityNodeID : NodeID
  authorityPublicKey : Bytes
  permits : List PermitState
  requests : List RequestState
  enrollments : List EnrollmentState
  usedNodeIDs : List NodeID
  deriving DecidableEq, Repr

abbrev Permits := ExtTreeMap String PermitState compare
abbrev Requests := ExtTreeMap String RequestState compare
abbrev Enrollments := ExtTreeMap String EnrollmentState compare
abbrev UsedNodeIDs := ExtTreeMap NodeID Unit compare

/-- `enrollmentAuthorityData`. -/
structure Data where
  permits : Permits := ∅
  requests : Requests := ∅
  enrollments : Enrollments := ∅
  usedNodeIDs : UsedNodeIDs := ∅

def second : ℤ := 1000000000
def millisecond : ℤ := 1000000

/-- The limits of an authority, as the loader accepts them. -/
structure Limits where
  maxPermitTTL : ℤ
  pendingTTL : ℤ
  maxPermits : ℤ
  maxRequests : ℤ
  maxPending : ℤ
  maxPendingPerParent : ℤ
  maxEnrollments : ℤ
  maxPermitTTL_ge : second ≤ maxPermitTTL
  pendingTTL_ge : second ≤ pendingTTL
  counts : 1 ≤ maxPermits ∧ 1 ≤ maxRequests ∧ 1 ≤ maxPendingPerParent ∧
    maxPendingPerParent ≤ maxPending ∧ maxPending ≤ maxRequests ∧ 1 ≤ maxEnrollments

/-- The numbers of `EnrollmentAuthorityConfig`. -/
structure Config where
  maxPermitTTL : ℤ := 0
  pendingTTL : ℤ := 0
  maxPermits : ℤ := 0
  maxRequests : ℤ := 0
  maxPending : ℤ := 0
  maxPendingPerParent : ℤ := 0
  maxEnrollments : ℤ := 0

/-- The defaults, and the check of what the configuration sets. -/
def Config.limits (config : Config) : Except String Limits :=
  let orDefault (value default : ℤ) := if value ≤ 0 then default else value
  let maxPermitTTL := orDefault config.maxPermitTTL (24 * 3600 * second)
  let pendingTTL := orDefault config.pendingTTL (24 * 3600 * second)
  let maxPermits := orDefault config.maxPermits 10000
  let maxRequests := orDefault config.maxRequests 100000
  let maxPending := orDefault config.maxPending (min 1024 maxRequests)
  let maxPendingPerParent := orDefault config.maxPendingPerParent (min 128 maxPending)
  let maxEnrollments := orDefault config.maxEnrollments 100000
  if h : second ≤ maxPermitTTL ∧ second ≤ pendingTTL ∧ 1 ≤ maxPermits ∧ 1 ≤ maxRequests ∧
      1 ≤ maxPendingPerParent ∧ maxPendingPerParent ≤ maxPending ∧ maxPending ≤ maxRequests ∧
      1 ≤ maxEnrollments then
    .ok ⟨maxPermitTTL, pendingTTL, maxPermits, maxRequests, maxPending, maxPendingPerParent,
      maxEnrollments, h.1, h.2.1, h.2.2⟩
  else .error "enrollment authority limits are invalid"

variable (crypto : Crypto)

/-- `EnrollmentAuthority`. -/
structure Authority where
  identity : Identity crypto
  limits : Limits
  generation : UInt64
  data : Data

/-! ### The environment of a call -/

/-- A reading of the clock: nanoseconds since 1970. -/
abbrev Time := ℤ

/-- `Time.UnixMilli`, an `int64`. -/
def unixMilli (t : Time) : ℤ := (t / millisecond).bmod (2 ^ 64)

/-- `time.UnixMilli`. -/
def ofUnixMilli (ms : ℤ) : Time := ms * millisecond

structure Env where
  now : Time
  /-- The second reading, in the operations that read the clock twice. -/
  later : Time
  random : Bytes
  order : MapOrder String
  isTargetDescendant : Option (NodeID → NodeID → Bool)

/-- `io.ReadFull` on the random bytes. -/
def readFull (n : ℕ) (random : Bytes) : Except String (Bytes × Bytes) :=
  if n ≤ random.length then .ok (random.take n, random.drop n)
  else .error (if random = [] then "EOF" else "unexpected EOF")

/-! ### Fresh identifiers -/

/-- `binary.BigEndian.Uint64` with the top bit cleared. -/
def candidateNodeID (raw : Bytes) : NodeID :=
  UInt64.ofNat (raw.foldl (fun n b => n * 256 + b.toNat) 0) &&& 0x7fffffffffffffff

def allocateNodeIDLoop (used : UsedNodeIDs) : ℕ → Bytes → Except String (NodeID × Bytes)
  | 0, _ => .error "generate Node ID: collision retry limit reached"
  | attempts + 1, random =>
    match readFull 8 random with
    | .error text => .error ("generate Node ID: " ++ text)
    | .ok (raw, rest) =>
      let candidate := candidateNodeID raw
      if candidate = 0 then allocateNodeIDLoop used attempts rest
      else if used.contains candidate then allocateNodeIDLoop used attempts rest
      else .ok (candidate, rest)

def allocateNodeIDLocked (used : UsedNodeIDs) (random : Bytes) : Except String (NodeID × Bytes) :=
  allocateNodeIDLoop used 128 random

def newUniqueIDLoop (taken : String → Bool) : ℕ → Bytes → Except String (String × Bytes)
  | 0, _ => .error "generate enrollment object ID: collision retry limit reached"
  | attempts + 1, random =>
    match readFull 16 random with
    | .error text => .error ("generate enrollment object ID: " ++ text)
    | .ok (raw, rest) =>
      let id := hexEncode raw
      if id ≠ String.ofList (List.replicate id.utf8ByteSize '0') ∧ taken id = false then
        .ok (id, rest)
      else newUniqueIDLoop taken attempts rest

def newUniqueIDLocked (taken : String → Bool) (random : Bytes) : Except String (String × Bytes) :=
  newUniqueIDLoop taken 128 random

/-! ### Plans -/

def errEnrollmentConflict := "enrollment state conflicts with the request"
def errEnrollmentPending := "enrollment is pending approval"
def errEnrollmentRejected := "enrollment was rejected"
def errEnrollmentExpired := "enrollment request expired"
def errEnrollmentRevoked := "enrollment was revoked"
def errPermitInvalid := "admission permit is invalid"
def errPermitConsumed := "admission permit was already consumed"
def errPermitRevoked := "admission permit was revoked"

/-- What an operation is about to do: the data it commits, if any, and what it returns
when nothing goes wrong with that. -/
structure Plan (α : Type) where
  next : Option Data
  answer : Except String α

def validateLabel (reason : String) (maxBytes : ℕ) (text : String) : Except String Unit :=
  require (¬(reason = "" ∨ maxBytes < reason.utf8ByteSize)) text

/-! ### Issuing a permit -/

variable {crypto} (a : Authority crypto)

/-- The permit issued before for the same command, in the order of the map. -/
def Authority.issuedFor (order : MapOrder String) (issueRequestID : String) : Option PermitState :=
  (order.arrange a.data.permits.keys).findSome? fun id =>
    a.data.permits[id]?.filter fun record => record.issueRequestID = issueRequestID

/-- The permit of `IssuePermit`, before it is signed. -/
def Authority.newPermit (permitID deviceFingerprint : String) (targetNodeID : NodeID)
    (allowDescendants : Bool) (admissionProfile : String) (now : Time) (ttl : ℤ) :
    EnrollmentPermitV1 where
  version := schemaVersionV1
  permitID := permitID
  authorityNodeID := formatUint a.identity.nodeID
  authorityPublicKey := crypto.encode64 a.identity.publicKey
  devicePublicKeyFingerprint := deviceFingerprint
  targetNodeID := formatUint targetNodeID
  allowDescendants := allowDescendants
  admissionProfile := admissionProfile
  issuedAtUnixMS := unixMilli now
  expiresAtUnixMS := unixMilli (now + ttl)
  authorityEpoch := a.generation + 1
  signature := ""

def Authority.issuePermit (env : Env) (issueRequestID deviceFingerprint : String)
    (targetNodeID : NodeID) (allowDescendants : Bool) (admissionProfile : String) (ttl : ℤ) :
    Except String (Plan EnrollmentPermitV1) := do
  validateEnrollmentHexID "issue request ID" issueRequestID 16
  validateEnrollmentHexID "device public key fingerprint" deviceFingerprint 32
  validateNodeID targetNodeID
  validateLabel admissionProfile maxIdentifierBytes "admission profile is invalid"
  require (¬(ttl < second ∨ a.limits.maxPermitTTL < ttl))
    ("permit TTL must be between one second and " ++ toString a.limits.maxPermitTTL ++ "ns")
  match a.issuedFor env.order issueRequestID with
  | some record =>
    require (record.permit.devicePublicKeyFingerprint = deviceFingerprint ∧
        record.permit.targetNodeID = formatUint targetNodeID ∧
        record.permit.allowDescendants = allowDescendants ∧
        record.permit.admissionProfile = admissionProfile) errEnrollmentConflict
    return ⟨none, .ok record.permit⟩
  | none =>
    require ((a.data.permits.size : ℤ) < a.limits.maxPermits)
      "enrollment permit record limit reached"
    let (permitID, _) ← newUniqueIDLocked a.data.permits.contains env.random
    let permit := (a.newPermit permitID deviceFingerprint targetNodeID allowDescendants
      admissionProfile env.now ttl).signed a.identity
    match permit.validate crypto with
    | .error text => .error ("create enrollment permit: " ++ text)
    | .ok () =>
      let record : PermitState :=
        { permit := permit, status := .active, issueRequestID := issueRequestID }
      return ⟨some { a.data with permits := a.data.permits.insert permitID record }, .ok permit⟩

/-! ### Granting -/

/-- `EnrollmentSubmission`. -/
structure Submission where
  requestID : String
  devicePublicKey : Bytes
  parentNodeID : NodeID
  parentPublicKey : Bytes
  permit : Option EnrollmentPermitV1
  transcriptDigest : Bytes
  transcriptDigest_length : transcriptDigest.length = 32

def validateEnrollmentSubmission (s : Submission) : Except String Unit := do
  validateEnrollmentHexID "enrollment request ID" s.requestID 16
  require (s.devicePublicKey.length = publicKeySize) "device public key must be Ed25519"
  validateNodeID s.parentNodeID
  require (s.parentPublicKey.length = publicKeySize) "parent public key must be Ed25519"
  require (s.transcriptDigest ≠ List.replicate 32 0) "enrollment transcript digest is required"

/-- The grant of `grantLocked`, before it is signed. -/
def Authority.newGrant (enrollmentID : String) (nodeID : NodeID) (request : RequestState)
    (profile : String) (now : ℤ) : EnrollmentGrantV1 where
  version := schemaVersionV1
  enrollmentID := enrollmentID
  authorityNodeID := formatUint a.identity.nodeID
  authorityPublicKey := crypto.encode64 a.identity.publicKey
  nodeID := formatUint nodeID
  devicePublicKey := crypto.encode64 request.devicePublicKey
  parentNodeID := formatUint request.parentNodeID
  parentPublicKey := crypto.encode64 request.parentPublicKey
  admissionProfile := profile
  authorityEpoch := a.generation + 1
  issuedAtUnixMS := now
  signature := ""

def RequestState.approved (request : RequestState) (profile enrollmentID : String) (now : ℤ) :
    RequestState :=
  { request with
    status := .approved, admissionProfile := profile, enrollmentID := enrollmentID, reason := "",
    updatedAtUnixMS := now }

def Data.granted (next : Data) (request : RequestState) (profile : String) (nodeID : NodeID)
    (grant : EnrollmentGrantV1) (now : ℤ) : Data :=
  { next with
    requests := next.requests.insert request.requestID
      (request.approved profile grant.enrollmentID now)
    enrollments := next.enrollments.insert grant.enrollmentID
      { grant := grant, devicePublicKeyFingerprint := request.devicePublicKeyFingerprint,
        requestID := request.requestID, status := .active }
    usedNodeIDs := next.usedNodeIDs.insert nodeID () }

def Authority.grantLocked (random : Bytes) (next : Data) (request : RequestState)
    (profile : String) (now : ℤ) : Except String (Data × EnrollmentGrantV1) := do
  require ((next.enrollments.size : ℤ) < a.limits.maxEnrollments) "enrollment record limit reached"
  let (nodeID, rest) ← allocateNodeIDLocked next.usedNodeIDs random
  let (enrollmentID, _) ← newUniqueIDLocked next.enrollments.contains rest
  let grant := (a.newGrant enrollmentID nodeID request profile now).signed a.identity
  match grant.validate crypto with
  | .error text => .error ("create enrollment grant: " ++ text)
  | .ok () => return (next.granted request profile nodeID grant now, grant)

def Authority.consumePermitLocked (env : Env) (next : Data) (s : Submission)
    (permit : EnrollmentPermitV1) (fingerprint : String) (now : ℤ) : Except String PermitState := do
  verifyEnrollmentPermit crypto a.identity.publicKey permit
  match next.permits[permit.permitID]? with
  | none => .error (errPermitInvalid ++ ": unknown permit")
  | some record =>
    require (sameEnrollmentPermit crypto record.permit permit = true)
      (errPermitInvalid ++ ": unknown permit")
    require (record.status ≠ .consumed) errPermitConsumed
    require (record.status ≠ .revoked) errPermitRevoked
    require (¬(now < permit.issuedAtUnixMS ∨ permit.expiresAtUnixMS ≤ now))
      (errPermitInvalid ++ ": expired or not yet valid")
    require (permit.devicePublicKeyFingerprint = fingerprint)
      (errPermitInvalid ++ ": device key binding mismatch")
    match parseEnrollmentNodeID permit.targetNodeID with
    | none => .error (errPermitInvalid ++ ": target binding is invalid")
    | some target =>
      require (target = s.parentNodeID ∨ permit.allowDescendants = true ∧
          (env.isTargetDescendant.map fun below => below target s.parentNodeID) = some true)
        (errPermitInvalid ++ ": target parent binding mismatch")
      return record

def PermitState.consumed (record : PermitState) (requestID : String) (now : ℤ) : PermitState :=
  { record with status := .consumed, consumedByRequestID := requestID, consumedAtUnixMS := now }

def Authority.grantSubmissionWithPermitLocked (env : Env) (next : Data) (s : Submission)
    (permit : EnrollmentPermitV1) (request : RequestState) (fingerprint transcript : String)
    (now : ℤ) : Except String (Data × EnrollmentGrantV1) := do
  let record ← a.consumePermitLocked env next s permit fingerprint now
  let (next, grant) ← a.grantLocked env.random next { request with transcriptDigest := transcript }
    record.permit.admissionProfile now
  return ({ next with permits :=
    next.permits.insert record.permit.permitID (record.consumed s.requestID now) }, grant)

/-! ### Submitting -/

inductive OutcomeStatus where
  | pending | rejected | granted
  deriving DecidableEq, Repr

/-- `EnrollmentOutcome`. -/
structure Outcome where
  status : OutcomeStatus
  requestID : String
  grant : Option EnrollmentGrantV1 := none
  reason : String := ""
  deriving DecidableEq, Repr

def outcomeForRequestLocked (enrollments : Enrollments) (request : RequestState) :
    Except String Outcome :=
  match request.status with
  | .pending => .ok { status := .pending, requestID := request.requestID }
  | .rejected =>
    .ok { status := .rejected, requestID := request.requestID, reason := request.reason }
  | .expired =>
    .ok { status := .rejected, requestID := request.requestID, reason :=
      "enrollment request expired" }
  | .approved =>
    match enrollments[request.enrollmentID]? with
    | none => .error "approved enrollment request has no enrollment record"
    | some record =>
      if record.status = .revoked then .error errEnrollmentRevoked
      else .ok { status := .granted, requestID := request.requestID, grant := some record.grant }

def RequestState.expire (request : RequestState) : RequestState :=
  { request with
    status := .expired, reason := "approval window expired",
    updatedAtUnixMS := request.expiresAtUnixMS }

def RequestState.overdue (request : RequestState) (now : ℤ) : Bool :=
  request.status = .pending && request.expiresAtUnixMS ≤ now

def expirePendingRequests (requests : Requests) (now : ℤ) : Requests :=
  requests.map fun _ request => if request.overdue now then request.expire else request

def expiredChanged (requests : Requests) (now : ℤ) : Bool :=
  requests.toList.any fun entry => entry.2.overdue now

def countPendingRequests (requests : Requests) : ℕ :=
  requests.toList.countP fun entry => entry.2.status = .pending

def countPendingRequestsForParent (requests : Requests) (parentNodeID : NodeID) : ℕ :=
  requests.toList.countP fun entry =>
    entry.2.status = .pending ∧ entry.2.parentNodeID = parentNodeID

structure Triple where
  fingerprint : String
  parentNodeID : NodeID
  parentPublicKey : Bytes
  deriving DecidableEq, Repr

def RequestState.triple (request : RequestState) : Triple :=
  ⟨request.devicePublicKeyFingerprint, request.parentNodeID, request.parentPublicKey⟩

variable (crypto) in
def Submission.triple (s : Submission) : Triple :=
  ⟨devicePublicKeyFingerprint crypto s.devicePublicKey, s.parentNodeID, s.parentPublicKey⟩

def RequestState.isOpen (request : RequestState) : Bool :=
  request.status = .pending || request.status = .approved

/-- The first open request of a device under a parent, in the order of the map. -/
def firstOpen (order : MapOrder String) (requests : Requests) (triple : Triple) :
    Option RequestState :=
  (order.arrange requests.keys).findSome? fun id =>
    requests[id]?.filter fun request => request.triple = triple ∧ request.isOpen = true

variable (crypto) in
def Submission.request (s : Submission) (pendingTTL now : ℤ) : RequestState where
  requestID := s.requestID
  devicePublicKey := s.devicePublicKey
  devicePublicKeyFingerprint := devicePublicKeyFingerprint crypto s.devicePublicKey
  parentNodeID := s.parentNodeID
  parentPublicKey := s.parentPublicKey
  transcriptDigest := hexEncode s.transcriptDigest
  status := .pending
  createdAtUnixMS := now
  updatedAtUnixMS := now
  expiresAtUnixMS := unixMilli (ofUnixMilli now + pendingTTL)

/-- The three places of `Submit` that grant with the permit and commit. -/
def Authority.grantPlan (env : Env) (next : Data) (s : Submission) (permit : EnrollmentPermitV1)
    (request : RequestState) : Except String (Plan Outcome) := do
  let (next, grant) ← a.grantSubmissionWithPermitLocked env next s permit request
    (devicePublicKeyFingerprint crypto s.devicePublicKey) (hexEncode s.transcriptDigest)
    (unixMilli env.now)
  return ⟨some next, .ok { status := .granted, requestID := s.requestID, grant := some grant }⟩

def Authority.submit (env : Env) (s : Submission) : Except String (Plan Outcome) := do
  validateEnrollmentSubmission s
  let now := unixMilli env.now
  let next := { a.data with requests := expirePendingRequests a.data.requests now }
  let changed := if expiredChanged a.data.requests now then some next else none
  match next.requests[s.requestID]? with
  | some existing =>
    require (existing.triple = s.triple crypto) errEnrollmentConflict
    match s.permit with
    | some permit =>
      if existing.status ≠ .approved then a.grantPlan env next s permit existing
      else return ⟨changed, outcomeForRequestLocked next.enrollments existing⟩
    | none => return ⟨changed, outcomeForRequestLocked next.enrollments existing⟩
  | none =>
    match firstOpen env.order next.requests (s.triple crypto) with
    | some existing =>
      let answer := (outcomeForRequestLocked next.enrollments existing).map fun outcome =>
        { outcome with requestID := s.requestID }
      match s.permit with
      | some permit =>
        if existing.status = .pending then a.grantPlan env next s permit existing
        else return ⟨changed, answer⟩
      | none => return ⟨changed, answer⟩
    | none =>
      let request := s.request crypto a.limits.pendingTTL now
      require ((next.requests.size : ℤ) < a.limits.maxRequests)
        "enrollment request record limit reached"
      match s.permit with
      | some permit => a.grantPlan env next s permit request
      | none =>
        require ((countPendingRequests next.requests : ℤ) < a.limits.maxPending)
          "pending enrollment request limit reached"
        require ((countPendingRequestsForParent next.requests s.parentNodeID : ℤ) <
            a.limits.maxPendingPerParent)
          "pending enrollment request limit reached for parent"
        return ⟨some { next with requests := next.requests.insert s.requestID request },
          .ok { status := .pending, requestID := s.requestID }⟩

/-! ### Deciding and revoking -/

/-- The pending request whose window has passed is written back as expired. -/
def Data.expireRequest (data : Data) (id : String) (request : RequestState) : Data :=
  { data with requests := data.requests.insert id request.expire }

def Authority.approve (env : Env) (commandRequestID enrollmentRequestID admissionProfile : String) :
    Except String (Plan EnrollmentGrantV1) := do
  validateEnrollmentHexID "command request ID" commandRequestID 16
  validateEnrollmentHexID "enrollment request ID" enrollmentRequestID 16
  validateLabel admissionProfile maxIdentifierBytes "admission profile is invalid"
  match a.data.requests[enrollmentRequestID]? with
  | none => .error "enrollment request was not found"
  | some request =>
    match request.status with
    | .approved =>
      match a.data.enrollments[request.enrollmentID]? with
      | some record =>
        require (record.status = .active) errEnrollmentRevoked
        return ⟨none, .ok record.grant⟩
      | none => .error errEnrollmentRevoked
    | .rejected => .error errEnrollmentRejected
    | .expired => .error errEnrollmentExpired
    | .pending =>
      if request.expiresAtUnixMS ≤ unixMilli env.now then
        return ⟨some (a.data.expireRequest enrollmentRequestID request), .error
          errEnrollmentExpired⟩
      else
        let (next, grant) ← a.grantLocked env.random a.data request admissionProfile
          (unixMilli env.later)
        return ⟨some next, .ok grant⟩

def RequestState.reject (request : RequestState) (reason : String) (now : ℤ) : RequestState :=
  { request with status := .rejected, reason := reason, updatedAtUnixMS := now }

def Authority.reject (env : Env) (commandRequestID enrollmentRequestID reason : String) :
    Except String (Plan Unit) := do
  validateEnrollmentHexID "command request ID" commandRequestID 16
  validateEnrollmentHexID "enrollment request ID" enrollmentRequestID 16
  validateLabel reason maxLabelBytes "rejection reason is invalid"
  match a.data.requests[enrollmentRequestID]? with
  | none => .error "enrollment request was not found"
  | some request =>
    match request.status with
    | .rejected => return ⟨none, .ok ()⟩
    | .expired => .error errEnrollmentExpired
    | .approved => .error errEnrollmentConflict
    | .pending =>
      if request.expiresAtUnixMS ≤ unixMilli env.now then
        return ⟨some (a.data.expireRequest enrollmentRequestID request), .error
          errEnrollmentExpired⟩
      else
        let rejected := request.reject reason (unixMilli env.later)
        return ⟨some { a.data with
          requests := a.data.requests.insert enrollmentRequestID rejected }, .ok ()⟩

def PermitState.revoke (record : PermitState) (reason : String) (now : ℤ) : PermitState :=
  { record with status := .revoked, reason := reason, revokedAtUnixMS := now }

def Authority.revokePermit (env : Env) (commandRequestID permitID reason : String) :
    Except String (Plan Unit) := do
  validateEnrollmentHexID "command request ID" commandRequestID 16
  validateEnrollmentHexID "permit ID" permitID 16
  validateLabel reason maxLabelBytes "permit revocation reason is invalid"
  match a.data.permits[permitID]? with
  | none => .error "enrollment permit was not found"
  | some record =>
    match record.status with
    | .revoked => return ⟨none, .ok ()⟩
    | .consumed => .error errPermitConsumed
    | .active =>
      let revoked := record.revoke reason (unixMilli env.now)
      return ⟨some { a.data with permits := a.data.permits.insert permitID revoked }, .ok ()⟩

def EnrollmentState.revoke (record : EnrollmentState) (reason : String) (now : ℤ) :
    EnrollmentState :=
  { record with status := .revoked, reason := reason, revokedAtUnixMS := now }

def Authority.revokeEnrollment (env : Env) (commandRequestID enrollmentID reason : String) :
    Except String (Plan NodeID) := do
  validateEnrollmentHexID "command request ID" commandRequestID 16
  validateEnrollmentHexID "enrollment ID" enrollmentID 16
  validateLabel reason maxLabelBytes "enrollment revocation reason is invalid"
  match a.data.enrollments[enrollmentID]? with
  | none => .error "enrollment was not found"
  | some record =>
    let nodeID := (parseEnrollmentNodeID record.grant.nodeID).getD 0
    match record.status with
    | .revoked => return ⟨none, .ok nodeID⟩
    | .active =>
      let revoked := record.revoke reason (unixMilli env.now)
      return ⟨some { a.data with
        enrollments := a.data.enrollments.insert enrollmentID revoked }, .ok nodeID⟩

def Authority.grantForRequest (env : Env) (requestID : String) :
    Except String (Plan EnrollmentGrantV1) :=
  match a.data.requests[requestID]? with
  | none => .error "enrollment request was not found"
  | some request => do
    require (request.overdue (unixMilli env.now) = false) errEnrollmentExpired
    let outcome ← outcomeForRequestLocked a.data.enrollments request
    match outcome.grant with
    | none => .error errEnrollmentPending
    | some grant => return ⟨none, .ok grant⟩

/-! ### Saving and loading -/

def stateVersion : ℤ := 1

def Identity.stateOf (identity : Identity crypto) (data : Data) (generation : UInt64) : State where
  version := stateVersion
  generation := generation
  authorityNodeID := identity.nodeID
  authorityPublicKey := identity.publicKey
  permits := Tables.values data.permits
  requests := Tables.values data.requests
  enrollments := Tables.values data.enrollments
  usedNodeIDs := data.usedNodeIDs.keys

/-- The record `saveLocked` writes. -/
def Authority.stateOf (data : Data) (generation : UInt64) : State :=
  a.identity.stateOf data generation

variable {D : Type}

def Authority.refusal : Option String :=
  if a.generation = 0xffffffffffffffff then some "enrollment authority generation exhausted"
  else none

def Authority.commitLocked (save : Commit.Saver State D) (next : Data) (d : D) :
    Option String × Authority crypto × D :=
  Commit.commit save a.refusal "persist enrollment authority state"
    (a.stateOf next (a.generation + 1)) a
    { a with data := next, generation := a.generation + 1 } d

def Authority.perform {α : Type} (save : Commit.Saver State D)
    (prepared : Except String (Plan α)) (d : D) : Except String α × Authority crypto × D :=
  match prepared with
  | .error text => (.error text, a, d)
  | .ok ⟨none, answer⟩ => (answer, a, d)
  | .ok ⟨some next, answer⟩ =>
    match a.commitLocked save next d with
    | (some text, a', d') => (.error text, a', d')
    | (none, a', d') => (answer, a', d')

def addUsedNodeID (used : UsedNodeIDs) (nodeID : NodeID) : Except String UsedNodeIDs := do
  require (nodeID ≠ 0) "invalid used Node ID: invalid envelope: node ID must be non-zero"
  require (used.contains nodeID = false) ("duplicate used Node ID " ++ formatUint nodeID)
  return used.insert nodeID ()

def PermitState.validateStatus (record : PermitState) : Except String Unit :=
  match record.status with
  | .active =>
    require (record.consumedByRequestID = "" ∧ record.consumedAtUnixMS = 0 ∧
      record.revokedAtUnixMS = 0 ∧ record.reason = "") "active permit contains terminal state"
  | .consumed => do
    validateEnrollmentHexID "consuming enrollment request ID" record.consumedByRequestID 16
    require (0 < record.consumedAtUnixMS ∧ record.revokedAtUnixMS = 0 ∧ record.reason = "")
      "consumed permit state is invalid"
  | .revoked =>
    require (0 < record.revokedAtUnixMS ∧ record.reason ≠ "" ∧ record.consumedByRequestID = "" ∧
      record.consumedAtUnixMS = 0) "revoked permit state is invalid"

variable (crypto) in
def PermitState.validate (publicKey : Bytes) (record : PermitState) : Except String Unit := do
  verifyEnrollmentPermit crypto publicKey record.permit
  validateEnrollmentHexID "issue request ID" record.issueRequestID 16
  record.validateStatus

variable (crypto) in
def addPermit (publicKey : Bytes) (permits : Permits) (record : PermitState) :
    Except String Permits := do
  record.validate crypto publicKey
  require (permits.contains record.permit.permitID = false) "duplicate permit ID"
  return permits.insert record.permit.permitID record

def RequestState.validateStatus (record : RequestState) : Except String Unit :=
  match record.status with
  | .pending =>
    require (record.admissionProfile = "" ∧ record.enrollmentID = "" ∧ record.reason = "")
      "pending enrollment request contains terminal state"
  | .approved => do
    validateLabel record.admissionProfile maxIdentifierBytes
      "approved enrollment request profile is invalid"
    validateEnrollmentHexID "enrollment ID" record.enrollmentID 16
    require (record.reason = "") "approved enrollment request contains a rejection reason"
  | .rejected | .expired =>
    require (record.admissionProfile = "" ∧ record.enrollmentID = "" ∧ record.reason ≠ "")
      "rejected or expired enrollment request state is invalid"

variable (crypto) in
def validateEnrollmentRequestState (record : RequestState) : Except String Unit := do
  validateEnrollmentHexID "enrollment request ID" record.requestID 16
  require (record.devicePublicKey.length = publicKeySize ∧
      devicePublicKeyFingerprint crypto record.devicePublicKey = record.devicePublicKeyFingerprint)
    "enrollment request device key or fingerprint is invalid"
  validateNodeID record.parentNodeID
  require (record.parentPublicKey.length = publicKeySize) "enrollment request parent key is invalid"
  validateEnrollmentHexID "transcript digest" record.transcriptDigest 32
  require (¬(record.createdAtUnixMS ≤ 0 ∨ record.updatedAtUnixMS < record.createdAtUnixMS ∨
    record.expiresAtUnixMS ≤ record.createdAtUnixMS)) "invalid enrollment request timestamps"
  record.validateStatus

variable (crypto) in
def addRequest (requests : Requests) (record : RequestState) : Except String Requests := do
  validateEnrollmentRequestState crypto record
  require (requests.contains record.requestID = false) "duplicate enrollment request ID"
  return requests.insert record.requestID record

variable (crypto) in
/-- The checks of an enrollment record before it is looked up. -/
def EnrollmentState.validate (publicKey : Bytes) (record : EnrollmentState) :
    Except String Unit := do
  verifyEnrollmentGrant crypto publicKey record.grant
  validateEnrollmentHexID "enrollment request ID" record.requestID 16
  require (record.devicePublicKeyFingerprint = Enrollment.devicePublicKeyFingerprint crypto
      ((crypto.decode64 record.grant.devicePublicKey).getD []))
    "enrollment device fingerprint does not match its Grant"
  require (record.status = .active → record.revokedAtUnixMS = 0 ∧ record.reason = "")
    "active enrollment contains revocation state"
  require (record.status = .revoked → 0 < record.revokedAtUnixMS ∧ record.reason ≠ "")
    "revoked enrollment state is invalid"

variable (crypto) in
def addEnrollment (publicKey : Bytes) (used : UsedNodeIDs) (enrollments : Enrollments)
    (record : EnrollmentState) : Except String Enrollments := do
  record.validate crypto publicKey
  require (enrollments.contains record.grant.enrollmentID = false) "duplicate enrollment ID"
  let nodeID := (parseEnrollmentNodeID record.grant.nodeID).getD 0
  require (used.contains nodeID = true)
    ("enrollment Node ID " ++ formatUint nodeID ++ " is missing from used Node IDs")
  return enrollments.insert record.grant.enrollmentID record

/-- The enrollment is that of an approved request. -/
def Data.backed (data : Data) (enrollmentID : String) (enrollment : EnrollmentState) : Bool :=
  match data.requests[enrollment.requestID]? with
  | none => false
  | some request => request.status = .approved && request.enrollmentID = enrollmentID

variable (crypto) in
/-- The approved request has an enrollment that says the same. -/
def Data.fulfilled (data : Data) (requestID : String) (request : RequestState) : Bool :=
  match data.enrollments[request.enrollmentID]? with
  | none => false
  | some enrollment =>
    enrollment.requestID = requestID &&
    enrollment.devicePublicKeyFingerprint = request.devicePublicKeyFingerprint &&
    enrollment.grant.admissionProfile = request.admissionProfile &&
    enrollment.grant.parentNodeID = formatUint request.parentNodeID &&
    enrollment.grant.parentPublicKey = crypto.encode64 request.parentPublicKey

variable (crypto) in
/-- `enrollmentAuthorityDataFromState`. -/
def dataFromState (state : State) (publicKey : Bytes) : Except String Data := do
  let used ← state.usedNodeIDs.foldlM addUsedNodeID ∅
  require (used.contains state.authorityNodeID = true)
    "authority Node ID is missing from used Node IDs"
  let permits ← state.permits.foldlM (addPermit crypto publicKey) ∅
  let requests ← state.requests.foldlM (addRequest crypto) ∅
  let enrollments ← state.enrollments.foldlM (addEnrollment crypto publicKey used) ∅
  let data : Data :=
    { permits := permits, requests := requests, enrollments := enrollments, usedNodeIDs := used }
  require (data.enrollments.toList.all fun entry => data.backed entry.1 entry.2)
    "Enrollment record does not match an approved request"
  require (data.requests.toList.all fun entry =>
      entry.2.status != .approved || data.fulfilled crypto entry.1 entry.2)
    "approved Enrollment request does not match its Enrollment record"
  return data

variable (identity : Identity crypto) (limits : Limits)

def freshState : State where
  version := stateVersion
  generation := 1
  authorityNodeID := identity.nodeID
  authorityPublicKey := identity.publicKey
  permits := []
  requests := []
  enrollments := []
  usedNodeIDs := [identity.nodeID]

/-- `LoadEnrollmentAuthority`, given what `Load` found. -/
def loadEnrollmentAuthority (save : Commit.Saver State D) (found : Option State) (d : D) :
    Except String (Authority crypto) × D :=
  let state := found.getD (freshState identity)
  if state.version ≠ stateVersion ∨ state.generation = 0 then
    (.error "load enrollment authority state: unsupported version or zero generation", d)
  else if state.authorityNodeID ≠ identity.nodeID ∨
      state.authorityPublicKey ≠ identity.publicKey then
    (.error "load enrollment authority state: authority identity does not match persisted state", d)
  else
    match dataFromState crypto state identity.publicKey with
    | .error text => (.error ("load enrollment authority state: " ++ text), d)
    | .ok data =>
      let result : Authority crypto := ⟨identity, limits, state.generation, data⟩
      match found with
      | some _ => (.ok result, d)
      | none =>
        match save (result.stateOf data state.generation) d with
        | (some text, d') => (.error ("initialize enrollment authority state: " ++ text), d')
        | (none, d') => (.ok result, d')

end Enrollment
