/-
Admission permits for one child each (`runtime/auth/admission.go`).

A parent issues a signed permit for a child and its key, keeps a record of it, and lets the
child in once.  The record that remembers the use is removed by a later `Issue` when it has
expired; a permit without a record is refused.

* `Admission.issue`, `consume`, `revoke`, `loadAdmission` — the calls, with a save that may fail;
* `Effect`, `Admission.perform_effect` — what a call does to the records, and the event it logs;
* **`permits_single_use`** — every successful `Consume` of every run is for the child and the key
  of an earlier `Issue`, within the validity of the permit, and comes after no other successful
  `Consume` or `Revoke` of that permit.
-/
import MyFlowHub.FailedCommit
import MyFlowHub.EnrollmentProcess

open Checks Protocol
open Std Encoding Tables Runs List
open Enrollment (Crypto Identity Time PermitStatus publicKeySize signatureSize unixMilli millisecond
  second errPermitInvalid errPermitConsumed errPermitRevoked)

namespace Provisioning

/-! ### Permits -/

structure ProvisioningPermitV1 where
  version : ℤ
  permitID : String
  parentNodeID : String
  childNodeID : String
  childPublicKey : String
  role : String
  issuedAtUnixMS : ℤ
  expiresAtUnixMS : ℤ
  maxUses : ℤ
  signature : String
  deriving DecidableEq, Repr

/-- What is signed: the domain and the fields but the signature. -/
def ProvisioningPermitV1.unsigned (permit : ProvisioningPermitV1) : String × ProvisioningPermitV1 :=
  ("MFH4-PERMIT", { permit with signature := "" })

/-- The library functions, with the JSON text of a message, which determines its fields. -/
structure PermitCrypto extends Crypto where
  Message : Type
  decidableEq : DecidableEq Message
  marshalProvisioning : String × ProvisioningPermitV1 → Message
  marshalProvisioning_injective : Function.Injective marshalProvisioning
  signMessage : Bytes → Message → Bytes
  verifyMessage : Bytes → Message → Bytes → Bool

variable (crypto : PermitCrypto)

instance : DecidableEq crypto.Message := crypto.decidableEq

def permitMessage (permit : ProvisioningPermitV1) : crypto.Message :=
  crypto.marshalProvisioning permit.unsigned

def ProvisioningPermitV1.validate (permit : ProvisioningPermitV1) : Except String Unit := do
  validateVersion permit.version
  validateHexID "permit_id" permit.permitID 16
  validateNodeIDText "parent_node_id" permit.parentNodeID
  validateNodeIDText "child_node_id" permit.childNodeID
  validateText "role" permit.role maxIdentifierBytes true
  require (¬(permit.issuedAtUnixMS ≤ 0 ∨ permit.expiresAtUnixMS ≤ permit.issuedAtUnixMS))
    "permit time range is invalid"
  require (permit.maxUses = 1) "permit max_uses must be one"
  require ((crypto.decode64 permit.childPublicKey).map List.length = some publicKeySize)
    "child_public_key must be a raw-base64 Ed25519 public key"
  require ((crypto.decode64 permit.signature).map List.length = some signatureSize)
    "signature must be a raw-base64 Ed25519 signature"

def samePermit (left right : ProvisioningPermitV1) : Bool :=
  permitMessage crypto left = permitMessage crypto right && left.signature = right.signature

theorem eq_of_samePermit {left right : ProvisioningPermitV1}
    (h : samePermit crypto left right = true) : left = right := by
  simp only [samePermit, Bool.and_eq_true, decide_eq_true_eq] at h
  obtain ⟨hmessage, hsignature⟩ := h
  have hunsigned : left.unsigned = right.unsigned := crypto.marshalProvisioning_injective hmessage
  obtain ⟨v, id, p, c, k, r, i, e, m, s⟩ := left
  obtain ⟨v', id', p', c', k', r', i', e', m', s'⟩ := right
  simp_all [ProvisioningPermitV1.unsigned]

theorem samePermit_self (permit : ProvisioningPermitV1) :
    samePermit crypto permit permit = true := by
  simp [samePermit]

/-! ### The records -/

structure PermitRecord where
  permit : ProvisioningPermitV1
  status : PermitStatus
  consumedAt : ℤ := 0
  revokedAt : ℤ := 0
  deriving DecidableEq, Repr

abbrev Records := ExtTreeMap String PermitRecord compare

/-- `admission.json`. -/
abbrev Disk := Option (Auth.AdmissionRecord PermitRecord)

structure Admission where
  identity : Identity crypto.toCrypto
  maxTTL : ℤ
  maxRecords : ℤ
  state : Auth.Admission PermitRecord

structure AdmissionConfig where
  maxTTL : ℤ := 0
  maxRecords : ℤ := 0

/-- The loop of `LoadAdmission`. -/
def loadRecords : Records → List PermitRecord → Except String Records
  | records, [] => .ok records
  | records, record :: rest =>
    match record.permit.validate crypto with
    | .error text => .error ("load admission state: invalid permit: " ++ text)
    | .ok () =>
      if records.contains record.permit.permitID then
        .error "load admission state: duplicate permit ID"
      else loadRecords (records.insert record.permit.permitID record) rest

variable {crypto}

/-- The defaults, and the check of what the configuration sets. -/
def AdmissionConfig.limits (config : AdmissionConfig) : Except String (ℤ × ℤ) :=
  let maxTTL := if config.maxTTL ≤ 0 then 24 * 3600 * second else config.maxTTL
  let maxRecords := if config.maxRecords ≤ 0 then 4096 else config.maxRecords
  if maxTTL < second ∨ maxRecords < 1 then .error "admission limits are invalid"
  else .ok (maxTTL, maxRecords)

/-- A file that is missing is written; `readFault` is an error of `Store.Load`. -/
def loadAdmission (identity : Identity crypto.toCrypto) (config : AdmissionConfig)
    (readFault fault : Option String) (disk : Disk) : Except String (Admission crypto) × Disk :=
  match config.limits, readFault, disk with
  | .error text, _, _ => (.error text, disk)
  | .ok _, some text, _ => (.error ("load admission state: " ++ text), disk)
  | .ok (maxTTL, maxRecords), none, none =>
    match Commit.slot fault (Auth.Admission.record ∅ 1) disk with
    | (some text, disk) => (.error ("initialize admission state: " ++ text), disk)
    | (none, disk) => (.ok ⟨identity, maxTTL, maxRecords, ⟨1, ∅⟩⟩, disk)
  | .ok (maxTTL, maxRecords), none, some state =>
    if state.version ≠ Auth.stateVersion ∨ state.generation = 0 then
      (.error "load admission state: unsupported version or zero generation", disk)
    else
      match loadRecords crypto ∅ state.records with
      | .error text => (.error text, disk)
      | .ok records => (.ok ⟨identity, maxTTL, maxRecords, ⟨state.generation, records⟩⟩, disk)

/-! ### The calls -/

def cleanupExpiredPermits (records : Records) (now : ℤ) : Records :=
  records.filter fun _ record => !decide (record.permit.expiresAtUnixMS ≤ now)

namespace Admission

variable (a : Admission crypto)

/-- The permit of `Issue`, before it is signed. -/
def newPermit (rawID : Bytes) (childID : NodeID) (childPublicKey : Bytes) (role : String) (ttl : ℤ)
    (now : Time) : ProvisioningPermitV1 where
  version := 1
  permitID := hexEncode rawID
  parentNodeID := formatUint a.identity.nodeID
  childNodeID := formatUint childID
  childPublicKey := crypto.encode64 childPublicKey
  role := role
  issuedAtUnixMS := unixMilli now
  expiresAtUnixMS := unixMilli (now + ttl)
  maxUses := 1
  signature := ""

def signed (permit : ProvisioningPermitV1) : ProvisioningPermitV1 :=
  { permit with
    signature := crypto.encode64
      (crypto.signMessage a.identity.privateKey (permitMessage crypto permit)) }

/-- `Issue` up to its commit: the permit, and the records with it. -/
def prepareIssue (childID : NodeID) (childPublicKey : Bytes) (role : String) (ttl : ℤ)
    (random : Except String Bytes) (now : Time) :
    Except String (ProvisioningPermitV1 × Records) := do
  validateNodeID childID
  require (childPublicKey.length = publicKeySize) "admission child key must be Ed25519"
  require (role ≠ "" ∧ role.utf8ByteSize ≤ maxIdentifierBytes) "admission role is invalid"
  require (millisecond ≤ ttl ∧ ttl ≤ a.maxTTL)
    ("admission TTL must be between 1ms and " ++ toString a.maxTTL ++ "ns")
  let rawID ← random.mapError ("generate permit ID: " ++ ·)
  let permit := a.signed (a.newPermit rawID childID childPublicKey role ttl now)
  let _ ← (permit.validate crypto).mapError ("create permit: " ++ ·)
  let next := cleanupExpiredPermits a.state.records (unixMilli now)
  require ((next.size : ℤ) < a.maxRecords) "admission permit record limit reached"
  return (permit, next.insert permit.permitID { permit := permit, status := .active })

def verify (childID : NodeID) (childPublicKey : Bytes) (permit : ProvisioningPermitV1) :
    Except String Unit := do
  let _ ← (permit.validate crypto).mapError ((errPermitInvalid ++ ": ") ++ ·)
  require (permit.parentNodeID = formatUint a.identity.nodeID ∧
      permit.childNodeID = formatUint childID)
    (errPermitInvalid ++ ": parent or child binding mismatch")
  require (childPublicKey.length = publicKeySize ∧
      permit.childPublicKey = crypto.encode64 childPublicKey)
    (errPermitInvalid ++ ": child key binding mismatch")
  match crypto.decode64 permit.signature with
  | none => .error (errPermitInvalid ++ ": signature verification failed")
  | some signature =>
    require (crypto.verifyMessage a.identity.publicKey (permitMessage crypto permit)
      signature = true)
      (errPermitInvalid ++ ": signature verification failed")

/-- `Consume` up to its commit. -/
def prepareConsume (childID : NodeID) (childPublicKey : Bytes) (permit : ProvisioningPermitV1)
    (now : Time) : Except String Records := do
  a.verify childID childPublicKey permit
  match a.state.records[permit.permitID]? with
  | none => .error (errPermitInvalid ++ ": unknown permit")
  | some record => do
    require (samePermit crypto record.permit permit = true) (errPermitInvalid ++ ": unknown permit")
    match record.status with
    | .consumed => .error errPermitConsumed
    | .revoked => .error errPermitRevoked
    | .active => do
      require (permit.issuedAtUnixMS ≤ unixMilli now ∧ unixMilli now < permit.expiresAtUnixMS)
        (errPermitInvalid ++ ": expired or not yet valid")
      return a.state.records.insert permit.permitID
        { record with status := .consumed, consumedAt := unixMilli now }

/-- `Revoke` up to its commit; there is nothing to commit for a permit revoked before. -/
def prepareRevoke (permitID : String) (now : Time) : Except String (Option Records) :=
  match a.state.records[permitID]? with
  | none => .error (errPermitInvalid ++ ": unknown permit")
  | some record =>
    match record.status with
    | .consumed => .error errPermitConsumed
    | .revoked => .ok none
    | .active => .ok (some (a.state.records.insert permitID
        { record with status := .revoked, revokedAt := unixMilli now }))

/-- `commitLocked`, and the answer if it succeeds. -/
def finish {α : Type} (fault : Option String) (answer : α) (next : Records) (disk : Disk) :
    Except String α × Admission crypto × Disk :=
  match a.state.commitLocked (Commit.slot fault) next disk with
  | (some text, state, disk) => (.error text, { a with state := state }, disk)
  | (none, state, disk) => (.ok answer, { a with state := state }, disk)

def issue (childID : NodeID) (childPublicKey : Bytes) (role : String) (ttl : ℤ)
    (random : Except String Bytes) (now : Time) (fault : Option String) (disk : Disk) :
    Except String ProvisioningPermitV1 × Admission crypto × Disk :=
  match a.prepareIssue childID childPublicKey role ttl random now with
  | .error text => (.error text, a, disk)
  | .ok (permit, next) => a.finish fault permit next disk

def consume (childID : NodeID) (childPublicKey : Bytes) (permit : ProvisioningPermitV1)
    (now : Time) (fault : Option String) (disk : Disk) :
    Except String Unit × Admission crypto × Disk :=
  match a.prepareConsume childID childPublicKey permit now with
  | .error text => (.error text, a, disk)
  | .ok next => a.finish fault () next disk

def revoke (permitID : String) (now : Time) (fault : Option String) (disk : Disk) :
    Except String Unit × Admission crypto × Disk :=
  match a.prepareRevoke permitID now with
  | .error text => (.error text, a, disk)
  | .ok none => (.ok (), a, disk)
  | .ok (some next) => a.finish fault () next disk

end Admission

/-! ### Runs -/

/-- The calls that succeeded, with what they were called with. -/
inductive Event where
  | issued (permit : ProvisioningPermitV1) (child : NodeID) (key : Bytes)
  | consumed (permit : ProvisioningPermitV1) (child : NodeID) (key : Bytes) (now : ℤ)
  | revoked (permitID : String)
  deriving DecidableEq

inductive Call where
  | issue (childID : NodeID) (childPublicKey : Bytes) (role : String) (ttl : ℤ)
      (random : Except String Bytes)
  | consume (childID : NodeID) (childPublicKey : Bytes) (permit : ProvisioningPermitV1)
  | revoke (permitID : String)

/-- A call at a reading of the clock, or a restart; the save of either may fail. -/
inductive Act (crypto : PermitCrypto) where
  | call (call : Call) (now : Time) (fault : Option String)
  | reload (identity : Identity crypto.toCrypto) (config : AdmissionConfig)
      (readFault fault : Option String)

def Admission.perform (a : Admission crypto) (call : Call) (now : Time) (fault : Option String)
    (disk : Disk) : Option Event × Admission crypto × Disk :=
  match call with
  | .issue childID key role ttl random =>
    match a.issue childID key role ttl random now fault disk with
    | (.ok permit, a, disk) => (some (.issued permit childID key), a, disk)
    | (.error _, a, disk) => (none, a, disk)
  | .consume childID key permit =>
    match a.consume childID key permit now fault disk with
    | (.ok (), a, disk) => (some (.consumed permit childID key (unixMilli now)), a, disk)
    | (.error _, a, disk) => (none, a, disk)
  | .revoke permitID =>
    match a.revoke permitID now fault disk with
    | (.ok (), a, disk) => (some (.revoked permitID), a, disk)
    | (.error _, a, disk) => (none, a, disk)

/-- The process, if it runs, the disk, the random permit IDs drawn so far and the calls that
succeeded. -/
structure System (crypto : PermitCrypto) where
  admission : Option (Admission crypto)
  disk : Disk
  drawn : List Bytes
  log : List Event

namespace System

def start (crypto : PermitCrypto) : System crypto := ⟨none, none, [], []⟩

def draws : Act crypto → List Bytes
  | .call (.issue _ _ _ _ (.ok rawID)) _ _ => [rawID]
  | _ => []

def step (s : System crypto) (act : Act crypto) : System crypto :=
  match act with
  | .call call now fault =>
    match s.admission with
    | none => { s with drawn := s.drawn ++ draws act }
    | some a =>
      let result := a.perform call now fault s.disk
      { admission := some result.2.1, disk := result.2.2, drawn := s.drawn ++ draws act,
        log := s.log ++ result.1.toList }
  | .reload identity config readFault fault =>
    let result := loadAdmission identity config readFault fault s.disk
    { admission := result.1.toOption, disk := result.2, drawn := s.drawn ++ draws act,
      log := s.log }

def Fresh (s : System crypto) (act : Act crypto) : Prop := ∀ rawID ∈ draws act, rawID ∉ s.drawn

instance (s : System crypto) : DecidablePred s.Fresh := fun act =>
  inferInstanceAs (Decidable (∀ rawID ∈ draws act, rawID ∉ s.drawn))

end System

def Event.spends : Event → Option String
  | .issued _ _ _ => none
  | .consumed permit _ _ _ => some permit.permitID
  | .revoked permitID => some permitID

/-- A permit is consumed by the child and with the key it was issued for, while the clock reads
inside its validity window, and no earlier call consumed or revoked it. -/
def Allowed (before : List Event) : Event → Prop
  | .consumed permit child key now =>
    .issued permit child key ∈ before ∧
      permit.issuedAtUnixMS ≤ now ∧ now < permit.expiresAtUnixMS ∧
      ∀ e ∈ before, e.spends ≠ some permit.permitID
  | _ => True

/-! ### What a call does -/

def Binds (crypto : PermitCrypto) (permit : ProvisioningPermitV1) (child : NodeID) (key : Bytes) :
    Prop :=
  permit.childNodeID = formatUint child ∧ permit.childPublicKey = crypto.encode64 key

theorem Binds.unique {permit : ProvisioningPermitV1} {child child' : NodeID} {key key' : Bytes}
    (h : Binds crypto permit child key) (h' : Binds crypto permit child' key') :
    child = child' ∧ key = key' := by
  constructor
  · exact formatUint_injective (h.1.symm.trans h'.1)
  · have hencode : crypto.encode64 key = crypto.encode64 key' := h.2.symm.trans h'.2
    have hdecode := crypto.decode64_encode64 key
    rw [hencode, crypto.decode64_encode64] at hdecode
    exact (Option.some.inj hdecode).symm

/-- The event and the new records of a call that succeeds, from the records before. -/
inductive Effect (crypto : PermitCrypto) (records : Records) : Act crypto → Event → Records → Prop
  | issue {role : String} {ttl : ℤ} {now : Time} {fault : Option String} {rawID : Bytes}
      {permit : ProvisioningPermitV1} {child : NodeID} {key : Bytes}
      (hid : permit.permitID = hexEncode rawID) (hbinds : Binds crypto permit child key) :
      Effect crypto records (.call (.issue child key role ttl (.ok rawID)) now fault)
        (.issued permit child key)
        ((cleanupExpiredPermits records (unixMilli now)).insert permit.permitID
          { permit := permit, status := .active })
  | consume {now : Time} {fault : Option String} {record : PermitRecord} {child : NodeID}
      {key : Bytes} (hfound : records[record.permit.permitID]? = some record)
      (hactive : record.status = .active) (hbinds : Binds crypto record.permit child key)
      (hwindow : record.permit.issuedAtUnixMS ≤ unixMilli now ∧
        unixMilli now < record.permit.expiresAtUnixMS) :
      Effect crypto records (.call (.consume child key record.permit) now fault)
        (.consumed record.permit child key (unixMilli now))
        (records.insert record.permit.permitID
          { record with status := .consumed, consumedAt := unixMilli now })
  | revoke {now : Time} {fault : Option String} {permitID : String} {record : PermitRecord}
      (hfound : records[permitID]? = some record) (hactive : record.status = .active) :
      Effect crypto records (.call (.revoke permitID) now fault) (.revoked permitID)
        (records.insert permitID { record with status := .revoked, revokedAt := unixMilli now })

namespace Admission

variable {a : Admission crypto} {key : Bytes} {childID : NodeID} {permit : ProvisioningPermitV1}

theorem prepareIssue_eq_ok {role : String} {ttl : ℤ} {random : Except String Bytes} {now : Time}
    {next : Records} (h : a.prepareIssue childID key role ttl random now = .ok (permit, next)) :
    ∃ rawID, random = .ok rawID ∧ permit.permitID = hexEncode rawID ∧
      Binds crypto permit childID key ∧
      next = (cleanupExpiredPermits a.state.records (unixMilli now)).insert permit.permitID
        { permit := permit, status := .active } := by
  unfold prepareIssue at h
  simp only [bind_eq_ok] at h
  obtain ⟨-, -, -, -, -, -, -, -, rawID, hrandom, -, -, -, -, hresult⟩ := h
  have hraw : random = .ok rawID := by
    cases random with
    | error text => cases hrandom
    | ok bytes =>
      cases hrandom
      rfl
  cases hresult
  exact ⟨rawID, hraw, rfl, ⟨rfl, rfl⟩, rfl⟩

theorem verify_eq_ok (h : a.verify childID key permit = .ok ()) :
    Binds crypto permit childID key := by
  unfold verify at h
  simp only [bind_eq_ok, require_eq_ok] at h
  obtain ⟨-, -, -, ⟨-, hchild⟩, -, ⟨-, hkey⟩, -⟩ := h
  exact ⟨hchild, hkey⟩

theorem prepareConsume_eq_ok {now : Time} {next : Records}
    (h : a.prepareConsume childID key permit now = .ok next) :
    ∃ record, record.permit = permit ∧ a.state.records[permit.permitID]? = some record ∧
      record.status = .active ∧ Binds crypto permit childID key ∧
      (permit.issuedAtUnixMS ≤ unixMilli now ∧ unixMilli now < permit.expiresAtUnixMS) ∧
      next = a.state.records.insert permit.permitID
        { record with status := .consumed, consumedAt := unixMilli now } := by
  unfold prepareConsume at h
  rw [bind_eq_ok] at h
  obtain ⟨_, hverify, h⟩ := h
  split at h
  · cases h
  · next record hfound =>
    rw [bind_eq_ok] at h
    obtain ⟨_, hsame, h⟩ := h
    split at h
    · cases h
    · cases h
    · next hactive =>
      rw [bind_eq_ok] at h
      obtain ⟨_, hwindow, h⟩ := h
      cases h
      exact ⟨record, eq_of_samePermit crypto (require_eq_ok.1 hsame), hfound, hactive,
        verify_eq_ok hverify, require_eq_ok.1 hwindow, rfl⟩

theorem finish_cases {α : Type} (a : Admission crypto) (fault : Option String) (answer : α)
    (next : Records) (disk : Disk) :
    (∃ text, a.finish fault answer next disk = (.error text, a, disk)) ∨
      ∃ generation, a.finish fault answer next disk =
        (.ok answer, { a with state := ⟨generation, next⟩ },
          some (Auth.Admission.record next generation)) := by
  unfold finish Auth.Admission.commitLocked Commit.commit
  cases hrefusal : a.state.refusal with
  | some text => exact .inl ⟨text, rfl⟩
  | none =>
    cases fault with
    | some text => exact .inl ⟨_, rfl⟩
    | none => exact .inr ⟨_, rfl⟩

/-- A call changes nothing, or has an effect that is in memory and on the disk; a permit that is
revoked already may be revoked again. -/
theorem perform_effect (a : Admission crypto) (call : Call) (now : Time) (fault : Option String)
    (disk : Disk) :
    a.perform call now fault disk = (none, a, disk) ∨
      (∃ permitID record, a.state.records[permitID]? = some record ∧ record.status = .revoked ∧
        a.perform call now fault disk = (some (.revoked permitID), a, disk)) ∨
      ∃ e next generation, Effect crypto a.state.records (.call call now fault) e next ∧
        a.perform call now fault disk = (some e, { a with state := ⟨generation, next⟩ },
          some (Auth.Admission.record next generation)) := by
  cases call with
  | issue childID key role ttl random =>
    cases hprepare : a.prepareIssue childID key role ttl random now with
    | error text =>
      refine .inl ?_
      simp only [perform, issue, hprepare]
    | ok result =>
      obtain ⟨permit, next⟩ := result
      obtain ⟨rawID, rfl, hid, hbinds, rfl⟩ := prepareIssue_eq_ok hprepare
      simp only [perform, issue, hprepare]
      obtain ⟨text, hfinish⟩ | ⟨generation, hfinish⟩ := a.finish_cases fault permit
        ((cleanupExpiredPermits a.state.records (unixMilli now)).insert permit.permitID
          { permit := permit, status := .active }) disk
      · rw [hfinish]
        exact .inl rfl
      · rw [hfinish]
        exact .inr (.inr ⟨_, _, generation, .issue hid hbinds, rfl⟩)
  | consume childID key permit =>
    cases hprepare : a.prepareConsume childID key permit now with
    | error text =>
      refine .inl ?_
      simp only [perform, consume, hprepare]
    | ok next =>
      obtain ⟨record, rfl, hfound, hactive, hbinds, hwindow, rfl⟩ := prepareConsume_eq_ok hprepare
      simp only [perform, consume, hprepare]
      obtain ⟨text, hfinish⟩ | ⟨generation, hfinish⟩ := a.finish_cases fault ()
        (a.state.records.insert record.permit.permitID
          { record with status := .consumed, consumedAt := unixMilli now }) disk
      · rw [hfinish]
        exact .inl rfl
      · rw [hfinish]
        exact .inr (.inr ⟨_, _, generation, .consume hfound hactive hbinds hwindow, rfl⟩)
  | revoke permitID =>
    cases hfound : a.state.records[permitID]? with
    | none =>
      refine .inl ?_
      simp only [perform, revoke, prepareRevoke, hfound]
    | some record =>
      cases hstatus : record.status with
      | consumed =>
        refine .inl ?_
        simp only [perform, revoke, prepareRevoke, hfound, hstatus]
      | revoked =>
        refine .inr (.inl ⟨permitID, record, hfound, hstatus, ?_⟩)
        simp only [perform, revoke, prepareRevoke, hfound, hstatus]
      | active =>
        simp only [perform, revoke, prepareRevoke, hfound, hstatus]
        obtain ⟨text, hfinish⟩ | ⟨generation, hfinish⟩ := a.finish_cases fault ()
          (a.state.records.insert permitID
            { record with status := .revoked, revokedAt := unixMilli now }) disk
        · rw [hfinish]
          exact .inl rfl
        · rw [hfinish]
          exact .inr (.inr ⟨_, _, generation, .revoke hfound hstatus, rfl⟩)

end Admission

/-! ### Loading -/

variable {drawn : List Bytes} {log : List Event} {record : PermitRecord} {records : Records}

theorem mem_of_loadRecords {next : Records} {items : List PermitRecord}
    (h : loadRecords crypto records items = .ok next) {id : String}
    (hfound : next[id]? = some record) :
    records[id]? = some record ∨ (record ∈ items ∧ record.permit.permitID = id) := by
  induction items generalizing records with
  | nil =>
    cases h
    exact .inl hfound
  | cons first rest ih =>
    rw [loadRecords] at h
    split at h
    · cases h
    · split at h
      · cases h
      · obtain hold | ⟨hmem, hid⟩ := ih h
        · rcases lookup_insert_eq_some.mp hold with ⟨rfl, rfl⟩ | ⟨-, hold⟩
          · exact .inr ⟨mem_cons_self, rfl⟩
          · exact .inl hold
        · exact .inr ⟨mem_cons_of_mem _ hmem, hid⟩

/-- A load fails, writes an empty table where there is no file, or takes the records of the file. -/
theorem loadAdmission_cases (identity : Identity crypto.toCrypto) (config : AdmissionConfig)
    (readFault fault : Option String) (disk : Disk) :
    (∃ text, loadAdmission identity config readFault fault disk = (.error text, disk)) ∨
      (∃ a : Admission crypto, a.state.records = ∅ ∧
        loadAdmission identity config readFault fault disk =
          (.ok a, some (Auth.Admission.record ∅ 1))) ∨
      ∃ (a : Admission crypto) (r : Auth.AdmissionRecord PermitRecord), disk = some r ∧
        loadRecords crypto ∅ r.records = .ok a.state.records ∧
        loadAdmission identity config readFault fault disk = (.ok a, disk) := by
  unfold loadAdmission
  cases config.limits with
  | error text => exact .inl ⟨text, rfl⟩
  | ok limits =>
    cases readFault with
    | some text => exact .inl ⟨_, rfl⟩
    | none =>
      cases disk with
      | none =>
        cases fault with
        | some text => exact .inl ⟨_, rfl⟩
        | none => exact .inr (.inl ⟨_, rfl, rfl⟩)
      | some state =>
        dsimp only
        split_ifs with hstate
        · exact .inl ⟨_, rfl⟩
        · cases hload : loadRecords crypto ∅ state.records with
          | error text => exact .inl ⟨_, rfl⟩
          | ok records => exact .inr (.inr ⟨_, state, rfl, hload, rfl⟩)

/-! ### The invariant -/

/-- A record belongs to a permit that was issued; while it is active nothing has used the permit
up, and a revoked one was revoked. -/
structure Known (crypto : PermitCrypto) (drawn : List Bytes) (log : List Event)
    (record : PermitRecord) : Prop where
  drawn : ∃ rawID ∈ drawn, record.permit.permitID = hexEncode rawID
  issued : ∃ child key, .issued record.permit child key ∈ log ∧ Binds crypto record.permit child key
  active : record.status = .active → ∀ e ∈ log, e.spends ≠ some record.permit.permitID
  revoked : record.status = .revoked → .revoked record.permit.permitID ∈ log

theorem Known.mono (h : Known crypto drawn log record) (more : List Bytes) {new : List Event}
    (hnew : ∀ e ∈ new, e.spends = some record.permit.permitID → record.status ≠ .active) :
    Known crypto (drawn ++ more) (log ++ new) record where
  drawn := by
    obtain ⟨rawID, hmem, hid⟩ := h.drawn
    exact ⟨rawID, mem_append_left _ hmem, hid⟩
  issued := by
    obtain ⟨child, key, hissued, hbinds⟩ := h.issued
    exact ⟨child, key, mem_append_left _ hissued, hbinds⟩
  active := by
    intro hactive e he hspends
    rcases mem_append.1 he with he | he
    · exact h.active hactive e he hspends
    · exact hnew e he hspends hactive
  revoked := fun hrevoked => mem_append_left _ (h.revoked hrevoked)

def Held (crypto : PermitCrypto) (drawn : List Bytes) (log : List Event) (records : Records) :
    Prop :=
  ∀ (id : String) (record : PermitRecord), records[id]? = some record →
    record.permit.permitID = id ∧ Known crypto drawn log record

/-- Everything that was used up had been drawn. -/
def Spent (drawn : List Bytes) (log : List Event) : Prop :=
  ∀ e ∈ log, ∀ id, e.spends = some id → ∃ rawID ∈ drawn, id = hexEncode rawID

theorem Known.draw (h : Known crypto drawn log record) (more : List Bytes) :
    Known crypto (drawn ++ more) log record := by
  have hsame : Known crypto (drawn ++ more) (log ++ []) record := h.mono more (by rintro e ⟨⟩)
  rwa [append_nil] at hsame

theorem Spent.mono (h : Spent drawn log) (more : List Bytes) {new : List Event}
    (hnew : ∀ e ∈ new, ∀ id, e.spends = some id → ∃ rawID ∈ drawn, id = hexEncode rawID) :
    Spent (drawn ++ more) (log ++ new) := by
  intro e he id hspends
  have hold : ∃ rawID ∈ drawn, id = hexEncode rawID := by
    rcases mem_append.1 he with he | he
    · exact h e he id hspends
    · exact hnew e he id hspends
  obtain ⟨rawID, hmem, hid⟩ := hold
  exact ⟨rawID, mem_append_left _ hmem, hid⟩

theorem Spent.draw (h : Spent drawn log) (more : List Bytes) : Spent (drawn ++ more) log := by
  have hsame : Spent (drawn ++ more) (log ++ []) := h.mono more (by rintro e ⟨⟩)
  rwa [append_nil] at hsame

structure System.Sound (s : System crypto) : Prop where
  log : Justified Allowed s.log
  spent : Spent s.drawn s.log
  memory : ∀ a, s.admission = some a → Held crypto s.drawn s.log a.state.records
  disk : ∀ r, s.disk = some r → ∀ record ∈ r.records, Known crypto s.drawn s.log record

theorem Held.insert {more : List Bytes} (h : Held crypto drawn log records) {e : Event}
    {id : String} (hspends : ∀ id', e.spends = some id' → id' = id)
    (hid : record.permit.permitID = id) (hknown : Known crypto (drawn ++ more)
      (log ++ [e]) record) :
    Held crypto (drawn ++ more) (log ++ [e]) (records.insert id record) := by
  intro id' record' hfound
  rcases lookup_insert_eq_some.mp hfound with ⟨rfl, rfl⟩ | ⟨hne, hfound⟩
  · exact ⟨hid, hknown⟩
  · obtain ⟨hid', hknown'⟩ := h id' record' hfound
    refine ⟨hid', hknown'.mono more ?_⟩
    intro e' he' hspends'
    rw [mem_singleton.1 he'] at hspends'
    exact absurd (hid' ▸ hspends _ hspends') hne

theorem Held.cleanup (h : Held crypto drawn log records) (now : ℤ) :
    Held crypto drawn log (cleanupExpiredPermits records now) := by
  intro id record hfound
  exact h id record (lookup_filter.1 hfound).1

theorem Effect.sound {next : Records} {act : Act crypto} {e : Event}
    (heffect : Effect crypto records act e next) {s : System crypto} (hs : s.Sound)
    (hheld : Held crypto s.drawn s.log records) (hfresh : s.Fresh act) :
    Allowed s.log e ∧ (∀ id, e.spends = some id → ∃ rawID ∈ s.drawn, id = hexEncode rawID) ∧
      Held crypto (s.drawn ++ System.draws act) (s.log ++ [e]) next := by
  cases heffect with
  | @issue role ttl now fault rawID permit child key hid hbinds =>
    have hnew : rawID ∉ s.drawn := hfresh rawID mem_cons_self
    refine ⟨trivial, (fun id hspends => by cases hspends),
      (hheld.cleanup _).insert (fun id hspends => by cases hspends) rfl ?_⟩
    refine ⟨⟨rawID, mem_append_right _ mem_cons_self, hid⟩,
      ⟨child, key, mem_append_right _ mem_cons_self, hbinds⟩, ?_, fun hrevoked => by cases hrevoked⟩
    -- nothing before can have used up an ID that was not drawn before
    intro _ e' he' hspends
    rcases mem_append.1 he' with he' | he'
    · obtain ⟨rawID', hmem, heq⟩ := hs.spent e' he' _ hspends
      have hsame : rawID = rawID' := hexEncode_injective (hid.symm.trans heq)
      exact hnew (hsame ▸ hmem)
    · rw [mem_singleton.1 he'] at hspends
      cases hspends
  | @consume now fault record child key hfound hactive hbinds hwindow =>
    obtain ⟨-, hknown⟩ := hheld _ record hfound
    obtain ⟨child', key', hissued, hbinds'⟩ := hknown.issued
    obtain ⟨rfl, rfl⟩ := hbinds.unique hbinds'
    refine ⟨⟨hissued, hwindow.1, hwindow.2, hknown.active hactive⟩, ?_, ?_⟩
    · intro id hspends
      cases hspends
      exact hknown.drawn
    · refine hheld.insert (fun id hspends => (Option.some.inj hspends).symm) rfl ?_
      exact ⟨hknown.drawn.imp fun _ h => ⟨mem_append_left _ h.1, h.2⟩,
        ⟨child, key, mem_append_left _ hissued, hbinds⟩, (fun h => by cases h), fun h => by cases h⟩
  | @revoke now fault permitID record hfound hactive =>
    obtain ⟨hid, hknown⟩ := hheld _ record hfound
    subst hid
    obtain ⟨child, key, hissued, hbinds⟩ := hknown.issued
    refine ⟨trivial, ?_, ?_⟩
    · intro id hspends
      cases hspends
      exact hknown.drawn
    · refine hheld.insert (fun id hspends => (Option.some.inj hspends).symm) rfl ?_
      exact ⟨hknown.drawn.imp fun _ h => ⟨mem_append_left _ h.1, h.2⟩,
        ⟨child, key, mem_append_left _ hissued, hbinds⟩,
        (fun h => by cases h), fun _ => mem_append_right _ mem_cons_self⟩

namespace System

theorem sound_start : (start crypto).Sound where
  log := justified_nil Allowed
  spent := fun e he => absurd he not_mem_nil
  memory := fun a h => by cases h
  disk := fun r h => by cases h

/-- The part of the invariant that does not change when records and events stay. -/
theorem Sound.draw {s : System crypto} (hs : s.Sound) (more : List Bytes) :
    ({ s with drawn := s.drawn ++ more } : System crypto).Sound where
  log := hs.log
  spent := hs.spent.draw more
  memory := fun a ha id record hfound =>
    ⟨(hs.memory a ha id record hfound).1, (hs.memory a ha id record hfound).2.draw more⟩
  disk := fun r hr record hrecord => (hs.disk r hr record hrecord).draw more

theorem Sound.again {s : System crypto} (hs : s.Sound) {a : Admission crypto}
    (ha : s.admission = some a) {permitID : String} {record : PermitRecord}
    (hfound : a.state.records[permitID]? = some record) (hrevoked : record.status = .revoked)
    (more : List Bytes) :
    ({ s with drawn := s.drawn ++ more, log := s.log ++ [.revoked permitID] } : System
      crypto).Sound := by
  obtain ⟨hid, hknown⟩ := hs.memory a ha permitID record hfound
  have hevent : .revoked permitID ∈ s.log := hid ▸ hknown.revoked hrevoked
  have hclean : ∀ record', Known crypto s.drawn s.log record' →
      Known crypto (s.drawn ++ more) (s.log ++ [.revoked permitID]) record' := by
    intro record' hknown'
    apply hknown'.mono more
    intro e he hspends hactive
    rw [mem_singleton.1 he] at hspends
    exact hknown'.active hactive _ hevent hspends
  refine ⟨hs.log.concat trivial, hs.spent.mono more ?_, ?_, ?_⟩
  · intro e he id hspends
    rw [mem_singleton.1 he] at hspends
    exact hs.spent _ hevent id hspends
  · intro a' ha' id record' hfound'
    obtain ⟨hid', hknown'⟩ := hs.memory a' ha' id record' hfound'
    exact ⟨hid', hclean record' hknown'⟩
  · exact fun r hr record' hrecord' => hclean record' (hs.disk r hr record' hrecord')

theorem sound_step (s : System crypto) (act : Act crypto) (hs : s.Sound) (hfresh : s.Fresh act) :
    (s.step act).Sound := by
  cases act with
  | call call now fault =>
    rw [step]
    cases hadmission : s.admission with
    | none =>
      have hdraw := hs.draw (draws (.call call now fault : Act crypto))
      rw [hadmission] at hdraw
      exact hdraw
    | some a =>
      dsimp only
      obtain hnone | ⟨permitID, record, hfound, hrevoked, hagain⟩ |
        ⟨e, next, generation, heffect, hdone⟩ := a.perform_effect call now fault s.disk
      · rw [hnone, ← hadmission]
        simpa using hs.draw (draws (.call call now fault))
      · rw [hagain, ← hadmission]
        exact hs.again hadmission hfound hrevoked _
      · rw [hdone]
        have hheld := hs.memory a hadmission
        obtain ⟨hallowed, hspent, hnext⟩ := heffect.sound hs hheld hfresh
        refine ⟨hs.log.concat hallowed, hs.spent.mono _ ?_, ?_, ?_⟩
        · intro e' he' id hspends
          rw [mem_singleton.1 he'] at hspends
          exact hspent id hspends
        · intro a' ha'
          cases ha'
          exact hnext
        · intro r hr record hrecord
          cases hr
          obtain ⟨id, hfound⟩ := mem_values.1 hrecord
          exact (hnext id record hfound).2
  | reload identity config readFault fault =>
    have hdraw := hs.draw (draws (.reload identity config readFault fault))
    rw [step]
    obtain ⟨text, hload⟩ | ⟨a, hempty, hload⟩ | ⟨a, r, hdisk, hrecords, hload⟩ :=
      loadAdmission_cases identity config readFault fault s.disk
    · rw [hload]
      exact { hdraw with memory := (fun a ha => by cases ha) }
    · rw [hload]
      refine ⟨hdraw.log, hdraw.spent, ?_, ?_⟩
      · intro a' ha' id record hfound
        cases ha'
        rw [hempty] at hfound
        simp at hfound
      · intro r hr record hrecord
        cases hr
        obtain ⟨id, hfound⟩ := mem_values.1 hrecord
        simp at hfound
    · rw [hload]
      refine { hdraw with memory := ?_ }
      intro a' ha' id record hfound
      cases ha'
      obtain hold | ⟨hmem, hid⟩ := mem_of_loadRecords hrecords hfound
      · simp at hold
      · exact ⟨hid, hdraw.disk r hdisk record hmem⟩

end System

/-- **A permit is used once.**  In every run of calls and restarts, every successful `Consume` is
for the child and the key that the permit was issued for, within its validity window, and follows
no successful `Consume` or `Revoke` of the same permit. -/
theorem permits_single_use (crypto : PermitCrypto) (acts : List (Act crypto))
    (h : Along System.step System.Fresh (System.start crypto) acts) :
    Justified Allowed (acts.foldl System.step (System.start crypto)).log :=
  (foldl_along System.sound_step System.sound_start h).log

/-- Library functions that can be evaluated; the text of a message is the message itself. -/
def plainPermitCrypto : PermitCrypto where
  toCrypto := Enrollment.plainCrypto
  Message := String × ProvisioningPermitV1
  decidableEq := inferInstance
  marshalProvisioning := id
  marshalProvisioning_injective := Function.injective_id
  signMessage := fun _ _ => List.replicate 64 0
  verifyMessage := fun _ _ signature => signature = List.replicate 64 0

/-- A permit for node 2, as node 1 issues it one second after the epoch, for a minute. -/
def plainPermit : ProvisioningPermitV1 where
  version := 1
  permitID := hexEncode (List.replicate 16 7)
  parentNodeID := "1"
  childNodeID := "2"
  childPublicKey := Enrollment.charsOf (List.replicate 32 2)
  role := "child"
  issuedAtUnixMS := 1000
  expiresAtUnixMS := 61000
  maxUses := 1
  signature := Enrollment.charsOf (List.replicate 64 0)

/-- The permit is issued, consumed and, after a restart, presented again. -/
def plainActs : List (Act plainPermitCrypto) :=
  [.reload Enrollment.plainIdentity {} none none,
    .call (.issue 2 (List.replicate 32 2) "child" (60 * second) (.ok (List.replicate 16 7)))
      second none,
    .call (.consume 2 (List.replicate 32 2) plainPermit) (2 * second) none,
    .reload Enrollment.plainIdentity {} none none,
    .call (.consume 2 (List.replicate 32 2) plainPermit) (3 * second) none]

theorem permits_single_use_plain :
    (plainActs.foldl System.step (System.start plainPermitCrypto)).log =
        [.issued plainPermit 2 (List.replicate 32 2),
          .consumed plainPermit 2 (List.replicate 32 2) 2000] ∧
      Justified Allowed (plainActs.foldl System.step (System.start plainPermitCrypto)).log :=
  ⟨by decide +kernel, permits_single_use plainPermitCrypto plainActs (by decide +kernel)⟩

end Provisioning
