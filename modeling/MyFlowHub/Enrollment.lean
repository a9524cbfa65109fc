/-
Permits and grants of the enrollment protocol: their fields, their checks and their
signatures.

Hashing, signing, base64 and the JSON form of the signed messages are parameters
(`Crypto`), of which only the laws listed there are used: what is signed verifies, and
what is encoded decodes.
-/
import MyFlowHub.Protocol

open Checks Encoding Protocol

namespace Enrollment

/-! ### Permits and grants -/

/-- `auth.validateEnrollmentHexID`. -/
def validateEnrollmentHexID (field value : String) (size : ℕ) : Except String Unit :=
  require (isHexID value size = true) (hexIDText field size)

/-- `protocol.EnrollmentPermitV1`. -/
structure EnrollmentPermitV1 where
  version : ℤ
  permitID : String
  authorityNodeID : String
  authorityPublicKey : String
  devicePublicKeyFingerprint : String
  targetNodeID : String
  allowDescendants : Bool
  admissionProfile : String
  issuedAtUnixMS : ℤ
  expiresAtUnixMS : ℤ
  authorityEpoch : UInt64
  signature : String
  deriving DecidableEq, Repr

/-- `protocol.EnrollmentGrantV1`. -/
structure EnrollmentGrantV1 where
  version : ℤ
  enrollmentID : String
  authorityNodeID : String
  authorityPublicKey : String
  nodeID : String
  devicePublicKey : String
  parentNodeID : String
  parentPublicKey : String
  admissionProfile : String
  authorityEpoch : UInt64
  issuedAtUnixMS : ℤ
  signature : String
  deriving DecidableEq, Repr

/-- What is signed: the domain and the fields but the signature. -/
def EnrollmentPermitV1.unsigned (permit : EnrollmentPermitV1) : String × EnrollmentPermitV1 :=
  ("MFHE-PERMIT", { permit with signature := "" })

def EnrollmentGrantV1.unsigned (grant : EnrollmentGrantV1) : String × EnrollmentGrantV1 :=
  ("MFHE-GRANT", { grant with signature := "" })

/-- The library functions the authority calls. -/
structure Crypto where
  sha256 : Bytes → Bytes
  publicOf : Bytes → Bytes
  sign : Bytes → Bytes → Bytes
  verify : Bytes → Bytes → Bytes → Bool
  encode64 : Bytes → String
  decode64 : String → Option Bytes
  marshalPermit : String × EnrollmentPermitV1 → Bytes
  marshalGrant : String × EnrollmentGrantV1 → Bytes
  verify_sign : ∀ privateKey message,
    verify (publicOf privateKey) message (sign privateKey message) = true
  decode64_encode64 : ∀ bs, decode64 (encode64 bs) = some bs

variable (crypto : Crypto)

def publicKeySize : ℕ := 32
def privateKeySize : ℕ := 64
def signatureSize : ℕ := 64

def validateRawBase64 (field value : String) (expectedBytes : ℕ) (required : Bool) :
    Except String Unit :=
  require ((value = "" ∧ required = false) ∨
      (crypto.decode64 value).map List.length = some expectedBytes)
    (field ++ " must be a raw-base64 value containing " ++ toString expectedBytes ++ " bytes")

def validateEd25519PublicKey (field value : String) (required : Bool) : Except String Unit :=
  validateRawBase64 crypto field value publicKeySize required

def EnrollmentPermitV1.validate (permit : EnrollmentPermitV1) : Except String Unit := do
  validateVersion permit.version
  validateHexID "permit_id" permit.permitID 16
  validateNodeIDText "authority_node_id" permit.authorityNodeID
  validateEd25519PublicKey crypto "authority_public_key" permit.authorityPublicKey true
  validateHexID "device_public_key_fingerprint" permit.devicePublicKeyFingerprint 32
  validateNodeIDText "target_node_id" permit.targetNodeID
  validateText "admission_profile" permit.admissionProfile maxIdentifierBytes true
  require (¬(permit.issuedAtUnixMS ≤ 0 ∨ permit.expiresAtUnixMS ≤ permit.issuedAtUnixMS))
    "permit time range is invalid"
  require (permit.authorityEpoch ≠ 0) "authority_epoch must be non-zero"
  validateRawBase64 crypto "signature" permit.signature signatureSize true

def EnrollmentGrantV1.validate (grant : EnrollmentGrantV1) : Except String Unit := do
  validateVersion grant.version
  validateHexID "enrollment_id" grant.enrollmentID 16
  validateNodeIDText "authority_node_id" grant.authorityNodeID
  validateEd25519PublicKey crypto "authority_public_key" grant.authorityPublicKey true
  validateNodeIDText "node_id" grant.nodeID
  validateEd25519PublicKey crypto "device_public_key" grant.devicePublicKey true
  validateNodeIDText "parent_node_id" grant.parentNodeID
  validateEd25519PublicKey crypto "parent_public_key" grant.parentPublicKey true
  validateText "admission_profile" grant.admissionProfile maxIdentifierBytes true
  require (¬(grant.authorityEpoch = 0 ∨ grant.issuedAtUnixMS ≤ 0))
    "grant authority_epoch and issued_at_unix_ms must be positive"
  validateRawBase64 crypto "signature" grant.signature signatureSize true

theorem EnrollmentGrantV1.profile_of_validate {grant : EnrollmentGrantV1}
    (h : grant.validate crypto = .ok ()) :
    grant.admissionProfile ≠ "" ∧ grant.admissionProfile.utf8ByteSize ≤ maxIdentifierBytes := by
  simp only [EnrollmentGrantV1.validate, validateText, bind_eq_ok, require_eq_ok] at h
  grind

/-! ### Identities and signatures -/

/-- An identity that passed `Identity.Validate`. -/
structure Identity where
  nodeID : NodeID
  publicKey : Bytes
  privateKey : Bytes
  nodeID_ne : nodeID ≠ 0
  publicKey_length : publicKey.length = publicKeySize
  privateKey_length : privateKey.length = privateKeySize
  publicOf_privateKey : crypto.publicOf privateKey = publicKey

variable {crypto} in
def EnrollmentPermitV1.signed (identity : Identity crypto) (permit : EnrollmentPermitV1) :
    EnrollmentPermitV1 :=
  { permit with
    signature := crypto.encode64
      (crypto.sign identity.privateKey (crypto.marshalPermit permit.unsigned)) }

variable {crypto} in
def EnrollmentGrantV1.signed (identity : Identity crypto) (grant : EnrollmentGrantV1) :
    EnrollmentGrantV1 :=
  { grant with
    signature := crypto.encode64
      (crypto.sign identity.privateKey (crypto.marshalGrant grant.unsigned)) }

def verifyEnrollmentPermit (publicKey : Bytes) (permit : EnrollmentPermitV1) :
    Except String Unit := do
  require (publicKey.length = publicKeySize) "authority public key must be Ed25519"
  match permit.validate crypto with
  | .error text => .error ("invalid enrollment permit: " ++ text)
  | .ok () =>
    require (permit.authorityPublicKey = crypto.encode64 publicKey)
      "enrollment permit authority key does not match verifier"
    require (crypto.verify publicKey (crypto.marshalPermit permit.unsigned)
        ((crypto.decode64 permit.signature).getD []) = true)
      "invalid enrollment permit signature"

def verifyEnrollmentGrant (publicKey : Bytes) (grant : EnrollmentGrantV1) :
    Except String Unit := do
  require (publicKey.length = publicKeySize) "authority public key must be Ed25519"
  match grant.validate crypto with
  | .error text => .error ("invalid enrollment grant: " ++ text)
  | .ok () =>
    require (grant.authorityPublicKey = crypto.encode64 publicKey)
      "enrollment grant authority key does not match verifier"
    require (crypto.verify publicKey (crypto.marshalGrant grant.unsigned)
        ((crypto.decode64 grant.signature).getD []) = true)
      "invalid enrollment grant signature"

theorem Identity.verify_signature (identity : Identity crypto) (message : Bytes) :
    crypto.verify identity.publicKey message ((crypto.decode64 (crypto.encode64
      (crypto.sign identity.privateKey message))).getD []) = true := by
  rw [crypto.decode64_encode64, ← identity.publicOf_privateKey]
  exact crypto.verify_sign identity.privateKey message

theorem verifyEnrollmentPermit_signed (identity : Identity crypto) {permit : EnrollmentPermitV1}
    (hkey : permit.authorityPublicKey = crypto.encode64 identity.publicKey)
    (hvalid : (permit.signed identity).validate crypto = .ok ()) :
    verifyEnrollmentPermit crypto identity.publicKey (permit.signed identity) = .ok () := by
  simp only [verifyEnrollmentPermit, hvalid, bind_eq_ok, require_eq_ok]
  exact ⟨(), identity.publicKey_length, (), hkey, identity.verify_signature _ _⟩

theorem verifyEnrollmentGrant_signed (identity : Identity crypto) {grant : EnrollmentGrantV1}
    (hkey : grant.authorityPublicKey = crypto.encode64 identity.publicKey)
    (hvalid : (grant.signed identity).validate crypto = .ok ()) :
    verifyEnrollmentGrant crypto identity.publicKey (grant.signed identity) = .ok () := by
  simp only [verifyEnrollmentGrant, hvalid, bind_eq_ok, require_eq_ok]
  exact ⟨(), identity.publicKey_length, (), hkey, identity.verify_signature _ _⟩

def devicePublicKeyFingerprint (publicKey : Bytes) : String := hexEncode (crypto.sha256 publicKey)

def sameEnrollmentPermit (left right : EnrollmentPermitV1) : Bool :=
  crypto.marshalPermit left.unsigned == crypto.marshalPermit right.unsigned &&
    left.signature == right.signature

def parseEnrollmentNodeID (value : String) : Option NodeID :=
  match parseUint value with
  | some id => if id = 0 then none else some id
  | none => none

theorem parseEnrollmentNodeID_formatUint {id : NodeID} (h : id ≠ 0) :
    parseEnrollmentNodeID (formatUint id) = some id := by
  rw [parseEnrollmentNodeID, parseUint_formatUint]
  exact if_neg h

end Enrollment
