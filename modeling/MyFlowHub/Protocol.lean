/-
Identifiers, wire errors and field checks shared by the whole runtime.

A `NodeID` is Go's `uint64`, so every statement about it ranges over all 64-bit
values and the arithmetic on epochs wraps as Go's does.
-/
import MyFlowHub.Checks
import MyFlowHub.Encoding

/-- `protocol.NodeID`. -/
abbrev NodeID := UInt64

/-- `NodeID.Validate`: zero is not a node. -/
def NodeID.valid (id : NodeID) : Bool := id != 0

/-- `protocol.CapabilityID`. -/
abbrev CapabilityID := String

/-- `protocol.MessageID`, sixteen bytes. -/
abbrev MessageID := BitVec 128

instance : Std.TransOrd MessageID := inferInstanceAs (Std.TransOrd (BitVec 128))

/-- `protocol.ResourceID`. -/
structure ResourceID where
  owner : NodeID
  name : String
  deriving DecidableEq, Repr

/-- `protocol.ErrorCode`. -/
inductive ErrorCode where
  | malformed | unsupported | unauthenticated | forbidden | notFound | conflict
  | staleEpoch | expired | overflow | timeout | gone | gap | rateLimited | internal
  deriving DecidableEq, Repr

/-- `protocol.ErrorPayload`; `details` is the map as a list of its entries. -/
structure ErrorPayload where
  code : ErrorCode
  message : String
  retryable : Bool
  details : List (String × String)
  deriving DecidableEq, Repr

/-! ### Field checks (`protocol/payload.go`) -/

namespace Protocol

open Checks Encoding

def schemaVersionV1 : ℤ := 1
def maxIdentifierBytes : ℕ := 128
def maxLabelBytes : ℕ := 255

def validateVersion (version : ℤ) : Except String Unit :=
  require (version = schemaVersionV1) ("version must be " ++ toString schemaVersionV1)

def validateText (field value : String) (maxBytes : ℕ) (required : Bool) : Except String Unit := do
  require (¬(required = true ∧ value = "")) (field ++ " is required")
  require (value.utf8ByteSize ≤ maxBytes)
    (field ++ " must be valid UTF-8 with at most " ++ toString maxBytes ++ " bytes")

/-- `NodeID.Validate`, with its error. -/
def validateNodeID (id : NodeID) : Except String Unit :=
  require (id ≠ 0) "invalid envelope: node ID must be non-zero"

def validateNodeIDText (field value : String) : Except String Unit := do
  let text := field ++ " must be a canonical non-zero decimal NodeID"
  require (¬(value = "" ∨ value.toList.head? = some '+' ∨
    (1 < value.utf8ByteSize ∧ value.toList.head? = some '0'))) text
  match parseUint value with
  | some id => require (id ≠ 0) text
  | none => .error text

/-- Hexadecimal text of so many bytes, in lower case. -/
def isHexID (value : String) (size : ℕ) : Bool :=
  match hexDecode value with
  | some decoded => decoded.length == size && lowerCase value
  | none => false

def hexIDText (field : String) (size : ℕ) : String :=
  field ++ " must be " ++ toString size ++ " lowercase hexadecimal bytes"

/-- `protocol.validateHexID`, which looks at the length first. -/
def validateHexID (field value : String) (size : ℕ) : Except String Unit := do
  require (value.utf8ByteSize = size * 2) (hexIDText field size)
  require (isHexID value size = true) (hexIDText field size)

theorem isHexID_hexEncode {bs : Bytes} {size : ℕ} (h : bs.length = size) :
    isHexID (hexEncode bs) size = true := by
  rw [isHexID, hexDecode_hexEncode]
  simp [h, lowerCase_hexEncode]

end Protocol
