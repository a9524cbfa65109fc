/-
The wire codec (`protocol/codec.go`, `protocol/types.go`).

A frame is a header of 98 bytes, which holds the numbers and the lengths, and a body with
the texts and the payload.  `Validate` runs before a frame is written and after one is read.
Go strings are sequences of bytes, so `RawEnvelope` has bytes where `Envelope` has text.

The bytes go through an `io.Writer` or come from an `io.Reader` that may take or give fewer
than asked for.  Which call moves how many bytes is a schedule; the statements are about
every schedule that makes progress and reports no error.

* `readFull_of_le`, `writeAll_of_progress` — schedules do not matter;
* `codec_exact` — what is encoded is decoded again and nothing else is read, what is decoded
  has one encoding, and nothing is read after a length that exceeds its limit.

`int` has 64 bits.
-/
import MyFlowHub.Encoding
import MyFlowHub.Handlers

open Encoding List

namespace Codec

/-! ### Envelopes -/

/-- `protocol.Envelope`; texts are their bytes. -/
structure RawEnvelope where
  version : UInt16
  phase : UInt8
  operation : UInt8
  messageID : MessageID
  correlationID : MessageID
  source : NodeID
  principal : NodeID
  target : NodeID
  /-- `Resource.Owner` and `Resource.Name`. -/
  owner : NodeID
  name : List UInt8
  topologyEpoch : UInt64
  deadlineUnixMS : Int64
  contentType : List UInt8
  schema : List UInt8
  capability : List UInt8
  payload : List UInt8
  deriving DecidableEq

def currentVersion : UInt16 := 2

def defaultMaxPayload : ℤ := 2 ^ 20

def maxResourceNameBytes : ℕ := 255

def maxCapabilityBytes : ℕ := 128

def maxContentTypeBytes : ℕ := 127

def maxSchemaBytes : ℕ := 255

/-- What `Validate` takes from package `unicode`. -/
structure Unicode extends Platform where
  /-- `unicode.IsControl` or `unicode.IsSpace` -/
  isControlOrSpace : Char → Bool

def text? (bs : List UInt8) : Option String := String.fromUTF8? ⟨bs.toArray⟩

def phaseOf (code : UInt8) : Option Phase :=
  if code = 0 then none else [Phase.request, .control, .response, .event][code.toNat - 1]?

def operationOf (code : UInt8) : Option Operation :=
  if code = 0 then none
  else [Operation.join, .joinAck, .routeAnnounce, .routeWithdraw, .subscribe, .unsubscribe,
    .subscribeAck, .resourceEvent, .resourceGap, .operate, .operateResult, .sessionOpen,
    .sessionOpenResult, .sessionData, .sessionClose, .error, .heartbeat][code.toNat - 1]?

/-- `Operation.RequiresResource`. -/
def requiresResource (code : UInt8) : Bool := 5 ≤ code ∧ code ≤ 15

/-- `Operation.RequiresCorrelation`. -/
def requiresCorrelation : Operation → Bool
  | .joinAck | .subscribeAck | .resourceEvent | .resourceGap | .operateResult
  | .sessionOpenResult | .sessionData | .sessionClose | .error => true
  | _ => false

namespace RawEnvelope

variable (u : Unicode)

/-- `ResourceID.Validate`. -/
def validateResource (owner : NodeID) (name : List UInt8) : Option String :=
  if owner = 0 then some "resource owner: invalid envelope: node ID must be non-zero"
  else
    match text? name with
    | none =>
      some "invalid envelope: resource name must be valid UTF-8 between 1 and 255 bytes"
    | some text =>
      if name = [] ∨ name.length > maxResourceNameBytes then
        some "invalid envelope: resource name must be valid UTF-8 between 1 and 255 bytes"
      else if name.head? = some 0x2f ∨ name.getLast? = some 0x2f ∨ [0x2f, 0x2f] <:+: name then
        some "invalid envelope: resource name must contain non-empty relative segments"
      else if (name.splitOn 0x2f).any fun segment =>
          segment = [0x2e] ∨ segment = [0x2e, 0x2e] then
        some "invalid envelope: resource name cannot contain dot segments"
      else if text.toList.any u.isControlOrSpace then
        some "invalid envelope: resource name cannot contain whitespace or control characters"
      else none

/-- `CapabilityID.Validate`. -/
def validateCapability (capability : List UInt8) : Option String :=
  match text? capability with
  | none => some "capability must be valid UTF-8 with at most 128 bytes"
  | some text => Auth.validateExtensibleIdentifier u.toPlatform "capability" text

/-- The rules for operations with a resource, and for the others. -/
def validateResourceOf (e : RawEnvelope) : Option String :=
  if requiresResource e.operation then validateResource u e.owner e.name
  else if e.owner ≠ 0 ∨ e.name ≠ [] then
    some s!"invalid envelope: operation {e.operation} must not carry a resource"
  else none

def validateCapabilityOf (e : RawEnvelope) : Option String :=
  if requiresResource e.operation then
    (validateCapability u e.capability).map fun err => s!"invalid envelope: {err}"
  else if e.capability ≠ [] then
    some s!"invalid envelope: operation {e.operation} must not carry a capability"
  else none

/-- `Envelope.Validate`; `none` is acceptance. -/
def validate (maxPayload : ℤ) (e : RawEnvelope) : Option String :=
  if e.version ≠ currentVersion then
    some s!"invalid envelope: unsupported version {e.version}"
  else
    match phaseOf e.phase, operationOf e.operation with
    | some phase, some operation =>
      if Routing.phaseAllows phase operation = false then
        some s!"invalid envelope: phase {e.phase} does not allow operation {e.operation}"
      else if e.messageID = 0 then some "invalid envelope: message ID is required"
      else if e.source = 0 then some "source: invalid envelope: node ID must be non-zero"
      else if e.target = 0 then some "target: invalid envelope: node ID must be non-zero"
      else
        match validateResourceOf u e with
        | some err => some err
        | none =>
          if requiresCorrelation operation ∧ e.correlationID = 0 then
            some "invalid envelope: correlation ID is required"
          else if e.deadlineUnixMS < 0 then some "invalid envelope: deadline cannot be negative"
          else if e.contentType.length > maxContentTypeBytes ∨ e.schema.length > maxSchemaBytes ∨
              e.capability.length > maxCapabilityBytes then
            some "invalid envelope: content type, schema, or capability metadata is too long"
          else
            match validateCapabilityOf u e with
            | some err => some err
            | none =>
              let limit := if maxPayload ≤ 0 then defaultMaxPayload else maxPayload
              if (e.payload.length : ℤ) > limit then
                some s!"payload exceeds configured limit: got {e.payload.length}, max {limit}"
              else none
    | _, _ => some s!"invalid envelope: unknown phase {e.phase} or operation {e.operation}"

end RawEnvelope

/-! ### Streams -/

/-- How many bytes a call of `Read` gives, and the error it reports; by the number of the
call, the size of the buffer and the bytes there are. -/
abbrev ReadSchedule := ℕ → ℕ → ℕ → ℕ × Option String

/-- How many bytes a call of `Write` takes, and the error it reports; by the number of the
call and the bytes it is given. -/
abbrev WriteSchedule := ℕ → ℕ → ℤ × Option String

/-- Every call moves something, within its bounds, and reports no error. -/
def ReadSchedule.Progress (s : ReadSchedule) : Prop :=
  ∀ call size available, 0 < size → 0 < available →
    0 < (s call size available).1 ∧ (s call size available).1 ≤ size ∧
      (s call size available).1 ≤ available ∧ (s call size available).2 = none

@[inherit_doc ReadSchedule.Progress]
def WriteSchedule.Progress (s : WriteSchedule) : Prop :=
  ∀ call size, 0 < size →
    0 < (s call size).1 ∧ (s call size).1 ≤ size ∧ (s call size).2 = none

structure Reader where
  unread : List UInt8
  calls : ℕ := 0

structure Writer where
  written : List UInt8 := []
  calls : ℕ := 0

/-- One call of `Read`. -/
def Reader.read (s : ReadSchedule) (r : Reader) (size : ℕ) :
    List UInt8 × Option String × Reader :=
  if r.unread = [] then ([], some "EOF", ⟨[], r.calls + 1⟩)
  else
    let (count, err) := s r.calls size r.unread.length
    (r.unread.take count, err, ⟨r.unread.drop count, r.calls + 1⟩)

/-- The loop of `io.ReadAtLeast`.  A schedule that makes progress never uses up the fuel
`want`; one that stalls for longer is not modelled. -/
def readLoop (s : ReadSchedule) : ℕ → ℕ → List UInt8 → Reader → Except String (List UInt8) × Reader
  | _, 0, got, r => (.ok got, r)
  | 0, _ + 1, _, r => (.error "stalled", r)
  | fuel + 1, want + 1, got, r =>
    let (bytes, err, r') := r.read s (want + 1)
    if want + 1 ≤ bytes.length then (.ok (got ++ bytes), r')
    else
      match err with
      | some err =>
        (.error (if err = "EOF" ∧ got ++ bytes ≠ [] then "unexpected EOF" else err), r')
      | none => readLoop s fuel (want + 1 - bytes.length) (got ++ bytes) r'

/-- `io.ReadFull`. -/
def readFull (s : ReadSchedule) (size : ℕ) (r : Reader) : Except String (List UInt8) × Reader :=
  readLoop s size size [] r

/-- The loop of `writeAll`: what is left gets shorter in every round that goes on. -/
def writeLoop (s : WriteSchedule) : ℕ → List UInt8 → Writer → Except String Unit × Writer
  | _, [], w => (.ok (), w)
  | 0, _ :: _, w => (.error "stalled", w)
  | fuel + 1, data@(_ :: _), w =>
    let (written, err) := s w.calls data.length
    if written < 0 ∨ written > data.length then
      (.error "invalid writer count", ⟨w.written, w.calls + 1⟩)
    else
      let w' : Writer := ⟨w.written ++ data.take written.toNat, w.calls + 1⟩
      match err with
      | some err => (.error err, w')
      | none =>
        if written = 0 then (.error "multiple Read calls return no data or error", w')
        else writeLoop s fuel (data.drop written.toNat) w'

/-- `writeAll`. -/
def writeAll (s : WriteSchedule) (data : List UInt8) (w : Writer) : Except String Unit × Writer :=
  writeLoop s data.length data w

/-! ### The codec -/

def fixedHeaderSize : ℕ := 98

/-- `FrameMagic`. -/
def frameMagic : List UInt8 := [0x4d, 0x46, 0x48, 0x34]

/-- `Codec.payloadLimit`. -/
def payloadLimit (maxPayload : ℤ) : ℤ := if maxPayload ≤ 0 then defaultMaxPayload else maxPayload

def headerOf (e : RawEnvelope) : List UInt8 :=
  frameMagic ++ (bigEndian 2 e.version.toNat ++ ([e.phase] ++ ([e.operation] ++
    ([UInt8.ofNat e.contentType.length] ++ ([UInt8.ofNat e.schema.length] ++
    (bigEndian 2 e.capability.length ++ (bigEndian 2 e.name.length ++
    (bigEndian 4 e.payload.length ++ (bigEndian 8 e.source.toNat ++
    (bigEndian 8 e.principal.toNat ++ (bigEndian 8 e.target.toNat ++
    (bigEndian 8 e.topologyEpoch.toNat ++ (bigEndian 8 e.deadlineUnixMS.toUInt64.toNat ++
    (bigEndian 16 e.messageID.toNat ++ (bigEndian 16 e.correlationID.toNat ++
    bigEndian 8 e.owner.toNat)))))))))))))))

def bodyOf (e : RawEnvelope) : List UInt8 :=
  e.contentType ++ (e.schema ++ (e.capability ++ (e.name ++ e.payload)))

/-- `Codec.Encode`. -/
def encode (u : Unicode) (maxPayload : ℤ) (s : WriteSchedule) (e : RawEnvelope) (w : Writer) :
    Except String Unit × Writer :=
  match e.validate u (payloadLimit maxPayload) with
  | some err => (.error s!"encode frame: {err}", w)
  | none =>
    let metadataSize := fixedHeaderSize + e.contentType.length + e.schema.length +
      e.capability.length + e.name.length
    if e.payload.length > 2 ^ 32 - 1 then
      (.error "encode frame: payload exceeds configured limit: wire length exceeds uint32", w)
    else if (e.payload.length : ℤ) > 2 ^ 63 - 1 - metadataSize then
      (.error "encode frame: payload exceeds configured limit: frame exceeds platform length", w)
    else
      match writeAll s (headerOf e ++ bodyOf e) w with
      | (.error err, w') => (.error s!"encode frame: {err}", w')
      | (.ok _, w') => (.ok (), w')

def contentLen (header : List UInt8) : ℕ := (header.getD 8 0).toNat

def schemaLen (header : List UInt8) : ℕ := (header.getD 9 0).toNat

def capabilityLen (header : List UInt8) : ℕ := bigEndianValue (slice header 10 12)

def nameLen (header : List UInt8) : ℕ := bigEndianValue (slice header 12 14)

def payloadLength (header : List UInt8) : ℕ := bigEndianValue (slice header 14 18)

/-- The envelope of a header and the parts that `take` cuts from the body. -/
def assemble (header body : List UInt8) : RawEnvelope :=
  let afterContent := contentLen header
  let afterSchema := afterContent + schemaLen header
  let afterCapability := afterSchema + capabilityLen header
  let afterName := afterCapability + nameLen header
  { version := UInt16.ofNat (bigEndianValue (slice header 4 6))
    phase := header.getD 6 0
    operation := header.getD 7 0
    source := UInt64.ofNat (bigEndianValue (slice header 18 26))
    principal := UInt64.ofNat (bigEndianValue (slice header 26 34))
    target := UInt64.ofNat (bigEndianValue (slice header 34 42))
    topologyEpoch := UInt64.ofNat (bigEndianValue (slice header 42 50))
    deadlineUnixMS := (UInt64.ofNat (bigEndianValue (slice header 50 58))).toInt64
    messageID := BitVec.ofNat 128 (bigEndianValue (slice header 58 74))
    correlationID := BitVec.ofNat 128 (bigEndianValue (slice header 74 90))
    owner := UInt64.ofNat (bigEndianValue (slice header 90 98))
    contentType := slice body 0 afterContent
    schema := slice body afterContent afterSchema
    capability := slice body afterSchema afterCapability
    name := slice body afterCapability afterName
    payload := slice body afterName (afterName + payloadLength header) }

/-- `Codec.Decode`. -/
def decode (u : Unicode) (maxPayload : ℤ) (s : ReadSchedule) (r : Reader) :
    Except String RawEnvelope × Reader :=
  match readFull s fixedHeaderSize r with
  | (.error err, r) => (.error s!"decode frame header: {err}", r)
  | (.ok header, r) =>
    if slice header 0 4 ≠ frameMagic then (.error "decode frame: invalid magic", r)
    else if contentLen header > maxContentTypeBytes ∨ schemaLen header > maxSchemaBytes ∨
        capabilityLen header > maxCapabilityBytes ∨ nameLen header > maxResourceNameBytes then
      (.error "decode frame: metadata exceeds protocol limit", r)
    else if (payloadLength header : ℤ) > payloadLimit maxPayload then
      (.error (s!"decode frame: payload exceeds configured limit: got {payloadLength header}, " ++
        s!"max {payloadLimit maxPayload}"), r)
    else
      match readFull s (contentLen header + schemaLen header + capabilityLen header +
          nameLen header + payloadLength header) r with
      | (.error err, r) => (.error s!"decode frame body: {err}", r)
      | (.ok body, r) =>
        match (assemble header body).validate u (payloadLimit maxPayload) with
        | some err => (.error s!"decode frame: {err}", r)
        | none => (.ok (assemble header body), r)

/-! ### Schedules do not matter -/

section Schedules

variable {s : ReadSchedule} {r : Reader} {fuel : ℕ}

section

variable (hs : s.Progress)
include hs

theorem ReadSchedule.Progress.read {size : ℕ} (hsize : 0 < size) (hunread : r.unread ≠ []) :
    ∃ count, 0 < count ∧ count ≤ size ∧ count ≤ r.unread.length ∧
      r.read s size = (r.unread.take count, none, ⟨r.unread.drop count, r.calls + 1⟩) := by
  obtain ⟨hpos, hle, havailable, herr⟩ :=
    hs r.calls size r.unread.length hsize (length_pos_of_ne_nil hunread)
  refine ⟨_, hpos, hle, havailable, ?_⟩
  rw [Reader.read, if_neg hunread, ← herr]

theorem readLoop_of_le {want : ℕ} (hfuel : want ≤ fuel) (got : List UInt8)
    (hwant : want ≤ r.unread.length) :
    ∃ calls, readLoop s fuel want got r =
      (.ok (got ++ r.unread.take want), ⟨r.unread.drop want, calls⟩) := by
  induction fuel generalizing want got r with
  | zero =>
    obtain rfl : want = 0 := by omega
    refine ⟨r.calls, ?_⟩
    rw [readLoop, take_zero, append_nil, drop_zero]
  | succ fuel ih =>
    cases want with
    | zero =>
      refine ⟨r.calls, ?_⟩
      rw [readLoop, take_zero, append_nil, drop_zero]
    | succ want =>
      have hunread : r.unread ≠ [] := by
        rintro hnil
        rw [hnil] at hwant
        simp at hwant
      obtain ⟨count, hpos, hle, hcount, hread⟩ := hs.read (Nat.succ_pos want) hunread
      have hlength : (r.unread.take count).length = count := by
        rw [length_take]
        omega
      rw [readLoop, hread]
      dsimp only
      by_cases hdone : want + 1 ≤ (r.unread.take count).length
      · -- the last call gave all that was missing
        obtain rfl : count = want + 1 := by omega
        rw [if_pos hdone]
        exact ⟨r.calls + 1, rfl⟩
      · rw [if_neg hdone, hlength]
        have hleft : want + 1 - count ≤ (r.unread.drop count).length := by
          rw [length_drop]
          omega
        obtain ⟨calls, hcalls⟩ := ih (show want + 1 - count ≤ fuel by omega)
          (got ++ r.unread.take count) (r := ⟨r.unread.drop count, r.calls + 1⟩) hleft
        refine ⟨calls, hcalls.trans ?_⟩
        have hsum : want + 1 = count + (want + 1 - count) := by omega
        rw [drop_drop, append_assoc]
        conv_rhs => rw [hsum, take_add]

theorem readLoop_of_lt {want : ℕ} (hfuel : want ≤ fuel) (got : List UInt8)
    (hwant : r.unread.length < want) : ∃ err r', readLoop s fuel want got r = (.error err, r') := by
  induction fuel generalizing want got r with
  | zero => omega
  | succ fuel ih =>
    obtain ⟨want, rfl⟩ : ∃ w, want = w + 1 := ⟨want - 1, by omega⟩
    by_cases hunread : r.unread = []
    · rw [readLoop, Reader.read, if_pos hunread]
      simp
    · obtain ⟨count, hpos, hle, hcount, hread⟩ := hs.read (Nat.succ_pos want) hunread
      have hlength : (r.unread.take count).length = count := by
        rw [length_take]
        omega
      rw [readLoop, hread]
      dsimp only
      rw [if_neg (by omega), hlength]
      refine ih (by omega) (got ++ r.unread.take count) ?_
      rw [length_drop]
      omega

theorem readFull_of_le (size : ℕ) (h : size ≤ r.unread.length) :
    ∃ calls, readFull s size r = (.ok (r.unread.take size), ⟨r.unread.drop size, calls⟩) := by
  obtain ⟨calls, hcalls⟩ := readLoop_of_le hs le_rfl [] h
  exact ⟨calls, hcalls⟩

theorem readFull_eq_ok {size : ℕ} {r' : Reader} {bytes : List UInt8}
    (h : readFull s size r = (.ok bytes, r')) :
    bytes.length = size ∧ r.unread = bytes ++ r'.unread := by
  by_cases hsize : size ≤ r.unread.length
  · obtain ⟨calls, hcalls⟩ := readFull_of_le hs size hsize
    rw [hcalls] at h
    cases h
    refine ⟨?_, (take_append_drop size r.unread).symm⟩
    rw [length_take]
    omega
  · obtain ⟨err, r'', herr⟩ := readLoop_of_lt hs le_rfl [] (not_le.mp hsize)
    rw [readFull, herr] at h
    cases h

end

variable {s : WriteSchedule}

theorem writeLoop_of_progress (hs : s.Progress) {data : List UInt8}
    (hfuel : data.length ≤ fuel) (w : Writer) :
    ∃ calls, writeLoop s fuel data w = (.ok (), ⟨w.written ++ data, calls⟩) := by
  induction fuel generalizing data w with
  | zero =>
    obtain rfl : data = [] := length_eq_zero_iff.mp (by omega)
    refine ⟨w.calls, ?_⟩
    rw [writeLoop, append_nil]
  | succ fuel ih =>
    cases data with
    | nil =>
      refine ⟨w.calls, ?_⟩
      rw [writeLoop, append_nil]
    | cons b bs =>
      obtain ⟨hpos, hle, herr⟩ := hs w.calls (b :: bs).length (by simp)
      rw [writeLoop]
      generalize s w.calls (b :: bs).length = answer at hpos hle herr
      obtain ⟨count, err⟩ := answer
      dsimp only at hpos hle herr ⊢
      subst herr
      rw [if_neg (by omega), if_neg (by omega)]
      have hshorter : ((b :: bs).drop count.toNat).length ≤ fuel := by
        rw [length_drop]
        omega
      obtain ⟨calls, hcalls⟩ := ih hshorter
        ⟨w.written ++ (b :: bs).take count.toNat, w.calls + 1⟩
      refine ⟨calls, hcalls.trans ?_⟩
      rw [append_assoc, take_append_drop]

theorem writeAll_of_progress (hs : s.Progress) (data : List UInt8)
    (w : Writer) : ∃ calls, writeAll s data w = (.ok (), ⟨w.written ++ data, calls⟩) :=
  writeLoop_of_progress hs le_rfl w

end Schedules

/-! ### Headers and bodies -/

section Layout

section

variable (e : RawEnvelope)

theorem length_headerOf : (headerOf e).length = fixedHeaderSize := by
  simp [headerOf, frameMagic, fixedHeaderSize]

theorem length_bodyOf : (bodyOf e).length =
    e.contentType.length + e.schema.length + e.capability.length + e.name.length +
      e.payload.length := by
  simp only [bodyOf, length_append]
  omega

theorem length_frameMagic : frameMagic.length = 4 := rfl

theorem slice_word (width n : ℕ) : slice (bigEndian width n) 0 width = bigEndian width n := by
  have h := slice_zero_length (bigEndian width n)
  rwa [length_bigEndian] at h

theorem slice_headerOf :
    slice (headerOf e) 0 4 = frameMagic ∧
    slice (headerOf e) 4 6 = bigEndian 2 e.version.toNat ∧
    slice (headerOf e) 10 12 = bigEndian 2 e.capability.length ∧
    slice (headerOf e) 12 14 = bigEndian 2 e.name.length ∧
    slice (headerOf e) 14 18 = bigEndian 4 e.payload.length ∧
    slice (headerOf e) 18 26 = bigEndian 8 e.source.toNat ∧
    slice (headerOf e) 26 34 = bigEndian 8 e.principal.toNat ∧
    slice (headerOf e) 34 42 = bigEndian 8 e.target.toNat ∧
    slice (headerOf e) 42 50 = bigEndian 8 e.topologyEpoch.toNat ∧
    slice (headerOf e) 50 58 = bigEndian 8 e.deadlineUnixMS.toUInt64.toNat ∧
    slice (headerOf e) 58 74 = bigEndian 16 e.messageID.toNat ∧
    slice (headerOf e) 74 90 = bigEndian 16 e.correlationID.toNat ∧
    slice (headerOf e) 90 98 = bigEndian 8 e.owner.toNat := by
  refine ⟨?_, ?_, ?_, ?_, ?_, ?_, ?_, ?_, ?_, ?_, ?_, ?_, ?_⟩
  all_goals
    simp (disch := simp [frameMagic]) only [headerOf, slice_append_right, slice_append_left,
      slice_word, length_frameMagic, length_bigEndian, length_singleton, Nat.reduceSub]

theorem getD_headerOf :
    (headerOf e).getD 6 0 = e.phase ∧ (headerOf e).getD 7 0 = e.operation ∧
    (headerOf e).getD 8 0 = UInt8.ofNat e.contentType.length ∧
    (headerOf e).getD 9 0 = UInt8.ofNat e.schema.length := by
  refine ⟨?_, ?_, ?_, ?_⟩
  all_goals
    simp (disch := simp [frameMagic]) only [headerOf, getD_append_right, length_frameMagic,
      cons_append, nil_append, getD_cons_zero, getD_cons_succ,
      length_bigEndian, Nat.reduceSub, Nat.sub_self]

end

/-- The lengths fit into the fields of the header. -/
structure Fits (e : RawEnvelope) : Prop where
  contentType : e.contentType.length ≤ maxContentTypeBytes
  schema : e.schema.length ≤ maxSchemaBytes
  capability : e.capability.length ≤ maxCapabilityBytes
  name : e.name.length ≤ maxResourceNameBytes
  payload : e.payload.length < 2 ^ 32

theorem declared_headerOf {e : RawEnvelope} (h : Fits e) :
    contentLen (headerOf e) = e.contentType.length ∧ schemaLen (headerOf e) = e.schema.length ∧
    capabilityLen (headerOf e) = e.capability.length ∧ nameLen (headerOf e) = e.name.length ∧
    payloadLength (headerOf e) = e.payload.length := by
  obtain ⟨hcontent, hschema, hcapability, hname, hpayload⟩ := h
  unfold maxContentTypeBytes at hcontent
  unfold maxSchemaBytes at hschema
  unfold maxCapabilityBytes at hcapability
  unfold maxResourceNameBytes at hname
  obtain ⟨-, -, hcapabilityWord, hnameWord, hpayloadWord, -⟩ := slice_headerOf e
  obtain ⟨-, -, hcontentByte, hschemaByte⟩ := getD_headerOf e
  refine ⟨?_, ?_, ?_, ?_, ?_⟩
  · rw [contentLen, hcontentByte, UInt8.toNat_ofNat']
    omega
  · rw [schemaLen, hschemaByte, UInt8.toNat_ofNat']
    omega
  · rw [capabilityLen, hcapabilityWord, bigEndianValue_bigEndian (by omega)]
  · rw [nameLen, hnameWord, bigEndianValue_bigEndian (by omega)]
  · rw [payloadLength, hpayloadWord, bigEndianValue_bigEndian (by omega)]

theorem word16 (x : UInt16) : UInt16.ofNat (bigEndianValue (bigEndian 2 x.toNat)) = x := by
  rw [bigEndianValue_bigEndian x.toNat_lt, UInt16.ofNat_toNat]

theorem word64 (x : UInt64) : UInt64.ofNat (bigEndianValue (bigEndian 8 x.toNat)) = x := by
  rw [bigEndianValue_bigEndian x.toNat_lt, UInt64.ofNat_toNat]

theorem word128 (x : MessageID) :
    BitVec.ofNat 128 (bigEndianValue (bigEndian 16 x.toNat)) = x := by
  have hx : x.toNat < 256 ^ 16 := x.isLt
  rw [bigEndianValue_bigEndian hx, BitVec.ofNat_toNat, BitVec.setWidth_eq]

/-- **What is written is what is put together again.** -/
theorem assemble_frame {e : RawEnvelope} (h : Fits e) :
    assemble (headerOf e) (bodyOf e) = e := by
  obtain ⟨hcontent, hschema, hcapability, hname, hpayload⟩ := declared_headerOf h
  obtain ⟨-, hversion, -, -, -, hsource, hprincipal, htarget, hepoch, hdeadline, hmessage,
    hcorrelation, howner⟩ := slice_headerOf e
  obtain ⟨hphase, hoperation, -, -⟩ := getD_headerOf e
  unfold assemble
  rw [hcontent, hschema, hcapability, hname, hpayload, hversion, hsource, hprincipal, htarget,
    hepoch, hdeadline, hmessage, hcorrelation, howner, hphase, hoperation]
  simp only [word16, word64, word128, Int64.toInt64_toUInt64]
  -- the parts of the body, one after the other
  have hparts : slice (bodyOf e) 0 e.contentType.length = e.contentType ∧
      slice (bodyOf e) e.contentType.length (e.contentType.length + e.schema.length) =
        e.schema ∧
      slice (bodyOf e) (e.contentType.length + e.schema.length)
        (e.contentType.length + e.schema.length + e.capability.length) = e.capability ∧
      slice (bodyOf e) (e.contentType.length + e.schema.length + e.capability.length)
        (e.contentType.length + e.schema.length + e.capability.length + e.name.length) =
          e.name ∧
      slice (bodyOf e)
        (e.contentType.length + e.schema.length + e.capability.length + e.name.length)
        (e.contentType.length + e.schema.length + e.capability.length + e.name.length +
          e.payload.length) = e.payload := by
    refine ⟨slice_append_left _ rfl, ?_, ?_, ?_, ?_⟩
    · exact slice_middle rfl rfl
    · rw [bodyOf, ← append_assoc]
      exact slice_middle (by simp) rfl
    · rw [bodyOf, ← append_assoc, ← append_assoc]
      exact slice_middle (by simp; omega) rfl
    · have hwhole : bodyOf e =
          (e.contentType ++ e.schema ++ e.capability ++ e.name) ++ (e.payload ++ []) := by
        simp [bodyOf]
      rw [hwhole]
      exact slice_middle (by simp; omega) rfl
  obtain ⟨h₁, h₂, h₃, h₄, h₅⟩ := hparts
  rw [h₁, h₂, h₃, h₄, h₅]

variable {body header : List UInt8} {i j : ℕ}

theorem length_assemble
    (hbody : body.length = contentLen header + schemaLen header + capabilityLen header +
      nameLen header + payloadLength header) :
    (assemble header body).contentType.length = contentLen header ∧
    (assemble header body).schema.length = schemaLen header ∧
    (assemble header body).capability.length = capabilityLen header ∧
    (assemble header body).name.length = nameLen header ∧
    (assemble header body).payload.length = payloadLength header := by
  refine ⟨?_, ?_, ?_, ?_, ?_⟩
  all_goals
    simp only [assemble]
    rw [length_slice (by omega)]
    omega

theorem bodyOf_assemble
    (hbody : body.length = contentLen header + schemaLen header + capabilityLen header +
      nameLen header + payloadLength header) :
    bodyOf (assemble header body) = body := by
  simp only [bodyOf, assemble]
  rw [slice_append_slice _ (by omega) (by omega), slice_append_slice _ (by omega) (by omega),
    slice_append_slice _ (by omega) (by omega), slice_append_slice _ (by omega) (by omega),
    ← hbody, slice_zero_length]

theorem bigEndian_slice (header : List UInt8) {width : ℕ} (hj : j ≤ header.length)
    (hwidth : j - i = width) :
    bigEndian width (bigEndianValue (slice header i j)) = slice header i j :=
  bigEndian_value_of_length ((length_slice hj).trans hwidth)

theorem bigEndian_slice64 (header : List UInt8) (hj : j ≤ header.length) (hwidth : j - i = 8) :
    bigEndian 8 (UInt64.ofNat (bigEndianValue (slice header i j))).toNat = slice header i j := by
  have hlt := bigEndianValue_lt (slice header i j)
  rw [length_slice hj, hwidth] at hlt
  rw [UInt64.toNat_ofNat', Nat.mod_eq_of_lt (lt_of_lt_of_eq hlt (by norm_num)),
    bigEndian_slice header hj hwidth]

theorem bigEndian_slice128 (header : List UInt8) (hj : j ≤ header.length) (hwidth : j - i = 16) :
    bigEndian 16 (BitVec.ofNat 128 (bigEndianValue (slice header i j))).toNat =
      slice header i j := by
  have hlt := bigEndianValue_lt (slice header i j)
  rw [length_slice hj, hwidth] at hlt
  rw [BitVec.toNat_ofNat, Nat.mod_eq_of_lt (lt_of_lt_of_eq hlt (by norm_num)),
    bigEndian_slice header hj hwidth]

/-- **A header is determined by what is read from it.** -/
theorem headerOf_assemble (hheader : header.length = fixedHeaderSize)
    (hmagic : slice header 0 4 = frameMagic)
    (hbody : body.length = contentLen header + schemaLen header + capabilityLen header +
      nameLen header + payloadLength header) :
    headerOf (assemble header body) = header := by
  have hlength : header.length = 98 := hheader
  obtain ⟨hcontent, hschema, hcapability, hname, hpayload⟩ := length_assemble hbody
  have hversion : bigEndian 2 (UInt16.ofNat (bigEndianValue (slice header 4 6))).toNat =
      slice header 4 6 := by
    have hlt := bigEndianValue_lt (slice header 4 6)
    rw [length_slice (by omega)] at hlt
    rw [UInt16.toNat_ofNat', Nat.mod_eq_of_lt (lt_of_lt_of_eq hlt (by norm_num)),
      bigEndian_slice header (by omega) (by omega)]
  unfold headerOf
  rw [hcontent, hschema, hcapability, hname, hpayload]
  simp only [assemble, contentLen, schemaLen, capabilityLen, nameLen, payloadLength,
    UInt8.ofNat_toNat, UInt64.toUInt64_toInt64]
  rw [← hmagic, hversion, ← slice_one (show 6 < header.length by omega),
    ← slice_one (show 7 < header.length by omega), ← slice_one (show 8 < header.length by omega),
    ← slice_one (show 9 < header.length by omega)]
  simp (disch := omega) only [bigEndian_slice, bigEndian_slice64, bigEndian_slice128]
  -- the parts are neighbours, from the first byte to the last
  simp only [slice_append_slice, Nat.reduceAdd, Nat.reduceLeDiff]
  rw [← hlength, slice_zero_length]

end Layout

/-! ### Validation -/

section Validation

variable {u : Unicode} {maxPayload : ℤ} {e : RawEnvelope}

theorem validateResource_length {owner : NodeID} {name : List UInt8}
    (h : RawEnvelope.validateResource u owner name = none) :
    name.length ≤ maxResourceNameBytes := by
  unfold RawEnvelope.validateResource at h
  by_cases howner : owner = 0
  · rw [if_pos howner] at h
    cases h
  rw [if_neg howner] at h
  split at h
  · cases h
  · by_cases hname : name = [] ∨ name.length > maxResourceNameBytes
    · rw [if_pos hname] at h
      cases h
    · exact not_lt.mp (not_or.mp hname).2

theorem validate_eq_none (h : e.validate u maxPayload = none) :
    ∃ phase operation, phaseOf e.phase = some phase ∧ operationOf e.operation = some operation ∧
      Routing.phaseAllows phase operation = true ∧
      e.contentType.length ≤ maxContentTypeBytes ∧ e.schema.length ≤ maxSchemaBytes ∧
      e.capability.length ≤ maxCapabilityBytes ∧ e.name.length ≤ maxResourceNameBytes ∧
      (e.payload.length : ℤ) ≤ if maxPayload ≤ 0 then defaultMaxPayload else maxPayload := by
  unfold RawEnvelope.validate at h
  by_cases hversion : e.version ≠ currentVersion
  · rw [if_pos hversion] at h
    cases h
  rw [if_neg hversion] at h
  split at h
  · next phase operation hphase hoperation =>
    refine ⟨phase, operation, hphase, hoperation, ?_⟩
    by_cases hallows : Routing.phaseAllows phase operation = false
    · rw [if_pos hallows] at h
      cases h
    rw [if_neg hallows] at h
    by_cases hmessage : e.messageID = 0
    · rw [if_pos hmessage] at h
      cases h
    rw [if_neg hmessage] at h
    by_cases hsource : e.source = 0
    · rw [if_pos hsource] at h
      cases h
    rw [if_neg hsource] at h
    by_cases htarget : e.target = 0
    · rw [if_pos htarget] at h
      cases h
    rw [if_neg htarget] at h
    split at h
    · cases h
    · next hresource =>
      have hname : e.name.length ≤ maxResourceNameBytes := by
        unfold RawEnvelope.validateResourceOf at hresource
        split_ifs at hresource with hrequires hcarries
        · exact validateResource_length hresource
        · rw [not_not.mp (not_or.mp hcarries).2]
          exact Nat.zero_le _
      by_cases hcorrelation : requiresCorrelation operation ∧ e.correlationID = 0
      · rw [if_pos hcorrelation] at h
        cases h
      rw [if_neg hcorrelation] at h
      by_cases hdeadline : e.deadlineUnixMS < 0
      · rw [if_pos hdeadline] at h
        cases h
      rw [if_neg hdeadline] at h
      by_cases hmetadata : e.contentType.length > maxContentTypeBytes ∨
          e.schema.length > maxSchemaBytes ∨ e.capability.length > maxCapabilityBytes
      · rw [if_pos hmetadata] at h
        cases h
      rw [if_neg hmetadata] at h
      obtain ⟨hcontent, hschema, hcapability⟩ : _ ∧ _ ∧ _ := by
        simpa only [not_or, not_lt] using hmetadata
      split at h
      · cases h
      · by_cases hlimit : (e.payload.length : ℤ) >
            if maxPayload ≤ 0 then defaultMaxPayload else maxPayload
        · dsimp only at h
          rw [if_pos hlimit] at h
          cases h
        · exact ⟨by simpa using hallows, hcontent, hschema, hcapability, hname, not_lt.mp hlimit⟩
  · cases h

theorem payloadLimit_pos (maxPayload : ℤ) : 0 < payloadLimit maxPayload := by
  unfold payloadLimit defaultMaxPayload
  split_ifs with h
  · norm_num
  · exact not_le.mp h

theorem limits_of_validate (h : e.validate u (payloadLimit maxPayload) = none) :
    e.contentType.length ≤ maxContentTypeBytes ∧ e.schema.length ≤ maxSchemaBytes ∧
      e.capability.length ≤ maxCapabilityBytes ∧ e.name.length ≤ maxResourceNameBytes ∧
      (e.payload.length : ℤ) ≤ payloadLimit maxPayload := by
  obtain ⟨-, -, -, -, -, hcontent, hschema, hcapability, hname, hpayload⟩ := validate_eq_none h
  rw [if_neg (not_le.mpr (payloadLimit_pos maxPayload))] at hpayload
  exact ⟨hcontent, hschema, hcapability, hname, hpayload⟩

end Validation

/-! ### Encoding and decoding -/

section Exact

variable {u : Unicode} {maxPayload : ℤ} {e : RawEnvelope}

/-- `Encode` accepts exactly the valid envelopes whose payload fits, and writes the frame. -/
theorem encode_of_progress (hs : s.Progress)
    (hvalid : e.validate u (payloadLimit maxPayload) = none)
    (hpayload : e.payload.length < 2 ^ 32) (w : Writer) :
    ∃ calls, encode u maxPayload s e w =
      (.ok (), ⟨w.written ++ (headerOf e ++ bodyOf e), calls⟩) := by
  obtain ⟨hcontent, hschema, hcapability, hname, -⟩ := limits_of_validate hvalid
  unfold maxContentTypeBytes at hcontent
  unfold maxSchemaBytes at hschema
  unfold maxCapabilityBytes at hcapability
  unfold maxResourceNameBytes at hname
  obtain ⟨calls, hcalls⟩ := writeAll_of_progress hs (headerOf e ++ bodyOf e) w
  refine ⟨calls, ?_⟩
  unfold encode
  rw [hvalid]
  dsimp only
  rw [if_neg (by omega), if_neg (by unfold fixedHeaderSize; push_cast; omega), hcalls]

theorem encode_eq_ok (hs : s.Progress) {w w' : Writer}
    (h : encode u maxPayload s e w = (.ok (), w')) :
    e.validate u (payloadLimit maxPayload) = none ∧ e.payload.length < 2 ^ 32 ∧
      w'.written = w.written ++ (headerOf e ++ bodyOf e) := by
  cases hvalid : e.validate u (payloadLimit maxPayload) with
  | some err =>
    rw [encode, hvalid] at h
    cases h
  | none =>
    have hpayload : e.payload.length < 2 ^ 32 := by
      by_contra hlong
      rw [encode, hvalid] at h
      dsimp only at h
      rw [if_pos (by omega)] at h
      cases h
    obtain ⟨calls, hcalls⟩ := encode_of_progress hs hvalid hpayload w
    rw [hcalls] at h
    cases h
    exact ⟨rfl, hpayload, rfl⟩

variable {s : ReadSchedule}

theorem decode_frame (hs : s.Progress) (hvalid : e.validate u (payloadLimit maxPayload) = none)
    (hpayload : e.payload.length < 2 ^ 32) (rest : List UInt8) (calls : ℕ) :
    ∃ calls', decode u maxPayload s ⟨headerOf e ++ bodyOf e ++ rest, calls⟩ =
      (.ok e, ⟨rest, calls'⟩) := by
  obtain ⟨hcontent, hschema, hcapability, hname, hlimit⟩ := limits_of_validate hvalid
  have hfits : Fits e := ⟨hcontent, hschema, hcapability, hname, hpayload⟩
  obtain ⟨hcontentLen, hschemaLen, hcapabilityLen, hnameLen, hpayloadLen⟩ := declared_headerOf hfits
  -- the header
  obtain ⟨calls₁, hfirst⟩ := readFull_of_le hs fixedHeaderSize
    (r := ⟨headerOf e ++ bodyOf e ++ rest, calls⟩) (by
      simp only [length_append, length_headerOf]
      omega)
  have htake : (headerOf e ++ bodyOf e ++ rest).take fixedHeaderSize = headerOf e := by
    rw [append_assoc, ← length_headerOf e, take_left]
  have hdrop : (headerOf e ++ bodyOf e ++ rest).drop fixedHeaderSize = bodyOf e ++ rest := by
    rw [append_assoc, ← length_headerOf e, drop_left]
  rw [htake, hdrop] at hfirst
  -- the body
  obtain ⟨calls₂, hsecond⟩ := readFull_of_le hs (bodyOf e).length
    (r := ⟨bodyOf e ++ rest, calls₁⟩) (by simp)
  rw [take_left, drop_left, length_bodyOf] at hsecond
  refine ⟨calls₂, ?_⟩
  unfold decode
  rw [hfirst]
  dsimp only
  rw [if_neg (not_not.mpr (slice_headerOf e).1), hcontentLen, hschemaLen, hcapabilityLen, hnameLen,
    hpayloadLen, if_neg (by omega), if_neg (not_lt.mpr hlimit), hsecond]
  dsimp only
  rw [assemble_frame hfits, hvalid]

theorem decode_eq_ok (hs : s.Progress) {r r' : Reader} (h : decode u maxPayload s r = (.ok e, r')) :
    e.validate u (payloadLimit maxPayload) = none ∧ e.payload.length < 2 ^ 32 ∧
      r.unread = headerOf e ++ bodyOf e ++ r'.unread := by
  unfold decode at h
  split at h
  · cases h
  · next header r₁ hfirst =>
    obtain ⟨hheader, hunread⟩ := readFull_eq_ok hs hfirst
    split_ifs at h with hmagic hmetadata hlimit
    · cases h
    · cases h
    · cases h
    · split at h
      · cases h
      · next body r₂ hsecond =>
        obtain ⟨hbody, hrest⟩ := readFull_eq_ok hs hsecond
        split at h
        · cases h
        · next hvalid =>
          cases h
          refine ⟨hvalid, ?_, ?_⟩
          · rw [(length_assemble hbody).2.2.2.2]
            have hword := bigEndianValue_lt (slice header 14 18)
            have hheader : header.length = 98 := hheader
            rw [length_slice (by omega)] at hword
            exact lt_of_lt_of_eq hword (by norm_num)
          · rw [headerOf_assemble hheader (not_not.mp hmagic) hbody, bodyOf_assemble hbody, hunread,
              hrest, append_assoc]

theorem decode_of_exceeds (hs : s.Progress) {header rest : List UInt8}
    (hheader : header.length = fixedHeaderSize) (calls : ℕ)
    (hexceeds : contentLen header > maxContentTypeBytes ∨ schemaLen header > maxSchemaBytes ∨
      capabilityLen header > maxCapabilityBytes ∨ nameLen header > maxResourceNameBytes ∨
      (payloadLength header : ℤ) > payloadLimit maxPayload) :
    ∃ err calls', decode u maxPayload s ⟨header ++ rest, calls⟩ =
      (.error err, ⟨rest, calls'⟩) := by
  obtain ⟨calls', hfirst⟩ := readFull_of_le hs fixedHeaderSize
    (r := ⟨header ++ rest, calls⟩) (by
      simp only [length_append, hheader]
      omega)
  rw [← hheader, take_left, drop_left, hheader] at hfirst
  unfold decode
  rw [hfirst]
  dsimp only
  split_ifs with hmagic hmetadata hlimit
  · exact ⟨_, calls', rfl⟩
  · exact ⟨_, calls', rfl⟩
  · exact ⟨_, calls', rfl⟩
  · exact absurd hexceeds (by
      simp only [not_or] at hmetadata ⊢
      exact ⟨hmetadata.1, hmetadata.2.1, hmetadata.2.2.1, hmetadata.2.2.2, hlimit⟩)

end Exact

/-- **The wire codec is exact and canonical.**  Under every payload limit and every schedule
that makes progress:

* what `Encode` writes for an envelope it accepts, `Decode` reads back, whatever follows, and
  leaves exactly what follows;
* what `Decode` reads for an envelope it returns, `Encode` writes for this envelope;
* two byte strings that decode to one envelope are the same;
* when a declared length exceeds its limit, `Decode` fails and has read the header only. -/
theorem codec_exact (u : Unicode) (maxPayload : ℤ) (rs : ReadSchedule) (ws : WriteSchedule)
    (hrs : rs.Progress) (hws : ws.Progress) :
    (∀ e w w', encode u maxPayload ws e w = (.ok (), w') →
      ∃ bytes, w'.written = w.written ++ bytes ∧ ∀ rest calls, ∃ calls',
        decode u maxPayload rs ⟨bytes ++ rest, calls⟩ = (.ok e, ⟨rest, calls'⟩)) ∧
    (∀ e r r', decode u maxPayload rs r = (.ok e, r') →
      ∃ bytes, r.unread = bytes ++ r'.unread ∧ ∀ w, ∃ calls,
        encode u maxPayload ws e w = (.ok (), ⟨w.written ++ bytes, calls⟩)) ∧
    (∀ e bytes₁ bytes₂ rest₁ rest₂ n₁ n₂ n₁' n₂',
      decode u maxPayload rs ⟨bytes₁ ++ rest₁, n₁⟩ = (.ok e, ⟨rest₁, n₁'⟩) →
      decode u maxPayload rs ⟨bytes₂ ++ rest₂, n₂⟩ = (.ok e, ⟨rest₂, n₂'⟩) → bytes₁ = bytes₂) ∧
    ∀ header rest calls, header.length = fixedHeaderSize →
      (contentLen header > maxContentTypeBytes ∨ schemaLen header > maxSchemaBytes ∨
        capabilityLen header > maxCapabilityBytes ∨ nameLen header > maxResourceNameBytes ∨
        (payloadLength header : ℤ) > payloadLimit maxPayload) →
      ∃ err calls', decode u maxPayload rs ⟨header ++ rest, calls⟩ =
        (.error err, ⟨rest, calls'⟩) := by
  refine ⟨fun e w w' h => ?_, fun e r r' h => ?_,
    fun e bytes₁ bytes₂ rest₁ rest₂ n₁ n₂ n₁' n₂' h₁ h₂ => ?_,
    fun header rest calls hheader => decode_of_exceeds hrs hheader calls⟩
  · obtain ⟨hvalid, hpayload, hwritten⟩ := encode_eq_ok hws h
    exact ⟨headerOf e ++ bodyOf e, hwritten, fun rest calls =>
      decode_frame hrs hvalid hpayload rest calls⟩
  · obtain ⟨hvalid, hpayload, hunread⟩ := decode_eq_ok hrs h
    exact ⟨headerOf e ++ bodyOf e, hunread, fun w => encode_of_progress hws hvalid hpayload w⟩
  · obtain ⟨-, -, hunread₁⟩ := decode_eq_ok hrs h₁
    obtain ⟨-, -, hunread₂⟩ := decode_eq_ok hrs h₂
    rw [append_cancel_right hunread₁, append_cancel_right hunread₂]

def heartbeat : RawEnvelope where
  version := 2
  phase := 4
  operation := 17
  messageID := 9
  correlationID := 0
  source := 1
  principal := 0
  target := 2
  owner := 0
  name := []
  topologyEpoch := 1
  deadlineUnixMS := 0
  contentType := [0x74]
  schema := []
  capability := []
  payload := [1, 2]

def byThree : ReadSchedule := fun _ size available => (min 3 (min size available), none)

def byFive : WriteSchedule := fun _ size => (min 5 (size : ℤ), none)

def plainUnicode : Unicode where
  isLetterOrDigit _ := true
  marshalError _ := []
  isControlOrSpace _ := false

theorem codec_exact_heartbeat :
    (∃ calls, decode plainUnicode 0 byThree ⟨headerOf heartbeat ++ bodyOf heartbeat ++ [7], 0⟩ =
      (.ok heartbeat, ⟨[7], calls⟩)) ∧
    ∃ err calls, decode plainUnicode 1 byThree ⟨headerOf heartbeat ++ [1, 2, 7], 0⟩ =
      (.error err, ⟨[1, 2, 7], calls⟩) := by
  have hread : byThree.Progress := by
    intro call size available hsize havailable
    simp only [byThree, and_true]
    omega
  have hwrite : byFive.Progress := by
    intro call size hsize
    simp only [byFive, and_true]
    omega
  constructor
  · have hencode : encode plainUnicode 0 byFive heartbeat {} =
        (.ok (), ⟨headerOf heartbeat ++ bodyOf heartbeat, 21⟩) := rfl
    obtain ⟨bytes, hbytes, hdecode⟩ :=
      (codec_exact plainUnicode 0 byThree byFive hread hwrite).1 heartbeat {} _ hencode
    obtain rfl : headerOf heartbeat ++ bodyOf heartbeat = bytes := hbytes
    exact hdecode [7] 0
  · exact (codec_exact plainUnicode 1 byThree byFive hread hwrite).2.2.2 (headerOf heartbeat)
      [1, 2, 7] 0 rfl (Or.inr (Or.inr (Or.inr (Or.inr (by decide)))))

end Codec
