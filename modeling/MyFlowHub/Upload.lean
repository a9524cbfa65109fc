/-
File uploads (`feature/file/file.go`).

A transfer is offered, receives its chunks in order into a temporary file and is completed by
renaming that file to its destination, or it fails, is cancelled or expires.  The controller
holds its mutex over each of these, so a call is one step.

What happens outside the controller is given to each call: the clock, and the `Faults` its file
operations and its publications meet.  The storage root is the directory of `Filesystem`, and
SHA-256 a parameter.

* `FileOfferV1`, `FileChunkV1`, … — the requests and their checks;
* `offerFor`, `chunkFor`, `completeFor`, `cancelFor`, `abortFor`, `sweep` — the calls;
* `register`, `close` — the start with its cleanup, and the end.
-/
import MyFlowHub.Filesystem
import MyFlowHub.PolicySchema

open Encoding (formatUint hexEncode)
open Checks Enrollment Protocol
open Filesystem

namespace Upload

/-- The value of an `int64` expression. -/
def int64 (n : ℤ) : ℤ := n.bmod (2 ^ 64)

def maxPathBytes : ℕ := 1024
def maxContentTypeBytes : ℕ := 127
def maxFileChunkBytes : ℕ := 64 * 1024

/-! ### Requests -/

/-- `strings.Split(path, "/")`. -/
def segments (path : String) : List String := (path.toList.splitOn '/').map String.ofList

def validateSegment (segment : String) : Except String Unit := do
  require (¬(segment = "" ∨ segment = "." ∨ segment = "..")) "path contains an empty or dot segment"
  require (':' ∉ segment.toList) "path segment contains a platform prefix"

def validateRelativePath (value : String) : Except String Unit := do
  validateText "path" value maxPathBytes true
  require (¬(value.toList.head? = some '/' ∨ value.toList.head? = some '\\' ∨ '\\' ∈ value.toList))
    "path must use relative slash-separated segments"
  (segments value).forM validateSegment

structure FileOfferV1 where
  version : ℤ
  transferID : String
  path : String
  size : ℤ
  sha256 : String
  chunkSize : ℤ
  contentType : String
  expiresAtUnixMS : ℤ
  deriving DecidableEq, Repr

def FileOfferV1.validate (o : FileOfferV1) : Except String Unit := do
  validateVersion o.version
  validateHexID "transfer_id" o.transferID 16
  validateRelativePath o.path
  require (¬(o.size < 0 ∨ o.chunkSize ≤ 0 ∨ maxFileChunkBytes < o.chunkSize ∨
    o.expiresAtUnixMS ≤ 0))
    "file size, chunk size, or expiry is invalid"
  validateHexID "sha256" o.sha256 32
  validateText "content_type" o.contentType maxContentTypeBytes false

structure FileChunkV1 where
  version : ℤ
  transferID : String
  offset : ℤ
  data : Bytes
  sha256 : String

def FileChunkV1.validate (c : FileChunkV1) : Except String Unit := do
  validateVersion c.version
  validateHexID "transfer_id" c.transferID 16
  require (¬(c.offset < 0 ∨ c.data.length = 0 ∨ maxFileChunkBytes < c.data.length))
    ("chunk offset/data must be non-negative and contain 1.." ++ toString
      maxFileChunkBytes ++ " bytes")
  validateHexID "sha256" c.sha256 32

structure FileCompleteV1 where
  version : ℤ
  transferID : String
  size : ℤ
  sha256 : String

def FileCompleteV1.validate (c : FileCompleteV1) : Except String Unit := do
  validateVersion c.version
  validateHexID "transfer_id" c.transferID 16
  require (¬ c.size < 0) "file size must not be negative"
  validateHexID "sha256" c.sha256 32

/-- The reason is a string of Go: any bytes. -/
structure FileCancelV1 where
  version : ℤ
  transferID : String
  reason : Bytes

/-- The text of a Go string, when it is valid UTF-8. -/
def text? (bytes : Bytes) : Option String := String.fromUTF8? ⟨bytes.toArray⟩

/-- `validateText("reason", …)`, and the reason as text. -/
def validateReason (reason : Bytes) : Except String String :=
  match text? reason with
  | none => .error ("reason must be valid UTF-8 with at most " ++ toString
      maxLabelBytes ++ " bytes")
  | some text => do
    validateText "reason" text maxLabelBytes true
    .ok text

def FileCancelV1.validate (c : FileCancelV1) : Except String String := do
  validateVersion c.version
  validateHexID "transfer_id" c.transferID 16
  validateReason c.reason

inductive TransferState where
  | offered
  | receiving
  | completed
  | cancelled
  | failed
  deriving DecidableEq, Repr

/-- `state == "offered" || state == "receiving"`. -/
def TransferState.active : TransferState → Bool
  | offered | receiving => true
  | completed | cancelled | failed => false

structure FileProgressV1 where
  version : ℤ
  transferID : String
  receivedBytes : ℤ
  totalBytes : ℤ
  state : TransferState
  error : String
  deriving DecidableEq, Repr

/-- The state is one of the five by its type. -/
def FileProgressV1.validate (p : FileProgressV1) : Except String Unit := do
  validateVersion p.version
  validateHexID "transfer_id" p.transferID 16
  require (¬(p.receivedBytes < 0 ∨ p.totalBytes < 0 ∨ p.totalBytes < p.receivedBytes))
    "file progress byte counts are invalid"
  validateText "error" p.error 2048 false

structure FileTransferSummaryV1 where
  transferID : String
  ownerNodeID : String
  path : String
  receivedBytes : ℤ
  totalBytes : ℤ
  state : TransferState
  expiresAtUnixMS : ℤ
  error : String

def FileTransferSummaryV1.validate (s : FileTransferSummaryV1) : Except String Unit := do
  validateHexID "transfer_id" s.transferID 16
  validateNodeIDText "owner_node_id" s.ownerNodeID
  validateRelativePath s.path
  require (¬(s.receivedBytes < 0 ∨ s.totalBytes < 0 ∨ s.totalBytes < s.receivedBytes ∨
    s.expiresAtUnixMS ≤ 0)) "file transfer summary counters or expiry are invalid"
  validateText "error" s.error 2048 false

/-- The loop of `FileTransfersV1.Validate`; `seen` holds the identifiers before, the last first. -/
def validateSummaries : List String → List FileTransferSummaryV1 → Except String Unit
  | _, [] => .ok ()
  | seen, transfer :: rest =>
    match transfer.validate with
    | .error text => .error ("transfers[" ++ toString seen.length ++ "]: " ++ text)
    | .ok () => do
      require (transfer.transferID ∉ seen) ("duplicate transfer " ++ transfer.transferID)
      require (∀ previous ∈ seen.head?, previous < transfer.transferID)
        "file transfers must be strictly sorted by transfer_id"
      validateSummaries (transfer.transferID :: seen) rest

/-- `MaxVariableSafeInteger`, the largest integer a variable may hold. -/
def maxVariableSafeInteger : ℕ := 2 ^ 53 - 1

/-- `validateVariableNumber` accepts the numbers of the summary, none of which is negative. -/
def FileTransferSummaryV1.Safe (s : FileTransferSummaryV1) : Prop :=
  s.receivedBytes ≤ maxVariableSafeInteger ∧ s.totalBytes ≤ maxVariableSafeInteger ∧
    s.expiresAtUnixMS ≤ maxVariableSafeInteger

instance (s : FileTransferSummaryV1) : Decidable s.Safe := instDecidableAnd

/-- `EncodeVariablePayload` of the `FileTransfersV1` with these summaries, up to the size of the
payload; the path to the number that is refused is left out of the last error. -/
def encodeSummaries (revision : UInt64) (summaries : List FileTransferSummaryV1) :
    Except String Unit := do
  require (summaries.length ≤ Auth.maxItems)
    ("file transfers revision must be non-zero and contain at most " ++
      toString Auth.maxItems ++ " entries")
  validateSummaries [] summaries
  require (revision.toNat ≤ maxVariableSafeInteger ∧ ∀ s ∈ summaries, s.Safe)
    ("invalid protocol payload: variable domain value: " ++
      "number must be finite and within JS-safe numeric bounds")

/-! ### The controller -/

/-- `Config`; the limits are `int64`. -/
structure Config where
  maxFileBytes : ℤ := 0
  maxTotalBytes : ℤ := 0
  maxActive : ℤ := 0
  maxHistory : ℤ := 0
  maxLifetime : ℤ := 0
  sweepInterval : ℤ := 0
  range : maxTotalBytes < 2 ^ 63 := by decide

/-- Limits that `Register` accepts. -/
structure Limits where
  maxFileBytes : ℤ
  maxTotalBytes : ℤ
  maxActive : ℕ
  maxHistory : ℕ
  maxLifetime : ℤ
  file_le : maxFileBytes ≤ maxTotalBytes
  total_nonneg : 0 ≤ maxTotalBytes
  total_lt : maxTotalBytes < 2 ^ 63
  active_le : maxActive ≤ maxHistory

/-- A limit that is not positive is replaced by its default. -/
def orDefault (value fallback : ℤ) : ℤ := if value ≤ 0 then fallback else value

theorem orDefault_pos {value fallback : ℤ} (h : 0 < fallback) : 0 < orDefault value fallback := by
  rw [orDefault]
  split_ifs <;> omega

def Config.limits (config : Config) : Except String Limits :=
  let maxFileBytes := orDefault config.maxFileBytes (2 ^ 30)
  let maxTotalBytes := orDefault config.maxTotalBytes (4 * 2 ^ 30)
  let maxActive := orDefault config.maxActive 64
  let maxHistory := orDefault config.maxHistory 256
  let maxLifetime := orDefault config.maxLifetime (24 * 3600 * second)
  let sweepInterval := orDefault config.sweepInterval (60 * second)
  if h : maxTotalBytes < maxFileBytes ∨ maxActive < 1 ∨ maxHistory < maxActive ∨
      Auth.maxItems < maxHistory ∨ maxLifetime < second ∨ sweepInterval < 10 * millisecond then
    .error "file transfer limits are invalid"
  else
    .ok {
      maxFileBytes, maxTotalBytes, maxActive := maxActive.toNat, maxHistory := maxHistory.toNat,
      maxLifetime
      file_le := by omega
      total_nonneg := (orDefault_pos (by norm_num)).le
      total_lt := by
        have := config.range
        show orDefault _ _ < _
        rw [orDefault]
        split_ifs <;> omega
      active_le := by omega }

/-- `transfer`.  The source's `file` is `inode`, the file its handle refers to, and `isOpen`,
whether it is not `nil`; `chunks`, which no call reads, holds the data of the accepted new chunks
in order. -/
structure Transfer where
  offer : FileOfferV1
  owner : NodeID
  tempPath : Path
  finalPath : Path
  inode : ℕ
  isOpen : Bool
  received : ℤ
  state : TransferState
  err : String
  chunks : List Bytes
  deriving DecidableEq

namespace Transfer

abbrev id (t : Transfer) : String := t.offer.transferID

abbrev active (t : Transfer) : Bool := t.state.active

def progress (t : Transfer) : FileProgressV1 where
  version := 1
  transferID := t.id
  receivedBytes := t.received
  totalBytes := t.offer.size
  state := t.state
  error := t.err

/-- `progressPayloadLocked`; what is sent is the JSON of the progress. -/
def progressPayload (t : Transfer) : Except String FileProgressV1 := do
  t.progress.validate
  .ok t.progress

def summary (t : Transfer) : FileTransferSummaryV1 where
  transferID := t.id
  ownerNodeID := formatUint t.owner
  path := t.offer.path
  receivedBytes := t.received
  totalBytes := t.offer.size
  state := t.state
  expiresAtUnixMS := t.offer.expiresAtUnixMS
  error := t.err

end Transfer

/-- The outcomes of what a call does outside the controller; `none` is success. -/
structure Faults where
  lstat : Path → Option String := fun _ => none
  /-- of the `Lstat` that follows a `Mkdir` -/
  lstatAgain : Path → Option String := fun _ => none
  mkdir : Path → Option String := fun _ => none
  chmod : Option String := none
  readDir : Option String := none
  create : Option String := none
  readAt : Option String := none
  /-- with the number of bytes that were stored -/
  writeAt : Option (ℕ × String) := none
  sync : Option String := none
  seek : Option String := none
  copy : Option String := none
  close : Option String := none
  rename : Option String := none
  remove : Path → Option String := fun _ => none
  /-- of `progress.Publish`, by transfer -/
  progress : String → Option String := fun _ => none
  /-- of the size of the encoded summaries and of setting them, in `expireLocked` and elsewhere -/
  expired : Option String := none
  summaries : Option String := none

/-- `Controller`, with the disk under its root. -/
structure Controller where
  limits : Limits
  transfers : List Transfer := []
  activeBytes : ℤ := 0
  revision : UInt64 := 1
  disk : FS

namespace Controller

variable (sha256 : Bytes → Bytes) (c : Controller) (now : Time) (faults : Faults)

def find (id : String) : Option Transfer := Roster.find Transfer.id c.transfers id

/-- The transfer with the identifier of `t` is now `t`. -/
def set (t : Transfer) : Controller :=
  { c with transfers := Roster.modify Transfer.id c.transfers t.id fun _ => t }

def activeCountLocked : ℕ := (c.transfers.filter Transfer.active).length

/-! ### Publishing -/

def summaries : List FileTransferSummaryV1 :=
  (c.transfers.insertionSort fun a b => a.id ≤ b.id).map Transfer.summary

def updateSummariesLocked (fault : Option String) : Except String Unit × Controller :=
  if c.revision = UInt64.ofNat (2 ^ 64 - 1) then
    (.error "file transfer summary revision exhausted", c)
  else
    match encodeSummaries (c.revision + 1) c.summaries, fault with
    | .error text, _ => (.error text, c)
    | .ok (), some text => (.error text, c)
    | .ok (), none => (.ok (), { c with revision := c.revision + 1 })

def publishLocked (current : Transfer) : Except String Unit × Controller :=
  match current.progressPayload, faults.progress current.id with
  | .error text, _ => (.error text, c)
  | .ok _, some text => (.error text, c)
  | .ok _, none => c.updateSummariesLocked faults.summaries

/-- The end of a call: publish, and answer with the progress. -/
def answer (current : Transfer) : Except String FileProgressV1 × Controller :=
  match c.publishLocked faults current with
  | (.error text, c') => (.error text, c')
  | (.ok (), c') => (current.progressPayload, c')

/-! ### Leaving the active states -/

/-- `_ = os.Remove(tempPath)`. -/
def removeTemp (path : Path) : FS :=
  match c.disk.remove path (faults.remove path) with
  | .ok disk => disk
  | .error _ => c.disk

/-- What the failing, the cancelled and the expired have in common. -/
def release (current : Transfer) (state : TransferState) (err : String) : Controller :=
  { c with
    disk := c.removeTemp faults current.tempPath
    activeBytes := c.activeBytes - current.offer.size }.set
      { current with isOpen := false, state, err }

/-- `failLocked`, which gives back the bytes of an active transfer only. -/
def failLocked (current : Transfer) (failure : String) : Controller :=
  let failed := { current with isOpen := false, state := .failed, err := failure }
  let released := c.release faults current .failed failure
  let c' := if current.active then released else { released with activeBytes := c.activeBytes }
  (c'.publishLocked faults failed).2

def expired (t : Transfer) : Bool := t.active && decide (t.offer.expiresAtUnixMS ≤ unixMilli now)

/-- One round of the loop of `expireLocked`. -/
def expireOne (c : Controller) (t : Transfer) : Controller :=
  if expired now t then c.release faults t .failed "transfer expired" else c

def expireLocked : Controller :=
  let c' := c.transfers.foldl (expireOne now faults) c
  if c.transfers.any (expired now) then (c'.updateSummariesLocked faults.expired).2 else c'

def sweep : Controller := c.expireLocked now faults

/-! ### Offers -/

def tempRoot : Path := [".mfh-tmp"]

def tempPath (id : String) : Path := tempRoot ++ [id ++ ".part"]

/-- One round of the loop of `safeDestination`: a directory, made if it is missing. -/
def enter (fs : FS) (current : Path) : Except String Unit × FS :=
  let enterable : Except Errno Entry → Except String Unit
    | .error err => .error err.text
    | .ok info => require (info = .dir) "file destination traverses a non-directory or symlink"
  match fs.lstat current (faults.lstat current) with
  | .error .notExist =>
    match fs.mkdir current (faults.mkdir current) with
    | .error err => (.error ("create destination directory: " ++ err.text), fs)
    | .ok made => (enterable (made.lstat current (faults.lstatAgain current)), made)
  | info => (enterable info, fs)

def walk : FS → Path → List String → Except String Path × FS
  | fs, current, [] => (.ok current, fs)
  | fs, current, segment :: rest =>
    match enter faults fs (current ++ [segment]) with
    | (.error text, fs') => (.error text, fs')
    | (.ok (), fs') => walk fs' (current ++ [segment]) rest

def safeDestination (fs : FS) (slashPath : String) : Except String Path × FS :=
  match walk faults fs [] (segments slashPath).dropLast with
  | (.error text, fs') => (.error text, fs')
  | (.ok current, fs') =>
    let destination := current ++ [(segments slashPath).getLastD ""]
    if destination.head? = some ".." then (.error "file destination escapes storage root", fs')
    else
      match fs'.lstat destination (faults.lstat destination) with
      | .ok .symlink => (.error "file destination is a symlink", fs')
      | .ok _ | .error .notExist => (.ok destination, fs')
      | .error err => (.error err.text, fs')

/-- The loop of `trimLocked` over the sorted identifiers of terminal transfers. -/
def trim (maxHistory : ℕ) : List Transfer → List String → List Transfer
  | transfers, [] => transfers
  | transfers, id :: ids =>
    if maxHistory < transfers.length then trim maxHistory
      (Roster.remove Transfer.id transfers id) ids
    else transfers

def terminalIDs (transfers : List Transfer) : List String :=
  ((transfers.filter fun t => !t.active).map Transfer.id).insertionSort (· ≤ ·)

def trimLocked : Controller :=
  { c with transfers := trim c.limits.maxHistory c.transfers (terminalIDs c.transfers) }

def newTransfer (owner : NodeID) (request : FileOfferV1) (finalPath : Path) (inode : ℕ) :
    Transfer where
  offer := request
  owner
  tempPath := tempPath request.transferID
  finalPath
  inode
  isOpen := true
  received := 0
  state := .offered
  err := ""
  chunks := []

/-- The new transfer is entered in the table, and the table trimmed. -/
def begin (current : Transfer) (disk : FS) : Controller :=
  { c with
    transfers := c.transfers ++ [current]
    activeBytes := c.activeBytes + current.offer.size
    disk }.trimLocked

def withdraw (current : Transfer) : Controller :=
  { c with
    transfers := Roster.remove Transfer.id c.transfers current.id
    activeBytes := c.activeBytes - current.offer.size
    disk := c.removeTemp faults current.tempPath }

/-- `offerFor` from the creation of the temporary file on. -/
def openTransfer (owner : NodeID) (request : FileOfferV1) (finalPath : Path) :
    Except String FileProgressV1 × Controller :=
  match c.disk.create (tempPath request.transferID) faults.create with
  | .error err => (.error ("create transfer temporary file: " ++ err.text), c)
  | .ok (inode, disk) =>
    let current := newTransfer owner request finalPath inode
    match (c.begin current disk).publishLocked faults current with
    | (.error text, c') => (.error text, c'.withdraw faults current)
    | (.ok (), c') => (current.progressPayload, c')

/-- `offerFor` under the mutex, after the expired have been removed. -/
def admitOffer (owner : NodeID) (request : FileOfferV1) :
    Except String FileProgressV1 × Controller :=
  match c.find request.transferID with
  | some current =>
    if current.owner = owner ∧ current.offer = request then (current.progressPayload, c)
    else (.error "file transfer ID already exists", c)
  | none =>
    if c.limits.maxActive ≤ c.activeCountLocked ∨ c.limits.maxTotalBytes - c.activeBytes <
      request.size then
      (.error "file transfer active session or byte limit reached", c)
    else
      match safeDestination faults c.disk request.path with
      | (.error text, disk) => (.error text, { c with disk })
      | (.ok finalPath, disk) => { c with disk }.openTransfer faults owner request finalPath

def checkOffer (request : FileOfferV1) : Except String Unit := do
  request.validate
  require (¬(c.limits.maxFileBytes < request.size ∨ request.expiresAtUnixMS ≤ unixMilli now ∨
    unixMilli (now + c.limits.maxLifetime) < request.expiresAtUnixMS))
    "file offer exceeds size or lifetime limits"

def offerFor (owner : NodeID) (request : FileOfferV1) : Except String FileProgressV1 × Controller :=
  match c.checkOffer now request with
  | .error text => (.error text, c)
  | .ok () => (c.expireLocked now faults).admitOffer faults owner request

/-! ### Chunks -/

def activeOwnedLocked (id : String) (owner : NodeID) : Except String Transfer :=
  match c.find id with
  | none => .error "file transfer not found for caller"
  | some current =>
    if current.owner ≠ owner then .error "file transfer not found for caller"
    else if !current.active then .error "file transfer is terminal"
    else .ok current

def extended (current : Transfer) (data : Bytes) : Transfer :=
  { current with
    received := current.received + data.length, state := .receiving, chunks :=
      current.chunks ++ [data] }

/-- `chunkFor` from `WriteAt` on; on a handle that is `nil` every operation fails. -/
def writeChunk (current : Transfer) (data : Bytes) : Except String FileProgressV1 × Controller :=
  let written :=
    if current.isOpen then c.disk.writeAt current.inode current.received.toNat data faults.writeAt
    else (some "invalid argument", c.disk)
  match written with
  | (some text, disk) => (.error ("write file chunk: " ++ text), { c with disk }.failLocked faults
      current text)
  | (none, disk) => ({ c with disk }.set (extended current data)).answer faults
      (extended current data)

/-- A chunk that starts below the received boundary is compared with what is stored. -/
def repeatChunk (current : Transfer) (request : FileChunkV1) : Except String FileProgressV1 :=
  if current.received < int64 (request.offset + request.data.length) then
    .error "file chunk overlaps the received boundary"
  else
    match current.isOpen, c.disk.readAt current.inode request.offset.toNat request.data.length
      faults.readAt with
    | true, .ok existing =>
      if existing = request.data then current.progressPayload
      else .error "duplicate file chunk content conflicts with stored data"
    | _, _ => .error "duplicate file chunk content conflicts with stored data"

/-- `chunkFor` on the transfer it found. -/
def takeChunk (current : Transfer) (request : FileChunkV1) :
    Except String FileProgressV1 × Controller :=
  if current.offer.chunkSize < request.data.length ∨
      current.offer.size < int64 (request.offset + request.data.length) then
    (.error "file chunk exceeds declared chunk or transfer size", c)
  else if request.offset < current.received then (c.repeatChunk faults current request, c)
  else if request.offset ≠ current.received then
    (.error ("file chunk gap: expected offset " ++ toString current.received), c)
  else c.writeChunk faults current request.data

def checkChunk (request : FileChunkV1) : Except String Unit := do
  request.validate
  require (hexEncode (sha256 request.data) = request.sha256) "file chunk checksum mismatch"

def chunkFor (owner : NodeID) (request : FileChunkV1) : Except String FileProgressV1 × Controller :=
  match checkChunk sha256 request with
  | .error text => (.error text, c)
  | .ok () =>
    match (c.expireLocked now faults).activeOwnedLocked request.transferID owner with
    | .error text => (.error text, c.expireLocked now faults)
    | .ok current => (c.expireLocked now faults).takeChunk faults current request

/-! ### Completion -/

/-- What `io.LimitReader(file, size+1)` lets through: nothing when the limit is negative. -/
def limited (content : Bytes) (size : ℤ) : Bytes := content.take (int64 (size + 1)).toNat

def outcome (fault : Option String) : Except String Unit :=
  match fault with
  | none => .ok ()
  | some text => .error text

/-- From `Sync` to `Close`; each error fails the transfer. -/
def verify (current : Transfer) : Except String Unit := do
  require (current.isOpen = true) "invalid argument"
  outcome faults.sync
  outcome faults.seek
  outcome faults.copy
  require (hexEncode (sha256 (limited (c.disk.contents current.inode) current.offer.size)) =
    current.offer.sha256) "completed file checksum mismatch"
  outcome faults.close

def activated (current : Transfer) (disk : FS) : Controller :=
  { c with disk, activeBytes := c.activeBytes - current.offer.size }.set
    { current with isOpen := false, state := .completed }

/-- `completeFor` from `Lstat` on, with the handle closed. -/
def activate (current : Transfer) : Except String FileProgressV1 × Controller :=
  match c.disk.lstat current.finalPath (faults.lstat current.finalPath) with
  | .ok _ =>
    (.error "file destination already exists", c.failLocked faults current
      "destination already exists")
  | .error (.other text) => (.error text, c.failLocked faults current text)
  | .error .notExist =>
    match c.disk.rename current.tempPath current.finalPath faults.rename with
    | .error err =>
      (.error ("activate completed file: " ++ err.text), c.failLocked faults current err.text)
    | .ok disk =>
      (c.activated current disk).answer faults { current with isOpen := false, state := .completed }

/-- `completeFor` on the transfer it found. -/
def finish (current : Transfer) (request : FileCompleteV1) :
    Except String FileProgressV1 × Controller :=
  if request.size ≠ current.offer.size ∨ request.sha256 ≠ current.offer.sha256 ∨
      current.received ≠ current.offer.size then
    (.error "file completion size, checksum, or received length mismatch", c)
  else
    match c.verify sha256 faults current with
    | .error text => (.error text, c.failLocked faults current text)
    | .ok () => c.activate faults current

def completeFor (owner : NodeID) (request : FileCompleteV1) :
    Except String FileProgressV1 × Controller :=
  match request.validate with
  | .error text => (.error text, c)
  | .ok () =>
    match (c.expireLocked now faults).activeOwnedLocked request.transferID owner with
    -- an expiry found at the start stays, also when the request is then refused
    | .error text => (.error text, c.expireLocked now faults)
    | .ok current => (c.expireLocked now faults).finish sha256 faults current request

/-! ### Cancellation -/

/-- `cancelFor` on an active transfer. -/
def cancelActive (current : Transfer) (reason : String) :
    Except String FileProgressV1 × Controller :=
  (c.release faults current .cancelled reason).answer faults
    { current with isOpen := false, state := .cancelled, err := reason }

/-- `cancelFor`, which does not look at the clock. -/
def cancelFor (owner : NodeID) (request : FileCancelV1) :
    Except String FileProgressV1 × Controller :=
  match request.validate, c.find request.transferID with
  | .error text, _ => (.error text, c)
  | .ok _, none => (.error "file transfer not found for caller", c)
  | .ok reason, some current =>
    if current.owner ≠ owner then (.error "file transfer not found for caller", c)
    else
      match current.state with
      -- a second cancellation is answered, not refused
      | .cancelled => (current.progressPayload, c)
      | .completed | .failed => (.error "terminal file transfer cannot be cancelled", c)
      | .offered | .receiving => c.cancelActive faults current reason

def abortFor (owner : NodeID) (id : String) (reason : Option String) : Controller :=
  match c.find id with
  | none => c
  | some current =>
    if current.owner ≠ owner ∨ current.active = false then c
    else c.failLocked faults current (reason.getD "upload session aborted")

/-! ### Start and end -/

/-- One round of the loop of `Close`: the state of the transfer stays. -/
def closeOne (c : Controller) (t : Transfer) : Controller :=
  { c with disk := if t.active then c.removeTemp faults t.tempPath else c.disk }.set
    { t with isOpen := false }

/-- `Close`; its error, the first of the files', changes nothing. -/
def close : Controller := c.transfers.foldl (closeOne faults) c

/-- `ensureDirectory` for a directory directly under one that is there. -/
def ensureDirectory (disk : FS) (path : Path) : Except String Unit × FS :=
  match disk.lookup path with
  | none =>
    match disk.mkdir path (faults.mkdir path) with
    | .error err => (.error ("create file storage directory: " ++ err.text), disk)
    | .ok disk' => (do outcome (faults.lstat path); outcome faults.chmod, disk')
  | some .dir => (do outcome (faults.lstat path); outcome faults.chmod, disk)
  | some .symlink => (.error "file storage path must be a real directory", disk)
  | some (.file _) => (.error "create file storage directory: not a directory", disk)

/-- The name without `.part`. -/
def trimPart (name : String) : Option String :=
  if ".part".toList <:+ name.toList then some (String.ofList
    (name.toList.take (name.toList.length - 5)))
  else none

/-- The names `cleanupTemp` removes. -/
def stale (name : String) : Bool :=
  match trimPart name with
  | none => false
  | some id => name.utf8ByteSize == 37 && isHexID id 16

/-- The loop of `cleanupTemp`. -/
def cleanup : FS → List String → Except String Unit × FS
  | disk, [] => (.ok (), disk)
  | disk, name :: rest =>
    if stale name then
      match disk.remove (tempRoot ++ [name]) (faults.remove (tempRoot ++ [name])) with
      | .ok disk' => cleanup disk' rest
      | .error .notExist => cleanup disk rest
      | .error (.other text) =>
        (.error ("remove stale transfer " ++ (trimPart name).getD "" ++ ": " ++ text), disk)
    else cleanup disk rest

def cleanupTemp (disk : FS) : Except String Unit × FS :=
  match faults.readDir with
  | some text => (.error ("scan transfer temporary directory: " ++ text), disk)
  | none => cleanup faults disk (disk.readDir tempRoot)

/-- `Register`, up to the resources it registers. -/
def register (config : Config) (disk : FS) : Except String Controller × FS :=
  match config.limits with
  | .error text => (.error text, disk)
  | .ok limits =>
    match ensureDirectory faults disk tempRoot with
    | (.error text, disk) => (.error text, disk)
    | (.ok (), disk) =>
      match cleanupTemp faults disk with
      | (.error text, disk) => (.error text, disk)
      | (.ok (), disk) => (.ok { limits, disk }, disk)

end Controller

end Upload
