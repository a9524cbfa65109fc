/-
The enrollment credential of a device (`runtime/auth/enrollment_client_store.go`).

A device records the parent and the authority it has observed and the grant it was given.
Every change is validated, saved and only then adopted.  Once enrolled, the parent and the
authority are fixed, but `RecordGrant` takes any further valid grant of that authority for the
device and compares it with the stored one in neither its Node ID nor its enrollment ID.

* `Opened` — the credential in memory is valid and is the one on the disk;
* **`identity_kept`** — if every accepted grant of an enrolled device repeats the Node ID and
  the enrollment ID, the device keeps its identity; a call that fails changes nothing;
* `identity_replaced` — a second valid grant gives the device another Node ID.
-/
import MyFlowHub.EnrollmentProcess

open Checks Protocol
open Encoding Runs

namespace Enrollment

/-! ### Credentials -/

/-- The status of a credential; `other` is every text the checks refuse. -/
inductive ClientStatus where
  | device | pending | enrolled
  | other (text : String)
  deriving DecidableEq

/-- `EnrollmentCredential`. -/
structure EnrollmentCredential where
  version : ℤ
  status : ClientStatus
  requestID : String
  devicePublicKey : Bytes
  devicePrivateKey : Bytes
  grant : Option EnrollmentGrantV1
  parentNodeID : NodeID
  parentPublicKey : Bytes
  authorityNodeID : NodeID
  authorityPublicKey : Bytes
  deriving DecidableEq

def enrollmentClientStateVersion : ℤ := 1

/-- `ErrEnrollmentConflict`. -/
def enrollmentConflict : String := "enrollment state conflicts with the request"

def orError {α : Type} (x : Option α) (text : String) : Except String α :=
  match x with
  | some a => .ok a
  | none => .error text

@[simp] theorem orError_eq_ok {α : Type} {x : Option α} {text : String} {a : α} :
    orError x text = .ok a ↔ x = some a := by
  cases x <;> simp [orError]

section

variable (crypto : Crypto)

/-- `DeviceIdentity.Validate`. -/
def validateDevice (publicKey privateKey : Bytes) : Except String Unit := do
  require (publicKey.length = publicKeySize ∧ privateKey.length = privateKeySize)
    "device identity requires an Ed25519 key pair"
  require (crypto.publicOf privateKey = publicKey)
    "device identity public and private keys do not match"

/-- `validateEnrollmentObservation`. -/
def validateEnrollmentObservation (parentNodeID : NodeID) (parentPublicKey : Bytes)
    (authorityNodeID : NodeID) (authorityPublicKey : Bytes) : Except String Unit := do
  within "Enrollment parent" (validateNodeID parentNodeID)
  require (parentPublicKey.length = publicKeySize) "Enrollment parent public key must be Ed25519"
  within "Enrollment Authority" (validateNodeID authorityNodeID)
  require (authorityPublicKey.length = publicKeySize)
    "Enrollment Authority public key must be Ed25519"

namespace EnrollmentCredential

variable (c : EnrollmentCredential)

/-- The grant repeats what the credential says. -/
def matchesGrant (grant : EnrollmentGrantV1) : Prop :=
  grant.devicePublicKey = crypto.encode64 c.devicePublicKey ∧
    grant.parentNodeID = formatUint c.parentNodeID ∧
    grant.parentPublicKey = crypto.encode64 c.parentPublicKey ∧
    grant.authorityNodeID = formatUint c.authorityNodeID ∧
    grant.authorityPublicKey = crypto.encode64 c.authorityPublicKey

instance (grant : EnrollmentGrantV1) : Decidable (c.matchesGrant crypto grant) :=
  inferInstanceAs (Decidable (_ ∧ _))

/-- `validateEnrollmentCredential`. -/
def validate : Except String Unit := do
  require (c.version = enrollmentClientStateVersion)
    ("unsupported state version " ++ toString c.version)
  validateEnrollmentHexID "enrollment request ID" c.requestID 16
  validateDevice crypto c.devicePublicKey c.devicePrivateKey
  match c.status with
  | .device =>
    require (c.grant = none ∧ c.parentNodeID = 0 ∧ c.authorityNodeID = 0 ∧
        c.parentPublicKey = [] ∧ c.authorityPublicKey = [])
      "device state cannot contain Enrollment trust or Grant"
  | .pending =>
    require (c.grant = none) "pending state cannot contain a Grant"
    validateEnrollmentObservation c.parentNodeID c.parentPublicKey c.authorityNodeID
      c.authorityPublicKey
  | .enrolled =>
    let grant ← orError c.grant "enrolled state requires a Grant"
    validateEnrollmentObservation c.parentNodeID c.parentPublicKey c.authorityNodeID
      c.authorityPublicKey
    verifyEnrollmentGrant crypto c.authorityPublicKey grant
    require (c.matchesGrant crypto grant) "persisted Enrollment Grant does not match client state"
  | .other text => .error ("invalid enrollment client status " ++ text.quote)

/-- The parent and the authority are the stored ones. -/
def sameTrust (parentNodeID : NodeID) (parentPublicKey : Bytes) (authorityNodeID : NodeID)
    (authorityPublicKey : Bytes) : Prop :=
  c.parentNodeID = parentNodeID ∧ c.authorityNodeID = authorityNodeID ∧
    c.parentPublicKey = parentPublicKey ∧ c.authorityPublicKey = authorityPublicKey

instance (parentNodeID : NodeID) (parentPublicKey : Bytes) (authorityNodeID : NodeID)
    (authorityPublicKey : Bytes) :
    Decidable (c.sameTrust parentNodeID parentPublicKey authorityNodeID authorityPublicKey) :=
  inferInstanceAs (Decidable (_ ∧ _))

/-- `RecordObservation` up to the commit; an enrolled device has nothing to commit. -/
def observed (parentNodeID : NodeID) (parentPublicKey : Bytes) (authorityNodeID : NodeID)
    (authorityPublicKey : Bytes) : Except String (Option EnrollmentCredential) := do
  validateEnrollmentObservation parentNodeID parentPublicKey authorityNodeID authorityPublicKey
  if c.status = .enrolled then
    require (c.sameTrust parentNodeID parentPublicKey authorityNodeID authorityPublicKey)
      enrollmentConflict
    return none
  else
    require (c.parentNodeID = 0 ∨
      c.sameTrust parentNodeID parentPublicKey authorityNodeID authorityPublicKey)
      enrollmentConflict
    return some { c with
      status := .pending
      parentNodeID := parentNodeID
      parentPublicKey := parentPublicKey
      authorityNodeID := authorityNodeID
      authorityPublicKey := authorityPublicKey }

/-- `RecordGrant` up to the commit. -/
def granted (grant : EnrollmentGrantV1) : Except String EnrollmentCredential := do
  let authorityKey ← orError (crypto.decode64 grant.authorityPublicKey)
    "Enrollment Grant Authority key is invalid"
  require (authorityKey.length = publicKeySize) "Enrollment Grant Authority key is invalid"
  verifyEnrollmentGrant crypto authorityKey grant
  require (grant.devicePublicKey = crypto.encode64 c.devicePublicKey) enrollmentConflict
  let parentNodeID ← orError (parseEnrollmentNodeID grant.parentNodeID) "invalid enrollment Node ID"
  let authorityNodeID ← orError (parseEnrollmentNodeID grant.authorityNodeID)
    "invalid enrollment Node ID"
  let parentKey := (crypto.decode64 grant.parentPublicKey).getD []
  validateEnrollmentObservation parentNodeID parentKey authorityNodeID authorityKey
  require (c.parentNodeID = 0 ∨ c.sameTrust parentNodeID parentKey authorityNodeID authorityKey)
    enrollmentConflict
  return { c with
    status := .enrolled
    grant := some grant
    parentNodeID := parentNodeID
    parentPublicKey := parentKey
    authorityNodeID := authorityNodeID
    authorityPublicKey := authorityKey }

/-- `Identity`: none while the device is not enrolled. -/
def identity : Except String (Option (NodeID × Bytes × Bytes)) :=
  match c.status, c.grant with
  | .enrolled, some grant =>
    match parseEnrollmentNodeID grant.nodeID with
    | none => .error "persisted Enrollment Grant Node ID is invalid"
    | some nodeID => do
      validateDevice crypto c.devicePublicKey c.devicePrivateKey
      validateNodeID nodeID
      return some (nodeID, c.devicePublicKey, c.devicePrivateKey)
  | _, _ => .ok none

end EnrollmentCredential

/-! ### The state in memory and on the disk -/

structure Client where
  state : EnrollmentCredential
  disk : Option EnrollmentCredential
  deriving DecidableEq

/-- What `GenerateDeviceIdentity` and `NewMessageID` return. -/
structure Generated where
  publicKey : Bytes
  privateKey : Bytes
  requestID : Bytes

def Generated.credential (g : Generated) : EnrollmentCredential where
  version := enrollmentClientStateVersion
  status := .device
  requestID := hexEncode g.requestID
  devicePublicKey := g.publicKey
  devicePrivateKey := g.privateKey
  grant := none
  parentNodeID := 0
  parentPublicKey := []
  authorityNodeID := 0
  authorityPublicKey := []

/-- `LoadOrCreateEnrollmentClientStateWithStore`; `fault` is the error of the save. -/
def loadOrCreate (generated : Generated) (fault : Option String)
    (disk : Option EnrollmentCredential) : Except String Client :=
  match disk with
  | some state => do
    within "load enrollment client state" (state.validate crypto)
    return ⟨state, disk⟩
  | none => do
    let state := generated.credential
    match Commit.slot fault state disk with
    | (some text, _) => .error ("initialize enrollment client state: " ++ text)
    | (none, disk') =>
      within "load enrollment client state" (state.validate crypto)
      return ⟨state, disk'⟩

inductive ClientCall where
  | recordObservation (parentNodeID : NodeID) (parentPublicKey : Bytes) (authorityNodeID : NodeID)
      (authorityPublicKey : Bytes)
  | recordGrant (grant : EnrollmentGrantV1)
  /-- the credential is loaded again from the disk -/
  | reload (generated : Generated)

namespace Client

variable (s : Client)

/-- `commitLocked`. -/
def commitLocked (fault : Option String) (next : EnrollmentCredential) : Option String × Client :=
  let refusal := match next.validate crypto with
    | .ok () => none
    | .error text => some text
  match Commit.commit (Commit.slot fault) refusal "persist enrollment client state" next s.state
      next s.disk with
  | (err, state, disk) => (err, ⟨state, disk⟩)

def call (fault : Option String) : ClientCall → Option String × Client
  | .recordObservation parentNodeID parentPublicKey authorityNodeID authorityPublicKey =>
    match s.state.observed parentNodeID parentPublicKey authorityNodeID authorityPublicKey with
    | .error text => (some text, s)
    | .ok none => (none, s)
    | .ok (some next) => s.commitLocked crypto fault next
  | .recordGrant grant =>
    match s.state.granted crypto grant with
    | .error text => (some text, s)
    | .ok next => s.commitLocked crypto fault next
  | .reload generated =>
    match loadOrCreate crypto generated fault s.disk with
    | .error text => (some text, s)
    | .ok s' => (none, s')

def step (s : Client) (a : Option String × ClientCall) : Client := (s.call crypto a.1 a.2).2

end Client

end

/-! ### Calls that fail and calls that change something -/

variable {crypto : Crypto}

theorem Client.commitLocked_cases (s : Client) (fault : Option String)
    (next : EnrollmentCredential) :
    (∃ text, s.commitLocked crypto fault next = (some text, s)) ∨
      s.commitLocked crypto fault next = (none, ⟨next, some next⟩) ∧
        next.validate crypto = .ok () := by
  unfold Client.commitLocked Commit.commit Commit.slot
  cases hvalid : next.validate crypto with
  | error text => exact .inl ⟨text, rfl⟩
  | ok u =>
    cases fault with
    | some text => exact .inl ⟨_, rfl⟩
    | none => exact .inr ⟨rfl, rfl⟩

inductive Adopted (crypto : Crypto) (s : Client) : ClientCall → EnrollmentCredential → Prop where
  | observed {parentNodeID parentPublicKey authorityNodeID authorityPublicKey next}
      (h : s.state.observed parentNodeID parentPublicKey authorityNodeID authorityPublicKey =
        .ok (some next)) :
      Adopted crypto s
        (.recordObservation parentNodeID parentPublicKey authorityNodeID authorityPublicKey) next
  | granted {grant next} (h : s.state.granted crypto grant = .ok next) :
      Adopted crypto s (.recordGrant grant) next

/-- The credential in memory is valid and is the one on the disk. -/
structure Opened (crypto : Crypto) (s : Client) : Prop where
  disk : s.disk = some s.state
  valid : s.state.validate crypto = .ok ()

variable {b : Binding} {s : Client} {c : EnrollmentCredential}

theorem loadOrCreate_opened {generated : Generated} {fault : Option String}
    {disk : Option EnrollmentCredential} (h : loadOrCreate crypto generated fault disk = .ok s) :
    Opened crypto s := by
  unfold loadOrCreate at h
  cases disk with
  | some state =>
    simp only [bind_eq_ok, within_eq_ok] at h
    obtain ⟨_, hvalid, hs⟩ := h
    cases hs
    exact ⟨rfl, hvalid⟩
  | none =>
    cases fault with
    | some text => cases h
    | none =>
      simp only [Commit.slot, bind_eq_ok, within_eq_ok] at h
      obtain ⟨_, hvalid, hs⟩ := h
      cases hs
      exact ⟨rfl, hvalid⟩

theorem Opened.reload (h : Opened crypto s) (generated : Generated) (fault : Option String) :
    loadOrCreate crypto generated fault s.disk = .ok s := by
  obtain ⟨state, disk⟩ := s
  obtain rfl : disk = some state := h.disk
  have hvalid : state.validate crypto = .ok () := h.valid
  simp only [loadOrCreate, hvalid]
  rfl

variable (crypto) in
/-- A call returns an error and changes nothing, or changes nothing, or adopts a valid
credential in memory and on the disk. -/
theorem Client.call_cases (s : Client) (fault : Option String) (c : ClientCall) :
    (∃ text, s.call crypto fault c = (some text, s)) ∨ s.call crypto fault c = (none, s) ∨
      (∃ next, Adopted crypto s c next ∧ next.validate crypto = .ok () ∧
        s.call crypto fault c = (none, ⟨next, some next⟩)) ∨
      ∃ generated s', c = .reload generated ∧ s.call crypto fault c = (none, s') ∧
        loadOrCreate crypto generated fault s.disk = .ok s' := by
  cases c with
  | recordObservation parentNodeID parentPublicKey authorityNodeID authorityPublicKey =>
    simp only [Client.call]
    cases hnext : s.state.observed parentNodeID parentPublicKey authorityNodeID
      authorityPublicKey with
    | error text => exact .inl ⟨text, rfl⟩
    | ok next =>
      cases next with
      | none => exact .inr (.inl rfl)
      | some next =>
        rcases s.commitLocked_cases fault next with hfailed | ⟨hdone, hvalid⟩
        · exact .inl hfailed
        · exact .inr (.inr (.inl ⟨next, .observed hnext, hvalid, hdone⟩))
  | recordGrant grant =>
    simp only [Client.call]
    cases hnext : s.state.granted crypto grant with
    | error text => exact .inl ⟨text, rfl⟩
    | ok next =>
      rcases s.commitLocked_cases fault next with hfailed | ⟨hdone, hvalid⟩
      · exact .inl hfailed
      · exact .inr (.inr (.inl ⟨next, .granted hnext, hvalid, hdone⟩))
  | reload generated =>
    simp only [Client.call]
    cases hload : loadOrCreate crypto generated fault s.disk with
    | error text => exact .inl ⟨text, rfl⟩
    | ok s' => exact .inr (.inr (.inr ⟨generated, s', rfl, rfl, hload⟩))

theorem Opened.step (h : Opened crypto s) (a : Option String × ClientCall) :
    Opened crypto (s.step crypto a) := by
  unfold Client.step
  rcases s.call_cases crypto a.1 a.2 with ⟨text, heq⟩ | heq | ⟨next, -, hvalid, heq⟩ |
    ⟨generated, s', -, heq, hload⟩
  · rwa [heq]
  · rwa [heq]
  · rw [heq]
    exact ⟨rfl, hvalid⟩
  · rw [heq]
    exact loadOrCreate_opened hload

/-! ### The identity -/

structure Binding where
  nodeID : String
  enrollmentID : String
  devicePublicKey : Bytes
  devicePrivateKey : Bytes
  parentNodeID : NodeID
  parentPublicKey : Bytes
  authorityNodeID : NodeID
  authorityPublicKey : Bytes

def EnrollmentCredential.binding (c : EnrollmentCredential) : Option Binding :=
  match c.status, c.grant with
  | .enrolled, some grant =>
    some
      { nodeID := grant.nodeID
        enrollmentID := grant.enrollmentID
        devicePublicKey := c.devicePublicKey
        devicePrivateKey := c.devicePrivateKey
        parentNodeID := c.parentNodeID
        parentPublicKey := c.parentPublicKey
        authorityNodeID := c.authorityNodeID
        authorityPublicKey := c.authorityPublicKey }
  | _, _ => none

theorem binding_eq_some :
    c.binding = some b ↔ c.status = .enrolled ∧ ∃ grant, c.grant = some grant ∧
      b = ⟨grant.nodeID, grant.enrollmentID, c.devicePublicKey, c.devicePrivateKey, c.parentNodeID,
        c.parentPublicKey, c.authorityNodeID, c.authorityPublicKey⟩ := by
  unfold EnrollmentCredential.binding
  constructor
  · intro h
    split at h
    · next grant hstatus hgrant =>
      exact ⟨hstatus, grant, hgrant, (Option.some.inj h).symm⟩
    · cases h
  · rintro ⟨hstatus, grant, hgrant, rfl⟩
    rw [hstatus, hgrant]

theorem identity_congr {c' : EnrollmentCredential} (h : c.binding = some b)
    (h' : c'.binding = some b) : c'.identity crypto = c.identity crypto := by
  obtain ⟨hstatus, grant, hgrant, rfl⟩ := binding_eq_some.mp h
  obtain ⟨hstatus', grant', hgrant', heq⟩ := binding_eq_some.mp h'
  obtain ⟨hnode, -, hpublic, hprivate, -⟩ := Binding.mk.inj heq
  unfold EnrollmentCredential.identity
  rw [hstatus, hgrant, hstatus', hgrant']
  dsimp only
  rw [hnode, hpublic, hprivate]

theorem binding_of_identity {identity : NodeID × Bytes × Bytes}
    (h : c.identity crypto = .ok (some identity)) : ∃ b, c.binding = some b := by
  unfold EnrollmentCredential.identity at h
  split at h
  · next grant hstatus hgrant =>
    exact ⟨_, binding_eq_some.mpr ⟨hstatus, grant, hgrant, rfl⟩⟩
  · cases h

theorem parent_ne_zero (hvalid : c.validate crypto = .ok ()) (hstatus : c.status = .enrolled) :
    c.parentNodeID ≠ 0 := by
  simp only [EnrollmentCredential.validate, hstatus, validateEnrollmentObservation, validateNodeID,
    bind_eq_ok, within_eq_ok, require_eq_ok] at hvalid
  obtain ⟨-, -, -, -, -, -, grant, -, -, ⟨-, hparent, -⟩, -⟩ := hvalid
  exact hparent

/-- Every grant that an enrolled device accepts repeats the Node ID and the enrollment ID of the
grant it has. -/
def Repeats (crypto : Crypto) (s : Client) (a : Option String × ClientCall) : Prop :=
  match a.2 with
  | .recordGrant grant => ∀ b next, s.state.binding = some b →
      s.state.granted crypto grant = .ok next →
      grant.nodeID = b.nodeID ∧ grant.enrollmentID = b.enrollmentID
  | _ => True

theorem Adopted.binding {a : Option String × ClientCall} {next : EnrollmentCredential}
    (h : Adopted crypto s a.2 next) (hs : Opened crypto s) (hrepeats : Repeats crypto s a)
    (hb : s.state.binding = some b) : next.binding = some b := by
  obtain ⟨hstatus, stored, hstored, hbind⟩ := binding_eq_some.mp hb
  obtain ⟨fault, c⟩ := a
  cases h with
  | observed h =>
    -- an enrolled device has nothing to adopt from an observation
    simp only [EnrollmentCredential.observed, hstatus, bind_eq_ok, if_true] at h
    obtain ⟨-, -, -, -, h⟩ := h
    cases h
  | @granted grant _ h =>
    obtain ⟨hnode, henrollment⟩ := hrepeats b next hb h
    simp only [EnrollmentCredential.granted, bind_eq_ok, require_eq_ok, orError_eq_ok] at h
    obtain ⟨authorityKey, -, -, -, -, -, -, -, parentNodeID, -, authorityNodeID, -, -, -, -, htrust,
      h⟩ := h
    obtain ⟨hparent, hauthority, hparentKey, hauthorityKey⟩ :=
      htrust.resolve_left (parent_ne_zero hs.valid hstatus)
    cases h
    refine binding_eq_some.mpr ⟨rfl, grant, rfl, ?_⟩
    rw [hbind] at hnode henrollment ⊢
    rw [hnode, henrollment, hparent, hauthority, hparentKey, hauthorityKey]

theorem Opened.binding_step (hs : Opened crypto s) {a : Option String × ClientCall}
    (hrepeats : Repeats crypto s a) (hb : s.state.binding = some b) :
    (s.step crypto a).state.binding = some b := by
  unfold Client.step
  rcases s.call_cases crypto a.1 a.2 with ⟨text, heq⟩ | heq | ⟨next, hnext, -, heq⟩ |
    ⟨generated, s', -, heq, hload⟩
  · rwa [heq]
  · rwa [heq]
  · rw [heq]
    exact hnext.binding hs hrepeats hb
  · rw [heq]
    rw [hs.reload] at hload
    cases hload
    exact hb

/-- **An enrolled device keeps its identity.**  From any disk, in every run in which the grants
that an enrolled device accepts repeat its Node ID and its enrollment ID: once there is an
identity, it is the identity from then on, in memory and from the disk, and the binding does not
change.  In every state, a call that returns an error leaves memory and disk as they were. -/
theorem identity_kept {generated : Generated} {fault : Option String}
    {disk : Option EnrollmentCredential} {start : Client}
    (hstart : loadOrCreate crypto generated fault disk = .ok start)
    (as later : List (Option String × ClientCall))
    (hrun : Along (Client.step crypto) (Repeats crypto) start (as ++ later)) :
    (∀ identity, (as.foldl (Client.step crypto) start).state.identity crypto = .ok (some identity) →
      ((as ++ later).foldl (Client.step crypto) start).state.identity crypto = .ok (some identity) ∧
      (∀ generated' fault', ∃ loaded, loadOrCreate crypto generated' fault'
          ((as ++ later).foldl (Client.step crypto) start).disk = .ok loaded ∧
        loaded.state.identity crypto = .ok (some identity) ∧
        loaded.state.binding = (as.foldl (Client.step crypto) start).state.binding) ∧
      ((as ++ later).foldl (Client.step crypto) start).state.binding =
        (as.foldl (Client.step crypto) start).state.binding) ∧
    ∀ (s : Client) (fault' : Option String) (c : ClientCall) (text : String),
      (s.call crypto fault' c).1 = some text → (s.call crypto fault' c).2 = s := by
  refine ⟨fun identity hidentity => ?_, fun s fault' c text htext => ?_⟩
  · obtain ⟨b, hb⟩ := binding_of_identity hidentity
    have hopened : Opened crypto (as.foldl (Client.step crypto) start) :=
      foldl_invariant (fun _ a h => h.step a) (loadOrCreate_opened hstart) as
    obtain ⟨hopened', hb'⟩ : Opened crypto ((as ++ later).foldl (Client.step crypto) start) ∧
        ((as ++ later).foldl (Client.step crypto) start).state.binding = some b := by
      rw [List.foldl_append]
      exact foldl_along (I := fun s => Opened crypto s ∧ s.state.binding = some b)
        (fun _ a h hrepeats => ⟨h.1.step a, h.1.binding_step hrepeats h.2⟩) ⟨hopened, hb⟩
        (along_append.mp hrun).2
    have hidentity' := (identity_congr hb hb').trans hidentity
    exact ⟨hidentity', fun generated' fault' => ⟨_, hopened'.reload generated' fault', hidentity',
      hb'.trans hb.symm⟩, hb'.trans hb.symm⟩
  · rcases s.call_cases crypto fault' c with ⟨text', heq⟩ | heq | ⟨next, -, -, heq⟩ |
      ⟨generated', s', -, heq, -⟩
    · rw [heq]
    · rw [heq] at htext
      cases htext
    · rw [heq] at htext
      cases htext
    · rw [heq] at htext
      cases htext

/-! ### A second grant -/

def plainDevice : Generated := ⟨List.replicate 32 7, List.replicate 64 7, List.replicate 16 5⟩

/-- A grant of the authority for the device under node 2. -/
def plainGrant (enrollment : UInt8) (nodeID : NodeID) : EnrollmentGrantV1 :=
  EnrollmentGrantV1.signed plainIdentity
    { version := 1
      enrollmentID := plainID enrollment
      authorityNodeID := "1"
      authorityPublicKey := charsOf (List.replicate 32 1)
      nodeID := formatUint nodeID
      devicePublicKey := charsOf (List.replicate 32 7)
      parentNodeID := "2"
      parentPublicKey := charsOf (List.replicate 32 2)
      admissionProfile := "edge"
      authorityEpoch := 1
      issuedAtUnixMS := 1
      signature := "" }

def newClient : Client := ⟨plainDevice.credential, some plainDevice.credential⟩

/-- The device records a grant, is told of another parent, and records the grant again. -/
theorem identity_kept_again :
    loadOrCreate plainCrypto plainDevice none none = .ok newClient ∧
    ([(none, .recordGrant (plainGrant 20 100))].foldl (Client.step plainCrypto)
      newClient).state.identity plainCrypto =
        .ok (some (100, List.replicate 32 7, List.replicate 64 7)) ∧
    ([(none, .recordGrant (plainGrant 20 100)),
      (none, .recordObservation 3 (List.replicate 32 3) 1 (List.replicate 32 1)),
      (none, .recordGrant (plainGrant 20 100))].foldl (Client.step plainCrypto)
        newClient).state.identity plainCrypto =
          .ok (some (100, List.replicate 32 7, List.replicate 64 7)) := by
  have hstart : loadOrCreate plainCrypto plainDevice none none = .ok newClient := by
    decide +kernel
  have hidentity : ([(none, .recordGrant (plainGrant 20 100))].foldl (Client.step plainCrypto)
      newClient).state.identity plainCrypto =
        .ok (some (100, List.replicate 32 7, List.replicate 64 7)) := by
    decide +kernel
  refine ⟨hstart, hidentity, ?_⟩
  have hbound : ((Client.step plainCrypto (Client.step plainCrypto newClient
      (none, .recordGrant (plainGrant 20 100)))
      (none, .recordObservation 3 (List.replicate 32 3) 1 (List.replicate 32 1))).state.binding.map
        fun b => (b.nodeID, b.enrollmentID)) =
      some ((plainGrant 20 100).nodeID, (plainGrant 20 100).enrollmentID) := by
    decide +kernel
  refine ((identity_kept hstart [(none, .recordGrant (plainGrant 20 100))]
    [(none, .recordObservation 3 (List.replicate 32 3) 1 (List.replicate 32 1)),
      (none, .recordGrant (plainGrant 20 100))] ⟨fun b next hb => ?_, trivial,
        fun b next hb _ => ?_, trivial⟩).1 _ hidentity).1
  · cases hb
  · rw [hb] at hbound
    obtain ⟨hnode, henrollment⟩ := Prod.mk.inj (Option.some.inj hbound)
    exact ⟨hnode.symm, henrollment.symm⟩

/-- The device records a second valid grant of the authority, and has another Node ID and
another enrollment ID. -/
theorem identity_replaced :
    loadOrCreate plainCrypto plainDevice none none = .ok newClient ∧
    [plainGrant 20 100, plainGrant 21 101].map (fun grant =>
      verifyEnrollmentGrant plainCrypto plainIdentity.publicKey grant) = [.ok (), .ok ()] ∧
    ([(none, .recordGrant (plainGrant 20 100))].foldl (Client.step plainCrypto)
      newClient).state.identity plainCrypto =
        .ok (some (100, List.replicate 32 7, List.replicate 64 7)) ∧
    ([(none, .recordGrant (plainGrant 20 100)), (none, .recordGrant (plainGrant 21 101))].foldl
      (Client.step plainCrypto) newClient).state.identity plainCrypto =
        .ok (some (101, List.replicate 32 7, List.replicate 64 7)) := by
  decide +kernel

end Enrollment
