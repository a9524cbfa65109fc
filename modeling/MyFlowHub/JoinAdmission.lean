/-
The first join of a child (`Node.acceptChild` in `runtime/node/connection.go`).

A claim whose key is not trusted is let in by a permit: the permit is consumed, then the key is
added to the trust store.  Each of the two saves its own file, and the second may be refused when
the first is done.

* `JoinState.acceptChild` — the part of `acceptChild` that looks at trust and admission;
* `join_atomic_iff` — the permit is consumed exactly when the key is trusted, unless `Add` is
  refused after `Consume`;
* `burned_permit` — a node known under another key spends its permit for nothing.
-/
import MyFlowHub.AdmissionPermits

open Checks Protocol
open Std Encoding Tables
open Enrollment (Identity Time publicKeySize signatureSize unixMilli second)

namespace Provisioning

/-! ### Claims -/

structure JoinClaim where
  nodeID : NodeID
  publicKey : Bytes
  nonce : Bytes
  topologyEpoch : UInt64
  permit : Option ProvisioningPermitV1
  signature : Bytes
  deriving DecidableEq

def joinMessage (nodeID : NodeID) (nonce : Bytes) (topologyEpoch : UInt64) : Bytes :=
  Enrollment.bytesOf "MFH4-JOIN" ++ (bigEndian 8 nodeID.toNat ++
    (nonce ++ bigEndian 8 topologyEpoch.toNat))

variable {crypto : PermitCrypto}

def verifyJoinClaim (crypto : PermitCrypto) (claim : JoinClaim) : Except String Unit := do
  validateNodeID claim.nodeID
  require (claim.publicKey.length = publicKeySize ∧ claim.topologyEpoch ≠ 0 ∧
      claim.signature.length = signatureSize ∧ crypto.verify claim.publicKey
        (joinMessage claim.nodeID claim.nonce claim.topologyEpoch) claim.signature = true)
    "invalid join signature"

inductive JoinError where
  | untrustedIdentity
  | other (text : String)
  deriving DecidableEq

def JoinError.text : JoinError → String
  | untrustedIdentity => "untrusted identity"
  | other text => text

/-- `TrustStore.VerifyJoin`. -/
def verifyJoin (crypto : PermitCrypto) (trust : Auth.TrustStore) (claim : JoinClaim) :
    Except JoinError Unit :=
  if trust.keys[claim.nodeID]? = some claim.publicKey then
    (verifyJoinClaim crypto claim).mapError .other
  else .error .untrustedIdentity

/-! ### Admission -/

/-- The two stores of a node, each with its file. -/
structure JoinState (crypto : PermitCrypto) where
  trust : Auth.TrustStore
  trustDisk : Option Auth.TrustState
  admission : Option (Admission crypto)
  admissionDisk : Disk

namespace JoinState

variable (s : JoinState crypto)

/-- `acceptChild` from `VerifyJoin` to `TrustStore.Add`, with the outcomes of the two saves. -/
def acceptChild (claim : JoinClaim) (now : Time) (admissionFault trustFault : Option String) :
    Except String Unit × JoinState crypto :=
  match verifyJoin crypto s.trust claim with
  | .ok () => (.ok (), s)
  | .error err =>
    match err, s.admission, claim.permit with
    | .untrustedIdentity, some a, some permit =>
      match verifyJoinClaim crypto claim with
      | .error text => (.error ("verify untrusted child claim: " ++ text), s)
      | .ok () =>
        match a.consume claim.nodeID claim.publicKey permit now admissionFault s.admissionDisk with
        | (.error text, a, disk) =>
          (.error ("admit child: " ++ text), { s with admission := some a, admissionDisk := disk })
        | (.ok (), a, disk) =>
          match s.trust.add (Commit.slot trustFault) claim.nodeID claim.publicKey s.trustDisk with
          | (some text, trust, trustDisk) =>
            (.error ("persist admitted child trust: " ++ text), ⟨trust, trustDisk, some a, disk⟩)
          | (none, trust, trustDisk) => (.ok (), ⟨trust, trustDisk, some a, disk⟩)
    | _, _, _ => (.error ("verify child join: " ++ err.text), s)

/-- The record of the permit says that it was used. -/
def Consumed (permit : ProvisioningPermitV1) : Prop :=
  ∃ a record, s.admission = some a ∧ a.state.records[permit.permitID]? = some record ∧
    record.permit = permit ∧ record.status = .consumed

def Trusted (claim : JoinClaim) : Prop := s.trust.keys[claim.nodeID]? = some claim.publicKey

structure InSync : Prop where
  trust : ∃ r, s.trustDisk = some r ∧ Auth.TrustStore.Describes r s.trust
  admission : ∀ a, s.admission = some a →
    ∃ r, s.admissionDisk = some r ∧ Auth.Admission.Describes r a.state

end JoinState

/-- What `acceptChild` and `Consume` check before the permit is used up, and the save. -/
structure Consumable (a : Admission crypto) (claim : JoinClaim) (permit : ProvisioningPermitV1)
    (now : Time) (fault : Option String) : Prop where
  signed : verifyJoinClaim crypto claim = .ok ()
  verify : a.verify claim.nodeID claim.publicKey permit = .ok ()
  window : permit.issuedAtUnixMS ≤ unixMilli now ∧ unixMilli now < permit.expiresAtUnixMS
  generation : a.state.generation ≠ 0xffffffffffffffff
  saved : fault = none

/-- What `Add` needs of a valid claim: a node that is not known, and the save. -/
structure Addable (trust : Auth.TrustStore) (claim : JoinClaim) (fault : Option String) : Prop where
  unknown : trust.keys[claim.nodeID]? = none
  generation : trust.generation ≠ 0xffffffffffffffff
  saved : fault = none

/-! ### What the two calls do -/

section Consume

variable {a : Admission crypto} {claim : JoinClaim} {permit : ProvisioningPermitV1} {now : Time}
  {fault : Option String} (disk : Disk)

theorem prepareConsume_of_active {record : PermitRecord}
    (hfound : a.state.records[permit.permitID]? = some record) (hsame : record.permit = permit)
    (hactive : record.status = .active) (hverify : a.verify claim.nodeID claim.publicKey
      permit = .ok ())
    (hwindow : permit.issuedAtUnixMS ≤ unixMilli now ∧ unixMilli now < permit.expiresAtUnixMS) :
    a.prepareConsume claim.nodeID claim.publicKey permit now =
      .ok (a.state.records.insert permit.permitID
        { record with status := .consumed, consumedAt := unixMilli now }) := by
  unfold Admission.prepareConsume
  rw [bind_eq_ok]
  refine ⟨(), hverify, ?_⟩
  rw [hfound]
  dsimp only
  rw [bind_eq_ok]
  refine ⟨(), require_eq_ok.2 (hsame ▸ samePermit_self crypto _), ?_⟩
  rw [hactive]
  dsimp only
  rw [bind_eq_ok]
  exact ⟨(), require_eq_ok.2 hwindow, rfl⟩

theorem consume_of_consumable {record : PermitRecord}
    (hfound : a.state.records[permit.permitID]? = some record) (hsame : record.permit = permit)
    (hactive : record.status = .active) (h : Consumable a claim permit now fault) :
    ∃ state, a.consume claim.nodeID claim.publicKey permit now fault disk =
        (.ok (), { a with state := state }, some
          (Auth.Admission.record state.records state.generation)) ∧
      state.records[permit.permitID]? =
        some { record with status := .consumed, consumedAt := unixMilli now } := by
  have hrefusal : a.state.refusal = none := if_neg h.generation
  refine ⟨⟨a.state.generation + 1, a.state.records.insert permit.permitID
    { record with status := .consumed, consumedAt := unixMilli now }⟩, ?_, ?_⟩
  · rw [Admission.consume, prepareConsume_of_active hfound hsame hactive h.verify h.window, h.saved]
    simp only [Admission.finish, Auth.Admission.commitLocked, Commit.commit, hrefusal, Commit.slot]
  · dsimp only
    rw [lookup_insert_self]

theorem consume_of_not_consumable (hclaim : verifyJoinClaim crypto claim = .ok ())
    (h : ¬Consumable a claim permit now fault) :
    ∃ text, a.consume claim.nodeID claim.publicKey permit now fault disk =
      (.error text, a, disk) := by
  cases hprepare : a.prepareConsume claim.nodeID claim.publicKey permit now with
  | error text =>
    refine ⟨text, ?_⟩
    simp only [Admission.consume, hprepare]
  | ok next =>
    obtain ⟨record, hsame, hfound, hactive, -, hwindow, -⟩ :=
      Admission.prepareConsume_eq_ok hprepare
    have hverify : a.verify claim.nodeID claim.publicKey permit = .ok () := by
      unfold Admission.prepareConsume at hprepare
      rw [bind_eq_ok] at hprepare
      exact hprepare.choose_spec.1
    simp only [Admission.consume, hprepare, Admission.finish, Auth.Admission.commitLocked,
      Commit.commit]
    cases hrefusal : a.state.refusal with
    | some text => exact ⟨text, rfl⟩
    | none =>
      cases fault with
      | some text => exact ⟨_, rfl⟩
      | none =>
        have hgeneration : a.state.generation ≠ 0xffffffffffffffff := by
          intro heq
          rw [Auth.Admission.refusal, if_pos heq] at hrefusal
          cases hrefusal
        exact absurd ⟨hclaim, hverify, hwindow, hgeneration, rfl⟩ h

end Consume

section Add

variable {trust : Auth.TrustStore} {claim : JoinClaim} {fault : Option String}
  (disk : Option Auth.TrustState)

theorem claim_bounds (h : verifyJoinClaim crypto claim = .ok ()) :
    claim.nodeID ≠ 0 ∧ claim.publicKey.length = publicKeySize := by
  simp only [verifyJoinClaim, validateNodeID, bind_eq_ok, require_eq_ok] at h
  obtain ⟨-, hnode, hkey, -⟩ := h
  exact ⟨hnode, hkey⟩

theorem add_of_addable (hclaim : verifyJoinClaim crypto claim = .ok ())
    (h : Addable trust claim fault) :
    ∃ next : Auth.TrustStore, trust.add (Commit.slot fault) claim.nodeID claim.publicKey disk =
        (none, next, some (Auth.TrustStore.record next.keys next.generation)) ∧
      next.keys[claim.nodeID]? = some claim.publicKey := by
  obtain ⟨hnode, hkey⟩ := claim_bounds hclaim
  have hkeys : trust.addKeys claim.nodeID claim.publicKey =
      .ok (trust.keys.insert claim.nodeID claim.publicKey) := by
    rw [Auth.TrustStore.addKeys, if_neg hnode, if_neg
      (not_not.2 (show _ = 32 from hkey)), h.unknown]
  have hrefusal : trust.refusal = none := if_neg h.generation
  refine ⟨⟨trust.generation + 1, trust.keys.insert claim.nodeID claim.publicKey⟩, ?_, ?_⟩
  · rw [Auth.TrustStore.add, hkeys, h.saved]
    simp only [Auth.TrustStore.finish, Commit.commit, hrefusal, Commit.slot]
  · dsimp only
    rw [lookup_insert_self]

theorem add_of_not_addable (huntrusted : trust.keys[claim.nodeID]? ≠ some claim.publicKey)
    (h : ¬Addable trust claim fault) :
    ∃ text, trust.add (Commit.slot fault) claim.nodeID claim.publicKey disk =
      (some text, trust, disk) := by
  unfold Auth.TrustStore.add Auth.TrustStore.addKeys
  split_ifs with hnode hkey
  · exact ⟨_, rfl⟩
  · exact ⟨_, rfl⟩
  · cases hcurrent : trust.keys[claim.nodeID]? with
    | some current =>
      have hne : current ≠ claim.publicKey := fun heq => huntrusted (heq ▸ hcurrent)
      refine ⟨"identity " ++ toString claim.nodeID.toNat ++ " already has a different key", ?_⟩
      simp only [Auth.TrustStore.finish, if_pos hne]
    | none =>
      simp only [Auth.TrustStore.finish, Commit.commit]
      cases hrefusal : trust.refusal with
      | some text => exact ⟨text, rfl⟩
      | none =>
        cases fault with
        | some text => exact ⟨_, rfl⟩
        | none =>
          have hgeneration : trust.generation ≠ 0xffffffffffffffff := by
            intro heq
            rw [Auth.TrustStore.refusal, if_pos heq] at hrefusal
            cases hrefusal
          exact absurd ⟨hcurrent, hgeneration, rfl⟩ h

end Add

/-! ### Both together -/

section Admit

variable {s : JoinState crypto} {a : Admission crypto} {claim : JoinClaim}
  {permit : ProvisioningPermitV1} {record : PermitRecord} {now : Time}
  {admissionFault trustFault : Option String}

theorem acceptChild_cases (hadmission : s.admission = some a) (hpermit : claim.permit = some permit)
    (hfound : a.state.records[permit.permitID]? = some record) (hsame : record.permit = permit)
    (hactive : record.status = .active) (huntrusted : ¬s.Trusted claim) :
    let s' := (s.acceptChild claim now admissionFault trustFault).2
    (¬Consumable a claim permit now admissionFault ∧ s' = s) ∨
      ∃ state : Auth.Admission PermitRecord, state.records[permit.permitID]? =
          some { record with status := .consumed, consumedAt := unixMilli now } ∧
        Consumable a claim permit now admissionFault ∧
        ((¬Addable s.trust claim trustFault ∧
            s' = ⟨s.trust, s.trustDisk, some { a with state := state },
              some (Auth.Admission.record state.records state.generation)⟩) ∨
          ∃ next : Auth.TrustStore, Addable s.trust claim trustFault ∧
            next.keys[claim.nodeID]? = some claim.publicKey ∧
            s' = ⟨next, some (Auth.TrustStore.record next.keys next.generation),
              some { a with state := state },
              some (Auth.Admission.record state.records state.generation)⟩) := by
  intro s'
  have hs' : s' = (s.acceptChild claim now admissionFault trustFault).2 := rfl
  -- a claim that is not trusted goes to `Consume`, and from there to `Add`
  have hverify : verifyJoin crypto s.trust claim = .error .untrustedIdentity := if_neg huntrusted
  rw [JoinState.acceptChild, hverify, hadmission, hpermit] at hs'
  dsimp only at hs'
  cases hclaim : verifyJoinClaim crypto claim with
  | error text =>
    rw [hclaim] at hs'
    refine .inl ⟨fun h => ?_, hs'⟩
    rw [h.signed] at hclaim
    cases hclaim
  | ok u =>
    rw [hclaim] at hs'
    by_cases hconsumable : Consumable a claim permit now admissionFault
    · obtain ⟨state, hconsume, hrecord⟩ :=
        consume_of_consumable s.admissionDisk hfound hsame hactive hconsumable
      refine .inr ⟨state, hrecord, hconsumable, ?_⟩
      rw [hconsume] at hs'
      by_cases haddable : Addable s.trust claim trustFault
      · obtain ⟨next, hadd, htrusted⟩ := add_of_addable s.trustDisk hclaim haddable
        rw [hadd] at hs'
        exact .inr ⟨next, haddable, htrusted, hs'⟩
      · obtain ⟨text, hadd⟩ := add_of_not_addable s.trustDisk huntrusted haddable
        rw [hadd] at hs'
        exact .inl ⟨haddable, hs'⟩
    · obtain ⟨text, hconsume⟩ :=
        consume_of_not_consumable s.admissionDisk hclaim hconsumable
      rw [hconsume] at hs'
      refine .inl ⟨hconsumable, hs'.trans ?_⟩
      dsimp only
      rw [← hadmission]

/-- **Join admission.**  For a claim whose key is not trusted and whose permit is active, the two
files keep up with the two stores, and the permit is consumed exactly when the key has become
trusted, if and only if the permit is not used up at all or `Add` has nothing to refuse. -/
theorem join_atomic_iff (s : JoinState crypto) (a : Admission crypto) (claim : JoinClaim)
    (permit : ProvisioningPermitV1) (record : PermitRecord) (now : Time)
    (admissionFault trustFault : Option String) (hsync : s.InSync)
    (hadmission : s.admission = some a) (hpermit : claim.permit = some permit)
    (hfound : a.state.records[permit.permitID]? = some record) (hsame : record.permit = permit)
    (hactive : record.status = .active) (huntrusted : ¬s.Trusted claim) :
    let s' := (s.acceptChild claim now admissionFault trustFault).2
    s'.InSync ∧ ((s'.Consumed permit ↔ s'.Trusted claim) ↔
      ¬Consumable a claim permit now admissionFault ∨ Addable s.trust claim trustFault) := by
  intro s'
  obtain ⟨hnot, hs'⟩ | ⟨state, hrecord, hconsumable, hadd⟩ :=
    @acceptChild_cases crypto s a claim permit record now admissionFault trustFault
      hadmission hpermit hfound hsame hactive huntrusted
  · have hunused : ¬s'.Consumed permit := by
      rintro ⟨a', record', ha', hfound', -, hstatus⟩
      rw [show s' = s from hs', hadmission] at ha'
      cases ha'
      rw [hfound] at hfound'
      cases hfound'
      rw [hactive] at hstatus
      cases hstatus
    rw [show s' = s from hs'] at hunused ⊢
    exact ⟨hsync, iff_of_true (iff_of_false hunused huntrusted) (.inl hnot)⟩
  · obtain ⟨hnot, hs'⟩ | ⟨next, haddable, htrusted, hs'⟩ := hadd
    · -- the permit is gone and the key is not trusted
      rw [show s' = _ from hs']
      have hsync' : (⟨s.trust, s.trustDisk, some { a with state := state },
          some (Auth.Admission.record state.records state.generation)⟩ : JoinState crypto).InSync :=
        ⟨hsync.trust, fun a' ha' => by cases ha'; exact ⟨_, rfl, rfl⟩⟩
      refine ⟨hsync', iff_of_false ?_ ?_⟩
      · intro hiff
        exact huntrusted (hiff.1 ⟨_, _, rfl, hrecord, hsame, rfl⟩)
      · rintro (h | h)
        · exact h hconsumable
        · exact hnot h
    · rw [show s' = _ from hs']
      have hsync' : (⟨next, some (Auth.TrustStore.record next.keys next.generation),
          some { a with state := state },
          some (Auth.Admission.record state.records state.generation)⟩ : JoinState crypto).InSync :=
        ⟨⟨_, rfl, rfl⟩, fun a' ha' => by cases ha'; exact ⟨_, rfl, rfl⟩⟩
      exact ⟨hsync', iff_of_true (iff_of_true ⟨_, _, rfl, hrecord, hsame, rfl⟩ htrusted)
        (.inr haddable)⟩

end Admit

def plainClaim : JoinClaim where
  nodeID := 2
  publicKey := List.replicate 32 2
  nonce := List.replicate 32 0
  topologyEpoch := 1
  permit := some plainPermit
  signature := List.replicate 64 0

def plainRecord : PermitRecord := { permit := plainPermit, status := .active }

def plainAdmission : Admission plainPermitCrypto :=
  ⟨Enrollment.plainIdentity, 3600 * second, 10,
    ⟨2, (∅ : Records).insert plainPermit.permitID plainRecord⟩⟩

/-- Node 1 with the permit of node 2, and with these keys. -/
def plainJoin (keys : Auth.Keys) : JoinState plainPermitCrypto where
  trust := ⟨1, keys⟩
  trustDisk := some (Auth.TrustStore.record keys 1)
  admission := some plainAdmission
  admissionDisk := some (Auth.Admission.record plainAdmission.state.records 2)

theorem plainJoin_inSync (keys : Auth.Keys) : (plainJoin keys).InSync :=
  ⟨⟨_, rfl, rfl⟩, fun a ha => by cases ha; exact ⟨_, rfl, rfl⟩⟩

theorem plainAdmission_lookup :
    plainAdmission.state.records[plainPermit.permitID]? = some plainRecord :=
  lookup_insert_self _ _ _

theorem join_atomic_iff_plain :
    let s' := ((plainJoin ∅).acceptChild plainClaim (2 * second) none none).2
    s'.InSync ∧ ((s'.Consumed plainPermit ↔ s'.Trusted plainClaim) ↔
      ¬Consumable plainAdmission plainClaim plainPermit (2 * second) none ∨
        Addable (plainJoin ∅).trust plainClaim none) :=
  join_atomic_iff (plainJoin ∅) plainAdmission plainClaim plainPermit plainRecord
    (2 * second) none none
    (plainJoin_inSync ∅) rfl rfl plainAdmission_lookup rfl rfl
    (by unfold JoinState.Trusted; decide +kernel)

/-- Node 2 is known under another key: its permit is consumed, and its key is not trusted. -/
theorem burned_permit :
    let s := plainJoin ((∅ : Auth.Keys).insert 2 (List.replicate 32 9))
    let s' := (s.acceptChild plainClaim (2 * second) none none).2
    s.InSync ∧ ¬s.Trusted plainClaim ∧ s'.Consumed plainPermit ∧ ¬s'.Trusted plainClaim := by
  intro s s'
  have hstatus : (s'.admission.bind fun a => a.state.records[plainPermit.permitID]?) =
      some { plainRecord with status := .consumed, consumedAt := 2000 } := by
    decide +kernel
  obtain ⟨a, ha, hrecord⟩ := Option.bind_eq_some_iff.1 hstatus
  refine ⟨plainJoin_inSync _, ?_, ⟨a, _, ha, hrecord, rfl, rfl⟩, ?_⟩
  · show ¬s.trust.keys[plainClaim.nodeID]? = some plainClaim.publicKey
    decide +kernel
  · show ¬s'.trust.keys[plainClaim.nodeID]? = some plainClaim.publicKey
    decide +kernel

end Provisioning
