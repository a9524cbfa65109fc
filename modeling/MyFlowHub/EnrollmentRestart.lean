/-
The enrollment authority can restart, if its clock does not run backwards.

The loader checks every record it reads: the fields that go with a status, the order
of the times, the references between requests and enrollments, the signatures.  Each
operation writes records that pass, with one exception: the time of an update is the
reading of the clock, and nothing compares it with the time the request was made.  A
request that is rejected, approved or redeemed at an earlier reading is saved, and
refused at the next start.

* `Dated` — the condition on the readings of a call;
* `Sound` — what the loader checks, as an invariant of the data;
* **`restart_reads_back`** — the record of every state reached loads and gives the
  data back;
* `backdated_rejection` — a request rejected before it was made.
-/
import MyFlowHub.EnrollmentLinks
import MyFlowHub.NeverReused

open Checks Protocol
open Std Encoding Tables

namespace Enrollment

open PermitState Process

variable {crypto : Crypto}

/-! ### The condition -/

def Positive (env : Env) : Prop := 0 < unixMilli env.now ∧ 0 < unixMilli env.later

/-- The reading a call writes into a request is not before the request was made, and the
window of a new request ends after it begins. -/
def Dated (a : Authority crypto) (env : Env) : Call → Prop
  | .submit s =>
    unixMilli env.now < (a.newRequest env s).expiresAtUnixMS ∧
    (s.permit ≠ none → ∀ (id : String) (request : RequestState),
      (a.base env).requests[id]? = some request → request.triple = s.triple crypto →
      id = s.requestID ∨ request.status = .pending → request.createdAtUnixMS ≤ unixMilli env.now)
  | .approve _ id _ | .reject _ id _ => ∀ request : RequestState,
    a.data.requests[id]? = some request → request.status = .pending →
      request.createdAtUnixMS ≤ unixMilli env.later
  | _ => True

/-! ### What the loader checks of a request -/

variable (crypto) in
/-- The checks of a request that no operation touches after it was made. -/
structure RequestState.Formed (request : RequestState) : Prop where
  requestID : isHexID request.requestID 16 = true
  device : request.devicePublicKey.length = publicKeySize
  fingerprint : Enrollment.devicePublicKeyFingerprint crypto request.devicePublicKey =
    request.devicePublicKeyFingerprint
  parent : request.parentNodeID ≠ 0
  parentKey : request.parentPublicKey.length = publicKeySize
  digest : isHexID request.transcriptDigest 32 = true
  created : 0 < request.createdAtUnixMS
  window : request.createdAtUnixMS < request.expiresAtUnixMS

variable {publicKey : Bytes} {record : PermitState} {request : RequestState} {reason : String}
  {now : ℤ}

theorem validateEnrollmentRequestState_eq_ok :
    validateEnrollmentRequestState crypto request = .ok () ↔
      request.Formed crypto ∧ request.createdAtUnixMS ≤ request.updatedAtUnixMS ∧
        request.validateStatus = .ok () := by
  simp only [validateEnrollmentRequestState, validateEnrollmentHexID, validateNodeID, bind_eq_ok,
    require_eq_ok]
  constructor
  · rintro ⟨-, hid, -, ⟨hdevice, hfingerprint⟩, -, hparent, -, hkey, -, hdigest, -, htimes, hstatus⟩
    exact ⟨⟨hid, hdevice, hfingerprint, hparent, hkey, hdigest, by omega, by omega⟩, by omega,
      hstatus⟩
  · rintro ⟨h, hupdated, hstatus⟩
    have hcreated := h.created
    have hwindow := h.window
    exact ⟨(), h.requestID, (), ⟨h.device, h.fingerprint⟩, (), h.parent, (), h.parentKey, (),
      h.digest, (), by omega, hstatus⟩

/-! ### Sound data -/

/-- What the loader checks, and the generation it does not accept. -/
structure Sound (identity : Identity crypto) (data : Data) : Prop where
  linked : Linked crypto data
  nodeIDs : NodeIDs identity data
  nonzero : ∀ nodeID : NodeID, data.usedNodeIDs[nodeID]? = some () → nodeID ≠ 0
  permits : ∀ (id : String) (record : PermitState), data.permits[id]? = some record →
    record.validate crypto identity.publicKey = .ok ()
  requests : ∀ (id : String) (request : RequestState), data.requests[id]? = some request →
    validateEnrollmentRequestState crypto request = .ok ()
  enrollments : ∀ (id : String) (record : EnrollmentState), data.enrollments[id]? = some record →
    record.validate crypto identity.publicKey = .ok ()

/-- **Sound data is read back from its record.** -/
theorem Sound.dataFromState {identity : Identity crypto} {data : Data} (h : Sound identity data)
    (hkeyed : Keyed data) (generation : UInt64) :
    dataFromState crypto (identity.stateOf data generation) identity.publicKey = .ok data := by
  have hused : data.usedNodeIDs.keys.foldlM addUsedNodeID ∅ = .ok data.usedNodeIDs := by
    have hnodup : (data.usedNodeIDs.keys.map fun id => (id, ()).1).Nodup := by
      rw [List.map_id']
      exact ExtTreeMap.nodup_keys
    rw [foldlM_eq_insertAll (fun id => (id, ())) hnodup (fun nodeID hmem u hu => ?_)
      fun nodeID _ => by simp, map_keys_eq_toList, insertAll_toList]
    have hlookup : data.usedNodeIDs[nodeID]? = some () := by
      have hcontains := ExtTreeMap.mem_keys.mp hmem
      exact ExtTreeMap.getElem?_eq_some_getElem hcontains
    simp only [addUsedNodeID, bind_eq_ok, require_eq_ok]
    exact ⟨(), h.nonzero nodeID hlookup, (), contains_eq_false_iff.mpr hu, rfl⟩
  have hpermits : (values data.permits).foldlM (addPermit crypto identity.publicKey) ∅ =
      .ok data.permits := by
    refine foldlM_values_eq hkeyed.permits fun id record hrecord u hu => ?_
    simp only [addPermit, bind_eq_ok, require_eq_ok]
    exact ⟨(), h.permits id record hrecord, (), contains_eq_false_iff.mpr hu, rfl⟩
  have hrequests : (values data.requests).foldlM (addRequest crypto) ∅ = .ok data.requests := by
    refine foldlM_values_eq hkeyed.requests fun id request hrequest u hu => ?_
    simp only [addRequest, bind_eq_ok, require_eq_ok]
    exact ⟨(), h.requests id request hrequest, (), contains_eq_false_iff.mpr hu, rfl⟩
  have henrollments : (values data.enrollments).foldlM
      (addEnrollment crypto identity.publicKey data.usedNodeIDs) ∅ = .ok data.enrollments := by
    refine foldlM_values_eq hkeyed.enrollments fun id record hrecord u hu => ?_
    obtain ⟨nodeID, htext, hne, -, -, hlookup⟩ := h.nodeIDs.used id record hrecord
    simp only [addEnrollment, bind_eq_ok, require_eq_ok, htext,
      parseEnrollmentNodeID_formatUint hne, Option.getD_some]
    exact ⟨(), h.enrollments id record hrecord, (), contains_eq_false_iff.mpr hu, (),
      contains_of_lookup hlookup, rfl⟩
  have hbacked : (data.enrollments.toList.all fun entry => data.backed entry.1 entry.2) = true := by
    rw [List.all_eq_true]
    intro entry hentry
    have hrecord := ExtTreeMap.mem_toList_iff_getElem?_eq_some.mp hentry
    obtain ⟨request, hrequest, hstatus, hid⟩ := h.linked.backed entry.1 entry.2 hrecord
    simp [Data.backed, hrequest, hstatus, hid]
  have hfulfilled : (data.requests.toList.all fun entry =>
      entry.2.status != .approved || data.fulfilled crypto entry.1 entry.2) = true := by
    rw [List.all_eq_true]
    intro entry hentry
    have hrequest := ExtTreeMap.mem_toList_iff_getElem?_eq_some.mp hentry
    by_cases hstatus : entry.2.status = .approved
    · obtain ⟨record, hrecord, hagree⟩ := h.linked.fulfilled entry.1 entry.2 hrequest hstatus
      simp [Data.fulfilled, hrecord, hagree.requestID, hagree.fingerprint, hagree.profile,
        hagree.parentNodeID, hagree.parentPublicKey]
    · simp [hstatus]
  simp only [Enrollment.dataFromState, Identity.stateOf, hused, hpermits, hrequests, henrollments,
    bind_eq_ok, require_eq_ok, Except.ok.injEq, exists_eq_left']
  exact ⟨(), require_eq_ok.mpr (contains_of_lookup h.nodeIDs.own), (), hbacked, (), hfulfilled, rfl⟩

/-! ### The records an operation writes -/

theorem PermitState.validate_eq_ok :
    record.validate crypto publicKey = .ok () ↔
      verifyEnrollmentPermit crypto publicKey record.permit = .ok () ∧
        isHexID record.issueRequestID 16 = true ∧ record.validateStatus = .ok () := by
  simp only [validate, validateEnrollmentHexID, bind_eq_ok, require_eq_ok, exists_const]
  exact Unique.exists_iff

theorem PermitState.validate_consumed (h : record.validate crypto publicKey = .ok ())
    (hactive : record.status = .active) {requestID : String} (hid : isHexID requestID 16 = true)
    (hnow : 0 < now) : (record.consumed requestID now).validate crypto publicKey = .ok () := by
  obtain ⟨hverify, hissue, hstatus⟩ := validate_eq_ok.mp h
  rw [validateStatus, hactive, require_eq_ok] at hstatus
  obtain ⟨-, -, hrevoked, hreason⟩ := hstatus
  refine validate_eq_ok.mpr ⟨hverify, hissue, ?_⟩
  exact bind_eq_ok.mpr ⟨(), require_eq_ok.mpr hid, require_eq_ok.mpr ⟨hnow, hrevoked, hreason⟩⟩

theorem PermitState.validate_revoke (h : record.validate crypto publicKey = .ok ())
    (hactive : record.status = .active) (hreason : reason ≠ "") (hnow : 0 < now) :
    (record.revoke reason now).validate crypto publicKey = .ok () := by
  obtain ⟨hverify, hissue, hstatus⟩ := validate_eq_ok.mp h
  rw [validateStatus, hactive, require_eq_ok] at hstatus
  obtain ⟨hby, hat, -, -⟩ := hstatus
  refine validate_eq_ok.mpr ⟨hverify, hissue, ?_⟩
  exact require_eq_ok.mpr ⟨hnow, hreason, hby, hat⟩

theorem EnrollmentState.validate_eq_ok {record : EnrollmentState} :
    record.validate crypto publicKey = .ok () ↔
      verifyEnrollmentGrant crypto publicKey record.grant = .ok () ∧
        isHexID record.requestID 16 = true ∧
        record.devicePublicKeyFingerprint = Enrollment.devicePublicKeyFingerprint crypto
          ((crypto.decode64 record.grant.devicePublicKey).getD []) ∧
        (record.status = .active → record.revokedAtUnixMS = 0 ∧ record.reason = "") ∧
        (record.status = .revoked → 0 < record.revokedAtUnixMS ∧ record.reason ≠ "") := by
  simp only [EnrollmentState.validate, validateEnrollmentHexID, bind_eq_ok, require_eq_ok,
    exists_const]
  exact Unique.exists_iff

theorem EnrollmentState.validate_revoke {record : EnrollmentState}
    (h : record.validate crypto publicKey = .ok ()) (hreason : reason ≠ "") (hnow : 0 < now) :
    (record.revoke reason now).validate crypto publicKey = .ok () := by
  obtain ⟨hverify, hid, hfingerprint, -, -⟩ := EnrollmentState.validate_eq_ok.mp h
  exact EnrollmentState.validate_eq_ok.mpr
    ⟨hverify, hid, hfingerprint, fun hactive => (nomatch hactive), fun _ => ⟨hnow, hreason⟩⟩

theorem RequestState.blank_of_pending (h : request.validateStatus = .ok ())
    (hpending : request.status = .pending) :
    request.admissionProfile = "" ∧ request.enrollmentID = "" := by
  rw [RequestState.validateStatus, hpending, require_eq_ok] at h
  exact ⟨h.1, h.2.1⟩

theorem validate_expire (h : validateEnrollmentRequestState crypto request = .ok ())
    (hpending : request.status = .pending) :
    validateEnrollmentRequestState crypto request.expire = .ok () := by
  obtain ⟨hformed, -, hstatus⟩ := validateEnrollmentRequestState_eq_ok.mp h
  obtain ⟨hprofile, henrollment⟩ := RequestState.blank_of_pending hstatus hpending
  refine validateEnrollmentRequestState_eq_ok.mpr ⟨?_, Int.le_of_lt hformed.window, ?_⟩
  · exact { hformed with }
  · exact require_eq_ok.mpr ⟨hprofile, henrollment, by simp [RequestState.expire]⟩

theorem validate_reject (h : validateEnrollmentRequestState crypto request = .ok ())
    (hpending : request.status = .pending) (hreason : reason ≠ "")
    (hnow : request.createdAtUnixMS ≤ now) :
    validateEnrollmentRequestState crypto (request.reject reason now) = .ok () := by
  obtain ⟨hformed, -, hstatus⟩ := validateEnrollmentRequestState_eq_ok.mp h
  obtain ⟨hprofile, henrollment⟩ := RequestState.blank_of_pending hstatus hpending
  refine validateEnrollmentRequestState_eq_ok.mpr ⟨?_, hnow, ?_⟩
  · exact { hformed with }
  · exact require_eq_ok.mpr ⟨hprofile, henrollment, hreason⟩

variable {a : Authority crypto} {env : Env}

theorem validate_approved {base : Data} {profile : String} {nodeID : NodeID}
    {grant : EnrollmentGrantV1} (hgrant : Grants a base request profile now nodeID grant)
    (hformed : request.Formed crypto) (hnow : request.createdAtUnixMS ≤ now) :
    validateEnrollmentRequestState crypto (request.approved profile grant.enrollmentID now) =
      .ok () := by
  have hprofile := EnrollmentGrantV1.profile_of_validate crypto hgrant.valid
  have hsame : grant.admissionProfile = profile :=
    congrArg EnrollmentGrantV1.admissionProfile hgrant.signed
  rw [hsame] at hprofile
  refine validateEnrollmentRequestState_eq_ok.mpr ⟨?_, hnow, ?_⟩
  · exact { hformed with }
  · have hlabel : ¬(profile = "" ∨ maxIdentifierBytes < profile.utf8ByteSize) := by
      rintro (hempty | hlong)
      · exact hprofile.1 hempty
      · omega
    exact bind_eq_ok.mpr ⟨(), require_eq_ok.mpr hlabel,
      bind_eq_ok.mpr ⟨(), require_eq_ok.mpr hgrant.hex, require_eq_ok.mpr rfl⟩⟩

theorem validate_newRequest {s : Submission} (hs : s.Valid) (hnow : 0 < unixMilli env.now)
    (hwindow : unixMilli env.now < (a.newRequest env s).expiresAtUnixMS) :
    validateEnrollmentRequestState crypto (a.newRequest env s) = .ok () := by
  refine validateEnrollmentRequestState_eq_ok.mpr ⟨?_, Int.le_refl _, ?_⟩
  · exact ⟨hs.requestID, hs.device, rfl, hs.parent, hs.parentKey,
      isHexID_hexEncode s.transcriptDigest_length, hnow, hwindow⟩
  · exact require_eq_ok.mpr ⟨rfl, rfl, rfl⟩

theorem validate_granted {base : Data} {profile : String} {nodeID : NodeID}
    {grant : EnrollmentGrantV1} {identity : Identity crypto} (hid : a.identity = identity)
    (hgrant : Grants a base request profile now nodeID grant) (hformed : request.Formed crypto) :
    EnrollmentState.validate crypto identity.publicKey
      { grant := grant, devicePublicKeyFingerprint := request.devicePublicKeyFingerprint,
        requestID := request.requestID, status := .active } = .ok () := by
  have hvalid := hgrant.valid
  rw [hgrant.signed] at hvalid
  have hverify := verifyEnrollmentGrant_signed crypto a.identity rfl hvalid
  rw [← hgrant.signed, hid] at hverify
  have hdevice : grant.devicePublicKey = crypto.encode64 request.devicePublicKey :=
    congrArg EnrollmentGrantV1.devicePublicKey hgrant.signed
  refine EnrollmentState.validate_eq_ok.mpr
    ⟨hverify, hformed.requestID, ?_, fun _ => ⟨rfl, rfl⟩, fun hrevoked => (nomatch hrevoked)⟩
  rw [hdevice, crypto.decode64_encode64]
  exact hformed.fingerprint.symm

/-! ### Changes -/

variable {identity : Identity crypto}

theorem Sound.base (h : Sound identity a.data) (id : String) (request : RequestState)
    (hrequest : (a.base env).requests[id]? = some request) :
    validateEnrollmentRequestState crypto request = .ok () := by
  obtain ⟨before, hbefore, rfl | ⟨hoverdue, rfl⟩⟩ := exists_of_lookup_expire hrequest
  · exact h.requests id request hbefore
  · have hpending : before.status = .pending := by
      simp only [RequestState.overdue, Bool.and_eq_true, decide_eq_true_eq] at hoverdue
      exact hoverdue.1
    exact validate_expire (h.requests id before hbefore) hpending

/-- The request that a permit is redeemed for is well formed, and not younger than the
reading it is stamped with. -/
theorem Redeemable.formed {s : Submission} (h : Sound identity a.data) (hs : s.Valid)
    (hpermit : s.permit ≠ none) (hnow : 0 < unixMilli env.now) (hdated : Dated a env (.submit s))
    (hrequest : Redeemable a env s request) :
    request.Formed crypto ∧ request.createdAtUnixMS ≤ unixMilli env.now := by
  obtain ⟨hwindow, hcreated⟩ := hdated
  cases hrequest with
  | named hfound htriple hstatus =>
    have hvalid := validateEnrollmentRequestState_eq_ok.mp (h.base _ _ hfound)
    exact ⟨hvalid.1, hcreated hpermit _ _ hfound htriple (Or.inl rfl)⟩
  | waiting hnew hfound htriple hstatus =>
    have hvalid := validateEnrollmentRequestState_eq_ok.mp (h.base _ _ hfound)
    exact ⟨hvalid.1, hcreated hpermit _ _ hfound htriple (Or.inr hstatus)⟩
  | fresh hnew hclosed =>
    have hvalid := validateEnrollmentRequestState_eq_ok.mp (validate_newRequest hs hnow hwindow)
    exact ⟨hvalid.1, Int.le_refl _⟩

theorem RequestState.Formed.withDigest (h : request.Formed crypto) {digest : Bytes}
    (hdigest : digest.length = 32) :
    RequestState.Formed crypto { request with transcriptDigest := hexEncode digest } :=
  { h with digest := isHexID_hexEncode hdigest }

variable {call : Call} {next : Data} {answer : Except String Reply}

section

variable (h : Sound identity a.data)
include h

theorem Sound.nonzero_change (hchange : Change a env call next answer) (nodeID : NodeID)
    (hused : next.usedNodeIDs[nodeID]? = some ()) : nodeID ≠ 0 := by
  have hgranted : ∀ granted : NodeID, granted ≠ 0 →
      (a.data.usedNodeIDs.insert granted ())[nodeID]? = some () → nodeID ≠ 0 := by
    intro granted hne hlookup
    by_cases heq : nodeID = granted
    · rw [heq]
      exact hne
    · rw [lookup_insert_of_ne _ _ heq] at hlookup
      exact h.nonzero nodeID hlookup
  cases hchange with
  | approve hrequest hpending hgrant => exact hgranted _ hgrant.nodeID_ne hused
  | redeem hs hpermit hrecord hactive hrequest hgrant => exact hgranted _ hgrant.nodeID_ne hused
  | _ => exact h.nonzero nodeID hused

theorem Sound.permits_change (hid : a.identity = identity) (hpositive : Positive env)
    (hchange : Change a env call next answer) :
    ∀ (id : String) (record : PermitState), next.permits[id]? = some record →
      record.validate crypto identity.publicKey = .ok () := by
  cases hchange with
  | issue hnew hissue hpermit hvalid =>
    refine forall_lookup_insert h.permits _ (validate_eq_ok.mpr ⟨?_, hissue, ?_⟩)
    · rw [hpermit] at hvalid ⊢
      rw [← hid]
      exact verifyEnrollmentPermit_signed crypto a.identity rfl hvalid
    · exact require_eq_ok.mpr ⟨rfl, rfl, rfl, rfl⟩
  | redeem hs hpermit hrecord hactive hrequest hgrant =>
    exact forall_lookup_insert h.permits _
      (validate_consumed (h.permits _ _ hrecord) hactive hs.requestID hpositive.1)
  | revokePermit hrecord hactive hreason =>
    exact forall_lookup_insert h.permits _
      (validate_revoke (h.permits _ _ hrecord) hactive hreason hpositive.1)
  | _ => exact h.permits

theorem Sound.requests_change (hpositive : Positive env) (hdated : Dated a env call)
    (hchange : Change a env call next answer) :
    ∀ (id : String) (request : RequestState), next.requests[id]? = some request →
      validateEnrollmentRequestState crypto request = .ok () := by
  cases hchange with
  | issue hnew hissue hpermit hvalid => exact h.requests
  | expire hknown => exact h.base
  | expireOne hrequest hpending =>
    exact forall_lookup_insert h.requests _ (validate_expire (h.requests _ _ hrequest) hpending)
  | record hs hnew hclosed =>
    exact forall_lookup_insert h.base _ (validate_newRequest hs hpositive.1 hdated.1)
  | approve hrequest hpending hgrant =>
    have hvalid := validateEnrollmentRequestState_eq_ok.mp (h.requests _ _ hrequest)
    exact forall_lookup_insert h.requests _
      (validate_approved hgrant hvalid.1 (hdated _ hrequest hpending))
  | @redeem s _ _ _ _ _ hs hpermit hrecord hactive hrequest hgrant =>
    obtain ⟨hformed, hcreated⟩ :=
      hrequest.formed h hs (by rw [hpermit]; simp) hpositive.1 hdated
    exact forall_lookup_insert h.base _
      (validate_approved hgrant (hformed.withDigest s.transcriptDigest_length) hcreated)
  | reject hrequest hpending hreason =>
    exact forall_lookup_insert h.requests _
      (validate_reject (h.requests _ _ hrequest) hpending hreason (hdated _ hrequest hpending))
  | revokePermit hrecord hactive hreason => exact h.requests
  | revokeEnrollment hrecord hactive hreason => exact h.requests

theorem Sound.enrollments_change (hid : a.identity = identity) (hpositive : Positive env)
    (hdated : Dated a env call) (hchange : Change a env call next answer) :
    ∀ (id : String) (record : EnrollmentState), next.enrollments[id]? = some record →
      record.validate crypto identity.publicKey = .ok () := by
  cases hchange with
  | approve hrequest hpending hgrant =>
    have hvalid := validateEnrollmentRequestState_eq_ok.mp (h.requests _ _ hrequest)
    exact forall_lookup_insert h.enrollments _ (validate_granted hid hgrant hvalid.1)
  | @redeem s _ _ _ _ _ hs hpermit hrecord hactive hrequest hgrant =>
    obtain ⟨hformed, -⟩ := hrequest.formed h hs (by rw [hpermit]; simp) hpositive.1 hdated
    exact forall_lookup_insert h.enrollments _
      (validate_granted hid hgrant (hformed.withDigest s.transcriptDigest_length))
  | revokeEnrollment hrecord hactive hreason =>
    exact forall_lookup_insert h.enrollments _
      (EnrollmentState.validate_revoke (h.enrollments _ _ hrecord) hreason hpositive.1)
  | _ => exact h.enrollments

end

/-! ### Runs -/

theorem sound_freshData (identity : Identity crypto) : Sound identity (freshData identity) where
  linked := linked_freshData identity
  nodeIDs := (ledger_fresh identity).nodeIDs
  nonzero := by
    intro nodeID hused
    by_cases hne : nodeID = identity.nodeID
    · rw [hne]
      exact identity.nodeID_ne
    · rw [freshData, lookup_insert_of_ne _ _ hne] at hused
      simp at hused
  permits := by
    intro id record h
    simp [freshData] at h
  requests := by
    intro id request h
    simp [freshData] at h
  enrollments := by
    intro id record h
    simp [freshData] at h

theorem kept_sound (identity : Identity crypto) :
    Kept identity (fun a env call => Positive env ∧ Dated a env call)
      fun generation data _ => generation ≠ 0 ∧ Sound identity data where
  fresh := ⟨by decide, sound_freshData identity⟩
  change := by
    intro a env call next answer log hid hgood hkeyed hmax h hchange
    obtain ⟨hpositive, hdated⟩ := hgood
    refine ⟨fun hzero => ?_, h.2.linked.change hkeyed hchange, h.2.nodeIDs.change hchange,
      h.2.nonzero_change hchange, h.2.permits_change hid hpositive hchange,
      h.2.requests_change hpositive hdated hchange,
      h.2.enrollments_change hid hpositive hdated hchange⟩
    have hsucc := Counter.toNat_add_one hmax
    rw [hzero] at hsucc
    cases hsucc
  answer _ h _ := h

/-- **The authority can restart.**  In every run whose readings are positive and whose
updates are not dated before their request, the record on disk is that of the data in
memory, and a load accepts it and gives the data back. -/
theorem restart_reads_back (identity : Identity crypto) (acts : List Act)
    (hacts : Runs.Along (step identity)
      (Process.Admissible fun a env call => Positive env ∧ Dated a env call) start acts)
    (a : Authority crypto) (ha : (run identity acts).running = some a) :
    (run identity acts).disk = some (a.stateOf a.data a.generation) ∧
    dataFromState crypto (a.stateOf a.data a.generation) a.identity.publicKey = .ok a.data ∧
    ∀ limits fault, (step identity (run identity acts)
      (.restart limits fault)).running = some { a with limits := limits } := by
  have hstored := stored_run (kept_sound identity) hacts
  cases hdisk : (run identity acts).disk with
  | none =>
    have hnone := (hstored.absent hdisk).1
    rw [hnone] at ha
    cases ha
  | some state =>
    obtain ⟨generation, data, hstate, hkeyed, ⟨hne, hsound⟩, hmemory⟩ :=
      hstored.present state hdisk
    obtain ⟨hid, rfl, rfl⟩ := hmemory a ha
    subst hid
    have hread := hsound.dataFromState hkeyed a.generation
    refine ⟨by rw [hstate]; rfl, hread, fun limits fault => ?_⟩
    have hversion : ¬(state.version ≠ stateVersion ∨ state.generation = 0) := by
      rw [hstate]
      rintro (hversion | hzero)
      · exact hversion rfl
      · exact hne hzero
    have hidentity : ¬(state.authorityNodeID ≠ a.identity.nodeID ∨
        state.authorityPublicKey ≠ a.identity.publicKey) := by
      rw [hstate]
      rintro (hnode | hkey)
      · exact hnode rfl
      · exact hkey rfl
    rw [← hstate] at hread
    simp only [step, hdisk, loadEnrollmentAuthority, Option.getD_some, if_neg hversion,
      if_neg hidentity, hread]
    rw [hstate]
    rfl

/-- A device submits its request two seconds into the clock. -/
def waiting : List Act :=
  [.restart plainLimits none, .call (plainEnv 2 0) (.submit (plainSubmission 10 none)) none]

/-- The request is rejected a second later. -/
def rejected : List Act :=
  waiting ++ [.call (plainEnv 3 0) (.reject (plainID 5) (plainID 10) "unknown device") none]

theorem restart_reads_back_rejected :
    ∃ a : Authority plainCrypto, (run plainIdentity rejected).running = some a ∧
      a.data.requests[plainID 10]?.map RequestState.status = some .rejected ∧
      dataFromState plainCrypto (a.stateOf a.data a.generation) a.identity.publicKey =
        .ok a.data := by
  have hload : step plainIdentity start (.restart plainLimits none) =
      ⟨some (plainIdentity.stateOf (freshData plainIdentity) 1),
        some ⟨plainIdentity, plainLimits, 1, freshData plainIdentity⟩, []⟩ := by
    simp only [step, start, load_absent]
  -- the request that is rejected is dated from the second act
  have hcreated : (run plainIdentity waiting).running.bind (fun a =>
      a.data.requests[plainID 10]?.map RequestState.createdAtUnixMS) = some 2000 := by
    decide +kernel
  have hacts : Runs.Along (step plainIdentity)
      (Process.Admissible fun a env call => Positive env ∧ Dated a env call) Process.start
      rejected := by
    refine ⟨trivial, fun a ha => ?_, fun a ha => ⟨⟨by decide, by decide⟩, ?_⟩, trivial⟩
    · rw [hload] at ha
      cases ha
      exact ⟨⟨by decide, by decide⟩, by decide, fun hpermit => absurd rfl hpermit⟩
    · intro request hrequest _
      have ha : (run plainIdentity waiting).running = some a := ha
      rw [ha, Option.bind_some, hrequest] at hcreated
      obtain hcreated : request.createdAtUnixMS = 2000 := Option.some.inj hcreated
      rw [hcreated]
      decide
  obtain ⟨a, ha⟩ : ∃ a, (run plainIdentity rejected).running = some a :=
    Option.isSome_iff_exists.mp (by decide +kernel)
  have hstatus : (run plainIdentity rejected).running.bind (fun a =>
      a.data.requests[plainID 10]?.map RequestState.status) = some .rejected := by decide +kernel
  rw [ha] at hstatus
  exact ⟨a, ha, hstatus, (restart_reads_back plainIdentity rejected hacts a ha).2.1⟩

/-- The clock is set back by a second before the request is rejected. -/
def backdated : List Act :=
  waiting ++ [.call (plainEnv 1 0) (.reject (plainID 5) (plainID 10) "unknown device") none]

/-- The rejection is saved, and the authority does not start again. -/
theorem backdated_rejection :
    ((run plainIdentity backdated).running.map fun a =>
      (dataFromState plainCrypto (a.stateOf a.data a.generation) a.identity.publicKey).map
        fun _ => ()) = some (.error "invalid enrollment request timestamps") ∧
    (run plainIdentity (backdated ++ [.restart plainLimits none])).running.isNone := by
  decide +kernel

end Enrollment
