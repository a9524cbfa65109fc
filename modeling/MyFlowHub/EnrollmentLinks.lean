/-
Requests and enrollments refer to each other.

An enrollment names the approved request it was made for, and an approved request
names its enrollment; the two agree on the device, the parent and the profile.  An
approved request is never written again, so the links survive every change.

* `Linked.change` — every change keeps the links.
-/
import MyFlowHub.EnrollmentProcess

open Std Encoding Tables

namespace Enrollment

variable {crypto : Crypto}

/-! ### Links -/

variable (crypto) in
/-- What an approved request and its enrollment agree on. -/
structure Agree (requestID : String) (request : RequestState)
    (record : EnrollmentState) : Prop where
  requestID : record.requestID = requestID
  fingerprint : record.devicePublicKeyFingerprint = request.devicePublicKeyFingerprint
  profile : record.grant.admissionProfile = request.admissionProfile
  device : record.grant.devicePublicKey = crypto.encode64 request.devicePublicKey
  parentNodeID : record.grant.parentNodeID = formatUint request.parentNodeID
  parentPublicKey : record.grant.parentPublicKey = crypto.encode64 request.parentPublicKey

variable (crypto) in
structure Linked (data : Data) : Prop where
  stamped : ∀ (id : String) (request : RequestState), data.requests[id]? = some request →
    devicePublicKeyFingerprint crypto request.devicePublicKey = request.devicePublicKeyFingerprint
  backed : ∀ (id : String) (record : EnrollmentState), data.enrollments[id]? = some record →
    ∃ request : RequestState, data.requests[record.requestID]? = some request ∧
      request.status = .approved ∧ request.enrollmentID = id
  fulfilled : ∀ (id : String) (request : RequestState), data.requests[id]? = some request →
    request.status = .approved → ∃ record : EnrollmentState,
      data.enrollments[request.enrollmentID]? = some record ∧ Agree crypto id request record

theorem linked_freshData (identity : Identity crypto) : Linked crypto (freshData identity) := by
  refine ⟨fun id request h => ?_, fun id record h => ?_, fun id request h => ?_⟩
  · simp [freshData] at h
  · simp [freshData] at h
  · simp [freshData] at h

variable {data : Data} {request : RequestState} {id : String} {s : Submission}

theorem Linked.agree (h : Linked crypto data) {record : EnrollmentState}
    (hrecord : data.enrollments[id]? = some record) :
    ∃ request : RequestState, data.requests[record.requestID]? = some request ∧
      request.status = .approved ∧ request.enrollmentID = id ∧
      Agree crypto record.requestID request record := by
  obtain ⟨request, hrequest, hstatus, hid⟩ := h.backed id record hrecord
  obtain ⟨record', hrecord', hagree⟩ := h.fulfilled _ request hrequest hstatus
  rw [hid, hrecord] at hrecord'
  cases hrecord'
  exact ⟨request, hrequest, hstatus, hid, hagree⟩

/-- There is no approved request under the identifier. -/
def Unapproved (requests : Requests) (id : String) : Prop :=
  ∀ request : RequestState, requests[id]? = some request → request.status ≠ .approved

/-! ### Single updates -/

theorem Linked.setPermit (h : Linked crypto data) (id : String) (record : PermitState) :
    Linked crypto (data.setPermit id record) :=
  { h with }

theorem Linked.setRequest (h : Linked crypto data) (hold : Unapproved data.requests id)
    (hstamp : devicePublicKeyFingerprint crypto request.devicePublicKey =
      request.devicePublicKeyFingerprint)
    (hnew : request.status ≠ .approved) : Linked crypto (data.setRequest id request) := by
  refine ⟨fun id' request' h' => ?_, fun id' record h' => ?_, fun id' request' h' hstatus => ?_⟩
  · rcases lookup_insert_eq_some.mp h' with ⟨-, rfl⟩ | ⟨-, h'⟩
    · exact hstamp
    · exact h.stamped id' request' h'
  · obtain ⟨request', hrequest', hstatus, hid⟩ := h.backed id' record h'
    refine ⟨request', ?_, hstatus, hid⟩
    -- the request of an enrollment is approved, so it is not the one that is written
    have hne : record.requestID ≠ id := fun heq => hold request' (heq ▸ hrequest') hstatus
    rw [Data.setRequest, lookup_insert_of_ne _ _ hne, hrequest']
  · rcases lookup_insert_eq_some.mp h' with ⟨-, rfl⟩ | ⟨-, h'⟩
    · exact absurd hstatus hnew
    · exact h.fulfilled id' request' h' hstatus

theorem Linked.setEnrollment (h : Linked crypto data) {record record' : EnrollmentState}
    (hold : data.enrollments[id]? = some record) (hgrant : record'.grant = record.grant)
    (hrequestID : record'.requestID = record.requestID)
    (hfingerprint : record'.devicePublicKeyFingerprint = record.devicePublicKeyFingerprint) :
    Linked crypto (data.setEnrollment id record') := by
  refine ⟨h.stamped, fun id' found h' => ?_, fun id' request hrequest hstatus => ?_⟩
  · rcases lookup_insert_eq_some.mp h' with ⟨hne, rfl⟩ | ⟨-, h'⟩
    · rw [hne, hrequestID]
      exact h.backed id record hold
    · exact h.backed id' found h'
  · obtain ⟨found, hfound, hagree⟩ := h.fulfilled id' request hrequest hstatus
    by_cases hne : request.enrollmentID = id
    · rw [hne, hold] at hfound
      cases hfound
      refine ⟨record', by rw [hne, Data.setEnrollment, lookup_insert_self], ?_⟩
      exact ⟨hrequestID.trans hagree.requestID, hfingerprint.trans hagree.fingerprint,
        by rw [hgrant, hagree.profile], by rw [hgrant, hagree.device],
        by rw [hgrant, hagree.parentNodeID], by rw [hgrant, hagree.parentPublicKey]⟩
    · exact ⟨found, by rw [Data.setEnrollment, lookup_insert_of_ne _ _ hne, hfound], hagree⟩

variable {a : Authority crypto} {env : Env}

theorem Linked.granted (h : Linked crypto data) {profile : String} {now : ℤ} {nodeID : NodeID}
    {grant : EnrollmentGrantV1} (hgrant : Grants a data request profile now nodeID grant)
    (hold : Unapproved data.requests request.requestID)
    (hstamp : devicePublicKeyFingerprint crypto request.devicePublicKey =
      request.devicePublicKeyFingerprint) :
    Linked crypto (data.granted request profile nodeID grant now) := by
  refine ⟨fun id found h' => ?_, fun id record h' => ?_, fun id found h' hstatus => ?_⟩
  · rcases lookup_insert_eq_some.mp h' with ⟨-, rfl⟩ | ⟨-, h'⟩
    · exact hstamp
    · exact h.stamped id found h'
  · rcases lookup_insert_eq_some.mp h' with ⟨hne, rfl⟩ | ⟨-, h'⟩
    · exact ⟨_, lookup_insert_self .., rfl, hne.symm⟩
    · obtain ⟨found, hfound, hstatus, hid⟩ := h.backed id record h'
      have hother : record.requestID ≠ request.requestID :=
        fun heq => hold found (heq ▸ hfound) hstatus
      exact ⟨found, by rw [Data.granted, lookup_insert_of_ne _ _ hother, hfound], hstatus, hid⟩
  · rcases lookup_insert_eq_some.mp h' with ⟨hne, rfl⟩ | ⟨-, h'⟩
    · refine ⟨_, lookup_insert_self .., hne.symm, rfl, ?_, ?_, ?_, ?_⟩
      · exact congrArg EnrollmentGrantV1.admissionProfile hgrant.signed
      · exact congrArg EnrollmentGrantV1.devicePublicKey hgrant.signed
      · exact congrArg EnrollmentGrantV1.parentNodeID hgrant.signed
      · exact congrArg EnrollmentGrantV1.parentPublicKey hgrant.signed
    · obtain ⟨record, hrecord, hagree⟩ := h.fulfilled id found h' hstatus
      -- the new enrollment takes an identifier that no approved request names
      have hother : found.enrollmentID ≠ grant.enrollmentID := by
        intro heq
        rw [heq, hgrant.new] at hrecord
        cases hrecord
      exact ⟨record, by rw [Data.granted, lookup_insert_of_ne _ _ hother, hrecord], hagree⟩

theorem Linked.base (h : Linked crypto a.data) (env : Env) : Linked crypto (a.base env) := by
  refine ⟨fun id request hrequest => ?_, fun id record hrecord => ?_,
    fun id request hrequest hstatus => ?_⟩
  · obtain ⟨before, hbefore, rfl | ⟨-, rfl⟩⟩ := exists_of_lookup_expire hrequest
    · exact h.stamped id request hbefore
    · exact h.stamped id before hbefore
  · obtain ⟨request, hrequest, hstatus, hid⟩ := h.backed id record hrecord
    refine ⟨request, ?_, hstatus, hid⟩
    have hkept : request.overdue (unixMilli env.now) = false := by
      simp [RequestState.overdue, hstatus]
    show (expirePendingRequests _ _)[_]? = _
    rw [lookup_expirePendingRequests, hrequest, Option.map_some, hkept]
    rfl
  · obtain ⟨before, hbefore, rfl | ⟨-, rfl⟩⟩ := exists_of_lookup_expire hrequest
    · exact h.fulfilled id request hbefore hstatus
    · cases hstatus

/-! ### Changes -/

theorem Redeemable.found (hkeyed : Keyed a.data) (h : Redeemable a env s request) :
    request.triple = s.triple crypto ∧
      ((a.base env).requests[request.requestID]? = none ∧ request = a.newRequest env s ∨
        (a.base env).requests[request.requestID]? = some request ∧ request.status ≠ .approved) := by
  -- the request that a permit turns into an enrollment is new, or there and not approved
  have hbase := hkeyed.base env
  cases h with
  | named hfound htriple hstatus =>
    refine ⟨htriple, Or.inr ⟨?_, hstatus⟩⟩
    rw [hbase.requests _ _ hfound, hfound]
  | waiting hnew hfound htriple hstatus =>
    refine ⟨htriple, Or.inr ⟨?_, by rw [hstatus]; decide⟩⟩
    rw [hbase.requests _ _ hfound, hfound]
  | fresh hnew hclosed => exact ⟨rfl, Or.inl ⟨hnew, rfl⟩⟩

theorem unapproved_of_pending {requests : Requests} (h : requests[id]? = some request)
    (hpending : request.status = .pending) : Unapproved requests id := by
  intro found hfound
  rw [h] at hfound
  cases hfound
  rw [hpending]
  decide

theorem unapproved_of_none {requests : Requests} (h : requests[id]? = none) :
    Unapproved requests id := by
  intro found hfound
  rw [h] at hfound
  cases hfound

variable (hkeyed : Keyed a.data)
include hkeyed

theorem Redeemable.unapproved (h : Redeemable a env s request) :
    Unapproved (a.base env).requests request.requestID := by
  obtain ⟨-, ⟨hnone, -⟩ | ⟨hsome, hstatus⟩⟩ := h.found hkeyed
  · exact unapproved_of_none hnone
  · intro found hfound
    rw [hsome] at hfound
    cases hfound
    exact hstatus

theorem Redeemable.stamped (hlinked : Linked crypto a.data) (h : Redeemable a env s request) :
    devicePublicKeyFingerprint crypto request.devicePublicKey =
      request.devicePublicKeyFingerprint := by
  obtain ⟨-, ⟨-, rfl⟩ | ⟨hsome, -⟩⟩ := h.found hkeyed
  · rfl
  · exact (hlinked.base env).stamped _ request hsome

/-- **The links survive every change.** -/
theorem Linked.change (h : Linked crypto a.data) {call : Call} {next : Data}
    {answer : Except String Reply} (hchange : Change a env call next answer) :
    Linked crypto next := by
  cases hchange with
  | issue hnew hissue hpermit hvalid => exact h.setPermit ..
  | expire hknown => exact h.base env
  | expireOne hrequest hpending =>
    have hstamp := h.stamped _ _ hrequest
    exact h.setRequest (unapproved_of_pending hrequest hpending) hstamp
      (by simp [RequestState.expire])
  | record hs hnew hclosed =>
    exact (h.base env).setRequest (unapproved_of_none hnew) rfl
      (by simp [Authority.newRequest, Submission.request])
  | approve hrequest hpending hgrant =>
    have hunapproved := unapproved_of_pending hrequest hpending
    rw [← hkeyed.requests _ _ hrequest] at hunapproved
    exact h.granted hgrant hunapproved (h.stamped _ _ hrequest)
  | redeem hs hpermit hrecord hactive hrequest hgrant =>
    have hunapproved := hrequest.unapproved hkeyed
    have hstamp := hrequest.stamped hkeyed h
    have hgranted := (h.base env).granted hgrant hunapproved hstamp
    exact hgranted.setPermit ..
  | reject hrequest hpending hreason =>
    have hstamp := h.stamped _ _ hrequest
    exact h.setRequest (unapproved_of_pending hrequest hpending) hstamp
      (by simp [RequestState.reject])
  | revokePermit hrecord hactive hreason => exact h.setPermit ..
  | revokeEnrollment hrecord hactive hreason => exact h.setEnrollment hrecord rfl rfl rfl

end Enrollment
