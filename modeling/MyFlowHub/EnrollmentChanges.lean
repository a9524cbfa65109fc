/-
What the calls of the enrollment authority can change.

`Change` says once what a call can commit, with every fact the operation has checked
on the way; each invariant of the authority is then a case analysis over it.

* `prepared_plan` — what the operations can commit and answer.
-/
import MyFlowHub.EnrollmentAuthority

open Checks Protocol
open Std Encoding Tables

namespace Enrollment

open Authority

variable {crypto : Crypto}

/-! ### Calls -/

inductive Call where
  | issuePermit (issueRequestID deviceFingerprint : String) (targetNodeID : NodeID)
      (allowDescendants : Bool) (admissionProfile : String) (ttl : ℤ)
  | submit (s : Submission)
  | approve (commandRequestID enrollmentRequestID admissionProfile : String)
  | reject (commandRequestID enrollmentRequestID reason : String)
  | revokePermit (commandRequestID permitID reason : String)
  | revokeEnrollment (commandRequestID enrollmentID reason : String)
  | grantForRequest (requestID : String)

inductive Reply where
  | permit (permit : EnrollmentPermitV1)
  | outcome (outcome : Outcome)
  | grant (grant : EnrollmentGrantV1)
  | nodeID (nodeID : NodeID)
  | done
  deriving DecidableEq

def Plan.map {α β : Type} (f : α → β) (plan : Plan α) : Plan β := ⟨plan.next, plan.answer.map f⟩

def Authority.plan (a : Authority crypto) (env : Env) : Call → Except String (Plan Reply)
  | .issuePermit issueRequestID deviceFingerprint targetNodeID allowDescendants profile ttl =>
    (a.issuePermit env issueRequestID deviceFingerprint targetNodeID allowDescendants profile
      ttl).map (Plan.map .permit)
  | .submit s => (a.submit env s).map (Plan.map .outcome)
  | .approve command request profile => (a.approve env command request profile).map
      (Plan.map .grant)
  | .reject command request reason =>
    (a.reject env command request reason).map (Plan.map fun _ => .done)
  | .revokePermit command permitID reason =>
    (a.revokePermit env command permitID reason).map (Plan.map fun _ => .done)
  | .revokeEnrollment command enrollmentID reason =>
    (a.revokeEnrollment env command enrollmentID reason).map (Plan.map .nodeID)
  | .grantForRequest requestID => (a.grantForRequest env requestID).map (Plan.map .grant)

def Reply.grant? : Reply → Option EnrollmentGrantV1
  | .grant g => some g
  | .outcome o => o.grant
  | _ => none

def Known (data : Data) (reply : Reply) : Prop :=
  (∀ permit, reply = .permit permit → ∃ record ∈ values data.permits, record.permit = permit) ∧
  (∀ grant, reply.grant? = some grant → ∃ record ∈ values data.enrollments, record.grant = grant)

/-! ### Fresh identifiers -/

theorem candidateNodeID_lt (raw : Bytes) : (candidateNodeID raw).toNat < 2 ^ 63 := by
  rw [candidateNodeID, UInt64.toNat_and]
  exact Nat.and_lt_two_pow _ (by decide)

variable {random : Bytes} {order : MapOrder String} {request : RequestState}
  {command id profile reason : String} {s : Submission}

theorem allocateNodeIDLoop_spec {used : UsedNodeIDs} {attempts : ℕ} {rest : Bytes} {nodeID : NodeID}
    (h : allocateNodeIDLoop used attempts random = .ok (nodeID, rest)) :
    nodeID ≠ 0 ∧ nodeID.toNat < 2 ^ 63 ∧ used[nodeID]? = none := by
  induction attempts generalizing random with
  | zero => cases h
  | succ attempts ih =>
    rw [allocateNodeIDLoop] at h
    cases hread : readFull 8 random with
    | error text =>
      rw [hread] at h
      cases h
    | ok result =>
      rw [hread] at h
      dsimp only at h
      split at h
      · exact ih h
      · next hne =>
        split at h
        · exact ih h
        · next hfree =>
          cases h
          refine ⟨hne, candidateNodeID_lt _, ?_⟩
          exact contains_eq_false_iff.mp (Bool.not_eq_true _ ▸ hfree)

theorem newUniqueIDLoop_spec {taken : String → Bool} {attempts : ℕ} {rest : Bytes}
    (h : newUniqueIDLoop taken attempts random = .ok (id, rest)) :
    isHexID id 16 = true ∧ taken id = false := by
  induction attempts generalizing random with
  | zero => cases h
  | succ attempts ih =>
    rw [newUniqueIDLoop] at h
    by_cases hlen : 16 ≤ random.length
    · rw [readFull, if_pos hlen] at h
      dsimp only at h
      split at h
      · next hid =>
        cases h
        refine ⟨isHexID_hexEncode ?_, hid.2⟩
        rw [List.length_take]
        omega
      · exact ih h
    · rw [readFull, if_neg hlen] at h
      cases h

/-! ### What a call can commit -/

def Data.setPermit (data : Data) (id : String) (record : PermitState) : Data :=
  { data with permits := data.permits.insert id record }

def Data.setRequest (data : Data) (id : String) (request : RequestState) : Data :=
  { data with requests := data.requests.insert id request }

def Data.setEnrollment (data : Data) (id : String) (record : EnrollmentState) : Data :=
  { data with enrollments := data.enrollments.insert id record }

variable (a : Authority crypto) (env : Env)

/-- A grant that `grantLocked` makes for a request. -/
structure Grants (base : Data) (request : RequestState) (profile : String) (now : ℤ)
    (nodeID : NodeID) (grant : EnrollmentGrantV1) : Prop where
  nodeID_ne : nodeID ≠ 0
  nodeID_lt : nodeID.toNat < 2 ^ 63
  unused : base.usedNodeIDs[nodeID]? = none
  new : base.enrollments[grant.enrollmentID]? = none
  hex : isHexID grant.enrollmentID 16 = true
  signed : grant = (a.newGrant grant.enrollmentID nodeID request profile now).signed a.identity
  valid : grant.validate crypto = .ok ()

/-- The data `Submit` works on: overdue requests are expired. -/
def Authority.base : Data :=
  { a.data with requests := expirePendingRequests a.data.requests (unixMilli env.now) }

/-- No request of the device under the parent is pending or approved. -/
def Closed (requests : Requests) (triple : Triple) : Prop :=
  ∀ (id : String) (request : RequestState), requests[id]? = some request →
    request.triple = triple → request.isOpen = false

def Authority.newRequest (s : Submission) : RequestState :=
  s.request crypto a.limits.pendingTTL (unixMilli env.now)

/-- The request a submission with a permit turns into an enrollment: the one it names,
the pending one of the same device and parent, or a new one. -/
inductive Redeemable (s : Submission) : RequestState → Prop
  | named {request : RequestState} (h : (a.base env).requests[s.requestID]? = some request)
      (htriple : request.triple = s.triple crypto) (hstatus : request.status ≠ .approved) :
      Redeemable s request
  | waiting {id : String} {request : RequestState}
      (hnew : (a.base env).requests[s.requestID]? = none)
      (h : (a.base env).requests[id]? = some request)
      (htriple : request.triple = s.triple crypto) (hstatus : request.status = .pending) :
      Redeemable s request
  | fresh (hnew : (a.base env).requests[s.requestID]? = none)
      (hclosed : Closed (a.base env).requests (s.triple crypto)) :
      Redeemable s (a.newRequest env s)

/-- A submission that passed `validateEnrollmentSubmission`. -/
structure Submission.Valid (s : Submission) : Prop where
  requestID : isHexID s.requestID 16 = true
  device : s.devicePublicKey.length = publicKeySize
  parent : s.parentNodeID ≠ 0
  parentKey : s.parentPublicKey.length = publicKeySize

/-- What a call commits, and what it returns if the commit succeeds. -/
inductive Change : Call → Data → Except String Reply → Prop
  | issue {issueRequestID fingerprint : String} {target : NodeID} {allow : Bool}
      {profile : String} {ttl : ℤ} {permitID : String} {permit : EnrollmentPermitV1}
      (hnew : a.data.permits[permitID]? = none) (hissue : isHexID issueRequestID 16 = true)
      (hpermit : permit = (a.newPermit permitID fingerprint target allow profile env.now
        ttl).signed a.identity)
      (hvalid : permit.validate crypto = .ok ()) :
      Change (.issuePermit issueRequestID fingerprint target allow profile ttl)
        (a.data.setPermit permitID ⟨permit, .active, issueRequestID, "", 0, 0, ""⟩)
        (.ok (.permit permit))
  | expire {s : Submission} {answer : Except String Reply}
      (hknown : ∀ reply, answer = .ok reply → Known a.data reply) :
      Change (.submit s) (a.base env) answer
  | expireOne {call : Call} {id : String} {request : RequestState} {text : String}
      (hrequest : a.data.requests[id]? = some request) (hpending : request.status = .pending) :
      Change call (a.data.expireRequest id request) (.error text)
  | record {s : Submission} (hs : s.Valid) (hnew : (a.base env).requests[s.requestID]? = none)
      (hclosed : Closed (a.base env).requests (s.triple crypto)) :
      Change (.submit s) ((a.base env).setRequest s.requestID (a.newRequest env s))
        (.ok (.outcome ⟨.pending, s.requestID, none, ""⟩))
  | approve {command id profile : String} {request : RequestState} {nodeID : NodeID}
      {grant : EnrollmentGrantV1} (hrequest : a.data.requests[id]? = some request)
      (hpending : request.status = .pending)
      (hgrant : Grants a a.data request profile (unixMilli env.later) nodeID grant) :
      Change (.approve command id profile)
        (a.data.granted request profile nodeID grant (unixMilli env.later)) (.ok (.grant grant))
  | redeem {s : Submission} {permit : EnrollmentPermitV1} {record : PermitState}
      {request : RequestState} {nodeID : NodeID} {grant : EnrollmentGrantV1} (hs : s.Valid)
      (hpermit : s.permit = some permit)
      (hrecord : a.data.permits[permit.permitID]? = some record)
      (hactive : record.status = .active) (hrequest : Redeemable a env s request)
      (hgrant : Grants a (a.base env)
        { request with transcriptDigest := hexEncode s.transcriptDigest }
        record.permit.admissionProfile (unixMilli env.now) nodeID grant) :
      Change (.submit s)
        (((a.base env).granted { request with transcriptDigest := hexEncode s.transcriptDigest }
          record.permit.admissionProfile nodeID grant (unixMilli env.now)).setPermit
            record.permit.permitID (record.consumed s.requestID (unixMilli env.now)))
        (.ok (.outcome ⟨.granted, s.requestID, some grant, ""⟩))
  | reject {command id reason : String} {request : RequestState}
      (hrequest : a.data.requests[id]? = some request) (hpending : request.status = .pending)
      (hreason : reason ≠ "") :
      Change (.reject command id reason)
        (a.data.setRequest id (request.reject reason (unixMilli env.later))) (.ok .done)
  | revokePermit {command id reason : String} {record : PermitState}
      (hrecord : a.data.permits[id]? = some record) (hactive : record.status = .active)
      (hreason : reason ≠ "") :
      Change (.revokePermit command id reason)
        (a.data.setPermit id (record.revoke reason (unixMilli env.now))) (.ok .done)
  | revokeEnrollment {command id reason : String} {record : EnrollmentState} {nodeID : NodeID}
      (hrecord : a.data.enrollments[id]? = some record) (hactive : record.status = .active)
      (hreason : reason ≠ "") :
      Change (.revokeEnrollment command id reason)
        (a.data.setEnrollment id (record.revoke reason (unixMilli env.now))) (.ok (.nodeID nodeID))

def RevokedBefore (data : Data) : Call → Prop
  | .revokePermit _ id _ => ∃ record, data.permits[id]? = some record ∧ record.status = .revoked
  | _ => True

/-- What a call has prepared: a change, or an answer about the data as it is. -/
def Prepared (call : Call) (plan : Plan Reply) : Prop :=
  match plan.next with
  | some next => Change a env call next plan.answer
  | none => ∀ reply, plan.answer = .ok reply → Known a.data reply ∧ RevokedBefore a.data call

variable {a env}

theorem grantLocked_eq_ok {base next : Data} {now : ℤ} {grant : EnrollmentGrantV1}
    (h : a.grantLocked random base request profile now = .ok (next, grant)) :
    ∃ nodeID, Grants a base request profile now nodeID grant ∧
      next = base.granted request profile nodeID grant now := by
  simp only [grantLocked, bind_eq_ok, require_eq_ok, Prod.exists] at h
  obtain ⟨-, -, nodeID, rest, halloc, enrollmentID, rest', hid, h⟩ := h
  obtain ⟨hne, hlt, hunused⟩ := allocateNodeIDLoop_spec halloc
  obtain ⟨hhex, hnew⟩ := newUniqueIDLoop_spec hid
  cases hvalid : ((a.newGrant enrollmentID nodeID request profile now).signed a.identity).validate
      crypto with
  | error text =>
    rw [hvalid] at h
    cases h
  | ok u =>
    rw [hvalid] at h
    cases h
    exact ⟨nodeID, ⟨hne, hlt, hunused, contains_eq_false_iff.mp hnew, hhex, rfl, hvalid⟩, rfl⟩

theorem consumePermitLocked_eq_ok {next : Data} {permit : EnrollmentPermitV1} {fingerprint : String}
    {now : ℤ} {record : PermitState}
    (h : a.consumePermitLocked env next s permit fingerprint now = .ok record) :
    next.permits[permit.permitID]? = some record ∧ record.status = .active := by
  simp only [consumePermitLocked, bind_eq_ok] at h
  obtain ⟨-, -, h⟩ := h
  cases hrecord : next.permits[permit.permitID]? with
  | none =>
    rw [hrecord] at h
    cases h
  | some found =>
    rw [hrecord] at h
    simp only [bind_eq_ok, require_eq_ok] at h
    obtain ⟨-, -, -, hconsumed, -, hrevoked, -, -, -, -, h⟩ := h
    cases htarget : parseEnrollmentNodeID permit.targetNodeID with
    | none =>
      rw [htarget] at h
      cases h
    | some target =>
      rw [htarget] at h
      simp only [bind_eq_ok, require_eq_ok] at h
      obtain ⟨-, -, h⟩ := h
      cases h
      refine ⟨rfl, ?_⟩
      cases hstatus : record.status with
      | active => rfl
      | consumed => exact absurd hstatus hconsumed
      | revoked => exact absurd hstatus hrevoked

theorem prepared_grantPlan {permit : EnrollmentPermitV1} {plan : Plan Outcome} (hs : s.Valid)
    (hpermit : s.permit = some permit) (hrequest : Redeemable a env s request)
    (h : a.grantPlan env (a.base env) s permit request = .ok plan) :
    Prepared a env (.submit s) (plan.map .outcome) := by
  -- the three places of `Submit` that grant prepare the same change
  simp only [grantPlan, grantSubmissionWithPermitLocked, bind_eq_ok,
    Prod.exists] at h
  obtain ⟨next, grant, ⟨record, hconsume, granted, grant', hgrant, h'⟩, h⟩ := h
  cases h'
  cases h
  obtain ⟨hrecord, hactive⟩ := consumePermitLocked_eq_ok hconsume
  obtain ⟨nodeID, hgrants, rfl⟩ := grantLocked_eq_ok hgrant
  exact .redeem hs hpermit hrecord hactive hrequest hgrants

theorem valid_of_validateEnrollmentSubmission (h : validateEnrollmentSubmission s = .ok ()) :
    s.Valid := by
  simp only [validateEnrollmentSubmission, validateEnrollmentHexID, validateNodeID, bind_eq_ok,
    require_eq_ok] at h
  obtain ⟨-, hid, -, hdevice, -, hparent, -, hkey, -⟩ := h
  exact ⟨hid, hdevice, hparent, hkey⟩

theorem known_of_outcome {data : Data} {outcome : Outcome}
    (h : outcomeForRequestLocked data.enrollments request = .ok outcome) (id : String) :
    Known data (.outcome { outcome with requestID := id }) := by
  refine ⟨fun permit hp => (by cases hp), fun grant hgrant => ?_⟩
  unfold outcomeForRequestLocked at h
  cases hstatus : request.status with
  | pending =>
    rw [hstatus] at h
    cases h
    cases hgrant
  | rejected =>
    rw [hstatus] at h
    cases h
    cases hgrant
  | expired =>
    rw [hstatus] at h
    cases h
    cases hgrant
  | approved =>
    rw [hstatus] at h
    cases hrecord : data.enrollments[request.enrollmentID]? with
    | none =>
      simp only [hrecord] at h
      cases h
    | some record =>
      simp only [hrecord] at h
      split at h
      · cases h
      · cases h
        cases hgrant
        exact ⟨record, mem_values.mpr ⟨_, hrecord⟩, rfl⟩

theorem firstOpen_eq_some {requests : Requests} {triple : Triple}
    (h : firstOpen order requests triple = some request) :
    ∃ id : String, requests[id]? = some request ∧ request.triple = triple ∧
      request.isOpen = true := by
  obtain ⟨id, -, h⟩ := List.exists_of_findSome?_eq_some h
  rw [Option.filter_eq_some_iff] at h
  exact ⟨id, h.1, by simpa using h.2⟩

theorem firstOpen_eq_none {requests : Requests} {triple : Triple}
    (h : firstOpen order requests triple = none) : Closed requests triple := by
  intro id request hrequest htriple
  have hmem : id ∈ order.arrange requests.keys := by
    rw [(order.perm _).mem_iff, ExtTreeMap.mem_keys, ← ExtTreeMap.isSome_getElem?_iff_mem, hrequest]
    rfl
  have hnone := List.findSome?_eq_none_iff.mp h id hmem
  rw [hrequest, Option.filter_eq_none_iff] at hnone
  simpa [htriple] using hnone request rfl

theorem issuedFor_eq_some {issueRequestID : String} {record : PermitState}
    (h : a.issuedFor order issueRequestID = some record) : record ∈ values a.data.permits := by
  obtain ⟨id, -, h⟩ := List.exists_of_findSome?_eq_some h
  rw [Option.filter_eq_some_iff] at h
  exact mem_values.mpr ⟨id, h.1⟩

/-! ### The operations -/

theorem prepared_issuePermit {issueRequestID fingerprint : String} {target : NodeID} {allow : Bool}
    {ttl : ℤ} {plan : Plan EnrollmentPermitV1}
    (h : a.issuePermit env issueRequestID fingerprint target allow profile ttl = .ok plan) :
    Prepared a env
      (.issuePermit issueRequestID fingerprint target allow profile ttl) (plan.map .permit) := by
  simp only [issuePermit, validateEnrollmentHexID, bind_eq_ok, require_eq_ok] at h
  obtain ⟨-, hissue, -, -, -, -, -, -, -, -, h⟩ := h
  cases hfor : a.issuedFor env.order issueRequestID with
  | some record =>
    rw [hfor] at h
    simp only [bind_eq_ok, require_eq_ok] at h
    obtain ⟨-, -, h⟩ := h
    cases h
    intro reply hreply
    cases hreply
    refine ⟨⟨fun permit hp => ?_, fun grant hg => (nomatch hg)⟩, trivial⟩
    cases hp
    exact ⟨record, issuedFor_eq_some hfor, rfl⟩
  | none =>
    rw [hfor] at h
    simp only [bind_eq_ok, require_eq_ok, Prod.exists] at h
    obtain ⟨-, -, permitID, rest, hid, h⟩ := h
    have hnew := contains_eq_false_iff.mp (newUniqueIDLoop_spec hid).2
    split at h
    · cases h
    · next hvalid =>
      cases h
      exact .issue hnew hissue rfl hvalid

theorem prepared_changed {answer : Except String Outcome}
    (hknown : ∀ outcome, answer = .ok outcome → Known a.data (.outcome outcome)) :
    Prepared a env (.submit s)
      (Plan.map .outcome ⟨if expiredChanged a.data.requests (unixMilli env.now) then
        some (a.base env) else none, answer⟩) := by
  have hreply : ∀ reply, answer.map Reply.outcome = .ok reply → Known a.data reply := by
    intro reply hreply
    cases hanswer : answer with
    | error text =>
      rw [hanswer] at hreply
      cases hreply
    | ok outcome =>
      rw [hanswer] at hreply
      cases hreply
      exact hknown outcome hanswer
  by_cases hchanged : expiredChanged a.data.requests (unixMilli env.now) = true
  · rw [if_pos hchanged]
    exact .expire hreply
  · rw [if_neg hchanged]
    exact fun reply h => ⟨hreply reply h, trivial⟩

theorem prepared_submit {plan : Plan Outcome} (h : a.submit env s = .ok plan) :
    Prepared a env (.submit s) (plan.map .outcome) := by
  unfold submit at h
  rw [bind_eq_ok] at h
  obtain ⟨u, hvalid, h⟩ := h
  have hs := valid_of_validateEnrollmentSubmission hvalid
  extract_lets _ now next changed at h
  cases hnamed : next.requests[s.requestID]? with
  | some existing =>
    rw [hnamed] at h
    simp only [bind_eq_ok, require_eq_ok] at h
    obtain ⟨-, htriple, h⟩ := h
    have hanswer : ∀ outcome, outcomeForRequestLocked a.data.enrollments existing = .ok outcome →
        Known a.data (.outcome outcome) := fun outcome ho => known_of_outcome ho outcome.requestID
    cases hpermit : s.permit with
    | none =>
      rw [hpermit] at h
      cases h
      exact prepared_changed hanswer
    | some permit =>
      rw [hpermit] at h
      by_cases hstatus : existing.status ≠ .approved
      · simp only [if_pos hstatus] at h
        exact prepared_grantPlan hs hpermit (.named hnamed htriple hstatus) h
      · simp only [if_neg hstatus] at h
        cases h
        exact prepared_changed hanswer
  | none =>
    rw [hnamed] at h
    cases hopen : firstOpen env.order next.requests (s.triple crypto) with
    | some existing =>
      rw [hopen] at h
      obtain ⟨id, hid, htriple, -⟩ := firstOpen_eq_some hopen
      have hanswer : ∀ outcome, ((outcomeForRequestLocked a.data.enrollments existing).map
          fun outcome => { outcome with requestID := s.requestID }) = .ok outcome →
          Known a.data (.outcome outcome) := by
        intro outcome ho
        cases hfound : outcomeForRequestLocked a.data.enrollments existing with
        | error text =>
          rw [hfound] at ho
          cases ho
        | ok found =>
          rw [hfound] at ho
          cases ho
          exact known_of_outcome hfound s.requestID
      cases hpermit : s.permit with
      | none =>
        rw [hpermit] at h
        cases h
        exact prepared_changed hanswer
      | some permit =>
        rw [hpermit] at h
        by_cases hstatus : existing.status = .pending
        · simp only [if_pos hstatus] at h
          exact prepared_grantPlan hs hpermit (.waiting hnamed hid htriple hstatus) h
        · simp only [if_neg hstatus] at h
          cases h
          exact prepared_changed hanswer
    | none =>
      rw [hopen] at h
      have hclosed := firstOpen_eq_none hopen
      simp only [bind_eq_ok, require_eq_ok] at h
      obtain ⟨-, -, h⟩ := h
      cases hpermit : s.permit with
      | some permit =>
        rw [hpermit] at h
        exact prepared_grantPlan hs hpermit (.fresh hnamed hclosed) h
      | none =>
        rw [hpermit] at h
        simp only [bind_eq_ok, require_eq_ok] at h
        obtain ⟨-, -, -, -, h⟩ := h
        cases h
        exact .record hs hnamed hclosed

theorem reason_ne_of_validateLabel {text : String} {maxBytes : ℕ} {u : Unit}
    (h : validateLabel reason maxBytes text = .ok u) : reason ≠ "" := by
  rw [validateLabel, require_eq_ok, not_or] at h
  exact h.1

theorem prepared_approve {plan : Plan EnrollmentGrantV1}
    (h : a.approve env command id profile = .ok plan) :
    Prepared a env (.approve command id profile) (plan.map .grant) := by
  simp only [approve, bind_eq_ok] at h
  obtain ⟨-, -, -, -, -, -, h⟩ := h
  cases hrequest : a.data.requests[id]? with
  | none =>
    rw [hrequest] at h
    cases h
  | some request =>
    rw [hrequest] at h
    dsimp only at h
    cases hstatus : request.status with
    | approved =>
      rw [hstatus] at h
      dsimp only at h
      cases hrecord : a.data.enrollments[request.enrollmentID]? with
      | none =>
        rw [hrecord] at h
        cases h
      | some record =>
        rw [hrecord] at h
        simp only [bind_eq_ok, require_eq_ok] at h
        obtain ⟨-, -, h⟩ := h
        cases h
        intro reply hreply
        cases hreply
        refine ⟨⟨fun permit hp => (by cases hp), fun grant hgrant => ?_⟩, trivial⟩
        cases hgrant
        exact ⟨record, mem_values.mpr ⟨_, hrecord⟩, rfl⟩
    | rejected =>
      rw [hstatus] at h
      cases h
    | expired =>
      rw [hstatus] at h
      cases h
    | pending =>
      rw [hstatus] at h
      dsimp only at h
      split at h
      · cases h
        exact .expireOne hrequest hstatus
      · simp only [bind_eq_ok, Prod.exists] at h
        obtain ⟨next, grant, hgrant, h⟩ := h
        cases h
        obtain ⟨nodeID, hgrants, rfl⟩ := grantLocked_eq_ok hgrant
        exact .approve hrequest hstatus hgrants

theorem prepared_reject {plan : Plan Unit} (h : a.reject env command id reason = .ok plan) :
    Prepared a env (.reject command id reason) (plan.map fun _ => .done) := by
  simp only [reject, bind_eq_ok] at h
  obtain ⟨-, -, -, -, u, hreason, h⟩ := h
  cases hrequest : a.data.requests[id]? with
  | none =>
    rw [hrequest] at h
    cases h
  | some request =>
    rw [hrequest] at h
    dsimp only at h
    cases hstatus : request.status with
    | rejected =>
      rw [hstatus] at h
      cases h
      intro reply hreply
      cases hreply
      exact ⟨⟨fun permit hp => (by cases hp), fun grant hg => (nomatch hg)⟩, trivial⟩
    | expired =>
      rw [hstatus] at h
      cases h
    | approved =>
      rw [hstatus] at h
      cases h
    | pending =>
      rw [hstatus] at h
      dsimp only at h
      split at h
      · cases h
        exact .expireOne hrequest hstatus
      · cases h
        exact .reject hrequest hstatus (reason_ne_of_validateLabel hreason)

theorem prepared_revokePermit {plan : Plan Unit}
    (h : a.revokePermit env command id reason = .ok plan) :
    Prepared a env (.revokePermit command id reason) (plan.map fun _ => .done) := by
  simp only [revokePermit, bind_eq_ok] at h
  obtain ⟨-, -, -, -, u, hreason, h⟩ := h
  cases hrecord : a.data.permits[id]? with
  | none =>
    rw [hrecord] at h
    cases h
  | some record =>
    rw [hrecord] at h
    dsimp only at h
    cases hstatus : record.status with
    | revoked =>
      rw [hstatus] at h
      cases h
      intro reply hreply
      cases hreply
      exact ⟨⟨fun permit hp => (by cases hp), fun grant hg => (nomatch hg)⟩, record,
        hrecord, hstatus⟩
    | consumed =>
      rw [hstatus] at h
      cases h
    | active =>
      rw [hstatus] at h
      cases h
      exact .revokePermit hrecord hstatus (reason_ne_of_validateLabel hreason)

theorem prepared_revokeEnrollment {plan : Plan NodeID}
    (h : a.revokeEnrollment env command id reason = .ok plan) :
    Prepared a env (.revokeEnrollment command id reason) (plan.map .nodeID) := by
  simp only [revokeEnrollment, bind_eq_ok] at h
  obtain ⟨-, -, -, -, u, hreason, h⟩ := h
  cases hrecord : a.data.enrollments[id]? with
  | none =>
    rw [hrecord] at h
    cases h
  | some record =>
    rw [hrecord] at h
    dsimp only at h
    cases hstatus : record.status with
    | revoked =>
      rw [hstatus] at h
      cases h
      intro reply hreply
      cases hreply
      exact ⟨⟨fun permit hp => (by cases hp), fun grant hg => (nomatch hg)⟩, trivial⟩
    | active =>
      rw [hstatus] at h
      cases h
      exact .revokeEnrollment hrecord hstatus (reason_ne_of_validateLabel hreason)

theorem prepared_grantForRequest {requestID : String} {plan : Plan EnrollmentGrantV1}
    (h : a.grantForRequest env requestID = .ok plan) :
    Prepared a env (.grantForRequest requestID) (plan.map .grant) := by
  unfold grantForRequest at h
  cases hrequest : a.data.requests[requestID]? with
  | none =>
    rw [hrequest] at h
    cases h
  | some request =>
    rw [hrequest] at h
    simp only [bind_eq_ok] at h
    obtain ⟨-, -, outcome, houtcome, h⟩ := h
    have hknown := (known_of_outcome houtcome outcome.requestID).2
    cases hgrant : outcome.grant with
    | none =>
      rw [hgrant] at h
      cases h
    | some grant =>
      rw [hgrant] at h
      cases h
      intro reply hreply
      cases hreply
      refine ⟨⟨fun permit hp => (by cases hp), fun grant' hgrant' => ?_⟩, trivial⟩
      cases hgrant'
      exact hknown grant hgrant

/-- **What the operations prepare.** -/
theorem prepared_plan {call : Call} {plan : Plan Reply} (h : a.plan env call = .ok plan) :
    Prepared a env call plan := by
  have hmap : ∀ {α : Type} {prepared : Except String (Plan α)} {f : α → Reply},
      prepared.map (Plan.map f) = .ok plan → ∃ p, prepared = .ok p ∧ plan = p.map f := by
    intro α prepared f h
    cases prepared with
    | error text => cases h
    | ok p =>
      cases h
      exact ⟨p, rfl, rfl⟩
  cases call with
  | issuePermit issueRequestID fingerprint target allow profile ttl =>
    obtain ⟨p, hp, rfl⟩ := hmap h
    exact prepared_issuePermit hp
  | submit s =>
    obtain ⟨p, hp, rfl⟩ := hmap h
    exact prepared_submit hp
  | approve command id profile =>
    obtain ⟨p, hp, rfl⟩ := hmap h
    exact prepared_approve hp
  | reject command id reason =>
    obtain ⟨p, hp, rfl⟩ := hmap h
    exact prepared_reject hp
  | revokePermit command id reason =>
    obtain ⟨p, hp, rfl⟩ := hmap h
    exact prepared_revokePermit hp
  | revokeEnrollment command id reason =>
    obtain ⟨p, hp, rfl⟩ := hmap h
    exact prepared_revokeEnrollment hp
  | grantForRequest requestID =>
    obtain ⟨p, hp, rfl⟩ := hmap h
    exact prepared_grantForRequest hp

end Enrollment
