/-
One enrollment per device and parent.

`Submit` looks for an open request of the same device and parent only when the request
it names is new.  A permit on a request that was rejected or has expired is granted
without looking at the others, so the device can end with two Node IDs under one
parent; the theorem is about the runs in which that does not happen.

* `Unrevived` — the condition on a submission;
* **`one_enrollment`** — then one open request, one enrollment and one grant for each
  device and parent, in every state of every run;
* `two_node_ids` — a run that revives a rejected request.
-/
import MyFlowHub.EnrollmentLinks

open Std Encoding Tables

namespace Enrollment

open Process

variable {crypto : Crypto}

/-! ### The condition -/

/-- No permit is submitted for a rejected or expired request while another request of the
same device and parent is open. -/
def Unrevived (a : Authority crypto) (env : Env) : Call → Prop
  | .submit s => ∀ request : RequestState, s.permit ≠ none →
      (a.base env).requests[s.requestID]? = some request → request.isOpen = false →
      Closed (a.base env).requests (s.triple crypto)
  | _ => True

/-! ### One open request -/

def Single (requests : Requests) : Prop :=
  ∀ (id id' : String) (request request' : RequestState),
    requests[id]? = some request → requests[id']? = some request' →
    request.isOpen = true → request'.isOpen = true → request.triple = request'.triple → id = id'

/-- Every other request of the device and parent is closed. -/
def ClosedBut (requests : Requests) (id : String) (triple : Triple) : Prop :=
  ∀ (id' : String) (request : RequestState), id' ≠ id → requests[id']? = some request →
    request.triple = triple → request.isOpen = false

variable {request : RequestState} {requests : Requests} {id : String}

theorem Closed.but {triple : Triple} (h : Closed requests triple) (id : String) :
    ClosedBut requests id triple :=
  fun id' request _ hrequest htriple => h id' request hrequest htriple

theorem Single.but (h : Single requests) (hrequest : requests[id]? = some request)
    (hopen : request.isOpen = true) : ClosedBut requests id request.triple := by
  intro id' request' hne hrequest' htriple
  cases hopen' : request'.isOpen with
  | false => rfl
  | true => exact absurd (h id' id request' request hrequest' hrequest hopen' hopen htriple) hne

theorem Single.insert (h : Single requests)
    (hbut : request.isOpen = true → ClosedBut requests id request.triple) :
    Single (requests.insert id request) := by
  -- an open request beside the new one contradicts `hbut`
  have hnew : ∀ (id' : String) (request' : RequestState), id' ≠ id →
      requests[id']? = some request' → request'.isOpen = true → request.isOpen = true →
      request'.triple ≠ request.triple := by
    intro id' request' hne hrequest' hopen' hopen htriple
    rw [hbut hopen id' request' hne hrequest' htriple] at hopen'
    cases hopen'
  intro id₁ id₂ request₁ request₂ h₁ h₂ hopen₁ hopen₂ htriple
  by_cases hne₁ : id₁ = id
  · by_cases hne₂ : id₂ = id
    · rw [hne₁, hne₂]
    · rw [hne₁, lookup_insert_self] at h₁
      rw [lookup_insert_of_ne _ _ hne₂] at h₂
      cases h₁
      exact absurd htriple.symm (hnew id₂ request₂ hne₂ h₂ hopen₂ hopen₁)
  · rw [lookup_insert_of_ne _ _ hne₁] at h₁
    rcases lookup_insert_eq_some.mp h₂ with ⟨-, rfl⟩ | ⟨-, h₂⟩
    · exact absurd htriple (hnew id₁ request₁ hne₁ h₁ hopen₁ hopen₂)
    · exact h id₁ id₂ request₁ request₂ h₁ h₂ hopen₁ hopen₂ htriple

theorem open_of_lookup_expire {now : ℤ}
    (h : (expirePendingRequests requests now)[id]? = some request) (hopen : request.isOpen = true) :
    requests[id]? = some request := by
  obtain ⟨before, hbefore, rfl | ⟨-, rfl⟩⟩ := exists_of_lookup_expire h
  · exact hbefore
  · cases hopen

variable {a : Authority crypto} {env : Env}

theorem Single.base (h : Single a.data.requests) (env : Env) :
    Single (a.base env).requests := by
  intro id id' request request' hrequest hrequest' hopen hopen' htriple
  exact h id id' request request' (open_of_lookup_expire hrequest hopen)
    (open_of_lookup_expire hrequest' hopen') hopen hopen' htriple

theorem isOpen_of_pending (h : request.status = .pending) : request.isOpen = true := by
  simp [RequestState.isOpen, h]

theorem Redeemable.closedBut {s : Submission} (hkeyed : Keyed a.data)
    (hsingle : Single a.data.requests) (hpermit : s.permit ≠ none)
    (hgood : Unrevived a env (.submit s)) (h : Redeemable a env s request) :
    ClosedBut (a.base env).requests request.requestID request.triple := by
  have hbase := hsingle.base env
  cases h with
  | named hfound htriple hstatus =>
    rw [(hkeyed.base env).requests _ _ hfound]
    cases hopen : request.isOpen with
    | true => exact hbase.but hfound hopen
    | false =>
      rw [htriple]
      exact (hgood request hpermit hfound hopen).but _
  | waiting hnew hfound htriple hstatus =>
    rw [(hkeyed.base env).requests _ _ hfound]
    exact hbase.but hfound (isOpen_of_pending hstatus)
  | fresh hnew hclosed => exact hclosed.but _

/-- **One open request.**  Every change that revives no request keeps it so. -/
theorem Single.change (hkeyed : Keyed a.data) (h : Single a.data.requests) {call : Call}
    {next : Data} {answer : Except String Reply} (hgood : Unrevived a env call)
    (hchange : Change a env call next answer) : Single next.requests := by
  cases hchange with
  | issue hnew hissue hpermit hvalid => exact h
  | expire hknown => exact h.base env
  | expireOne hrequest hpending => exact h.insert fun hopen => (nomatch hopen)
  | record hs hnew hclosed => exact (h.base env).insert fun _ => hclosed.but _
  | approve hrequest hpending hgrant =>
    have hbut := h.but hrequest (isOpen_of_pending hpending)
    rw [← hkeyed.requests _ _ hrequest] at hbut
    exact h.insert fun _ => hbut
  | redeem hs hpermit hrecord hactive hrequest hgrant =>
    have hbut := hrequest.closedBut hkeyed h (by rw [hpermit]; simp) hgood
    exact (h.base env).insert fun _ => hbut
  | reject hrequest hpending hreason => exact h.insert fun hopen => (nomatch hopen)
  | revokePermit hrecord hactive hreason => exact h
  | revokeEnrollment hrecord hactive hreason => exact h

/-! ### One enrollment -/

variable (crypto) in
/-- The fingerprint of the device a grant is for. -/
def EnrollmentGrantV1.fingerprint (grant : EnrollmentGrantV1) : String :=
  devicePublicKeyFingerprint crypto ((crypto.decode64 grant.devicePublicKey).getD [])

theorem encode64_injective {x y : Bytes} (h : crypto.encode64 x = crypto.encode64 y) : x = y := by
  have hdecode := congrArg crypto.decode64 h
  rw [crypto.decode64_encode64, crypto.decode64_encode64] at hdecode
  exact Option.some.inj hdecode

theorem enrollment_unique {data : Data} (hsingle : Single data.requests)
    (hlinked : Linked crypto data) {id' : String} {record record' : EnrollmentState}
    (h : data.enrollments[id]? = some record) (h' : data.enrollments[id']? = some record')
    (hdevice : record.devicePublicKeyFingerprint = record'.devicePublicKeyFingerprint)
    (hparent : record.grant.parentNodeID = record'.grant.parentNodeID)
    (hkey : record.grant.parentPublicKey = record'.grant.parentPublicKey) : id = id' := by
  obtain ⟨request, hrequest, hstatus, hid, hagree⟩ := hlinked.agree h
  obtain ⟨request', hrequest', hstatus', hid', hagree'⟩ := hlinked.agree h'
  have htriple : request.triple = request'.triple := by
    unfold RequestState.triple
    rw [hagree.fingerprint, hagree'.fingerprint] at hdevice
    rw [hagree.parentNodeID, hagree'.parentNodeID] at hparent
    rw [hagree.parentPublicKey, hagree'.parentPublicKey] at hkey
    rw [hdevice, formatUint_injective hparent, encode64_injective hkey]
  have hsame := hsingle _ _ request request' hrequest hrequest'
    (by simp [RequestState.isOpen, hstatus])
    (by simp [RequestState.isOpen, hstatus']) htriple
  rw [hsame, hrequest'] at hrequest
  cases hrequest
  exact hid.symm.trans hid'

theorem Linked.fingerprint {data : Data} (h : Linked crypto data) {record : EnrollmentState}
    (hrecord : data.enrollments[id]? = some record) :
    record.devicePublicKeyFingerprint = record.grant.fingerprint crypto := by
  obtain ⟨request, hrequest, -, -, hagree⟩ := h.agree hrecord
  rw [hagree.fingerprint, EnrollmentGrantV1.fingerprint, hagree.device, crypto.decode64_encode64]
  exact (h.stamped _ request hrequest).symm

/-! ### Runs -/

variable (crypto) in
/-- What holds of the data and of the grants returned so far. -/
structure OneEach (data : Data) (log : List Event) : Prop where
  single : Single data.requests
  linked : Linked crypto data
  recorded : Recorded data log

theorem kept_oneEach (identity : Identity crypto) :
    Kept identity Unrevived fun _ => OneEach crypto where
  fresh := by
    refine ⟨fun id id' request request' h => ?_, linked_freshData identity, fun grant h =>
      (nomatch h)⟩
    simp [freshData] at h
  change _ hgood hkeyed _ h hchange :=
    ⟨h.single.change hkeyed hgood hchange, h.linked.change hkeyed hchange,
      h.recorded.change hkeyed hchange⟩
  answer hkeyed h hanswer :=
    ⟨h.single, h.linked, h.recorded.answer hkeyed fun reply hreply => (hanswer reply hreply).1⟩

/-- **One enrollment per device and parent.**  In every run in which no rejected or expired
request is revived beside an open one, a device has at most one open request and at most
one enrollment under a parent, and every grant it was ever given there is the same. -/
theorem one_enrollment (identity : Identity crypto) (acts : List Act)
    (hacts : Runs.Along (step identity) (Process.Admissible Unrevived) start acts) :
    (∀ a : Authority crypto, (run identity acts).running = some a →
      (∀ (id id' : String) (request request' : RequestState),
        a.data.requests[id]? = some request → a.data.requests[id']? = some request' →
        request.status = .pending ∨ request.status = .approved →
        request'.status = .pending ∨ request'.status = .approved →
        request.triple = request'.triple → id = id') ∧
      (∀ (id id' : String) (record record' : EnrollmentState),
        a.data.enrollments[id]? = some record → a.data.enrollments[id']? = some record' →
        record.devicePublicKeyFingerprint = record'.devicePublicKeyFingerprint →
        record.grant.parentNodeID = record'.grant.parentNodeID →
        record.grant.parentPublicKey = record'.grant.parentPublicKey → id = id')) ∧
    ∀ grant grant' : EnrollmentGrantV1,
      .granted grant ∈ (run identity acts).log →
      .granted grant' ∈ (run identity acts).log →
      grant.fingerprint crypto = grant'.fingerprint crypto →
      grant.parentNodeID = grant'.parentNodeID →
      grant.parentPublicKey = grant'.parentPublicKey → grant = grant' := by
  have hstored := stored_run (kept_oneEach identity) hacts
  have hopen : ∀ request : RequestState, request.status = .pending ∨ request.status = .approved →
      request.isOpen = true := by
    intro request h
    simpa [RequestState.isOpen] using h
  cases hdisk : (run identity acts).disk with
  | none =>
    obtain ⟨hrunning, hlog⟩ := hstored.absent hdisk
    refine ⟨fun a ha => ?_, fun grant grant' hgrant => ?_⟩
    · rw [hrunning] at ha
      cases ha
    · rw [hlog] at hgrant
      cases hgrant
  | some state =>
    obtain ⟨generation, data, -, -, hone, hmemory⟩ := hstored.present state hdisk
    refine ⟨fun a ha => ?_, fun grant grant' hgrant hgrant' hdevice hparent hkey => ?_⟩
    · obtain ⟨-, -, rfl⟩ := hmemory a ha
      refine ⟨fun id id' request request' h h' hstatus hstatus' => ?_,
        fun id id' record record' h h' => enrollment_unique hone.single hone.linked h h'⟩
      exact hone.single id id' request request' h h' (hopen request hstatus)
        (hopen request' hstatus')
    · obtain ⟨record, hrecord, rfl⟩ := hone.recorded grant hgrant
      obtain ⟨record', hrecord', rfl⟩ := hone.recorded grant' hgrant'
      rw [← hone.linked.fingerprint hrecord, ← hone.linked.fingerprint hrecord'] at hdevice
      have hid := enrollment_unique hone.single hone.linked hrecord hrecord' hdevice hparent hkey
      rw [hid, hrecord'] at hrecord
      cases hrecord
      rfl

/-! ### A revived request -/

/-- The permit that the first call of the run issues. -/
def revivalPermit : EnrollmentPermitV1 :=
  (Authority.newPermit ⟨plainIdentity, plainLimits, 1, freshData plainIdentity⟩ (plainID 3)
    (devicePublicKeyFingerprint plainCrypto (List.replicate 32 7)) 2 false "edge" second
    (600 * second)).signed plainIdentity

/-- A permit is issued; the first request of the device is rejected, its second approved. -/
def approval : List Act :=
  [.restart plainLimits none, .call (plainEnv 1 3) (.issuePermit (plainID 4)
     (devicePublicKeyFingerprint plainCrypto (List.replicate 32 7)) 2 false "edge" (600 * second))
     none, .call (plainEnv 2 0) (.submit (plainSubmission 10 none)) none,
   .call (plainEnv 3 0) (.reject (plainID 5) (plainID 10) "unknown device") none,
   .call (plainEnv 4 0) (.submit (plainSubmission 11 none)) none,
   .call (plainEnv 5 20) (.approve (plainID 6) (plainID 11) "edge") none]

/-- Then the device submits the permit under the rejected request. -/
def revival : List Act :=
  approval ++ [.call (plainEnv 6 21) (.submit (plainSubmission 10 (some revivalPermit))) none]

/-- The revival gives the device a second Node ID under the same parent. -/
theorem two_node_ids :
    ((run plainIdentity revival).running.map fun a =>
      ([10, 11] : List UInt8).map fun request => a.data.requests[plainID request]?.map fun r =>
        (r.status, r.triple)) =
      some (List.replicate 2 (some (.approved, (plainSubmission 10 none).triple plainCrypto))) ∧
    ((run plainIdentity revival).log.filterMap fun event =>
      match event with
      | .granted grant => some (grant.nodeID, grant.parentNodeID)
      | _ => none) = [("1446803456761533460", "2"), ("1519143629599610133", "2")] := by
  decide +kernel

/-- The run up to the approval revives nothing. -/
theorem one_enrollment_approval :
    Runs.Along (step plainIdentity) (Process.Admissible Unrevived) start approval ∧
    ∀ grant grant' : EnrollmentGrantV1,
      .granted grant ∈ (run plainIdentity approval).log →
      .granted grant' ∈ (run plainIdentity approval).log →
      grant.fingerprint plainCrypto = grant'.fingerprint plainCrypto →
      grant.parentNodeID = grant'.parentNodeID →
      grant.parentPublicKey = grant'.parentPublicKey → grant = grant' := by
  have hacts : Runs.Along (step plainIdentity) (Process.Admissible Unrevived)
      start approval := by
    refine ⟨trivial, fun _ _ => trivial, fun a _ request hpermit => absurd rfl hpermit,
      fun _ _ => trivial, fun a _ request hpermit => absurd rfl hpermit, fun _ _ =>
        trivial, trivial⟩
  exact ⟨hacts, (one_enrollment plainIdentity approval hacts).2⟩

end Enrollment
