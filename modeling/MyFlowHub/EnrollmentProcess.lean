/-
The enrollment authority as a process: calls, saves that fail, and restarts.

A `Process` is the authority in memory while it is running, the record on disk, and a
log of what was returned.  A save that fails leaves the disk as it was; a restart
loads the record, and finds nothing to run when the record is refused.

* `dataFromState_eq` — a record that loads gives back the data it was made from;
* `Process.stored_run` — a property that holds of a fresh installation and is kept by
  every change and every answer holds after every run.
-/
import MyFlowHub.EnrollmentChanges
import MyFlowHub.Runs

open Checks Protocol
open Std Encoding Tables List

namespace Enrollment

variable {crypto : Crypto}

/-! ### Records know their keys -/

/-- Every record is filed under its own identifier. -/
structure Keyed (data : Data) : Prop where
  permits : ∀ (id : String) (record : PermitState), data.permits[id]? = some record →
    record.permit.permitID = id
  requests : ∀ (id : String) (request : RequestState), data.requests[id]? = some request →
    request.requestID = id
  enrollments : ∀ (id : String) (record : EnrollmentState), data.enrollments[id]? = some record →
    record.grant.enrollmentID = id

variable {publicKey : Bytes} {call : Call} {data next : Data} {grant : EnrollmentGrantV1}
  {request : RequestState} {id : String}

theorem Keyed.setPermit (h : Keyed data) {record : PermitState}
    (hid : record.permit.permitID = id) :
    Keyed (data.setPermit id record) := by
  refine ⟨fun id' record' h' => ?_, h.requests, h.enrollments⟩
  rcases lookup_insert_eq_some.mp h' with ⟨hne, rfl⟩ | ⟨-, h'⟩
  · exact hid.trans hne.symm
  · exact h.permits id' record' h'

theorem Keyed.setRequest (h : Keyed data) (hid : request.requestID = id) :
    Keyed (data.setRequest id request) := by
  refine ⟨h.permits, fun id' request' h' => ?_, h.enrollments⟩
  rcases lookup_insert_eq_some.mp h' with ⟨hne, rfl⟩ | ⟨-, h'⟩
  · exact hid.trans hne.symm
  · exact h.requests id' request' h'

theorem Keyed.setEnrollment (h : Keyed data) {record : EnrollmentState}
    (hid : record.grant.enrollmentID = id) : Keyed (data.setEnrollment id record) := by
  refine ⟨h.permits, h.requests, fun id' record' h' => ?_⟩
  rcases lookup_insert_eq_some.mp h' with ⟨hne, rfl⟩ | ⟨-, h'⟩
  · exact hid.trans hne.symm
  · exact h.enrollments id' record' h'

theorem Keyed.granted (h : Keyed data) (request : RequestState) (profile : String) (nodeID : NodeID)
    (grant : EnrollmentGrantV1) (now : ℤ) :
    Keyed (data.granted request profile nodeID grant now) := by
  let record : EnrollmentState :=
    { grant := grant, devicePublicKeyFingerprint := request.devicePublicKeyFingerprint,
      requestID := request.requestID, status := .active }
  have hrequest : Keyed (data.setRequest request.requestID
      (request.approved profile grant.enrollmentID now)) := h.setRequest rfl
  have hrecord : Keyed ((data.setRequest request.requestID
      (request.approved profile grant.enrollmentID now)).setEnrollment grant.enrollmentID record) :=
    hrequest.setEnrollment rfl
  exact { hrecord with }

theorem lookup_expirePendingRequests (requests : Requests) (now : ℤ) (id : String) :
    (expirePendingRequests requests now)[id]? = requests[id]?.map fun request =>
      if request.overdue now then request.expire else request :=
  ExtTreeMap.getElem?_map

theorem exists_of_lookup_expire {requests : Requests} {now : ℤ}
    (h : (expirePendingRequests requests now)[id]? = some request) :
    ∃ before : RequestState, requests[id]? = some before ∧
      (request = before ∨ before.overdue now = true ∧ request = before.expire) := by
  rw [lookup_expirePendingRequests, Option.map_eq_some_iff] at h
  obtain ⟨before, hbefore, h⟩ := h
  refine ⟨before, hbefore, ?_⟩
  by_cases hoverdue : before.overdue now = true
  · rw [if_pos hoverdue] at h
    exact .inr ⟨hoverdue, h.symm⟩
  · rw [if_neg hoverdue] at h
    exact .inl h.symm

variable {a : Authority crypto} {env : Env}

theorem Keyed.base (h : Keyed a.data) (env : Env) : Keyed (a.base env) := by
  refine ⟨h.permits, fun id request hrequest => ?_, h.enrollments⟩
  obtain ⟨before, hbefore, rfl | ⟨-, rfl⟩⟩ := exists_of_lookup_expire hrequest
  · exact h.requests id request hbefore
  · exact h.requests id before hbefore

theorem Keyed.change (h : Keyed a.data) {answer : Except String Reply}
    (hchange : Change a env call next answer) : Keyed next := by
  cases hchange with
  | issue hnew hissue hpermit hvalid =>
    refine h.setPermit ?_
    rw [hpermit]
    rfl
  | expire hknown => exact h.base env
  | expireOne hrequest hpending =>
    have hid := h.requests _ _ hrequest
    exact h.setRequest hid
  | record hs hnew hclosed => exact (h.base env).setRequest rfl
  | approve hrequest hpending hgrant => exact h.granted ..
  | redeem hs hpermit hrecord hactive hrequest hgrant =>
    exact ((h.base env).granted ..).setPermit rfl
  | reject hrequest hpending hreason =>
    have hid := h.requests _ _ hrequest
    exact h.setRequest hid
  | revokePermit hrecord hactive hreason =>
    have hid := h.permits _ _ hrecord
    exact h.setPermit hid
  | revokeEnrollment hrecord hactive hreason =>
    have hid := h.enrollments _ _ hrecord
    exact h.setEnrollment hid

/-! ### Reading the record back -/

theorem addUsedNodeID_eq_ok {used used' : UsedNodeIDs} {nodeID : NodeID}
    (h : addUsedNodeID used nodeID = .ok used') : used' = used.insert nodeID () := by
  simp only [addUsedNodeID, bind_eq_ok] at h
  obtain ⟨-, -, -, -, h⟩ := h
  cases h
  rfl

theorem addPermit_eq_ok {permits permits' : Permits} {record : PermitState}
    (h : addPermit crypto publicKey permits record = .ok permits') :
    permits' = permits.insert record.permit.permitID record := by
  simp only [addPermit, bind_eq_ok] at h
  obtain ⟨-, -, -, -, h⟩ := h
  cases h
  rfl

theorem addRequest_eq_ok {requests requests' : Requests} {record : RequestState}
    (h : addRequest crypto requests record = .ok requests') :
    requests' = requests.insert record.requestID record := by
  simp only [addRequest, bind_eq_ok] at h
  obtain ⟨-, -, -, -, h⟩ := h
  cases h
  rfl

theorem addEnrollment_eq_ok {used : UsedNodeIDs} {enrollments enrollments' : Enrollments}
    {record : EnrollmentState}
    (h : addEnrollment crypto publicKey used enrollments record = .ok enrollments') :
    enrollments' = enrollments.insert record.grant.enrollmentID record := by
  simp only [addEnrollment, bind_eq_ok] at h
  obtain ⟨-, -, -, -, -, -, h⟩ := h
  cases h
  rfl

/-- A loop over the values of a table that inserts each under its key rebuilds the table. -/
theorem eq_of_foldlM_values {β : Type} {t t' : ExtTreeMap String β compare} {key : β → String}
    {add : ExtTreeMap String β compare → β → Except String (ExtTreeMap String β compare)}
    (hkey : ∀ (a : String) (v : β), t[a]? = some v → key v = a)
    (hadd : ∀ u v u', add u v = .ok u' → u' = u.insert (key v) v)
    (h : (values t).foldlM add ∅ = .ok t') : t' = t := by
  rw [eq_insertAll_of_foldlM (fun v => (key v, v)) hadd h, map_values_eq_toList hkey,
    insertAll_toList]

/-- **Reading back.**  A record that loads gives back the data it was made from. -/
theorem dataFromState_eq {identity : Identity crypto} {data' : Data} {generation : UInt64}
    (hkeyed : Keyed data)
    (h : dataFromState crypto (identity.stateOf data generation) publicKey = .ok data') :
    data' = data := by
  simp only [dataFromState, bind_eq_ok] at h
  obtain ⟨used, hused, -, -, permits, hpermits, requests, hrequests, enrollments, henrollments,
    -, -, -, -, h⟩ := h
  have hused' : used = data.usedNodeIDs := by
    rw [eq_insertAll_of_foldlM (fun id => (id, ())) (fun _ _ _ => addUsedNodeID_eq_ok) hused]
    exact (congrArg _ (map_keys_eq_toList data.usedNodeIDs)).trans (insertAll_toList _)
  have hpermits' : permits = data.permits :=
    eq_of_foldlM_values hkeyed.permits (fun _ _ _ => addPermit_eq_ok) hpermits
  have hrequests' : requests = data.requests :=
    eq_of_foldlM_values hkeyed.requests (fun _ _ _ => addRequest_eq_ok) hrequests
  have henrollments' : enrollments = data.enrollments :=
    eq_of_foldlM_values hkeyed.enrollments (fun _ _ _ => addEnrollment_eq_ok) henrollments
  cases h
  rw [hused', hpermits', hrequests', henrollments']

/-! ### The process -/

/-- What the authority has returned to its callers. -/
inductive Event where
  | issued (permit : EnrollmentPermitV1)
  | granted (grant : EnrollmentGrantV1)
  /-- The submission of a permit made a new enrollment. -/
  | redeemed (permitID : String) (grant : EnrollmentGrantV1)
  | permitRevoked (permitID : String)
  deriving DecidableEq

/-- The permit a call was answered with a new enrollment for. -/
def redeemedBy (a : Authority crypto) (call : Call) (grant : EnrollmentGrantV1) : List Event :=
  match call with
  | .submit s =>
    match s.permit with
    | some permit =>
      if a.data.enrollments.contains grant.enrollmentID then []
      else [.redeemed permit.permitID grant]
    | none => []
  | _ => []

def eventsOf (a : Authority crypto) (call : Call) : Except String Reply → List Event
  | .error _ => []
  | .ok (.permit permit) => [.issued permit]
  | .ok .done =>
    match call with
    | .revokePermit _ id _ => [.permitRevoked id]
    | _ => []
  | .ok reply =>
    match reply.grant? with
    | some grant => .granted grant :: redeemedBy a call grant
    | none => []

structure Process (crypto : Crypto) where
  disk : Option State := none
  running : Option (Authority crypto) := none
  log : List Event := []

inductive Act where
  /-- A call, and the error of the save it makes, if that fails. -/
  | call (env : Env) (call : Call) (fault : Option String)
  | restart (limits : Limits) (fault : Option String)

namespace Process

variable (identity : Identity crypto)

def step (p : Process crypto) : Act → Process crypto
  | .call env call fault =>
    match p.running with
    | none => p
    | some a =>
      let (answer, a', disk) := a.perform (Commit.slot fault) (a.plan env call) p.disk
      ⟨disk, some a', p.log ++ eventsOf a call answer⟩
  | .restart limits fault =>
    match loadEnrollmentAuthority identity limits (Commit.slot fault) p.disk p.disk with
    | (.ok a, disk) => { p with disk := disk, running := some a }
    | (.error _, disk) => { p with disk := disk, running := none }

def start : Process crypto := {}

def run (acts : List Act) : Process crypto := acts.foldl (step identity) start

end Process

def freshData (identity : Identity crypto) : Data :=
  { usedNodeIDs := (∅ : UsedNodeIDs).insert identity.nodeID () }

theorem keyed_freshData (identity : Identity crypto) : Keyed (freshData identity) := by
  refine ⟨fun id record h => ?_, fun id request h => ?_, fun id record h => ?_⟩
  · simp [freshData] at h
  · simp [freshData] at h
  · simp [freshData] at h

theorem dataFromState_freshState (identity : Identity crypto) :
    dataFromState crypto (freshState identity) identity.publicKey = .ok (freshData identity) := by
  have hadd : addUsedNodeID ∅ identity.nodeID = .ok
    ((∅ : UsedNodeIDs).insert identity.nodeID ()) := by
    simp [addUsedNodeID, require, identity.nodeID_ne]
    rfl
  simp [dataFromState, freshState, hadd, require, freshData, pure, Except.pure, bind, Except.bind]

/-! ### What was returned stays -/

/-- The grants that were returned are those of enrollment records. -/
def Recorded (data : Data) (log : List Event) : Prop :=
  ∀ grant, Event.granted grant ∈ log →
    ∃ record, data.enrollments[grant.enrollmentID]? = some record ∧ record.grant = grant

/-- The next data has an enrollment for each one there was, with the same grant. -/
def Extends (data next : Data) : Prop :=
  ∀ (id : String) (record : EnrollmentState), data.enrollments[id]? = some record →
    ∃ record', next.enrollments[id]? = some record' ∧ record'.grant = record.grant

theorem extends_of_eq (h : next.enrollments = data.enrollments) : Extends data next := by
  intro id record hrecord
  exact ⟨record, by rw [h, hrecord], rfl⟩

theorem extends_granted {profile : String} {nodeID : NodeID} {now : ℤ}
    (hnew : data.enrollments[grant.enrollmentID]? = none) :
    Extends data (data.granted request profile nodeID grant now) := by
  intro id record hrecord
  refine ⟨record, ?_, rfl⟩
  have hne : id ≠ grant.enrollmentID := by
    rintro rfl
    rw [hnew] at hrecord
    cases hrecord
  rw [Data.granted, lookup_insert_of_ne _ _ hne, hrecord]

theorem extends_change {answer : Except String Reply} (hchange : Change a env call next answer) :
    Extends a.data next := by
  cases hchange with
  | approve hrequest hpending hgrant => exact extends_granted hgrant.new
  | @redeem s permit record request nodeID grant hs hpermit hrecord hactive hrequest hgrant =>
    have hbase : Extends (a.base env) ((a.base env).granted
        { request with transcriptDigest := hexEncode s.transcriptDigest }
        record.permit.admissionProfile nodeID grant (unixMilli env.now)) :=
      extends_granted hgrant.new
    exact hbase
  | @revokeEnrollment command id reason record nodeID hrecord hactive hreason =>
    intro id' record' hrecord'
    by_cases hne : id' = id
    · rw [hne, hrecord] at hrecord'
      cases hrecord'
      rw [hne]
      exact ⟨_, lookup_insert_self .., rfl⟩
    · exact ⟨record', (lookup_insert_of_ne _ _ hne).trans hrecord', rfl⟩
  | _ => exact extends_of_eq rfl

theorem known_change {answer : Except String Reply} (hchange : Change a env call next answer)
    {reply : Reply} (hreply : answer = .ok reply) (hgrant : reply.grant? = some grant) :
    (∃ record ∈ values a.data.enrollments, record.grant = grant) ∨
      ∃ record, next.enrollments[grant.enrollmentID]? = some record ∧ record.grant = grant ∧
        a.data.enrollments[grant.enrollmentID]? = none := by
  cases hchange with
  | issue hnew hissue hpermit hvalid =>
    cases hreply
    cases hgrant
  | expire hknown => exact .inl ((hknown reply hreply).2 grant hgrant)
  | expireOne hrequest hpending => cases hreply
  | record hs hnew hclosed =>
    cases hreply
    cases hgrant
  -- only an approval and a permit make a grant; the other answers name a known one or none
  | approve hrequest hpending hg =>
    cases hreply
    cases hgrant
    exact .inr ⟨_, lookup_insert_self .., rfl, hg.new⟩
  | redeem hs hpermit hrecord hactive hrequest hg =>
    cases hreply
    cases hgrant
    exact .inr ⟨_, lookup_insert_self .., rfl, hg.new⟩
  | reject hrequest hpending hreason =>
    cases hreply
    cases hgrant
  | revokePermit hrecord hactive hreason =>
    cases hreply
    cases hgrant
  | revokeEnrollment hrecord hactive hreason =>
    cases hreply
    cases hgrant

theorem mem_eventsOf {answer : Except String Reply} {event : Event}
    (h : event ∈ eventsOf a call answer) :
    (∃ permit, answer = .ok (.permit permit) ∧ event = .issued permit) ∨
    (∃ command id reason, call = .revokePermit command id reason ∧ answer = .ok .done ∧
      event = .permitRevoked id) ∨
    ∃ reply grant, answer = .ok reply ∧ reply.grant? = some grant ∧
      (event = .granted grant ∨ ∃ s permit, call = .submit s ∧ s.permit = some permit ∧
        a.data.enrollments[grant.enrollmentID]? = none ∧
        event = .redeemed permit.permitID grant) := by
  unfold eventsOf at h
  split at h
  · simp at h
  · exact .inl ⟨_, rfl, mem_singleton.mp h⟩
  · split at h
    · exact .inr (.inl ⟨_, _, _, rfl, rfl, mem_singleton.mp h⟩)
    · simp at h
  · next reply _ _ =>
    split at h
    · next grant hgrant =>
      refine .inr (.inr ⟨reply, grant, rfl, hgrant, ?_⟩)
      rcases mem_cons.mp h with heq | hmem
      · exact .inl heq
      · unfold redeemedBy at hmem
        split at hmem
        · split at hmem
          · next permit hpermit =>
            split at hmem
            · simp at hmem
            · next hnew =>
              refine .inr ⟨_, permit, rfl, hpermit, ?_, mem_singleton.mp hmem⟩
              exact contains_eq_false_iff.mp (Bool.not_eq_true _ ▸ hnew)
          · simp at hmem
        · simp at hmem
    · simp at h

theorem granted_mem_eventsOf {answer : Except String Reply}
    (h : Event.granted grant ∈ eventsOf a call answer) :
    ∃ reply, answer = .ok reply ∧ reply.grant? = some grant := by
  obtain ⟨permit, -, heq⟩ | ⟨_, id, _, -, -, heq⟩ |
    ⟨reply, grant', hreply, hgrant, heq | hredeemed⟩ :=
    mem_eventsOf h
  · cases heq
  · cases heq
  · cases heq
    exact ⟨reply, hreply, hgrant⟩
  · obtain ⟨_, _, -, -, -, heq⟩ := hredeemed
    cases heq

theorem Recorded.change {answer : Except String Reply} {log : List Event} (hkeyed : Keyed a.data)
    (h : Recorded a.data log) (hchange : Change a env call next answer) :
    Recorded next (log ++ eventsOf a call answer) := by
  have hextends := extends_change hchange
  intro grant hgrant
  rcases mem_append.mp hgrant with hold | hnew
  · obtain ⟨record, hrecord, rfl⟩ := h grant hold
    exact hextends _ record hrecord
  · obtain ⟨reply, hreply, hg⟩ := granted_mem_eventsOf hnew
    obtain ⟨record, hmem, rfl⟩ | ⟨record, hrecord, heq, -⟩ := known_change hchange hreply hg
    -- a grant answered now is of a record from before, or of the one this change adds
    · obtain ⟨id, hid⟩ := mem_values.mp hmem
      rw [hkeyed.enrollments id record hid]
      exact hextends id record hid
    · exact ⟨record, hrecord, heq⟩

theorem Recorded.answer {answer : Except String Reply} {log : List Event} (hkeyed : Keyed a.data)
    (h : Recorded a.data log) (hanswer : ∀ reply, answer = .ok reply → Known a.data reply) :
    Recorded a.data (log ++ eventsOf a call answer) := by
  intro grant hgrant
  rcases mem_append.mp hgrant with hold | hnew
  · exact h grant hold
  · obtain ⟨reply, hreply, hg⟩ := granted_mem_eventsOf hnew
    obtain ⟨record, hmem, rfl⟩ := (hanswer reply hreply).2 grant hg
    obtain ⟨id, hid⟩ := mem_values.mp hmem
    rw [hkeyed.enrollments id record hid]
    exact ⟨record, hid, rfl⟩

/-! ### The run rule -/

/-- A property of the generation, the data and the log that a fresh installation has and
that the admissible calls keep. -/
structure Kept (identity : Identity crypto) (good : Authority crypto → Env → Call → Prop)
    (P : UInt64 → Data → List Event → Prop) : Prop where
  fresh : P 1 (freshData identity) []
  change : ∀ {a : Authority crypto} {env : Env} {call : Call} {next : Data}
    {answer : Except String Reply} {log : List Event}, a.identity = identity → good a env call →
    Keyed a.data → a.generation ≠ 0xffffffffffffffff → P a.generation a.data log →
    Change a env call next answer → P (a.generation + 1) next (log ++ eventsOf a call answer)
  answer : ∀ {a : Authority crypto} {call : Call} {answer : Except String Reply}
    {log : List Event}, Keyed a.data → P a.generation a.data log →
    (∀ reply, answer = .ok reply → Known a.data reply ∧ RevokedBefore a.data call) →
    P a.generation a.data (log ++ eventsOf a call answer)

namespace Process

variable {identity : Identity crypto}

/-- The disk holds the record of data with the property, and so does the memory. -/
structure Stored (identity : Identity crypto) (P : UInt64 → Data → List Event → Prop)
    (p : Process crypto) : Prop where
  absent : p.disk = none → p.running = none ∧ p.log = []
  present : ∀ state, p.disk = some state → ∃ generation data,
    state = identity.stateOf data generation ∧ Keyed data ∧ P generation data p.log ∧
      ∀ a, p.running = some a → a.identity = identity ∧ a.generation = generation ∧ a.data = data

/-- The calls of a run are admissible for the authority that gets them. -/
def Admissible (good : Authority crypto → Env → Call → Prop) (p : Process crypto) : Act → Prop
  | .call env call _ => ∀ a, p.running = some a → good a env call
  | .restart _ _ => True

variable {good : Authority crypto → Env → Call → Prop} {P : UInt64 → Data → List Event → Prop}

theorem load_found (identity : Identity crypto) (limits : Limits)
    (save : Commit.Saver State (Option State)) (state : State) (disk : Option State) :
    (loadEnrollmentAuthority identity limits save (some state) disk).2 = disk ∧
    ∀ a, (loadEnrollmentAuthority identity limits save (some state) disk).1 = .ok a →
      a.identity = identity ∧ a.generation = state.generation ∧
        dataFromState crypto state identity.publicKey = .ok a.data := by
  unfold loadEnrollmentAuthority
  simp only [Option.getD_some]
  split
  · exact ⟨rfl, fun a h => (nomatch h)⟩
  · split
    · exact ⟨rfl, fun a h => (nomatch h)⟩
    · split
      · exact ⟨rfl, fun a h => (nomatch h)⟩
      · next data hdata =>
        refine ⟨rfl, fun a h => ?_⟩
        cases h
        exact ⟨rfl, rfl, hdata⟩

theorem load_absent (identity : Identity crypto) (limits : Limits) (fault : Option String) :
    loadEnrollmentAuthority identity limits (Commit.slot fault) none none =
      match fault with
      | some text => (.error ("initialize enrollment authority state: " ++ text), none)
      | none => (.ok ⟨identity, limits, 1, freshData identity⟩,
          some (identity.stateOf (freshData identity) 1)) := by
  unfold loadEnrollmentAuthority
  have hversion : ¬((freshState identity).version ≠ stateVersion ∨
      (freshState identity).generation = 0) := by simp [freshState]
  have hidentity : ¬((freshState identity).authorityNodeID ≠ identity.nodeID ∨
      (freshState identity).authorityPublicKey ≠ identity.publicKey) := by simp [freshState]
  simp only [Option.getD_none, if_neg hversion, if_neg hidentity, dataFromState_freshState]
  cases fault with
  | some text => rfl
  | none => rfl

variable {p : Process crypto}

theorem stored_restart (h : Kept identity good P) (hp : Stored identity P p) (limits : Limits)
    (fault : Option String) : Stored identity P (step identity p (.restart limits fault)) := by
  dsimp only [step]
  cases hdisk : p.disk with
  | none =>
    have hlog := (hp.absent hdisk).2
    rw [load_absent]
    cases fault with
    | some text => exact ⟨fun _ => ⟨rfl, hlog⟩, fun state hs => (nomatch hs)⟩
    | none =>
      refine ⟨fun hs => (nomatch hs), fun state hs => ?_⟩
      cases hs
      refine ⟨1, freshData identity, rfl, keyed_freshData identity, ?_, fun a ha => ?_⟩
      · show P 1 (freshData identity) p.log
        rw [hlog]
        exact h.fresh
      · cases ha
        exact ⟨rfl, rfl, rfl⟩
  | some state =>
    obtain ⟨generation, data, hstate, hkeyed, hP, -⟩ := hp.present state hdisk
    obtain ⟨hsame, hloaded⟩ := load_found identity limits (Commit.slot fault) state (some state)
    rcases hload : loadEnrollmentAuthority identity limits (Commit.slot fault) (some state)
      (some state) with ⟨_ | a, disk⟩
    · rw [hload] at hsame
      dsimp only at hsame ⊢
      rw [hsame]
      refine ⟨fun hs => (nomatch hs), fun state' hs => ?_⟩
      cases hs
      exact ⟨generation, data, hstate, hkeyed, hP, fun a ha => (nomatch ha)⟩
    · rw [hload] at hsame hloaded
      dsimp only at hsame ⊢
      rw [hsame]
      refine ⟨fun hs => (nomatch hs), fun state' hs => ?_⟩
      cases hs
      refine ⟨generation, data, hstate, hkeyed, hP, fun a' ha' => ?_⟩
      cases ha'
      obtain ⟨hid, hgeneration, hdata⟩ := hloaded a rfl
      rw [hstate] at hgeneration hdata
      exact ⟨hid, hgeneration, dataFromState_eq hkeyed hdata⟩

theorem commitLocked_cases (a : Authority crypto) (fault : Option String) (next : Data)
    (disk : Option State) :
    (a.generation ≠ 0xffffffffffffffff ∧ a.commitLocked (Commit.slot fault) next disk =
      (none, { a with data := next, generation := a.generation + 1 },
        some (a.identity.stateOf next (a.generation + 1)))) ∨
    ∃ text, a.commitLocked (Commit.slot fault) next disk = (some text, a, disk) := by
  unfold Authority.commitLocked Commit.commit Authority.refusal
  by_cases hmax : a.generation = 0xffffffffffffffff
  · rw [if_pos hmax]
    exact .inr ⟨_, rfl⟩
  · rw [if_neg hmax]
    cases fault with
    | some text => exact .inr ⟨_, rfl⟩
    | none => exact .inl ⟨hmax, rfl⟩

theorem perform_cases (a : Authority crypto) (env : Env) (call : Call) (fault : Option String)
    (disk : Option State) :
    (∃ answer, a.perform (Commit.slot fault) (a.plan env call) disk = (answer, a, disk) ∧
      ∀ reply, answer = .ok reply → Known a.data reply ∧ RevokedBefore a.data call) ∨
    ∃ next answer, a.generation ≠ 0xffffffffffffffff ∧ Change a env call next answer ∧
      a.perform (Commit.slot fault) (a.plan env call) disk =
        (answer, { a with data := next, generation := a.generation + 1 },
          some (a.identity.stateOf next (a.generation + 1))) := by
  cases hplan : a.plan env call with
  | error text => exact .inl ⟨.error text, rfl, fun reply hreply => (nomatch hreply)⟩
  | ok plan =>
    have hprepared := prepared_plan hplan
    obtain ⟨_ | next, answer⟩ := plan
    · exact .inl ⟨answer, rfl, hprepared⟩
    · dsimp only [Authority.perform]
      obtain ⟨hmax, hcommit⟩ | ⟨text, hcommit⟩ := commitLocked_cases a fault next disk
      · rw [hcommit]
        exact .inr ⟨next, answer, hmax, hprepared, rfl⟩
      · rw [hcommit]
        exact .inl ⟨.error text, rfl, fun reply hreply => (nomatch hreply)⟩

theorem step_call {a : Authority crypto} (hrunning : p.running = some a) {env : Env} {call : Call}
    {fault : Option String} {answer : Except String Reply} {a' : Authority crypto}
    {disk : Option State}
    (h : a.perform (Commit.slot fault) (a.plan env call) p.disk = (answer, a', disk)) :
    step identity p (.call env call fault) =
      ⟨disk, some a', p.log ++ eventsOf a call answer⟩ := by
  simp only [step, hrunning, h]

theorem stored_call (h : Kept identity good P) (hp : Stored identity P p) {env : Env} {call : Call}
    (fault : Option String) (hgood : ∀ a, p.running = some a → good a env call) :
    Stored identity P (step identity p (.call env call fault)) := by
  cases hrunning : p.running with
  | none =>
    have hsame : step identity p (.call env call fault) = p := by simp only [step, hrunning]
    rw [hsame]
    exact hp
  | some a =>
    cases hdisk : p.disk with
    | none =>
      have hnone := (hp.absent hdisk).1
      rw [hrunning] at hnone
      cases hnone
    | some state =>
      obtain ⟨generation, data, hstate, hkeyed, hP, hmemory⟩ := hp.present state hdisk
      obtain ⟨hid, rfl, rfl⟩ := hmemory a hrunning
      obtain ⟨answer, hperform, hanswer⟩ | ⟨next, answer, hmax, hchange, hperform⟩ :=
        perform_cases a env call fault p.disk
      · rw [step_call hrunning hperform, hdisk]
        refine ⟨fun hs => (nomatch hs), fun state' hs => ?_⟩
        cases hs
        refine ⟨a.generation, a.data, hstate, hkeyed, h.answer hkeyed hP hanswer, fun a' ha' => ?_⟩
        cases ha'
        exact ⟨hid, rfl, rfl⟩
      · rw [step_call hrunning hperform]
        refine ⟨fun hs => (nomatch hs), fun state' hs => ?_⟩
        cases hs
        refine ⟨a.generation + 1, next, by rw [hid], hkeyed.change hchange,
          h.change hid (hgood a hrunning) hkeyed hmax hP hchange, fun a' ha' => ?_⟩
        cases ha'
        exact ⟨hid, rfl, rfl⟩

/-- **The run rule.** -/
theorem stored_run (h : Kept identity good P) {acts : List Act}
    (hacts : Runs.Along (step identity) (Admissible good) start acts) :
    Stored identity P (run identity acts) := by
  refine Runs.foldl_along ?_ ⟨fun _ => ⟨rfl, rfl⟩, fun state hs => (nomatch hs)⟩ hacts
  intro p act hp hact
  cases act with
  | call env call fault => exact stored_call h hp fault hact
  | restart limits fault => exact stored_restart h hp limits fault

end Process

/-! ### A concrete authority -/

def charsOf (bytes : Bytes) : String := String.ofList (bytes.map fun b => Char.ofNat b.toNat)

def bytesOf (s : String) : Bytes := s.toList.map fun c => UInt8.ofNat c.toNat

theorem bytesOf_charsOf (bytes : Bytes) : bytesOf (charsOf bytes) = bytes := by
  have hbyte : ∀ b : UInt8, UInt8.ofNat (Char.ofNat b.toNat).toNat = b := by
    intro b
    have hlt : b.toNat < 256 := b.toNat_lt
    have hvalid : b.toNat.isValidChar := .inl (by omega)
    have hchar : (Char.ofNat b.toNat).toNat = b.toNat := by simp [Char.ofNat, hvalid]
    rw [hchar, UInt8.ofNat_toNat]
  rw [bytesOf, charsOf, String.toList_ofList, map_map]
  exact (map_congr_left fun b _ => hbyte b).trans (map_id bytes)

/-- Library functions that satisfy the laws and can be evaluated. -/
def plainCrypto : Crypto where
  sha256 := fun bytes => (bytes ++ List.replicate 32 0).take 32
  publicOf := fun key => key.take 32
  sign := fun _ _ => List.replicate 64 0
  verify := fun _ _ signature => signature = List.replicate 64 0
  encode64 := charsOf
  decode64 := fun s => some (bytesOf s)
  marshalPermit := fun message => bytesOf (message.1 ++ message.2.permitID)
  marshalGrant := fun message => bytesOf (message.1 ++ message.2.enrollmentID)
  verify_sign := fun _ _ => decide_eq_true rfl
  decode64_encode64 := fun bytes => congrArg some (bytesOf_charsOf bytes)

def plainIdentity : Identity plainCrypto where
  nodeID := 1
  publicKey := List.replicate 32 1
  privateKey := List.replicate 64 1
  nodeID_ne := by decide
  publicKey_length := by decide
  privateKey_length := by decide
  publicOf_privateKey := by decide

def plainLimits : Limits where
  maxPermitTTL := 3600 * second
  pendingTTL := 3600 * second
  maxPermits := 10
  maxRequests := 10
  maxPending := 10
  maxPendingPerParent := 10
  maxEnrollments := 10
  maxPermitTTL_ge := by decide
  pendingTTL_ge := by decide
  counts := by decide

/-- A call at a second, with random bytes that repeat one value. -/
def plainEnv (now : ℤ) (random : UInt8) : Env where
  now := now * second
  later := now * second
  random := List.replicate 24 random
  order := .asIs
  isTargetDescendant := none

def plainID (byte : UInt8) : String := hexEncode (List.replicate 16 byte)

def plainSubmission (request : UInt8) (permit : Option EnrollmentPermitV1) : Submission where
  requestID := plainID request
  devicePublicKey := List.replicate 32 7
  parentNodeID := 2
  parentPublicKey := List.replicate 32 2
  permit := permit
  transcriptDigest := List.replicate 32 9
  transcriptDigest_length := by decide

end Enrollment
