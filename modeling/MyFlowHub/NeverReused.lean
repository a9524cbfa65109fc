/-
Node IDs, permits and epochs are never used twice.

Whatever calls, failing saves and restarts a run is made of, an enrollment stays in
the data with its grant and a permit that is consumed or revoked stays so.  Every
permit and every grant is stamped with the generation its commit creates, and every
grant takes a Node ID that no earlier one has.

* `Ledger` — what holds of the generation, the data and the log of all answers;
* **`never_reused`** — the Node IDs, permits and epochs of a run.
-/
import MyFlowHub.EnrollmentProcess

open Std Encoding Tables List Option

/-! ### Stamps -/

namespace Stamps

variable {κ : Type}

/-- No two keys have the same stamp, and none has one above the bound. -/
structure Distinct (stamp : κ → Option UInt64) (bound : UInt64) : Prop where
  le : ∀ k e, stamp k = some e → e.toNat ≤ bound.toNat
  eq : ∀ k k' e, stamp k = some e → stamp k' = some e → k = k'

theorem Distinct.next {stamp stamp' : κ → Option UInt64} {g : UInt64} (h : Distinct stamp g)
    (hg : g ≠ 0xffffffffffffffff) (key : κ)
    (hnext : ∀ k e, stamp' k = some e → stamp k = some e ∨ k = key ∧ e = g + 1) :
    Distinct stamp' (g + 1) := by
  have hsucc := Counter.toNat_add_one hg
  have hfresh : ∀ k, stamp k ≠ some (g + 1) := by
    intro k hk
    have := h.le k _ hk
    omega
  refine ⟨fun k e hk => ?_, fun k k' e hk hk' => ?_⟩
  · rcases hnext k e hk with hold | ⟨-, rfl⟩
    · have := h.le k e hold
      omega
    · exact Nat.le_refl _
  · rcases hnext k e hk with hold | ⟨rfl, rfl⟩
    · rcases hnext k' e hk' with hold' | ⟨-, rfl⟩
      · exact h.eq k k' e hold hold'
      · exact absurd hold (hfresh k)
    · rcases hnext k' _ hk' with hold' | ⟨rfl, -⟩
      · exact absurd hold' (hfresh k')
      · rfl

end Stamps

namespace Enrollment

open Stamps Process

variable {crypto : Crypto} {a : Authority crypto} {env : Env}

/-! ### Permits -/

variable {call : Call} {data : Data} {identity : Identity crypto} {log : List Event}
  {id permitID : String}
  {next : Data}

theorem permits_change (hkeyed : Keyed a.data) {answer : Except String Reply}
    (hchange : Change a env call next answer) {record : PermitState}
    (h : a.data.permits[id]? = some record) :
    ∃ record', next.permits[id]? = some record' ∧ record'.permit = record.permit ∧
      (record.status ≠ .active → record' = record) := by
  have hsame : ∃ record', a.data.permits[id]? = some record' ∧ record'.permit = record.permit ∧
      (record.status ≠ .active → record' = record) := ⟨record, h, rfl, fun _ => rfl⟩
  -- the permit written is an active one
  have hwrite : ∀ (id' : String) (old new : PermitState), a.data.permits[id']? = some old →
      old.status = .active → new.permit = old.permit →
      ∃ record', (a.data.permits.insert id' new)[id]? = some record' ∧
        record'.permit = record.permit ∧ (record.status ≠ .active → record' = record) := by
    intro id' old new hold hactive hpermit
    by_cases hne : id = id'
    · rw [hne, hold] at h
      cases h
      rw [hne]
      exact ⟨new, lookup_insert_self .., hpermit, fun hsettled => absurd hactive hsettled⟩
    · exact ⟨record, by rw [lookup_insert_of_ne _ _ hne, h], rfl, fun _ => rfl⟩
  cases hchange with
  | @issue _ _ _ _ _ _ permitID permit hnew hissue hpermit hvalid =>
    have hne : id ≠ permitID := by
      rintro rfl
      rw [hnew] at h
      cases h
    exact ⟨record, by rw [Data.setPermit, lookup_insert_of_ne _ _ hne, h], rfl, fun _ => rfl⟩
  | redeem hs hpermit hrecord hactive hrequest hgrant =>
    rw [← hkeyed.permits _ _ hrecord] at hrecord
    exact hwrite _ _ _ hrecord hactive rfl
  | revokePermit hrecord hactive hreason => exact hwrite _ _ _ hrecord hactive rfl
  | _ => exact hsame

theorem settled_change (hkeyed : Keyed a.data) {answer : Except String Reply}
    (hchange : Change a env call next answer) {status : PermitStatus} (hstatus : status ≠ .active)
    (h : a.data.permits[id]?.map PermitState.status = some status) :
    next.permits[id]?.map PermitState.status = some status := by
  obtain ⟨record, hrecord, rfl⟩ := map_eq_some_iff.mp h
  obtain ⟨record', hrecord', -, hsettled⟩ := permits_change hkeyed hchange hrecord
  rw [hrecord', hsettled hstatus]
  rfl

/-! ### Epochs and Node IDs -/

/-- The epochs of the permits and the enrollments. -/
def epochs (data : Data) : String ⊕ String → Option UInt64
  | .inl id => data.permits[id]?.map fun record => record.permit.authorityEpoch
  | .inr id => data.enrollments[id]?.map fun record => record.grant.authorityEpoch

/-- The Node IDs of the enrollments are valid, used, and each has its own. -/
structure NodeIDs (identity : Identity crypto) (data : Data) : Prop where
  own : data.usedNodeIDs[identity.nodeID]? = some ()
  used : ∀ (id : String) (record : EnrollmentState), data.enrollments[id]? = some record →
    ∃ nodeID : NodeID, record.grant.nodeID = formatUint nodeID ∧ nodeID ≠ 0 ∧
      nodeID.toNat < 2 ^ 63 ∧ nodeID ≠ identity.nodeID ∧ data.usedNodeIDs[nodeID]? = some ()
  eq : ∀ (id id' : String) (record record' : EnrollmentState),
    data.enrollments[id]? = some record → data.enrollments[id']? = some record' →
    record.grant.nodeID = record'.grant.nodeID → id = id'

theorem NodeIDs.granted (h : NodeIDs identity data) {request : RequestState} {profile : String}
    {now : ℤ} {nodeID : NodeID} {grant : EnrollmentGrantV1}
    (hgrant : Grants a data request profile now nodeID grant) :
    NodeIDs identity (data.granted request profile nodeID grant now) := by
  have htext : grant.nodeID = formatUint nodeID := congrArg EnrollmentGrantV1.nodeID hgrant.signed
  have hkept : ∀ nodeID' : NodeID, data.usedNodeIDs[nodeID']? = some () →
      (data.granted request profile nodeID grant now).usedNodeIDs[nodeID']? = some () := by
    intro nodeID' hused
    by_cases hne : nodeID' = nodeID
    · rw [hne]
      exact lookup_insert_self ..
    · rw [Data.granted, lookup_insert_of_ne _ _ hne, hused]
  -- no record has the new Node ID, for those of the records are used
  have hfresh : ∀ (id : String) (record : EnrollmentState), data.enrollments[id]? = some record →
      record.grant.nodeID ≠ grant.nodeID := by
    intro id record hrecord heq
    obtain ⟨nodeID', htext', -, -, -, hused⟩ := h.used id record hrecord
    rw [htext', htext] at heq
    rw [formatUint_injective heq, hgrant.unused] at hused
    cases hused
  refine ⟨hkept _ h.own, fun id record hrecord => ?_, fun id id' record record' hr hr' heq => ?_⟩
  · rcases lookup_insert_eq_some.mp hrecord with ⟨-, rfl⟩ | ⟨-, hrecord⟩
    · refine ⟨nodeID, htext, hgrant.nodeID_ne, hgrant.nodeID_lt, ?_, lookup_insert_self ..⟩
      intro hself
      have hown := h.own
      rw [← hself, hgrant.unused] at hown
      cases hown
    · obtain ⟨nodeID', htext', hzero, hlt, hother, hused⟩ := h.used id record hrecord
      exact ⟨nodeID', htext', hzero, hlt, hother, hkept nodeID' hused⟩
  · by_cases hne : id = grant.enrollmentID
    · by_cases hne' : id' = grant.enrollmentID
      · rw [hne, hne']
      · rw [hne, Data.granted, lookup_insert_self] at hr
        rw [Data.granted, lookup_insert_of_ne _ _ hne'] at hr'
        cases hr
        exact absurd heq.symm (hfresh id' record' hr')
    · rw [Data.granted, lookup_insert_of_ne _ _ hne] at hr
      rcases lookup_insert_eq_some.mp hr' with ⟨-, rfl⟩ | ⟨-, hr'⟩
      · exact absurd heq (hfresh id record hr)
      · exact h.eq id id' record record' hr hr' heq

theorem NodeIDs.setEnrollment (h : NodeIDs identity data) {record new : EnrollmentState}
    (hold : data.enrollments[id]? = some record) (hgrant : new.grant = record.grant) :
    NodeIDs identity (data.setEnrollment id new) := by
  have hlookup : ∀ (id' : String) (found : EnrollmentState),
      (data.setEnrollment id new).enrollments[id']? = some found →
      ∃ before, data.enrollments[id']? = some before ∧ before.grant = found.grant := by
    intro id' found hfound
    rcases lookup_insert_eq_some.mp hfound with ⟨hne, rfl⟩ | ⟨-, hfound⟩
    · exact ⟨record, by rw [hne, hold], hgrant.symm⟩
    · exact ⟨found, hfound, rfl⟩
  refine ⟨h.own, fun id' found hfound => ?_, fun id₁ id₂ found₁ found₂ h₁ h₂ heq => ?_⟩
  · obtain ⟨before, hbefore, hsame⟩ := hlookup id' found hfound
    rw [← hsame]
    exact h.used id' before hbefore
  · obtain ⟨before₁, hbefore₁, hsame₁⟩ := hlookup id₁ found₁ h₁
    obtain ⟨before₂, hbefore₂, hsame₂⟩ := hlookup id₂ found₂ h₂
    exact h.eq id₁ id₂ before₁ before₂ hbefore₁ hbefore₂ (by rw [hsame₁, hsame₂, heq])

theorem NodeIDs.of_eq (h : NodeIDs identity data)
    (henrollments : next.enrollments = data.enrollments)
    (hused : next.usedNodeIDs = data.usedNodeIDs) : NodeIDs identity next := by
  obtain ⟨own, used, eq⟩ := h
  rw [← henrollments, ← hused] at *
  exact ⟨own, used, eq⟩

theorem NodeIDs.change (h : NodeIDs identity a.data) {answer : Except String Reply}
    (hchange : Change a env call next answer) : NodeIDs identity next := by
  cases hchange with
  | approve hrequest hpending hgrant => exact h.granted hgrant
  | redeem hs hpermit hrecord hactive hrequest hgrant =>
    have hbase : NodeIDs identity (a.base env) := h.of_eq rfl rfl
    exact (hbase.granted hgrant).of_eq rfl rfl
  | revokeEnrollment hrecord hactive hreason => exact h.setEnrollment hrecord rfl
  | _ => exact h.of_eq rfl rfl

theorem epochs_change (hkeyed : Keyed a.data) {answer : Except String Reply}
    (hchange : Change a env call next answer) :
    ∃ key, ∀ k e, epochs next k = some e →
      epochs a.data k = some e ∨ k = key ∧ e = a.generation + 1 := by
  have hpermits : ∀ (id : String) (old new : PermitState), a.data.permits[id]? = some old →
      new.permit = old.permit → ∀ id' : String,
      ((a.data.permits.insert id new)[id']?.map fun record => record.permit.authorityEpoch) =
        a.data.permits[id']?.map fun record => record.permit.authorityEpoch := by
    intro id old new hold hpermit id'
    by_cases hne : id' = id
    · rw [hne, lookup_insert_self, hold, map_some, map_some, hpermit]
    · rw [lookup_insert_of_ne _ _ hne]
  have henrollments : ∀ (id : String) (new : EnrollmentState) (id' : String) (e : UInt64),
      new.grant.authorityEpoch = a.generation + 1 →
      ((a.data.enrollments.insert id new)[id']?.map fun record => record.grant.authorityEpoch) =
        some e →
      (a.data.enrollments[id']?.map fun record => record.grant.authorityEpoch) = some e ∨
        (Sum.inr id' : String ⊕ String) = .inr id ∧ e = a.generation + 1 := by
    intro id new id' e hepoch h
    by_cases hne : id' = id
    · rw [hne, lookup_insert_self, map_some] at h
      exact .inr ⟨by rw [hne], (some.inj h).symm.trans hepoch⟩
    · rw [lookup_insert_of_ne _ _ hne] at h
      exact .inl h
  cases hchange with
  | @issue _ _ _ _ _ _ permitID permit hnew hissue hpermit hvalid =>
    refine ⟨.inl permitID, fun k e he => ?_⟩
    rcases k with id | id
    · by_cases hne : id = permitID
      · rw [hne, epochs, Data.setPermit, lookup_insert_self, map_some, hpermit] at he
        exact .inr ⟨by rw [hne], (some.inj he).symm⟩
      · rw [epochs, Data.setPermit, lookup_insert_of_ne _ _ hne] at he
        exact .inl he
    · exact .inl he
  | expire hknown => exact ⟨.inl "", fun k e he => .inl (by cases k <;> exact he)⟩
  | expireOne hrequest hpending => exact ⟨.inl "", fun k e he => .inl (by cases k <;> exact he)⟩
  | record hs hnew hclosed => exact ⟨.inl "", fun k e he => .inl (by cases k <;> exact he)⟩
  | @approve _ _ _ _ _ grant hrequest hpending hgrant =>
    refine ⟨.inr grant.enrollmentID, fun k e he => ?_⟩
    rcases k with id | id
    · exact .inl he
    · exact henrollments _ _ id e (congrArg EnrollmentGrantV1.authorityEpoch hgrant.signed) he
  | @redeem s _ record _ _ grant hs hpermit hrecord hactive hrequest hgrant =>
    refine ⟨.inr grant.enrollmentID, fun k e he => ?_⟩
    rcases k with id | id
    · rw [← hkeyed.permits _ _ hrecord] at hrecord
      have hsame := hpermits _ _ (record.consumed s.requestID (unixMilli env.now)) hrecord rfl id
      exact .inl (hsame.symm.trans he)
    · exact henrollments _ _ id e (congrArg EnrollmentGrantV1.authorityEpoch hgrant.signed) he
  | reject hrequest hpending hreason =>
    exact ⟨.inl "", fun k e he => .inl (by cases k <;> exact he)⟩
  | @revokePermit _ _ reason record hrecord hactive hreason =>
    refine ⟨.inl "", fun k e he => .inl ?_⟩
    rcases k with id | id
    · have hsame := hpermits _ _ (record.revoke reason (unixMilli env.now)) hrecord rfl id
      exact hsame.symm.trans he
    · exact he
  | @revokeEnrollment _ id' _ record _ hrecord hactive hreason =>
    refine ⟨.inl "", fun k e he => .inl ?_⟩
    rcases k with id | id
    · exact he
    · by_cases hne : id = id'
      · rw [hne, epochs, Data.setEnrollment, lookup_insert_self] at he
        rw [hne, epochs, hrecord]
        exact he
      · rw [epochs, Data.setEnrollment, lookup_insert_of_ne _ _ hne] at he
        exact he

/-! ### Events -/

def Event.spends : Event → Option String
  | .redeemed permitID _ => some permitID
  | _ => none

theorem spends_eventsOf (call : Call) (answer : Except String Reply) :
    (eventsOf a call answer).filterMap Event.spends = [] ∨
      ∃ permitID, (eventsOf a call answer).filterMap Event.spends = [permitID] := by
  unfold eventsOf
  split
  · exact .inl rfl
  · exact .inl rfl
  · split
    · exact .inl rfl
    · exact .inl rfl
  · split
    · unfold redeemedBy
      split
      · split
        · split
          · exact .inl rfl
          · exact .inr ⟨_, rfl⟩
        · exact .inl rfl
      · exact .inl rfl
    · exact .inl rfl

theorem mem_spends :
    permitID ∈ log.filterMap Event.spends ↔ ∃ grant, Event.redeemed permitID grant ∈ log := by
  rw [mem_filterMap]
  constructor
  · rintro ⟨event, hevent, hspends⟩
    cases event with
    | issued permit => cases hspends
    | granted grant => cases hspends
    | redeemed id grant =>
      cases hspends
      exact ⟨grant, hevent⟩
    | permitRevoked id => cases hspends
  · rintro ⟨grant, hgrant⟩
    exact ⟨_, hgrant, rfl⟩

section

variable {answer : Except String Reply}

theorem redeemed_change (hkeyed : Keyed a.data) (hchange : Change a env call next answer)
    {grant : EnrollmentGrantV1} (h : Event.redeemed permitID grant ∈ eventsOf a call answer) :
    a.data.permits[permitID]?.map PermitState.status = some .active ∧
      next.permits[permitID]?.map PermitState.status = some .consumed := by
  obtain ⟨permit, -, heq⟩ | ⟨_, id, _, -, -, heq⟩ | ⟨reply, grant', hreply, hgrant, heq | hspent⟩ :=
    mem_eventsOf h
  · cases heq
  · cases heq
  · cases heq
  · obtain ⟨s, permit, hcall, hpermit, hnew, heq⟩ := hspent
    cases heq
    cases hchange with
    | expire hknown =>
      -- the grant of an answer is that of a record, so it is not new
      obtain ⟨record, hmem, rfl⟩ := (hknown reply hreply).2 _ hgrant
      obtain ⟨id, hid⟩ := mem_values.mp hmem
      rw [hkeyed.enrollments id record hid, hid] at hnew
      cases hnew
    | expireOne hrequest hpending => cases hreply
    | record hs hnew' hclosed =>
      cases hreply
      cases hgrant
    | redeem hs hpermit' hrecord hactive hrequest hgrant' =>
      cases hcall
      rw [hpermit] at hpermit'
      cases hpermit'
      refine ⟨by rw [hrecord, map_some, hactive], ?_⟩
      rw [Data.setPermit, hkeyed.permits _ _ hrecord, lookup_insert_self]
      rfl
    | _ => cases hcall

theorem revoked_change (hchange : Change a env call next answer)
    (h : Event.permitRevoked permitID ∈ eventsOf a call answer) :
    next.permits[permitID]?.map PermitState.status = some .revoked := by
  obtain ⟨permit, -, heq⟩ | ⟨_, id, _, hcall, hanswer, heq⟩ | ⟨_, _, -, -, heq | hspent⟩ :=
    mem_eventsOf h
  · cases heq
  · cases heq
    cases hchange with
    | expireOne hrequest hpending => cases hanswer
    | revokePermit hrecord hactive hreason =>
      cases hcall
      rw [Data.setPermit, lookup_insert_self]
      rfl
    | _ => cases hcall
  · cases heq
  · obtain ⟨_, _, -, -, -, heq⟩ := hspent
    cases heq

theorem issued_change (hkeyed : Keyed a.data) (hchange : Change a env call next answer)
    {permit : EnrollmentPermitV1} (h : Event.issued permit ∈ eventsOf a call answer) :
    ∃ record, next.permits[permit.permitID]? = some record ∧ record.permit = permit := by
  obtain ⟨permit', hanswer, heq⟩ | ⟨_, id, _, -, -, heq⟩ | ⟨_, _, -, -, heq | hspent⟩ :=
    mem_eventsOf h
  · cases heq
    cases hchange with
    | issue hnew hissue hpermit hvalid =>
      cases hanswer
      rw [hpermit]
      exact ⟨_, lookup_insert_self .., rfl⟩
    | expire hknown =>
      obtain ⟨record, hmem, rfl⟩ := (hknown _ hanswer).1 permit rfl
      obtain ⟨id, hid⟩ := mem_values.mp hmem
      rw [hkeyed.permits id record hid]
      exact ⟨record, hid, rfl⟩
    | _ => cases hanswer
  · cases heq
  · cases heq
  · obtain ⟨_, _, -, -, -, heq⟩ := hspent
    cases heq

end

/-! ### The ledger -/

/-- What holds of the generation, the data and all that was returned. -/
structure Ledger (identity : Identity crypto) (generation : UInt64) (data : Data)
    (log : List Event) : Prop where
  recorded : Recorded data log
  nodeIDs : NodeIDs identity data
  epochs : Distinct (epochs data) generation
  issued : ∀ permit, Event.issued permit ∈ log →
    ∃ record, data.permits[permit.permitID]? = some record ∧ record.permit = permit
  spent : ∀ permitID grant, Event.redeemed permitID grant ∈ log →
    data.permits[permitID]?.map PermitState.status = some .consumed
  once : (log.filterMap Event.spends).Nodup
  revoked : ∀ permitID, Event.permitRevoked permitID ∈ log →
    data.permits[permitID]?.map PermitState.status = some .revoked

theorem ledger_fresh (identity : Identity crypto) : Ledger identity 1 (freshData identity) [] := by
  refine ⟨fun grant h => (nomatch h), ⟨lookup_insert_self .., fun id record h => ?_,
    fun id id' record record' h => ?_⟩, ⟨fun k e h => ?_, fun k k' e h => ?_⟩,
    fun permit h => (nomatch h), fun permitID grant h => (nomatch h), nodup_nil,
    fun permitID h => (nomatch h)⟩
  · simp [freshData] at h
  · simp [freshData] at h
  · rcases k with id | id <;> simp [Enrollment.epochs, freshData] at h
  · rcases k with id | id <;> simp [Enrollment.epochs, freshData] at h

/-- **A change keeps the ledger.** -/
theorem Ledger.change {answer : Except String Reply} (hkeyed : Keyed a.data)
    (hmax : a.generation ≠ 0xffffffffffffffff) (h : Ledger identity a.generation a.data log)
    (hchange : Change a env call next answer) :
    Ledger identity (a.generation + 1) next (log ++ eventsOf a call answer) := by
  obtain ⟨key, hkey⟩ := epochs_change hkeyed hchange
  refine ⟨h.recorded.change hkeyed hchange, h.nodeIDs.change hchange, h.epochs.next hmax key hkey,
    fun permit hmem => ?_, fun permitID grant hmem => ?_, ?_, fun permitID hmem => ?_⟩
  · rcases mem_append.mp hmem with hold | hnew
    · obtain ⟨record, hrecord, rfl⟩ := h.issued permit hold
      obtain ⟨record', hrecord', hsame, -⟩ := permits_change hkeyed hchange hrecord
      exact ⟨record', hrecord', hsame⟩
    · exact issued_change hkeyed hchange hnew
  · rcases mem_append.mp hmem with hold | hnew
    · exact settled_change hkeyed hchange (by decide) (h.spent permitID grant hold)
    · exact (redeemed_change hkeyed hchange hnew).2
  · rw [filterMap_append]
    refine h.once.append ?_ fun permitID hold hnew => ?_
    · obtain hnone | ⟨permitID, hone⟩ := spends_eventsOf (a := a) call answer
      · rw [hnone]
        exact nodup_nil
      · rw [hone]
        exact nodup_singleton permitID
    · -- a permit that was spent is consumed, and one that is being spent is active
      obtain ⟨grant, hgrant⟩ := mem_spends.mp hold
      obtain ⟨grant', hgrant'⟩ := mem_spends.mp hnew
      have hconsumed := h.spent permitID grant hgrant
      rw [(redeemed_change hkeyed hchange hgrant').1] at hconsumed
      cases hconsumed
  · rcases mem_append.mp hmem with hold | hnew
    · exact settled_change hkeyed hchange (by decide) (h.revoked permitID hold)
    · exact revoked_change hchange hnew

theorem Ledger.answer {answer : Except String Reply} (hkeyed : Keyed a.data)
    (h : Ledger identity a.generation a.data log)
    (hanswer : ∀ reply, answer = .ok reply → Known a.data reply ∧ RevokedBefore a.data call) :
    Ledger identity a.generation a.data (log ++ eventsOf a call answer) := by
  have hknown : ∀ reply, answer = .ok reply → Known a.data reply :=
    fun reply hreply => (hanswer reply hreply).1
  -- an answer spends no permit: its grant is that of a record
  have hunspent : ∀ permitID grant, Event.redeemed permitID grant ∉ eventsOf a call answer := by
    intro permitID grant hmem
    obtain ⟨permit, -, heq⟩ | ⟨_, id, _, -, -, heq⟩ | ⟨reply, _, hreply, hgrant, heq | hspent⟩ :=
      mem_eventsOf hmem
    · cases heq
    · cases heq
    · cases heq
    · obtain ⟨_, _, -, -, hnew, -⟩ := hspent
      obtain ⟨record, hvalue, rfl⟩ := (hknown reply hreply).2 _ hgrant
      obtain ⟨id, hid⟩ := mem_values.mp hvalue
      rw [hkeyed.enrollments id record hid, hid] at hnew
      cases hnew
  refine ⟨h.recorded.answer hkeyed hknown, h.nodeIDs, h.epochs, fun permit hmem => ?_,
    fun permitID grant hmem => ?_, ?_, fun permitID hmem => ?_⟩
  · rcases mem_append.mp hmem with hold | hnew
    · exact h.issued permit hold
    · obtain ⟨permit', hreply, heq⟩ | ⟨_, id, _, -, -, heq⟩ | ⟨_, _, -, -, heq | hspent⟩ :=
        mem_eventsOf hnew
      · cases heq
        obtain ⟨record, hvalue, rfl⟩ := (hknown _ hreply).1 permit rfl
        obtain ⟨id, hid⟩ := mem_values.mp hvalue
        rw [hkeyed.permits id record hid]
        exact ⟨record, hid, rfl⟩
      · cases heq
      · cases heq
      · obtain ⟨_, _, -, -, -, heq⟩ := hspent
        cases heq
  · rcases mem_append.mp hmem with hold | hnew
    · exact h.spent permitID grant hold
    · exact absurd hnew (hunspent permitID grant)
  · have hnone : (eventsOf a call answer).filterMap Event.spends = [] := by
      refine eq_nil_iff_forall_not_mem.mpr fun permitID hmem => ?_
      obtain ⟨grant, hgrant⟩ := mem_spends.mp hmem
      exact hunspent permitID grant hgrant
    rw [filterMap_append, hnone, append_nil]
    exact h.once
  · rcases mem_append.mp hmem with hold | hnew
    · exact h.revoked permitID hold
    · obtain ⟨permit', -, heq⟩ | ⟨_, id, _, hcall, hreply, heq⟩ | ⟨_, _, -, -, heq | hspent⟩ :=
        mem_eventsOf hnew
      · cases heq
      · cases heq
        obtain ⟨record, hrecord, hstatus⟩ : RevokedBefore a.data (.revokePermit _ permitID _) :=
          hcall ▸ (hanswer _ hreply).2
        rw [hrecord, map_some, hstatus]
      · cases heq
      · obtain ⟨_, _, -, -, -, heq⟩ := hspent
        cases heq

theorem kept_ledger (identity : Identity crypto) :
    Kept identity (fun _ _ _ => True) (Ledger identity) where
  fresh := ledger_fresh identity
  change _ _ hkeyed hmax h hchange := h.change hkeyed hmax hchange
  answer hkeyed h hanswer := h.answer hkeyed hanswer

theorem exists_ledger (identity : Identity crypto) (acts : List Act) :
    ∃ generation data, Ledger identity generation data (run identity acts).log := by
  have hacts : Runs.Along (step identity) (Process.Admissible fun _ _ _ => True)
      start acts :=
    Runs.along_of_forall fun act _ p => by cases act <;> simp [Process.Admissible]
  have hstored := stored_run (kept_ledger identity) hacts
  cases hdisk : (run identity acts).disk with
  | none =>
    rw [(hstored.absent hdisk).2]
    exact ⟨1, freshData identity, ledger_fresh identity⟩
  | some state =>
    obtain ⟨generation, data, -, -, hledger, -⟩ := hstored.present state hdisk
    exact ⟨generation, data, hledger⟩

/-- **Node IDs, permits and epochs are never reused**, whatever the run is made of. -/
theorem never_reused (identity : Identity crypto) (acts : List Act) :
    (∀ grant, .granted grant ∈ (run identity acts).log →
      ∃ nodeID : NodeID, grant.nodeID = formatUint nodeID ∧ nodeID ≠ 0 ∧ nodeID.toNat < 2 ^ 63 ∧
        nodeID ≠ identity.nodeID) ∧
    (∀ grant grant', .granted grant ∈ (run identity acts).log →
      .granted grant' ∈ (run identity acts).log →
      grant.enrollmentID ≠ grant'.enrollmentID → grant.nodeID ≠ grant'.nodeID) ∧
    ((run identity acts).log.filterMap Event.spends).Nodup ∧
    (∀ permitID grant, .permitRevoked permitID ∈ (run identity acts).log →
      .redeemed permitID grant ∉ (run identity acts).log) ∧
    (∀ permit permit', .issued permit ∈ (run identity acts).log →
      .issued permit' ∈ (run identity acts).log →
      permit.authorityEpoch = permit'.authorityEpoch → permit = permit') ∧
    (∀ grant grant', .granted grant ∈ (run identity acts).log →
      .granted grant' ∈ (run identity acts).log →
      grant.authorityEpoch = grant'.authorityEpoch → grant = grant') ∧
    (∀ permit grant, .issued permit ∈ (run identity acts).log →
      .granted grant ∈ (run identity acts).log →
      permit.authorityEpoch ≠ grant.authorityEpoch) := by
  obtain ⟨generation, data, h⟩ := exists_ledger identity acts
  -- the epoch of what was returned is that of its record
  have hpermit : ∀ permit, .issued permit ∈ (run identity acts).log →
      epochs data (.inl permit.permitID) = some permit.authorityEpoch := by
    intro permit hmem
    obtain ⟨record, hrecord, rfl⟩ := h.issued permit hmem
    rw [epochs, hrecord]
    rfl
  have hgrant : ∀ grant, .granted grant ∈ (run identity acts).log →
      epochs data (.inr grant.enrollmentID) = some grant.authorityEpoch := by
    intro grant hmem
    obtain ⟨record, hrecord, rfl⟩ := h.recorded grant hmem
    rw [epochs, hrecord]
    rfl
  refine ⟨fun grant hmem => ?_, fun grant grant' hmem hmem' hne heq => ?_, h.once,
    fun permitID grant hrevoked hredeemed => ?_, fun permit permit' hmem hmem' heq => ?_,
    fun grant grant' hmem hmem' heq => ?_, fun permit grant hmem hmem' heq => ?_⟩
  · obtain ⟨record, hrecord, rfl⟩ := h.recorded grant hmem
    obtain ⟨nodeID, htext, hzero, hlt, hown, -⟩ := h.nodeIDs.used _ record hrecord
    exact ⟨nodeID, htext, hzero, hlt, hown⟩
  · obtain ⟨record, hrecord, rfl⟩ := h.recorded grant hmem
    obtain ⟨record', hrecord', rfl⟩ := h.recorded grant' hmem'
    exact hne (h.nodeIDs.eq _ _ record record' hrecord hrecord' heq)
  · have hconsumed := h.spent permitID grant hredeemed
    rw [h.revoked permitID hrevoked] at hconsumed
    cases hconsumed
  · have hid := h.epochs.eq _ _ _ (hpermit permit hmem) (heq ▸ hpermit permit' hmem')
    obtain ⟨record, hrecord, rfl⟩ := h.issued permit hmem
    obtain ⟨record', hrecord', rfl⟩ := h.issued permit' hmem'
    rw [Sum.inl.inj hid, hrecord'] at hrecord
    cases hrecord
    rfl
  · have hid := h.epochs.eq _ _ _ (hgrant grant hmem) (heq ▸ hgrant grant' hmem')
    obtain ⟨record, hrecord, rfl⟩ := h.recorded grant hmem
    obtain ⟨record', hrecord', rfl⟩ := h.recorded grant' hmem'
    rw [Sum.inr.inj hid, hrecord'] at hrecord
    cases hrecord
    rfl
  · cases h.epochs.eq _ _ _ (hpermit permit hmem) (heq ▸ hgrant grant hmem')

end Enrollment
