/-
Memory and disk after a commit that fails.

The policy state, the admission permits, the trust store and the enrollment authority
commit the same way: save the record of the next state, and adopt it if `Save` returns
no error.  The types of the records they hold are parameters here, for a commit only
moves them.

* `inSync_commit_iff` — when memory and disk still agree after such a commit;
* `failed_save_iff` — the saves, and the commits of all four components.
-/
import MyFlowHub.FailedSave
import MyFlowHub.Envelope
import MyFlowHub.EnrollmentAuthority

open Std Keystore

/-! ### The components -/

namespace Auth

/-- `protocol.MaxCollectionRevision`. -/
def maxCollectionRevision : UInt64 := 9007199254740991

section Policy

variable {Definition Binding : Type}

/-- `policyState`, the record on disk. -/
structure PolicyRecord (Definition Binding : Type) where
  version : ℤ
  generation : UInt64
  grants : List Request
  definitions : List Definition
  bindings : List Binding

/-- `PolicyState`; the grants in an order Go may range over them. -/
structure PolicyState (Definition Binding : Type) where
  generation : UInt64
  grants : List Request
  definitions : ExtTreeMap String Definition compare
  bindings : ExtTreeMap String Binding compare
  closed : Bool

def policyStateVersion : ℤ := 2

/-- The order of `requestsFromGrants`, which does not look at the capability. -/
def requestLess (l r : Request) : Bool :=
  if l.subject ≠ r.subject then l.subject < r.subject
  else if l.action ≠ r.action then l.action < r.action
  else if l.resource.owner ≠ r.resource.owner then l.resource.owner < r.resource.owner
  else l.resource.name < r.resource.name

def requestsFromGrants (grants : List Request) : List Request :=
  grants.mergeSort fun l r => !requestLess r l

def PolicyState.record (grants : List Request) (definitions : ExtTreeMap String Definition compare)
    (bindings : ExtTreeMap String Binding compare) (generation : UInt64) :
    PolicyRecord Definition Binding where
  version := policyStateVersion
  generation := generation
  grants := requestsFromGrants grants
  definitions := Tables.values definitions
  bindings := Tables.values bindings

def PolicyState.refusal (p : PolicyState Definition Binding) : Option String :=
  if p.closed then some "policy state is closed"
  else if maxCollectionRevision ≤ p.generation then some "policy generation exhausted"
  else none

variable {D : Type}

def PolicyState.commitLocked (p : PolicyState Definition Binding)
    (save : Commit.Saver (PolicyRecord Definition Binding) D) (grants : List Request)
    (definitions : ExtTreeMap String Definition compare)
    (bindings : ExtTreeMap String Binding compare) (d : D) :
    Option String × PolicyState Definition Binding × D :=
  Commit.commit save p.refusal "persist policy state"
    (PolicyState.record grants definitions bindings (p.generation + 1)) p
    { p with
      generation := p.generation + 1, grants := grants, definitions := definitions,
      bindings := bindings } d

def PolicyState.Describes (r : PolicyRecord Definition Binding)
    (p : PolicyState Definition Binding) : Prop :=
  r.generation = p.generation ∧ r.grants.Perm p.grants ∧
    r.definitions = Tables.values p.definitions ∧ r.bindings = Tables.values p.bindings

end Policy

def stateVersion : ℤ := 1

section Admission

variable {Record D : Type}

/-- `admissionState`. -/
structure AdmissionRecord (Record : Type) where
  version : ℤ
  generation : UInt64
  records : List Record

/-- `Admission`. -/
structure Admission (Record : Type) where
  generation : UInt64
  records : ExtTreeMap String Record compare

def Admission.record (records : ExtTreeMap String Record compare) (generation : UInt64) :
    AdmissionRecord Record :=
  ⟨stateVersion, generation, Tables.values records⟩

def Admission.refusal (a : Admission Record) : Option String :=
  if a.generation = 0xffffffffffffffff then some "admission generation exhausted" else none

def Admission.commitLocked (a : Admission Record) (save : Commit.Saver (AdmissionRecord Record) D)
    (records : ExtTreeMap String Record compare) (d : D) : Option String × Admission Record × D :=
  Commit.commit save a.refusal "persist admission state"
    (Admission.record records (a.generation + 1)) a ⟨a.generation + 1, records⟩ d

def Admission.Describes (r : AdmissionRecord Record) (a : Admission Record) : Prop :=
  r = Admission.record a.records a.generation

end Admission

section Trust

variable {D : Type}

abbrev Keys := ExtTreeMap NodeID Bytes compare

/-- `trustRecord`. -/
structure TrustRecord where
  nodeID : NodeID
  publicKey : Bytes
  deriving DecidableEq

/-- `trustState`. -/
structure TrustState where
  version : ℤ
  generation : UInt64
  records : List TrustRecord
  deriving DecidableEq

/-- `TrustStore`, as `LoadTrustStore` returns it. -/
structure TrustStore where
  generation : UInt64
  keys : Keys

def recordsFromKeys (keys : Keys) :
    List TrustRecord := keys.toList.map fun entry => ⟨entry.1, entry.2⟩

def TrustStore.record (keys : Keys) (generation : UInt64) : TrustState :=
  ⟨stateVersion, generation, recordsFromKeys keys⟩

def TrustStore.refusal (s : TrustStore) : Option String :=
  if s.generation = 0xffffffffffffffff then some "trust generation exhausted" else none

/-- The end of `Add` and `Revoke`, which may return before they have anything to save. -/
def TrustStore.finish (s : TrustStore) (save : Commit.Saver TrustState D) (label : String)
    (prepared : Except (Option String) Keys) (d : D) : Option String × TrustStore × D :=
  match prepared with
  | .error result => (result, s, d)
  | .ok keys =>
    Commit.commit save s.refusal label (TrustStore.record keys (s.generation + 1)) s
      ⟨s.generation + 1, keys⟩ d

/-- The keys `Add` is about to commit, or what it returns at once. -/
def TrustStore.addKeys (s : TrustStore) (nodeID : NodeID) (publicKey : Bytes) :
    Except (Option String) Keys :=
  if nodeID = 0 then .error (some "invalid envelope: node ID must be non-zero")
  else if publicKey.length ≠ 32 then .error (some "trust store requires an Ed25519 public key")
  else
    match s.keys[nodeID]? with
    | some current =>
      if current ≠ publicKey then
        .error (some ("identity " ++ toString nodeID.toNat ++ " already has a different key"))
      else .error none
    | none => .ok (s.keys.insert nodeID publicKey)

def TrustStore.add (s : TrustStore) (save : Commit.Saver TrustState D) (nodeID : NodeID)
    (publicKey : Bytes) (d : D) : Option String × TrustStore × D :=
  s.finish save "persist trusted identity" (s.addKeys nodeID publicKey) d

/-- The keys `Revoke` is about to commit. -/
def TrustStore.revokeKeys (s : TrustStore) (nodeID : NodeID) : Except (Option String) Keys :=
  if nodeID = 0 then .error (some "invalid envelope: node ID must be non-zero")
  else if s.keys.contains nodeID = false then .error (some "untrusted identity")
  else .ok (s.keys.erase nodeID)

def TrustStore.revoke (s : TrustStore) (save : Commit.Saver TrustState D) (nodeID : NodeID)
    (d : D) : Option String × TrustStore × D :=
  s.finish save "persist trust revocation" (s.revokeKeys nodeID) d

def TrustStore.Describes (r : TrustState) (s : TrustStore) : Prop :=
  r = TrustStore.record s.keys s.generation

end Trust

end Auth

/-- The record says what the authority holds in memory. -/
def Enrollment.Authority.Describes {crypto : Enrollment.Crypto} (r : Enrollment.State)
    (a : Enrollment.Authority crypto) : Prop :=
  r = a.stateOf a.data a.generation

/-! ### Memory and disk -/

namespace Keystore

variable {R S : Type}

/-- A load finds a record of the state in memory. -/
def InSync (codec : Codec R) (name : String) (Describes : R → S → Prop) (s : S) (fs : FS) : Prop :=
  ∃ r, load codec name fs = .ok (some r) ∧ Describes r s

/-- `Store.Save` on the directory. -/
def saver (codec : Codec R) (faults : Faults) (name suffix : String) : Commit.Saver R FS :=
  runSave codec faults name suffix

/-- A commit that fails leaves memory and disk in agreement exactly when it was refused
or the faults are contained, provided the new record does not describe the old state. -/
theorem inSync_commit_iff {codec : Codec R} {faults : Faults} {name suffix label : String}
    {refusal : Option String} {record : R} {state next : S} {fs : FS} {Describes : R → S → Prop}
    (hfresh : fs (".mfh-state-" ++ suffix) = none) (hsync : InSync codec name Describes state fs)
    (hnew : ¬Describes record state) :
    let result := Commit.commit (saver codec faults name suffix) refusal label record state next fs
    (result.1 ≠ none → InSync codec name Describes result.2.1 result.2.2) ↔
      refusal ≠ none ∨ Contained codec faults name record fs := by
  intro result
  cases hrefusal : refusal with
  | some text =>
    have hresult : result = (some text, state, fs) := by simp [result, Commit.commit, hrefusal]
    rw [hresult]
    exact iff_of_true (fun _ => hsync) (Or.inl (by simp))
  | none =>
    have hiff := load_runSave_iff codec faults name record hfresh
    have hcases := load_runSave_cases codec faults name record hfresh
    simp only [ne_eq, not_true_eq_false, false_or]
    rw [← hiff]
    rcases hrun : runSave codec faults name suffix record fs with ⟨_ | text, fs'⟩
    · have hresult : result = (none, next, fs') := by
        simp [result, Commit.commit, hrefusal, saver, hrun]
      rw [hresult]
      simp
    · have hresult : result = (some (label ++ ": " ++ text), state, fs') := by
        simp [result, Commit.commit, hrefusal, saver, hrun]
      rw [hrun] at hcases
      rw [hresult]
      simp only [reduceCtorEq, not_false_eq_true, forall_const]
      constructor
      · -- what the load finds is the old record: nothing or the new one would not do
        rintro ⟨r, hload, hr⟩
        rcases hcases with hsame | hnone | hrecord
        · exact fun _ => hsame
        · rw [hnone] at hload
          cases hload
        · rw [hrecord] at hload
          cases hload
          exact absurd hr hnew
      · intro hsame
        obtain ⟨r, hload, hr⟩ := hsync
        exact ⟨r, (hsame (by simp)).trans hload, hr⟩

end Keystore

namespace Auth

theorem inSync_finish_iff {codec : Codec TrustState} {faults : Faults} {suffix label : String}
    {s : TrustStore} {fs : FS} (hfresh : fs (".mfh-state-" ++ suffix) = none)
    (hsync : InSync codec "trust.json" TrustStore.Describes s fs)
    (prepared : Except (Option String) Keys) :
    let result := s.finish (saver codec faults "trust.json" suffix) label prepared fs
    (result.1 ≠ none → InSync codec "trust.json" TrustStore.Describes result.2.1 result.2.2) ↔
      ∀ keys, prepared = .ok keys → s.refusal ≠ none ∨
        Contained codec faults "trust.json" (TrustStore.record keys (s.generation + 1)) fs := by
  -- a trust store that returns before it has anything to save leaves both alone
  cases prepared with
  | error result => exact iff_of_true (fun _ => hsync) (fun keys h => by cases h)
  | ok keys =>
    have hnew : ¬TrustStore.Describes (TrustStore.record keys (s.generation + 1)) s :=
      fun h => Counter.add_one_ne s.generation (congrArg TrustState.generation h)
    refine (inSync_commit_iff hfresh hsync hnew).trans
      ⟨fun h keys' hkeys' => ?_, fun h => h keys rfl⟩
    cases hkeys'
    exact h

variable {Definition Binding Record : Type}

/-- **Failed saves and failed commits.**  For every choice of failing calls: a save that
returns an error leaves what a load reports exactly when the faults are contained; and
for each component that agrees with its file, a commit that returns an error leaves the
two in agreement exactly when it was refused before saving or the faults are contained. -/
theorem failed_save_iff (faults : Faults) {suffix : String} {fs : FS}
    (hfresh : fs (".mfh-state-" ++ suffix) = none) :
    (∀ (R : Type) (codec : Codec R) (name : String) (value : R),
      ((runSave codec faults name suffix value fs).1 ≠ none →
        load codec name (runSave codec faults name suffix value fs).2 = load codec name fs) ↔
      Contained codec faults name value fs) ∧
    (∀ (codec : Codec (PolicyRecord Definition Binding)) (p : PolicyState Definition Binding)
        (grants : List Request) (definitions : ExtTreeMap String Definition compare)
        (bindings : ExtTreeMap String Binding compare),
      InSync codec "policy.json" PolicyState.Describes p fs →
      let result := p.commitLocked (saver codec faults "policy.json" suffix) grants definitions
        bindings fs
      (result.1 ≠ none → InSync codec "policy.json" PolicyState.Describes result.2.1 result.2.2) ↔
        p.refusal ≠ none ∨ Contained codec faults "policy.json"
          (PolicyState.record grants definitions bindings (p.generation + 1)) fs) ∧
    (∀ (codec : Codec (AdmissionRecord Record)) (a : Admission Record)
        (records : ExtTreeMap String Record compare),
      InSync codec "admission.json" Admission.Describes a fs →
      let result := a.commitLocked (saver codec faults "admission.json" suffix) records fs
      (result.1 ≠ none → InSync codec "admission.json" Admission.Describes result.2.1 result.2.2) ↔
        a.refusal ≠ none ∨ Contained codec faults "admission.json"
          (Admission.record records (a.generation + 1)) fs) ∧
    (∀ (codec : Codec TrustState) (s : TrustStore) (nodeID : NodeID) (publicKey : Bytes),
      InSync codec "trust.json" TrustStore.Describes s fs →
      let added := s.add (saver codec faults "trust.json" suffix) nodeID publicKey fs
      let revoked := s.revoke (saver codec faults "trust.json" suffix) nodeID fs
      ((added.1 ≠ none → InSync codec "trust.json" TrustStore.Describes added.2.1 added.2.2) ↔
        ∀ keys, s.addKeys nodeID publicKey = .ok keys → s.refusal ≠ none ∨
          Contained codec faults "trust.json" (TrustStore.record keys (s.generation + 1)) fs) ∧
      ((revoked.1 ≠ none → InSync codec "trust.json" TrustStore.Describes revoked.2.1 revoked.2.2) ↔
        ∀ keys, s.revokeKeys nodeID = .ok keys → s.refusal ≠ none ∨
          Contained codec faults "trust.json" (TrustStore.record keys (s.generation + 1)) fs)) ∧
    (∀ (crypto : Enrollment.Crypto) (codec : Codec Enrollment.State)
        (a : Enrollment.Authority crypto) (next : Enrollment.Data),
      InSync codec "enrollment-authority.json" Enrollment.Authority.Describes a fs →
      let result := a.commitLocked (saver codec faults "enrollment-authority.json" suffix) next fs
      (result.1 ≠ none → InSync codec "enrollment-authority.json" Enrollment.Authority.Describes
          result.2.1 result.2.2) ↔
        a.refusal ≠ none ∨ Contained codec faults "enrollment-authority.json"
          (a.stateOf next (a.generation + 1)) fs) := by
  refine ⟨fun R codec name value => load_runSave_iff codec faults name value hfresh, ?_, ?_, ?_, ?_⟩
  · intro codec p grants definitions bindings hsync
    refine inSync_commit_iff hfresh hsync fun h => ?_
    exact Counter.add_one_ne p.generation h.1
  · intro codec a records hsync
    refine inSync_commit_iff hfresh hsync fun h => ?_
    exact Counter.add_one_ne a.generation (congrArg AdmissionRecord.generation h)
  · intro codec s nodeID publicKey hsync
    exact ⟨inSync_finish_iff hfresh hsync (s.addKeys nodeID publicKey),
      inSync_finish_iff hfresh hsync (s.revokeKeys nodeID)⟩
  · intro crypto codec a next hsync
    refine inSync_commit_iff hfresh hsync fun h => ?_
    exact Counter.add_one_ne a.generation (congrArg Enrollment.State.generation h)

def failing (calls : List Call) :
    Faults := fun call => if call ∈ calls then some "input/output error" else none

theorem load_after_write_fault :
    load verbatim "trust.json"
        (runSave verbatim (failing [.write]) "trust.json" "1" [2]
          (holding "trust.json" [1, 10])).2 =
      .ok (some [1]) := by
  have h := (@failed_save_iff Unit Unit Unit (failing [.write]) "1" (holding "trust.json" [1, 10])
    (by decide)).1 Bytes verbatim "trust.json" [2]
  exact (h.mpr (Or.inr (Or.inr (Or.inl (Or.inr (Or.inr (Or.inl (by decide)))))))) (by decide)

def codecOf {R : Type} [DecidableEq R] (first second : R) : Codec R where
  encode r := if r = first then .ok [1] else if r = second then .ok [2] else .error "unknown"
  decode data :=
    if data = [1, 10] then .ok first else if data = [2, 10] then .ok second else .error "unknown"
  decode_encode r data h := by
    split at h
    · cases h
      simp [*]
    · split at h
      · cases h
        simp [*]
      · cases h

def untrusting : TrustStore := ⟨1, ∅⟩

def trusting : TrustStore := ⟨2, (∅ : Keys).insert 7 (List.replicate 32 1)⟩

def trustCodec : Codec TrustState :=
  codecOf (TrustStore.record untrusting.keys 1) (TrustStore.record trusting.keys 2)

/-- The trust store after `Add` of a device, when protecting the new file fails. -/
def addUnprotected : Option String × TrustStore × FS :=
  untrusting.add (saver trustCodec (failing [.protect]) "trust.json" "1") 7 (List.replicate 32 1)
    (holding "trust.json" [1, 10])

/-- Saves that return an error and change what a load reports: protecting the activated
file fails; moving the backup back fails.  In the first case a trust store goes on
without the device its file trusts. -/
theorem failed_save_diverges :
    let fs := holding "trust.json" [1, 10]
    let unprotected := runSave verbatim (failing [.protect]) "trust.json" "1" [2] fs
    let unrestored := runSave verbatim (failing [.activate, .restore]) "trust.json" "1" [2] fs
    load verbatim "trust.json" fs = .ok (some [1]) ∧
    (unprotected.1 = some "protect state file: input/output error" ∧
      load verbatim "trust.json" unprotected.2 = .ok (some [2])) ∧
    (unrestored.1 = some "activate new state: input/output error" ∧
      load verbatim "trust.json" unrestored.2 = .ok none) ∧
    (addUnprotected.1 ≠ none ∧ addUnprotected.2.1 = untrusting ∧
      load trustCodec "trust.json" addUnprotected.2.2 =
        .ok (some (TrustStore.record trusting.keys 2))) := by
  refine ⟨rfl, ⟨rfl, rfl⟩, ⟨rfl, rfl⟩, by decide, rfl, rfl⟩

end Auth
