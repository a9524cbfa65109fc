/-
Policy commits are all or nothing, and survive a reload unless the generation is used
up.

A load prunes the bindings that have expired and counts that as one more generation.
At the last generation there is no next one, so a record with an expired binding is
then refused, though the commit that wrote it was accepted.

* `reload_eq` — what a load makes of the record on disk;
* **`commit_all_or_nothing`** — failed, idempotent and successful calls, and reloads;
* `exhausted_reload` — a commit whose record is refused at the next start.
-/
import MyFlowHub.PolicyDecision

open Checks
open Std Tables List

namespace Auth

open PolicyProcess

variable {os : Text}

/-! ### Reading the bindings again -/

theorem addBindings_eq (now : ℤ) {definitions : Definitions} {items : List PolicyBindingV1}
    (hvalid : ∀ b ∈ items, b.validate os = .ok () ∧ definitions.contains b.definitionID = true)
    (hnodup : (items.map PolicyBindingV1.bindingID).Nodup) (bindings : Bindings) (pruned : Bool)
    (hfree : ∀ b ∈ items, bindings[b.bindingID]? = none) :
    items.foldlM (addBinding os now definitions) (bindings, pruned) =
      .ok (insertAll bindings ((items.filter fun b => !b.expired now).map fun b =>
        (b.bindingID, b)),
        pruned || items.any fun b => b.expired now) := by
  induction items generalizing bindings pruned with
  | nil => simp [insertAll, pure, Except.pure]
  | cons b items ih =>
    rw [map_cons, nodup_cons] at hnodup
    obtain ⟨hb, hdefinition⟩ := hvalid b mem_cons_self
    have hadd : addBinding os now definitions (bindings, pruned) b =
        if b.expired now then .ok (bindings, true)
        else .ok (bindings.insert b.bindingID b, pruned) := by
      have hnew := contains_eq_false_iff.mpr (hfree b mem_cons_self)
      simp [addBinding, within, hb, hdefinition, hnew, require, Except.mapError, bind, Except.bind,
        pure, Except.pure]
    rw [foldlM_cons, hadd]
    cases hexpired : b.expired now with
    | true =>
      have hrest := ih (fun c hc => hvalid c (mem_cons_of_mem b hc)) hnodup.2 bindings true
        fun c hc => hfree c (mem_cons_of_mem b hc)
      simpa [hexpired, bind, Except.bind] using hrest
    | false =>
      have hrest := ih (fun c hc => hvalid c (mem_cons_of_mem b hc)) hnodup.2
        (bindings.insert b.bindingID b) pruned fun c hc => by
          have hne : c.bindingID ≠ b.bindingID := fun heq =>
            hnodup.1 (mem_map.mpr ⟨c, hc, heq⟩)
          rw [lookup_insert_of_ne _ _ hne]
          exact hfree c (mem_cons_of_mem b hc)
      simpa [hexpired, bind, Except.bind, insertAll] using hrest

variable {p : PolicyStore} {r : Record}

theorem Backs.mem_bindings (h : Backs os r p) {id : String} {b : PolicyBindingV1} :
    p.bindings[id]? = some b ↔ b ∈ r.bindings ∧ b.bindingID = id := by
  have hnodup : ((r.bindings.map fun b => (b.bindingID, b)).map Prod.fst).Nodup := by
    rw [map_map]
    exact h.nodup
  have hlookup : ∀ c ∈ r.bindings, p.bindings[c.bindingID]? = some c := by
    intro c hc
    rw [← h.bindings]
    exact lookup_insertAll_of_mem ∅ hnodup (mem_map.mpr ⟨c, hc, rfl⟩)
  constructor
  · intro hb
    by_cases hmem : id ∈ (r.bindings.map fun b => (b.bindingID, b)).map Prod.fst
    · rw [map_map] at hmem
      obtain ⟨c, hc, hid⟩ := mem_map.mp hmem
      change c.bindingID = id at hid
      rw [← hid, hlookup c hc] at hb
      cases hb
      exact ⟨hc, hid⟩
    · rw [← h.bindings, lookup_insertAll_of_notMem _ hmem] at hb
      simp at hb
  · rintro ⟨hb, rfl⟩
    exact hlookup b hb

theorem Backs.unexpired (h : Backs os r p) (now : ℤ) :
    insertAll ∅ ((r.bindings.filter fun b => !b.expired now).map fun b => (b.bindingID, b)) =
      p.bindings.filter fun _ b => !b.expired now := by
  have hnodup : (((r.bindings.filter fun b => !b.expired now).map fun b =>
      (b.bindingID, b)).map Prod.fst).Nodup := by
    rw [map_map]
    exact h.nodup.sublist ((filter_sublist).map _)
  refine ExtTreeMap.ext_getElem? fun id => ?_
  cases hb : (p.bindings.filter fun _ b => !b.expired now)[id]? with
  | some b =>
    obtain ⟨hfound, hunexpired⟩ := lookup_filter.mp hb
    obtain ⟨hmem, rfl⟩ := h.mem_bindings.mp hfound
    refine lookup_insertAll_of_mem ∅ hnodup (mem_map.mpr ⟨b, ?_, rfl⟩)
    exact mem_filter.mpr ⟨hmem, hunexpired⟩
  | none =>
    rw [lookup_insertAll_of_notMem]
    · simp
    · intro hmem
      rw [map_map] at hmem
      obtain ⟨b, hfilter, hid⟩ := mem_map.mp hmem
      obtain ⟨hmem, hunexpired⟩ := mem_filter.mp hfilter
      have hfound : (p.bindings.filter fun _ b => !b.expired now)[id]? = some b :=
        lookup_filter.mpr ⟨h.mem_bindings.mpr ⟨hmem, hid⟩, hunexpired⟩
      rw [hb] at hfound
      cases hfound

/-! ### Loading again -/

def PolicyStore.stale (p : PolicyStore) (now : ℤ) : Prop :=
  ∃ (id : String) (b : PolicyBindingV1), p.bindings[id]? = some b ∧ b.expired now = true

theorem readRecord_eq (hp : p.Sound os) (h : Backs os r p) (now : ℤ) :
    ∃ grants : List Request, grants.Perm p.grants ∧
      readRecord os r false now =
        if (r.bindings.any fun b => b.expired now) = true ∧ maxCollectionRevision ≤
          p.generation then
          .error "load policy state: generation exhausted while pruning expired bindings"
        else
          .ok (⟨⟨if (r.bindings.any fun b => b.expired now) then p.generation + 1 else p.generation,
            grants, p.definitions, p.bindings.filter fun _ b => !b.expired now, false⟩,
            rebuildBindingIndex (p.bindings.filter fun _ b => !b.expired now), 0, []⟩,
            r.bindings.any fun b => b.expired now) := by
  obtain ⟨grants, hgrants, hperm⟩ := h.grants
  refine ⟨grants, hperm, ?_⟩
  have hbindings := addBindings_eq now h.valid h.nodup ∅ false fun b _ => by simp
  rw [h.unexpired now, Bool.false_or] at hbindings
  have hsuperadmin : (p.definitions[builtinPolicySuperadmin]?.any fun d =>
      sameDefinition d builtinSuperadminDefinition) = true := hp.tables.superadmin
  generalize (r.bindings.any fun b => b.expired now) = pruned at hbindings ⊢
  simp only [readRecord, hgrants, h.definitions, hbindings, h.generation, require, hsuperadmin,
    if_true, bind, Except.bind, pure, Except.pure, Bool.false_or]
  by_cases hexhausted : pruned = true ∧ maxCollectionRevision ≤ p.generation
  · simp [hexhausted]
  · simp [hexhausted]

theorem Backs.stale_iff (h : Backs os r p) {now : ℤ} :
    (r.bindings.any fun b => b.expired now) = true ↔ p.stale now := by
  rw [any_eq_true]
  constructor
  · rintro ⟨b, hb, hexpired⟩
    exact ⟨b.bindingID, b, h.mem_bindings.mpr ⟨hb, rfl⟩, hexpired⟩
  · rintro ⟨id, b, hb, hexpired⟩
    exact ⟨b, (h.mem_bindings.mp hb).1, hexpired⟩

/-- **What a load makes of the record on disk.** -/
theorem reload_eq (hp : p.Sound os) (h : Backs os r p) (now : ℤ) (d : Option Record) :
    (p.stale now ∧ maxCollectionRevision ≤ p.generation →
      (loadPolicyState os (Commit.slot none) now (some r) d).1 =
        .error "load policy state: generation exhausted while pruning expired bindings") ∧
    (¬(p.stale now ∧ maxCollectionRevision ≤ p.generation) →
      ∃ q, (loadPolicyState os (Commit.slot none) now (some r) d).1 = .ok q ∧
        q.grants.Perm p.grants ∧ q.definitions = p.definitions ∧
        q.bindings = p.bindings.filter fun _ b => !b.expired now) := by
  obtain ⟨grants, hperm, hread⟩ := readRecord_eq hp h now
  have hmigrate : migrate r = .ok (r, false) := by
    have hlegacy : ¬(policyStateVersion = legacyPolicyStateVersion) := by decide
    simp [migrate, h.version, hlegacy]
  have hheader := checkHeader_eq_ok.mpr h.fits
  have hloaded : (loadPolicyState os (Commit.slot none) now (some r) d).1 =
      (readRecord os r false now).map Prod.fst := by
    rcases hq : readRecord os r false now with text | ⟨q, _ | _⟩ <;>
      simp only [loadPolicyState, Option.getD_some, hheader, recordToRead, hmigrate, bind,
        Except.bind, Commit.slot, hq, Except.map]
  refine ⟨fun hexhausted => ?_, fun hroom => ?_⟩
  · rw [hloaded, hread, if_pos ⟨h.stale_iff.mpr hexhausted.1, hexhausted.2⟩]
    rfl
  · rw [hloaded, hread, if_neg fun hpruned => hroom ⟨h.stale_iff.mp hpruned.1, hpruned.2⟩]
    exact ⟨_, rfl, hperm, rfl, rfl⟩

/-! ### All or nothing -/

variable (os) in
/-- The calls that find their work done: an existing grant, an absent grant or binding,
and a binding created again as it is. -/
inductive Idempotent (p : PolicyStore) : PolicyCall → Prop where
  | grant (request grant : Request) (hnormal : normalizeRequest os request = .ok grant)
      (hgrant : grant ∈ p.grants) : Idempotent p (.grant request)
  | revoke (request grant : Request) (hnormal : normalizeRequest os request = .ok grant)
      (habsent : grant ∉ p.grants) : Idempotent p (.revoke request)
  | revokeBinding (id : String) (habsent : p.bindings[id]? = none) :
      Idempotent p (.revokeBinding id)
  | createBinding (request : PolicyBindingCreateV1) (actor : NodeID) (existing : PolicyBindingV1)
      (hfound : p.bindings[request.bindingID]? = some existing)
      (hsame : PolicyStore.bindingMatchesCreate existing request = true) :
      Idempotent p (.createBinding request actor)

theorem Idempotent.next_eq_none {env : PolicyEnv} {call : PolicyCall} (h : Idempotent os p call)
    {next : Option PolicyTables} {reply : PolicyReply}
    (hplan : p.plan os env call = .ok ⟨next, reply⟩) : next = none := by
  cases h with
  | grant request grant hnormal hgrant =>
    simp only [PolicyStore.plan, PolicyStore.grant, bind_eq_ok] at hplan
    obtain ⟨normal, hrequest, hplan⟩ := hplan
    obtain rfl : grant = normal := Except.ok.inj (hnormal.symm.trans hrequest)
    rw [if_pos hgrant] at hplan
    cases hplan
    rfl
  | revoke request grant hnormal habsent =>
    simp only [PolicyStore.plan, PolicyStore.revoke, bind_eq_ok] at hplan
    obtain ⟨normal, hrequest, hplan⟩ := hplan
    obtain rfl : grant = normal := Except.ok.inj (hnormal.symm.trans hrequest)
    rw [if_pos habsent] at hplan
    cases hplan
    rfl
  | revokeBinding id habsent =>
    simp only [PolicyStore.plan, PolicyStore.revokeBinding, bind_eq_ok] at hplan
    obtain ⟨u, -, hplan⟩ := hplan
    rw [if_pos (contains_eq_false_iff.mpr habsent)] at hplan
    cases hplan
    rfl
  | createBinding request actor existing hfound hsame =>
    simp only [PolicyStore.plan, PolicyStore.createBinding, bind_eq_ok, hfound] at hplan
    obtain ⟨u₁, -, u₂, -, u₃, -, u₄, -, hplan⟩ := hplan
    cases hplan
    rfl

/-- **Policy commits are all or nothing**, and the record on disk gives the state back,
except that the last generation leaves no room to prune. -/
theorem commit_all_or_nothing (os : Text) (disk : Option Record) (acts : List PolicyAct)
    (p : PolicyStore) (hp : (run os disk acts).running = some p) :
    (∀ (env : PolicyEnv) (call : PolicyCall) (fault : Option String),
      let saved := (run os disk acts).disk
      let (answer, committed) := p.perform os (Commit.slot fault) env call saved
      (∀ text, answer = .error text →
        committed.store = p ∧ committed.device = saved ∧ committed.told = []) ∧
      (committed.store ≠ p → committed.store.generation.toNat = p.generation.toNat + 1 ∧
        committed.told = p.watchers.map fun watcher => (watcher, committed.store.generation)) ∧
      (Idempotent os p call →
        committed.store = p ∧ committed.device = saved ∧ committed.told = [])) ∧
    ∃ r, (run os disk acts).disk = some r ∧
      ∀ (now : ℤ) (d : Option Record),
        (p.stale now ∧ maxCollectionRevision ≤ p.generation →
          (loadPolicyState os (Commit.slot none) now (some r) d).1 =
            .error "load policy state: generation exhausted while pruning expired bindings") ∧
        (¬(p.stale now ∧ maxCollectionRevision ≤ p.generation) →
          ∃ q, (loadPolicyState os (Commit.slot none) now (some r) d).1 = .ok q ∧
            q.grants.Perm p.grants ∧ q.definitions = p.definitions ∧
            q.bindings = p.bindings.filter fun _ b => !b.expired now) := by
  obtain ⟨hsound, r, hdisk, hbacks⟩ := stored_run disk acts p hp
  refine ⟨fun env call fault => ?_, r, hdisk, reload_eq hsound hbacks⟩
  obtain ⟨text, hperform⟩ | ⟨reply, -, hperform⟩ | ⟨next, reply, hplan, hlt, hperform⟩ :=
    perform_cases os p env call fault (run os disk acts).disk
  · simp [hperform]
  · simp [hperform]
  · simp only [hperform]
    refine ⟨fun _ hanswer => (nomatch hanswer), fun _ => ⟨(generation_succ hlt).1, rfl⟩,
      fun h => ?_⟩
    cases h.next_eq_none hplan

theorem commit_all_or_nothing_appointment :
    ∃ p, (run plainText none appointment).running = some p ∧
      ∀ text env call fault,
        (p.perform plainText (Commit.slot fault) env call
          (run plainText none appointment).disk).1 = .error text →
        (p.perform plainText (Commit.slot fault) env call
          (run plainText none appointment).disk).2.store = p := by
  obtain ⟨p, hp⟩ : ∃ p, (run plainText none appointment).running = some p :=
    Option.isSome_iff_exists.mp (by decide +kernel)
  refine ⟨p, hp, fun text env call fault hanswer => ?_⟩
  exact (((commit_all_or_nothing plainText none appointment p hp).1 env call fault).1
    text hanswer).1

/-- A record one generation before the last, and a binding until time 5000 made at time 2000. -/
def lastAppointment : List PolicyAct :=
  [.restart 1000 none, .call ⟨2000, .asIs⟩ (.createBinding
     ⟨1, "0123456789abcdef0123456789abcdef", "41", "superadmin", ⟨.authorityDomain, "1"⟩, 5000⟩ 1)
     none]

/-- The binding takes the last generation, and a start after it expires is refused. -/
theorem exhausted_reload :
    let m := run plainText
      (some { freshRecord with generation := maxCollectionRevision - 1 }) lastAppointment
    (m.running.map fun p => (p.generation, p.bindings.size)) = some (maxCollectionRevision, 1) ∧
    (m.disk.map fun r =>
      (loadPolicyState plainText (Commit.slot none) 6000 (some r) m.disk).1.toOption.isNone) =
        some true := by
  decide +kernel

end Auth
