/-
The policy state as a process: calls, watchers, saves that fail, and restarts.

The process starts with whatever is on disk.  A state in memory is always backed by
the record on disk: reading the record gives the same grants and definitions, and its
bindings are those in memory.

* `Backs` — what the record on disk has to do with the state in memory;
* `backs_snapshot`, `backs_readRecord` — records that were saved or read back a state;
* `PolicyProcess.stored_run` — every state reached is sound and backed.
-/
import MyFlowHub.PolicyInvariant

open Checks
open Std Tables List

namespace Auth

variable {os : Text}

/-! ### Records and states -/

variable (os) in
structure Backs (r : Record) (p : PolicyStore) : Prop where
  version : r.version = policyStateVersion
  generation : r.generation = p.generation
  fits : r.Fits
  grants : ∃ grants, r.grants.foldlM (addGrant os) [] = .ok grants ∧ grants.Perm p.grants
  definitions : r.definitions.foldlM (addDefinition os) ∅ = .ok p.definitions
  valid : ∀ b ∈ r.bindings, b.validate os = .ok () ∧
    p.definitions.contains b.definitionID = true
  nodup : (r.bindings.map PolicyBindingV1.bindingID).Nodup
  bindings : insertAll ∅ (r.bindings.map fun b => (b.bindingID, b)) = p.bindings

theorem PolicyStore.Sound.of_eq {p q : PolicyStore} (h : p.Sound os) (htables : q.tables = p.tables)
    (hindex : q.bySubject = p.bySubject) (hgeneration : q.generation = p.generation) :
    q.Sound os := by
  have hbindings : q.bindings = p.bindings := congrArg PolicyTables.bindings htables
  exact ⟨htables ▸ h.tables, by rw [hindex, hbindings, h.index], hgeneration ▸ h.positive,
    hgeneration ▸ h.generation_le⟩

theorem Backs.of_eq {r : Record} {p q : PolicyStore} (h : Backs os r p)
    (htables : q.tables = p.tables) (hgeneration : q.generation = p.generation) : Backs os r q := by
  have hgrants : q.grants = p.grants := congrArg PolicyTables.grants htables
  have hdefinitions : q.definitions = p.definitions := congrArg PolicyTables.definitions htables
  have hbindings : q.bindings = p.bindings := congrArg PolicyTables.bindings htables
  exact ⟨h.version, hgeneration ▸ h.generation, h.fits, hgrants ▸ h.grants,
    hdefinitions ▸ h.definitions, hdefinitions ▸ h.valid, h.nodup, hbindings ▸ h.bindings⟩

theorem foldlM_addGrant {items grants : List Request}
    (hnormal : ∀ grant ∈ items, normalizeRequest os grant = .ok grant)
    (hnodup : (grants ++ items).Nodup) :
    items.foldlM (addGrant os) grants = .ok (grants ++ items) := by
  induction items generalizing grants with
  | nil =>
    rw [append_nil]
    rfl
  | cons grant items ih =>
    have hnew : grant ∉ grants := by
      intro hmem
      exact (disjoint_of_nodup_append hnodup) hmem mem_cons_self
    have hadd : addGrant os grants grant = .ok (grants ++ [grant]) := by
      simp only [addGrant, bind_eq_ok, require_eq_ok]
      exact ⟨grant, within_eq_ok.mpr (hnormal grant mem_cons_self), (), hnew, rfl⟩
    rw [foldlM_cons, hadd]
    have hsplit : grants ++ grant :: items = (grants ++ [grant]) ++ items := by simp
    rw [hsplit] at hnodup ⊢
    exact ih (fun g hg => hnormal g (mem_cons_of_mem grant hg)) hnodup

/-- **A snapshot backs the state it was made of.** -/
theorem backs_snapshot {p : PolicyStore} (h : p.Sound os) : Backs os p.snapshot p := by
  have hperm : (requestsFromGrants p.grants).Perm p.grants := mergeSort_perm _ _
  have hkey : ∀ (id : String) (b : PolicyBindingV1), p.bindings[id]? = some b → b.bindingID = id :=
    fun id b hb => (h.tables.bindings id b hb).1
  refine ⟨rfl, rfl, ⟨h.positive, h.generation_le, ?_, ?_, ?_⟩, ?_, ?_, fun b hb => ?_, ?_, ?_⟩
  · show (requestsFromGrants p.grants).length ≤ maxItems
    rw [hperm.length_eq]
    exact h.tables.grants_le
  · show (values p.definitions).length ≤ maxItems
    rw [length_values]
    exact h.tables.definitions_le
  · show (values p.bindings).length ≤ maxItems
    rw [length_values]
    exact h.tables.bindings_le
  · refine ⟨requestsFromGrants p.grants, ?_, hperm⟩
    have hnodup : ([] ++ requestsFromGrants p.grants).Nodup := hperm.nodup_iff.mpr h.tables.nodup
    exact foldlM_addGrant (fun grant hgrant => h.tables.normal grant
      (hperm.mem_iff.mp hgrant)) hnodup
  · refine foldlM_values_eq (fun id d hd => (h.tables.definitions id d hd).1)
      fun id d hd u hu => ?_
    simp only [addDefinition, bind_eq_ok, require_eq_ok]
    exact ⟨(), within_eq_ok.mpr (h.tables.definitions id d hd).2, (),
      contains_eq_false_iff.mpr hu, rfl⟩
  · obtain ⟨id, hid⟩ := mem_values.mp hb
    exact (h.tables.bindings id b hid).2
  · exact nodup_keys_values hkey
  · show insertAll ∅ ((values p.bindings).map fun b => (b.bindingID, b)) = p.bindings
    rw [map_values_eq_toList hkey, insertAll_toList]

theorem addBindings_unpruned {now : ℤ} {definitions : Definitions} {items : List PolicyBindingV1}
    {bindings bindings' : Bindings} {pruned : Bool}
    (h : items.foldlM (addBinding os now definitions) (bindings, pruned) = .ok (bindings', false)) :
    pruned = false ∧
      (∀ b ∈ items, b.validate os = .ok () ∧ definitions.contains b.definitionID = true) ∧
      (∀ b ∈ items, bindings[b.bindingID]? = none) ∧
      (items.map PolicyBindingV1.bindingID).Nodup ∧
      bindings' = insertAll bindings (items.map fun b => (b.bindingID, b)) := by
  induction items generalizing bindings pruned with
  | nil =>
    cases h
    exact ⟨rfl, fun b hb => absurd hb not_mem_nil, fun b hb => absurd hb not_mem_nil,
      nodup_nil, rfl⟩
  | cons b items ih =>
    rw [foldlM_cons, bind_eq_ok] at h
    obtain ⟨found, hadd, h⟩ := h
    simp only [addBinding, bind_eq_ok, require_eq_ok] at hadd
    obtain ⟨u₁, hvalid, u₂, hdefinition, u₃, hnew, hadd⟩ := hadd
    have hfree : bindings[b.bindingID]? = none := contains_eq_false_iff.mp hnew
    by_cases hexpired : b.expired now = true
    · -- a pruned binding leaves its mark
      rw [if_pos hexpired] at hadd
      cases hadd
      exact absurd (ih h).1 (by simp)
    · rw [if_neg hexpired] at hadd
      cases hadd
      obtain ⟨hpruned, hrest, hfree', hnodup, hresult⟩ := ih h
      refine ⟨hpruned, fun c hc => ?_, fun c hc => ?_, ?_, hresult⟩
      · rcases mem_cons.mp hc with rfl | hc
        · exact ⟨within_eq_ok.mp hvalid, hdefinition⟩
        · exact hrest c hc
      · rcases mem_cons.mp hc with rfl | hc
        · exact hfree
        · have hother := hfree' c hc
          by_cases hne : c.bindingID = b.bindingID
          · rw [hne]
            exact hfree
          · rwa [lookup_insert_of_ne _ _ hne] at hother
      · rw [map_cons, nodup_cons]
        refine ⟨fun hmem => ?_, hnodup⟩
        obtain ⟨c, hc, heq⟩ := mem_map.mp hmem
        have hother := hfree' c hc
        rw [heq, lookup_insert_self] at hother
        cases hother

/-- **A record that was read and need not be saved backs the state.** -/
theorem backs_readRecord {r : Record} {now : ℤ} {p : PolicyStore} (hfits : r.Fits)
    (hversion : r.version = policyStateVersion)
    (h : readRecord os r false now = .ok (p, false)) : Backs os r p := by
  simp only [readRecord, bind_eq_ok, require_eq_ok] at h
  obtain ⟨grants, hgrants, definitions, hdefinitions, -, -, ⟨bindings, pruned⟩, hbindings,
    -, -, h⟩ := h
  have hpruned : pruned = false := by
    cases pruned with
    | false => rfl
    | true => cases h
  subst hpruned
  cases h
  obtain ⟨-, hvalid, -, hnodup, hresult⟩ := addBindings_unpruned hbindings
  exact ⟨hversion, rfl, hfits, ⟨grants, hgrants, .refl _⟩, hdefinitions, hvalid, hnodup,
    hresult.symm⟩

/-! ### The process -/

structure PolicyProcess where
  disk : Option Record
  running : Option PolicyStore := none

inductive PolicyAct where
  /-- A call, and the error of the save it makes, if that fails. -/
  | call (env : PolicyEnv) (call : PolicyCall) (fault : Option String)
  | watch
  | unwatch (id : ℕ)
  | close
  | restart (now : ℤ) (fault : Option String)

namespace PolicyProcess

variable (os) in
def step (m : PolicyProcess) : PolicyAct → PolicyProcess
  | .call env call fault =>
    match m.running with
    | none => m
    | some p =>
      let (_, committed) := p.perform os (Commit.slot fault) env call m.disk
      ⟨committed.device, some committed.store⟩
  | .watch => { m with running := m.running.map fun p => p.watch.toOption.getD p }
  | .unwatch id => { m with running := m.running.map (·.unwatch id) }
  | .close => { m with running := m.running.map (·.close) }
  | .restart now fault =>
    match loadPolicyState os (Commit.slot fault) now m.disk m.disk with
    | (.ok p, disk) => ⟨disk, some p⟩
    | (.error _, disk) => ⟨disk, none⟩

variable (os) in
def run (disk : Option Record) (acts : List PolicyAct) : PolicyProcess :=
  acts.foldl (step os) { disk := disk }

variable (os) in
/-- The state in memory is sound and backed by the record on disk. -/
def Stored (m : PolicyProcess) : Prop :=
  ∀ p, m.running = some p → p.Sound os ∧ ∃ r, m.disk = some r ∧ Backs os r p

theorem commitLocked_cases (p : PolicyStore) (fault : Option String) (next : PolicyTables)
    (disk : Option Record) :
    (p.closed = false ∧ p.generation < maxCollectionRevision ∧ fault = none ∧
      p.commitLocked (Commit.slot fault) next disk =
        ⟨none, p.adopt ⟨p.generation + 1, next.grants, next.definitions, next.bindings, p.closed⟩,
          some (PolicyState.record next.grants next.definitions next.bindings (p.generation + 1)),
          p.watchers.map fun watcher => (watcher, p.generation + 1)⟩) ∨
    ∃ text, p.commitLocked (Commit.slot fault) next disk = ⟨some text, p, disk, []⟩ := by
  unfold PolicyStore.commitLocked PolicyState.commitLocked Commit.commit PolicyState.refusal
  by_cases hclosed : p.closed = true
  · rw [if_pos hclosed]
    exact .inr ⟨_, rfl⟩
  · rw [if_neg hclosed]
    by_cases hmax : maxCollectionRevision ≤ p.generation
    · rw [if_pos hmax]
      exact .inr ⟨_, rfl⟩
    · rw [if_neg hmax]
      cases fault with
      | some text => exact .inr ⟨_, rfl⟩
      | none => exact .inl ⟨Bool.not_eq_true _ ▸ hclosed, UInt64.not_le.mp hmax, rfl, rfl⟩

theorem perform_cases (os : Text) (p : PolicyStore) (env : PolicyEnv) (call : PolicyCall)
    (fault : Option String) (disk : Option Record) :
    (∃ text, p.perform os (Commit.slot fault) env call disk =
      (.error text, ⟨some text, p, disk, []⟩)) ∨
    (∃ reply, p.plan os env call = .ok ⟨none, reply⟩ ∧
      p.perform os (Commit.slot fault) env call disk = (.ok reply, ⟨none, p, disk, []⟩)) ∨
    ∃ next reply, p.plan os env call = .ok ⟨some next, reply⟩ ∧
      p.generation < maxCollectionRevision ∧
      p.perform os (Commit.slot fault) env call disk =
        (.ok reply, ⟨none,
          p.adopt ⟨p.generation + 1, next.grants, next.definitions, next.bindings, p.closed⟩,
          some (PolicyState.record next.grants next.definitions next.bindings (p.generation + 1)),
          p.watchers.map fun watcher => (watcher, p.generation + 1)⟩) := by
  unfold PolicyStore.perform
  rcases hplan : p.plan os env call with text | ⟨_ | next, reply⟩
  · exact .inl ⟨text, rfl⟩
  · exact .inr (.inl ⟨reply, rfl, rfl⟩)
  · dsimp only
    obtain ⟨-, hlt, -, hcommit⟩ | ⟨text, hcommit⟩ := commitLocked_cases p fault next disk
    · rw [hcommit]
      exact .inr (.inr ⟨next, reply, rfl, hlt, rfl⟩)
    · rw [hcommit]
      exact .inl ⟨text, rfl⟩

theorem sound_adopt {p : PolicyStore} {next : PolicyTables} (h : next.Sound os)
    (hlt : p.generation < maxCollectionRevision) :
    (p.adopt ⟨p.generation + 1, next.grants, next.definitions, next.bindings,
      p.closed⟩).Sound os := by
  obtain ⟨-, hne, hle⟩ := generation_succ hlt
  exact ⟨h, rfl, hne, hle⟩

theorem stored_load {now : ℤ} {fault : Option String} {disk disk' : Option Record}
    {p : PolicyStore}
    (h : loadPolicyState os (Commit.slot fault) now disk disk = (.ok p, disk')) :
    p.Sound os ∧ ∃ r, disk' = some r ∧ Backs os r p := by
  unfold loadPolicyState at h
  dsimp only at h
  split at h
  · cases h
  · next hloaded =>
    cases h
    simp only [bind_eq_ok] at hloaded
    obtain ⟨u, hheader, ⟨r, migrated⟩, hmigrate, hread⟩ := hloaded
    have hfits := checkHeader_eq_ok.mp hheader
    -- nothing is saved only when a record was found and needed no migration
    have hmigrated : migrated = false := by
      simp only [readRecord, bind_eq_ok] at hread
      obtain ⟨grants, -, definitions, -, u₁, -, ⟨bindings, pruned⟩, -, u₂, -, hread⟩ := hread
      cases migrated with
      | false => rfl
      | true => cases hread
    subst hmigrated
    cases disk with
    | none => cases hmigrate
    | some found =>
      change migrate found = _ at hmigrate
      have hsame : found = r := by
        unfold migrate at hmigrate
        split at hmigrate
        · split at hmigrate
          · cases hmigrate
          · cases hmigrate
        · split at hmigrate
          · cases hmigrate
            rfl
          · cases hmigrate
      obtain ⟨hfits', hversion⟩ := migrate_fits hfits hmigrate
      exact ⟨sound_readRecord hfits' hread, r, by rw [hsame], backs_readRecord hfits'
        hversion hread⟩
  · next hloaded =>
    simp only [bind_eq_ok] at hloaded
    obtain ⟨u, hheader, ⟨r, migrated⟩, hmigrate, hread⟩ := hloaded
    have hfits := checkHeader_eq_ok.mp hheader
    have hsound : p.Sound os := by
      cases fault with
      | some text => cases h
      | none =>
        cases h
        cases disk with
        | none =>
          cases hmigrate
          exact sound_readRecord hfits hread
        | some found => exact sound_readRecord (migrate_fits hfits hmigrate).1 hread
    cases fault with
    | some text => cases h
    | none =>
      cases h
      exact ⟨hsound, _, rfl, backs_snapshot hsound⟩

theorem stored_step {m : PolicyProcess} (h : Stored os m) (act : PolicyAct) :
    Stored os (step os m act) := by
  intro p hp
  cases act with
  | call env call fault =>
    cases hrunning : m.running with
    | none =>
      rw [show step os m (.call env call fault) = m by simp only [step, hrunning]] at hp ⊢
      exact h p hp
    | some q =>
      obtain ⟨hsound, r, hdisk, hbacks⟩ := h q hrunning
      obtain ⟨text, hperform⟩ | ⟨reply, -, hperform⟩ | ⟨next, reply, hplan, hlt, hperform⟩ :=
        perform_cases os q env call fault m.disk
      · have hstep : step os m (.call env call fault) = ⟨m.disk, some q⟩ := by
          simp only [step, hrunning, hperform]
        rw [hstep] at hp ⊢
        cases hp
        exact ⟨hsound, r, hdisk, hbacks⟩
      · have hstep : step os m (.call env call fault) = ⟨m.disk, some q⟩ := by
          simp only [step, hrunning, hperform]
        rw [hstep] at hp ⊢
        cases hp
        exact ⟨hsound, r, hdisk, hbacks⟩
      · have hnext := sound_adopt (sound_plan hsound.tables hplan) hlt
        simp only [step, hrunning, hperform] at hp ⊢
        cases hp
        exact ⟨hnext, _, rfl, backs_snapshot hnext⟩
  | watch =>
    simp only [step, Option.map_eq_some_iff] at hp
    obtain ⟨q, hq, rfl⟩ := hp
    obtain ⟨hsound, r, hdisk, hbacks⟩ := h q hq
    unfold PolicyStore.watch
    split
    · exact ⟨hsound, r, hdisk, hbacks⟩
    · exact ⟨hsound.of_eq rfl rfl rfl, r, hdisk, hbacks.of_eq rfl rfl⟩
  | unwatch id =>
    simp only [step, Option.map_eq_some_iff] at hp
    obtain ⟨q, hq, rfl⟩ := hp
    obtain ⟨hsound, r, hdisk, hbacks⟩ := h q hq
    exact ⟨hsound.of_eq rfl rfl rfl, r, hdisk, hbacks.of_eq rfl rfl⟩
  | close =>
    simp only [step, Option.map_eq_some_iff] at hp
    obtain ⟨q, hq, rfl⟩ := hp
    obtain ⟨hsound, r, hdisk, hbacks⟩ := h q hq
    unfold PolicyStore.close
    split
    · exact ⟨hsound, r, hdisk, hbacks⟩
    · exact ⟨hsound.of_eq rfl rfl rfl, r, hdisk, hbacks.of_eq rfl rfl⟩
  | restart now fault =>
    rcases hload : loadPolicyState os (Commit.slot fault) now m.disk m.disk with ⟨_ | q, disk⟩
    · simp only [step, hload] at hp
      cases hp
    · simp only [step, hload] at hp ⊢
      cases hp
      exact stored_load hload

/-- **Every state reached is sound and backed by the record on disk.** -/
theorem stored_run (disk : Option Record) (acts : List PolicyAct) :
    Stored os (run os disk acts) := by
  refine Runs.foldl_invariant (I := Stored os) (fun m act hm => stored_step hm act) ?_ acts
  intro p hp
  cases hp

end PolicyProcess

end Auth
