/-
The registry and its catalog agree.

Whenever the registry lock is free, the catalog lists exactly the resources of the map, and the
catalog Variable carries that list.  While the lock is taken, the phase of its holder says by how
much the registry differs from what it was when the lock was last free (`Fits`); no other caller
depends on the registry at all.

* `Agrees` — map, descriptors, revision and Variable agree;
* `Job.Ready` — a change that passed its checks can be undone, and keeps names and limits;
* `Sound` — the invariant of runs;
* **`registry_agrees`** — the theorem over all runs.
-/
import MyFlowHub.Registry
import MyFlowHub.VariableWrites

open Checks
open Std Tables Runs List
open Auth (Text maxItems)

namespace Resource

variable {cfg : RegistryConfig}

/-! ### The list of a map -/

/-- Each resource has a normalized descriptor with its name. -/
def Named (cfg : RegistryConfig) (resources : ExtTreeMap String Member compare) : Prop :=
  ∀ (name : String) (member : Member), resources[name]? = some member →
    ∃ d, normalizeDescriptor cfg.os member.descriptor = .ok d ∧ d.id = ⟨cfg.owner, name⟩

/-- The sorted list of the normalized descriptors of exactly the resources of a map, each name
once. -/
structure Enumerates (cfg : RegistryConfig) (resources : ExtTreeMap String Member compare)
    (descriptors : List ResourceDescriptorV2) : Prop where
  listed : ∀ d, d ∈ descriptors ↔ ∃ (name : String) (member : Member),
    resources[name]? = some member ∧ normalizeDescriptor cfg.os member.descriptor = .ok d
  sorted : descriptors.Pairwise fun a b => a.id.name < b.id.name
  count : descriptors.length = resources.size

variable {resources : ExtTreeMap String Member compare} {job : Job}
  {entries : List (String × Member)} {log : List RegistryEntry} {plan : Plan} {r : Registry}
  {e : RegistryEntry} {α β : Type} {base : View} {now : ℤ}

section

variable {f : α → Except String β} {l' : List β} {l : List α}

theorem mapM_eq_ok (h : l.mapM f = .ok l') : List.Forall₂ (fun a b => f a = .ok b) l l' := by
  induction l generalizing l' with
  | nil =>
    cases h
    exact .nil
  | cons a l ih =>
    rw [mapM_cons] at h
    obtain ⟨b, hb, h⟩ := bind_eq_ok.1 h
    obtain ⟨bs, hbs, h⟩ := bind_eq_ok.1 h
    cases h
    exact .cons hb (ih hbs)

theorem mem_mapM (h : List.Forall₂ (fun a b => f a = .ok b) l l') {b : β} :
    b ∈ l' ↔ ∃ a ∈ l, f a = .ok b := by
  induction h with
  | nil => simp
  | @cons a b' l l' hab _ ih =>
    have hhead : b = b' ↔ f a = .ok b := by
      rw [hab, Except.ok.injEq]
      exact eq_comm
    simp only [mem_cons, exists_eq_or_imp, ih, hhead]

theorem map_mapM {γ : Type} {key : α → γ} {key' : β → γ}
    (hkey : ∀ a b, f a = .ok b → key' b = key a) (h : List.Forall₂ (fun a b => f a = .ok b) l l') :
    l'.map key' = l.map key := by
  induction h with
  | nil => rfl
  | cons hab _ ih => rw [map_cons, map_cons, ih, hkey _ _ hab]

end

theorem strict_insertionSort {l : List ResourceDescriptorV2}
    (hnodup : (l.map fun d => d.id.name).Nodup) :
    (l.insertionSort fun a b => a.id.name ≤ b.id.name).Pairwise
      fun a b => a.id.name < b.id.name := by
  have : Std.Total fun a b : ResourceDescriptorV2 => a.id.name ≤ b.id.name :=
    ⟨fun a b => String.le_total _ _⟩
  have : IsTrans ResourceDescriptorV2 fun a b => a.id.name ≤ b.id.name :=
    ⟨fun _ _ _ => String.le_trans⟩
  have hle := pairwise_insertionSort (fun a b : ResourceDescriptorV2 => a.id.name ≤ b.id.name) l
  have hperm := perm_insertionSort (fun a b : ResourceDescriptorV2 => a.id.name ≤ b.id.name) l
  have hne := pairwise_map.1 ((hperm.map fun d => d.id.name).nodup_iff.2 hnodup)
  exact hle.imp₂ (fun a b hab hn => hab.lt_of_ne hn) hne

theorem Named.key (h : Named cfg resources) (name : String) (member : Member)
    (hmember : resources[name]? = some member) : member.descriptor.id.name = name := by
  obtain ⟨d, hd, hid⟩ := h name member hmember
  rw [← normalizeDescriptor_id cfg.os hd, hid]

theorem catalogMembers_enumerates {members : List ResourceDescriptorV2}
    (hnamed : Named cfg resources) (h : catalogMembers cfg resources = .ok members) :
    Enumerates cfg resources members := by
  obtain ⟨descriptors, hmap, h⟩ := bind_eq_ok.1 h
  cases h
  have hall := mapM_eq_ok hmap
  have hperm := perm_insertionSort (fun a b : ResourceDescriptorV2 => a.id.name ≤ b.id.name)
    descriptors
  have hnames : descriptors.map (fun d => d.id.name) =
      (values resources).map fun member => member.descriptor.id.name :=
    map_mapM (fun member d hd => by rw [normalizeDescriptor_id cfg.os hd]) hall
  refine ⟨fun d => ?_, strict_insertionSort ?_, ?_⟩
  · rw [hperm.mem_iff, mem_mapM hall]
    constructor
    · rintro ⟨member, hmember, hd⟩
      obtain ⟨name, hname⟩ := mem_values.1 hmember
      exact ⟨name, member, hname, hd⟩
    · rintro ⟨name, member, hname, hd⟩
      exact ⟨member, mem_values.2 ⟨name, hname⟩, hd⟩
  · rw [hnames]
    exact nodup_keys_values hnamed.key
  · rw [hperm.length_eq, ← hall.length_eq, length_values]

/-! ### Jobs and changes -/

def EntryOK (cfg : RegistryConfig) (e : String × Member) : Prop :=
  e.1 ≠ builtinResourceCatalog ∧
    ∃ d, normalizeDescriptor cfg.os e.2.descriptor = .ok d ∧ d.id = ⟨cfg.owner, e.1⟩

/-- What the checks before the locks have made sure of. -/
def Job.Valid (cfg : RegistryConfig) : Job → Prop
  | .register entries => (entries.map Prod.fst).Nodup ∧ ∀ e ∈ entries, EntryOK cfg e
  | .remove name => name ≠ builtinResourceCatalog

def Job.apply (resources : ExtTreeMap String Member compare) :
    Job → ExtTreeMap String Member compare
  | .register entries => insertAll resources entries
  | .remove name => resources.erase name

theorem checkValues_eq_ok {seen : List String} {values : List (Option Member)}
    (h : checkValues cfg seen values = .ok entries) :
    (entries.map Prod.fst).Nodup ∧ (∀ name ∈ entries.map Prod.fst, name ∉ seen) ∧
      ∀ e ∈ entries, EntryOK cfg e := by
  induction values generalizing seen entries with
  | nil =>
    cases h
    simp
  | cons value values ih =>
    cases value with
    | none => cases h
    | some member =>
      obtain ⟨d, hd, h⟩ := bind_eq_ok.1 h
      obtain ⟨_, howner, h⟩ := bind_eq_ok.1 h
      obtain ⟨_, hbuiltin, h⟩ := bind_eq_ok.1 h
      obtain ⟨_, hseen, h⟩ := bind_eq_ok.1 h
      obtain ⟨rest, hrest, h⟩ := bind_eq_ok.1 h
      cases h
      rw [within_eq_ok] at hd
      rw [require_eq_ok] at howner hbuiltin hseen
      obtain ⟨hnodup, hnew, hok⟩ := ih hrest
      refine ⟨?_, ?_, ?_⟩
      · rw [map_cons, nodup_cons]
        exact ⟨fun hmem => hnew _ hmem mem_cons_self, hnodup⟩
      · intro name hname
        rcases mem_cons.1 hname with rfl | hname
        · exact hseen
        · exact fun hmem => hnew name hname (mem_cons_of_mem _ hmem)
      · intro e he
        rcases mem_cons.1 he with rfl | he
        · refine ⟨hbuiltin, d, hd, ?_⟩
          rw [← howner]
        · exact hok e he

theorem valid_registerBatch {values : List (Option Member)}
    (h : registerBatch cfg values = .ok job) :
    job.Valid cfg := by
  unfold registerBatch at h
  split_ifs at h
  cases hcheck : checkValues cfg [] values with
  | error text =>
    rw [hcheck] at h
    cases h
  | ok entries =>
    rw [hcheck] at h
    cases h
    obtain ⟨hnodup, -, hok⟩ := checkValues_eq_ok hcheck
    exact ⟨hnodup, hok⟩

theorem valid_remove {id : ResourceID} (h : remove cfg id = .ok job) : job.Valid cfg := by
  unfold remove at h
  split_ifs at h with howner hbuiltin
  cases h
  exact hbuiltin

theorem admissible_eq_ok {retired : Member → Bool} {u : Unit}
    (h : admissible retired resources entries = .ok u) :
    ∀ name ∈ entries.map Prod.fst, resources[name]? = none := by
  induction entries with
  | nil => simp
  | cons e entries ih =>
    unfold admissible at h
    split_ifs at h with hretired hcontains
    intro name hname
    rcases mem_cons.1 hname with rfl | hname
    · exact contains_eq_false_iff.1 (eq_false_of_ne_true hcontains)
    · exact ih h name hname

/-- A map that may be published: named, within the limit, with the catalog in it. -/
structure MapOK (cfg : RegistryConfig) (resources : ExtTreeMap String Member compare) : Prop where
  named : Named cfg resources
  size : resources.size ≤ maxItems
  builtin : (resources[builtinResourceCatalog]?).isSome = true

/-- A change that passed its checks: it does the job, can be undone, and keeps the map in order. -/
structure Change.Ready (cfg : RegistryConfig) (job : Job) (change : Change)
    (resources : ExtTreeMap String Member compare) : Prop where
  apply : change.apply resources = job.apply resources
  undo : change.undo (change.apply resources) = resources
  ok : MapOK cfg (change.apply resources)

theorem size_insertAll_le (resources : ExtTreeMap String Member compare)
    (entries : List (String × Member)) :
    (insertAll resources entries).size ≤ entries.length + resources.size := by
  induction entries generalizing resources with
  | nil => simp [insertAll]
  | cons e entries ih =>
    have hinsert : (resources.insert e.1 e.2).size ≤ resources.size + 1 := by
      rw [ExtTreeMap.size_insert]
      split_ifs <;> omega
    have := ih (resources.insert e.1 e.2)
    rw [length_cons]
    show (insertAll (resources.insert e.1 e.2) entries).size ≤ _
    omega

theorem MapOK.insertAll (h : MapOK cfg resources) (hnodup : (entries.map Prod.fst).Nodup)
    (hok : ∀ e ∈ entries, EntryOK cfg e) (hsize : entries.length + resources.size ≤ maxItems) :
    MapOK cfg (insertAll resources entries) := by
  refine ⟨fun name member hmember => ?_, (size_insertAll_le resources entries).trans hsize, ?_⟩
  · by_cases hname : name ∈ entries.map Prod.fst
    · obtain ⟨e, he, rfl⟩ := mem_map.1 hname
      rw [lookup_insertAll_of_mem resources hnodup he] at hmember
      cases hmember
      exact (hok e he).2
    · rw [lookup_insertAll_of_notMem resources hname] at hmember
      exact h.named name member hmember
  · rw [lookup_insertAll_of_notMem]
    · exact h.builtin
    · intro hmem
      obtain ⟨e, he, hname⟩ := mem_map.1 hmem
      exact (hok e he).1 hname

theorem eraseAll_insertAll (hnew : ∀ name ∈ entries.map Prod.fst, resources[name]? = none) :
    eraseAll (insertAll resources entries) (entries.map Prod.fst) = resources := by
  refine ExtTreeMap.ext_getElem? fun name => ?_
  rw [lookup_eraseAll]
  split_ifs with hname
  · exact (hnew name hname).symm
  · exact lookup_insertAll_of_notMem resources hname

theorem MapOK.erase (h : MapOK cfg resources) {name : String}
    (hname : name ≠ builtinResourceCatalog) : MapOK cfg (resources.erase name) := by
  refine ⟨fun name' member hmember => ?_, ExtTreeMap.size_erase_le.trans h.size, ?_⟩
  · rw [lookup_erase] at hmember
    split_ifs at hmember
    exact h.named name' member hmember
  · rw [lookup_erase_of_ne _ hname.symm]
    exact h.builtin

theorem insert_erase {name : String} {member : Member} (h : resources[name]? = some member) :
    (resources.erase name).insert name member = resources := by
  refine ExtTreeMap.ext_getElem? fun name' => ?_
  rw [lookup_insert, lookup_erase]
  split_ifs with hname
  · rw [hname, h]
  · rfl

theorem Job.ready {retired : Member → Bool} {change : Change} (hvalid : job.Valid cfg)
    (hmap : MapOK cfg resources) (h : job.change retired resources = .ok change) :
    change.Ready cfg job resources := by
  cases job with
  | register entries =>
    simp only [Job.change] at h
    split_ifs at h with hlimit
    cases hadmissible : admissible retired resources entries with
    | error text =>
      rw [hadmissible] at h
      cases h
    | ok _ =>
      rw [hadmissible] at h
      cases h
      exact ⟨rfl, eraseAll_insertAll (admissible_eq_ok hadmissible),
        hmap.insertAll hvalid.1 hvalid.2 (Nat.not_lt.1 hlimit)⟩
  | remove name =>
    simp only [Job.change] at h
    cases hmember : resources[name]? with
    | none =>
      rw [hmember] at h
      cases h
    | some member =>
      rw [hmember] at h
      cases h
      exact ⟨rfl, insert_erase hmember, hmap.erase hvalid⟩

/-! ### Agreement -/

/-- The committed state of the catalog Variable goes with a revision and a list of descriptors:
when it is ready, its value decodes to their catalog. -/
def Carried (cfg : RegistryConfig) (revision : UInt64) (members : List ResourceDescriptorV2)
    (current : PreparedVariable) : Prop :=
  current.update.revision = revision ∧ ∃ state, current.update.state = some state ∧
    state.revision = toString revision ∧ (state.status = "ready" →
      cfg.decodeVariablePayload state.value = .ok ⟨schemaVersionV2, revision, members⟩)

/-- **Agreement** of the map, the catalog and the catalog Variable. -/
structure Agrees (cfg : RegistryConfig) (v : View) : Prop where
  map : MapOK cfg v.resources
  descriptors : Enumerates cfg v.resources v.catalogDescriptors
  carried : Carried cfg v.catalogRevision v.catalogDescriptors v.current

/-- What a plan has to be for the map that is changed. -/
structure Plan.For (cfg : RegistryConfig) (base : View)
    (resources : ExtTreeMap String Member compare) (plan : Plan) : Prop where
  room : base.catalogRevision ≠ maxUint64
  revision : plan.revision = base.catalogRevision + 1
  members : Enumerates cfg resources plan.members
  state : plan.state.status = "ready" →
    cfg.decodeVariablePayload plan.state.value = .ok ⟨schemaVersionV2, plan.revision, plan.members⟩

theorem Plan.For.overflow {plan' : Plan} {text : String} (hroom : base.catalogRevision ≠ maxUint64)
    (hrevision : plan.revision = base.catalogRevision + 1)
    (hmembers : Enumerates cfg resources plan.members) (h : plan.retry cfg text = .ok plan') :
    plan'.For cfg base resources := by
  unfold Plan.retry at h
  split_ifs at h
  cases h
  have hstatus : overflowState.status ≠ "ready" := by decide
  exact ⟨hroom, hrevision, hmembers, fun hready => absurd hready hstatus⟩

theorem plan_for (hmap : MapOK cfg r.resources)
    (hrevision : r.catalogRevision = base.catalogRevision) (h : r.plan cfg = .ok plan) :
    plan.For cfg base r.resources := by
  unfold Registry.plan at h
  split_ifs at h with hmax
  rw [hrevision] at hmax
  cases hmembers : catalogMembers cfg r.resources with
  | error text =>
    rw [hmembers] at h
    cases h
  | ok members =>
    have henum := catalogMembers_enumerates hmap.named hmembers
    rw [hmembers] at h
    dsimp only at h
    rw [hrevision] at h
    cases hencode : cfg.encodeVariablePayload ⟨schemaVersionV2, base.catalogRevision + 1,
      members⟩ with
    | error text =>
      rw [hencode] at h
      exact Plan.For.overflow hmax rfl henum h
    | ok payload =>
      rw [hencode] at h
      cases h
      exact ⟨hmax, rfl, henum, fun _ => cfg.decode_encode _ _ hencode⟩

theorem prepare_state {revision : UInt64} {state : VariableState} {prepared : PreparedVariable}
    (h : cfg.catalog.prepare now revision state = .ok prepared) :
    prepared.update.revision = revision ∧ ∃ envelope, prepared.update.state = some envelope ∧
      envelope.revision = toString revision ∧ envelope.status = state.status ∧
      envelope.value = state.value := by
  simp only [VariableConfig.prepare, bind_eq_ok] at h
  obtain ⟨u₁, -, u₂, -, data, -, h⟩ := h
  split_ifs at h
  cases h
  exact ⟨rfl, _, rfl, rfl, rfl, rfl⟩

theorem Plan.For.carried (h : plan.For cfg base resources) {prepared : PreparedVariable}
    (hprepared : cfg.catalog.prepare now plan.revision plan.state = .ok prepared) :
    Carried cfg plan.revision plan.members prepared := by
  obtain ⟨hrevision, envelope, hstate, htext, hstatus, hvalue⟩ := prepare_state hprepared
  refine ⟨hrevision, envelope, hstate, htext, fun hready => ?_⟩
  rw [hvalue]
  exact h.state (hstatus ▸ hready)

theorem agrees_newRegistry (h : newRegistry cfg now = .ok r) : Agrees cfg r.view := by
  obtain ⟨_, -, h⟩ := bind_eq_ok.1 h
  obtain ⟨payload, hpayload, h⟩ := bind_eq_ok.1 h
  obtain ⟨normalized, hnormalized, h⟩ := bind_eq_ok.1 h
  obtain ⟨catalog, hcatalog, h⟩ := bind_eq_ok.1 h
  cases h
  rw [within_eq_ok] at hpayload hnormalized hcatalog
  have hcatalogD := normalizeDescriptor_catalog cfg.os hnormalized
  subst hcatalogD
  have hlookup : ∀ (name : String) (member : Member),
      ((∅ : ExtTreeMap String Member compare).insert builtinResourceCatalog
        { descriptor := catalogDescriptor cfg.owner })[name]? = some member ↔
      name = builtinResourceCatalog ∧ member = { descriptor := catalogDescriptor cfg.owner } := by
    intro name member
    rw [lookup_insert]
    split_ifs with hname
    · simp [hname, eq_comm]
    · simp [hname]
  refine ⟨⟨fun name member hmember => ?_, ?_, ?_⟩, ⟨fun d => ?_, pairwise_singleton _ _, ?_⟩, ?_⟩
  · obtain ⟨rfl, rfl⟩ := (hlookup name member).1 hmember
    exact ⟨_, hnormalized, rfl⟩
  · show ((∅ : ExtTreeMap String Member compare).insert _ _).size ≤ maxItems
    rw [ExtTreeMap.size_insert]
    simp [maxItems]
  · show (((∅ : ExtTreeMap String Member compare).insert _
      _)[builtinResourceCatalog]?).isSome = true
    rw [lookup_insert_self]
    rfl
  · show d ∈ [catalogDescriptor cfg.owner] ↔ _
    rw [mem_singleton]
    constructor
    · rintro rfl
      exact ⟨_, _, (hlookup _ _).2 ⟨rfl, rfl⟩, hnormalized⟩
    · rintro ⟨name, member, hmember, hd⟩
      obtain ⟨rfl, rfl⟩ := (hlookup name member).1 hmember
      exact normalizeDescriptor_catalog cfg.os hd
  · show 1 = ((∅ : ExtTreeMap String Member compare).insert _ _).size
    rw [ExtTreeMap.size_insert]
    simp
  · obtain ⟨current, hcurrent, hcatalog⟩ := bind_eq_ok.1 hcatalog
    cases hcatalog
    obtain ⟨hrevision, envelope, hstate, htext, hstatus, hvalue⟩ := prepare_state hcurrent
    refine ⟨hrevision, envelope, hstate, htext, fun _ => ?_⟩
    rw [hvalue]
    have hsort : ResourceCatalogV2.sort ⟨schemaVersionV2, 1, [catalogDescriptor cfg.owner]⟩ =
        ⟨schemaVersionV2, 1, [catalogDescriptor cfg.owner]⟩ := by
      show (⟨schemaVersionV2, 1, [(catalogDescriptor cfg.owner).sort]⟩ : ResourceCatalogV2) = _
      rw [show (catalogDescriptor cfg.owner).sort = catalogDescriptor cfg.owner from sort_sort _]
    rw [hsort] at hpayload
    exact cfg.decode_encode _ _ hpayload

/-! ### Callers -/

/-- What a call that had the lock has done: nothing if it failed, its job and one more revision if
it did not. -/
def Effect (cfg : RegistryConfig) (job : Job) (before after : View) : Except String Unit → Prop
  | .error _ => after = before
  | .ok _ => Agrees cfg after ∧
      after.catalogRevision.toNat = before.catalogRevision.toNat + 1 ∧
      after.resources = job.apply before.resources

structure Differs (cfg : RegistryConfig) (base v : View) (job : Job) (change : Change) : Prop where
  ready : change.Ready cfg job base.resources
  view : v = { base with resources := change.apply base.resources }

namespace RegistryPhase

def inside : RegistryPhase → Bool
  | .locked _ | .changed _ _ | .reading _ _ _ | .checking _ _ _ _ | .prepared _ _ _ _
  | .committed _ _ _ _ | .unlocking _ _ _ => true
  | _ => false

def task : RegistryPhase → Option Job
  | .enter job | .updating job | .gated job | .locked job | .changed job _ | .reading job _ _
  | .checking job _ _ _ | .prepared job _ _ _ | .committed job _ _ _ | .unlocking job _
      _ => some job
  | _ => none

def outcome : RegistryPhase → Option (Except String Unit)
  | .releasing outcome _ | .leaving outcome _ | .draining outcome | .done outcome => some outcome
  | _ => none

/-- How the registry `v` differs from `base`, what it was when its lock was last free, as far as
the caller is concerned. -/
def Fits (cfg : RegistryConfig) (base v : View) : RegistryPhase → Prop
  | .enter job | .updating job | .gated job => job.Valid cfg
  | .locked job => job.Valid cfg ∧ v = base
  | .changed job change => Differs cfg base v job change
  | .reading job change plan => Differs cfg base v job change ∧ plan.For cfg base v.resources
  | .checking job change plan revision =>
    Differs cfg base v job change ∧ plan.For cfg base v.resources ∧ revision = plan.revision
  | .prepared job change plan next =>
    Differs cfg base v job change ∧ plan.For cfg base v.resources ∧
      Carried cfg plan.revision plan.members next
  | .committed job change plan _ =>
    change.Ready cfg job base.resources ∧ plan.For cfg base v.resources ∧
      Carried cfg plan.revision plan.members v.current ∧
      v.resources = change.apply base.resources
  | .unlocking job outcome _ => Effect cfg job base v outcome
  | _ => True

theorem Fits.outside {base v base' v' : View} {p : RegistryPhase} (h : p.Fits cfg base v)
    (hout : p.inside = false) : p.Fits cfg base' v' := by
  cases p with
  | idle => exact h
  | enter job => exact h
  | updating job => exact h
  | gated job => exact h
  | releasing outcome drain => exact h
  | leaving outcome drain => exact h
  | draining outcome => exact h
  | done outcome => exact h
  | _ => cases hout

end RegistryPhase

def Chained : View → List RegistryEntry → View → Prop
  | v, [], w => v = w
  | v, e :: log, w => e.before = v ∧ Chained e.after log w

theorem Chained.concat {v w : View} (h : Chained v log w) (hbefore : e.before = w) :
    Chained v (log ++ [e]) e.after := by
  induction log generalizing v with
  | nil => exact ⟨hbefore.trans h.symm, rfl⟩
  | cons e' log ih => exact ⟨h.1, ih h.2⟩

theorem Chained.last {v w : View} (h : Chained v log w) : w = v ∨ ∃ e ∈ log, w = e.after := by
  induction log generalizing v with
  | nil => exact Or.inl h.symm
  | cons e log ih =>
    rcases ih h.2 with rfl | ⟨e', he', hw⟩
    · exact Or.inr ⟨e, mem_cons_self, rfl⟩
    · exact Or.inr ⟨e', mem_cons_of_mem _ he', hw⟩

/-- What a caller has done with the lock since the history had the length `since`. -/
def entriesOf (log : List RegistryEntry) (since t : ℕ) : List RegistryEntry :=
  (log.drop since).filter (·.caller = t)

/-- **What a call returns is what it did**: the outcome of the one time it had the lock, for the job
it was called with; a call that never had it fails. -/
def Returned (log : List RegistryEntry) (call : Option Job) (since t : ℕ)
    (outcome : Except String Unit) : Prop :=
  (∃ e, entriesOf log since t = [e] ∧ call = some e.job ∧ e.outcome = outcome) ∨
    entriesOf log since t = [] ∧ ∃ text, outcome = .error text

/-- Where the last call of a caller stands in the history. -/
structure Traced (log : List RegistryEntry) (call : Option Job) (since t : ℕ) (p : RegistryPhase) :
    Prop where
  task : ∀ job, p.task = some job → call = some job
  since_le : since ≤ log.length
  pending : p.outcome = none → entriesOf log since t = []
  returned : ∀ outcome, p.outcome = some outcome → Returned log call since t outcome

section

variable {p q : RegistryPhase} {t since : ℕ} {call : Option Job}

theorem Traced.move (h : Traced log call since t q) (htask : p.task = q.task)
    (houtcome : p.outcome = q.outcome) : Traced log call since t p where
  task := fun job hp => h.task job (htask ▸ hp)
  since_le := h.since_le
  pending := fun hp => h.pending (houtcome ▸ hp)
  returned := fun outcome hp => h.returned outcome (houtcome ▸ hp)

theorem entriesOf_concat (h : since ≤ log.length) :
    entriesOf (log ++ [e]) since t = entriesOf log since t ++ if e.caller = t then [e] else [] := by
  rw [entriesOf, drop_append_of_le_length h, filter_append, entriesOf]
  split_ifs with he
  · simp [he]
  · simp [he]

theorem Traced.other (h : Traced log call since t p) (ht : t ≠ e.caller) :
    Traced (log ++ [e]) call since t p := by
  have hentries : entriesOf (log ++ [e]) since t = entriesOf log since t := by
    rw [entriesOf_concat h.since_le, if_neg ht.symm, append_nil]
  refine ⟨h.task, ?_, fun hp => ?_, fun outcome hp => ?_⟩
  · rw [length_append]
    exact h.since_le.trans (Nat.le_add_right _ _)
  · rw [hentries]
    exact h.pending hp
  · rw [Returned, hentries]
    exact h.returned outcome hp

theorem Traced.leave (h : Traced log call since e.caller q) (hq : q.outcome = none)
    (htask : q.task = some e.job) (hp : p.task = none) (houtcome : p.outcome = some e.outcome) :
    Traced (log ++ [e]) call since e.caller p := by
  have hentries : entriesOf (log ++ [e]) since e.caller = [e] := by
    rw [entriesOf_concat h.since_le, h.pending hq, if_pos rfl, nil_append]
  refine ⟨fun job hjob => ?_, ?_, fun hnone => ?_, fun outcome hsome => ?_⟩
  · rw [hp] at hjob
    cases hjob
  · rw [length_append]
    exact h.since_le.trans (Nat.le_add_right _ _)
  · rw [houtcome] at hnone
    cases hnone
  · rw [houtcome] at hsome
    cases hsome
    exact .inl ⟨e, hentries, h.task e.job htask, rfl⟩

theorem traced_new (htask : ∀ job, p.task = some job → call = some job)
    (houtcome : ∀ outcome, p.outcome = some outcome → ∃ text, outcome = .error text) :
    Traced log call log.length t p := by
  have hentries : entriesOf log log.length t = [] := by simp [entriesOf]
  exact ⟨htask, le_rfl, fun _ => hentries, fun outcome ho => .inr ⟨hentries, houtcome outcome ho⟩⟩

end

structure Sound (cfg : RegistryConfig) (start : View) (m : RegistrySystem) : Prop where
  agrees : Agrees cfg m.base
  free : m.mu = none → m.reg.view = m.base
  holder : ∀ t, (m.phase t).inside = true ↔ m.mu = some t
  fits : ∀ t, (m.phase t).Fits cfg m.base m.reg.view
  chained : Chained start m.log m.base
  settled : ∀ e ∈ m.log, Effect cfg e.job e.before e.after e.outcome
  seen : ∀ v ∈ m.seen, v = start ∨ ∃ e ∈ m.log, v = e.after
  traced : ∀ t, Traced m.log (m.calls t) (m.since t) t (m.phase t)

namespace Sound

variable {start : View} {m : RegistrySystem} {t : ℕ} {input : RegistryInput}
  {change : Change} {job : Job} {plan : Plan} {p q : RegistryPhase} {v : Variable}

theorem outcome_of_inside (h : p.inside = true) : p.outcome = none := by
  cases p with
  | releasing outcome drain => cases h
  | leaving outcome drain => cases h
  | draining outcome => cases h
  | done outcome => cases h
  | _ => rfl

section

variable (h : Sound cfg start m)
include h

theorem inner (hphase : m.phase t = q) (hin : q.inside = true) (reg : Registry)
    (hp : p.inside = true) (hfits : p.Fits cfg m.base reg.view) (htask : p.task = q.task) :
    Sound cfg start ({ m with reg := reg }.setPhase t p) := by
  have hmu : m.mu = some t := (h.holder t).1 (hphase ▸ hin)
  refine ⟨h.agrees, fun hfree => ?_, ?_, ?_, h.chained, h.settled, h.seen, ?_⟩
  · cases hmu.symm.trans hfree
  · exact forall_update (L := fun u (p : RegistryPhase) => p.inside = true ↔ m.mu = some u)
      ⟨fun _ => hmu, fun _ => hp⟩ fun u _ => h.holder u
  · refine forall_update (L := fun _ (p : RegistryPhase) => p.Fits cfg m.base reg.view) hfits
      fun u hu => ?_
    -- another caller has no lock
    refine (h.fits u).outside (eq_false_of_ne_true fun hinside => hu ?_)
    exact Option.mem_unique ((h.holder u).1 hinside) hmu
  · have ht := h.traced t
    rw [hphase] at ht
    refine forall_update (L := fun u p => Traced m.log (m.calls u) (m.since u) u p)
      (ht.move htask ?_)
      fun u _ => h.traced u
    rw [outcome_of_inside hp, outcome_of_inside hin]

theorem outer (hphase : m.phase t = q) (hout : q.inside = false) (reg : Registry)
    (hview : reg.view = m.reg.view) (updateMu gate : Option ℕ) (hp : p.inside = false)
    (hfits : p.Fits cfg m.base m.reg.view) (htask : p.task = q.task)
    (houtcome : p.outcome = q.outcome) :
    Sound cfg start ({ m with reg := reg, updateMu := updateMu, gate := gate }.setPhase t p) := by
  subst hphase
  refine ⟨h.agrees, fun hfree => hview.trans (h.free hfree), ?_, ?_, h.chained, h.settled, h.seen,
    ?_⟩
  · refine forall_update (L := fun u (p : RegistryPhase) => p.inside = true ↔ m.mu = some u) ?_
      fun u _ => h.holder u
    rw [hp, ← h.holder t, hout]
  · refine forall_update (L := fun _ (p : RegistryPhase) => p.Fits cfg m.base reg.view)
      (hview ▸ hfits) fun u _ => ?_
    rw [hview]
    exact h.fits u
  · exact forall_update (L := fun u p => Traced m.log (m.calls u) (m.since u) u p)
      ((h.traced t).move htask houtcome) fun u _ => h.traced u

theorem setCatalog (hcurrent : v.current = m.reg.catalog.current) :
    Sound cfg start (m.setCatalog v) := by
  have hview : (m.setCatalog v).reg.view = m.reg.view := by
    simp only [RegistrySystem.setCatalog, Registry.view, hcurrent]
  refine ⟨h.agrees, fun hfree => hview.trans (h.free hfree), h.holder, fun t => ?_, h.chained,
    h.settled, h.seen, h.traced⟩
  rw [hview]
  exact h.fits t

theorem lock (hphase : m.phase t = .gated job) (hmu : m.mu = none) :
    Sound cfg start ({ m with mu := some t }.setPhase t (.locked job)) := by
  have hvalid : job.Valid cfg := by
    have := h.fits t
    rwa [hphase] at this
  have hout : ∀ u, (m.phase u).inside = false := fun u =>
    eq_false_of_ne_true fun hu => by cases hmu.symm.trans ((h.holder u).1 hu)
  refine ⟨h.agrees, nofun, ?_, ?_, h.chained, h.settled, h.seen, ?_⟩
  · refine forall_update (L := fun u (p : RegistryPhase) => p.inside = true ↔ some t = some u)
      ⟨fun _ => rfl, fun _ => rfl⟩ fun u hu => ?_
    rw [hout u]
    exact ⟨nofun, fun ht => absurd (Option.some.inj ht).symm hu⟩
  · exact forall_update (L := fun _ (p : RegistryPhase) => p.Fits cfg m.base m.reg.view)
      ⟨hvalid, h.free hmu⟩
      fun u _ => h.fits u
  · have ht := h.traced t
    rw [hphase] at ht
    exact forall_update (L := fun u p => Traced m.log (m.calls u) (m.since u) u p) (ht.move rfl rfl)
      fun u _ => h.traced u

theorem unlock {outcome : Except String Unit} {drain : Bool}
    (hphase : m.phase t = .unlocking job outcome drain) :
    Sound cfg start (m.advance cfg t input (.unlocking job outcome drain)) := by
  have heffect : Effect cfg job m.base m.reg.view outcome := by
    have := h.fits t
    rwa [hphase] at this
  have hmu : m.mu = some t := (h.holder t).1 (by rw [hphase]; rfl)
  have hout : ∀ u, u ≠ t → (m.phase u).inside = false := fun u hu =>
    eq_false_of_ne_true fun hin => hu (Option.mem_unique ((h.holder u).1 hin) hmu)
  refine ⟨?_, fun _ => rfl, ?_, ?_, h.chained.concat rfl, ?_, fun v hv => ?_, ?_⟩
  · cases outcome with
    | error text =>
      show Agrees cfg m.reg.view
      rw [show m.reg.view = m.base from heffect]
      exact h.agrees
    | ok _ => exact heffect.1
  · refine forall_update (L := fun u (p : RegistryPhase) => p.inside = true ↔ none = some u)
      ⟨nofun, nofun⟩
      fun u hu => ?_
    rw [hout u hu]
    exact ⟨nofun, nofun⟩
  · exact forall_update (L := fun _ (p : RegistryPhase) => p.Fits cfg m.reg.view m.reg.view) trivial
      fun u hu => (h.fits u).outside (hout u hu)
  · intro e he
    rcases mem_append.1 he with he | he
    · exact h.settled e he
    · rw [mem_singleton.1 he]
      exact heffect
  · rcases h.seen v hv with hv | ⟨e, he, hv⟩
    · exact Or.inl hv
    · exact Or.inr ⟨e, mem_append_left _ he, hv⟩
  · have ht := h.traced t
    rw [hphase] at ht
    let e : RegistryEntry := ⟨t, job, outcome, m.base, m.reg.view⟩
    exact forall_update (L := fun u p => Traced (m.log ++ [e]) (m.calls u) (m.since u) u p)
      (Traced.leave (e := e) ht rfl rfl rfl rfl) fun u hu => (h.traced u).other hu

theorem rollback (hphase : m.phase t = q) (hin : q.inside = true) (htask : q.task = some job)
    (hdiffers : Differs cfg m.base m.reg.view job change) (text : String) :
    Sound cfg start (m.rollback t job change text) := by
  refine h.inner hphase hin { m.reg with resources := change.undo m.reg.resources } rfl
    ?_ htask.symm
  have hresources : m.reg.resources = change.apply m.base.resources :=
    congrArg View.resources hdiffers.view
  have hdescriptors : m.reg.catalogDescriptors = m.base.catalogDescriptors :=
    congrArg View.catalogDescriptors hdiffers.view
  have hrevision : m.reg.catalogRevision = m.base.catalogRevision :=
    congrArg View.catalogRevision hdiffers.view
  have hcurrent : m.reg.catalog.current = m.base.current := congrArg View.current hdiffers.view
  show View.mk (change.undo m.reg.resources) _ _ _ = m.base
  rw [hresources, hdiffers.ready.undo, hdescriptors, hrevision, hcurrent]

theorem retry (hphase : m.phase t = q) (hin : q.inside = true) (htask : q.task = some job)
    (hdiffers : Differs cfg m.base m.reg.view job change)
    (hplan : plan.For cfg m.base m.reg.view.resources) (text : String) :
    Sound cfg start (m.retry cfg t job change plan text) := by
  unfold RegistrySystem.retry
  cases hretry : plan.retry cfg text with
  | error text => exact h.rollback hphase hin htask hdiffers _
  | ok plan' =>
    exact h.inner hphase hin m.reg rfl
      ⟨hdiffers, Plan.For.overflow hplan.room hplan.revision hplan.members hretry⟩ htask.symm

end

theorem nextRevision_eq {base : View} {resources : ExtTreeMap String Member compare}
    (hplan : plan.For cfg base resources) (hrevision : v.revision = base.catalogRevision)
    {revision : UInt64} (h : Shared.nextRevision { var := v } 0 = .ok revision) :
    revision = plan.revision := by
  unfold Shared.nextRevision at h
  dsimp only at h
  rw [if_pos rfl] at h
  split_ifs at h
  cases h
  rw [hplan.revision, hrevision]

theorem effect_committed {base v : View} (hready : change.Ready cfg job base.resources)
    (hplan : plan.For cfg base v.resources)
    (hcarried : Carried cfg plan.revision plan.members v.current)
    (hresources : v.resources = change.apply base.resources) :
    Effect cfg job base ⟨v.resources, plan.members, plan.revision, v.current⟩ (.ok ()) := by
  refine ⟨⟨hresources ▸ hready.ok, hplan.members, hcarried⟩, ?_, hresources.trans hready.apply⟩
  show plan.revision.toNat = _
  have hlt : base.catalogRevision.toNat ≠ maxUint64.toNat :=
    fun heq => hplan.room (UInt64.toNat_inj.1 heq)
  have hbound := base.catalogRevision.toNat_lt
  have hmax : maxUint64.toNat = 18446744073709551615 := rfl
  rw [hplan.revision, UInt64.toNat_add]
  simp only [UInt64.reduceToNat]
  omega

theorem advance (h : Sound cfg start m) (t : ℕ) (input : RegistryInput) :
    Sound cfg start (m.advance cfg t input (m.phase t)) := by
  have hfits := h.fits t
  cases hphase : m.phase t with
  | idle => exact h
  -- three locks are taken in order; a phase that finds one held stays
  | enter job =>
    rw [hphase] at hfits
    unfold RegistrySystem.advance
    cases hmu : m.updateMu with
    | some _ => exact h
    | none => exact h.outer hphase rfl m.reg rfl (some t) m.gate rfl hfits rfl rfl
  | updating job =>
    rw [hphase] at hfits
    unfold RegistrySystem.advance
    cases hgate : m.gate with
    | some _ => exact h
    | none => exact h.outer hphase rfl m.reg rfl m.updateMu (some t) rfl hfits rfl rfl
  | gated job =>
    unfold RegistrySystem.advance
    cases hmu : m.mu with
    | some _ => exact h
    | none => exact h.lock hphase hmu
  -- the registered map is changed before the catalog, and undone where a later phase fails
  | locked job =>
    rw [hphase] at hfits
    obtain ⟨hvalid, hview⟩ := hfits
    have hresources : m.reg.resources = m.base.resources := congrArg View.resources hview
    unfold RegistrySystem.advance
    dsimp only
    cases hchange : job.change input.retired m.reg.resources with
    | error text => exact h.inner hphase rfl m.reg rfl hview rfl
    | ok change =>
      rw [hresources] at hchange
      refine h.inner hphase rfl { m.reg with resources := change.apply m.reg.resources } rfl
        ⟨Job.ready hvalid h.agrees.map hchange, ?_⟩ rfl
      show View.mk (change.apply m.reg.resources) _ _ _ = _
      rw [hresources, ← hview]
      rfl
  | changed job change =>
    rw [hphase] at hfits
    have hresources : m.reg.resources = change.apply m.base.resources :=
      congrArg View.resources hfits.view
    unfold RegistrySystem.advance
    dsimp only
    cases hplan : m.reg.plan cfg with
    | error text => exact h.rollback hphase rfl rfl hfits _
    | ok plan =>
      exact h.inner hphase rfl m.reg rfl ⟨hfits, plan_for (hresources ▸ hfits.ready.ok)
        (congrArg View.catalogRevision hfits.view) hplan⟩ rfl
  | reading job change plan =>
    rw [hphase] at hfits
    obtain ⟨hdiffers, hplan⟩ := hfits
    have hcurrent : m.reg.catalog.current = m.base.current := congrArg View.current hdiffers.view
    unfold RegistrySystem.advance
    dsimp only
    cases hnext : Shared.nextRevision { var := m.reg.catalog } 0 with
    | error text => exact h.retry hphase rfl rfl hdiffers hplan text
    | ok revision =>
      refine h.inner hphase rfl m.reg rfl ⟨hdiffers, hplan, nextRevision_eq hplan ?_ hnext⟩ rfl
      rw [Variable.revision, hcurrent]
      exact h.agrees.carried.1
  | checking job change plan revision =>
    rw [hphase] at hfits
    obtain ⟨hdiffers, hplan, rfl⟩ := hfits
    unfold RegistrySystem.advance
    dsimp only
    cases hroom : m.reg.catalog.canCommit cfg.catalog with
    | error text => exact h.retry hphase rfl rfl hdiffers hplan text
    | ok _ =>
      cases hprepare : cfg.catalog.prepare input.now plan.revision plan.state with
      | error text => exact h.retry hphase rfl rfl hdiffers hplan text
      | ok prepared =>
        exact h.inner hphase rfl m.reg rfl ⟨hdiffers, hplan, hplan.carried hprepare⟩ rfl
  | prepared job change plan prepared =>
    rw [hphase] at hfits
    obtain ⟨hdiffers, hplan, hcarried⟩ := hfits
    unfold RegistrySystem.advance
    dsimp only
    cases hcommit : m.reg.catalog.commit cfg.catalog input.order prepared with
    | error text => exact h.rollback hphase rfl rfl hdiffers text
    | ok result =>
      obtain ⟨drain, v⟩ := result
      have hcurrent : v.current = prepared := (commit_eq_ok hcommit).2.1
      refine h.inner hphase rfl { m.reg with catalog := v } rfl ⟨hdiffers.ready, hplan, ?_,
        congrArg View.resources hdiffers.view⟩ rfl
      show Carried cfg plan.revision plan.members v.current
      rw [hcurrent]
      exact hcarried
  -- map, revision and members agree again from here on
  | committed job change plan drain =>
    rw [hphase] at hfits
    obtain ⟨hready, hplan, hcarried, hresources⟩ := hfits
    exact h.inner hphase rfl
      { m.reg with catalogRevision := plan.revision, catalogDescriptors := plan.members } rfl
      (effect_committed hready hplan hcarried hresources) rfl
  | unlocking job outcome drain => exact h.unlock hphase
  | releasing outcome drain =>
    exact h.outer hphase rfl m.reg rfl m.updateMu none rfl trivial rfl rfl
  | leaving outcome drain =>
    unfold RegistrySystem.advance
    cases drain with
    | true =>
      exact h.outer hphase rfl m.reg rfl none m.gate rfl trivial rfl rfl
    | false =>
      exact h.outer hphase rfl m.reg rfl none m.gate rfl trivial rfl rfl
  | draining outcome =>
    have hstable := (stable_take cfg.catalog m.reg.catalog).current
    unfold RegistrySystem.advance
    dsimp only
    split
    case h_1 v htake =>
      rw [htake] at hstable
      have hset := h.setCatalog hstable
      exact hset.outer hphase rfl (m.setCatalog v).reg rfl m.updateMu m.gate rfl trivial rfl rfl
    case h_2 v htake =>
      rw [htake] at hstable
      exact h.setCatalog hstable
  | done outcome =>
    exact h.outer hphase rfl m.reg rfl m.updateMu m.gate rfl trivial rfl rfl

theorem call (h : Sound cfg start m) (t : ℕ) {job : Except String Job}
    (hvalid : ∀ j, job = .ok j → j.Valid cfg) : Sound cfg start (m.call t job) := by
  -- whatever the first phase of the call is, nothing has happened yet
  have hcalled : ∀ p : RegistryPhase, (m.phase t).inside = false → p.inside = false →
      (∀ base v, p.Fits cfg base v) → (∀ j, p.task = some j → job.toOption = some j) →
      (∀ outcome, p.outcome = some outcome → ∃ text, outcome = .error text) →
      Sound cfg start ({ m with
        calls := Function.update m.calls t job.toOption
        since := Function.update m.since t m.log.length }.setPhase t p) := by
    intro p hout hp hfits htask houtcome
    refine ⟨h.agrees, h.free, ?_, ?_, h.chained, h.settled, h.seen, fun u => ?_⟩
    · refine forall_update (L := fun u (p : RegistryPhase) => p.inside = true ↔ m.mu = some u) ?_
        fun u _ => h.holder u
      rw [hp, ← h.holder t, hout]
    · exact forall_update (L := fun _ (p : RegistryPhase) => p.Fits cfg m.base m.reg.view)
        (hfits m.base m.reg.view) fun u _ => h.fits u
    · simp only [RegistrySystem.setPhase]
      by_cases hu : u = t
      · rw [hu, Function.update_self, Function.update_self, Function.update_self]
        exact traced_new htask houtcome
      · rw [Function.update_of_ne hu, Function.update_of_ne hu, Function.update_of_ne hu]
        exact h.traced u
  have henter : (m.phase t).inside = false → ∀ j, job = .ok j → _ := fun hout j hj =>
    hcalled (.enter j) hout rfl (fun _ _ => hvalid j hj) (fun j' hj' => by rw [hj]; exact hj') nofun
  have hrefused : (m.phase t).inside = false → ∀ text, job = .error text → _ := fun hout text _ =>
    hcalled (.done (.error text)) hout rfl (fun _ _ => trivial) nofun
      fun outcome ho => ⟨text, (Option.some.inj ho).symm⟩
  unfold RegistrySystem.call
  cases hphase : m.phase t with
  | idle =>
    have hout : (m.phase t).inside = false := by rw [hphase]; rfl
    cases job with
    | error text => exact hrefused hout text rfl
    | ok j => exact henter hout j rfl
  | done outcome =>
    have hout : (m.phase t).inside = false := by rw [hphase]; rfl
    cases job with
    | error text => exact hrefused hout text rfl
    | ok j => exact henter hout j rfl
  | _ => exact h

theorem watch_current {v' : Variable} {vcfg : VariableConfig} {id : ℕ} {update : VariableUpdate}
    (h : v.watch vcfg = .ok (id, update, v')) : v'.current = v.current := by
  unfold Variable.watch at h
  split_ifs at h
  cases h
  rfl

theorem read (h : Sound cfg start m) (hmu : m.mu = none) :
    Sound cfg start { m with seen := m.seen ++ [m.reg.view] } := by
  refine { h with seen := fun v hv => ?_ }
  rcases mem_append.1 hv with hv | hv
  · exact h.seen v hv
  · rw [mem_singleton.1 hv, h.free hmu]
    exact h.chained.last

theorem step (h : Sound cfg start m) (a : RegistryAct) : Sound cfg start (m.step cfg a) := by
  cases a with
  | register t values => exact h.call t fun j hj => valid_registerBatch hj
  | remove t id => exact h.call t fun j hj => valid_remove hj
  | advance t input => exact h.advance t input
  | read =>
    unfold RegistrySystem.step
    dsimp only
    split
    case h_1 hmu => exact h.read hmu
    case h_2 => exact h
  | watch =>
    unfold RegistrySystem.step
    cases hwatch : m.reg.catalog.watch cfg.catalog with
    | error text => exact h
    | ok result =>
      obtain ⟨id, update, v⟩ := result
      exact h.setCatalog (watch_current hwatch)
  | cancel watcher => exact h.setCatalog rfl
  | detach watcher => exact h.setCatalog rfl

end Sound

theorem sound_run (h : newRegistry cfg now = .ok r) (as : List RegistryAct) :
    Sound cfg r.view (RegistrySystem.run cfg r as) := by
  refine foldl_invariant (fun m a hm => hm.step a) ?_ as
  refine ⟨agrees_newRegistry h, fun _ => rfl, fun t => ⟨nofun, nofun⟩, fun t => trivial, rfl,
    fun e he => ?_, fun v hv => ?_, fun t => ⟨nofun, le_rfl, fun _ => rfl, nofun⟩⟩
  · cases he
  · cases hv

/-- **The registry and its catalog agree.**  Whenever the lock of the registry is free, the
catalog lists exactly the resources of the map and the Variable carries that list.  The registry
changes only from one call to the next: a failed call leaves it as it was, and a successful one
does its whole job and raises the revision by one; readers see nothing in between. -/
theorem registry_agrees (cfg : RegistryConfig) (now : ℤ) (r : Registry)
    (h : newRegistry cfg now = .ok r) (as : List RegistryAct) :
    let m := RegistrySystem.run cfg r as
    (m.mu = none → Agrees cfg m.reg.view) ∧
      (∃ last, Chained r.view m.log last ∧ (m.mu = none → m.reg.view = last)) ∧
      (∀ e ∈ m.log, Effect cfg e.job e.before e.after e.outcome) ∧
      (∀ t outcome, (m.phase t).outcome = some outcome →
        Returned m.log (m.calls t) (m.since t) t outcome) ∧
      ∀ v ∈ m.seen, v = r.view ∨ ∃ e ∈ m.log, v = e.after := by
  have hsound := sound_run h as
  refine ⟨fun hfree => ?_, ⟨_, hsound.chained, hsound.free⟩, hsound.settled,
    fun t => (hsound.traced t).returned, hsound.seen⟩
  rw [hsound.free hfree]
  exact hsound.agrees

/-- A variable, and the two catalogs of a registry that gets it. -/
def plainMember : Member := { tag := 1, descriptor := variableDescriptor ⟨7, "x"⟩ "read" 10 }

def plainCatalogs : List ResourceCatalogV2 :=
  [⟨schemaVersionV2, 1, [catalogDescriptor 7]⟩,
    ⟨schemaVersionV2, 2, [catalogDescriptor 7, plainMember.descriptor.sort]⟩]

/-- A registry that encodes these catalogs, each by its place. -/
def plainConfig : RegistryConfig where
  owner := 7
  os := { isLetterOrDigit := Char.isAlphanum, marshalError := fun _ => [], isControlOrSpace :=
    fun _ => false }
  catalog :=
    { instanceID := "00", definitionJSON := [], maxPayloadBytes := 100, maxQueue := 4,
      maxSubscribers := 4, payloadLimit := 100, handler := false,
      validateVariableState := fun _ => .ok (), marshal := fun _ => .ok [], decode :=
        fun _ => .ok () }
  encodeVariablePayload catalog :=
    if catalog ∈ plainCatalogs then .ok [UInt8.ofNat (plainCatalogs.idxOf catalog)]
    else .error errPayloadTooLarge
  decodeVariablePayload payload :=
    match payload.head?.bind fun b => plainCatalogs[b.toNat]? with
    | some catalog => .ok catalog
    | none => .error "invalid protocol payload"
  decode_encode := by
    intro catalog payload h
    split_ifs at h with hmem
    cases h
    rcases mem_cons.1 hmem with rfl | hmem
    · rfl
    · rw [mem_singleton.1 hmem]
      decide +kernel

def registerRun : List RegistryAct :=
  .register 1 [some plainMember] :: List.replicate 11 (.advance 1 {}) ++ [.read]

theorem registry_agrees_plain : ∃ r, newRegistry plainConfig 0 = .ok r ∧
    let m := RegistrySystem.run plainConfig r registerRun
    m.mu = none ∧ m.log.map (fun e => (e.caller, e.outcome.toBool)) = [(1, true)] ∧
      m.reg.catalogDescriptors.map (fun d => d.id.name) = [builtinResourceCatalog, "x"] ∧
      m.seen.length = 1 ∧ Agrees plainConfig m.reg.view := by
  have hrun : (newRegistry plainConfig 0).toOption.map (fun r =>
      let m := RegistrySystem.run plainConfig r registerRun
      (m.mu, m.log.map fun e => (e.caller, e.outcome.toBool),
        m.reg.catalogDescriptors.map fun d => d.id.name, m.seen.length)) =
      some (none, [(1, true)], [builtinResourceCatalog, "x"], 1) := by decide +kernel
  cases hr : newRegistry plainConfig 0 with
  | error text =>
    rw [hr] at hrun
    cases hrun
  | ok r =>
    rw [hr] at hrun
    simp only [Except.toOption, Option.map_some, Option.some.injEq, Prod.mk.injEq] at hrun
    obtain ⟨hmu, hlog, hnames, hseen⟩ := hrun
    exact ⟨r, rfl, hmu, hlog, hnames, hseen, (registry_agrees plainConfig 0 r hr registerRun).1 hmu⟩

end Resource
