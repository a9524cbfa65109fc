/-
What holds of a policy state, whatever was loaded and whatever was called.

The tables are sound: grants are in normal form, records are filed under their own
identifiers and pass their checks, every binding refers to a definition that is there,
and the definition of the super administrator is the built-in one.  The index lists,
for each subject, the bindings of that subject.

* `PolicyTables.Sound` and `sound_plan` — every mutator keeps the tables sound;
* `mem_rebuildBindingIndex` — what the index lists;
* `sound_readRecord` — what is loaded is sound.
-/
import MyFlowHub.PolicyStore

open Checks
open Std Tables List

namespace Auth

open PolicyStore

variable {os : Text}

/-! ### Sound tables -/

variable (os) in
structure PolicyTables.Sound (t : PolicyTables) : Prop where
  normal : ∀ grant ∈ t.grants, normalizeRequest os grant = .ok grant
  nodup : t.grants.Nodup
  grants_le : t.grants.length ≤ maxItems
  definitions : ∀ (id : String) (d : PolicyDefinitionV1), t.definitions[id]? = some d →
    d.id = id ∧ d.validate os = .ok ()
  definitions_le : t.definitions.size ≤ maxItems
  superadmin : (t.definitions[builtinPolicySuperadmin]?.any fun d =>
    sameDefinition d builtinSuperadminDefinition) = true
  bindings : ∀ (id : String) (b : PolicyBindingV1), t.bindings[id]? = some b →
    b.bindingID = id ∧ b.validate os = .ok () ∧ t.definitions.contains b.definitionID = true
  bindings_le : t.bindings.size ≤ maxItems

variable {t : PolicyTables}

theorem PolicyTables.Sound.immutable (h : t.Sound os) :
    ∃ d, t.definitions[builtinPolicySuperadmin]? = some d ∧ d.immutable = true := by
  have hsame := h.superadmin
  cases hd : t.definitions[builtinPolicySuperadmin]? with
  | none =>
    rw [hd] at hsame
    cases hsame
  | some d =>
    rw [hd] at hsame
    refine ⟨d, rfl, ?_⟩
    simp only [Option.any_some, sameDefinition, Bool.and_eq_true, decide_eq_true_eq] at hsame
    obtain ⟨⟨⟨-, himmutable⟩, -⟩, -⟩ := hsame
    exact himmutable

theorem contains_insert_of_contains {K V : Type} [Ord K] [TransOrd K] [LawfulEqOrd K]
    {t : ExtTreeMap K V compare} {k a : K} {v : V} (h : t.contains a = true) :
    (t.insert k v).contains a = true := by
  rw [ExtTreeMap.contains_insert, h, Bool.or_true]

/-! ### Mutators -/

section Plans

variable {p : PolicyStore} {env : PolicyEnv} {next : PolicyTables} {reply : PolicyReply}

theorem sound_grant {request : Request} (h : p.tables.Sound os)
    (hplan : p.grant os request = .ok ⟨some next, reply⟩) : next.Sound os := by
  simp only [grant, bind_eq_ok] at hplan
  obtain ⟨normal, hnormal, hplan⟩ := hplan
  by_cases hmem : normal ∈ p.grants
  · rw [if_pos hmem] at hplan
    cases hplan
  · rw [if_neg hmem] at hplan
    simp only [bind_eq_ok, require_eq_ok] at hplan
    obtain ⟨u, hlen, hplan⟩ := hplan
    cases hplan
    refine ⟨fun grant hgrant => ?_, ?_, ?_, h.definitions, h.definitions_le, h.superadmin,
      h.bindings, h.bindings_le⟩
    · rcases mem_append.mp hgrant with hold | hnew
      · exact h.normal grant hold
      · rw [mem_singleton.mp hnew]
        exact normalizeRequest_idem hnormal
    · refine h.nodup.append (nodup_singleton normal) fun grant hold hnew => ?_
      rw [mem_singleton.mp hnew] at hold
      exact hmem hold
    · show (p.grants ++ [normal]).length ≤ maxItems
      rw [length_append, length_singleton]
      omega

theorem PolicyTables.Sound.filterGrants (h : t.Sound os) (f : Request → Bool) :
    PolicyTables.Sound os { t with grants := t.grants.filter f } :=
  ⟨fun grant hgrant => h.normal grant (mem_of_mem_filter hgrant), h.nodup.filter f,
    (length_filter_le f t.grants).trans h.grants_le, h.definitions, h.definitions_le,
    h.superadmin, h.bindings, h.bindings_le⟩

theorem PolicyTables.Sound.withBindings (h : t.Sound os) {bindings : Bindings}
    (hsub : ∀ (id : String) (b : PolicyBindingV1), bindings[id]? = some b →
      t.bindings[id]? = some b)
    (hsize : bindings.size ≤ t.bindings.size) :
    PolicyTables.Sound os { t with bindings := bindings } :=
  { h with
      bindings := fun id b hb => h.bindings id b (hsub id b hb)
      bindings_le := hsize.trans h.bindings_le }

theorem PolicyTables.Sound.filterBindings (h : t.Sound os)
    (f : String → PolicyBindingV1 → Bool) :
    PolicyTables.Sound os { t with bindings := t.bindings.filter f } :=
  h.withBindings (fun _ _ hb => (lookup_filter.mp hb).1) ExtTreeMap.size_filter_le_size

theorem sound_revoke {request : Request} (h : p.tables.Sound os)
    (hplan : p.revoke os request = .ok ⟨some next, reply⟩) : next.Sound os := by
  simp only [revoke, bind_eq_ok] at hplan
  obtain ⟨normal, -, hplan⟩ := hplan
  by_cases hmem : normal ∉ p.grants
  · rw [if_pos hmem] at hplan
    cases hplan
  · rw [if_neg hmem] at hplan
    cases hplan
    exact h.filterGrants _

theorem sound_revokeSubject {subject : NodeID} (h : p.tables.Sound os)
    (hplan : p.revokeSubject subject = .ok ⟨some next, reply⟩) : next.Sound os := by
  simp only [revokeSubject, bind_eq_ok] at hplan
  obtain ⟨-, -, hplan⟩ := hplan
  split at hplan
  · cases hplan
  · cases hplan
    exact (h.filterGrants _).filterBindings _

theorem checkPut_eq_ok {request : PolicyDefinitionPutV1} {existing : Option PolicyDefinitionV1}
    (h : p.checkPut request existing = .ok ()) :
    (existing = none → p.definitions.size < maxItems) ∧
      ∀ d, existing = some d → d.immutable = false := by
  cases existing with
  | none =>
    refine ⟨fun _ => ?_, fun d hd => (by cases hd)⟩
    simp only [checkPut] at h
    split at h
    · exact require_eq_ok.mp h
    · cases h
  | some d =>
    refine ⟨fun hnone => (by cases hnone), fun d' hd' => ?_⟩
    cases hd'
    simp only [checkPut, bind_eq_ok, require_eq_ok] at h
    obtain ⟨-, -, -, himmutable, -⟩ := h
    exact himmutable

theorem sound_putDefinition {request : PolicyDefinitionPutV1} (h : p.tables.Sound os)
    (hplan : p.putDefinition os request = .ok ⟨some next, reply⟩) : next.Sound os := by
  simp only [putDefinition, bind_eq_ok] at hplan
  obtain ⟨-, -, u, hcheck, u', hvalid, hplan⟩ := hplan
  cases hplan
  obtain ⟨hsize, himmutable⟩ := checkPut_eq_ok hcheck
  -- the definition written is not the super administrator's, which is immutable
  have hother : builtinPolicySuperadmin ≠ request.id := by
    intro heq
    obtain ⟨d, hd, htrue⟩ := h.immutable
    rw [heq] at hd
    rw [himmutable d hd] at htrue
    cases htrue
  refine ⟨h.normal, h.nodup, h.grants_le, ?_, ?_, ?_, fun id b hb => ?_, h.bindings_le⟩
  · intro id d hd
    rcases lookup_insert_eq_some.mp hd with ⟨hne, rfl⟩ | ⟨-, hd⟩
    · exact ⟨hne.symm, hvalid⟩
    · exact h.definitions id d hd
  · show (p.definitions.insert request.id _).size ≤ maxItems
    rw [ExtTreeMap.size_insert]
    by_cases hcontains : p.definitions.contains request.id = true
    · rw [if_pos hcontains]
      exact h.definitions_le
    · rw [if_neg hcontains]
      exact hsize (contains_eq_false_iff.mp (Bool.not_eq_true _ ▸ hcontains))
  · rw [lookup_insert_of_ne _ _ hother]
    exact h.superadmin
  · obtain ⟨hid, hb', hcontains⟩ := h.bindings id b hb
    exact ⟨hid, hb', contains_insert_of_contains hcontains⟩

theorem not_referenced {order : MapOrder String} {id : String}
    (h : p.referencing order id = none) {bindingID : String} {b : PolicyBindingV1}
    (hb : p.bindings[bindingID]? = some b) : b.definitionID ≠ id := by
  intro heq
  have hmem : bindingID ∈ order.arrange p.bindings.keys := by
    rw [(order.perm _).mem_iff, ExtTreeMap.mem_keys, ← ExtTreeMap.contains_iff_mem,
      ExtTreeMap.contains_eq_isSome_getElem?, hb]
    rfl
  have hnone := List.findSome?_eq_none_iff.mp h bindingID hmem
  rw [hb] at hnone
  simp [heq] at hnone

variable (h : p.tables.Sound os)
include h

theorem sound_deleteDefinition {request : PolicyDefinitionDeleteV1}
    (hplan : p.deleteDefinition os env request = .ok ⟨some next, reply⟩) : next.Sound os := by
  simp only [deleteDefinition, bind_eq_ok] at hplan
  obtain ⟨-, -, hplan⟩ := hplan
  cases hexisting : p.definitions[request.id]? with
  | none =>
    rw [hexisting] at hplan
    cases hplan
  | some existing =>
    rw [hexisting] at hplan
    simp only [bind_eq_ok, require_eq_ok] at hplan
    obtain ⟨-, himmutable, -, -, hplan⟩ := hplan
    cases href : p.referencing env.order request.id with
    | some b =>
      rw [href] at hplan
      cases hplan
    | none =>
      rw [href] at hplan
      cases hplan
      have hother : builtinPolicySuperadmin ≠ request.id := by
        intro heq
        obtain ⟨d, hd, htrue⟩ := h.immutable
        rw [heq] at hd
        rw [show p.tables.definitions[request.id]? = some existing from hexisting] at hd
        cases hd
        rw [himmutable] at htrue
        cases htrue
      refine ⟨h.normal, h.nodup, h.grants_le, ?_, ?_, ?_, fun id b hb => ?_, h.bindings_le⟩
      · intro id d hd
        by_cases hne : id = request.id
        · rw [hne, lookup_erase_self] at hd
          cases hd
        · rw [lookup_erase_of_ne _ hne] at hd
          exact h.definitions id d hd
      · exact ExtTreeMap.size_erase_le.trans h.definitions_le
      · rw [lookup_erase_of_ne _ hother]
        exact h.superadmin
      · obtain ⟨hid, hb', hcontains⟩ := h.bindings id b hb
        refine ⟨hid, hb', ?_⟩
        rw [ExtTreeMap.contains_eq_isSome_getElem?, lookup_erase_of_ne _ (not_referenced href hb),
          ← ExtTreeMap.contains_eq_isSome_getElem?]
        exact hcontains

theorem sound_createBinding {request : PolicyBindingCreateV1} {actor : NodeID}
    (hplan : p.createBinding os env request actor = .ok ⟨some next, reply⟩) : next.Sound os := by
  simp only [createBinding, bind_eq_ok, require_eq_ok] at hplan
  obtain ⟨-, -, -, -, u, hdefinition, hplan⟩ := hplan
  cases hexisting : p.bindings[request.bindingID]? with
  | some existing =>
    rw [hexisting] at hplan
    simp only [bind_eq_ok] at hplan
    obtain ⟨-, -, hplan⟩ := hplan
    cases hplan
  | none =>
    rw [hexisting] at hplan
    simp only [bind_eq_ok, require_eq_ok] at hplan
    obtain ⟨u₁, hsize, -, -, u₂, hvalid, hplan⟩ := hplan
    cases hplan
    refine { h with bindings := fun id b hb => ?_, bindings_le := ?_ }
    · rcases lookup_insert_eq_some.mp hb with ⟨hne, rfl⟩ | ⟨-, hb⟩
      · exact ⟨hne.symm, hvalid, hdefinition⟩
      · exact h.bindings id b hb
    · show (p.bindings.insert request.bindingID _).size ≤ maxItems
      exact ExtTreeMap.size_insert_le.trans hsize

theorem sound_revokeBinding {bindingID : String}
    (hplan : p.revokeBinding bindingID = .ok ⟨some next, reply⟩) : next.Sound os := by
  simp only [revokeBinding, bind_eq_ok] at hplan
  obtain ⟨-, -, hplan⟩ := hplan
  split at hplan
  · cases hplan
  · cases hplan
    refine h.withBindings (fun id b hb => ?_) ExtTreeMap.size_erase_le
    by_cases hne : id = bindingID
    · rw [hne, lookup_erase_self] at hb
      cases hb
    · rwa [lookup_erase_of_ne _ hne] at hb

theorem sound_expireBindings (hplan : p.expireBindings env = .ok ⟨some next, reply⟩) :
    next.Sound os := by
  unfold expireBindings at hplan
  split at hplan
  · cases hplan
  · split at hplan
    · cases hplan
    · cases hplan
      exact h.filterBindings _

/-- **Every mutator keeps the tables sound.** -/
theorem sound_plan {call : PolicyCall} (hplan : p.plan os env call = .ok ⟨some next, reply⟩) :
    next.Sound os := by
  cases call with
  | grant request => exact sound_grant h hplan
  | revoke request => exact sound_revoke h hplan
  | revokeSubject subject => exact sound_revokeSubject h hplan
  | putDefinition request => exact sound_putDefinition h hplan
  | deleteDefinition request => exact sound_deleteDefinition h hplan
  | createBinding request actor => exact sound_createBinding h hplan
  | revokeBinding bindingID => exact sound_revokeBinding h hplan
  | expireBindings => exact sound_expireBindings h hplan

end Plans

/-! ### The index -/

theorem mem_foldl_indexBinding {entries : List (String × PolicyBindingV1)}
    {index : ExtTreeMap NodeID (List String) compare} {subject : NodeID} {id : String} :
    id ∈ ((entries.foldl indexBinding index)[subject]?).getD [] ↔
      id ∈ (index[subject]?).getD [] ∨ ∃ b, (id, b) ∈ entries ∧ b.node = subject := by
  induction entries generalizing index with
  | nil => simp
  | cons entry entries ih =>
    rw [foldl_cons, ih]
    by_cases hsubject : subject = entry.2.node
    · -- the entry is appended to the list of this subject
      rw [hsubject, indexBinding, lookup_insert_self, Option.getD_some, mem_append, mem_singleton]
      constructor
      · rintro ((hold | rfl) | ⟨b, hb, hnode⟩)
        · exact .inl hold
        · exact .inr ⟨entry.2, mem_cons_self, rfl⟩
        · exact .inr ⟨b, mem_cons_of_mem _ hb, hnode⟩
      · rintro (hold | ⟨b, hb, hnode⟩)
        · exact .inl (.inl hold)
        · rcases mem_cons.mp hb with heq | hb
          · exact .inl (.inr (congrArg Prod.fst heq))
          · exact .inr ⟨b, hb, hnode⟩
    · rw [indexBinding, lookup_insert_of_ne _ _ hsubject]
      constructor
      · rintro (hold | ⟨b, hb, hnode⟩)
        · exact .inl hold
        · exact .inr ⟨b, mem_cons_of_mem _ hb, hnode⟩
      · rintro (hold | ⟨b, hb, hnode⟩)
        · exact .inl hold
        · rcases mem_cons.mp hb with heq | hb
          · rw [← heq] at hsubject
            exact absurd hnode.symm hsubject
          · exact .inr ⟨b, hb, hnode⟩

/-- **The index lists the bindings of the subject.** -/
theorem mem_rebuildBindingIndex {bindings : Bindings} {subject : NodeID} {id : String} :
    id ∈ ((rebuildBindingIndex bindings)[subject]?).getD [] ↔
      ∃ b, bindings[id]? = some b ∧ b.node = subject := by
  have hsort : id ∈ ((rebuildBindingIndex bindings)[subject]?).getD [] ↔
      id ∈ ((bindings.toList.foldl indexBinding ∅)[subject]?).getD [] := by
    rw [rebuildBindingIndex, ExtTreeMap.getElem?_map]
    cases (bindings.toList.foldl indexBinding ∅)[subject]? with
    | none => rfl
    | some ids => exact mem_mergeSort
  rw [hsort, mem_foldl_indexBinding]
  simp [ExtTreeMap.mem_toList_iff_getElem?_eq_some]

/-! ### Loading -/

structure Record.Fits (r : Record) : Prop where
  positive : r.generation ≠ 0
  generation_le : r.generation ≤ maxCollectionRevision
  grants_le : r.grants.length ≤ maxItems
  definitions_le : r.definitions.length ≤ maxItems
  bindings_le : r.bindings.length ≤ maxItems

theorem checkHeader_eq_ok {r : Record} : checkHeader r = .ok () ↔ r.Fits := by
  simp only [checkHeader, bind_eq_ok, require_eq_ok]
  constructor
  · rintro ⟨-, hpositive, -, hle, hitems⟩
    exact ⟨hpositive, hle, by omega, by omega, by omega⟩
  · intro h
    have hgrants := h.grants_le
    have hdefinitions := h.definitions_le
    have hbindings := h.bindings_le
    exact ⟨(), h.positive, (), h.generation_le, by omega⟩

theorem grants_of_foldlM {items grants : List Request}
    (h : items.foldlM (addGrant os) [] = .ok grants) :
    (∀ grant ∈ grants, normalizeRequest os grant = .ok grant) ∧ grants.Nodup ∧
      grants.length ≤ items.length := by
  have hinv := Runs.foldlM_invariant (I := fun n grants =>
      (∀ grant ∈ grants, normalizeRequest os grant = .ok grant) ∧ grants.Nodup ∧
        grants.length ≤ n) (n := 0) ?_ ⟨fun grant hg => absurd hg not_mem_nil,
      nodup_nil, Nat.le_refl _⟩ h
  · simpa using hinv
  · rintro n grants grant grants' ⟨hnormal, hnodup, hlen⟩ hadd
    simp only [addGrant, bind_eq_ok, require_eq_ok] at hadd
    obtain ⟨normal, hnorm, u, hnew, hadd⟩ := hadd
    cases hadd
    refine ⟨fun g hg => ?_, ?_, ?_⟩
    · rcases mem_append.mp hg with hold | hg
      · exact hnormal g hold
      · rw [mem_singleton.mp hg]
        exact normalizeRequest_idem (within_eq_ok.mp hnorm)
    · refine hnodup.append (nodup_singleton normal) fun g hold hg => ?_
      rw [mem_singleton.mp hg] at hold
      exact hnew hold
    · rw [length_append, length_singleton]
      omega

theorem definitions_of_foldlM {items : List PolicyDefinitionV1} {definitions : Definitions}
    (h : items.foldlM (addDefinition os) ∅ = .ok definitions) :
    (∀ (id : String) (d : PolicyDefinitionV1), definitions[id]? = some d →
      d.id = id ∧ d.validate os = .ok ()) ∧ definitions.size ≤ items.length := by
  have hinv := Runs.foldlM_invariant (I := fun n (definitions : Definitions) =>
      (∀ (id : String) (d : PolicyDefinitionV1), definitions[id]? = some d →
        d.id = id ∧ d.validate os = .ok ()) ∧ definitions.size ≤ n) (n := 0) ?_
    ⟨fun id d hd => by simp at hd, by simp⟩ h
  · simpa using hinv
  · rintro n definitions definition definitions' ⟨hvalid, hsize⟩ hadd
    simp only [addDefinition, bind_eq_ok, require_eq_ok] at hadd
    obtain ⟨u, hcheck, -, -, hadd⟩ := hadd
    cases hadd
    refine ⟨fun id d hd => ?_, ExtTreeMap.size_insert_le.trans (by omega)⟩
    rcases lookup_insert_eq_some.mp hd with ⟨hne, rfl⟩ | ⟨-, hd⟩
    · exact ⟨hne.symm, within_eq_ok.mp hcheck⟩
    · exact hvalid id d hd

theorem bindings_of_foldlM {now : ℤ} {definitions : Definitions} {items : List PolicyBindingV1}
    {found : Bindings × Bool}
    (h : items.foldlM (addBinding os now definitions) (∅, false) = .ok found) :
    (∀ (id : String) (b : PolicyBindingV1), found.1[id]? = some b →
      b.bindingID = id ∧ b.validate os = .ok () ∧ definitions.contains b.definitionID = true) ∧
      found.1.size ≤ items.length := by
  have hinv := Runs.foldlM_invariant (I := fun n (found : Bindings × Bool) =>
      (∀ (id : String) (b : PolicyBindingV1), found.1[id]? = some b →
        b.bindingID = id ∧ b.validate os = .ok () ∧ definitions.contains b.definitionID = true) ∧
        found.1.size ≤ n) (n := 0) ?_ ⟨fun id b hb => by simp at hb, by simp⟩ h
  · simpa using hinv
  · rintro n found binding found' ⟨hvalid, hsize⟩ hadd
    simp only [addBinding, bind_eq_ok, require_eq_ok] at hadd
    obtain ⟨u₁, hcheck, u₂, hdefinition, -, -, hadd⟩ := hadd
    split at hadd
    · cases hadd
      exact ⟨hvalid, Nat.le_succ_of_le hsize⟩
    · cases hadd
      refine ⟨fun id b hb => ?_, ExtTreeMap.size_insert_le.trans (by omega)⟩
      rcases lookup_insert_eq_some.mp hb with ⟨hne, rfl⟩ | ⟨-, hb⟩
      · exact ⟨hne.symm, within_eq_ok.mp hcheck, hdefinition⟩
      · exact hvalid id b hb

structure PolicyStore.Sound (os : Text) (p : PolicyStore) : Prop where
  tables : p.tables.Sound os
  index : p.bySubject = rebuildBindingIndex p.bindings
  positive : p.generation ≠ 0
  generation_le : p.generation ≤ maxCollectionRevision

theorem generation_succ {g : UInt64} (h : g < maxCollectionRevision) :
    (g + 1).toNat = g.toNat + 1 ∧ g + 1 ≠ 0 ∧ g + 1 ≤ maxCollectionRevision := by
  have hnat : g.toNat < maxCollectionRevision.toNat := UInt64.lt_iff_toNat_lt.mp h
  have hmax : maxCollectionRevision.toNat = 9007199254740991 := by decide
  have hsucc : (g + 1).toNat = g.toNat + 1 := by
    rw [UInt64.toNat_add]
    show (g.toNat + 1) % 2 ^ 64 = _
    exact Nat.mod_eq_of_lt (by omega)
  refine ⟨hsucc, fun hzero => ?_, UInt64.le_iff_toNat_le.mpr (by omega)⟩
  rw [hzero] at hsucc
  cases hsucc

theorem migrate_fits {r r' : Record} {migrated : Bool} (h : r.Fits)
    (hmigrate : migrate r = .ok (r', migrated)) : r'.Fits ∧ r'.version = policyStateVersion := by
  unfold migrate at hmigrate
  split at hmigrate
  · split at hmigrate
    · cases hmigrate
    · next hlt =>
      cases hmigrate
      obtain ⟨-, hne, hle⟩ := generation_succ (UInt64.not_le.mp hlt)
      exact ⟨⟨hne, hle, h.grants_le, (show 1 ≤ maxItems by decide), Nat.zero_le _⟩, rfl⟩
  · split at hmigrate
    · next hversion =>
      cases hmigrate
      exact ⟨h, hversion⟩
    · cases hmigrate

/-- **What is read from a record is sound.** -/
theorem sound_readRecord {r : Record} {migrated dirty : Bool} {now : ℤ} {p : PolicyStore}
    (hfits : r.Fits) (h : readRecord os r migrated now = .ok (p, dirty)) : p.Sound os := by
  simp only [readRecord, bind_eq_ok, require_eq_ok] at h
  obtain ⟨grants, hgrants, definitions, hdefinitions, u₁, hsuperadmin,
    ⟨bindings, pruned⟩, hbindings,
    u₂, hpruned, h⟩ := h
  cases h
  obtain ⟨hnormal, hnodup, hlen⟩ := grants_of_foldlM hgrants
  obtain ⟨hvalid, hsize⟩ := definitions_of_foldlM hdefinitions
  obtain ⟨hbound, hcount⟩ := bindings_of_foldlM hbindings
  have htables : PolicyTables.Sound os ⟨grants, definitions, bindings⟩ :=
    ⟨hnormal, hnodup, hlen.trans hfits.grants_le, hvalid, hsize.trans hfits.definitions_le,
      hsuperadmin, hbound, hcount.trans hfits.bindings_le⟩
  cases pruned with
  | false => exact ⟨htables, rfl, hfits.positive, hfits.generation_le⟩
  | true =>
    have hlt : r.generation < maxCollectionRevision :=
      UInt64.not_le.mp fun hle => hpruned ⟨rfl, hle⟩
    obtain ⟨-, hne, hle⟩ := generation_succ hlt
    exact ⟨htables, rfl, hne, hle⟩

end Auth
