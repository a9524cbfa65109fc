/-
The decisions of a policy state follow its rules.

A request is allowed when it is one of the exact grants, or when a binding of its
subject that has not expired, in whose scope the owner of the resource is, refers to a
definition with a rule for the resource and the capability.  The code goes through the
index of bindings and a binary search; both are right because of what holds of every
state that is reached.

* `matchPolicyRule_iff` — the match of one rule;
* `evaluateBindings_spec` — the loop over the bindings;
* **`evaluate_follows_rules`** — the decision in every state reached.
-/
import MyFlowHub.PolicyRuns

open Checks Protocol
open Std Tables List
open Encoding (parseUint formatUint)

namespace Auth

variable {os : Text}

/-! ### One rule -/

def PolicyResourceSelectorV1.Selects (s : PolicyResourceSelectorV1) (name : String) : Prop :=
  s.kind = .all ∨ s.kind = .exact ∧ name = s.value ∨
    s.kind = .prefixed ∧ (name = s.value ∨ ∃ rest, name = s.value ++ "/" ++ rest)

/-- The capabilities a selector is for. -/
def PolicyCapabilitySelectorV1.Selects (s : PolicyCapabilitySelectorV1)
    (capability : CapabilityID) :
    Prop :=
  s.kind = .all ∨ capability ∈ s.values

theorem matches_iff {s : PolicyResourceSelectorV1} {name : String} :
    s.matches name = true ↔ s.Selects name := by
  unfold PolicyResourceSelectorV1.matches PolicyResourceSelectorV1.Selects
  cases s.kind with
  | all => simp
  | exact => simp
  | prefixed =>
    have hsegment : (s.value ++ "/").toList.isPrefixOf name.toList = true ↔
        ∃ rest, name = s.value ++ "/" ++ rest := by
      rw [List.isPrefixOf_iff_prefix]
      constructor
      · rintro ⟨rest, hrest⟩
        refine ⟨String.ofList rest, String.toList_injective ?_⟩
        rw [String.toList_append, String.toList_ofList, hrest]
      · rintro ⟨rest, rfl⟩
        exact ⟨rest.toList, (String.toList_append ..).symm⟩
    simp only [Bool.or_eq_true, decide_eq_true_eq, hsegment]
    simp
  | other text => simp

/-- **The match of a rule** whose capabilities are sorted. -/
theorem matchPolicyRule_iff {rule : PolicyRuleV1} {name : String} {capability : CapabilityID}
    (hsorted : rule.capability.values.Pairwise (· < ·)) :
    matchPolicyRule rule name capability = true ↔
      rule.resource.Selects name ∧ rule.capability.Selects capability := by
  unfold matchPolicyRule PolicyCapabilitySelectorV1.Selects
  rw [← matches_iff]
  cases hmatches : rule.resource.matches name with
  | false => simp
  | true =>
    by_cases hall : rule.capability.kind = .all
    · simp [hall]
    · -- the binary search finds the capability in the sorted list
      have hle : rule.capability.values.SortedLE :=
        (hsorted.imp fun h => h.le).sortedLE
      have hsearch := Search.search_mem_iff hle capability
      simp only [Bool.true_eq_false, if_false, hall, decide_eq_true_eq, true_and, false_or]
      exact hsearch

/-! ### The bindings of a subject -/

/-- A resolver that is bound and does not fail. -/
abbrev Scopes := PolicyOwnerScopeV1 → NodeID → Bool × UInt64

def Scopes.resolver (scopes : Scopes) :
    Option Resolver := some fun scope owner => .ok (scopes scope owner)

variable (scopes : Scopes) (now : ℤ) (request : Request)

/-- The binding allows the request by the rule with this index of the definition. -/
structure PolicyStore.Applies (p : PolicyStore) (b : PolicyBindingV1) (d : PolicyDefinitionV1)
    (index : ℕ) : Prop where
  unexpired : b.expiresAtUnixMS = 0 ∨ now < b.expiresAtUnixMS
  scope : (scopes b.scope request.resource.owner).1 = true
  definition : p.definitions[b.definitionID]? = some d
  rule : ∃ rule, d.rules[index]? = some rule ∧ rule.resource.Selects request.resource.name ∧
    rule.capability.Selects request.capability

variable {scopes now request}
  {b : PolicyBindingV1}

theorem expired_eq_false_iff :
    b.expired now = false ↔ b.expiresAtUnixMS = 0 ∨ now < b.expiresAtUnixMS := by
  simp only [PolicyBindingV1.expired, Bool.and_eq_false_iff, decide_eq_false_iff_not, not_not,
    Int.not_le]

theorem findIdx?_rules {d : PolicyDefinitionV1} (hvalid : d.validate os = .ok ()) (name : String)
    (capability : CapabilityID) :
    match d.rules.findIdx? fun rule => matchPolicyRule rule name capability with
    | none => ∀ (index : ℕ) (rule : PolicyRuleV1), d.rules[index]? = some rule →
        ¬(rule.resource.Selects name ∧ rule.capability.Selects capability)
    | some index => ∃ rule, d.rules[index]? = some rule ∧ rule.resource.Selects name ∧
        rule.capability.Selects capability := by
  cases hfind : d.rules.findIdx? fun rule => matchPolicyRule rule name capability with
  | none =>
    intro index rule hrule hselects
    have hmem := mem_of_getElem? hrule
    have hfalse := List.findIdx?_eq_none_iff.mp hfind rule hmem
    rw [(matchPolicyRule_iff (sorted_of_validate hvalid hmem)).mpr hselects] at hfalse
    cases hfalse
  | some index =>
    obtain ⟨hlt, hmatch, -⟩ := List.findIdx?_eq_some_iff_getElem.mp hfind
    refine ⟨d.rules[index], List.getElem?_eq_getElem hlt, ?_⟩
    exact (matchPolicyRule_iff (sorted_of_validate hvalid (getElem_mem hlt))).mp hmatch

/-- The evaluation denies because no binding applies, or names one that does. -/
inductive PolicyStore.Decides (p : PolicyStore) (scopes : Scopes) (now : ℤ) (request : Request)
    (bindings : List PolicyBindingV1) (e : PolicyEvaluationV1) : Prop
  | denied (hallowed : e.allowed = false) (hsource : e.source = .none)
      (hnone : ∀ b ∈ bindings, ∀ d index, ¬p.Applies scopes now request b d index)
  | allowed {b : PolicyBindingV1} {d : PolicyDefinitionV1} (hallowed : e.allowed = true)
      (hsource : e.source = .binding) (hmem : b ∈ bindings)
      (happlies : p.Applies scopes now request b d e.ruleIndex)
        (hbinding : e.bindingID = b.bindingID)
      (hdefinition : e.definitionID = b.definitionID)
        (hrevision : e.definitionRevision = d.revision)

theorem PolicyStore.Decides.cons {p : PolicyStore} {bindings : List PolicyBindingV1}
    {e : PolicyEvaluationV1} (h : p.Decides scopes now request bindings e)
    (hnot : ∀ d index, ¬p.Applies scopes now request b d index) :
    p.Decides scopes now request (b :: bindings) e := by
  cases h with
  | denied hallowed hsource hnone =>
    refine .denied hallowed hsource fun c hc => ?_
    rcases mem_cons.mp hc with rfl | hc
    · exact hnot
    · exact hnone c hc
  | allowed hallowed hsource hmem happlies hbinding hdefinition hrevision =>
    exact .allowed hallowed hsource (mem_cons_of_mem b hmem) happlies hbinding hdefinition
      hrevision

/-- **The loop over the bindings.** -/
theorem evaluateBindings_spec {p : PolicyStore} (hp : p.Sound os) {bindings : List PolicyBindingV1}
    (hdefined : ∀ b ∈ bindings, p.definitions.contains b.definitionID = true) :
    ∃ e, p.evaluateBindings scopes.resolver now request bindings = .ok e ∧
      p.Decides scopes now request bindings e := by
  induction bindings with
  | nil => exact ⟨_, rfl, .denied rfl rfl fun b hb => absurd hb not_mem_nil⟩
  | cons b bindings ih =>
    obtain ⟨e, he, hdecides⟩ := ih fun c hc => hdefined c (mem_cons_of_mem b hc)
    cases hexpired : b.expired now with
    | true =>
      refine ⟨e, ?_, hdecides.cons fun d index happlies => ?_⟩
      · simp only [PolicyStore.evaluateBindings, hexpired, if_true, he]
      · rw [expired_eq_false_iff.mpr happlies.unexpired] at hexpired
        cases hexpired
    | false =>
      rcases hscope : scopes b.scope request.resource.owner with ⟨_ | _, epoch⟩
      · refine ⟨e, ?_, hdecides.cons fun d index happlies => ?_⟩
        · simpa [PolicyStore.evaluateBindings, hexpired, Scopes.resolver, hscope] using he
        · have hmatched := happlies.scope
          rw [hscope] at hmatched
          cases hmatched
      · -- the owner is in the scope: the rules of the definition decide
        have hcontains := hdefined b mem_cons_self
        rw [ExtTreeMap.contains_eq_isSome_getElem?] at hcontains
        obtain ⟨d, hd⟩ := Option.isSome_iff_exists.mp hcontains
        obtain ⟨hid, hvalid⟩ := hp.tables.definitions _ d hd
        have hfirst := findIdx?_rules hvalid request.resource.name request.capability
        cases hfind : d.rules.findIdx? fun rule =>
            matchPolicyRule rule request.resource.name request.capability with
        | none =>
          rw [hfind] at hfirst
          refine ⟨e, ?_, hdecides.cons fun d' index happlies => ?_⟩
          · simpa [PolicyStore.evaluateBindings, hexpired, Scopes.resolver, hscope, hd, hfind]
              using he
          · have hd' := happlies.definition
            rw [hd] at hd'
            cases hd'
            obtain ⟨rule, hrule, hselects⟩ := happlies.rule
            exact hfirst index rule hrule hselects
        | some index =>
          rw [hfind] at hfirst
          let e' : PolicyEvaluationV1 :=
            { allowed := true, source := .binding, policyGeneration := p.generation,
              topologyEpoch := epoch, bindingID := b.bindingID, definitionID := d.id,
              definitionRevision := d.revision, ruleIndex := index, scope := some b.scope }
          have happlies : p.Applies scopes now request b d index :=
            ⟨expired_eq_false_iff.mp hexpired, by rw [hscope], hd, hfirst⟩
          refine ⟨e', ?_, .allowed rfl rfl mem_cons_self happlies rfl hid rfl⟩
          simp [PolicyStore.evaluateBindings, hexpired, Scopes.resolver, hscope, hd, hfind, e']

/-! ### Decisions -/

theorem mem_bindings_of_subject {p : PolicyStore} (hp : p.Sound os) {subject : NodeID} :
    b ∈ ((p.bySubject[subject]?).getD []).map (fun id => p.bindings[id]?.getD zeroBinding) ↔
      p.bindings[b.bindingID]? = some b ∧ b.node = subject := by
  rw [hp.index, mem_map]
  constructor
  · rintro ⟨id, hid, rfl⟩
    obtain ⟨b, hb, hnode⟩ := mem_rebuildBindingIndex.mp hid
    rw [hb, Option.getD_some, (hp.tables.bindings id b hb).1]
    exact ⟨hb, hnode⟩
  · rintro ⟨hb, hnode⟩
    refine ⟨b.bindingID, mem_rebuildBindingIndex.mpr ⟨b, hb, hnode⟩, ?_⟩
    rw [hb, Option.getD_some]

theorem node_eq_iff (h : b.validate os = .ok ()) {subject : NodeID} :
    b.node = subject ↔ parseUint b.subject = some subject := by
  simp only [PolicyBindingV1.validate, bind_eq_ok] at h
  obtain ⟨-, -, -, -, u, hsubject, -⟩ := h
  simp only [validateNodeIDText, bind_eq_ok] at hsubject
  obtain ⟨-, -, hsubject⟩ := hsubject
  cases hparse : parseUint b.subject with
  | none =>
    rw [hparse] at hsubject
    cases hsubject
  | some id => simp [PolicyBindingV1.node, hparse]

/-- **Decisions follow the rules.**  In every state reached from what was on disk by any
calls, failing saves and restarts, for every request that has a normal form, every
resolver that does not fail and every time: the request is allowed exactly when it is an
exact grant or a binding of its subject applies, and an allowing evaluation names what
allows it. -/
theorem evaluate_follows_rules (os : Text) (disk : Option Record) (acts : List PolicyAct)
    (p : PolicyStore) (hp : (PolicyProcess.run os disk acts).running = some p)
    (scopes : Scopes) (now : ℤ) (request normal : Request)
    (hnormal : normalizeRequest os request = .ok normal) :
    ∃ e, p.evaluate os scopes.resolver now request = .ok e ∧
      (e.allowed = true ↔ normal ∈ p.grants ∨ ∃ b d index, p.bindings[b.bindingID]? = some b ∧
          parseUint b.subject = some normal.subject ∧ p.Applies scopes now normal b d index) ∧
      (e.allowed = true → e.source = .exactGrant ∧ normal ∈ p.grants ∨
        e.source = .binding ∧ ∃ b d, p.bindings[e.bindingID]? = some b ∧
          parseUint b.subject = some normal.subject ∧ p.definitions[e.definitionID]? = some d ∧
          d.id = e.definitionID ∧ d.revision = e.definitionRevision ∧
          p.Applies scopes now normal b d e.ruleIndex) := by
  have hsound := (PolicyProcess.stored_run disk acts p hp).1
  unfold PolicyStore.evaluate
  rw [hnormal]
  by_cases hgrant : normal ∈ p.grants
  · refine ⟨⟨1, true, .exactGrant, p.generation, 0, "", "", 0, 0, none⟩, ?_,
      iff_of_true rfl (Or.inl hgrant), fun _ => Or.inl ⟨rfl, hgrant⟩⟩
    simp [bind, Except.bind, hgrant, pure, Except.pure]
  · let bindings := ((p.bySubject[normal.subject]?).getD []).map fun id =>
      p.bindings[id]?.getD zeroBinding
    have hdefined : ∀ b ∈ bindings, p.definitions.contains b.definitionID = true := by
      intro b hb
      obtain ⟨hb, -⟩ := (mem_bindings_of_subject hsound).mp hb
      exact (hsound.tables.bindings _ b hb).2.2
    obtain ⟨e, he, hdecides⟩ : ∃ e, p.evaluateBindings scopes.resolver now normal bindings = .ok e ∧
        p.Decides scopes now normal bindings e := evaluateBindings_spec hsound hdefined
    refine ⟨e, by simpa [bind, Except.bind, hgrant] using he, ?_⟩
    cases hdecides with
    | denied hallowed hsource hnone =>
      rw [hallowed]
      refine ⟨iff_of_false (by simp) ?_, fun htrue => (nomatch htrue)⟩
      rintro (hmem | ⟨b, d, index, hb, hsubject, happlies⟩)
      · exact hgrant hmem
      · have hnode := (node_eq_iff (hsound.tables.bindings _ b hb).2.1).mpr hsubject
        exact hnone b ((mem_bindings_of_subject hsound).mpr ⟨hb, hnode⟩) d index happlies
    | @allowed b d hallowed hsource hmem happlies hbinding hdefinition hrevision =>
      obtain ⟨hb, hnode⟩ := (mem_bindings_of_subject hsound).mp hmem
      have hsubject := (node_eq_iff (hsound.tables.bindings _ b hb).2.1).mp hnode
      have hid := (hsound.tables.definitions _ d happlies.definition).1
      refine ⟨iff_of_true hallowed (Or.inr ⟨b, d, _, hb, hsubject, happlies⟩), fun _ => Or.inr
        ⟨hsource, b, d, hbinding ▸ hb, hsubject, hdefinition ▸ happlies.definition, ?_,
          hrevision.symm, happlies⟩⟩
      rw [hid, hdefinition]

def plainText : Text where
  isLetterOrDigit := Char.isAlphanum
  marshalError := fun _ => []
  isControlOrSpace := Char.isWhitespace

/-- A fresh installation in which node 1 makes node 41 a super administrator. -/
def appointment : List PolicyAct :=
  [.restart 1000 none, .call ⟨2000, .asIs⟩ (.createBinding
     ⟨1, "0123456789abcdef0123456789abcdef", "41", "superadmin",
       ⟨.authorityDomain, "1"⟩, 0⟩ 1) none]

theorem evaluate_follows_rules_appointment :
    ∃ p, (PolicyProcess.run plainText none appointment).running = some p ∧
      normalizeRequest plainText ⟨41, "", "read", ⟨1, "system/health"⟩⟩ =
        .ok ⟨41, "read", "read", ⟨1, "system/health"⟩⟩ ∧
      ∃ e, p.evaluate plainText (Scopes.resolver fun _ _ => (true, 9)) 3000
        ⟨41, "", "read", ⟨1, "system/health"⟩⟩ = .ok e ∧
      (e.allowed = true → e.source = .exactGrant ∧
        ⟨41, "read", "read", ⟨1, "system/health"⟩⟩ ∈ p.grants ∨
        e.source = .binding ∧ ∃ b d, p.bindings[e.bindingID]? = some b ∧
          parseUint b.subject = some 41 ∧ p.definitions[e.definitionID]? = some d ∧
          d.id = e.definitionID ∧ d.revision = e.definitionRevision ∧
          p.Applies (fun _ _ => (true, 9)) 3000 ⟨41, "read", "read", ⟨1, "system/health"⟩⟩ b d
            e.ruleIndex) := by
  obtain ⟨p, hp⟩ : ∃ p, (PolicyProcess.run plainText none appointment).running = some p :=
    Option.isSome_iff_exists.mp (by decide +kernel)
  have hnormal : normalizeRequest plainText ⟨41, "", "read", ⟨1, "system/health"⟩⟩ =
      .ok ⟨41, "read", "read", ⟨1, "system/health"⟩⟩ := by decide +kernel
  obtain ⟨e, he, -, hnames⟩ := evaluate_follows_rules plainText none appointment p hp
    (fun _ _ => (true, 9)) 3000 _ _ hnormal
  exact ⟨p, hp, hnormal, e, he, hnames⟩

end Auth
