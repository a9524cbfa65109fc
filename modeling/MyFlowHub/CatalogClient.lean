/-
Discovery of a catalog on the side of the client (`sdk/go/catalog.go`).

`CatalogPages` asks for page after page and starts over when the catalog changed under it, at
most three times.  Whoever answers may answer anything: a step of the loop takes any response.

* `CatalogClient.step` — one round of the loop;
* `CatalogClient.Sound` — what the pages of an attempt have in common, and how many calls were made;
* **`catalog_discovery`** — discovery is complete or fails, on both sides.
-/
import MyFlowHub.CatalogDiscovery

open Checks
open Std Tables Runs List
open Auth (Text maxItems)
open Encoding (formatUint utf8 utf8_injective)

namespace Resource

/-- `sdk.Error`. -/
structure SdkError where
  code : Option ErrorCode := none
  message : String
  deriving DecidableEq, Repr

/-- What a round of the loop reads from outside: the context, the answer to the list call, and
the complete catalog of a node without one. -/
structure ClientInput where
  ctxErr : Option String := none
  response : Except SdkError (String × List UInt8)
  legacy : Except SdkError ResourceCatalogV2 := .error { message := "" }

inductive ClientStatus where
  | running
  | failed (err : SdkError)
  /-- The catalog of a node that does not know `list`. -/
  | legacy (catalog : ResourceCatalogV2)
  | complete (catalog : ResourceCatalogV2)

/-- The variables of `CatalogPages`.  `calls` counts the list calls, and `received` are the pages
of this attempt. -/
structure CatalogClient where
  attempt : ℕ := 0
  catalog : ResourceCatalogV2 := ⟨0, 0, []⟩
  instanceID : String := ""
  cursor : String := ""
  total : ℤ := 0
  status : ClientStatus := .running
  calls : ℕ := 0
  received : List CatalogPageV1 := []

section Client

variable (os : Text) (owner : NodeID)

def malformed (message : String) : SdkError := ⟨some .malformed, message⟩

def validateCatalogOwner (catalog : ResourceCatalogV2) : Except SdkError Unit :=
  match catalog.validate os with
  | .error text => .error (malformed ("invalid complete catalog: " ++ text))
  | .ok _ =>
    if ∃ d ∈ catalog.resources, d.id.owner ≠ owner then
      .error (malformed "catalog contains a foreign owner")
    else .ok ()

/-- `DecodeJSONPayload` of a page, whatever the JSON library makes of the text. -/
def decodeCatalogPage (unmarshal : List UInt8 → Except String CatalogPageV1) (data : List UInt8) :
    Except String CatalogPageV1 := do
  require (data.length ≠ 0) "invalid protocol payload: payload is empty"
  require (data.length ≤ maxCatalogPageBytes)
    (errPayloadTooLarge ++ ": got " ++ toString data.length ++ ", max " ++
      toString maxCatalogPageBytes)
  let page ← (unmarshal data).mapError fun text =>
    "invalid protocol payload: decode JSON: " ++ text
  (page.validate os).mapError fun text => "invalid protocol payload: " ++ text
  return page

namespace CatalogClient

variable (c : CatalogClient)

def fail (err : SdkError) : CatalogClient := { c with status := .failed err }

def restart : CatalogClient :=
  if c.attempt + 1 < 3 then { attempt := c.attempt + 1, calls := c.calls }
  else { c with status := .failed
                  ⟨some .conflict, "catalog membership changed during three discovery attempts"⟩ }

def refused (err : SdkError) (legacy : Except SdkError ResourceCatalogV2) : CatalogClient :=
  if err.code = some .unsupported ∧ c.attempt = 0 ∧ c.cursor = "" then
    match legacy with
    | .error err => c.fail err
    | .ok catalog =>
      match validateCatalogOwner os owner catalog with
      | .error err => c.fail err
      | .ok _ => { c with status := .legacy catalog }
  else if err.code = some .conflict then c.restart
  else c.fail err

def revisionOf (page : CatalogPageV1) : UInt64 :=
  match parseVariableRevision page.revision with
  | .ok revision => revision
  | .error _ => 0

/-- The page does not go on from the pages before. -/
def mismatch (page : CatalogPageV1) : Option String :=
  if page.owner ≠ owner ∨ page.offset ≠ c.catalog.resources.length then
    some "catalog page owner or offset does not match the request"
  else if c.cursor ≠ "" ∧ (page.instanceID ≠ c.instanceID ∨
      revisionOf page ≠ c.catalog.revision ∨ page.total ≠ c.total) then
    some "catalog pages mixed different member generations"
  else if ∃ last ∈ c.catalog.resources.getLast?, ∃ first ∈ page.resources.head?,
      first.id.name ≤ last.id.name then
    some "catalog pages contain duplicate or out-of-order resources"
  else none

def append (page : CatalogPageV1) : CatalogClient :=
  let c :=
    if c.cursor = "" then
      { c with
        instanceID := page.instanceID
        total := page.total
        catalog := { c.catalog with
          version := schemaVersionV2
          revision := revisionOf page } }
    else c
  { c with catalog := { c.catalog with resources := c.catalog.resources ++ page.resources }
           received := c.received ++ [page] }

def accept (page : CatalogPageV1) : CatalogClient :=
  match c.mismatch owner page with
  | some message => c.fail (malformed message)
  | none =>
    let c' := c.append page
    if page.nextCursor = "" then
      match validateCatalogOwner os owner c'.catalog with
      | .error err => c'.fail err
      | .ok _ => { c' with status := .complete c'.catalog }
    else if page.nextCursor = c.cursor then
      c'.fail (malformed "catalog continuation did not advance")
    else { c' with cursor := page.nextCursor }

def answer (unmarshal : List UInt8 → Except String CatalogPageV1) (input : ClientInput) :
    CatalogClient :=
  match input.response with
  | .error err => c.refused os owner err input.legacy
  | .ok (schema, payload) =>
    if schema ≠ schemaCatalogPageV1 then
      c.fail (malformed "catalog list returned an unexpected schema")
    else
      match decodeCatalogPage os unmarshal payload with
      | .error text => c.fail (malformed ("decode catalog page: " ++ text))
      | .ok page => c.accept os owner page

def step (unmarshal : List UInt8 → Except String CatalogPageV1) (c : CatalogClient)
    (input : ClientInput) : CatalogClient :=
  match c.status with
  | .running =>
    match input.ctxErr with
    | some text => c.fail { message := text }
    | none =>
      match CatalogListV1.validate { limit := defaultCatalogPageItems, cursor := c.cursor } with
      | .error text => c.fail { message := "invalid protocol payload: " ++ text }
      | .ok _ => { c with calls := c.calls + 1 }.answer os owner unmarshal input
  | _ => c

/-- `CatalogPages` after so many rounds. -/
def run (unmarshal : List UInt8 → Except String CatalogPageV1) (inputs : List ClientInput) :
    CatalogClient :=
  match Protocol.validateNodeID owner with
  | .error text => { status := .failed { message := text } }
  | .ok _ => inputs.foldl (step os owner unmarshal) {}

end CatalogClient

end Client

/-! ### Pages and catalogs that passed -/

theorem resourceBefore_trans {a b c : ResourceID} (hab : resourceBefore a b)
    (hbc : resourceBefore b c) : resourceBefore a c := by
  rcases hab with hab | ⟨hab, hname⟩
  · rcases hbc with hbc | ⟨hbc, -⟩
    · exact Or.inl (UInt64.lt_trans hab hbc)
    · exact Or.inl (hbc ▸ hab)
  · rcases hbc with hbc | ⟨hbc, hname'⟩
    · exact Or.inl (hab ▸ hbc)
    · exact Or.inr ⟨hab.trans hbc, String.lt_trans hname hname'⟩

theorem sorted_of_validateMembers {os : Text} {seen : List ResourceID}
    {l : List ResourceDescriptorV2} (h : validateMembers os seen l = .ok ()) :
    (∀ before ∈ seen.getLast?, ∀ d ∈ l, resourceBefore before d.id) ∧
      l.Pairwise fun a b => resourceBefore a.id b.id := by
  induction l generalizing seen with
  | nil => exact ⟨fun _ _ d hd => (nomatch hd), List.Pairwise.nil⟩
  | cons d l ih =>
    unfold validateMembers at h
    obtain ⟨_, -, h⟩ := bind_eq_ok.1 h
    obtain ⟨_, -, h⟩ := bind_eq_ok.1 h
    obtain ⟨_, hbefore, h⟩ := bind_eq_ok.1 h
    rw [require_eq_ok] at hbefore
    obtain ⟨hfirst, hrest⟩ := ih h
    have hd : ∀ d' ∈ l, resourceBefore d.id d'.id := hfirst d.id (by simp)
    refine ⟨fun before hb d' hd' => ?_, pairwise_cons.2 ⟨hd, hrest⟩⟩
    rcases mem_cons.1 hd' with rfl | hd'
    · exact hbefore before hb
    · exact resourceBefore_trans (hbefore before hb) (hd d' hd')

theorem validateCatalogOwner_eq_ok {os : Text} {owner : NodeID} {catalog : ResourceCatalogV2}
    {u : Unit} (h : validateCatalogOwner os owner catalog = .ok u) :
    (∀ d ∈ catalog.resources, d.id.owner = owner) ∧
      catalog.resources.Pairwise fun a b => a.id.name < b.id.name := by
  unfold validateCatalogOwner at h
  cases hvalid : catalog.validate os with
  | error text =>
    rw [hvalid] at h
    cases h
  | ok _ =>
    rw [hvalid] at h
    dsimp only at h
    split_ifs at h with hforeign
    push Not at hforeign
    refine ⟨hforeign, ?_⟩
    unfold ResourceCatalogV2.validate at hvalid
    obtain ⟨_, -, hvalid⟩ := bind_eq_ok.1 hvalid
    obtain ⟨_, -, hvalid⟩ := bind_eq_ok.1 hvalid
    obtain ⟨_, -, hvalid⟩ := bind_eq_ok.1 hvalid
    obtain ⟨_, hmembers, -⟩ := bind_eq_ok.1 hvalid
    refine (sorted_of_validateMembers hmembers).2.imp_of_mem fun ha hb hab => ?_
    rcases hab with hlt | ⟨-, hname⟩
    · rw [hforeign _ ha, hforeign _ hb] at hlt
      exact absurd hlt (UInt64.lt_irrefl _)
    · exact hname

structure PagePlaced (page : CatalogPageV1) : Prop where
  total : page.total ≤ maxItems
  nonempty : 1 ≤ page.resources.length
  fits : page.resources.length ≤ page.total - page.offset
  continued : page.offset + page.resources.length < page.total ↔ page.nextCursor ≠ ""

theorem placed_of_decode {os : Text} {unmarshal : List UInt8 → Except String CatalogPageV1}
    {data : List UInt8} {page : CatalogPageV1}
      (h : decodeCatalogPage os unmarshal data = .ok page) :
    PagePlaced page := by
  obtain ⟨_, -, h⟩ := bind_eq_ok.1 h
  obtain ⟨_, -, h⟩ := bind_eq_ok.1 h
  obtain ⟨page', -, h⟩ := bind_eq_ok.1 h
  obtain ⟨u, hvalid, h⟩ := bind_eq_ok.1 h
  cases h
  cases hv : page.validate os with
  | error text =>
    rw [hv] at hvalid
    cases hvalid
  | ok _ =>
    unfold CatalogPageV1.validate at hv
    obtain ⟨_, -, hv⟩ := bind_eq_ok.1 hv
    obtain ⟨_, -, hv⟩ := bind_eq_ok.1 hv
    obtain ⟨_, -, hv⟩ := bind_eq_ok.1 hv
    obtain ⟨_, -, hv⟩ := bind_eq_ok.1 hv
    obtain ⟨_, hposition, hv⟩ := bind_eq_ok.1 hv
    obtain ⟨_, hcount, hv⟩ := bind_eq_ok.1 hv
    obtain ⟨_, hcontinued, -⟩ := bind_eq_ok.1 hv
    rw [require_eq_ok] at hposition hcount hcontinued
    exact ⟨hposition.2.1, hcount.1, hcount.2.2, hcontinued⟩

/-! ### Runs of the client -/

namespace CatalogClient

/-- What the pages of an attempt have in common with the catalog made of them. -/
structure Common (owner : NodeID) (c : CatalogClient) : Prop where
  resources : c.catalog.resources = c.received.flatMap (·.resources)
  each : ∀ page ∈ c.received, page.owner = owner ∧ page.instanceID = c.instanceID ∧
    revisionOf page = c.catalog.revision ∧ page.total = c.total

/-- A catalog returned from pages: the announced number of entries, of this node, sorted, from
pages of one instance and one revision. -/
structure Complete (owner : NodeID) (c : CatalogClient) (catalog : ResourceCatalogV2) : Prop where
  made : catalog = c.catalog
  common : Common owner c
  received : c.received ≠ []
  total : (catalog.resources.length : ℤ) = c.total
  owned : ∀ d ∈ catalog.resources, d.id.owner = owner
  sorted : catalog.resources.Pairwise fun a b => a.id.name < b.id.name

/-- The state of the loop after `rounds` rounds. -/
structure Running (owner : NodeID) (rounds : ℕ) (c : CatalogClient) : Prop where
  common : Common owner c
  first : c.cursor = "" ↔ c.received = []
  attempt : c.attempt < 3
  length : c.catalog.resources.length < maxItems
  calls : c.calls ≤ c.attempt * maxItems + c.catalog.resources.length
  rounds : c.calls = rounds

def Sound (owner : NodeID) (rounds : ℕ) (c : CatalogClient) : Prop :=
  c.calls ≤ 3 * maxItems ∧
    match c.status with
    | .running => Running owner rounds c
    | .complete catalog => Complete owner c catalog
    | _ => True

variable {os : Text} {owner : NodeID} {c : CatalogClient} {rounds : ℕ}

theorem Sound.fail (h : c.calls ≤ 3 * maxItems) (err : SdkError) :
    Sound owner rounds (c.fail err) :=
  ⟨h, trivial⟩

theorem Running.bound (h : Running owner rounds c) : c.calls + 1 ≤ 3 * maxItems := by
  have hattempt := h.attempt
  have hlength := h.length
  have hcalls := h.calls
  have : c.attempt * maxItems ≤ 2 * maxItems := Nat.mul_le_mul_right _ (by omega)
  omega

theorem sound_restart (h : Running owner rounds c) :
    Sound owner (rounds + 1) ({ c with calls := c.calls + 1 } : CatalogClient).restart := by
  have hbound := h.bound
  unfold restart
  dsimp only
  split_ifs with hattempt
  · refine ⟨hbound, ?_⟩
    have hcalls := h.calls
    have hlength := h.length
    have hmul : (c.attempt + 1) * maxItems = c.attempt * maxItems + maxItems := Nat.succ_mul _ _
    have hzero : 0 < maxItems := by decide
    refine ⟨⟨rfl, by simp⟩, by simp, hattempt, hzero, ?_, congrArg (· + 1) h.rounds⟩
    show c.calls + 1 ≤ (c.attempt + 1) * maxItems + 0
    omega
  · exact ⟨hbound, trivial⟩

theorem sound_refused (h : Running owner rounds c) (err : SdkError)
    (legacy : Except SdkError ResourceCatalogV2) :
    Sound owner (rounds + 1)
      (({ c with calls := c.calls + 1 } : CatalogClient).refused os owner err legacy) := by
  unfold refused
  split_ifs
  · cases legacy with
    | error err => exact Sound.fail h.bound err
    | ok catalog =>
      dsimp only
      split
      · exact Sound.fail h.bound _
      · exact ⟨h.bound, trivial⟩
  · exact sound_restart h
  · exact Sound.fail h.bound err

theorem Common.append (h : Common owner c) (hfirst : c.cursor = "" ↔ c.received = [])
    {page : CatalogPageV1} (hmatch : c.mismatch owner page = none) :
    Common owner (c.append page) ∧ (c.append page).total = page.total ∧
      (c.append page).catalog.resources = c.catalog.resources ++ page.resources ∧
      page.offset = c.catalog.resources.length := by
  unfold mismatch at hmatch
  split_ifs at hmatch with hplace hmixed
  push Not at hplace hmixed
  obtain ⟨howner, hoffset⟩ := hplace
  unfold CatalogClient.append
  by_cases hcursor : c.cursor = ""
  · have hnone := hfirst.1 hcursor
    dsimp only
    rw [if_pos hcursor]
    refine ⟨⟨?_, ?_⟩, rfl, rfl, hoffset⟩
    · show c.catalog.resources ++ page.resources = (c.received ++ [page]).flatMap (·.resources)
      rw [h.resources, flatMap_append]
      simp
    · rw [hnone]
      simp [howner]
  · obtain ⟨hinstance, hrevision, htotal⟩ := hmixed hcursor
    dsimp only
    rw [if_neg hcursor]
    refine ⟨⟨?_, fun p hp => ?_⟩, htotal.symm, rfl, hoffset⟩
    · show c.catalog.resources ++ page.resources = (c.received ++ [page]).flatMap (·.resources)
      rw [h.resources, flatMap_append]
      simp
    · rcases mem_append.1 hp with hp | hp
      · exact h.each p hp
      · rw [mem_singleton.1 hp]
        exact ⟨howner, hinstance, hrevision, htotal⟩

theorem append_calls (page : CatalogPageV1) :
    (c.append page).calls = c.calls ∧ (c.append page).attempt = c.attempt ∧
      (c.append page).received = c.received ++ [page] ∧ (c.append page).status = c.status := by
  unfold CatalogClient.append
  dsimp only
  split_ifs <;> exact ⟨rfl, rfl, rfl, rfl⟩

theorem sound_accept (h : Running owner rounds c) (hstatus : c.status = .running)
    {page : CatalogPageV1} (hplaced : PagePlaced page) :
    Sound owner (rounds + 1)
      (({ c with calls := c.calls + 1 } : CatalogClient).accept os owner page) := by
  set c₁ : CatalogClient := { c with calls := c.calls + 1 } with hc₁
  have hbound : c₁.calls ≤ 3 * maxItems := h.bound
  have hcommon : Common owner c₁ := { h.common with }
  obtain ⟨hcalls, hattempt, hreceived, hstatus'⟩ := append_calls (c := c₁) page
  unfold accept
  cases hmatch : c₁.mismatch owner page with
  | some message => exact Sound.fail hbound _
  | none =>
    obtain ⟨hcommon', htotal, hresources, hoffset⟩ := hcommon.append h.first hmatch
    have hbound' : (c₁.append page).calls ≤ 3 * maxItems := hcalls ▸ hbound
    dsimp only
    split_ifs with hend hsame
    · -- the last page: its end is the announced total
      cases hvalid : validateCatalogOwner os owner (c₁.append page).catalog with
      | error err => exact Sound.fail hbound' err
      | ok _ =>
        obtain ⟨howned, hsorted⟩ := validateCatalogOwner_eq_ok hvalid
        refine ⟨hbound', rfl, ⟨hcommon'.resources, hcommon'.each⟩, ?_, ?_, howned, hsorted⟩
        · show (c₁.append page).received ≠ []
          rw [hreceived]
          simp
        · show ((c₁.append page).catalog.resources.length : ℤ) = (c₁.append page).total
          have hnot : ¬ page.offset + page.resources.length < page.total :=
            fun hlt => hplaced.continued.1 hlt hend
          have hfits := hplaced.fits
          rw [hresources, htotal, length_append]
          push_cast
          omega
    · exact Sound.fail hbound' _
    · -- at least one more entry, and still less than the total
      have hlt := hplaced.continued.2 hend
      have hmax := hplaced.total
      have hone := hplaced.nonempty
      have hlength : (c₁.append page).catalog.resources.length < maxItems := by
        rw [hresources, length_append]
        omega
      refine ⟨hbound', ?_⟩
      show match (c₁.append page).status with
        | .running => Running owner (rounds + 1) { c₁.append page with cursor := page.nextCursor }
        | .complete catalog => _
        | _ => True
      rw [hstatus', show c₁.status = .running from hstatus]
      refine ⟨⟨hcommon'.resources, hcommon'.each⟩, ?_, ?_, hlength, ?_, ?_⟩
      · show page.nextCursor = "" ↔ (c₁.append page).received = []
        rw [hreceived]
        simp [hend]
      · show (c₁.append page).attempt < 3
        rw [hattempt]
        exact h.attempt
      · show (c₁.append page).calls ≤ (c₁.append page).attempt * maxItems +
          (c₁.append page).catalog.resources.length
        have hcalls' := h.calls
        rw [hcalls, hattempt, hresources, length_append]
        show c.calls + 1 ≤ c.attempt * maxItems + (c.catalog.resources.length + _)
        omega
      · show (c₁.append page).calls = rounds + 1
        rw [hcalls]
        exact congrArg (· + 1) h.rounds

theorem sound_step (unmarshal : List UInt8 → Except String CatalogPageV1) (input : ClientInput)
    (h : Sound owner rounds c) : Sound owner (rounds + 1) (c.step os owner unmarshal input) := by
  unfold CatalogClient.step
  split
  case h_2 hstatus =>
    refine ⟨h.1, ?_⟩
    cases hs : c.status with
    | running => exact absurd hs hstatus
    | failed err => trivial
    | legacy catalog => trivial
    | complete catalog =>
      have hcase := h.2
      rw [hs] at hcase
      exact hcase
  case h_1 hstatus =>
    have hcase := h.2
    rw [hstatus] at hcase
    dsimp only at hcase
    split
    · exact Sound.fail h.1 _
    split
    · exact Sound.fail h.1 _
    unfold answer
    split
    · exact sound_refused hcase _ _
    split_ifs
    · exact Sound.fail hcase.bound _
    split
    · exact Sound.fail hcase.bound _
    · next hpage => exact sound_accept hcase hstatus (placed_of_decode hpage)

theorem sound_run (os : Text) (owner : NodeID)
    (unmarshal : List UInt8 → Except String CatalogPageV1) (inputs : List ClientInput) :
    Sound owner inputs.length (run os owner unmarshal inputs) := by
  unfold run
  split
  · exact ⟨Nat.zero_le _, trivial⟩
  · induction inputs using List.reverseRecOn with
    | nil =>
      have hthree : 0 < 3 := by decide
      have hzero : 0 < maxItems := by decide
      exact ⟨Nat.zero_le _, ⟨rfl, by simp⟩, by simp, hthree, hzero, Nat.zero_le _, rfl⟩
    | append_singleton inputs input ih =>
      rw [foldl_append, length_append]
      exact sound_step unmarshal input ih

end CatalogClient

/-! ### A registry with pages -/

/-- A plain text of a cursor: two words, then its texts. -/
def plainCursor (c : CatalogCursor) : List UInt8 :=
  Encoding.bigEndian 8 c.owner.toNat ++ Encoding.bigEndian 8 c.offset.toNat ++ utf8 c.instanceID ++
    utf8 c.revision

theorem cursor_valid {c : CatalogCursor} (h : c.validate = .ok ()) :
    c.version = 1 ∧ 1 ≤ c.offset ∧ c.offset < maxItems ∧ (utf8 c.instanceID).length = 32 ∧
      (utf8 c.revision).length ≤ 20 := by
  unfold CatalogCursor.validate at h
  obtain ⟨_, hhead, h⟩ := bind_eq_ok.1 h
  obtain ⟨_, hinstance, h⟩ := bind_eq_ok.1 h
  obtain ⟨_, hrevision, -⟩ := bind_eq_ok.1 h
  rw [require_eq_ok] at hhead
  obtain ⟨_, hsize, -⟩ := bind_eq_ok.1 hinstance
  obtain ⟨_, hshort, -⟩ := bind_eq_ok.1 hrevision
  rw [require_eq_ok] at hsize hshort
  push Not at hshort
  exact ⟨hhead.1, hhead.2.2.1, hhead.2.2.2, hsize, hshort.2.2⟩

theorem plainCursor_injective {c c' : CatalogCursor} (h : c.validate = .ok ())
    (h' : c'.validate = .ok ()) (heq : plainCursor c = plainCursor c') : c = c' := by
  obtain ⟨hversion, hlow, hhigh, hinstance, -⟩ := cursor_valid h
  obtain ⟨hversion', hlow', hhigh', hinstance', -⟩ := cursor_valid h'
  unfold plainCursor at heq
  obtain ⟨heq, hrevision⟩ := append_inj heq (by simp [hinstance, hinstance'])
  obtain ⟨heq, hinstanceID⟩ := append_inj heq (by simp)
  obtain ⟨howner, hoffset⟩ := append_inj heq (by simp)
  have howner := congrArg Encoding.bigEndianValue howner
  have hoffset := congrArg Encoding.bigEndianValue hoffset
  have hbound : ∀ n : ℕ, n < 2 ^ 64 → n < 256 ^ 8 := fun n hn => hn.trans_eq (by norm_num)
  have hitems : (maxItems : ℤ) = 4096 := rfl
  rw [Encoding.bigEndianValue_bigEndian (hbound _ c.owner.toNat_lt),
    Encoding.bigEndianValue_bigEndian (hbound _ c'.owner.toNat_lt)] at howner
  rw [Encoding.bigEndianValue_bigEndian (hbound _ (by omega)),
    Encoding.bigEndianValue_bigEndian (hbound _ (by omega))] at hoffset
  cases c
  cases c'
  dsimp only at *
  obtain rfl := UInt64.toNat_inj.1 howner
  obtain rfl := utf8_injective hinstanceID
  obtain rfl := utf8_injective hrevision
  congr 1
  · rw [hversion, hversion']
  · omega

open Classical in
/-- The registry of `plainConfig` with a text for cursors. -/
noncomputable def plainCatalog : CatalogConfig where
  toRegistryConfig :=
    { plainConfig with
      catalog := { plainConfig.catalog with
        instanceID := Encoding.hexEncode (List.replicate 16 0) } }
  marshalPage _ := [0]
  marshalPage_ne_nil _ := by simp
  marshalCursor := plainCursor
  unmarshalCursor bytes :=
    if h : ∃ c : CatalogCursor, c.validate = .ok () ∧ plainCursor c = bytes then .ok h.choose
    else .error "invalid"
  marshalCursor_ne_nil c hnil := by
    have := congrArg List.length hnil
    simp [plainCursor] at this
  length_marshalCursor c hc := by
    obtain ⟨-, -, -, hinstance, hrevision⟩ := cursor_valid hc
    simp only [plainCursor, length_append, Encoding.length_bigEndian, hinstance]
    omega
  unmarshal_marshal c hc := by
    have hex : ∃ c' : CatalogCursor, c'.validate = .ok () ∧ plainCursor c' = plainCursor c :=
      ⟨c, hc, rfl⟩
    rw [dif_pos hex]
    exact congrArg Except.ok (plainCursor_injective hex.choose_spec.1 hc hex.choose_spec.2)
  identity := List.replicate 16 0
  length_identity := rfl
  instanceID_eq := rfl

/-! ### Both sides -/

/-- How a discovery stands at the node that serves it. -/
def Discovery.Outcome (cfg : CatalogConfig) (start : View) (d : Discovery) : Prop :=
  match d.status with
  | .following => d.pages.length < maxItems
  | .finished => ∃ v, PastView start d.sys v ∧ Agrees cfg.toRegistryConfig v ∧
      d.pages.flatMap (·.resources) = v.catalogDescriptors ∧
      ∀ page ∈ d.pages, page.instanceID = cfg.catalog.instanceID ∧
        page.revision = formatUint v.catalogRevision
  | .failed err v => Excused cfg start d.sys d.pages err v

theorem Discovery.Sound.outcome {cfg : CatalogConfig} {start : View} {d : Discovery}
    (h : d.Sound cfg start) : d.Outcome cfg start := by
  have hstatus := h.status
  unfold Discovery.Outcome
  cases hs : d.status with
  | following =>
    rw [hs] at hstatus
    have hzero : 0 < maxItems := by decide
    rcases hstatus with ⟨hpages, -⟩ | ⟨v, offset, -, hpages, -, hlt, -⟩
    · rw [hpages]
      exact hzero
    · exact Nat.lt_of_le_of_lt hpages.count (Nat.lt_of_lt_of_le hlt hpages.served.length_le)
  | finished =>
    rw [hs] at hstatus
    obtain ⟨v, hpast, hpages⟩ := hstatus
    refine ⟨v, hpast, hpages.served.agrees, ?_, fun page hpage => (hpages.each page hpage).2⟩
    rw [hpages.got, take_length]
  | failed err v =>
    rw [hs] at hstatus
    exact hstatus

/-- **Catalog discovery is complete or fails.**  At the node, whatever the limits and whatever
changes in between, the pages a discovery was given make up the list of one revision, or it failed
because the catalog changed or because one descriptor is too large; at most `maxItems` pages are
given.  At the client, whatever is answered, at most `3 * maxItems` list calls are made, and a
catalog made of pages has the announced number of entries, sorted, of the node, from pages of one
instance and one revision. -/
theorem catalog_discovery (cfg : CatalogConfig) (now : ℤ) (r : Registry)
    (h : newRegistry cfg.toRegistryConfig now = .ok r) :
    (∀ as : List DiscoveryAct, (Discovery.run cfg r as).pages.length ≤ maxItems ∧
      (Discovery.run cfg r as).Outcome cfg r.view) ∧
    ∀ (os : Text) (owner : NodeID) (unmarshal : List UInt8 → Except String CatalogPageV1)
      (inputs : List ClientInput),
      let c := CatalogClient.run os owner unmarshal inputs
      c.calls ≤ 3 * maxItems ∧ (3 * maxItems ≤ inputs.length → c.status ≠ .running) ∧
        ∀ catalog, c.status = .complete catalog → CatalogClient.Complete owner c catalog := by
  refine ⟨fun as => ?_, fun os owner unmarshal inputs => ?_⟩
  · have hsound := discovery_sound h as
    exact ⟨hsound.count, hsound.outcome⟩
  · obtain ⟨hcalls, hcase⟩ := CatalogClient.sound_run os owner unmarshal inputs
    refine ⟨hcalls, fun hlong hrunning => ?_, fun catalog hcomplete => ?_⟩
    · rw [hrunning] at hcase
      have hbound := hcase.bound
      have hrounds := hcase.rounds
      omega
    · rw [hcomplete] at hcase
      exact hcase

def plainPage : CatalogPageV1 where
  owner := 7
  instanceID := Encoding.hexEncode (List.replicate 16 0)
  revision := formatUint 1
  total := 1
  resources := [catalogDescriptor 7]

theorem catalogPage_plain {v : View} (h : Served plainCatalog v) (hrevision : v.catalogRevision = 1)
    (hdescriptors : v.catalogDescriptors = [catalogDescriptor 7]) :
    catalogPage plainCatalog v { limit := 0, cursor := "" } = .ok plainPage := by
  have hpage : pageBetween plainCatalog v 0 1 "" = plainPage := by
    simp only [pageBetween, catalogHead, hrevision, hdescriptors]
    rfl
  have hlast : cursorAfter plainCatalog v 1 = "" := by
    rw [cursorAfter, hdescriptors]
    rfl
  have hnext : nextCursor plainCatalog v 1 = .ok "" := by
    rw [nextCursor, hdescriptors]
    rfl
  have hvalid : plainPage.validate plainCatalog.os = .ok () := by
    rw [← hpage, ← hlast]
    exact validate_pageBetween h Nat.one_pos h.length_pos (by decide)
  have hstop : min (0 + defaultCatalogPageItems) v.catalogDescriptors.length = 1 := by
    rw [hdescriptors]
    rfl
  show boundedPage plainCatalog v 0 (min (0 + defaultCatalogPageItems)
    v.catalogDescriptors.length) = _
  rw [hstop, boundedPage, dif_pos Nat.one_pos, hnext]
  dsimp only
  rw [hpage, hvalid]
  rfl

theorem catalog_discovery_plain : ∃ r, newRegistry plainCatalog.toRegistryConfig 0 = .ok r ∧
    let d := Discovery.run plainCatalog r [.page 0]
    d.status = .finished ∧ d.pages = [plainPage] ∧ d.Outcome plainCatalog r.view := by
  have hsome : (newRegistry plainCatalog.toRegistryConfig 0).toOption.isSome = true := by
    show (newRegistry { plainConfig with
      catalog := { plainConfig.catalog with
        instanceID := Encoding.hexEncode (List.replicate 16 0) } } 0).toOption.isSome = true
    decide +kernel
  cases hr : newRegistry plainCatalog.toRegistryConfig 0 with
  | error text =>
    rw [hr] at hsome
    cases hsome
  | ok r =>
    have hview : r.catalogRevision = 1 ∧ r.catalogDescriptors = [catalogDescriptor 7] := by
      obtain ⟨_, -, h⟩ := bind_eq_ok.1 hr
      obtain ⟨_, -, h⟩ := bind_eq_ok.1 h
      obtain ⟨_, -, h⟩ := bind_eq_ok.1 h
      obtain ⟨_, -, h⟩ := bind_eq_ok.1 h
      cases h
      exact ⟨rfl, rfl⟩
    have hserved : Served plainCatalog r.view :=
      ⟨agrees_newRegistry hr, by show r.catalogRevision ≠ 0; rw [hview.1]; decide, by decide⟩
    have hrun : Discovery.run plainCatalog r [.page 0] =
        Discovery.receive { sys := .start r } r.view (.ok plainPage) := by
      rw [← catalogPage_plain hserved hview.1 hview.2]
      rfl
    refine ⟨r, rfl, ?_, ?_, ((catalog_discovery plainCatalog 0 r hr).1 [.page 0]).2⟩
    · rw [hrun]
      rfl
    · rw [hrun]
      rfl

end Resource
