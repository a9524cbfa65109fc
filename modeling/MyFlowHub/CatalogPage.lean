/-
Pages of the catalog (`protocol/schema_catalog_page.go`, `runtime/resource/catalog.go`).

A catalog that does not fit one frame is read page by page.  A page carries a cursor, which names
the revision it belongs to and the place where the next page starts; a page that is too large
is halved until it fits.

* `CatalogPageV1.validate` — the check on both sides;
* `catalogPage` — one page of the registry;
* `boundedPage_spec` — from a place in the list of a registry that agrees with its catalog, a page
  is the next piece of the list, unless a single descriptor is too large;
* `cursorOffset_cursorText` — a cursor leads back to its place, or is a conflict.
-/
import MyFlowHub.RegistryAgree
import MyFlowHub.Base64

open Checks Protocol
open Std Tables Runs List
open Auth (Text maxItems)
open Encoding (parseUint formatUint hexEncode head_toDigits utf8Size_of_isDigit)

namespace Resource

def defaultCatalogPageItems : ℕ := 128
def maxCatalogPageItems : ℕ := 256
def maxCatalogCursorBytes : ℕ := 512

/-! ### Data and checks -/

structure CatalogListV1 where
  version : ℤ := 1
  limit : ℤ := 0
  cursor : String := ""
  deriving DecidableEq, Repr

structure CatalogPageV1 where
  version : ℤ := 1
  owner : NodeID
  instanceID : String
  revision : String
  offset : ℤ := 0
  total : ℤ
  resources : List ResourceDescriptorV2 := []
  nextCursor : String := ""
  deriving DecidableEq, Repr

structure CatalogCursor where
  version : ℤ := 1
  owner : NodeID
  instanceID : String
  revision : String
  offset : ℤ
  deriving DecidableEq, Repr

/-- `ParseVariableRevision`. -/
def parseVariableRevision (value : String) : Except String UInt64 := do
  require (¬(value = "" ∨ (∀ c ∈ value.toList.head?, c < '1' ∨ '9' < c) ∨ 20 < value.utf8ByteSize))
    "variable revision must be a canonical decimal string in 1..18446744073709551615"
  require (value.toList.all Char.isDigit = true)
    "variable revision must contain only ASCII decimal digits"
  match parseUint value with
  | some revision => .ok revision
  | none =>
    .error ("variable revision out of range: strconv.ParseUint: parsing " ++ value.quote ++
      ": value out of range")

def CatalogListV1.validate (r : CatalogListV1) : Except String Unit := do
  validateVersion r.version
  require (0 ≤ r.limit ∧ r.limit ≤ maxCatalogPageItems)
    ("catalog limit must be between 0 and " ++ toString maxCatalogPageItems)
  validateText "catalog cursor" r.cursor maxCatalogCursorBytes false

/-- The Variable that `Validate` makes of a cursor has neither a value nor an error nor times, so
that only its identity and its revision are left to check. -/
def CatalogCursor.validate (c : CatalogCursor) : Except String Unit := do
  require (c.version = 1 ∧ c.owner ≠ 0 ∧ 1 ≤ c.offset ∧ c.offset < maxItems)
    "invalid catalog cursor"
  validateHexID "instance_id" c.instanceID 16
  let _ ← parseVariableRevision c.revision
  return ()

variable (os : Text)

/-- The loop of `CatalogPageV1.Validate`; `seen` holds the resources before. -/
def validatePageMembers (owner : NodeID) :
    List ResourceID → List ResourceDescriptorV2 → Except String Unit
  | _, [] => .ok ()
  | seen, descriptor :: rest => do
    within ("catalog resources[" ++ toString seen.length ++ "]") (descriptor.validate os)
    require (descriptor.id.owner = owner) "catalog page contains a foreign owner"
    require (∀ before ∈ seen.getLast?, resourceBefore before descriptor.id)
      "catalog page resources must be strictly sorted"
    validatePageMembers owner (seen ++ [descriptor.id]) rest

def CatalogPageV1.validate (p : CatalogPageV1) : Except String Unit := do
  validateVersion p.version
  validateNodeID p.owner
  validateHexID "catalog instance_id" p.instanceID 16
  let _ ← parseVariableRevision p.revision
  require (1 ≤ p.total ∧ p.total ≤ maxItems ∧ 0 ≤ p.offset ∧ p.offset < p.total)
    "catalog page position is invalid"
  require (1 ≤ p.resources.length ∧ p.resources.length ≤ maxCatalogPageItems ∧
      p.resources.length ≤ p.total - p.offset)
    "catalog page resource count is invalid"
  require (p.offset + p.resources.length < p.total ↔ p.nextCursor ≠ "")
    "catalog continuation does not match remaining resources"
  validateText "catalog next_cursor" p.nextCursor maxCatalogCursorBytes false
  validatePageMembers os p.owner [] p.resources

/-! ### Encoding -/

/-- The errors of encoding and of a page, by what they wrap. -/
inductive PageError where
  | invalidPayload (text : String)
  | payloadTooLarge (text : String)
  | revisionConflict (text : String)
  deriving DecidableEq, Repr

/-- `EncodeJSONPayload` of a value with this check and this JSON text. -/
def encodeJSONPayload (check : Except String Unit) (data : List UInt8) (maxBytes : ℕ) :
    Except PageError (List UInt8) :=
  match check with
  | .error text => .error (.invalidPayload ("invalid protocol payload: " ++ text))
  | .ok _ =>
    if data.length = 0 then .error (.invalidPayload "invalid protocol payload: payload is empty")
    else if data.length > maxBytes then
      .error (.payloadTooLarge (errPayloadTooLarge ++ ": got " ++ toString
        data.length ++ ", max " ++
        toString maxBytes))
    else .ok data

/-- A registry, and what its pages take from the JSON library: the text of a page, and the text
of a cursor, which is short and can be read back.  The identity of the catalog Variable is the
hexadecimal form of sixteen bytes. -/
structure CatalogConfig extends RegistryConfig where
  marshalPage : CatalogPageV1 → List UInt8
  marshalPage_ne_nil : ∀ page, marshalPage page ≠ []
  marshalCursor : CatalogCursor → List UInt8
  unmarshalCursor : List UInt8 → Except String CatalogCursor
  marshalCursor_ne_nil : ∀ cursor, marshalCursor cursor ≠ []
  length_marshalCursor : ∀ cursor, cursor.validate = .ok () → (marshalCursor cursor).length ≤ 256
  unmarshal_marshal : ∀ cursor, cursor.validate = .ok () →
    unmarshalCursor (marshalCursor cursor) = .ok cursor
  identity : List UInt8
  length_identity : identity.length = 16
  instanceID_eq : catalog.instanceID = hexEncode identity

variable (cfg : CatalogConfig)

def encodeCatalogCursor (cursor : CatalogCursor) : Except PageError String :=
  match encodeJSONPayload cursor.validate (cfg.marshalCursor cursor)
      (maxCatalogCursorBytes * 3 / 4) with
  | .error err => .error err
  | .ok data => .ok (Base64.encode data)

/-- `DecodeJSONPayload` of the text of a cursor. -/
def decodeCatalogCursor (text : String) : Except PageError CatalogCursor :=
  match Base64.decode text with
  | none => .error (.invalidPayload "invalid protocol payload: invalid catalog cursor encoding")
  | some data =>
    if data.length = 0 then .error (.invalidPayload "invalid protocol payload: payload is empty")
    else if data.length > maxCatalogCursorBytes then
      .error (.payloadTooLarge (errPayloadTooLarge ++ ": got " ++ toString
        data.length ++ ", max " ++
        toString maxCatalogCursorBytes))
    else
      match cfg.unmarshalCursor data with
      | .error text =>
        .error (.invalidPayload ("invalid protocol payload: decode JSON: " ++ text))
      | .ok cursor =>
        match cursor.validate with
        | .error text => .error (.invalidPayload ("invalid protocol payload: " ++ text))
        | .ok _ => .ok cursor

/-! ### A page of the registry -/

def catalogHead (v : View) : CatalogPageV1 where
  owner := cfg.owner
  instanceID := cfg.catalog.instanceID
  revision := formatUint v.catalogRevision
  total := v.catalogDescriptors.length

/-- The place a cursor names, if it belongs to this revision. -/
def cursorOffset (v : View) (text : String) : Except PageError ℕ :=
  if text = "" then .ok 0
  else
    match decodeCatalogCursor cfg text with
    | .error err => .error err
    | .ok cursor =>
      if cursor.owner ≠ cfg.owner ∨ cursor.instanceID ≠ cfg.catalog.instanceID ∨
          cursor.revision ≠ formatUint v.catalogRevision then
        .error (.revisionConflict (errRevisionConflict ++ ": catalog changed; restart discovery"))
      else if cursor.offset ≥ v.catalogDescriptors.length then
        .error (.invalidPayload
          "invalid protocol payload: catalog cursor is outside the member set")
      else .ok cursor.offset.toNat

def cursorAt (v : View) (offset : ℕ) : CatalogCursor where
  owner := cfg.owner
  instanceID := cfg.catalog.instanceID
  revision := formatUint v.catalogRevision
  offset := offset

def nextCursor (v : View) (stop : ℕ) : Except PageError String :=
  if stop < v.catalogDescriptors.length then encodeCatalogCursor cfg (cursorAt cfg v stop)
  else .ok ""

def pageBetween (v : View) (offset stop : ℕ) (next : String) : CatalogPageV1 :=
  { catalogHead cfg v with
    offset := offset
    resources := (v.catalogDescriptors.drop offset).take (stop - offset)
    nextCursor := next }

/-- The loop of `catalogPage`. -/
def boundedPage (v : View) (offset stop : ℕ) : Except PageError CatalogPageV1 :=
  if _hlt : offset < stop then
    match nextCursor cfg v stop with
    | .error err => .error err
    | .ok next =>
      let page := pageBetween cfg v offset stop next
      match encodeJSONPayload (page.validate cfg.os) (cfg.marshalPage page) maxCatalogPageBytes with
      | .ok _ => .ok page
      | .error (.payloadTooLarge _) =>
        if _hone : stop - offset = 1 then
          .error (.payloadTooLarge
            (errPayloadTooLarge ++ ": a catalog descriptor exceeds the page budget"))
        else boundedPage v offset (offset + (stop - offset) / 2)
      | .error err => .error err
  else .error (.invalidPayload "invalid protocol payload: empty catalog page")
termination_by stop - offset
decreasing_by omega

def catalogPage (v : View) (input : CatalogListV1) : Except PageError CatalogPageV1 :=
  let limit := if input.limit = 0 then defaultCatalogPageItems else input.limit.toNat
  match cursorOffset cfg v input.cursor with
  | .error err => .error err
  | .ok offset => boundedPage cfg v offset (min (offset + limit) v.catalogDescriptors.length)

/-! ### Identity and revision -/

variable {cfg}

theorem utf8Size_hexDigit (d : ℕ) : (Encoding.hexDigit d).utf8Size = 1 := by
  by_cases hd : d < 16
  · revert d
    decide +kernel
  · have : Encoding.hexDigit d = '0' := getD_eq_default _ _ (Nat.not_lt.1 hd)
    rw [this]
    decide

theorem utf8ByteSize_hexEncode (bytes : List UInt8) :
    (hexEncode bytes).utf8ByteSize = bytes.length * 2 := by
  have hascii : ∀ c ∈ Encoding.hexChars bytes, c.utf8Size = 1 := by
    induction bytes with
    | nil => simp [Encoding.hexChars]
    | cons b bytes ih => simpa [Encoding.hexChars, utf8Size_hexDigit] using ih
  have hlength : (Encoding.hexChars bytes).length = bytes.length * 2 := by
    clear hascii
    induction bytes with
    | nil => rfl
    | cons b bytes ih =>
      simp only [Encoding.hexChars, length_cons, ih]
      omega
  rw [hexEncode, Base64.utf8ByteSize_ascii hascii, hlength]

theorem validateHexID_instanceID (cfg : CatalogConfig) (field : String) :
    validateHexID field cfg.catalog.instanceID 16 = .ok () := by
  unfold validateHexID
  rw [bind_eq_ok]
  refine ⟨(), require_eq_ok.2 ?_, require_eq_ok.2 ?_⟩
  · rw [cfg.instanceID_eq, utf8ByteSize_hexEncode, cfg.length_identity]
  · rw [cfg.instanceID_eq]
    exact Protocol.isHexID_hexEncode cfg.length_identity

theorem parseVariableRevision_formatUint {revision : UInt64} (h : revision ≠ 0) :
    parseVariableRevision (formatUint revision) = .ok revision := by
  have hpos : 0 < revision.toNat :=
    Nat.pos_of_ne_zero fun hzero => h (UInt64.toNat_inj.1 hzero)
  have hlist : (formatUint revision).toList = Nat.toDigits 10 revision.toNat := by
    simp [formatUint]
  have hdigits : (Nat.toDigits 10 revision.toNat).all Char.isDigit = true := by
    rw [all_eq_true]
    exact fun c hc => Nat.isDigit_of_mem_toDigits (by omega) le_rfl hc
  obtain ⟨c, hc, hlow, hhigh⟩ := head_toDigits hpos
  unfold parseVariableRevision
  rw [bind_eq_ok]
  refine ⟨(), require_eq_ok.2 ?_, ?_⟩
  · rintro (hempty | hhead | hlong)
    · rw [hempty] at hlist
      exact Nat.toDigits_ne_nil hlist.symm
    · rcases hhead c (hlist ▸ hc) with hc | hc
      · exact absurd hlow hc.not_ge
      · exact absurd hhigh hc.not_ge
    · have hascii : ∀ c ∈ Nat.toDigits 10 revision.toNat, c.utf8Size = 1 := fun c hc =>
        utf8Size_of_isDigit (Nat.isDigit_of_mem_toDigits (by omega) le_rfl hc)
      have hsize : (formatUint revision).utf8ByteSize =
        (Nat.toDigits 10 revision.toNat).length := by
        rw [← Base64.utf8ByteSize_ascii hascii, ← hlist, String.ofList_toList]
      have hbound : revision.toNat < 10 ^ 20 := revision.toNat_lt.trans (by norm_num)
      have hlength := (Nat.length_toDigits_le_iff (b := 10) (by omega) (by omega)).2 hbound
      omega
  · rw [bind_eq_ok]
    refine ⟨(), require_eq_ok.2 (hlist ▸ hdigits), ?_⟩
    rw [Encoding.parseUint_formatUint]

/-! ### What a page is -/

/-- A view of the registry that is served: it agrees with its catalog, and its revision and its
owner are set. -/
structure Served (cfg : CatalogConfig) (v : View) : Prop where
  agrees : Agrees cfg.toRegistryConfig v
  revision : v.catalogRevision ≠ 0
  owner : cfg.owner ≠ 0

namespace Served

variable {v : View} (h : Served cfg v)
include h

theorem length_pos : 0 < v.catalogDescriptors.length := by
  obtain ⟨member, hmember⟩ := Option.isSome_iff_exists.1 h.agrees.map.builtin
  obtain ⟨d, hd, -⟩ := h.agrees.map.named _ _ hmember
  exact length_pos_of_mem ((h.agrees.descriptors.listed d).2 ⟨_, _, hmember, hd⟩)

theorem length_le : v.catalogDescriptors.length ≤ maxItems := by
  rw [h.agrees.descriptors.count]
  exact h.agrees.map.size

theorem descriptor {d : ResourceDescriptorV2} (hd : d ∈ v.catalogDescriptors) :
    d.validate cfg.os = .ok () ∧ d.id.owner = cfg.owner := by
  obtain ⟨name, member, hmember, hnormalized⟩ := (h.agrees.descriptors.listed d).1 hd
  obtain ⟨d', hd', hid⟩ := h.agrees.map.named name member hmember
  rw [hnormalized, Except.ok.injEq] at hd'
  subst hd'
  exact ⟨(normalizeDescriptor_eq_ok cfg.os hnormalized).2, by rw [hid]⟩

theorem valid_cursorAt {offset : ℕ} (hpos : 0 < offset)
    (hlt : offset < v.catalogDescriptors.length) : (cursorAt cfg v offset).validate = .ok () := by
  have hle := h.length_le
  unfold CatalogCursor.validate
  rw [bind_eq_ok]
  refine ⟨(), require_eq_ok.2 ⟨rfl, h.owner, ?_, ?_⟩, ?_⟩
  · show (1 : ℤ) ≤ (offset : ℤ)
    omega
  · show (offset : ℤ) < (maxItems : ℤ)
    omega
  rw [bind_eq_ok]
  refine ⟨(), validateHexID_instanceID cfg _, ?_⟩
  rw [bind_eq_ok]
  exact ⟨_, parseVariableRevision_formatUint h.revision, rfl⟩

end Served

def cursorText (cfg : CatalogConfig) (v : View) (offset : ℕ) : String :=
  Base64.encode (cfg.marshalCursor (cursorAt cfg v offset))

theorem encodeJSONPayload_ok {data : List UInt8} {maxBytes : ℕ} (hne : data ≠ [])
    (hle : data.length ≤ maxBytes) : encodeJSONPayload (.ok ()) data maxBytes = .ok data := by
  unfold encodeJSONPayload
  dsimp only
  rw [if_neg fun hnil => hne (length_eq_zero_iff.1 hnil), if_neg (Nat.not_lt.2 hle)]

section Cursor

variable {v : View} (h : Served cfg v) {offset : ℕ} (hpos : 0 < offset)
  (hlt : offset < v.catalogDescriptors.length)
include h hpos hlt

theorem encodeCatalogCursor_cursorAt :
    encodeCatalogCursor cfg (cursorAt cfg v offset) = .ok (cursorText cfg v offset) := by
  have hvalid := h.valid_cursorAt hpos hlt
  have hlength := cfg.length_marshalCursor _ hvalid
  unfold encodeCatalogCursor
  rw [hvalid, encodeJSONPayload_ok (cfg.marshalCursor_ne_nil _) (hlength.trans (by decide))]
  rfl

theorem decodeCatalogCursor_cursorText :
    decodeCatalogCursor cfg (cursorText cfg v offset) = .ok (cursorAt cfg v offset) := by
  have hvalid := h.valid_cursorAt hpos hlt
  have hlength := cfg.length_marshalCursor _ hvalid
  have hne : (cfg.marshalCursor (cursorAt cfg v offset)).length ≠ 0 :=
    fun hnil => cfg.marshalCursor_ne_nil _ (length_eq_zero_iff.1 hnil)
  have hle : (cfg.marshalCursor (cursorAt cfg v offset)).length ≤ maxCatalogCursorBytes :=
    hlength.trans (by decide)
  unfold decodeCatalogCursor
  rw [cursorText, Base64.decode_encode]
  dsimp only
  rw [if_neg hne, if_neg (Nat.not_lt.2 hle), cfg.unmarshal_marshal _ hvalid]
  dsimp only
  rw [hvalid]

theorem cursorText_size : cursorText cfg v offset ≠ "" ∧
    (cursorText cfg v offset).utf8ByteSize ≤ maxCatalogCursorBytes := by
  have hlength := cfg.length_marshalCursor _ (h.valid_cursorAt hpos hlt)
  have hne : 0 < (cfg.marshalCursor (cursorAt cfg v offset)).length :=
    length_pos_iff.2 (cfg.marshalCursor_ne_nil _)
  have hsize : (cursorText cfg v offset).utf8ByteSize = _ := Base64.utf8ByteSize_encode _
  refine ⟨fun hempty => ?_, ?_⟩
  · rw [hempty, String.utf8ByteSize_empty] at hsize
    omega
  · unfold maxCatalogCursorBytes
    omega

end Cursor

def cursorAfter (cfg : CatalogConfig) (v : View) (stop : ℕ) : String :=
  if stop < v.catalogDescriptors.length then cursorText cfg v stop else ""

theorem nextCursor_eq {v : View} (h : Served cfg v) {stop : ℕ} (hpos : 0 < stop) :
    nextCursor cfg v stop = .ok (cursorAfter cfg v stop) := by
  unfold nextCursor cursorAfter
  split_ifs with hlt
  · exact encodeCatalogCursor_cursorAt h hpos hlt
  · rfl

theorem validatePageMembers_ok {os : Text} {owner : NodeID} {seen : List ResourceID}
    {l : List ResourceDescriptorV2} (hvalid : ∀ d ∈ l, d.validate os = .ok () ∧ d.id.owner = owner)
    (hsorted : l.Pairwise fun a b => a.id.name < b.id.name)
    (hseen : ∀ before ∈ seen.getLast?, ∀ d ∈ l, resourceBefore before d.id) :
    validatePageMembers os owner seen l = .ok () := by
  induction l generalizing seen with
  | nil => rfl
  | cons d l ih =>
    obtain ⟨hd, howner⟩ := hvalid d mem_cons_self
    obtain ⟨hfirst, hrest⟩ := pairwise_cons.1 hsorted
    unfold validatePageMembers
    rw [bind_eq_ok]
    refine ⟨(), within_eq_ok.2 hd, ?_⟩
    rw [bind_eq_ok]
    refine ⟨(), require_eq_ok.2 howner, ?_⟩
    rw [bind_eq_ok]
    refine ⟨(), require_eq_ok.2 fun before hbefore => hseen before hbefore d mem_cons_self, ?_⟩
    refine ih (fun d' hd' => hvalid d' (mem_cons_of_mem _ hd')) hrest ?_
    intro before hbefore d' hd'
    rw [List.getLast?_concat, Option.mem_some_iff] at hbefore
    subst hbefore
    exact Or.inr ⟨howner.trans (hvalid d' (mem_cons_of_mem _ hd')).2.symm, hfirst d' hd'⟩

section Page

variable {v : View} (h : Served cfg v) {offset stop : ℕ} (hlt : offset < stop)
  (hstop : stop ≤ v.catalogDescriptors.length)

include hlt hstop in
theorem length_pageBetween (next : String) :
    (pageBetween cfg v offset stop next).resources.length = stop - offset := by
  simp only [pageBetween, length_take, length_drop]
  omega

include h hlt hstop in
theorem validate_pageBetween (hitems : stop - offset ≤ maxCatalogPageItems) :
    (pageBetween cfg v offset stop (cursorAfter cfg v stop)).validate cfg.os = .ok () := by
  have hlength : (pageBetween cfg v offset stop (cursorAfter cfg v stop)).resources.length =
      stop - offset := length_pageBetween hlt hstop _
  have hle := h.length_le
  have hsub : ∀ d ∈ (v.catalogDescriptors.drop offset).take (stop - offset),
      d ∈ v.catalogDescriptors := fun d hd => mem_of_mem_drop (mem_of_mem_take hd)
  unfold CatalogPageV1.validate
  rw [bind_eq_ok]
  refine ⟨(), require_eq_ok.2 rfl, ?_⟩
  rw [bind_eq_ok]
  refine ⟨(), require_eq_ok.2 h.owner, ?_⟩
  rw [bind_eq_ok]
  refine ⟨(), validateHexID_instanceID cfg _, ?_⟩
  rw [bind_eq_ok]
  refine ⟨_, parseVariableRevision_formatUint h.revision, ?_⟩
  rw [bind_eq_ok]
  refine ⟨(), require_eq_ok.2 ?_, ?_⟩
  · show 1 ≤ (v.catalogDescriptors.length : ℤ) ∧ (v.catalogDescriptors.length : ℤ) ≤
      (maxItems : ℤ) ∧
      0 ≤ (offset : ℤ) ∧ (offset : ℤ) < v.catalogDescriptors.length
    omega
  rw [bind_eq_ok]
  refine ⟨(), require_eq_ok.2 ?_, ?_⟩
  · rw [hlength]
    show 1 ≤ stop - offset ∧ stop - offset ≤ maxCatalogPageItems ∧
      ((stop - offset : ℕ) : ℤ) ≤ (v.catalogDescriptors.length : ℤ) - (offset : ℤ)
    omega
  rw [bind_eq_ok]
  refine ⟨(), require_eq_ok.2 ?_, ?_⟩
  · rw [hlength]
    show (offset : ℤ) + ((stop - offset : ℕ) : ℤ) < (v.catalogDescriptors.length : ℤ) ↔
      cursorAfter cfg v stop ≠ ""
    unfold cursorAfter
    split_ifs with hmore
    · exact iff_of_true (by omega) (cursorText_size h (by omega) hmore).1
    · exact iff_of_false (by omega) (not_not_intro rfl)
  rw [bind_eq_ok]
  refine ⟨(), ?_, ?_⟩
  · unfold validateText
    rw [bind_eq_ok]
    refine ⟨(), require_eq_ok.2 (by simp), require_eq_ok.2 ?_⟩
    show (cursorAfter cfg v stop).utf8ByteSize ≤ maxCatalogCursorBytes
    unfold cursorAfter
    split_ifs with hmore
    · exact (cursorText_size h (by omega) hmore).2
    · decide
  · exact validatePageMembers_ok (fun d hd => h.descriptor (hsub d hd))
      (h.agrees.descriptors.sorted.sublist ((take_sublist _ _).trans (drop_sublist _ _))) (by simp)

end Page

/-- A single descriptor is too large for a page. -/
def OverBudget (cfg : CatalogConfig) (v : View) (offset : ℕ) : Prop :=
  maxCatalogPageBytes <
    (cfg.marshalPage (pageBetween cfg v offset (offset + 1)
      (cursorAfter cfg v (offset + 1)))).length

/-- **The loop ends with a piece of the list**, unless a single descriptor is too large. -/
theorem boundedPage_spec {v : View} (h : Served cfg v) {offset stop : ℕ} (hlt : offset < stop)
    (hstop : stop ≤ v.catalogDescriptors.length) (hitems : stop - offset ≤ maxCatalogPageItems) :
    (∃ stop', offset < stop' ∧ stop' ≤ stop ∧
      boundedPage cfg v offset stop = .ok (pageBetween cfg v offset stop'
        (cursorAfter cfg v stop'))) ∨
    (OverBudget cfg v offset ∧ boundedPage cfg v offset stop = .error (.payloadTooLarge
      (errPayloadTooLarge ++ ": a catalog descriptor exceeds the page budget"))) := by
  induction hn : stop - offset using Nat.strong_induction_on generalizing stop with
  | _ n ih =>
    subst hn
    have hvalid := validate_pageBetween h hlt hstop hitems
    rw [boundedPage, dif_pos hlt, nextCursor_eq h (by omega)]
    dsimp only
    rw [hvalid]
    by_cases hsize : (cfg.marshalPage
        (pageBetween cfg v offset stop (cursorAfter cfg v stop))).length ≤ maxCatalogPageBytes
    · left
      refine ⟨stop, hlt, le_rfl, ?_⟩
      rw [encodeJSONPayload_ok (cfg.marshalPage_ne_nil _) hsize]
    · have herror : ∃ text, encodeJSONPayload (.ok ()) (cfg.marshalPage
          (pageBetween cfg v offset stop (cursorAfter cfg v stop))) maxCatalogPageBytes =
          .error (.payloadTooLarge text) := by
        unfold encodeJSONPayload
        dsimp only
        rw [if_neg (by omega), if_pos (by omega)]
        exact ⟨_, rfl⟩
      obtain ⟨text, herror⟩ := herror
      rw [herror]
      dsimp only
      by_cases hone : stop - offset = 1
      · right
        rw [dif_pos hone]
        refine ⟨?_, rfl⟩
        obtain rfl : stop = offset + 1 := by omega
        exact Nat.not_le.1 hsize
      · rw [dif_neg hone]
        have hhalf : offset < offset + (stop - offset) / 2 := by omega
        rcases ih _ (by omega) hhalf (by omega) (by omega) rfl with
          ⟨stop', hlt', hle', hpage⟩ | hover
        · exact Or.inl ⟨stop', hlt', by omega, hpage⟩
        · exact Or.inr hover

/-- The cursor of another page of the same revision leads on; any other revision is a conflict. -/
theorem cursorOffset_cursorText {v w : View} (hw : Served cfg w) {offset : ℕ} (hpos : 0 < offset)
    (hlt : offset < w.catalogDescriptors.length) :
    cursorOffset cfg v (cursorText cfg w offset) =
      if w.catalogRevision = v.catalogRevision then
        if offset < v.catalogDescriptors.length then .ok offset
        else .error (.invalidPayload
          "invalid protocol payload: catalog cursor is outside the member set")
      else .error (.revisionConflict (errRevisionConflict ++
        ": catalog changed; restart discovery")) := by
  unfold cursorOffset
  rw [if_neg (cursorText_size hw hpos hlt).1, decodeCatalogCursor_cursorText hw hpos hlt]
  have hconflict : ((cursorAt cfg w offset).owner ≠ cfg.owner ∨
      (cursorAt cfg w offset).instanceID ≠ cfg.catalog.instanceID ∨
      (cursorAt cfg w offset).revision ≠ formatUint v.catalogRevision) ↔
      w.catalogRevision ≠ v.catalogRevision := by
    simp only [cursorAt, ne_eq, not_true_eq_false, false_or]
    exact not_congr ⟨Encoding.formatUint_injective, congrArg _⟩
  have hoffset : (cursorAt cfg w offset).offset ≥ (v.catalogDescriptors.length : ℤ) ↔
      ¬ offset < v.catalogDescriptors.length := by
    show (v.catalogDescriptors.length : ℤ) ≤ (offset : ℤ) ↔ _
    omega
  dsimp only
  simp only [hconflict, hoffset, ite_not]
  rfl

end Resource
