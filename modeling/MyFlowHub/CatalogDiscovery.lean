/-
Discovery of a catalog by following cursors, on the side of the node that serves it.

A discovery asks for pages, with any limits, while callers of the registry change its members.
The cursor of a page names the revision of the catalog, and revisions only go up
(`base_step`), so that the pages of one discovery are pieces of one list.

* `Position` — the pages so far are the beginning of the list of one revision;
* `Discovery.Sound` — the invariant of runs;
* `discovery_sound` — a discovery is complete or fails for one of two reasons.
-/
import MyFlowHub.CatalogPage

open Checks
open Std Tables Runs List
open Auth (maxItems)
open Encoding (formatUint)

namespace Resource

open RegistrySystem

/-! ### Revisions go up -/

section Frame

variable {cfg : RegistryConfig} {m : RegistrySystem} {t : ℕ} {input : RegistryInput}

theorem advance_base {p : RegistryPhase} (hp : ∀ job outcome drain, p ≠ .unlocking job
    outcome drain) :
    (m.advance cfg t input p).base = m.base ∧ (m.advance cfg t input p).log = m.log := by
  have hretry : ∀ job change plan text, (m.retry cfg t job change plan text).base = m.base ∧
      (m.retry cfg t job change plan text).log = m.log := by
    intro job change plan text
    unfold retry
    split <;> exact ⟨rfl, rfl⟩
  cases p with
  | unlocking job outcome drain => exact absurd rfl (hp job outcome drain)
  | idle => exact ⟨rfl, rfl⟩
  | committed job change plan drain => exact ⟨rfl, rfl⟩
  | releasing outcome drain => exact ⟨rfl, rfl⟩
  | leaving outcome drain => exact ⟨rfl, rfl⟩
  | done outcome => exact ⟨rfl, rfl⟩
  | reading job change plan =>
    unfold advance
    dsimp only
    split
    · exact hretry _ _ _ _
    · exact ⟨rfl, rfl⟩
  | checking job change plan revision =>
    unfold advance
    dsimp only
    split
    · exact hretry _ _ _ _
    · exact hretry _ _ _ _
    · exact ⟨rfl, rfl⟩
  | _ =>
    unfold advance
    dsimp only
    split <;> exact ⟨rfl, rfl⟩

theorem call_base (job : Except String Job) :
    (m.call t job).base = m.base ∧ (m.call t job).log = m.log := by
  unfold call
  split <;> exact ⟨rfl, rfl⟩

theorem base_step {start : View} (h : Sound cfg start m) (a : RegistryAct) :
    ((m.step cfg a).base = m.base ∨
      (m.step cfg a).base.catalogRevision.toNat = m.base.catalogRevision.toNat + 1) ∧
    ∀ e ∈ m.log, e ∈ (m.step cfg a).log := by
  -- a step leaves the base, or raises its revision; it only adds to the history
  have hsame : ∀ {m' : RegistrySystem}, m'.base = m.base ∧ m'.log = m.log →
      (m'.base = m.base ∨ m'.base.catalogRevision.toNat = m.base.catalogRevision.toNat + 1) ∧
      ∀ e ∈ m.log, e ∈ m'.log := fun ⟨hbase, hlog⟩ => ⟨.inl hbase, fun e he => hlog ▸ he⟩
  cases a with
  | register t values => exact hsame (call_base _)
  | remove t id => exact hsame (call_base _)
  | advance t input =>
    by_cases hp : ∀ job outcome drain, m.phase t ≠ .unlocking job outcome drain
    · exact hsame (advance_base hp)
    · push Not at hp
      obtain ⟨job, outcome, drain, hphase⟩ := hp
      have heffect := h.fits t
      unfold step
      dsimp only
      rw [hphase] at heffect ⊢
      refine ⟨?_, fun e he => mem_append_left _ he⟩
      cases outcome with
      | error text => exact .inl heffect
      | ok _ => exact .inr heffect.2.1
  | read =>
    refine hsame ?_
    unfold step
    dsimp only
    split <;> exact ⟨rfl, rfl⟩
  | watch =>
    refine hsame ?_
    unfold step
    dsimp only
    split <;> exact ⟨rfl, rfl⟩
  | cancel watcher => exact hsame ⟨rfl, rfl⟩
  | detach watcher => exact hsame ⟨rfl, rfl⟩

end Frame

/-! ### Discoveries -/

inductive DiscoveryStatus where
  | following
  | finished
  /-- with what was served when the request was refused -/
  | failed (err : PageError) (served : View)

/-- A discovery at a registry: its cursor, and the pages it was given. -/
structure Discovery where
  sys : RegistrySystem
  cursor : String := ""
  pages : List CatalogPageV1 := []
  status : DiscoveryStatus := .following

inductive DiscoveryAct where
  | registry (act : RegistryAct)
  /-- Ask for the next page, with one of the limits `CatalogListV1.Validate` lets pass. -/
  | page (limit : Fin (maxCatalogPageItems + 1))

namespace Discovery

variable (cfg : CatalogConfig) (d : Discovery)

/-- The answer to a request, made of the view `served`. -/
def receive (served : View) : Except PageError CatalogPageV1 → Discovery
  | .error err => { d with status := .failed err served }
  | .ok page =>
    { d with
      pages := d.pages ++ [page]
      cursor := page.nextCursor
      status := if page.nextCursor = "" then .finished else .following }

def step (d : Discovery) : DiscoveryAct → Discovery
  | .registry act => { d with sys := d.sys.step cfg.toRegistryConfig act }
  | .page limit =>
    match d.status, d.sys.mu with
    | .following, none =>
      d.receive d.sys.reg.view
        (catalogPage cfg d.sys.reg.view { limit := limit.val, cursor := d.cursor })
    | _, _ => d

def run (r : Registry) (as : List DiscoveryAct) : Discovery :=
  as.foldl (step cfg) { sys := .start r }

end Discovery

/-! ### The pages of one revision -/

variable {cfg : CatalogConfig}

/-- A view of the registry at some moment since the start. -/
def PastView (start : View) (m : RegistrySystem) (v : View) : Prop :=
  v = start ∨ ∃ e ∈ m.log, v = e.after

/-- The pages belong to one view and are the beginning of its list. -/
structure PagesOf (cfg : CatalogConfig) (v : View) (pages : List CatalogPageV1) (offset : ℕ) :
    Prop where
  served : Served cfg v
  got : pages.flatMap (·.resources) = v.catalogDescriptors.take offset
  each : ∀ page ∈ pages, page.owner = cfg.owner ∧ page.instanceID = cfg.catalog.instanceID ∧
    page.revision = formatUint v.catalogRevision
  count : pages.length ≤ offset
  bound : offset ≤ v.catalogDescriptors.length

/-- The view is past, and no other list has its revision. -/
structure Position (start : View) (m : RegistrySystem) (v : View) : Prop where
  past : PastView start m v
  older : v.catalogRevision.toNat ≤ m.base.catalogRevision.toNat
  same : v.catalogRevision = m.base.catalogRevision → v.catalogDescriptors =
    m.base.catalogDescriptors

theorem Position.step {start v : View} {m : RegistrySystem} (h : Position start m v)
    (hsound : Sound cfg.toRegistryConfig start m) (a : RegistryAct) :
    Position start (m.step cfg.toRegistryConfig a) v := by
  obtain ⟨hbase, hlog⟩ := base_step hsound a
  refine ⟨h.past.imp_right fun ⟨e, he, hv⟩ => ⟨e, hlog e he, hv⟩, ?_, fun hrevision => ?_⟩
  · rcases hbase with hbase | hbase
    · rw [hbase]
      exact h.older
    · exact h.older.trans (by omega)
  · rcases hbase with hbase | hbase
    · rw [hbase] at hrevision ⊢
      exact h.same hrevision
    · have := congrArg UInt64.toNat hrevision
      have := h.older
      omega

theorem PagesOf.concat {v w : View} {pages : List CatalogPageV1} {offset stop : ℕ}
    (h : PagesOf cfg v pages offset) (next : String)
      (hrevision : w.catalogRevision = v.catalogRevision)
    (hdescriptors : w.catalogDescriptors = v.catalogDescriptors) (hlt : offset < stop)
    (hstop : stop ≤ v.catalogDescriptors.length) :
    PagesOf cfg v (pages ++ [pageBetween cfg w offset stop next]) stop := by
  have hsplit : stop = offset + (stop - offset) := by omega
  refine ⟨h.served, ?_, fun page hpage => ?_, ?_, hstop⟩
  · rw [flatMap_append, h.got]
    simp only [flatMap_cons, flatMap_nil, append_nil, pageBetween, hdescriptors]
    conv_rhs => rw [hsplit, take_add]
  · rcases mem_append.1 hpage with hpage | hpage
    · exact h.each page hpage
    · rw [mem_singleton.1 hpage]
      exact ⟨rfl, rfl, by rw [← hrevision]; rfl⟩
  · have := h.count
    simp only [length_append, length_cons, length_nil]
    omega

/-! ### Runs -/

/-- **The two ways a discovery fails**, by the view that was served: its revision is not the one of
the pages there are, or it is, and the descriptor after them is too large for a page. -/
def Excused (cfg : CatalogConfig) (start : View) (m : RegistrySystem) (pages : List CatalogPageV1)
    (err : PageError) (v : View) : Prop :=
  PastView start m v ∧
    ((err = .revisionConflict (errRevisionConflict ++ ": catalog changed; restart discovery") ∧
      pages ≠ [] ∧ ∀ page ∈ pages, page.revision ≠ formatUint v.catalogRevision) ∨
    (err = .payloadTooLarge (errPayloadTooLarge ++
      ": a catalog descriptor exceeds the page budget") ∧
      (∀ page ∈ pages, page.revision = formatUint v.catalogRevision) ∧
      (pages.flatMap (·.resources)).length < v.catalogDescriptors.length ∧
      OverBudget cfg v (pages.flatMap (·.resources)).length))

def DiscoveryStatus.OK (cfg : CatalogConfig) (start : View) (m : RegistrySystem)
    (pages : List CatalogPageV1) (cursor : String) : DiscoveryStatus → Prop
  | .following => (pages = [] ∧ cursor = "") ∨ ∃ v offset, Position start m v ∧
      PagesOf cfg v pages offset ∧ 0 < offset ∧ offset < v.catalogDescriptors.length ∧
      cursor = cursorText cfg v offset
  | .finished => ∃ v, PastView start m v ∧ PagesOf cfg v pages v.catalogDescriptors.length
  | .failed err v => Excused cfg start m pages err v

structure Discovery.Sound (cfg : CatalogConfig) (start : View) (d : Discovery) : Prop where
  sys : Resource.Sound cfg.toRegistryConfig start d.sys
  revision : 0 < d.sys.base.catalogRevision.toNat
  status : d.status.OK cfg start d.sys d.pages d.cursor
  count : d.pages.length ≤ maxItems

namespace Discovery.Sound

variable {start : View} {d : Discovery}

variable (h : d.Sound cfg start)
include h

theorem registry (a : RegistryAct) :
    ({ d with sys := d.sys.step cfg.toRegistryConfig a } : Discovery).Sound cfg start := by
  obtain ⟨hbase, hlog⟩ := base_step h.sys a
  refine ⟨h.sys.step a, ?_, ?_, h.count⟩
  · show 0 < (d.sys.step cfg.toRegistryConfig a).base.catalogRevision.toNat
    rcases hbase with hbase | hbase
    · rw [hbase]
      exact h.revision
    · omega
  · have hstatus := h.status
    show d.status.OK cfg start (d.sys.step cfg.toRegistryConfig a) d.pages d.cursor
    cases hs : d.status with
    | following =>
      rw [hs] at hstatus
      rcases hstatus with hfirst | ⟨v, offset, hposition, hrest⟩
      · exact .inl hfirst
      · exact .inr ⟨v, offset, hposition.step h.sys a, hrest⟩
    | finished =>
      rw [hs] at hstatus
      obtain ⟨v, hpast, hpages⟩ := hstatus
      exact ⟨v, hpast.imp_right fun ⟨e, he, hv⟩ => ⟨e, hlog e he, hv⟩, hpages⟩
    | failed err v =>
      rw [hs] at hstatus
      exact ⟨hstatus.1.imp_right fun ⟨e, he, hv⟩ => ⟨e, hlog e he, hv⟩, hstatus.2⟩

theorem served (howner : cfg.owner ≠ 0) : Served cfg d.sys.base := by
  refine ⟨h.sys.agrees, fun hzero => ?_, howner⟩
  have hpos := h.revision
  rw [hzero] at hpos
  exact absurd hpos (by decide)

theorem receive_page {v : View} {offset limit : ℕ} (hserved : Served cfg d.sys.base)
    (hposition : Position start d.sys v) (hpages : PagesOf cfg v d.pages offset)
    (hlt : offset < v.catalogDescriptors.length)
    (hrevision : v.catalogRevision = d.sys.base.catalogRevision) (hlimit : 0 < limit)
    (hitems : limit ≤ maxCatalogPageItems) :
    (d.receive d.sys.base (boundedPage cfg d.sys.base offset
      (min (offset + limit) d.sys.base.catalogDescriptors.length))).Sound cfg start := by
  have hdescriptors := hposition.same hrevision
  rw [hdescriptors] at hlt
  have hfirst : offset < min (offset + limit) d.sys.base.catalogDescriptors.length := by omega
  rcases boundedPage_spec hserved hfirst (Nat.min_le_right _ _) (by omega) with
    ⟨stop, hlt', hle, hpage⟩ | ⟨hover, herror⟩
  · have hstop : stop ≤ v.catalogDescriptors.length := by
      rw [hdescriptors]
      omega
    have hmore := hpages.concat (cursorAfter cfg d.sys.base stop) hrevision.symm hdescriptors.symm
      hlt' hstop
    have hcount : (d.pages ++ [pageBetween cfg d.sys.base offset stop
        (cursorAfter cfg d.sys.base stop)]).length ≤ maxItems :=
      hmore.count.trans (hstop.trans hmore.served.length_le)
    rw [hpage]
    refine ⟨h.sys, h.revision, ?_, hcount⟩
    show DiscoveryStatus.OK cfg start d.sys (d.pages ++ [_]) (cursorAfter cfg d.sys.base stop)
      (if cursorAfter cfg d.sys.base stop = "" then .finished else .following)
    by_cases hend : stop < d.sys.base.catalogDescriptors.length
    · have hnext : cursorAfter cfg d.sys.base stop = cursorText cfg d.sys.base stop := if_pos hend
      have hne : cursorAfter cfg d.sys.base stop ≠ "" := by
        rw [hnext]
        exact (cursorText_size hserved (by omega) hend).1
      rw [if_neg hne]
      refine .inr ⟨v, stop, hposition, hmore, by omega, by rw [hdescriptors]; exact hend, ?_⟩
      rw [hnext]
      unfold cursorText cursorAt
      rw [hrevision]
    · have hnext : cursorAfter cfg d.sys.base stop = "" := if_neg hend
      rw [if_pos hnext]
      have hall : stop = v.catalogDescriptors.length := by
        rw [hdescriptors] at hstop ⊢
        omega
      refine ⟨v, hposition.past, ?_⟩
      rw [← hall]
      exact hmore
  · have hgot : (d.pages.flatMap (·.resources)).length = offset := by
      rw [hpages.got, length_take, min_eq_left hpages.bound]
    have hnext : OverBudget cfg d.sys.base (d.pages.flatMap (·.resources)).length := by
      rw [hgot]
      exact hover
    rw [herror]
    refine { h with status :=
      ⟨h.sys.chained.last, .inr ⟨rfl, fun page hpage => ?_, hgot.trans_lt hlt, hnext⟩⟩ }
    rw [← hrevision]
    exact (hpages.each page hpage).2.2

theorem page (howner : cfg.owner ≠ 0) (limit : Fin (maxCatalogPageItems + 1)) :
    (d.step cfg (.page limit)).Sound cfg start := by
  have hserved := h.served howner
  unfold Discovery.step
  dsimp only
  split
  case h_2 => exact h
  case h_1 hstatus hmu =>
    have hok := h.status
    rw [hstatus] at hok
    rw [h.sys.free hmu]
    unfold catalogPage
    dsimp only
    obtain ⟨items, hitems, hpos, hle⟩ : ∃ items : ℕ, (if (limit.val : ℤ) = 0 then
        defaultCatalogPageItems else (limit.val : ℤ).toNat) = items ∧ 0 < items ∧
        items ≤ maxCatalogPageItems := by
      refine ⟨_, rfl, ?_, ?_⟩
      · split_ifs with hzero
        · decide
        · omega
      · split_ifs with hzero
        · decide
        · have := limit.isLt
          omega
    rw [hitems]
    rcases hok with ⟨hpages, hcursor⟩ | ⟨v, offset, hposition, hpages, hoffset, hlt, hcursor⟩
    · -- the first page belongs to what is served now
      rw [hcursor]
      unfold cursorOffset
      rw [if_pos rfl]
      have hfirst : PagesOf cfg d.sys.base d.pages 0 := by
        rw [hpages]
        exact ⟨hserved, by simp, by simp, le_rfl, Nat.zero_le _⟩
      have hposition : Position start d.sys d.sys.base :=
        ⟨h.sys.chained.last, le_rfl, fun _ => rfl⟩
      exact h.receive_page hserved hposition hfirst hserved.length_pos rfl hpos hle
    · rw [hcursor, cursorOffset_cursorText hpages.served hoffset hlt]
      by_cases hrevision : v.catalogRevision = d.sys.base.catalogRevision
      · rw [if_pos hrevision, if_pos (hposition.same hrevision ▸ hlt)]
        exact h.receive_page hserved hposition hpages hlt hrevision hpos hle
      · rw [if_neg hrevision]
        have hsome : d.pages ≠ [] := by
          rintro hnil
          have hgot := congrArg List.length hpages.got
          rw [hnil, length_take] at hgot
          simp only [flatMap_nil, length_nil] at hgot
          omega
        refine { h with status := ⟨h.sys.chained.last, .inl
          ⟨rfl, hsome, fun page hpage heq => ?_⟩⟩ }
        rw [(hpages.each page hpage).2.2] at heq
        exact hrevision (Encoding.formatUint_injective heq)

theorem step (howner : cfg.owner ≠ 0) (a : DiscoveryAct) : (d.step cfg a).Sound cfg start := by
  cases a with
  | registry a => exact h.registry a
  | page limit => exact h.page howner limit

end Discovery.Sound

theorem discovery_sound {now : ℤ} {r : Registry} (h : newRegistry cfg.toRegistryConfig now = .ok r)
    (as : List DiscoveryAct) : (Discovery.run cfg r as).Sound cfg r.view := by
  have howner : cfg.owner ≠ 0 := by
    obtain ⟨_, howner, -⟩ := bind_eq_ok.1 h
    exact require_eq_ok.1 howner
  refine foldl_invariant (fun d a hd => hd.step howner a) ?_ as
  refine ⟨sound_run h [], ?_, .inl ⟨rfl, rfl⟩, Nat.zero_le _⟩
  obtain ⟨_, -, h⟩ := bind_eq_ok.1 h
  obtain ⟨_, -, h⟩ := bind_eq_ok.1 h
  obtain ⟨_, -, h⟩ := bind_eq_ok.1 h
  obtain ⟨_, -, h⟩ := bind_eq_ok.1 h
  cases h
  exact Nat.one_pos

end Resource
