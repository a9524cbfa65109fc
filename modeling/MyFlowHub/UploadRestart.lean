/-
Completed uploads and restarts of the controller.

A site is a storage root with or without a running controller.  The controller is called, closed
(calls may still reach it then), and started again over the same root, after a crash or not;
`Register` removes the stale temporary files.

* `Outside` — a path that `cleanupTemp` would not remove and no temporary file has;
* `Held` — the invariant of a running controller, closed or not;
* **`activated_files_kept`** — a completed upload stays, when no offer names a temporary file;
* `activated_file_removed` — one that does is removed by the next start.
-/
import MyFlowHub.UploadSessions

open Encoding (hexEncode)
open Checks Enrollment Protocol List
open Filesystem

namespace Upload

open Controller

/-! ### Paths -/

/-- Not a temporary file of the controller, by its name. -/
def Outside (p : Path) : Prop := ¬ ∃ name, p = tempRoot ++ [name] ∧ stale name = true

instance (p : Path) : Decidable (Outside p) :=
  decidable_of_iff (¬(p.length = 2 ∧ p.head? = some ".mfh-tmp" ∧ stale (p.getLastD "") =
    true)) <| by
    rw [Outside, not_iff_not]
    constructor
    · rintro ⟨hlength, hhead, hstale⟩
      obtain ⟨a, b, rfl⟩ := length_eq_two.1 hlength
      obtain rfl : a = ".mfh-tmp" := by simpa using hhead
      exact ⟨b, rfl, hstale⟩
    · rintro ⟨name, rfl, hstale⟩
      exact ⟨rfl, rfl, hstale⟩

theorem trimPart_append (id : String) : trimPart (id ++ ".part") = some id := by
  have hlist : (id ++ ".part").toList = id.toList ++ ".part".toList := String.toList_append
  rw [trimPart, if_pos (by rw [hlist]; exact suffix_append _ _), hlist]
  congr 1
  have hlength : (id.toList ++ ".part".toList).length - 5 = id.toList.length := by
    rw [length_append]
    rfl
  rw [hlength, take_left, String.ofList_toList]

theorem stale_temp {id : String} (h : validateHexID "transfer_id" id 16 = .ok ()) :
    stale (id ++ ".part") = true := by
  obtain ⟨_, hlength, hhex⟩ := bind_eq_ok.1 h
  rw [require_eq_ok] at hlength hhex
  have hsize : (id ++ ".part").utf8ByteSize = 37 := by
    rw [String.utf8ByteSize_append, hlength]
    rfl
  rw [stale, trimPart_append]
  simp [hsize, hhex]

theorem not_outside_tempPath {id : String} (h : validateHexID "transfer_id" id 16 = .ok ()) :
    ¬ Outside (tempPath id) :=
  fun houtside => houtside ⟨id ++ ".part", rfl, stale_temp h⟩

theorem tempPath_injective {id id' : String} (h : tempPath id = tempPath id') : id = id' := by
  have hname : id ++ ".part" = id' ++ ".part" := by simpa [tempPath] using h
  have htrim := congrArg trimPart hname
  rw [trimPart_append, trimPart_append] at htrim
  exact Option.some.inj htrim

/-- The offers whose destination is not a temporary file. -/
def Apart (o : FileOfferV1) : Prop := o.validate = .ok () → Outside (segments o.path)

/-! ### Sites -/

/-- A storage root, with the controller that runs on it. -/
inductive Site where
  | up (c : Controller)
  | down (disk : FS)

def Site.disk : Site → FS
  | .up c => c.disk
  | .down disk => disk

inductive Act where
  | call (request : Call)
  | close (faults : Faults)
  /-- The process ends, if it runs, and starts again. -/
  | restart (faults : Faults) (config : Config)

def Site.step (sha256 : Bytes → Bytes) (site : Site) : Act → Site
  | .call request =>
    match site with
    | .up c => .up (c.step sha256 request)
    | .down disk => .down disk
  | .close faults =>
    match site with
    | .up c => .up (c.close faults)
    | .down disk => .down disk
  | .restart faults config =>
    match register faults config site.disk with
    | (.ok c, _) => .up c
    | (.error _, disk) => .down disk

def Act.Offers (P : FileOfferV1 → Prop) : Act → Prop
  | .call request => request.Offers P
  | _ => True

/-! ### The invariant -/

structure Kept (c : Controller) (t : Transfer) : Prop where
  valid : t.offer.validate = .ok ()
  outside : Outside t.finalPath
  temp_eq : t.tempPath = tempPath t.id
  final_eq : t.finalPath = segments t.offer.path
  opened : t.isOpen = true → t.active = true ∧ c.disk.lookup t.tempPath = some (.file t.inode)
  finished : t.state = .completed →
    c.disk.lookup t.finalPath = some (.file t.inode) ∧ ¬ Handled c t.inode

structure Held (c : Controller) : Prop where
  distinct : Roster.Distinct Transfer.id c.transfers
  kept : ∀ t ∈ c.transfers, Kept c t

variable {sha256 : Bytes → Bytes} {F : Faults → Prop} {c c' : Controller} {t u : Transfer}
  {faults : Faults} {disk disk' : FS}

theorem Kept.not_outside (h : Kept c t) : ¬ Outside t.tempPath := by
  rw [h.temp_eq]
  exact not_outside_tempPath (UploadSession.offer_checked h.valid).1

theorem Held.placed (h : Held c) : Placed c := fun t ht hopen => ((h.kept t ht).opened hopen).2

theorem Held.temp_ne (h : Held c) (ht : t ∈ c.transfers) (hu : u ∈ c.transfers)
    (hid : u.id ≠ t.id) :
    u.tempPath ≠ t.tempPath := by
  rw [(h.kept u hu).temp_eq, (h.kept t ht).temp_eq]
  exact fun heq => hid (tempPath_injective heq)

theorem Held.keeps (h : Held c) (hmove : Move sha256 Apart F c c') : Keeps Outside c c' := by
  refine hmove.keeps h.placed fun t ht _ houtside => ?_
  exact absurd houtside (h.kept t ht).not_outside

theorem Kept.carry (h : Kept c t) (hkeeps : Keeps Outside c c')
    (hopen : t.isOpen = true → c'.disk.lookup t.tempPath = c.disk.lookup t.tempPath) :
      Kept c' t where
  __ := h
  opened := by
  -- what carries a transfer over a change that keeps it: its temporary file, if it is open
    intro ho
    obtain ⟨hactive, hlookup⟩ := h.opened ho
    exact ⟨hactive, (hopen ho).trans hlookup⟩
  finished := by
    intro hstate
    obtain ⟨hlookup, hfree⟩ := h.finished hstate
    obtain ⟨hlookup', -, hfree'⟩ := hkeeps _ _ h.outside hlookup hfree
    exact ⟨hlookup', hfree'⟩

section

variable (h : Held c)
include h

/-- A transfer is closed and its temporary file perhaps removed; it does not become completed. -/
theorem Held.shut (ht : t ∈ c.transfers) {b : ℤ} {state : TransferState} {err : String}
    (hstate : state = .completed → t.state = .completed)
    (hlookup : ∀ p, p ≠ t.tempPath → disk.lookup p = c.disk.lookup p)
    (hkeeps : Keeps Outside c ({ c with disk, activeBytes := b }.set
      { t with isOpen := false, state, err })) :
    Held ({ c with disk, activeBytes := b }.set { t with isOpen := false, state, err }) := by
  refine ⟨distinct_set h.distinct, fun u hu => ?_⟩
  rcases mem_set.1 hu with ⟨rfl, -⟩ | ⟨hu, hid⟩
  · have hkept := h.kept t ht
    refine { hkept with opened := by rintro ⟨⟩, finished := fun hcompleted => ?_ }
    obtain ⟨hfinal, hfree⟩ := hkept.finished (hstate hcompleted)
    obtain ⟨hfinal', -, hfree'⟩ := hkeeps _ _ hkept.outside hfinal hfree
    exact ⟨hfinal', hfree'⟩
  · exact (h.kept u hu).carry hkeeps fun _ => hlookup _ (h.temp_ne ht hu hid)

theorem Held.move (hmove : Move sha256 Apart F c c') : Held c' := by
  have hkeeps := h.keeps hmove
  cases hmove with
  | revise => exact ⟨h.distinct, fun t ht => (h.kept t ht).carry hkeeps fun _ => rfl⟩
  | mkdir p fault disk made =>
    refine ⟨h.distinct, fun t ht => (h.kept t ht).carry hkeeps fun hopen => ?_⟩
    have hlookup := ((h.kept t ht).opened hopen).2
    have hdisk : c.disk.Touches disk (t.inode + 1) := FS.touches_mkdir made
    rw [hlookup]
    exact ((hdisk.2 _ (Nat.succ_ne_self _).symm).2 _).2 hlookup
  | begin owner request finalPath fault inode disk allowed valid destination _ unused _ _ made =>
    obtain ⟨hfresh, -, -, -, hlookup⟩ := FS.create_eq_ok made
    refine ⟨List.Nodup.sublist ((trim_sublist _ _ _).map Transfer.id)
      (h.distinct.concat (x := newTransfer owner request finalPath inode) unused), fun t ht => ?_⟩
    rcases mem_append.1 ((trim_sublist _ _ _).subset ht) with ht | ht
    · refine (h.kept t ht).carry hkeeps fun hopen => ?_
      show disk.lookup t.tempPath = _
      rw [hlookup, if_neg]
      intro heq
      have hstored := ((h.kept t ht).opened hopen).2
      rw [heq, hfresh] at hstored
      cases hstored
    · rw [mem_singleton.1 ht]
      refine ⟨valid, destination ▸ allowed valid, rfl, destination, fun _ =>
        ⟨rfl, ?_⟩, by rintro ⟨⟩⟩
      show disk.lookup (tempPath request.transferID) = _
      rw [hlookup, if_pos rfl]
      rfl
  | withdraw faults _ t mem active =>
    refine ⟨h.distinct.remove t.id, fun u hu => ?_⟩
    obtain ⟨hu, hid⟩ := Roster.mem_remove.1 hu
    exact (h.kept u hu).carry hkeeps fun _ => lookup_removeTemp (h.temp_ne mem hu hid)
  | release faults _ t state err mem active terminal unfinished =>
    exact h.shut mem (fun hstate => absurd hstate unfinished)
      (fun p hp => lookup_removeTemp hp) hkeeps
  | spoil faults _ t content err mem active opened =>
    refine h.shut mem (by rintro ⟨⟩) (fun p hp => ?_) hkeeps
    exact lookup_removeTemp (c := { c with disk := c.disk.store t.inode content }) hp
  | extend t data mem active opened within =>
    refine ⟨distinct_set h.distinct, fun u hu => ?_⟩
    rcases mem_set.1 hu with ⟨rfl, -⟩ | ⟨hu, -⟩
    · have hkept := h.kept t mem
      exact { hkept with
          opened := fun hopen => ⟨rfl, (hkept.opened hopen).2⟩
          finished := by rintro ⟨⟩ }
    · exact (h.kept u hu).carry hkeeps fun _ => rfl
  | activate t fault disk mem active opened _ _ absent renamed =>
    have hkept := h.kept t mem
    have hstored := (hkept.opened opened).2
    obtain ⟨-, -, hlookup⟩ := FS.rename_eq_ok renamed hstored absent
    refine ⟨distinct_set h.distinct, fun u hu => ?_⟩
    rcases mem_set.1 hu with ⟨rfl, -⟩ | ⟨hu, hid⟩
    · refine { hkept with opened := by rintro ⟨⟩, finished := fun _ => ⟨?_, ?_⟩ }
      · show disk.lookup t.finalPath = some (.file t.inode)
        rw [hlookup, if_pos rfl]
      · -- the file was open for this transfer only
        rintro ⟨x, hx, hopen, hinode⟩
        rcases mem_set.1 hx with ⟨rfl, -⟩ | ⟨hx, hxid⟩
        · cases hopen
        · have hx' := ((h.kept x hx).opened hopen).2
          rw [hinode] at hx'
          exact h.temp_ne mem hx hxid (FS.path_unique hx' hstored)
    · refine (h.kept u hu).carry hkeeps fun hopen => ?_
      have hu' := ((h.kept u hu).opened hopen).2
      show disk.lookup u.tempPath = _
      rw [hlookup, if_neg, if_neg (h.temp_ne mem hu hid)]
      intro heq
      rw [heq, absent] at hu'
      cases hu'

theorem Held.moves (hmoves : Moves sha256 Apart F c c') : Held c' ∧ Keeps Outside c c' := by
  induction hmoves with
  | refl => exact ⟨h, Keeps.refl _ c⟩
  | tail _ hmove ih => exact ⟨ih.1.move hmove, ih.2.trans (ih.1.keeps hmove)⟩

/-! ### Close -/

theorem keeps_closeOne (ht : t ∈ c.transfers) : Keeps Outside c (closeOne faults c t) := by
  intro p i houtside hlookup hfree
  have hne : p ≠ t.tempPath := fun heq => (h.kept t ht).not_outside (heq ▸ houtside)
  refine ⟨?_, ?_, not_handled_set ht (by rintro ⟨⟩) rfl hfree⟩
  · show (if t.active then c.removeTemp faults t.tempPath else c.disk).lookup p = _
    split_ifs
    · rw [lookup_removeTemp hne, hlookup]
    · exact hlookup
  · show (if t.active then c.removeTemp faults t.tempPath else c.disk).contents i = _
    split_ifs
    · rw [contents_removeTemp]
    · rfl

theorem Held.closeOne (ht : t ∈ c.transfers) : Held (closeOne faults c t) := by
  refine h.shut ht (fun hstate => hstate) (fun p hp => ?_) (keeps_closeOne h ht)
  split_ifs
  · exact lookup_removeTemp hp
  · rfl

theorem Held.closeLoop {l : List Transfer} (hd : Roster.Distinct Transfer.id l)
    (hl : ∀ x ∈ l, x ∈ c.transfers) : Held (l.foldl (Controller.closeOne faults) c) ∧
      Keeps Outside c (l.foldl (Controller.closeOne faults) c) := by
  -- the loop of `Close`; the transfers still to come are untouched in the table
  induction l generalizing c with
  | nil => exact ⟨h, Keeps.refl _ c⟩
  | cons t l ih =>
    obtain ⟨hnot, hd⟩ := nodup_cons.1 hd
    have ht := hl t mem_cons_self
    have hrest : ∀ x ∈ l, x ∈ (Controller.closeOne faults c t).transfers := fun x hx =>
      mem_set.2 (.inr ⟨hl x (mem_cons_of_mem _ hx), fun hid => hnot (mem_map.2 ⟨x, hx, hid⟩)⟩)
    obtain ⟨hheld, hkeeps⟩ := ih (h.closeOne ht) hd hrest
    exact ⟨hheld, (keeps_closeOne h ht).trans hkeeps⟩

theorem Held.close (faults : Faults) : Held (c.close faults) ∧ Keeps Outside c
      (c.close faults) :=
  h.closeLoop h.distinct fun _ hx => hx

end

/-! ### Start -/

/-- The files outside stay where they are, with their contents. -/
def Spares (disk disk' : FS) : Prop :=
  ∀ p i, Outside p → disk.lookup p = some (.file i) →
    disk'.lookup p = some (.file i) ∧ disk'.contents i = disk.contents i

theorem Spares.refl (disk : FS) : Spares disk disk := fun _ _ _ h => ⟨h, rfl⟩

theorem Spares.trans {disk'' : FS} (h : Spares disk disk') (h' : Spares disk' disk'') :
    Spares disk disk'' := by
  intro p i houtside hp
  obtain ⟨hp', hcontents⟩ := h p i houtside hp
  obtain ⟨hp'', hcontents'⟩ := h' p i houtside hp'
  exact ⟨hp'', hcontents'.trans hcontents⟩

section

variable (faults : Faults)

theorem spares_ensureDirectory (disk : FS) (path : Path) :
    Spares disk (ensureDirectory faults disk path).2 := by
  rw [ensureDirectory]
  split
  · split
    · exact Spares.refl disk
    · rename_i disk' hmade
      intro p i _ hp
      obtain ⟨hcontents, hlookup⟩ := (FS.touches_mkdir (i := i + 1) hmade).2 i (by omega)
      exact ⟨(hlookup p).2 hp, hcontents⟩
  · exact Spares.refl disk
  · exact Spares.refl disk
  · exact Spares.refl disk

/-- **The cleanup removes nothing outside.** -/
theorem spares_cleanup (disk : FS) (names : List String) :
    Spares disk (cleanup faults disk names).2 := by
  induction names generalizing disk with
  | nil => exact Spares.refl disk
  | cons name rest ih =>
    rw [cleanup]
    split_ifs with hstale
    · split
      · rename_i disk' hremove
        refine Spares.trans ?_ (ih disk')
        obtain ⟨-, hcontents, hlookup⟩ := FS.remove_eq_ok hremove
        intro p i houtside hp
        refine ⟨?_, by rw [hcontents]⟩
        rw [hlookup, if_neg, hp]
        rintro rfl
        exact houtside ⟨name, rfl, hstale⟩
      · exact ih disk
      · exact Spares.refl disk
    · exact ih disk

theorem spares_cleanupTemp (disk : FS) : Spares disk (cleanupTemp faults disk).2 := by
  rw [cleanupTemp]
  split
  · exact Spares.refl disk
  · exact spares_cleanup faults disk _

theorem register_spares (config : Config) (disk : FS) :
    Spares disk (register faults config disk).2 ∧
      ∀ c, (register faults config disk).1 = .ok c →
        c.transfers = [] ∧ c.disk = (register faults config disk).2 := by
  have hensure := spares_ensureDirectory faults disk tempRoot
  rw [register]
  split
  · exact ⟨Spares.refl disk, by rintro c ⟨⟩⟩
  · split
    · rename_i text disk' heq
      rw [heq] at hensure
      exact ⟨hensure, by rintro c ⟨⟩⟩
    · rename_i disk' heq
      rw [heq] at hensure
      have hcleanup := spares_cleanupTemp faults disk'
      split
      · rename_i text disk'' heq'
        rw [heq'] at hcleanup
        exact ⟨hensure.trans hcleanup, by rintro c ⟨⟩⟩
      · rename_i disk'' heq'
        rw [heq'] at hcleanup
        refine ⟨hensure.trans hcleanup, ?_⟩
        rintro c ⟨⟩
        exact ⟨rfl, rfl⟩

end

/-! ### Runs -/

def Site.Held : Site → Prop
  | .up c => Upload.Held c
  | .down _ => True

/-- The file under `p`, which is number `i` with this content, is there and not open. -/
def Site.Safe (p : Path) (i : ℕ) (content : Bytes) (site : Site) : Prop :=
  site.disk.lookup p = some (.file i) ∧ site.disk.contents i = content ∧
    ∀ c, site = .up c → ¬ Handled c i

variable {site : Site} {act : Act}

theorem Site.Safe.keeps {p : Path} {i : ℕ} {content : Bytes} (houtside : Outside p)
    (h : Site.Safe p i content (.up c)) (hkeeps : Keeps Outside c c') :
    Site.Safe p i content (.up c') := by
  obtain ⟨hlookup, hcontents, hfree⟩ := h
  obtain ⟨hlookup', hcontents', hfree'⟩ := hkeeps p i houtside hlookup (hfree c rfl)
  refine ⟨hlookup', hcontents'.trans hcontents, ?_⟩
  rintro _ ⟨⟩
  exact hfree'

/-- **A step keeps the invariant and every safe file outside.** -/
theorem Site.Held.step (h : site.Held) (hoffers : act.Offers Apart) :
    (site.step sha256 act).Held ∧ ∀ p i content, Outside p → site.Safe p i content →
      (site.step sha256 act).Safe p i content := by
  cases act with
  | call request =>
    cases site with
    | up c =>
      have hmoves : Moves sha256 Apart (fun _ => True) c (c.step sha256 request) :=
        moves_step (Upload.Held.distinct h) hoffers trivial
      obtain ⟨hheld, hkeeps⟩ := Upload.Held.moves h hmoves
      exact ⟨hheld, fun p i content houtside hsafe => hsafe.keeps houtside hkeeps⟩
    | down disk => exact ⟨trivial, fun p i content _ hsafe => hsafe⟩
  | close faults =>
    cases site with
    | up c =>
      obtain ⟨hheld, hkeeps⟩ := Upload.Held.close h faults
      exact ⟨hheld, fun p i content houtside hsafe => hsafe.keeps houtside hkeeps⟩
    | down disk => exact ⟨trivial, fun p i content _ hsafe => hsafe⟩
  | restart faults config =>
    obtain ⟨hspares, hstart⟩ := register_spares faults config site.disk
    rw [Site.step]
    split
    · rename_i c disk heq
      rw [heq] at hspares hstart
      obtain ⟨htransfers, hdisk⟩ := hstart c rfl
      have hnone : ∀ t, t ∉ c.transfers := by
        rw [htransfers]
        exact fun t => not_mem_nil
      refine ⟨⟨by rw [htransfers]; exact nodup_nil, fun t ht => absurd ht (hnone t)⟩, ?_⟩
      rintro p i content houtside ⟨hlookup, hcontents, -⟩
      obtain ⟨hlookup', hcontents'⟩ := hspares p i houtside hlookup
      refine ⟨?_, ?_, ?_⟩
      · show c.disk.lookup p = _
        rw [hdisk]
        exact hlookup'
      · show c.disk.contents i = _
        rw [hdisk]
        exact hcontents'.trans hcontents
      · rintro _ ⟨⟩ ⟨t, ht, -⟩
        exact hnone t ht
    · rename_i text disk heq
      rw [heq] at hspares
      refine ⟨trivial, ?_⟩
      rintro p i content houtside ⟨hlookup, hcontents, -⟩
      obtain ⟨hlookup', hcontents'⟩ := hspares p i houtside hlookup
      exact ⟨hlookup', hcontents'.trans hcontents, by rintro _ ⟨⟩⟩

theorem Site.Held.run (h : site.Held) {acts : List Act} (hoffers : ∀ act ∈ acts, act.Offers Apart) :
    (acts.foldl (Site.step sha256) site).Held ∧ ∀ p i content, Outside p → site.Safe p i content →
      (acts.foldl (Site.step sha256) site).Safe p i content := by
  induction acts generalizing site with
  | nil => exact ⟨h, fun p i content _ hsafe => hsafe⟩
  | cons act acts ih =>
    obtain ⟨hheld, hsafe⟩ := @Site.Held.step sha256 site act h (hoffers act mem_cons_self)
    obtain ⟨hheld', hsafe'⟩ := ih hheld fun x hx => hoffers x (mem_cons_of_mem _ hx)
    exact ⟨hheld', fun p i content houtside h => hsafe' p i content houtside
      (hsafe p i content houtside h)⟩

theorem segments_of_valid {path : String} (h : validateRelativePath path = .ok ()) :
    ∀ segment ∈ segments path, segment ≠ "" ∧ segment ≠ "." ∧ segment ≠ ".." := by
  obtain ⟨_, _, h⟩ := bind_eq_ok.1 h
  obtain ⟨_, _, h⟩ := bind_eq_ok.1 h
  have hall : ∀ l : List String, l.forM validateSegment = .ok () →
      ∀ segment ∈ l, validateSegment segment = .ok () := by
    intro l hl
    induction l with
    | nil => simp
    | cons x l ih =>
      obtain ⟨_, hx, hl⟩ := bind_eq_ok.1 hl
      intro segment hsegment
      rcases mem_cons.1 hsegment with rfl | hsegment
      · exact hx
      · exact ih hl segment hsegment
  intro segment hsegment
  obtain ⟨_, hdots, -⟩ := bind_eq_ok.1 (hall _ h segment hsegment)
  rw [require_eq_ok] at hdots
  push Not at hdots
  exact hdots

theorem Kept.under_root (h : Kept c t) :
    ∀ segment ∈ t.finalPath, segment ≠ "" ∧ segment ≠ "." ∧ segment ≠ ".." := by
  have hvalid := h.valid
  obtain ⟨_, _, hvalid⟩ := bind_eq_ok.1 hvalid
  obtain ⟨_, _, hvalid⟩ := bind_eq_ok.1 hvalid
  obtain ⟨_, hpath, -⟩ := bind_eq_ok.1 hvalid
  rw [h.final_eq]
  exact segments_of_valid hpath

/-- **A completed upload stays.**  When no valid offer names a temporary file, a file that a
transfer was completed with is under the root, and from then on it is neither removed nor replaced
nor used as a temporary file, through every sequence of calls, closes and restarts. -/
theorem activated_files_kept (sha256 : Bytes → Bytes) (disk : FS) (before later : List Act)
    (h : ∀ act ∈ before ++ later, act.Offers Apart) :
    let site := before.foldl (Site.step sha256) (.down disk)
    let site' := later.foldl (Site.step sha256) site
    ∀ c, site = .up c → ∀ t ∈ c.transfers, t.state = .completed →
      (∀ segment ∈ t.finalPath, segment ≠ "" ∧ segment ≠ "." ∧ segment ≠ "..") ∧
      ∃ i, c.disk.lookup t.finalPath = some (.file i) ∧
        site'.disk.lookup t.finalPath = some (.file i) ∧
        site'.disk.contents i = c.disk.contents i ∧
        ∀ c', site' = .up c' → ∀ u ∈ c'.transfers, u.tempPath ≠ t.finalPath ∧
          (u.isOpen = true → u.inode ≠ i) := by
  intro site site' c hc t ht hstate
  have hstart : Site.Held (.down disk) := trivial
  have hheld : site.Held :=
    (hstart.run fun act hact => h act (mem_append_left _ hact)).1
  obtain ⟨hheld', hsafe'⟩ := @Site.Held.run sha256 site hheld later fun act hact =>
    h act (mem_append_right _ hact)
  have hkept : Kept c t := by
    rw [hc] at hheld
    exact Upload.Held.kept hheld t ht
  obtain ⟨hlookup, hfree⟩ := hkept.finished hstate
  have hsafe : site.Safe t.finalPath t.inode (c.disk.contents t.inode) := by
    rw [hc]
    refine ⟨hlookup, rfl, ?_⟩
    rintro _ ⟨⟩
    exact hfree
  obtain ⟨hlookup', hcontents', hfree'⟩ := hsafe' _ _ _ hkept.outside hsafe
  refine ⟨hkept.under_root, t.inode, hlookup, hlookup', hcontents', fun c' hc' u hu => ⟨?_, ?_⟩⟩
  · intro heq
    have hu' : Kept c' u := by
      have hup : Site.Held (.up c') := hc' ▸ hheld'
      exact Upload.Held.kept hup u hu
    exact hu'.not_outside (heq ▸ hkept.outside)
  · intro hopen hinode
    exact hfree' c' hc' ⟨u, hu, hopen, hinode⟩

/-- An empty file is uploaded to `path` by a controller that has just started. -/
def plainUpload (path : String) : List Act :=
  let offer := { plainOffer 0 [] with path }
  [.restart {} {}, .call (.offer 0 {} 1 offer), .call (.complete 0 {} 1 (plainComplete offer))]

def Site.states : Site → List TransferState
  | .up c => c.transfers.map Transfer.state
  | .down _ => []

theorem activated_files_kept_plain :
    let site := (plainUpload "a").foldl (Site.step plainHash) (.down plainDisk)
    let site' := [Act.restart {} {}].foldl (Site.step plainHash) site
    (∀ act ∈ plainUpload "a" ++ [.restart {} {}], act.Offers Apart) ∧ site.states = [.completed] ∧
      ∀ c, site = .up c → ∀ t ∈ c.transfers, t.state = .completed →
        ∃ i, site'.disk.lookup t.finalPath = some (.file i) := by
  intro site site'
  have hoffers : ∀ act ∈ plainUpload "a" ++ [.restart {} {}], act.Offers Apart := by
    intro act hact
    have houtside : Outside (segments "a") := by decide +kernel
    simp only [plainUpload, cons_append, nil_append, mem_cons, not_mem_nil, or_false] at hact
    rcases hact with rfl | rfl | rfl | rfl
    · trivial
    · exact fun _ => houtside
    · trivial
    · trivial
  refine ⟨hoffers, by decide +kernel, fun c hc t ht hstate => ?_⟩
  obtain ⟨-, i, -, hlookup, -⟩ :=
    activated_files_kept plainHash plainDisk (plainUpload "a") [.restart {} {}] hoffers c
      hc t ht hstate
  exact ⟨i, hlookup⟩

def partPath : String := ".mfh-tmp/11111111111111111111111111111111.part"

/-- An upload to a path with the name of a temporary file is completed, and the next start of the
controller removes it. -/
theorem activated_file_removed :
    let site := (plainUpload partPath).foldl (Site.step plainHash) (.down plainDisk)
    let site' := [Act.restart {} {}].foldl (Site.step plainHash) site
    site.states = [.completed] ∧ site.disk.lookup (segments partPath) = some (.file 0) ∧
      site'.disk.lookup (segments partPath) = none := by
  refine ⟨?_, ?_, ?_⟩
  · decide +kernel
  · decide +kernel
  · decide +kernel

end Upload
