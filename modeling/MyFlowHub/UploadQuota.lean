/-
Quotas and contents of uploads.

* `Sound` — the invariant: the bytes of the active transfers are counted exactly and within the
  limits, and every temporary file holds the chunks its transfer has taken;
* `Sound.move` — every move keeps it;
* `Grows` — a transfer only ever takes more;
* `Publishes` — what a publication of the table needs;
* `Listed` — what the publication of an offer has found, and every call keeps: no size is beyond
  what a variable may hold, so the `size + 1` of the digest does not overflow;
* **`uploads_exact`** — what holds in every state of a run.
-/
import MyFlowHub.UploadMoves

open Encoding (formatUint hexEncode)
open Checks Enrollment Protocol List
open Filesystem

namespace Upload

namespace Controller

open Transfer

variable {sha256 : Bytes → Bytes} {P : FileOfferV1 → Prop} {F : Faults → Prop}
  {c c' : Controller} {t u : Transfer} {faults : Faults} {limits : Limits} {disk disk' : FS} {i : ℕ}

/-! ### The invariant -/

def weight (t : Transfer) : ℤ := if t.active then t.offer.size else 0

theorem sum_weight (l : List Transfer) :
    (l.map weight).sum = ((l.filter active).map fun t => t.offer.size).sum := by
  induction l with
  | nil => rfl
  | cons t l ih =>
    rw [map_cons, sum_cons, ih, filter_cons, weight]
    split_ifs
    · rw [map_cons, sum_cons]
    · rw [zero_add]

variable (sha256 P) in
structure Good (limits : Limits) (disk : FS) (t : Transfer) : Prop where
  allowed : P t.offer
  valid : t.offer.validate = .ok ()
  size_le : t.offer.size ≤ limits.maxFileBytes
  received_eq : t.received = t.chunks.flatten.length
  received_le : t.received ≤ t.offer.size
  temp_eq : t.tempPath = tempPath t.id
  inode_lt : t.inode < disk.next
  opened : t.isOpen = t.active
  quiet : t.active = true → t.err = ""
  /-- Until it is activated, its file is nowhere else. -/
  unmoved : t.state ≠ .completed → ∀ p, disk.lookup p = some (.file t.inode) → p = t.tempPath
  stored : t.active = true → disk.lookup t.tempPath = some (.file t.inode) ∧
    disk.contents t.inode = t.chunks.flatten
  finished : t.state = .completed → t.received = t.offer.size ∧
    hexEncode (sha256 (limited t.chunks.flatten t.offer.size)) = t.offer.sha256 ∧
    disk.lookup t.finalPath = some (.file t.inode) ∧ disk.contents t.inode = t.chunks.flatten ∧
    t.finalPath ≠ t.tempPath

theorem Good.size_nonneg (h : Good sha256 P limits disk t) : 0 ≤ t.offer.size :=
  FileOfferV1.size_nonneg h.valid

variable (sha256 P) in
structure Sound (c : Controller) : Prop where
  distinct : Roster.Distinct Transfer.id c.transfers
  inodes : Roster.Distinct inode c.transfers
  good : ∀ t ∈ c.transfers, Good sha256 P c.limits c.disk t
  bytes : c.activeBytes = (c.transfers.map weight).sum
  bytes_le : c.activeBytes ≤ c.limits.maxTotalBytes
  count_le : c.activeCountLocked ≤ c.limits.maxActive
  history_le : c.transfers.length ≤ c.limits.maxHistory

theorem Good.touches (h : Good sha256 P limits disk t) (hdisk : disk.Touches disk' i)
    (hi : t.inode ≠ i) : Good sha256 P limits disk' t where
  __ := h
  inode_lt := lt_of_lt_of_le h.inode_lt hdisk.1
  unmoved := fun hstate p hp => h.unmoved hstate p (((hdisk.2 _ hi).2 p).1 hp)
  stored := by
    intro hactive
    obtain ⟨hlookup, hcontents⟩ := h.stored hactive
    exact ⟨((hdisk.2 _ hi).2 _).2 hlookup, (hdisk.2 _ hi).1.trans hcontents⟩
  finished := by
    intro hstate
    obtain ⟨hall, hdigest, hlookup, hcontents, hne⟩ := h.finished hstate
    exact ⟨hall, hdigest, ((hdisk.2 _ hi).2 _).2 hlookup, (hdisk.2 _ hi).1.trans hcontents, hne⟩

theorem weight_nonneg (h : Good sha256 P limits disk t) : 0 ≤ weight t := by
  rw [weight]
  split_ifs
  · exact h.size_nonneg
  · exact le_rfl

section

variable (h : Sound sha256 P c)
include h

theorem Sound.bytes_nonneg : 0 ≤ c.activeBytes := by
  rw [h.bytes]
  apply sum_nonneg
  intro n hn
  obtain ⟨t, ht, rfl⟩ := mem_map.1 hn
  exact weight_nonneg (h.good t ht)

theorem Sound.inode_ne (ht : t ∈ c.transfers) (hu : u ∈ c.transfers) (hid : u.id ≠ t.id) :
    u.inode ≠ t.inode := by
  intro heq
  exact hid (congrArg Transfer.id (inj_on_of_nodup_map h.inodes hu ht heq))

theorem Sound.temp_unique (ht : t ∈ c.transfers) (hactive : t.active = true) (j : ℕ)
    (hj : c.disk.lookup t.tempPath = some (.file j)) : j = t.inode := by
  rw [((h.good t ht).stored hactive).1] at hj
  cases hj
  rfl

theorem Sound.placed : Placed c := by
  intro t ht hopen
  have hgood := h.good t ht
  rw [hgood.opened] at hopen
  exact (hgood.stored hopen).1

/-! ### The three kinds of change -/

theorem Sound.update (ht : t ∈ c.transfers) (hoffer : u.offer = t.offer)
    (hinode : u.inode = t.inode) (hactive : u.active = true → t.active = true)
    (hdisk : c.disk.Touches disk t.inode) {bytes : ℤ}
    (hbytes : bytes = c.activeBytes - weight t + weight u) (hgood : Good sha256 P c.limits disk u) :
    Sound sha256 P ({ c with disk, activeBytes := bytes }.set u) := by
  have hid : u.id = t.id := congrArg FileOfferV1.transferID hoffer
  have hsame : ∀ x ∈ c.transfers, x.id = u.id → x = t := fun x hx hxid =>
    eq_of_id h.distinct hx ht (hxid.trans hid)
  have hfind : Roster.find Transfer.id c.transfers u.id = some t :=
    (Roster.find_eq_some h.distinct).2 ⟨ht, hid.symm⟩
  have hweight : weight u ≤ weight t := by
    have hsize := (h.good t ht).size_nonneg
    rw [weight, weight, hoffer]
    split_ifs with h1 h2
    · exact le_rfl
    · exact absurd (hactive h1) h2
    · exact hsize
    · exact le_rfl
  constructor
  · exact distinct_set h.distinct
  · rw [Roster.Distinct, map_set (c := { c with disk, activeBytes := bytes })
      fun x hx hxid => by rw [hsame x hx hxid, hinode]]
    exact h.inodes
  · intro x hx
    rcases mem_set.1 hx with ⟨rfl, -⟩ | ⟨hx, hxid⟩
    · exact hgood
    · exact (h.good x hx).touches hdisk (h.inode_ne ht hx (hid ▸ hxid))
  · show bytes = ((Roster.modify Transfer.id c.transfers u.id fun _ => u).map weight).sum
    rw [Roster.sum_modify h.distinct hfind, ← h.bytes, hbytes]
  · have hle := h.bytes_le
    show bytes ≤ c.limits.maxTotalBytes
    omega
  · -- no transfer becomes active
    refine le_trans ?_ h.count_le
    show ((c.transfers.map fun x => if x.id = u.id then u else x).filter active).length ≤
      (c.transfers.filter active).length
    rw [← countP_eq_length_filter, ← countP_eq_length_filter, countP_map]
    apply countP_mono_left
    intro x hx hxactive
    dsimp only [Function.comp] at hxactive
    split_ifs at hxactive with hxid
    · rw [hsame x hx hxid]
      exact hactive hxactive
    · exact hxactive
  · show (Roster.modify Transfer.id c.transfers u.id fun _ => u).length ≤ c.limits.maxHistory
    rw [Roster.length_modify]
    exact h.history_le

theorem Sound.remove (ht : t ∈ c.transfers) (hactive : t.active = true)
    (hdisk : c.disk.Touches disk t.inode) :
    Sound sha256 P { c with
      transfers := Roster.remove Transfer.id c.transfers t.id
      activeBytes := c.activeBytes - t.offer.size
      disk } := by
  have hfind : Roster.find Transfer.id c.transfers t.id = some t :=
    (Roster.find_eq_some h.distinct).2 ⟨ht, rfl⟩
  have hsub : (Roster.remove Transfer.id c.transfers t.id).Sublist c.transfers := filter_sublist
  have hweight : weight t = t.offer.size := by rw [weight, if_pos hactive]
  constructor
  · exact h.distinct.remove t.id
  · exact h.inodes.sublist (hsub.map _)
  · intro x hx
    obtain ⟨hx, hxid⟩ := Roster.mem_remove.1 hx
    exact (h.good x hx).touches hdisk (h.inode_ne ht hx hxid)
  · show c.activeBytes - t.offer.size = ((Roster.remove Transfer.id c.transfers
      t.id).map weight).sum
    rw [Roster.sum_remove h.distinct hfind, ← h.bytes, hweight]
  · have hle := h.bytes_le
    have hsize := (h.good t ht).size_nonneg
    show c.activeBytes - t.offer.size ≤ c.limits.maxTotalBytes
    omega
  · exact le_trans (hsub.filter _).length_le h.count_le
  · exact le_trans hsub.length_le h.history_le

theorem Sound.begin (hnew : c.find t.id = none) (hactive : t.active = true)
    (hinode : t.inode = c.disk.next) (hcount : c.activeCountLocked < c.limits.maxActive)
    (hbytes : t.offer.size ≤ c.limits.maxTotalBytes - c.activeBytes)
    (hdisk : c.disk.Touches disk t.inode) (hgood : Good sha256 P c.limits disk t) :
    Sound sha256 P (c.begin t disk) := by
  have hfresh : Roster.find inode c.transfers t.inode = none := by
    rw [Roster.find_eq_none]
    intro x hx heq
    exact absurd (h.good x hx).inode_lt (by rw [heq, hinode]; exact lt_irrefl _)
  have hdistinct : Roster.Distinct Transfer.id (c.transfers ++ [t]) := h.distinct.concat hnew
  have hfilter := filter_active_trimLocked (c := { c with
    transfers := c.transfers ++ [t], activeBytes := c.activeBytes + t.offer.size, disk }) hdistinct
  have hactives : (c.transfers ++ [t]).filter active = c.transfers.filter active ++ [t] := by
    rw [filter_append, filter_cons_of_pos hactive, filter_nil]
  have hsub : (c.begin t disk).transfers.Sublist (c.transfers ++ [t]) := trim_sublist _ _ _
  have hlength : ((c.transfers ++ [t]).filter active).length ≤ c.limits.maxActive := by
    rw [hactives, length_append, length_singleton]
    exact hcount
  constructor
  · exact hdistinct.sublist (hsub.map _)
  · exact (h.inodes.concat hfresh).sublist (hsub.map _)
  · intro x hx
    rcases mem_append.1 (hsub.subset hx) with hx | hx
    · exact (h.good x hx).touches hdisk (hinode ▸ (h.good x hx).inode_lt.ne)
    · rw [mem_singleton.1 hx]
      exact hgood
  · show c.activeBytes + t.offer.size = ((c.begin t disk).transfers.map weight).sum
    rw [sum_weight, Controller.begin, hfilter, hactives, map_append, sum_append, ←
      sum_weight, ← h.bytes]
    simp
  · show c.activeBytes + t.offer.size ≤ c.limits.maxTotalBytes
    omega
  · show ((c.begin t disk).transfers.filter active).length ≤ c.limits.maxActive
    rw [Controller.begin, hfilter]
    exact hlength
  · exact length_trimLocked (c := { c with
      transfers := c.transfers ++ [t], activeBytes := c.activeBytes + t.offer.size, disk
        }) hdistinct
      (hlength.trans c.limits.active_le)

end

/-! ### Every move keeps the invariant -/

theorem ne_completed_of_active (h : t.active = true) : t.state ≠ .completed := by
  intro hstate
  rw [active, hstate] at h
  cases h

theorem Good.release (h : Good sha256 P limits disk t) (hactive : t.active = true)
    (hnext : disk.next ≤ disk'.next)
    (hlookup : ∀ p, disk'.lookup p = some (.file t.inode) → disk.lookup p = some (.file t.inode))
    {state : TransferState} (hterminal : state.active = false) (hunfinished : state ≠ .completed)
    (err : String) : Good sha256 P limits disk' { t with isOpen := false, state, err } where
  __ := h
  inode_lt := lt_of_lt_of_le h.inode_lt hnext
  opened := hterminal.symm
  quiet := fun hactive => absurd (hterminal.symm.trans hactive) (by decide)
  unmoved := fun _ p hp => h.unmoved (ne_completed_of_active hactive) p (hlookup p hp)
  stored := fun hactive => absurd (hterminal.symm.trans hactive) (by decide)
  finished := fun hstate => absurd hstate hunfinished

theorem Sound.release (h : Sound sha256 P c) (ht : t ∈ c.transfers) (hactive : t.active = true)
    (hdisk : c.disk.Touches disk t.inode)
    (hlookup : ∀ p, disk.lookup p = some (.file t.inode) → c.disk.lookup p = some (.file t.inode))
    {state : TransferState} (hterminal : state.active = false) (hunfinished : state ≠ .completed)
      (err : String) :
    Sound sha256 P ({ c with disk, activeBytes := c.activeBytes - t.offer.size }.set
      { t with isOpen := false, state, err }) := by
  refine h.update (u := { t with isOpen := false, state, err }) ht rfl rfl
    (fun _ => hactive) hdisk ?_
    ((h.good t ht).release hactive hdisk.1 hlookup hterminal hunfinished err)
  have hweight : weight { t with isOpen := false, state, err } = 0 := by
    rw [weight, if_neg]
    exact fun hstate => absurd (hterminal.symm.trans hstate) (by decide)
  rw [hweight, weight, if_pos hactive, add_zero]

theorem Good.extend (h : Good sha256 P limits disk t) (hactive : t.active = true) {data : Bytes}
    (hwithin : t.received + data.length ≤ t.offer.size) :
    Good sha256 P limits (disk.store t.inode
      (FS.overwrite (disk.contents t.inode) t.received.toNat data)) (extended t data) where
  __ := h
  received_eq := by
    show t.received + data.length = ((t.chunks ++ [data]).flatten.length : ℤ)
    rw [h.received_eq, flatten_append, length_append, flatten_singleton]
    push_cast
    rfl
  received_le := hwithin
  opened := h.opened.trans hactive
  quiet := fun _ => h.quiet hactive
  unmoved := fun _ => h.unmoved (ne_completed_of_active hactive)
  stored := by
    intro _
    obtain ⟨hlookup, hcontents⟩ := h.stored hactive
    refine ⟨hlookup, ?_⟩
    -- the file ends where the chunk begins
    have hoffset : t.received.toNat = t.chunks.flatten.length := by
      rw [h.received_eq, Int.toNat_natCast]
    show (disk.store t.inode _).contents t.inode = (t.chunks ++ [data]).flatten
    rw [FS.contents_store_self, hcontents, hoffset, FS.overwrite_length, flatten_append,
      flatten_singleton]
  finished := by rintro ⟨⟩

theorem Good.activate (h : Good sha256 P limits disk t) (hactive : t.active = true)
    (hall : t.received = t.offer.size)
    (hdigest : hexEncode (sha256 (limited (disk.contents t.inode) t.offer.size)) = t.offer.sha256)
    (hnext : disk.next ≤ disk'.next) (hlookup : disk'.lookup t.finalPath = some (.file t.inode))
    (hcontents : disk'.contents = disk.contents) (hne : t.finalPath ≠ t.tempPath) :
    Good sha256 P limits disk' { t with isOpen := false, state := .completed } where
  __ := h
  inode_lt := lt_of_lt_of_le h.inode_lt hnext
  opened := rfl
  quiet := by rintro ⟨⟩
  unmoved := fun hstate => absurd rfl hstate
  stored := by rintro ⟨⟩
  finished := by
    intro _
    have hstored := (h.stored hactive).2
    rw [hstored] at hdigest
    exact ⟨hall, hdigest, hlookup, by rw [hcontents]; exact hstored, hne⟩

theorem good_newTransfer {owner : NodeID} {request : FileOfferV1} {finalPath : Path}
    (hP : P request) (hvalid : request.validate = .ok ())
      (hsize : request.size ≤ limits.maxFileBytes)
    (hnext : i < disk.next) (hlookup : disk.lookup (tempPath request.transferID) = some (.file i))
    (hcontents : disk.contents i = []) :
    Good sha256 P limits disk (newTransfer owner request finalPath i) where
  allowed := hP
  valid := hvalid
  size_le := hsize
  received_eq := rfl
  received_le := FileOfferV1.size_nonneg hvalid
  temp_eq := rfl
  inode_lt := hnext
  opened := rfl
  quiet := fun _ => rfl
  unmoved := fun _ _ hp => FS.path_unique hp hlookup
  stored := fun _ => ⟨hlookup, hcontents⟩
  finished := by rintro ⟨⟩

/-- **Every move keeps the invariant.** -/
theorem Sound.move (h : Sound sha256 P c) (hmove : Move sha256 P F c c') : Sound sha256 P c' := by
  cases hmove with
  | revise => exact { h with }
  | mkdir p fault disk made =>
    refine { h with good := fun t ht => ?_ }
    exact (h.good t ht).touches (FS.touches_mkdir made) (h.good t ht).inode_lt.ne
  | begin owner request finalPath fault inode disk allowed valid _ size_le unused count
      bytes made =>
    obtain ⟨-, hinode, hnext, hcontents, hlookup⟩ := FS.create_eq_ok made
    refine h.begin unused rfl hinode count bytes (FS.touches_create made)
      (good_newTransfer allowed valid size_le (by omega) ?_ ?_)
    · rw [hlookup, if_pos rfl]
    · rw [hcontents, Function.update_self]
  | withdraw faults _ t mem active =>
    exact h.remove mem active (touches_removeTemp (h.temp_unique mem active))
  | release faults _ t state err mem active terminal unfinished =>
    exact h.release mem active (touches_removeTemp (h.temp_unique mem active))
      (fun p => lookup_of_removeTemp) terminal unfinished err
  | spoil faults _ t content err mem active =>
    refine h.release mem active ((FS.touches_store content).trans ?_) (fun p hp => ?_) rfl
      (by decide) err
    · exact touches_removeTemp (c := { c with disk := c.disk.store t.inode content })
        (h.temp_unique mem active)
    · exact lookup_of_removeTemp (c := { c with disk := c.disk.store t.inode content }) hp
  | extend t data mem active opened within =>
    refine h.update (u := extended t data) mem rfl rfl (fun _ => active) (FS.touches_store _) ?_
      ((h.good t mem).extend active within)
    have hweight : weight (extended t data) = weight t := by
      rw [weight, weight, if_pos active]
      rfl
    rw [hweight, sub_add_cancel]
  | activate t fault disk mem active opened all digest absent renamed =>
    have hgood := h.good t mem
    have hstored := (hgood.stored active).1
    obtain ⟨hnext, hcontents, hlookup⟩ := FS.rename_eq_ok renamed hstored absent
    refine h.update (u := { t with isOpen := false, state := .completed }) mem rfl rfl
      (fun _ => active) (FS.touches_rename renamed hstored absent) ?_
      (hgood.activate active all digest hnext.ge ?_ hcontents ?_)
    · have hweight : weight { t with isOpen := false, state := .completed } = 0 := rfl
      rw [hweight, weight, if_pos active, add_zero]
    · rw [hlookup, if_pos rfl]
    · intro heq
      rw [heq, hstored] at absent
      cases absent

/-! ### Growth -/

/-- Each transfer of `c'` is one of `c`, told by its file, that has taken more, or a new one. -/
def Grows (c c' : Controller) : Prop :=
  c.disk.next ≤ c'.disk.next ∧ ∀ u ∈ c'.transfers, c.disk.next ≤ u.inode ∨
    ∃ t ∈ c.transfers, t.inode = u.inode ∧ t.offer = u.offer ∧ t.owner = u.owner ∧
      t.received ≤ u.received ∧ t.chunks <+: u.chunks

theorem Grows.refl (c : Controller) : Grows c c :=
  ⟨le_rfl, fun u hu => .inr ⟨u, hu, rfl, rfl, rfl, le_rfl, prefix_rfl⟩⟩

theorem Grows.trans {c'' : Controller} (h : Grows c c') (h' : Grows c' c'') : Grows c c'' := by
  refine ⟨h.1.trans h'.1, fun v hv => ?_⟩
  rcases h'.2 v hv with hnew | ⟨u, hu, hinode, hoffer, howner, hreceived, hchunks⟩
  · exact .inl (h.1.trans hnew)
  · rcases h.2 u hu with hnew | ⟨t, ht, hinode', hoffer', howner', hreceived', hchunks'⟩
    · exact .inl (hinode ▸ hnew)
    · exact .inr ⟨t, ht, hinode'.trans hinode, hoffer'.trans hoffer, howner'.trans howner,
        hreceived'.trans hreceived, hchunks'.trans hchunks⟩

theorem Grows.subset (hnext : c.disk.next ≤ c'.disk.next)
    (h : ∀ u ∈ c'.transfers, u ∈ c.transfers) : Grows c c' :=
  ⟨hnext, fun u hu => .inr ⟨u, h u hu, rfl, rfl, rfl, le_rfl, prefix_rfl⟩⟩

theorem Grows.set (ht : t ∈ c.transfers) (hnext : c.disk.next ≤ disk.next) {b : ℤ}
    (hinode : u.inode = t.inode) (hoffer : u.offer = t.offer) (howner : u.owner = t.owner)
    (hreceived : t.received ≤ u.received) (hchunks : t.chunks <+: u.chunks) :
    Grows c ({ c with disk, activeBytes := b }.set u) := by
  refine ⟨hnext, fun x hx => .inr ?_⟩
  rcases mem_set.1 hx with ⟨rfl, -⟩ | ⟨hx, -⟩
  · exact ⟨t, ht, hinode.symm, hoffer.symm, howner.symm, hreceived, hchunks⟩
  · exact ⟨x, hx, rfl, rfl, rfl, le_rfl, prefix_rfl⟩

theorem next_removeTemp (c : Controller) (faults : Faults) (path : Path) :
    (c.removeTemp faults path).next = c.disk.next := by
  rcases removeTemp_cases c faults path with h | h
  · rw [h]
  · exact (FS.remove_eq_ok h).1

theorem Sound.grows (h : Sound sha256 P c) (hmove : Move sha256 P F c c') : Grows c c' := by
  cases hmove with
  | revise => exact Grows.subset le_rfl fun u hu => hu
  | mkdir p fault disk made => exact Grows.subset (FS.mkdir_eq_ok made).2.1.ge fun u hu => hu
  | begin owner request finalPath fault inode disk _ _ _ _ _ _ _ made =>
    obtain ⟨-, hinode, hnext, -, -⟩ := FS.create_eq_ok made
    refine ⟨show c.disk.next ≤ disk.next by omega, fun u hu => ?_⟩
    rcases mem_append.1 ((trim_sublist _ _ _).subset hu) with hu | hu
    · exact .inr ⟨u, hu, rfl, rfl, rfl, le_rfl, prefix_rfl⟩
    · rw [mem_singleton.1 hu]
      exact .inl hinode.ge
  | withdraw faults _ t =>
    exact Grows.subset (next_removeTemp c faults t.tempPath).ge fun u hu =>
      (Roster.mem_remove.1 hu).1
  | release faults _ t state err mem =>
    exact Grows.set (u := { t with isOpen := false, state, err }) mem
      (next_removeTemp c faults t.tempPath).ge rfl rfl rfl le_rfl prefix_rfl
  | spoil faults _ t content err mem =>
    exact Grows.set (u := { t with isOpen := false, state := .failed, err }) mem
      (next_removeTemp { c with disk := c.disk.store t.inode content } faults t.tempPath).ge
      rfl rfl rfl le_rfl prefix_rfl
  | extend t data mem =>
    have hle : t.received ≤ t.received + data.length := by omega
    exact Grows.set (u := extended t data) (b := c.activeBytes) mem le_rfl rfl rfl rfl hle
      (prefix_append _ _)
  | activate t fault disk mem active opened _ _ absent renamed =>
    have hstored := ((h.good t mem).stored active).1
    exact Grows.set (u := { t with isOpen := false, state := .completed }) mem
      (FS.rename_eq_ok renamed hstored absent).1.ge rfl rfl rfl le_rfl prefix_rfl

/-! ### Runs -/

/-- What one or more moves do: the invariant is kept, transfers grow, other files stay. -/
theorem Sound.moves (h : Sound sha256 P c) (hmoves : Moves sha256 P F c c') :
    Sound sha256 P c' ∧ Grows c c' ∧ Keeps (fun _ => True) c c' := by
  induction hmoves with
  | refl => exact ⟨h, Grows.refl c, Keeps.refl _ c⟩
  | @tail d d' _ hmove ih =>
    obtain ⟨hsound, hgrows, hkeeps⟩ := ih
    have hopen : ∀ t ∈ d.transfers, t.active = true → True → t.isOpen = true := by
      intro t ht hactive _
      exact (hsound.good t ht).opened.trans hactive
    exact ⟨hsound.move hmove, hgrows.trans (hsound.grows hmove),
      hkeeps.trans (hmove.keeps hsound.placed hopen)⟩

theorem Sound.run (h : Sound sha256 P c) {calls : List Call} (hP : ∀ call ∈ calls, call.Offers P) :
    Sound sha256 P (calls.foldl (step sha256) c) ∧ Grows c (calls.foldl (step sha256) c) ∧
      Keeps (fun _ => True) c (calls.foldl (step sha256) c) := by
  induction calls generalizing c with
  | nil => exact ⟨h, Grows.refl c, Keeps.refl _ c⟩
  | cons call calls ih =>
    have hmoves : Moves sha256 P (fun _ => True) c (c.step sha256 call) :=
      moves_step h.distinct (hP call mem_cons_self) trivial
    obtain ⟨hsound, hgrows, hkeeps⟩ := h.moves hmoves
    obtain ⟨hsound', hgrows', hkeeps'⟩ := ih hsound fun call' h' => hP call' (mem_cons_of_mem _ h')
    exact ⟨hsound', hgrows.trans hgrows', hkeeps.trans hkeeps'⟩

variable (sha256 P) in
theorem sound_start (limits : Limits) (disk : FS) : Sound sha256 P { limits, disk } where
  distinct := nodup_nil
  inodes := nodup_nil
  good := by rintro t ⟨⟩
  bytes := rfl
  bytes_le := limits.total_nonneg
  count_le := Nat.zero_le _
  history_le := Nat.zero_le _

/-! ### Publishing -/

structure Publishes (c : Controller) (faults : Faults) (t : Transfer) : Prop where
  progress : t.progress.validate = .ok ()
  published : faults.progress t.id = none
  revision : c.revision ≠ UInt64.ofNat (2 ^ 64 - 1)
  encoded : encodeSummaries (c.revision + 1) c.summaries = .ok ()
  summarized : faults.summaries = none

theorem updateSummariesLocked_eq_ok {fault : Option String} :
    (c.updateSummariesLocked fault).1 = .ok () ↔ c.revision ≠ UInt64.ofNat (2 ^ 64 - 1) ∧
      encodeSummaries (c.revision + 1) c.summaries = .ok () ∧ fault = none := by
  unfold updateSummariesLocked
  split_ifs with hrevision
  · exact iff_of_false (by rintro ⟨⟩) fun h => h.1 hrevision
  · split
    · rename_i htext
      exact iff_of_false (by rintro ⟨⟩) fun h => by rw [htext] at h; cases h.2.1
    · exact iff_of_false (by rintro ⟨⟩) fun h => by cases h.2.2
    · rename_i hencoded
      exact iff_of_true rfl ⟨hrevision, hencoded, rfl⟩

theorem progressPayload_eq_ok {p : FileProgressV1} (h : t.progressPayload = .ok p) :
    t.progress.validate = .ok () := by
  obtain ⟨_, h, -⟩ := bind_eq_ok.1 h
  exact h

theorem progressPayload_of_valid (h : t.progress.validate = .ok ()) :
    t.progressPayload = .ok t.progress :=
  bind_eq_ok.2 ⟨(), h, rfl⟩

theorem publishLocked_eq_ok : (c.publishLocked faults t).1 = .ok () ↔ Publishes c faults t := by
  rw [publishLocked]
  split
  · rename_i text htext
    refine iff_of_false (by rintro ⟨⟩) fun h => ?_
    rw [progressPayload_of_valid h.progress] at htext
    cases htext
  · rename_i text hfault
    refine iff_of_false (by rintro ⟨⟩) fun h => ?_
    rw [h.published] at hfault
    cases hfault
  · rename_i p hpayload hfault
    rw [updateSummariesLocked_eq_ok]
    constructor
    · rintro ⟨hrevision, hencoded, hset⟩
      exact ⟨progressPayload_eq_ok hpayload, hfault, hrevision, hencoded, hset⟩
    · intro h
      exact ⟨h.revision, h.encoded, h.summarized⟩

theorem validate_of_validateSummaries {l : List FileTransferSummaryV1} {seen : List String}
    (h : validateSummaries seen l = .ok ()) : ∀ s ∈ l, s.validate = .ok () := by
  induction l generalizing seen with
  | nil => rintro s ⟨⟩
  | cons transfer rest ih =>
    rw [validateSummaries] at h
    split at h
    · cases h
    · rename_i hvalid
      obtain ⟨_, -, h⟩ := bind_eq_ok.1 h
      obtain ⟨_, -, h⟩ := bind_eq_ok.1 h
      intro s hs
      rcases mem_cons.1 hs with rfl | hs
      · exact hvalid
      · exact ih h s hs

theorem mem_summaries {s : FileTransferSummaryV1} :
    s ∈ c.summaries ↔ ∃ t ∈ c.transfers, t.summary = s := by
  rw [summaries, mem_map]
  simp only [mem_insertionSort]

theorem length_summaries (c : Controller) : c.summaries.length = c.transfers.length := by
  rw [summaries, length_map, length_insertionSort]

/-- The parts of a summary that no call changes are fit for publication. -/
structure Listable (t : Transfer) : Prop where
  owner : validateNodeIDText "owner_node_id" (formatUint t.owner) = .ok ()
  size_le : t.offer.size ≤ maxVariableSafeInteger
  expiry_le : t.offer.expiresAtUnixMS ≤ maxVariableSafeInteger

/-- **What the table has at the end of every call**: its transfers were published when they
began. -/
structure Listed (c : Controller) : Prop where
  count : c.transfers.length ≤ Auth.maxItems
  entry : ∀ t ∈ c.transfers, Listable t

theorem listed_start (limits : Limits) (disk : FS) : Listed { limits, disk } where
  count := Nat.zero_le _
  entry := by rintro t ⟨⟩

theorem Listable.congr (h : Listable t) (hoffer : u.offer = t.offer) (howner : u.owner = t.owner) :
    Listable u where
  owner := howner ▸ h.owner
  size_le := hoffer ▸ h.size_le
  expiry_le := hoffer ▸ h.expiry_le

theorem Listed.sublist (h : Listed c) (hsub : c'.transfers.Sublist c.transfers) : Listed c' where
  count := hsub.length_le.trans h.count
  entry := fun t ht => h.entry t (hsub.subset ht)

theorem Listed.set (h : Listed c) (ht : t ∈ c.transfers) (hoffer : u.offer = t.offer)
    (howner : u.owner = t.owner) {b : ℤ} : Listed ({ c with disk, activeBytes := b }.set u) where
  count := by
    show (Roster.modify Transfer.id c.transfers u.id fun _ => u).length ≤ Auth.maxItems
    rw [Roster.length_modify]
    exact h.count
  entry := by
    intro x hx
    rcases mem_set.1 hx with ⟨rfl, -⟩ | ⟨hx, -⟩
    · exact (h.entry t ht).congr hoffer howner
    · exact h.entry x hx

theorem Listed.move (h : Listed c) (hmove : Move sha256 (fun _ => False) F c c') : Listed c' := by
  cases hmove with
  | revise => exact h.sublist (List.Sublist.refl _)
  | mkdir => exact h.sublist (List.Sublist.refl _)
  | begin _ _ _ _ _ _ allowed => exact allowed.elim
  | withdraw => exact h.sublist filter_sublist
  | release faults _ t state err mem =>
    exact h.set (u := { t with isOpen := false, state, err }) mem rfl rfl
  | spoil faults _ t content err mem =>
    exact h.set (u := { t with isOpen := false, state := .failed, err }) mem rfl rfl
  | extend t data mem => exact h.set (u := extended t data) (b := c.activeBytes) mem rfl rfl
  | activate t fault disk mem =>
    exact h.set (u := { t with isOpen := false, state := .completed }) mem rfl rfl

theorem Listed.moves (h : Listed c) (hmoves : Moves sha256 (fun _ => False) F c c') :
    Listed c' := by
  induction hmoves with
  | refl => exact h
  | tail _ hmove ih => exact ih.move hmove

theorem listed_of_publishes (h : Publishes c faults t) : Listed c := by
  obtain ⟨_, hcount, hrest⟩ := bind_eq_ok.1 h.encoded
  obtain ⟨_, hvalid, hsafe⟩ := bind_eq_ok.1 hrest
  rw [require_eq_ok] at hcount hsafe
  refine ⟨length_summaries c ▸ hcount, fun x hx => ?_⟩
  have hmem : x.summary ∈ c.summaries := mem_summaries.2 ⟨x, hx, rfl⟩
  obtain ⟨_, -, hx'⟩ := bind_eq_ok.1 (validate_of_validateSummaries hvalid _ hmem)
  obtain ⟨_, howner, -⟩ := bind_eq_ok.1 hx'
  exact ⟨howner, (hsafe.2 _ hmem).2.1, (hsafe.2 _ hmem).2.2⟩

theorem Listed.openTransfer (h : Listed c) (faults : Faults) (owner : NodeID)
    (request : FileOfferV1)
    (finalPath : Path) : Listed (c.openTransfer faults owner request finalPath).2 := by
  rw [Controller.openTransfer]
  split
  · exact h
  · rename_i inode disk hmade
    obtain ⟨revision, hpublish⟩ := publishLocked_revision
      (c.begin (newTransfer owner request finalPath inode) disk) faults
      (newTransfer owner request finalPath inode)
    dsimp only
    split
    · -- what remains of the table was there before
      rename_i text c' heq
      rw [heq] at hpublish
      obtain rfl : c' = _ := hpublish
      have hsub : (c.begin (newTransfer owner request finalPath inode) disk).transfers.Sublist
          (c.transfers ++ [newTransfer owner request finalPath inode]) := trim_sublist _ _ _
      have hrest : (Roster.remove Transfer.id (c.transfers ++
        [newTransfer owner request finalPath inode])
          request.transferID).Sublist c.transfers := by
        rw [Roster.remove, filter_append, filter_cons_of_neg (by simp [newTransfer]),
          filter_nil, append_nil]
        exact filter_sublist
      exact h.sublist ((hsub.filter _).trans hrest)
    · rename_i c' heq
      have hok := publishLocked_eq_ok.1 (congrArg Prod.fst heq)
      rw [heq] at hpublish
      obtain rfl : c' = _ := hpublish
      exact (listed_of_publishes hok).sublist (List.Sublist.refl _)

theorem listed_expireLocked (hd : c.Distinct) (h : Listed c) (now : Time) (faults : Faults) :
    Listed (c.expireLocked now faults) := by
  have hmoves : Moves id (fun _ => False) (fun _ => True) c (c.expireLocked now faults) :=
    moves_expireLocked hd now trivial
  exact h.moves hmoves

theorem Listed.offerFor (hd : c.Distinct) (h : Listed c) (now : Time) (faults : Faults)
    (owner : NodeID)
    (request : FileOfferV1) : Listed (c.offerFor now faults owner request).2 := by
  rw [Controller.offerFor]
  split
  · exact h
  · have hexpired := listed_expireLocked hd h now faults
    rw [admitOffer]
    split
    · split_ifs <;> exact hexpired
    · split_ifs
      · exact hexpired
      · split
        · exact hexpired.sublist (List.Sublist.refl _)
        · rename_i finalPath disk _
          have hentered : Listed { c.expireLocked now faults with disk } :=
            hexpired.sublist (List.Sublist.refl _)
          exact hentered.openTransfer faults owner request finalPath

theorem Listed.step (hd : c.Distinct) (h : Listed c) (call : Call) :
    Listed (c.step sha256 call) := by
  have hmoves : call.Offers (fun _ => False) → Listed (c.step sha256 call) := fun hoffers =>
    h.moves (F := fun _ => True) (moves_step hd hoffers trivial)
  cases call with
  | offer now faults owner request => exact h.offerFor hd now faults owner request
  | chunk => exact hmoves trivial
  | complete => exact hmoves trivial
  | cancel => exact hmoves trivial
  | abort => exact hmoves trivial
  | sweep => exact hmoves trivial

theorem Listed.run (hs : Sound sha256 (fun _ => True) c) (h : Listed c) (calls : List Call) :
    Listed (calls.foldl (Controller.step sha256) c) := by
  induction calls generalizing c with
  | nil => exact h
  | cons call calls ih =>
    have hmoves : Moves sha256 (fun _ => True) (fun _ => True) c (c.step sha256 call) :=
      moves_step hs.distinct call.offers_true trivial
    exact ih (hs.moves hmoves).1 (h.step hs.distinct call)

/-- What is exact in a state, in terms of the table and the disk only. -/
structure Exact (sha256 : Bytes → Bytes) (c : Controller) : Prop where
  bytes : c.activeBytes = ((c.transfers.filter active).map fun t => t.offer.size).sum
  bytes_nonneg : 0 ≤ c.activeBytes
  bytes_le : c.activeBytes ≤ c.limits.maxTotalBytes
  active_le : (c.transfers.filter active).length ≤ c.limits.maxActive
  history_le : c.transfers.length ≤ c.limits.maxHistory
  received_le : ∀ t ∈ c.transfers, t.received ≤ t.offer.size
  stored : ∀ t ∈ c.transfers, t.active = true → ∃ i, c.disk.lookup t.tempPath = some (.file i) ∧
    (c.disk.contents i).take t.received.toNat = t.chunks.flatten
  finished : ∀ t ∈ c.transfers, t.state = .completed → t.received = t.offer.size ∧
    ∃ i, c.disk.lookup t.finalPath = some (.file i) ∧
      hexEncode (sha256 (c.disk.contents i)) = t.offer.sha256

theorem limited_eq {content : Bytes} {size : ℤ} (h : size = content.length)
    (hlt : size < 2 ^ 63 - 1) :
    limited content size = content := by
  rw [limited, int64_eq (by omega) (by omega), take_of_length_le]
  omega

theorem Sound.exact (h : Sound sha256 P c) (hlisted : Listed c) : Exact sha256 c where
  bytes := by rw [h.bytes, sum_weight]
  bytes_nonneg := h.bytes_nonneg
  bytes_le := h.bytes_le
  active_le := h.count_le
  history_le := h.history_le
  received_le := fun t ht => (h.good t ht).received_le
  stored := by
    intro t ht hactive
    obtain ⟨hlookup, hcontents⟩ := (h.good t ht).stored hactive
    refine ⟨t.inode, hlookup, ?_⟩
    rw [hcontents, (h.good t ht).received_eq, Int.toNat_natCast, take_length]
  finished := by
    intro t ht hstate
    have hgood := h.good t ht
    obtain ⟨hall, hdigest, hlookup, hcontents, -⟩ := hgood.finished hstate
    refine ⟨hall, t.inode, hlookup, ?_⟩
    rw [hcontents]
    have hlength : t.offer.size = t.chunks.flatten.length := hall ▸ hgood.received_eq
    -- the size was published, so it is far below `2 ^ 63`
    have hsize := (hlisted.entry t ht).size_le
    rwa [limited_eq hlength (by simp only [maxVariableSafeInteger] at hsize; omega)] at hdigest

/-- A digest that tells the empty string from the others. -/
def plainHash (content : Bytes) : Bytes := List.replicate 32 (if content = [] then 0 else 1)

def plainDisk : FS where
  nodes := [⟨tempRoot, .dir⟩]
  contents := fun _ => []
  next := 0
  distinct := nodup_singleton _
  bounded := by
    intro n hn i hi
    rw [mem_singleton.1 hn] at hi
    cases hi
  single := by
    intro n hn m hm i hi
    rw [mem_singleton.1 hn] at hi
    cases hi

/-- Limits for files of up to `size` bytes. -/
def plainLimits (size : ℕ) (h : size < 2 ^ 63) : Limits where
  maxFileBytes := size
  maxTotalBytes := size
  maxActive := 64
  maxHistory := 256
  maxLifetime := 24 * 3600 * second
  file_le := le_rfl
  total_nonneg := Int.natCast_nonneg size
  total_lt := by exact_mod_cast h
  active_le := by decide

def plainID : String := "00000000000000000000000000000000"

def plainOffer (size : ℕ) (content : Bytes) : FileOfferV1 where
  version := 1
  transferID := plainID
  path := "a"
  size
  sha256 := hexEncode (plainHash content)
  chunkSize := 65536
  contentType := ""
  expiresAtUnixMS := 1000

/-- The `n`-th of the chunks of one byte. -/
def plainChunk (n : ℕ) : FileChunkV1 where
  version := 1
  transferID := plainID
  offset := n
  data := [0]
  sha256 := hexEncode (plainHash [0])

def plainComplete (o : FileOfferV1) : FileCompleteV1 where
  version := 1
  transferID := plainID
  size := o.size
  sha256 := o.sha256

def plainCalls (o : FileOfferV1) (n : ℕ) : List Call :=
  Call.offer 0 {} 1 o :: (List.range n).map fun i => Call.chunk 0 {} 1 (plainChunk i)

end Controller

end Upload
