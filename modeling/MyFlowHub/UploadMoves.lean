/-
What a call of the upload controller does to its table and its disk.

Every call is a sequence of moves, each one indivisible change: a directory is made, a transfer
begins, is taken back, takes a chunk, is released or is activated (`Move`, `Moves`).

* `filter_active_trimLocked`, `length_trimLocked` — trimming keeps the active transfers and
  makes the table fit;
* `moves_offerFor`, `moves_chunkFor`, … — each call is such a sequence;
* `Move.keeps` — a move keeps the files that are not open.
-/
import MyFlowHub.Upload

open Encoding (hexEncode)
open Checks Enrollment Protocol List Relation.ReflTransGen
open Filesystem

namespace Upload

namespace Controller

variable {sha256 : Bytes → Bytes} {P : FileOfferV1 → Prop} {F : Faults → Prop}
  {c c' : Controller} {t u : Transfer} {now : Time} {faults : Faults}

/-! ### The table -/

theorem mem_set : u ∈ (c.set t).transfers ↔
    (u = t ∧ ∃ x ∈ c.transfers, x.id = t.id) ∨ (u ∈ c.transfers ∧ u.id ≠ t.id) := by
  rw [set, Roster.mem_modify]
  constructor
  · rintro (⟨x, hx, hid, rfl⟩ | h)
    · exact .inl ⟨rfl, x, hx, hid⟩
    · exact .inr h
  · rintro (⟨rfl, x, hx, hid⟩ | h)
    · exact .inl ⟨x, hx, hid, rfl⟩
    · exact .inr h

/-- A key that the transfers with the identifier of `t` have keeps the list of keys. -/
theorem map_set {κ : Type} {key : Transfer → κ}
    (h : ∀ x ∈ c.transfers, x.id = t.id → key x = key t) :
    (c.set t).transfers.map key = c.transfers.map key := by
  show (c.transfers.map fun x => if x.id = t.id then t else x).map key = _
  rw [map_map]
  apply map_congr_left
  intro x hx
  show key (if x.id = t.id then t else x) = key x
  split_ifs with hid
  · exact (h x hx hid).symm
  · rfl

section

abbrev Distinct (c : Controller) : Prop := Roster.Distinct Transfer.id c.transfers

variable (h : c.Distinct)
include h

theorem distinct_set : Roster.Distinct Transfer.id (c.set t).transfers := by
  rw [Roster.Distinct, map_set fun x _ hid => hid]
  exact h

theorem find_eq_some {id : String} : c.find id = some t ↔ t ∈ c.transfers ∧ t.id = id :=
  Roster.find_eq_some h

theorem eq_of_id (ht : t ∈ c.transfers) (hu : u ∈ c.transfers) (hid : t.id = u.id) : t = u :=
  inj_on_of_nodup_map h ht hu hid

end

theorem trim_sublist (maxHistory : ℕ) (ids : List String) (l : List Transfer) :
    (trim maxHistory l ids).Sublist l := by
  -- what remains of a table after `trim` with these identifiers: a sublist
  induction ids generalizing l with
  | nil => exact List.Sublist.refl l
  | cons id ids ih =>
    rw [trim]
    split_ifs
    · exact (ih _).trans filter_sublist
    · exact List.Sublist.refl l

theorem trim_filter {maxHistory : ℕ} {ids : List String} {l : List Transfer}
    (h : ∀ id ∈ ids, ∀ x ∈ l, x.active = true → x.id ≠ id) :
    (trim maxHistory l ids).filter Transfer.active = l.filter Transfer.active := by
  induction ids generalizing l with
  | nil => rfl
  | cons id ids ih =>
    rw [trim]
    split_ifs
    · rw [ih fun id' hid' x hx => h id' (mem_cons_of_mem _ hid') x (Roster.mem_remove.1 hx).1,
        Roster.remove, filter_filter]
      apply filter_congr
      intro x hx
      by_cases hactive : x.active = true
      · simp [hactive, h id mem_cons_self x hx hactive]
      · simp [hactive]
    · rfl

theorem length_trim {maxHistory : ℕ} {ids : List String} {l : List Transfer}
    (hd : Roster.Distinct Transfer.id l) (hids : ids.Nodup) (h : ∀ id ∈ ids, ∃ x ∈ l, x.id = id) :
    (trim maxHistory l ids).length ≤ maxHistory ∨
      (trim maxHistory l ids).length + ids.length = l.length := by
  induction ids generalizing l with
  | nil => exact .inr rfl
  | cons id ids ih =>
    rw [trim]
    split_ifs with hmax
    · obtain ⟨hnot, hids⟩ := nodup_cons.1 hids
      obtain ⟨x, hx, hid⟩ := h id mem_cons_self
      have hlength := Roster.length_remove hd ((Roster.find_eq_some hd).2 ⟨hx, hid⟩)
      have hrest : ∀ id' ∈ ids, ∃ y ∈ Roster.remove Transfer.id l id, y.id = id' := by
        intro id' hid'
        obtain ⟨y, hy, rfl⟩ := h id' (mem_cons_of_mem _ hid')
        refine ⟨y, Roster.mem_remove.2 ⟨hy, ?_⟩, rfl⟩
        rintro rfl
        exact hnot hid'
      rcases ih (hd.remove id) hids hrest with hle | heq
      · exact .inl hle
      · exact .inr (by rw [length_cons]; omega)
    · exact .inl (by omega)

theorem mem_terminalIDs {l : List Transfer} {id : String} :
    id ∈ terminalIDs l ↔ ∃ x ∈ l, x.active = false ∧ x.id = id := by
  rw [terminalIDs, mem_insertionSort, mem_map]
  constructor
  · rintro ⟨x, hx, hid⟩
    obtain ⟨hx, hactive⟩ := mem_filter.1 hx
    exact ⟨x, hx, by simpa using hactive, hid⟩
  · rintro ⟨x, hx, hactive, hid⟩
    exact ⟨x, mem_filter.2 ⟨hx, by simpa using hactive⟩, hid⟩

theorem terminalIDs_nodup {l : List Transfer} (hd : Roster.Distinct Transfer.id l) :
    (terminalIDs l).Nodup := by
  rw [terminalIDs, (perm_insertionSort _ _).nodup_iff]
  exact hd.sublist (filter_sublist.map _)

theorem length_terminalIDs (l : List Transfer) :
    (terminalIDs l).length + (l.filter Transfer.active).length = l.length := by
  rw [terminalIDs, length_insertionSort, length_map]
  have h := length_eq_length_filter_add (l := l) Transfer.active
  omega

theorem filter_active_trimLocked (hd : c.Distinct) :
    c.trimLocked.transfers.filter Transfer.active = c.transfers.filter Transfer.active := by
  apply trim_filter
  intro id hid x hx hactive heq
  obtain ⟨y, hy, hterminal, hyid⟩ := mem_terminalIDs.1 hid
  have hxy := eq_of_id hd hx hy (heq.trans hyid.symm)
  rw [hxy, hterminal] at hactive
  cases hactive

/-- **A table with few enough active transfers is trimmed to the history's length.** -/
theorem length_trimLocked (hd : c.Distinct)
    (h : c.activeCountLocked ≤ c.limits.maxHistory) :
    c.trimLocked.transfers.length ≤ c.limits.maxHistory := by
  have hids : ∀ id ∈ terminalIDs c.transfers, ∃ x ∈ c.transfers, x.id = id := by
    intro id hid
    obtain ⟨x, hx, -, hxid⟩ := mem_terminalIDs.1 hid
    exact ⟨x, hx, hxid⟩
  have hcount := length_terminalIDs c.transfers
  rw [activeCountLocked] at h
  rcases @length_trim c.limits.maxHistory _ _ hd (terminalIDs_nodup hd) hids with hle | heq
  · exact hle
  · show (trim c.limits.maxHistory c.transfers (terminalIDs c.transfers)).length ≤ _
    omega

/-! ### Moves -/

variable (sha256 P F) in
/-- A change of the controller; the offers that become transfers satisfy `P`, and the faults met
when a temporary file is removed `F`. -/
inductive Move : Controller → Controller → Prop
  | revise (c : Controller) (revision : UInt64) : Move c { c with revision }
  | mkdir (c : Controller) (p : Path) (fault : Option String) (disk : FS)
      (made : c.disk.mkdir p fault = .ok disk) : Move c { c with disk }
  | begin (c : Controller) (owner : NodeID) (request : FileOfferV1) (finalPath : Path)
      (fault : Option String) (inode : ℕ) (disk : FS)
      (allowed : P request)
      (valid : request.validate = .ok ())
      (destination : finalPath = segments request.path)
      (size_le : request.size ≤ c.limits.maxFileBytes)
      (unused : c.find request.transferID = none)
      (count : c.activeCountLocked < c.limits.maxActive)
      (bytes : request.size ≤ c.limits.maxTotalBytes - c.activeBytes)
      (made : c.disk.create (tempPath request.transferID) fault = .ok (inode, disk)) :
      Move c (c.begin (newTransfer owner request finalPath inode) disk)
  | withdraw (c : Controller) (faults : Faults) (met : F faults) (t : Transfer)
      (mem : t ∈ c.transfers)
      (active : t.active = true) : Move c (c.withdraw faults t)
  | release (c : Controller) (faults : Faults) (met : F faults) (t : Transfer)
      (state : TransferState)
      (err : String) (mem : t ∈ c.transfers) (active : t.active = true)
        (terminal : state.active = false)
      (unfinished : state ≠ .completed) : Move c (c.release faults t state err)
  /-- A failed write, after which the file may hold anything. -/
  | spoil (c : Controller) (faults : Faults) (met : F faults) (t : Transfer) (content : Bytes)
      (err : String) (mem : t ∈ c.transfers) (active : t.active = true) (opened : t.isOpen = true) :
      Move c ({ c with disk := c.disk.store t.inode content }.release faults t .failed err)
  | extend (c : Controller) (t : Transfer) (data : Bytes) (mem : t ∈ c.transfers)
      (active : t.active = true) (opened : t.isOpen = true)
      (within : t.received + data.length ≤ t.offer.size) :
      Move c ({ c with
        disk := c.disk.store t.inode
          (FS.overwrite (c.disk.contents t.inode) t.received.toNat data) }.set (extended t data))
  | activate (c : Controller) (t : Transfer) (fault : Option String) (disk : FS)
      (mem : t ∈ c.transfers) (active : t.active = true) (opened : t.isOpen = true)
      (all : t.received = t.offer.size)
      (digest : hexEncode (sha256 (limited (c.disk.contents t.inode) t.offer.size)) =
        t.offer.sha256)
      (absent : c.disk.lookup t.finalPath = none)
      (renamed : c.disk.rename t.tempPath t.finalPath fault = .ok disk) :
      Move c (c.activated t disk)

variable (sha256 P F) in
abbrev Moves : Controller → Controller → Prop := Relation.ReflTransGen (Move sha256 P F)

theorem Move.moves (h : Move sha256 P F c c') : Moves sha256 P F c c' := single h

theorem Move.limits_eq (h : Move sha256 P F c c') : c'.limits = c.limits := by
  cases h <;> rfl

theorem Move.distinct (h : Move sha256 P F c c') (hd : c.Distinct) :
    Roster.Distinct Transfer.id c'.transfers := by
  cases h with
  | revise => exact hd
  | mkdir => exact hd
  | begin owner request finalPath fault inode disk _ _ _ _ unused =>
    exact List.Nodup.sublist ((trim_sublist _ _ _).map Transfer.id)
      (hd.concat (x := newTransfer owner request finalPath inode) unused)
  | withdraw faults _ t => exact hd.remove t.id
  | release => exact distinct_set hd
  | spoil => exact distinct_set hd
  | extend => exact distinct_set hd
  | activate => exact distinct_set hd

theorem Moves.limits_eq (h : Moves sha256 P F c c') : c'.limits = c.limits := by
  induction h with
  | refl => rfl
  | tail _ h ih => exact h.limits_eq.trans ih

theorem Moves.distinct (h : Moves sha256 P F c c') (hd : c.Distinct) :
    Roster.Distinct Transfer.id c'.transfers := by
  induction h with
  | refl => exact hd
  | tail _ h ih => exact h.distinct ih

section

variable (c : Controller)

theorem updateSummariesLocked_revision (fault : Option String) :
    ∃ revision, (c.updateSummariesLocked fault).2 = { c with revision } := by
  unfold updateSummariesLocked
  split_ifs
  · exact ⟨c.revision, rfl⟩
  · split
    · exact ⟨c.revision, rfl⟩
    · exact ⟨c.revision, rfl⟩
    · exact ⟨c.revision + 1, rfl⟩

variable (faults : Faults) (t : Transfer)

theorem publishLocked_revision :
    ∃ revision, (c.publishLocked faults t).2 = { c with revision } := by
  rw [publishLocked]
  split
  · exact ⟨c.revision, rfl⟩
  · exact ⟨c.revision, rfl⟩
  · exact updateSummariesLocked_revision c faults.summaries

theorem moves_publishLocked : Moves sha256 P F c (c.publishLocked faults t).2 := by
  obtain ⟨revision, h⟩ := publishLocked_revision c faults t
  rw [h]
  exact (Move.revise c revision).moves

theorem answer_snd : (c.answer faults t).2 = (c.publishLocked faults t).2 := by
  rw [answer]
  split
  · rename_i text c' heq
    rw [heq]
  · rename_i c' heq
    rw [heq]

theorem moves_answer : Moves sha256 P F c (c.answer faults t).2 := by
  rw [answer_snd]
  exact moves_publishLocked c faults t

end

theorem failLocked_active (h : t.active = true) (failure : String) :
    c.failLocked faults t failure = ((c.release faults t .failed failure).publishLocked faults
      { t with isOpen := false, state := .failed, err := failure }).2 := by
  rw [failLocked, if_pos h]

theorem moves_failLocked (hF : F faults) (ht : t ∈ c.transfers) (h : t.active = true)
    (failure : String) :
    Moves sha256 P F c (c.failLocked faults t failure) := by
  rw [failLocked_active h]
  exact (Move.release c faults hF t .failed failure ht h rfl (by decide)).moves.trans
    (moves_publishLocked _ faults _)

/-! ### Expiry -/

theorem moves_expire (hF : F faults) {l : List Transfer} (hd : Roster.Distinct Transfer.id l)
    (hl : ∀ x ∈ l, x ∈ c.transfers) : Moves sha256 P F c (l.foldl (expireOne now faults) c) := by
  -- the loop of `expireLocked`; the transfers still to come are untouched in the table
  induction l generalizing c with
  | nil => exact refl
  | cons t l ih =>
    obtain ⟨hnot, hd⟩ := nodup_cons.1 hd
    rw [foldl_cons, expireOne]
    split_ifs with hexpired
    · have hactive : t.active = true := (Bool.and_eq_true _ _ ▸ hexpired).1
      refine (Move.release c faults hF t .failed "transfer expired" (hl t mem_cons_self) hactive rfl
        (by decide)).moves.trans (ih hd fun x hx => mem_set.2 (.inr ⟨?_, ?_⟩))
      · exact hl x (mem_cons_of_mem _ hx)
      · intro hid
        exact hnot (mem_map.2 ⟨x, hx, hid⟩)
    · exact ih hd fun x hx => hl x (mem_cons_of_mem _ hx)

/-- After the loop `expireLocked` changes at most the revision. -/
theorem expireLocked_revision (c : Controller) (now : Time) (faults : Faults) :
    ∃ revision, c.expireLocked now faults =
      { c.transfers.foldl (expireOne now faults) c with revision } := by
  rw [expireLocked]
  split_ifs
  · exact updateSummariesLocked_revision _ faults.expired
  · exact ⟨_, rfl⟩

theorem moves_expireLocked (hd : c.Distinct) (now : Time)
    (hF : F faults) : Moves sha256 P F c (c.expireLocked now faults) := by
  obtain ⟨revision, h⟩ := expireLocked_revision c now faults
  rw [h]
  exact (moves_expire hF hd fun x hx => hx).trans (Move.revise _ revision).moves

/-! ### Offers -/

theorem moves_enter (c : Controller) (faults : Faults) (current : Path) :
    Moves sha256 P F c { c with disk := (enter faults c.disk current).2 } := by
  rw [enter]
  split
  · split
    · exact refl
    · rename_i made hmade
      exact (Move.mkdir c current _ made hmade).moves
  · exact refl

theorem moves_walk (c : Controller) (faults : Faults) (current : Path) (names : List String) :
    Moves sha256 P F c { c with disk := (walk faults c.disk current names).2 } := by
  induction names generalizing c current with
  | nil => exact refl
  | cons segment rest ih =>
    have henter : Moves sha256 P F c _ := moves_enter c faults (current ++ [segment])
    rw [walk]
    split
    · rename_i text fs' heq
      rw [heq] at henter
      exact henter
    · rename_i fs' heq
      rw [heq] at henter
      exact henter.trans (ih { c with disk := fs' } (current ++ [segment]))

theorem moves_safeDestination (c : Controller) (faults : Faults) (slashPath : String) :
    Moves sha256 P F c { c with disk := (safeDestination faults c.disk slashPath).2 } := by
  have hwalk : Moves sha256 P F c _ := moves_walk c faults [] (segments slashPath).dropLast
  rw [safeDestination]
  split
  · rename_i text fs' heq
    rw [heq] at hwalk
    exact hwalk
  · rename_i destination fs' heq
    rw [heq] at hwalk
    dsimp only
    split_ifs
    · exact hwalk
    · split <;> exact hwalk

theorem walk_eq_ok {fs fs' : FS} {current destination : Path} {names : List String}
    (h : walk faults fs current names = (.ok destination, fs')) :
    destination = current ++ names := by
  induction names generalizing fs current with
  | nil =>
    cases h
    exact (append_nil destination).symm
  | cons segment rest ih =>
    rw [walk] at h
    split at h
    · cases h
    · rw [ih h, append_assoc]
      rfl

theorem segments_ne_nil (path : String) : segments path ≠ [] := by
  rw [segments, Ne, map_eq_nil_iff]
  exact splitOn_ne_nil _ _

/-- **The destination is the path of the offer below the root.** -/
theorem safeDestination_eq_ok {fs fs' : FS} {slashPath : String} {destination : Path}
    (h : safeDestination faults fs slashPath = (.ok destination, fs')) :
    destination = segments slashPath := by
  have hlast : (segments slashPath).dropLast ++ [(segments slashPath).getLastD ""] = segments
    slashPath := by
    rw [getLastD_eq_getLast?, List.getLast?_eq_getLast_of_ne_nil (segments_ne_nil slashPath)]
    exact dropLast_append_getLast (segments_ne_nil slashPath)
  rw [safeDestination] at h
  split at h
  · cases h
  · rename_i current fs₁ hwalk
    have hcurrent := walk_eq_ok hwalk
    rw [nil_append] at hcurrent
    dsimp only at h
    rw [hcurrent, hlast] at h
    split_ifs at h
    · cases h
    · split at h <;> cases h <;> rfl

theorem mem_begin (hd : c.Distinct) (hnew : c.find t.id = none)
    (hactive : t.active = true) (disk : FS) : t ∈ (c.begin t disk).transfers := by
  have hfilter := filter_active_trimLocked (c := { c with
    transfers := c.transfers ++ [t], activeBytes := c.activeBytes + t.offer.size, disk })
    (hd.concat hnew)
  have hmem : t ∈ (c.begin t disk).transfers.filter Transfer.active := by
    rw [begin, hfilter]
    exact mem_filter.2 ⟨mem_append_right _ mem_cons_self, hactive⟩
  exact (mem_filter.1 hmem).1

variable {request : FileOfferV1}

theorem moves_openTransfer (hF : F faults) (hd : c.Distinct)
    {owner : NodeID} {finalPath : Path} (hP : P request) (hvalid : request.validate = .ok ())
    (hdestination : finalPath = segments request.path)
    (hsize : request.size ≤ c.limits.maxFileBytes) (hnew : c.find request.transferID = none)
    (hcount : c.activeCountLocked < c.limits.maxActive)
    (hbytes : request.size ≤ c.limits.maxTotalBytes - c.activeBytes) :
    Moves sha256 P F c (c.openTransfer faults owner request finalPath).2 := by
  rw [openTransfer]
  split
  · exact refl
  · rename_i inode disk hmade
    have hbegin : Moves sha256 P F c _ := (Move.begin c owner request finalPath
      faults.create inode disk
      hP hvalid hdestination hsize hnew hcount hbytes hmade).moves
    obtain ⟨revision, hpublish⟩ := publishLocked_revision
      (c.begin (newTransfer owner request finalPath inode) disk) faults
      (newTransfer owner request finalPath inode)
    have hrevise := hbegin.trans (Move.revise _ revision).moves
    dsimp only
    split
    · -- the publication failed: what has begun is taken back
      rename_i text c' heq
      rw [heq] at hpublish
      obtain rfl : c' = _ := hpublish
      have hmem : newTransfer owner request finalPath inode ∈
          (c.begin (newTransfer owner request finalPath inode) disk).transfers :=
        mem_begin hd hnew rfl disk
      exact hrevise.trans (Move.withdraw { c.begin
        (newTransfer owner request finalPath inode) disk with
        revision } faults hF _ hmem rfl).moves
    · rename_i c' heq
      rw [heq] at hpublish
      obtain rfl : c' = _ := hpublish
      exact hrevise

theorem moves_admitOffer (hF : F faults) (hd : c.Distinct)
    {owner : NodeID} (hP : P request) (hvalid : request.validate = .ok ())
    (hsize : request.size ≤ c.limits.maxFileBytes) :
    Moves sha256 P F c (c.admitOffer faults owner request).2 := by
  rw [admitOffer]
  split
  · split_ifs <;> exact refl
  · rename_i hnew
    split_ifs with hlimit
    · exact refl
    · have hdestination : Moves sha256 P F c _ := moves_safeDestination c faults request.path
      push Not at hlimit
      split
      · rename_i text disk heq
        rw [heq] at hdestination
        exact hdestination
      · rename_i finalPath disk heq
        rw [heq] at hdestination
        have hsegments := safeDestination_eq_ok heq
        refine hdestination.trans (moves_openTransfer hF ?_ hP hvalid hsegments hsize hnew
          hlimit.1 hlimit.2)
        exact hd

theorem moves_offerFor (hd : c.Distinct) (now : Time) (hF : F faults)
    (owner : NodeID) (hP : P request) :
    Moves sha256 P F c (c.offerFor now faults owner request).2 := by
  rw [offerFor]
  split
  · exact refl
  · rename_i hcheck
    obtain ⟨_, hvalid, hcheck⟩ := bind_eq_ok.1 hcheck
    rw [require_eq_ok] at hcheck
    push Not at hcheck
    have hexpire : Moves sha256 P F c (c.expireLocked now faults) := moves_expireLocked hd now hF
    refine hexpire.trans (moves_admitOffer hF (hexpire.distinct hd) hP hvalid ?_)
    rw [hexpire.limits_eq]
    exact hcheck.1

/-! ### Chunks -/

theorem activeOwnedLocked_eq_ok {id : String} {owner : NodeID}
    (h : c.activeOwnedLocked id owner = .ok t) :
    t ∈ c.transfers ∧ t.id = id ∧ t.owner = owner ∧ t.active = true := by
  rw [activeOwnedLocked] at h
  split at h
  · cases h
  · rename_i current hfind
    split_ifs at h with howner hactive
    cases h
    obtain ⟨hmem, hid⟩ := Roster.mem_of_find hfind
    exact ⟨hmem, hid, not_not.1 howner, by simpa using hactive⟩

theorem int64_eq {n : ℤ} (h0 : 0 ≤ n) (h : n < 2 ^ 63) : int64 n = n := by
  rw [int64, Int.bmod_def]
  omega

theorem moves_writeChunk (hF : F faults) (ht : t ∈ c.transfers) (hactive : t.active = true)
    {data : Bytes}
    (h0 : 0 ≤ t.received) (hsize : int64 (t.received + data.length) ≤ t.offer.size) :
    Moves sha256 P F c (c.writeChunk faults t data).2 := by
  rw [writeChunk]
  by_cases hopen : t.isOpen = true
  · rw [if_pos hopen]
    split
    · rename_i text disk heq
      obtain ⟨content, hstore⟩ :=
        @FS.writeAt_store c.disk t.inode t.received.toNat data faults.writeAt
      rw [heq] at hstore
      obtain rfl : disk = _ := hstore
      rw [failLocked_active hactive]
      exact (Move.spoil c faults hF t content text ht hactive hopen).moves.trans
        (moves_publishLocked _ faults _)
    · rename_i disk heq
      obtain ⟨hmax, hstore⟩ := FS.writeAt_eq_none (congrArg Prod.fst heq)
      rw [heq] at hstore
      obtain rfl : disk = _ := hstore
      -- the write succeeded, so the sum did not overflow
      have hwithin : t.received + data.length ≤ t.offer.size := by
        have hno : FS.maxOffset = 2 ^ 63 - 1 := rfl
        rwa [int64_eq (by omega) (by omega)] at hsize
      exact (Move.extend c t data ht hactive hopen hwithin).moves.trans (moves_answer _ faults _)
  · rw [if_neg hopen]
    exact moves_failLocked hF ht hactive _

theorem moves_takeChunk (hF : F faults) (ht : t ∈ c.transfers) (hactive : t.active = true)
      {request : FileChunkV1}
    (h0 : 0 ≤ request.offset) : Moves sha256 P F c (c.takeChunk faults t request).2 := by
  rw [takeChunk]
  split_ifs with hlimit hbelow hgap
  · exact refl
  · exact refl
  · exact refl
  · push Not at hlimit hgap
    rw [hgap] at h0 hlimit
    exact moves_writeChunk hF ht hactive h0 hlimit.2

theorem FileOfferV1.size_nonneg (h : request.validate = .ok ()) :
    0 ≤ request.size := by
  obtain ⟨_, _, h⟩ := bind_eq_ok.1 h
  obtain ⟨_, _, h⟩ := bind_eq_ok.1 h
  obtain ⟨_, _, h⟩ := bind_eq_ok.1 h
  obtain ⟨_, h, _⟩ := bind_eq_ok.1 h
  rw [require_eq_ok] at h
  push Not at h
  exact h.1

theorem FileChunkV1.offset_nonneg {request : FileChunkV1} (h : request.validate = .ok ()) :
    0 ≤ request.offset := by
  obtain ⟨_, _, h⟩ := bind_eq_ok.1 h
  obtain ⟨_, _, h⟩ := bind_eq_ok.1 h
  obtain ⟨_, h, _⟩ := bind_eq_ok.1 h
  rw [require_eq_ok] at h
  push Not at h
  exact h.1

theorem moves_chunkFor (hd : c.Distinct) (now : Time) (hF : F faults)
    (owner : NodeID) (request : FileChunkV1) :
    Moves sha256 P F c (c.chunkFor sha256 now faults owner request).2 := by
  have hexpire : Moves sha256 P F c (c.expireLocked now faults) := moves_expireLocked hd now hF
  rw [chunkFor]
  split
  · exact refl
  · rename_i hcheck
    obtain ⟨_, hvalid, -⟩ := bind_eq_ok.1 hcheck
    split
    · exact hexpire
    · rename_i current hfound
      obtain ⟨hmem, -, -, hactive⟩ := activeOwnedLocked_eq_ok hfound
      exact hexpire.trans (moves_takeChunk hF hmem hactive (FileChunkV1.offset_nonneg hvalid))

/-! ### Completion and the rest -/

theorem verify_eq_ok (h : c.verify sha256 faults t = .ok ()) : t.isOpen = true ∧
    hexEncode (sha256 (limited (c.disk.contents t.inode) t.offer.size)) = t.offer.sha256 := by
  simp only [verify, bind_eq_ok, require_eq_ok] at h
  obtain ⟨_, hopen, _, -, _, -, _, -, _, hdigest, -⟩ := h
  exact ⟨hopen, hdigest⟩

theorem moves_activate (hF : F faults) (ht : t ∈ c.transfers) (hactive : t.active = true)
    (hopen : t.isOpen = true) (hall : t.received = t.offer.size)
    (hdigest : hexEncode (sha256 (limited (c.disk.contents t.inode) t.offer.size)) =
      t.offer.sha256) :
    Moves sha256 P F c (c.activate faults t).2 := by
  rw [activate]
  split
  · exact moves_failLocked hF ht hactive _
  · exact moves_failLocked hF ht hactive _
  · rename_i habsent
    split
    · exact moves_failLocked hF ht hactive _
    · rename_i disk hrenamed
      exact (Move.activate c t faults.rename disk ht hactive hopen hall hdigest
        (FS.lstat_eq_notExist habsent) hrenamed).moves.trans (moves_answer _ faults _)

theorem moves_finish (hF : F faults) (ht : t ∈ c.transfers) (hactive : t.active = true)
    (request : FileCompleteV1) : Moves sha256 P F c (c.finish sha256 faults t request).2 := by
  rw [finish]
  split_ifs with hmismatch
  · exact refl
  · push Not at hmismatch
    split
    · exact moves_failLocked hF ht hactive _
    · rename_i hverify
      obtain ⟨hopen, hdigest⟩ := verify_eq_ok hverify
      exact moves_activate hF ht hactive hopen hmismatch.2.2 hdigest

theorem moves_completeFor (hd : c.Distinct) (now : Time)
    (hF : F faults) (owner : NodeID) (request : FileCompleteV1) :
    Moves sha256 P F c (c.completeFor sha256 now faults owner request).2 := by
  have hexpire : Moves sha256 P F c (c.expireLocked now faults) := moves_expireLocked hd now hF
  rw [completeFor]
  split
  · exact refl
  · split
    · exact hexpire
    · rename_i current hfound
      obtain ⟨hmem, -, -, hactive⟩ := activeOwnedLocked_eq_ok hfound
      exact hexpire.trans (moves_finish hF hmem hactive request)

theorem moves_cancelActive (hF : F faults) (ht : t ∈ c.transfers) (hactive : t.active = true)
      (reason : String) :
    Moves sha256 P F c (c.cancelActive faults t reason).2 := by
  exact (Move.release c faults hF t .cancelled reason ht hactive rfl (by decide)).moves.trans
    (moves_answer _ faults _)

theorem moves_cancelFor (c : Controller) (hF : F faults) (owner : NodeID) (request : FileCancelV1) :
    Moves sha256 P F c (c.cancelFor faults owner request).2 := by
  rw [cancelFor]
  split
  · exact refl
  · exact refl
  · rename_i reason current _ hfind
    obtain ⟨hmem, -⟩ := Roster.mem_of_find hfind
    split_ifs
    · exact refl
    · split
      · exact refl
      · exact refl
      · exact refl
      · rename_i hstate
        exact moves_cancelActive hF hmem (by rw [Transfer.active, hstate]; rfl) reason
      · rename_i hstate
        exact moves_cancelActive hF hmem (by rw [Transfer.active, hstate]; rfl) reason

theorem moves_abortFor (c : Controller) (hF : F faults) (owner : NodeID) (id : String)
    (reason : Option String) : Moves sha256 P F c (c.abortFor faults owner id reason) := by
  rw [abortFor]
  split
  · exact refl
  · rename_i current hfind
    obtain ⟨hmem, -⟩ := Roster.mem_of_find hfind
    split_ifs with hskip
    · exact refl
    · push Not at hskip
      exact moves_failLocked hF hmem (by simpa using hskip.2) _

/-! ### What a move leaves alone -/

/-- File `i` is open for a transfer. -/
def Handled (c : Controller) (i : ℕ) : Prop := ∃ t ∈ c.transfers, t.isOpen = true ∧ t.inode = i

/-- A file under a path of `Q` that is not open stays there with its contents, and is not opened. -/
def Keeps (Q : Path → Prop) (c c' : Controller) : Prop :=
  ∀ p i, Q p → c.disk.lookup p = some (.file i) → ¬ Handled c i →
    c'.disk.lookup p = some (.file i) ∧ c'.disk.contents i = c.disk.contents i ∧ ¬ Handled c' i

variable {Q : Path → Prop}

theorem Keeps.refl (Q : Path → Prop) (c : Controller) : Keeps Q c c :=
  fun _ _ _ hp hi => ⟨hp, rfl, hi⟩

theorem Keeps.trans {c'' : Controller} (h : Keeps Q c c') (h' : Keeps Q c' c'') :
    Keeps Q c c'' := by
  intro p i hQ hp hi
  obtain ⟨hp', hcontents, hi'⟩ := h p i hQ hp hi
  obtain ⟨hp'', hcontents', hi''⟩ := h' p i hQ hp' hi'
  exact ⟨hp'', hcontents'.trans hcontents, hi''⟩

theorem removeTemp_cases (c : Controller) (faults : Faults) (path : Path) :
    c.removeTemp faults path = c.disk ∨
      c.disk.remove path (faults.remove path) = .ok (c.removeTemp faults path) := by
  rw [removeTemp]
  split
  · rename_i disk h
    exact .inr h
  · exact .inl rfl

theorem lookup_removeTemp {path p : Path} (hp : p ≠ path) :
    (c.removeTemp faults path).lookup p = c.disk.lookup p := by
  rcases removeTemp_cases c faults path with h | h
  · rw [h]
  · rw [(FS.remove_eq_ok h).2.2, if_neg hp]

theorem lookup_of_removeTemp {path p : Path} {e : Entry}
    (h : (c.removeTemp faults path).lookup p = some e) : c.disk.lookup p = some e := by
  rcases removeTemp_cases c faults path with hsame | hremove
  · rwa [hsame] at h
  · rw [(FS.remove_eq_ok hremove).2.2] at h
    split_ifs at h
    exact h

theorem contents_removeTemp (path : Path) :
    (c.removeTemp faults path).contents = c.disk.contents := by
  rcases removeTemp_cases c faults path with h | h
  · rw [h]
  · exact (FS.remove_eq_ok h).2.1

theorem touches_removeTemp {path : Path} {i : ℕ}
    (h : ∀ j, c.disk.lookup path = some (.file j) → j = i) :
    c.disk.Touches (c.removeTemp faults path) i := by
  rcases removeTemp_cases c faults path with hsame | hremove
  · rw [hsame]
    exact FS.Touches.refl c.disk i
  · exact FS.touches_remove hremove h

theorem not_handled_set {i : ℕ} (ht : t ∈ c.transfers) (hopen : u.isOpen = true → t.isOpen = true)
    (hinode : u.inode = t.inode) (h : ¬ Handled c i) : ¬ Handled (c.set u) i := by
  rintro ⟨x, hx, hxopen, rfl⟩
  rcases mem_set.1 hx with ⟨rfl, -⟩ | ⟨hx, -⟩
  · exact h ⟨t, ht, hopen hxopen, hinode.symm⟩
  · exact h ⟨x, hx, hxopen, rfl⟩

theorem Keeps.release (ht : t ∈ c.transfers) (state : TransferState) (err : String)
    (hQ : ∀ i, Q t.tempPath → c.disk.lookup t.tempPath = some (.file i) → Handled c i) :
    Keeps Q c (c.release faults t state err) := by
  intro p i hp hlookup hi
  have hne : p ≠ t.tempPath := by
    rintro rfl
    exact hi (hQ i hp hlookup)
  refine ⟨?_, ?_, not_handled_set ht (by rintro ⟨⟩) rfl hi⟩
  · show (c.removeTemp faults t.tempPath).lookup p = _
    rw [lookup_removeTemp hne, hlookup]
  · show (c.removeTemp faults t.tempPath).contents i = _
    rw [contents_removeTemp]

/-- What every open handle means: its file is under the temporary path of its transfer. -/
def Placed (c : Controller) : Prop :=
  ∀ t ∈ c.transfers, t.isOpen = true → c.disk.lookup t.tempPath = some (.file t.inode)

theorem Placed.handled (hplaced : Placed c) (ht : t ∈ c.transfers)
    (hQ : Q t.tempPath → t.isOpen = true) :
    ∀ i, Q t.tempPath → c.disk.lookup t.tempPath = some (.file i) → Handled c i := by
  intro i hq hlookup
  have hopen := hQ hq
  rw [hplaced t ht hopen] at hlookup
  cases hlookup
  exact ⟨t, ht, hopen, rfl⟩

/-- **A move keeps the files that are not open**, provided that the active transfers whose
temporary path is in `Q` are. -/
theorem Move.keeps (h : Move sha256 P F c c') (hplaced : Placed c)
    (hQ : ∀ t ∈ c.transfers, t.active = true → Q t.tempPath → t.isOpen = true) : Keeps Q c c' := by
  cases h with
  | revise => exact Keeps.refl Q c
  | mkdir p fault disk made =>
    intro q i _ hlookup hi
    obtain ⟨hcontents, hq⟩ := (FS.touches_mkdir (i := i + 1) made).2 i (by omega)
    exact ⟨(hq q).2 hlookup, hcontents, hi⟩
  | begin owner request finalPath fault inode disk _ _ _ _ _ _ _ made =>
    intro q i _ hlookup hi
    have hlt := FS.lt_next hlookup
    have hne : i ≠ inode := ((FS.create_eq_ok made).2.1 ▸ hlt).ne
    obtain ⟨hcontents, hq⟩ := (FS.touches_create made).2 i hne
    refine ⟨(hq q).2 hlookup, hcontents, ?_⟩
    rintro ⟨x, hx, hopen, rfl⟩
    rcases mem_append.1 ((trim_sublist _ _ _).subset hx) with hx | hx
    · exact hi ⟨x, hx, hopen, rfl⟩
    · -- the new file has a number no entry had
      rw [mem_singleton.1 hx] at hne
      exact hne rfl
  | withdraw faults _ t mem active =>
    intro p i hp hlookup hi
    have hne : p ≠ t.tempPath := by
      rintro rfl
      exact hi (hplaced.handled mem (hQ t mem active) i hp hlookup)
    refine ⟨?_, ?_, ?_⟩
    · show (c.removeTemp faults t.tempPath).lookup p = _
      rw [lookup_removeTemp hne, hlookup]
    · show (c.removeTemp faults t.tempPath).contents i = _
      rw [contents_removeTemp]
    · rintro ⟨x, hx, hopen, rfl⟩
      exact hi ⟨x, (Roster.mem_remove.1 hx).1, hopen, rfl⟩
  | release faults _ t state err mem active =>
    exact Keeps.release mem state err (hplaced.handled mem (hQ t mem active))
  | spoil faults _ t content err mem active opened =>
    have hstore : Keeps Q c { c with disk := c.disk.store t.inode content } := by
      intro p i _ hlookup hi
      refine ⟨hlookup, FS.contents_store_of_ne content ?_, hi⟩
      rintro rfl
      exact hi ⟨t, mem, opened, rfl⟩
    refine hstore.trans (Keeps.release ?_ .failed err ?_)
    · exact mem
    · exact hplaced.handled mem (hQ t mem active)
  | extend t data mem active opened =>
    intro p i _ hlookup hi
    have hne : i ≠ t.inode := by
      rintro rfl
      exact hi ⟨t, mem, opened, rfl⟩
    exact ⟨hlookup, FS.contents_store_of_ne _ hne, not_handled_set mem (fun h => h) rfl hi⟩
  | activate t fault disk mem active opened _ _ absent renamed =>
    intro p i _ hlookup hi
    have hne : i ≠ t.inode := by
      rintro rfl
      exact hi ⟨t, mem, opened, rfl⟩
    obtain ⟨hcontents, hp⟩ := (FS.touches_rename renamed (hplaced t mem opened) absent).2 i hne
    exact ⟨(hp p).2 hlookup, hcontents, not_handled_set mem (by rintro ⟨⟩) rfl hi⟩

end Controller

/-! ### Calls -/

inductive Call where
  | offer (now : Time) (faults : Faults) (owner : NodeID) (request : FileOfferV1)
  | chunk (now : Time) (faults : Faults) (owner : NodeID) (request : FileChunkV1)
  | complete (now : Time) (faults : Faults) (owner : NodeID) (request : FileCompleteV1)
  | cancel (faults : Faults) (owner : NodeID) (request : FileCancelV1)
  | abort (faults : Faults) (owner : NodeID) (id : String) (reason : Option String)
  | sweep (now : Time) (faults : Faults)

def Controller.step (sha256 : Bytes → Bytes) (c : Controller) : Call → Controller
  | .offer now faults owner request => (c.offerFor now faults owner request).2
  | .chunk now faults owner request => (c.chunkFor sha256 now faults owner request).2
  | .complete now faults owner request => (c.completeFor sha256 now faults owner request).2
  | .cancel faults owner request => (c.cancelFor faults owner request).2
  | .abort faults owner id reason => c.abortFor faults owner id reason
  | .sweep now faults => c.sweep now faults

def Call.faults : Call → Faults
  | .offer _ faults _ _ | .chunk _ faults _ _ | .complete _ faults _ _ => faults
  | .cancel faults _ _ | .abort faults _ _ _ | .sweep _ faults => faults

/-- The offer of a call, if it is one, satisfies `P`. -/
def Call.Offers (P : FileOfferV1 → Prop) : Call → Prop
  | .offer _ _ _ request => P request
  | _ => True

theorem Call.offers_true (call : Call) : call.Offers fun _ => True := by
  cases call <;> trivial

/-- **Every call is a sequence of moves.** -/
theorem Controller.moves_step {sha256 : Bytes → Bytes} {P : FileOfferV1 → Prop} {F : Faults → Prop}
    {c : Controller} (hd : c.Distinct) {call : Call}
    (hP : call.Offers P) (hF : F call.faults) : Moves sha256 P F c (c.step sha256 call) := by
  cases call with
  | offer now faults owner request => exact moves_offerFor hd now hF owner hP
  | chunk now faults owner request => exact moves_chunkFor hd now hF owner request
  | complete now faults owner request => exact moves_completeFor hd now hF owner request
  | cancel faults owner request => exact moves_cancelFor c hF owner request
  | abort faults owner id reason => exact moves_abortFor c hF owner id reason
  | sweep now faults => exact moves_expireLocked hd now hF

end Upload
