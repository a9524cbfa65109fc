/-
Upload sessions (`feature/file/resource.go`).

A session is opened with an offer; closing it completes or cancels the transfer.  The node that
closes a session calls `Close` and, on an error, `Abort` (`handleSessionClose` in
`runtime/node/sessions.go`).  `Close` marks the session closed before it tries, and `Abort` does
nothing on a closed session.

* `transfers_expireLocked` — what expiry does to the table;
* `Settled` — one transfer has left the active states, the others are as they were;
* **`session_finished_iff`** — when a closed session leaves no active transfer.
-/
import MyFlowHub.UploadQuota

open Encoding (hexEncode)
open Checks Enrollment Protocol List
open Filesystem

namespace Upload

/-! ### Sessions -/

/-- `uploadSession`. -/
structure UploadSession where
  owner : NodeID
  offer : FileOfferV1
  closed : Bool := false

/-- `resource.SessionCloseRequest`, but the schema. -/
structure SessionCloseRequest where
  commit : Bool
  payload : Bytes

/-- The reason given to `cancelFor`. -/
def SessionCloseRequest.reason (request : SessionCloseRequest) : Bytes :=
  if 0 < request.payload.length then request.payload
  else "upload session closed without commit".toUTF8.data.toList

namespace UploadSession

variable (sha256 : Bytes → Bytes) (s : UploadSession) (c : Controller) (now : Time)
    (faults : Faults)

def completion : FileCompleteV1 where
  version := schemaVersionV1
  transferID := s.offer.transferID
  size := s.offer.size
  sha256 := s.offer.sha256

def cancellation (request : SessionCloseRequest) : FileCancelV1 where
  version := schemaVersionV1
  transferID := s.offer.transferID
  reason := request.reason

def close (request : SessionCloseRequest) :
    Except String FileProgressV1 × UploadSession × Controller :=
  if s.closed then (.error "file upload session is closed", s, c)
  else
    let (result, c') :=
      if request.commit then c.completeFor sha256 now faults s.owner s.completion
      else c.cancelFor faults s.owner (s.cancellation request)
    (result, { s with closed := true }, c')

def abort (reason : String) : UploadSession × Controller :=
  if s.closed then (s, c)
  else ({ s with closed := true }, c.abortFor faults s.owner s.offer.transferID (some reason))

/-- `Node.handleSessionClose` from the removal of the session on. -/
def handleSessionClose (abortFaults : Faults) (request : SessionCloseRequest) :
    UploadSession × Controller :=
  match s.close sha256 c now faults request with
  | (.error text, s', c') => s'.abort c' abortFaults text
  | (.ok _, s', c') => (s', c')

end UploadSession

namespace Controller

variable {sha256 : Bytes → Bytes} {P : FileOfferV1 → Prop} {F : Faults → Prop}
  {c c' : Controller} {t u : Transfer} {now : Time} {faults : Faults} {owner : NodeID}

/-! ### The table after a call -/

/-- A transfer after `expireLocked`. -/
def afterExpiry (now : Time) (t : Transfer) : Transfer :=
  if expired now t then
    { t with isOpen := false, state := .failed, err := "transfer expired" }
  else t

theorem id_afterExpiry (now : Time) (t : Transfer) : (afterExpiry now t).id = t.id := by
  rw [afterExpiry]
  split_ifs <;> rfl

theorem transfers_release (c : Controller) (faults : Faults) (t : Transfer) (state : TransferState)
    (err : String) : (c.release faults t state err).transfers =
      (c.set { t with isOpen := false, state, err }).transfers := rfl

theorem transfers_expire {done l : List Transfer} (hd : Roster.Distinct Transfer.id (done ++ l))
    (hc : c.transfers = done ++ l) :
    (l.foldl (expireOne now faults) c).transfers = done ++ l.map (afterExpiry now) := by
  -- the loop over `l`, when `done` has been passed
  induction l generalizing c done with
  | nil => exact hc
  | cons t l ih =>
    have hstep : (expireOne now faults c t).transfers = done ++ [afterExpiry now t] ++ l := by
      rw [expireOne, afterExpiry]
      split_ifs with hexpired
      · rw [transfers_release, append_assoc]
        show Roster.modify Transfer.id c.transfers t.id _ = _
        rw [hc, Roster.modify_append_cons hd]
        rfl
      · rw [hc, append_assoc]
        rfl
    rw [foldl_cons, map_cons, ih ?_ hstep, append_assoc]
    · rfl
    · rw [Roster.Distinct, map_append, map_append, map_singleton, id_afterExpiry]
      rw [Roster.Distinct, map_append, map_cons] at hd
      simpa using hd

/-- **Expiry fails the expired transfers and leaves the others.** -/
theorem transfers_expireLocked (hd : c.Distinct) :
    (c.expireLocked now faults).transfers = c.transfers.map (afterExpiry now) := by
  obtain ⟨revision, h⟩ := expireLocked_revision c now faults
  rw [h]
  exact @transfers_expire c now faults [] c.transfers hd rfl

theorem transfers_publishLocked (c : Controller) (faults : Faults) (t : Transfer) :
    (c.publishLocked faults t).2.transfers = c.transfers := by
  obtain ⟨revision, h⟩ := publishLocked_revision c faults t
  rw [h]

/-- `t` has left the active states, and the rest of the table is as it was. -/
def Settled (c : Controller) (t : Transfer) (state : TransferState) (c' : Controller) : Prop :=
  state.active = false ∧ ∃ err, c'.transfers =
    (c.set { t with isOpen := false, state, err }).transfers

theorem settled_failLocked (hactive : t.active = true) (failure : String) :
    Settled c t .failed (c.failLocked faults t failure) := by
  refine ⟨rfl, failure, ?_⟩
  rw [failLocked_active hactive, transfers_publishLocked, transfers_release]

theorem settled_cancelActive (reason : String) :
    Settled c t .cancelled (c.cancelActive faults t reason).2 := by
  refine ⟨rfl, reason, ?_⟩
  rw [cancelActive, answer_snd, transfers_publishLocked, transfers_release]

/-! ### Publishing -/

theorem transfers_answer (c : Controller) (faults : Faults) (t : Transfer) :
    (c.answer faults t).2.transfers = c.transfers := by
  rw [answer_snd, transfers_publishLocked]

/-! ### Completion -/

/-- The request names the size and the digest of the offer, and all bytes are there. -/
def Matches (t : Transfer) (request : FileCompleteV1) : Prop :=
  request.size = t.offer.size ∧ request.sha256 = t.offer.sha256 ∧ t.received = t.offer.size

def done (t : Transfer) : Transfer := { t with isOpen := false, state := .completed }

/-- The file of `t` is verified and renamed to its destination, which leaves `disk`. -/
structure Activates (sha256 : Bytes → Bytes) (c : Controller) (faults : Faults) (t : Transfer)
    (disk : FS) : Prop where
  verified : c.verify sha256 faults t = .ok ()
  absent : c.disk.lstat t.finalPath (faults.lstat t.finalPath) = .error .notExist
  renamed : c.disk.rename t.tempPath t.finalPath faults.rename = .ok disk

theorem activate_cases (hactive : t.active = true) (hverify : c.verify sha256 faults t = .ok ()) :
    ((∃ text, (c.activate faults t).1 = .error text) ∧ Settled c t .failed (c.activate faults t).2 ∧
      ∀ disk, ¬ Activates sha256 c faults t disk) ∨
    ∃ disk, Activates sha256 c faults t disk ∧
      c.activate faults t = (c.activated t disk).answer faults (done t) := by
  rw [activate]
  split
  · rename_i e hlstat
    refine .inl ⟨⟨_, rfl⟩, settled_failLocked hactive _, fun disk h => ?_⟩
    rw [h.absent] at hlstat
    cases hlstat
  · rename_i text hlstat
    refine .inl ⟨⟨_, rfl⟩, settled_failLocked hactive _, fun disk h => ?_⟩
    rw [h.absent] at hlstat
    cases hlstat
  · rename_i hlstat
    split
    · rename_i err hrename
      refine .inl ⟨⟨_, rfl⟩, settled_failLocked hactive _, fun disk h => ?_⟩
      rw [h.renamed] at hrename
      cases hrename
    · rename_i disk hrename
      exact .inr ⟨disk, ⟨hverify, hlstat, hrename⟩, rfl⟩

/-- The ways `finish` ends: the request does not match, the transfer fails, or it is activated. -/
theorem finish_cases (hactive : t.active = true) (request : FileCompleteV1) :
    (¬ Matches t request ∧ ∃ text, c.finish sha256 faults t request = (.error text, c)) ∨
    (Matches t request ∧ (∃ text, (c.finish sha256 faults t request).1 = .error text) ∧
      Settled c t .failed (c.finish sha256 faults t request).2 ∧
      ∀ disk, ¬ Activates sha256 c faults t disk) ∨
    ∃ disk, Matches t request ∧ Activates sha256 c faults t disk ∧
      c.finish sha256 faults t request = (c.activated t disk).answer faults (done t) := by
  rw [finish]
  split_ifs with hmismatch
  · refine .inl ⟨fun hmatches => ?_, _, rfl⟩
    obtain ⟨hsize, hdigest, hall⟩ := hmatches
    rcases hmismatch with h | h | h
    · exact h hsize
    · exact h hdigest
    · exact h hall
  · have hmatches : Matches t request := by
      push Not at hmismatch
      exact hmismatch
    split
    · rename_i text hverify
      refine .inr (.inl ⟨hmatches, ⟨_, rfl⟩, settled_failLocked hactive _, fun disk h => ?_⟩)
      rw [h.verified] at hverify
      cases hverify
    · rename_i hverify
      rcases activate_cases hactive hverify with ⟨htext, hsettled, hnot⟩ | ⟨disk, h, heq⟩
      · exact .inr (.inl ⟨hmatches, htext, hsettled, hnot⟩)
      · exact .inr (.inr ⟨disk, hmatches, h, heq⟩)

theorem settled_activated (disk : FS) : Settled c t .completed (c.activated t disk) :=
  ⟨rfl, t.err, rfl⟩

theorem settled_finish (hactive : t.active = true) {request : FileCompleteV1}
    (h : Matches t request) : ∃ state, Settled c t state (c.finish sha256 faults t request).2 := by
  rcases finish_cases hactive request with ⟨hnot, -⟩ | ⟨-, -, hsettled, -⟩ | ⟨disk, -, -, heq⟩
  · exact absurd h hnot
  · exact ⟨.failed, hsettled⟩
  · rw [heq]
    obtain ⟨hstate, err, htransfers⟩ := settled_activated (c := c) (t := t) disk
    exact ⟨.completed, hstate, err, by rw [transfers_answer, htransfers]⟩

/-! ### Temporary files -/

def Removing (faults : Faults) : Prop := ∀ p, faults.remove p = none

/-- The temporary files of terminal transfers are gone. -/
def Clean (c : Controller) : Prop :=
  ∀ t ∈ c.transfers, t.active = false → c.disk.lookup t.tempPath ≠ some (.file t.inode)

theorem lookup_removeTemp_self {i : ℕ} (h : c.disk.lookup t.tempPath = some (.file i))
    (hf : Removing faults) : (c.removeTemp faults t.tempPath).lookup t.tempPath = none := by
  rw [removeTemp, hf, FS.remove_file h]
  dsimp only
  rw [FS.lookup_unlink (FS.ne_nil_of_lookup h), if_pos rfl]

theorem Clean.set (hs : Sound sha256 P c) (h : Clean c) (ht : t ∈ c.transfers) {disk : FS} {b : ℤ}
    (hdisk : c.disk.Touches disk t.inode) (hid : u.id = t.id)
    (hu : u.active = false → disk.lookup u.tempPath ≠ some (.file u.inode)) :
    Clean ({ c with disk, activeBytes := b }.set u) := by
  -- one transfer is replaced: its own file is looked at, those of the others are untouched
  intro x hx hterminal
  rcases mem_set.1 hx with ⟨rfl, -⟩ | ⟨hx, hxid⟩
  · exact hu hterminal
  · have hne : x.inode ≠ t.inode := hs.inode_ne ht hx (hid ▸ hxid)
    intro hlookup
    exact h x hx hterminal (((hdisk.2 _ hne).2 _).1 hlookup)

theorem Clean.release (hs : Sound sha256 P c) (h : Clean c) (ht : t ∈ c.transfers)
    (hactive : t.active = true) (hf : Removing faults) (content : Bytes) (state : TransferState)
    (err : String) :
    Clean ({ c with disk := c.disk.store t.inode content }.release faults t state err) := by
  have hstored := ((hs.good t ht).stored hactive).1
  have hdisk : c.disk.Touches
      (removeTemp { c with disk := c.disk.store t.inode content } faults t.tempPath) t.inode :=
    (FS.touches_store content).trans (touches_removeTemp
      (c := { c with disk := c.disk.store t.inode content }) (hs.temp_unique ht hactive))
  refine Clean.set (u := { t with isOpen := false, state, err }) hs h ht hdisk rfl fun _ => ?_
  rw [lookup_removeTemp_self (c := { c with disk := c.disk.store t.inode content }) hstored hf]
  rintro ⟨⟩

theorem store_contents (disk : FS) (i : ℕ) : disk.store i (disk.contents i) = disk := by
  rw [FS.store, Function.update_eq_self]

theorem Clean.move (hs : Sound sha256 P c) (h : Clean c) (hmove : Move sha256 P Removing c c') :
    Clean c' := by
  cases hmove with
  | revise => exact h
  | mkdir p fault disk made =>
    intro t ht hterminal hlookup
    have hdisk : c.disk.Touches disk (t.inode + 1) := FS.touches_mkdir made
    exact h t ht hterminal (((hdisk.2 _ (Nat.succ_ne_self _).symm).2 _).1 hlookup)
  | begin owner request finalPath fault inode disk _ _ _ _ _ _ _ made =>
    intro t ht hterminal hlookup
    rcases mem_append.1 ((trim_sublist _ _ _).subset ht) with ht | ht
    · have hne : t.inode ≠ inode := (FS.create_eq_ok made).2.1 ▸ (hs.good t ht).inode_lt.ne
      exact h t ht hterminal ((((FS.touches_create made).2 _ hne).2 _).1 hlookup)
    · rw [mem_singleton.1 ht] at hterminal
      cases hterminal
  | withdraw faults met t mem active =>
    intro x hx hterminal hlookup
    obtain ⟨hx, hid⟩ := Roster.mem_remove.1 hx
    exact h x hx hterminal (lookup_of_removeTemp hlookup)
  | release faults met t state err mem active =>
    have hrelease := Clean.release hs h mem active met (c.disk.contents t.inode) state err
    rwa [store_contents] at hrelease
  | spoil faults met t content err mem active =>
    exact Clean.release hs h mem active met content .failed err
  | extend t data mem active =>
    refine Clean.set (u := extended t data) (b := c.activeBytes) hs h mem
      (FS.touches_store _) rfl ?_
    rintro ⟨⟩
  | activate t fault disk mem active opened _ _ absent renamed =>
    have hstored := ((hs.good t mem).stored active).1
    obtain ⟨-, -, hlookup⟩ := FS.rename_eq_ok renamed hstored absent
    refine Clean.set (u := done t) hs h mem (FS.touches_rename renamed hstored absent)
      rfl fun _ => ?_
    have hne : t.tempPath ≠ t.finalPath := by
      intro heq
      rw [← heq, hstored] at absent
      cases absent
    show disk.lookup t.tempPath ≠ _
    rw [hlookup, if_neg hne, if_pos rfl]
    rintro ⟨⟩

theorem Clean.moves (hs : Sound sha256 P c) (h : Clean c) (hmoves : Moves sha256 P Removing c c') :
    Sound sha256 P c' ∧ Clean c' := by
  induction hmoves with
  | refl => exact ⟨hs, h⟩
  | tail _ hmove ih => exact ⟨ih.1.move hmove, Clean.move ih.1 ih.2 hmove⟩

theorem Clean.run (hs : Sound sha256 P c) (h : Clean c) {calls : List Call}
    (hP : ∀ call ∈ calls, call.Offers P) (hF : ∀ call ∈ calls, Removing call.faults) :
    Sound sha256 P (calls.foldl (step sha256) c) ∧ Clean (calls.foldl (step sha256) c) := by
  induction calls generalizing c with
  | nil => exact ⟨hs, h⟩
  | cons call calls ih =>
    obtain ⟨hs', h'⟩ := Clean.moves hs h (moves_step hs.distinct (hP call mem_cons_self)
      (hF call mem_cons_self))
    exact ih hs' h' (fun x hx => hP x (mem_cons_of_mem _ hx))
      fun x hx => hF x (mem_cons_of_mem _ hx)

/-! ### A closed session -/

section

variable (hd : c.Distinct)
include hd

theorem mem_expireLocked :
    u ∈ (c.expireLocked now faults).transfers ↔ ∃ t ∈ c.transfers, afterExpiry now t = u := by
  rw [transfers_expireLocked hd, mem_map]

theorem distinct_expireLocked :
    Roster.Distinct Transfer.id (c.expireLocked now faults).transfers := by
  have hids : (c.transfers.map (afterExpiry now)).map Transfer.id = c.transfers.map
    Transfer.id := by
    rw [map_map]
    exact map_congr_left fun t _ => id_afterExpiry now t
  rw [Roster.Distinct, transfers_expireLocked hd, hids]
  exact hd

theorem active_expireLocked :
    (u ∈ (c.expireLocked now faults).transfers ∧ u.active = true) ↔
      u ∈ c.transfers ∧ u.active = true ∧ expired now u = false := by
  rw [mem_expireLocked hd]
  constructor
  · rintro ⟨⟨t, ht, rfl⟩, hactive⟩
    cases hexpired : expired now t with
    | true =>
      rw [afterExpiry, if_pos hexpired] at hactive
      cases hactive
    | false =>
      rw [afterExpiry, if_neg (by rw [hexpired]; decide)] at hactive ⊢
      exact ⟨ht, hactive, hexpired⟩
  · rintro ⟨hu, hactive, hexpired⟩
    exact ⟨⟨u, hu, by rw [afterExpiry, if_neg (by rw [hexpired]; decide)]⟩, hactive⟩

end

theorem mem_settled {state : TransferState} (h : Settled c t state c') (hu : u ∈ c'.transfers) :
    (u.active = false ∧ u.state = state ∧ u.inode = t.inode ∧ u.id = t.id) ∨
      (u ∈ c.transfers ∧ u.id ≠ t.id) := by
  obtain ⟨hstate, err, htransfers⟩ := h
  rw [htransfers] at hu
  rcases mem_set.1 hu with ⟨rfl, -⟩ | hu
  · exact .inl ⟨hstate, rfl, rfl, rfl⟩
  · exact .inr hu

theorem activeOwnedLocked_of_mem (hd : c.Distinct)
    (ht : t ∈ c.transfers) (hactive : t.active = true) :
    c.activeOwnedLocked t.id t.owner = .ok t := by
  have hfind : c.find t.id = some t := (find_eq_some hd).2 ⟨ht, rfl⟩
  rw [activeOwnedLocked, hfind]
  simp [hactive]

/-- What `finish` leaves in the table: the transfers it found, but one that may have been
settled. -/
theorem mem_finish (hactive : t.active = true) {request : FileCompleteV1}
    (hu : u ∈ (c.finish sha256 faults t request).2.transfers) :
    u ∈ c.transfers ∨ (u.active = false ∧ u.inode = t.inode ∧ u.id = t.id) := by
  rcases finish_cases hactive request with ⟨-, text, heq⟩ | ⟨-, -, hsettled, -⟩ | ⟨disk, -, -, heq⟩
  · rw [heq] at hu
    exact .inl hu
  · rcases mem_settled hsettled hu with ⟨hterminal, -, hinode, hid⟩ | ⟨hu, -⟩
    · exact .inr ⟨hterminal, hinode, hid⟩
    · exact .inl hu
  · rw [heq, transfers_answer] at hu
    rcases mem_settled (settled_activated disk) hu with ⟨hterminal, -, hinode, hid⟩ | ⟨hu, -⟩
    · exact .inr ⟨hterminal, hinode, hid⟩
    · exact .inl hu

theorem mem_cancelFor {request : FileCancelV1}
    (hu : u ∈ (c.cancelFor faults owner request).2.transfers) (hactive : u.active = true) :
    u ∈ c.transfers := by
  have hmem : ∀ {t : Transfer} {reason : String},
      u ∈ (c.cancelActive faults t reason).2.transfers → u ∈ c.transfers := by
    intro t reason hu
    rcases mem_settled (settled_cancelActive reason) hu with ⟨hterminal, -⟩ | ⟨hu, -⟩
    · rw [hterminal] at hactive
      cases hactive
    · exact hu
  rw [cancelFor] at hu
  split at hu
  · exact hu
  · exact hu
  · split_ifs at hu
    · exact hu
    · split at hu
      · exact hu
      · exact hu
      · exact hu
      · exact hmem hu
      · exact hmem hu

theorem mem_completeFor {request : FileCompleteV1} (hvalid : request.validate = .ok ())
    (hu : u ∈ (c.completeFor sha256 now faults owner request).2.transfers)
      (hactive : u.active = true) :
    u ∈ (c.expireLocked now faults).transfers := by
  rw [completeFor, hvalid] at hu
  dsimp only at hu
  split at hu
  · exact hu
  · rename_i t hfound
    obtain ⟨-, -, -, ht⟩ := activeOwnedLocked_eq_ok hfound
    rcases mem_finish ht hu with hu | ⟨hterminal, -⟩
    · exact hu
    · rw [hterminal] at hactive
      cases hactive

end Controller

namespace UploadSession

open Controller

variable {sha256 : Bytes → Bytes} {P : FileOfferV1 → Prop} {s : UploadSession} {c c' : Controller}
  {t u : Transfer} {now : Time} {faults : Faults} {request : SessionCloseRequest}

/-- `t` is the transfer of the session. -/
def Has (s : UploadSession) (t : Transfer) : Prop := t.owner = s.owner ∧ t.offer = s.offer

theorem Has.id_eq (h : s.Has t) : t.id = s.offer.transferID := congrArg FileOfferV1.transferID h.2

theorem Has.unique (hd : c.Distinct) (ht : t ∈ c.transfers)
    (hu : u ∈ c.transfers) (h : s.Has t) (h' : s.Has u) : t = u :=
  eq_of_id hd ht hu (h.id_eq.trans h'.id_eq.symm)

theorem offer_checked {o : FileOfferV1} (h : o.validate = .ok ()) :
    validateHexID "transfer_id" o.transferID 16 = .ok () ∧ 0 ≤ o.size ∧
      validateHexID "sha256" o.sha256 32 = .ok () := by
  obtain ⟨_, _, h⟩ := bind_eq_ok.1 h
  obtain ⟨_, hid, h⟩ := bind_eq_ok.1 h
  obtain ⟨_, _, h⟩ := bind_eq_ok.1 h
  obtain ⟨_, hsize, h⟩ := bind_eq_ok.1 h
  obtain ⟨_, hsha, -⟩ := bind_eq_ok.1 h
  rw [require_eq_ok] at hsize
  push Not at hsize
  exact ⟨hid, hsize.1, hsha⟩

theorem validate_completion (h : s.offer.validate = .ok ()) : s.completion.validate = .ok () := by
  obtain ⟨hid, hsize, hsha⟩ := offer_checked h
  refine bind_eq_ok.2 ⟨(), rfl, bind_eq_ok.2 ⟨(), hid, bind_eq_ok.2 ⟨(), ?_, hsha⟩⟩⟩
  exact require_eq_ok.2 (not_lt.2 hsize)

theorem validate_cancellation (h : s.offer.validate = .ok ()) (request : SessionCloseRequest) :
    (s.cancellation request).validate = validateReason request.reason := by
  obtain ⟨hid, -, -⟩ := offer_checked h
  show (validateVersion schemaVersionV1 >>= fun _ =>
    validateHexID "transfer_id" s.offer.transferID 16 >>= fun _ => validateReason
      request.reason) = _
  rw [hid]
  rfl

theorem commit_iff (hs : Sound sha256 P c) :
    (∀ u ∈ (c.completeFor sha256 now faults s.owner s.completion).2.transfers,
        s.Has u → u.active = false) ↔
      ∀ t ∈ c.transfers, s.Has t → t.active = true →
        expired now t = true ∨ t.received = t.offer.size := by
  have hexpire : Moves sha256 P (fun _ => True) c (c.expireLocked now faults) :=
    moves_expireLocked hs.distinct now trivial
  have hd' := hexpire.distinct hs.distinct
  by_cases hlive : ∃ t ∈ c.transfers, s.Has t ∧ t.active = true ∧ expired now t = false
  · -- the transfer is found, and everything depends on whether the request matches it
    obtain ⟨t, ht, hhas, hactive, hexpired⟩ := hlive
    have ht' : t ∈ (c.expireLocked now faults).transfers :=
      ((active_expireLocked hs.distinct).2 ⟨ht, hactive, hexpired⟩).1
    have hvalid : s.completion.validate = .ok () :=
      validate_completion (hhas.2 ▸ (hs.good t ht).valid)
    have hfound : (c.expireLocked now faults).activeOwnedLocked s.completion.transferID s.owner =
        .ok t := by
      rw [← hhas.1, ← show t.id = s.completion.transferID from hhas.id_eq]
      exact activeOwnedLocked_of_mem hd' ht' hactive
    have hresult : c.completeFor sha256 now faults s.owner s.completion =
        (c.expireLocked now faults).finish sha256 faults t s.completion := by
      rw [completeFor, hvalid]
      dsimp only
      rw [hfound]
    have hmatches : Matches t s.completion ↔ t.received = t.offer.size := by
      rw [Matches, hhas.2]
      exact ⟨fun h => h.2.2, fun h => ⟨rfl, rfl, h⟩⟩
    rw [hresult]
    by_cases hall : t.received = t.offer.size
    · obtain ⟨state, hsettled⟩ : ∃ state, Settled (c.expireLocked now faults) t state
          ((c.expireLocked now faults).finish sha256 faults t s.completion).2 :=
        settled_finish hactive (hmatches.2 hall)
      refine iff_of_true (fun u hu hu' => ?_) fun t' ht' hhas' _ => .inr ?_
      · rcases mem_settled hsettled hu with ⟨hterminal, -⟩ | ⟨-, hid⟩
        · exact hterminal
        · exact absurd (hu'.id_eq.trans hhas.id_eq.symm) hid
      · rw [Has.unique hs.distinct ht' ht hhas' hhas]
        exact hall
    · rcases @finish_cases sha256 (c.expireLocked now faults) t faults hactive s.completion with
        ⟨-, text, heq⟩ | ⟨h, -⟩ | ⟨disk, h, -⟩
      · rw [heq]
        refine iff_of_false (fun h => ?_) fun h => ?_
        · rw [h t ht' hhas] at hactive
          cases hactive
        · rcases h t ht hhas hactive with h | h
          · rw [h] at hexpired
            cases hexpired
          · exact hall h
      · exact absurd (hmatches.1 h) hall
      · exact absurd (hmatches.1 h) hall
  · -- there is nothing to finish, and nothing becomes active
    refine iff_of_true (fun u hu hhas => ?_) fun t ht hhas hactive => ?_
    · by_contra hactive
      rw [Bool.not_eq_false] at hactive
      have hmem : u ∈ c.transfers ∧ expired now u = false := by
        by_cases hvalid : s.completion.validate = .ok ()
        · obtain ⟨hmem, -, hexpired⟩ :=
            (active_expireLocked hs.distinct).1 ⟨mem_completeFor hvalid hu hactive, hactive⟩
          exact ⟨hmem, hexpired⟩
        · rw [completeFor] at hu
          split at hu
          · exact absurd (validate_completion (hhas.2 ▸ (hs.good u hu).valid)) hvalid
          · rename_i h
            exact absurd h hvalid
      exact hlive ⟨u, hmem.1, hhas, hactive, hmem.2⟩
    · by_contra hnot
      push Not at hnot
      exact hlive ⟨t, ht, hhas, hactive, by simpa using hnot.1⟩

theorem cancel_iff (hs : Sound sha256 P c) :
    (∀ u ∈ (c.cancelFor faults s.owner (s.cancellation request)).2.transfers,
        s.Has u → u.active = false) ↔
      ∀ t ∈ c.transfers, s.Has t → t.active = true →
        ∃ reason, validateReason request.reason = .ok reason := by
  by_cases hlive : ∃ t ∈ c.transfers, s.Has t ∧ t.active = true
  · obtain ⟨t, ht, hhas, hactive⟩ := hlive
    have hvalidate := validate_cancellation (hhas.2 ▸ (hs.good t ht).valid) request
    have hfind : c.find (s.cancellation request).transferID = some t :=
      (find_eq_some hs.distinct).2 ⟨ht, hhas.id_eq⟩
    cases hreason : validateReason request.reason with
    | error text =>
      rw [hreason] at hvalidate
      rw [cancelFor, hvalidate]
      refine iff_of_false (fun h => ?_) fun h => ?_
      · rw [h t ht hhas] at hactive
        cases hactive
      · obtain ⟨reason, h⟩ := h t ht hhas hactive
        cases h
    | ok reason =>
      rw [hreason] at hvalidate
      have hresult : c.cancelFor faults s.owner (s.cancellation request) =
          c.cancelActive faults t reason := by
        rw [cancelFor, hvalidate, hfind]
        dsimp only
        rw [if_neg (not_not.2 hhas.1)]
        split
        · rename_i hstate
          rw [Transfer.active, hstate] at hactive
          cases hactive
        · rename_i hstate
          rw [Transfer.active, hstate] at hactive
          cases hactive
        · rename_i hstate
          rw [Transfer.active, hstate] at hactive
          cases hactive
        · rfl
        · rfl
      rw [hresult]
      refine iff_of_true (fun u hu hu' => ?_) fun t' ht' hhas' _ => ⟨reason, rfl⟩
      rcases mem_settled (settled_cancelActive reason) hu with ⟨hterminal, -⟩ | ⟨-, hid⟩
      · exact hterminal
      · exact absurd (hu'.id_eq.trans hhas.id_eq.symm) hid
  · refine iff_of_true (fun u hu hhas => ?_) fun t ht hhas hactive => absurd
      ⟨t, ht, hhas, hactive⟩ hlive
    by_contra hactive
    rw [Bool.not_eq_false] at hactive
    exact hlive ⟨u, mem_cancelFor hu hactive, hhas, hactive⟩

/-- What a close request needs to take the session's transfer out of the active states. -/
def Closable (s : UploadSession) (c : Controller) (now : Time) (request : SessionCloseRequest) :
    Prop :=
  ∀ t ∈ c.transfers, s.Has t → t.active = true → s.closed = false ∧
    if request.commit then expired now t = true ∨ t.received = t.offer.size
    else ∃ reason, validateReason request.reason = .ok reason

/-- The session's transfer is terminal, its bytes are released and its temporary file is gone. -/
def Finished (s : UploadSession) (c : Controller) : Prop :=
  ∀ t ∈ c.transfers, s.Has t →
    (t.state = .completed ∨ t.state = .failed ∨ t.state = .cancelled) ∧
    c.activeBytes = (((c.transfers.filter fun u => u.id ≠ t.id).filter Transfer.active).map
      fun u => u.offer.size).sum ∧
    c.disk.lookup t.tempPath ≠ some (.file t.inode)

theorem handleSessionClose_snd (abortFaults : Faults) :
    (s.handleSessionClose sha256 c now faults abortFaults request).2 =
      if s.closed then c
      else if request.commit then (c.completeFor sha256 now faults s.owner s.completion).2
      else (c.cancelFor faults s.owner (s.cancellation request)).2 := by
  -- `Abort` finds the session closed: what `Close` did stands
  cases hclosed : s.closed with
  | true =>
    have hclose : s.close sha256 c now faults request =
      (.error "file upload session is closed", s, c) := by
      rw [close, if_pos hclosed]
    rw [handleSessionClose, hclose]
    dsimp only
    rw [abort, if_pos hclosed]
    rfl
  | false =>
    have hclose : s.close sha256 c now faults request =
        ((if request.commit then c.completeFor sha256 now faults s.owner s.completion
          else c.cancelFor faults s.owner (s.cancellation request)).1, { s with closed := true },
          (if request.commit then c.completeFor sha256 now faults s.owner s.completion
          else c.cancelFor faults s.owner (s.cancellation request)).2) := by
      rw [close, if_neg (by rw [hclosed]; decide)]
    rw [handleSessionClose, hclose]
    have hsnd : ∀ result : Except String FileProgressV1 × Controller,
        (match (result.1, ({ s with closed := true } : UploadSession), result.2) with
          | (.error text, s', c') => s'.abort c' abortFaults text
          | (.ok _, s', c') => (s', c')).2 = result.2 := by
      rintro ⟨result, c'⟩
      cases result with
      | error text => rfl
      | ok p => rfl
    rw [hsnd, if_neg (show ¬ (false = true) by decide)]
    split_ifs <;> rfl

theorem inactive_iff (hs : Sound sha256 P c) (abortFaults : Faults) :
    (∀ u ∈ (s.handleSessionClose sha256 c now faults abortFaults request).2.transfers,
      s.Has u → u.active = false) ↔ Closable s c now request := by
  rw [handleSessionClose_snd, Closable]
  cases hclosed : s.closed with
  | true =>
    rw [if_pos rfl]
    constructor
    · intro h t ht hhas hactive
      rw [h t ht hhas] at hactive
      cases hactive
    · intro h u hu hhas
      by_contra hactive
      cases (h u hu hhas (by simpa using hactive)).1
  | false =>
    rw [if_neg (by decide)]
    cases hcommit : request.commit with
    | true =>
      rw [if_pos rfl, commit_iff hs]
      simp
    | false =>
      rw [if_neg (by decide), cancel_iff hs]
      simp

theorem moves_handleSessionClose (hs : Sound sha256 P c) (hF : Removing faults)
    (abortFaults : Faults) :
    Moves sha256 P Removing c (s.handleSessionClose sha256 c now faults abortFaults request).2 := by
  rw [handleSessionClose_snd]
  split_ifs
  · exact Relation.ReflTransGen.refl
  · exact moves_completeFor hs.distinct now hF s.owner s.completion
  · exact moves_cancelFor c hF s.owner (s.cancellation request)

theorem finished_iff (hs : Sound sha256 P c) (hclean : Clean c) :
    Finished s c ↔ ∀ t ∈ c.transfers, s.Has t → t.active = false := by
  constructor
  · intro h t ht hhas
    rcases (h t ht hhas).1 with hstate | hstate | hstate
    · rw [Transfer.active, hstate]
      rfl
    · rw [Transfer.active, hstate]
      rfl
    · rw [Transfer.active, hstate]
      rfl
  · intro h t ht hhas
    have hterminal := h t ht hhas
    refine ⟨?_, ?_, hclean t ht hterminal⟩
    · cases hstate : t.state with
      | completed => exact .inl rfl
      | failed => exact .inr (.inl rfl)
      | cancelled => exact .inr (.inr rfl)
      | offered =>
        rw [Transfer.active, hstate] at hterminal
        cases hterminal
      | receiving =>
        rw [Transfer.active, hstate] at hterminal
        cases hterminal
    · rw [hs.bytes, sum_weight, filter_filter]
      congr 2
      apply filter_congr
      intro u hu
      by_cases hid : u.id = t.id
      · rw [eq_of_id hs.distinct hu ht hid, hterminal]
        rfl
      · simp [hid]

/-- **A closed session has finished its transfer exactly when the close request could.**  `Abort`
adds nothing: `Close` has marked the session closed before it tried. -/
theorem session_finished_iff (sha256 : Bytes → Bytes) (limits : Limits) (disk : FS)
    (calls : List Call) (hcalls : ∀ call ∈ calls, Removing call.faults) (s : UploadSession)
      (now : Time)
    (faults abortFaults : Faults) (hfaults : Removing faults) (request : SessionCloseRequest) :
    let c := calls.foldl (step sha256) { limits, disk }
    Finished s (s.handleSessionClose sha256 c now faults abortFaults request).2 ↔
      Closable s c now request := by
  intro c
  obtain ⟨hs, hclean⟩ : Sound sha256 (fun _ => True) c ∧ Clean c :=
    Clean.run (sound_start sha256 _ limits disk) (by rintro t ⟨⟩)
      (fun call _ => call.offers_true) hcalls
  have hmoves : Moves sha256 (fun _ => True) Removing c
      (s.handleSessionClose sha256 c now faults abortFaults request).2 :=
    moves_handleSessionClose hs hfaults abortFaults
  obtain ⟨hs', hclean'⟩ := Clean.moves hs hclean hmoves
  rw [finished_iff hs' hclean', inactive_iff hs]

def plainSession : UploadSession where
  owner := 1
  offer := plainOffer 1 [0]

theorem session_finished_iff_plain :
    let calls := plainCalls (plainOffer 1 [0]) 1
    let c := calls.foldl (step plainHash) { limits := plainLimits 1 (by decide), disk := plainDisk }
    (∀ call ∈ calls, Removing call.faults) ∧ Removing {} ∧
      Finished plainSession (plainSession.handleSessionClose plainHash c 0 {} {} ⟨true, []⟩).2 := by
  intro calls c
  have hcalls : ∀ call ∈ calls, Removing call.faults := by
    intro call hcall
    simp only [calls, plainCalls, range_one, map_singleton, mem_cons, not_mem_nil,
      or_false] at hcall
    rcases hcall with rfl | rfl
    · exact fun _ => rfl
    · exact fun _ => rfl
  refine ⟨hcalls, fun _ => rfl, ?_⟩
  refine (session_finished_iff plainHash _ plainDisk calls hcalls plainSession 0 {} {}
    (fun _ => rfl)
    ⟨true, []⟩).2 ?_
  have hreceived : ∀ t ∈ c.transfers, t.received = t.offer.size := by decide +kernel
  exact fun t ht _ _ => ⟨rfl, .inr (hreceived t ht)⟩

/-- An offer of one byte, and a commit before it was sent: `Close` fails and `Abort` does
nothing. -/
theorem session_left_active :
    let c := (plainCalls (plainOffer 1 [0]) 0).foldl (step plainHash)
      { limits := plainLimits 1 (by decide), disk := plainDisk }
    let c' := (plainSession.handleSessionClose plainHash c 0 {} {} ⟨true, []⟩).2
    c'.transfers.map Transfer.state = [.offered] ∧ c'.activeBytes = 1 ∧
      c'.disk.lookup (tempPath plainID) = some (.file 0) ∧ ¬ Finished plainSession c' := by
  intro c c'
  have htransfers : c'.transfers = [newTransfer 1 (plainOffer 1 [0]) ["a"] 0] := by decide +kernel
  refine ⟨by rw [htransfers]; rfl, by decide +kernel, by decide +kernel, fun h => ?_⟩
  have hmem : newTransfer 1 (plainOffer 1 [0]) ["a"] 0 ∈ c'.transfers := by
    rw [htransfers]
    exact mem_singleton_self _
  rcases (h _ hmem ⟨rfl, rfl⟩).1 with hstate | hstate | hstate
  · cases hstate
  · cases hstate
  · cases hstate

end UploadSession

end Upload
