/-
What the errors of uploads mean.

Progress and summaries are published after a file has been renamed and after a chunk has been
counted, and an error of that publication is returned although the rename or the count stands.

* `Reports` — the publication at the end of a call succeeds, in terms of the state before the call
  and of what the stream and the variable answer; `publishes_iff`,
    `revision_expireLocked` lead there;
* `Completes`, `Advances` — the request gets as far as the rename, or the count, in terms of the
  state before the call; `lookup_expireLocked` says what the expiry at its start does to the disk;
* **`errors_honest_iff`** — when an error of `completeFor` means that nothing was activated, and an
  error of `chunkFor` that nothing was received.
-/
import MyFlowHub.UploadSessions

open Checks Encoding Enrollment List Protocol
open Filesystem

namespace Upload

namespace Controller

variable {sha256 : Bytes → Bytes} {P : FileOfferV1 → Prop} {F : Faults → Prop}
  {c c' : Controller} {t u : Transfer} {now : Time} {faults : Faults} {owner : NodeID}

/-! ### Publishing a table -/

theorem answer_error_iff :
    (∃ text, (c.answer faults t).1 = .error text) ↔ ¬ Publishes c faults t := by
  rw [answer, ← publishLocked_eq_ok]
  split
  · rename_i text c' heq
    rw [heq]
    exact iff_of_true ⟨text, rfl⟩ (by rintro ⟨⟩)
  · rename_i c' heq
    have hok : (c.publishLocked faults t).1 = .ok () := by rw [heq]
    refine iff_of_false ?_ (not_not.2 hok)
    rintro ⟨text, htext⟩
    rw [progressPayload_of_valid (publishLocked_eq_ok.1 hok).progress] at htext
    cases htext

/-- The error text of a transfer fits in a summary. -/
def Reportable (t : Transfer) : Prop := validateText "error" t.err 2048 false = .ok ()

theorem reportable_of_err {err : String} (h : u.err = err)
    (hvalid : validateText "error" err 2048 false = .ok ()) : Reportable u := by
  rw [Reportable, h]
  exact hvalid

theorem summary_validate_iff {limits : Limits} {disk : FS} (h : Good sha256 P limits disk t)
    (hentry : Listable t) : t.summary.validate = .ok () ↔ Reportable t := by
  obtain ⟨_, -, hoffer⟩ := bind_eq_ok.1 h.valid
  obtain ⟨_, hid, hoffer⟩ := bind_eq_ok.1 hoffer
  obtain ⟨_, hpath, hoffer⟩ := bind_eq_ok.1 hoffer
  obtain ⟨_, hnumbers, -⟩ := bind_eq_ok.1 hoffer
  have hreceived := h.received_eq
  have hle := h.received_le
  rw [require_eq_ok] at hnumbers
  push Not at hnumbers
  simp only [FileTransferSummaryV1.validate, bind_eq_ok, require_eq_ok, Reportable]
  constructor
  · rintro ⟨_, -, _, -, _, -, _, -, herr⟩
    exact herr
  · intro herr
    refine ⟨(), hid, (), hentry.owner, (), hpath, (), ?_, herr⟩
    show ¬(t.received < 0 ∨ t.offer.size < 0 ∨ t.offer.size < t.received ∨
      t.offer.expiresAtUnixMS ≤ 0)
    omega

theorem progress_validate_iff {limits : Limits} {disk : FS} (h : Good sha256 P limits disk t) :
    t.progress.validate = .ok () ↔ Reportable t := by
  obtain ⟨_, -, hoffer⟩ := bind_eq_ok.1 h.valid
  obtain ⟨_, hid, -⟩ := bind_eq_ok.1 hoffer
  have hreceived := h.received_eq
  have hle := h.received_le
  simp only [FileProgressV1.validate, bind_eq_ok, require_eq_ok, Reportable]
  constructor
  · rintro ⟨_, -, _, -, _, -, herr⟩
    exact herr
  · intro herr
    refine ⟨(), rfl, (), hid, (), ?_, herr⟩
    show ¬(t.received < 0 ∨ t.offer.size < 0 ∨ t.offer.size < t.received)
    omega

theorem validateSummaries_of_sorted {l : List FileTransferSummaryV1} {seen : List String}
    (hvalid : ∀ s ∈ l, s.validate = .ok ())
    (hsorted : l.Pairwise fun s s' => s.transferID < s'.transferID)
    (hseen : ∀ id ∈ seen, ∀ s ∈ l, id < s.transferID) : validateSummaries seen l = .ok () := by
  induction l generalizing seen with
  | nil => rfl
  | cons s l ih =>
    obtain ⟨hfirst, hsorted⟩ := pairwise_cons.1 hsorted
    rw [validateSummaries, hvalid s mem_cons_self]
    refine bind_eq_ok.2 ⟨(), require_eq_ok.2 fun hmem => ?_, bind_eq_ok.2
      ⟨(), require_eq_ok.2 ?_, ?_⟩⟩
    · exact lt_irrefl _ (hseen _ hmem s mem_cons_self)
    · intro previous hprevious
      exact hseen previous (List.mem_of_mem_head? hprevious) s mem_cons_self
    · refine ih (fun s' hs' => hvalid s' (mem_cons_of_mem _ hs')) hsorted fun id hid s' hs' => ?_
      rcases mem_cons.1 hid with rfl | hid
      · exact hfirst s' hs'
      · exact hseen id hid s' (mem_cons_of_mem _ hs')

theorem summaries_sorted (hd : c.Distinct) :
    c.summaries.Pairwise fun s s' => s.transferID < s'.transferID := by
  have hperm := perm_insertionSort (fun a b : Transfer => a.id ≤ b.id) c.transfers
  have hle := pairwise_insertionSort (fun a b : Transfer => a.id ≤ b.id) c.transfers
  have hne : (c.transfers.insertionSort fun a b => a.id ≤ b.id).Pairwise fun a b => a.id ≠ b.id :=
    pairwise_map.1 ((hperm.map Transfer.id).nodup_iff.2 hd)
  rw [summaries, pairwise_map]
  exact hle.imp₂ (fun _ _ h h' => lt_of_le_of_ne h h') hne

/-- **The summaries of a table are encoded** unless the revision is too large for a variable or an
error text too long for a summary. -/
theorem encodes_iff (hs : Sound sha256 P c) (hlisted : Listed c) {revision : UInt64} :
    encodeSummaries revision c.summaries = .ok () ↔
      revision.toNat ≤ maxVariableSafeInteger ∧ ∀ t ∈ c.transfers, Reportable t := by
  have hvalid : (∀ s ∈ c.summaries, s.validate = .ok ()) ↔ ∀ t ∈ c.transfers, Reportable t := by
    constructor
    · intro h t ht
      exact (summary_validate_iff (hs.good t ht) (hlisted.entry t ht)).1
        (h _ (mem_summaries.2 ⟨t, ht, rfl⟩))
    · intro h s hs'
      obtain ⟨t, ht, rfl⟩ := mem_summaries.1 hs'
      exact (summary_validate_iff (hs.good t ht) (hlisted.entry t ht)).2 (h t ht)
  have hsafe : ∀ s ∈ c.summaries, s.Safe := by
    intro s hs'
    obtain ⟨t, ht, rfl⟩ := mem_summaries.1 hs'
    have hentry := hlisted.entry t ht
    exact ⟨(hs.good t ht).received_le.trans hentry.size_le, hentry.size_le, hentry.expiry_le⟩
  rw [encodeSummaries, ← hvalid]
  simp only [bind_eq_ok, require_eq_ok]
  constructor
  · rintro ⟨_, -, _, hsummaries, hrevision, -⟩
    exact ⟨hrevision, validate_of_validateSummaries hsummaries⟩
  · rintro ⟨hrevision, hsummaries⟩
    refine ⟨(), length_summaries c ▸ hlisted.count, (), ?_, hrevision, hsafe⟩
    exact validateSummaries_of_sorted hsummaries (summaries_sorted hs.distinct) (by rintro id ⟨⟩)

theorem next_revision_iff {revision : UInt64} :
    (revision ≠ UInt64.ofNat (2 ^ 64 - 1) ∧ (revision + 1).toNat ≤ maxVariableSafeInteger) ↔
      revision.toNat + 1 ≤ maxVariableSafeInteger := by
  have hmax : maxVariableSafeInteger = 2 ^ 53 - 1 := rfl
  constructor
  · rintro ⟨hne, hle⟩
    rwa [Counter.toNat_add_one hne] at hle
  · intro hle
    have hne : revision ≠ UInt64.ofNat (2 ^ 64 - 1) := by
      rintro rfl
      have hlast : (UInt64.ofNat (2 ^ 64 - 1)).toNat = 2 ^ 64 - 1 := rfl
      omega
    exact ⟨hne, by rwa [Counter.toNat_add_one hne]⟩

theorem updates_iff (hs : Sound sha256 P c) (hlisted : Listed c) (fault : Option String) :
    (c.updateSummariesLocked fault).1 = .ok () ↔ c.revision.toNat + 1 ≤ maxVariableSafeInteger ∧
      (∀ t ∈ c.transfers, Reportable t) ∧ fault = none := by
  rw [updateSummariesLocked_eq_ok, encodes_iff hs hlisted, ← next_revision_iff]
  tauto

theorem publishes_iff (hs : Sound sha256 P c) (hlisted : Listed c) (ht : t ∈ c.transfers) :
    Publishes c faults t ↔ faults.progress t.id = none ∧ faults.summaries = none ∧
      c.revision.toNat + 1 ≤ maxVariableSafeInteger ∧ ∀ x ∈ c.transfers, Reportable x := by
  have hupdates := updates_iff hs hlisted faults.summaries
  rw [updateSummariesLocked_eq_ok] at hupdates
  constructor
  · intro h
    obtain ⟨hrevision, htexts, -⟩ := hupdates.1 ⟨h.revision, h.encoded, h.summarized⟩
    exact ⟨h.published, h.summarized, hrevision, htexts⟩
  · rintro ⟨hpublished, hsummarized, hrevision, htexts⟩
    obtain ⟨hlast, hencoded, -⟩ := hupdates.2 ⟨hrevision, htexts, hsummarized⟩
    exact ⟨(progress_validate_iff (hs.good t ht)).2 (htexts t ht), hpublished, hlast, hencoded,
      hsummarized⟩

/-! ### The table and the disk after expiry -/

theorem sound_expireLocked (hs : Sound sha256 P c) : Sound sha256 P (c.expireLocked now faults) :=
  (hs.moves (F := fun _ => True) (moves_expireLocked hs.distinct now trivial)).1

theorem reportable_expireLocked (hs : Sound sha256 P c) :
    (∀ x ∈ (c.expireLocked now faults).transfers, Reportable x) ↔ ∀ x ∈ c.transfers,
      Reportable x := by
  have hsame : ∀ x ∈ c.transfers, Reportable (afterExpiry now x) ↔ Reportable x := by
    intro x hx
    rw [afterExpiry]
    split_ifs with hexpired
    · have hactive : x.active = true := (Bool.and_eq_true _ _ ▸ hexpired).1
      have htext : validateText "error" "transfer expired" 2048 false = .ok () := by decide +kernel
      exact iff_of_true (reportable_of_err rfl htext)
        (reportable_of_err ((hs.good x hx).quiet hactive) (by decide))
    · exact Iff.rfl
  constructor
  · intro h x hx
    exact (hsame x hx).1 (h _ ((mem_expireLocked hs.distinct).2 ⟨x, hx, rfl⟩))
  · intro h x hx
    obtain ⟨y, hy, rfl⟩ := (mem_expireLocked hs.distinct).1 hx
    exact (hsame y hy).2 (h y hy)

theorem reportable_set (hd : c.Distinct) (ht : t ∈ c.transfers) (hid : u.id = t.id)
    (herr : u.err = t.err) :
    (∀ x ∈ (c.set u).transfers, Reportable x) ↔ ∀ x ∈ c.transfers, Reportable x := by
  constructor
  · intro h x hx
    by_cases hxid : x.id = u.id
    · obtain rfl := eq_of_id hd hx ht (hxid.trans hid)
      exact reportable_of_err herr.symm (h u (mem_set.2 (.inl ⟨rfl, x, hx, hxid⟩)))
    · exact h x (mem_set.2 (.inr ⟨hx, hxid⟩))
  · intro h x hx
    rcases mem_set.1 hx with ⟨rfl, -⟩ | ⟨hx, -⟩
    · exact reportable_of_err herr (h t ht)
    · exact h x hx

theorem revision_expire (l : List Transfer) :
    (l.foldl (expireOne now faults) c).revision = c.revision := by
  induction l generalizing c with
  | nil => rfl
  | cons t l ih =>
    rw [foldl_cons, ih, expireOne]
    split_ifs <;> rfl

theorem updateSummariesLocked_cases (c : Controller) (fault : Option String) :
    ((c.updateSummariesLocked fault).1 = .ok () ∧ c.revision ≠ UInt64.ofNat (2 ^ 64 - 1) ∧
      (c.updateSummariesLocked fault).2 = { c with revision := c.revision + 1 }) ∨
    ((c.updateSummariesLocked fault).1 ≠ .ok () ∧ (c.updateSummariesLocked fault).2 = c) := by
  unfold updateSummariesLocked
  split_ifs with hlast
  · exact .inr ⟨by rintro ⟨⟩, rfl⟩
  · split
    · exact .inr ⟨by rintro ⟨⟩, rfl⟩
    · exact .inr ⟨by rintro ⟨⟩, rfl⟩
    · exact .inl ⟨rfl, hlast, rfl⟩

/-- How many revisions a call needs that publishes at its end: the expiry of others, when it is
published, takes one. -/
def revisions (c : Controller) (now : Time) (faults : Faults) : ℕ :=
  if c.transfers.any (expired now) = true ∧ faults.expired = none then 2 else 1

/-- **The revision after expiry is not the last** exactly when there is room for all of them
before. -/
theorem revision_expireLocked (hs : Sound sha256 P c) (hlisted : Listed c)
    (htexts : ∀ x ∈ c.transfers, Reportable x) :
    (c.expireLocked now faults).revision.toNat + 1 ≤ maxVariableSafeInteger ↔
      c.revision.toNat + c.revisions now faults ≤ maxVariableSafeInteger := by
  have hmoves : Moves sha256 (fun _ => False) (fun _ => True) c
      (c.transfers.foldl (expireOne now faults) c) := moves_expire trivial hs.distinct
        fun x hx => hx
  have hsound : Sound sha256 P (c.transfers.foldl (expireOne now faults) c) :=
    (hs.moves (F := fun _ => True) (moves_expire trivial hs.distinct fun x hx => hx)).1
  -- the loop marks the expired, which does not change whether the table can be published
  have hloop : ∀ x ∈ (c.transfers.foldl (expireOne now faults) c).transfers, Reportable x := by
    have hsame : (c.transfers.foldl (expireOne now faults) c).transfers =
        (c.expireLocked now faults).transfers := by
      rw [transfers_expireLocked hs.distinct]
      exact @transfers_expire c now faults [] c.transfers hs.distinct rfl
    rw [hsame]
    exact (reportable_expireLocked hs).2 htexts
  have hupdates := updates_iff hsound (hlisted.moves hmoves) faults.expired
  rw [revision_expire] at hupdates
  rw [expireLocked, revisions]
  by_cases hany : c.transfers.any (expired now) = true
  · rw [if_pos hany]
    rcases updateSummariesLocked_cases (c.transfers.foldl (expireOne now faults) c)
      faults.expired with
      ⟨hok, hlast, heq⟩ | ⟨hfailed, heq⟩
    · obtain ⟨-, -, hfault⟩ := hupdates.1 hok
      rw [heq, if_pos ⟨hany, hfault⟩]
      show (UInt64.toNat (_ + 1)) + 1 ≤ _ ↔ _
      rw [Counter.toNat_add_one hlast, revision_expire]
    · rw [heq, revision_expire]
      by_cases hfault : faults.expired = none
      · -- without a fault the publication fails for the revision only, which is then too large
        rw [if_pos ⟨hany, hfault⟩]
        have hlarge : ¬ c.revision.toNat + 1 ≤ maxVariableSafeInteger := fun hle =>
          hfailed (hupdates.2 ⟨hle, hloop, hfault⟩)
        exact iff_of_false hlarge (by omega)
      · rw [if_neg fun h => hfault h.2]
  · rw [if_neg hany, if_neg fun h => hany h.1, revision_expire]

/-- **The publication at the end of a call succeeds**, in terms of the state before the call: the
stream and the variable accept what they are given, no error text in the table is too long, and
enough revisions are left. -/
structure Reports (c : Controller) (now : Time) (faults : Faults) (id : String) : Prop where
  published : faults.progress id = none
  summarized : faults.summaries = none
  texts : ∀ t ∈ c.transfers, Reportable t
  revisions : c.revision.toNat + c.revisions now faults ≤ maxVariableSafeInteger

/-- A call that expires and then puts `u` in the place of `t` publishes as `Reports` says. -/
theorem publishes_iff_reports (hs : Sound sha256 P c) (hlisted : Listed c)
    (ht : t ∈ (c.expireLocked now faults).transfers) (hoffer : u.offer = t.offer)
    (herr : u.err = t.err) (hc' : c'.transfers = ((c.expireLocked now faults).set u).transfers)
    (hrevision : c'.revision = (c.expireLocked now faults).revision)
    (hmove : ∀ {Q}, Move sha256 Q (fun _ => True) (c.expireLocked now faults) c') :
    Publishes c' faults u ↔ Reports c now faults t.id := by
  have hid : u.id = t.id := congrArg FileOfferV1.transferID hoffer
  have hs' : Sound sha256 P c' := (sound_expireLocked hs).move hmove
  have hlisted' : Listed c' := (listed_expireLocked hs.distinct hlisted now faults).move hmove
  have hu : u ∈ c'.transfers := by
    rw [hc']
    exact mem_set.2 (.inl ⟨rfl, t, ht, hid.symm⟩)
  rw [publishes_iff hs' hlisted' hu, hc', hrevision,
    reportable_set (sound_expireLocked hs).distinct ht hid herr, reportable_expireLocked hs, hid]
  constructor
  · rintro ⟨hpublished, hsummarized, hrevision, htexts⟩
    exact ⟨hpublished, hsummarized, htexts, (revision_expireLocked hs hlisted htexts).1 hrevision⟩
  · intro h
    exact ⟨h.published, h.summarized, (revision_expireLocked hs hlisted h.texts).2
      h.revisions, h.texts⟩

theorem disk_expireLocked : (c.expireLocked now faults).disk =
    (c.transfers.foldl (expireOne now faults) c).disk := by
  obtain ⟨revision, h⟩ := expireLocked_revision c now faults
  rw [h]

theorem contents_expireLocked :
    (c.expireLocked now faults).disk.contents = c.disk.contents := by
  have hloop : ∀ (l : List Transfer) (c : Controller),
      (l.foldl (expireOne now faults) c).disk.contents = c.disk.contents := by
    intro l
    induction l with
    | nil => exact fun c => rfl
    | cons t l ih =>
      intro c
      rw [foldl_cons, ih, expireOne]
      split_ifs
      · exact contents_removeTemp t.tempPath
      · rfl
  rw [disk_expireLocked, hloop]

theorem lookup_removeTemp_iff {i : ℕ} {p path : Path} {e : Entry}
    (h : c.disk.lookup path = some (.file i)) :
    (c.removeTemp faults path).lookup p = some e ↔
      c.disk.lookup p = some e ∧ (path = p → faults.remove p ≠ none) := by
  cases hfault : faults.remove path with
  | some text =>
    have hsame : c.removeTemp faults path = c.disk := by
      rw [removeTemp, hfault]
      rfl
    rw [hsame]
    refine ⟨fun hp => ⟨hp, ?_⟩, fun hp => hp.1⟩
    rintro rfl
    rw [hfault]
    rintro ⟨⟩
  | none =>
    have hremoved : c.removeTemp faults path = c.disk.unlink path := by
      rw [removeTemp, hfault, FS.remove_file h]
    rw [hremoved, FS.lookup_unlink (FS.ne_nil_of_lookup h)]
    split_ifs with hp
    · subst hp
      exact iff_of_false (by rintro ⟨⟩) fun hp => hp.2 rfl hfault
    · exact ⟨fun hp' => ⟨hp', fun heq => absurd heq.symm hp⟩, fun hp' => hp'.1⟩

theorem lookup_expire (hs : Sound sha256 P c) {l : List Transfer}
    (hd : Roster.Distinct Transfer.id l)
    (hl : ∀ x ∈ l, x ∈ c.transfers) {p : Path} {e : Entry} :
    (l.foldl (expireOne now faults) c).disk.lookup p = some e ↔ c.disk.lookup p = some e ∧
      ∀ x ∈ l, expired now x = true → x.tempPath = p → faults.remove p ≠ none := by
  -- the loop of `expireLocked`, the transfers still to come being in the table
  induction l generalizing c with
  | nil => exact ⟨fun h => ⟨h, by rintro x ⟨⟩⟩, fun h => h.1⟩
  | cons t l ih =>
    obtain ⟨hnot, hd⟩ := nodup_cons.1 hd
    have ht := hl t mem_cons_self
    rw [foldl_cons, expireOne]
    split_ifs with hexpired
    · have hactive : t.active = true := (Bool.and_eq_true _ _ ▸ hexpired).1
      have hs' : Sound sha256 P (c.release faults t .failed "transfer expired") :=
        hs.move (F := fun _ => True) (.release c faults trivial t .failed _ ht hactive rfl
          (by decide))
      have hmem : ∀ x ∈ l, x ∈ (c.release faults t .failed "transfer expired").transfers :=
        fun x hx => mem_set.2 (.inr ⟨hl x (mem_cons_of_mem _ hx), fun hid =>
          hnot (mem_map.2 ⟨x, hx, hid⟩)⟩)
      rw [ih hs' hd hmem, forall_mem_cons]
      have hdisk : (c.release faults t .failed "transfer expired").disk.lookup p = some e ↔ _ :=
        lookup_removeTemp_iff ((hs.good t ht).stored hactive).1
      rw [hdisk]
      exact ⟨fun h => ⟨h.1.1, fun _ => h.1.2, h.2⟩, fun h => ⟨⟨h.1, h.2.1 hexpired⟩, h.2.2⟩⟩
    · rw [ih hs hd fun x hx => hl x (mem_cons_of_mem _ hx), forall_mem_cons]
      exact ⟨fun h => ⟨h.1, fun hexpired' => absurd hexpired' hexpired, h.2⟩, fun h => ⟨h.1, h.2.2⟩⟩

/-- **Expiry takes away the temporary files of the expired transfers** that can be removed. -/
theorem lookup_expireLocked (hs : Sound sha256 P c) {p : Path} {e : Entry} :
    (c.expireLocked now faults).disk.lookup p = some e ↔ c.disk.lookup p = some e ∧
      ∀ x ∈ c.transfers, expired now x = true → x.tempPath = p → faults.remove p ≠ none := by
  rw [disk_expireLocked, lookup_expire hs hs.distinct fun x hx => hx]

/-- Nothing is at `p` when the temporary files of the expired transfers are gone. -/
def Vacant (c : Controller) (now : Time) (faults : Faults) (p : Path) : Prop :=
  c.disk.lookup p = none ∨
    ∃ x ∈ c.transfers, expired now x = true ∧ x.tempPath = p ∧ faults.remove p = none

theorem vacant_iff (hs : Sound sha256 P c) {p : Path} :
    (c.expireLocked now faults).disk.lookup p = none ↔ Vacant c now faults p := by
  constructor
  · intro h
    by_contra hnot
    rw [Vacant, not_or, ← Ne, Option.ne_none_iff_exists'] at hnot
    obtain ⟨⟨e, he⟩, hkept⟩ := hnot
    push Not at hkept
    rw [(lookup_expireLocked hs).2 ⟨he, hkept⟩] at h
    cases h
  · intro h
    by_contra hnot
    obtain ⟨e, he⟩ := Option.ne_none_iff_exists'.1 hnot
    obtain ⟨hlookup, hkept⟩ := (lookup_expireLocked hs).1 he
    rcases h with h | ⟨x, hx, hexpired, hpath, hremoved⟩
    · rw [hlookup] at h
      cases h
    · exact hkept x hx hexpired hpath hremoved

theorem dir_expireLocked (hs : Sound sha256 P c) {p : Path} :
    (c.expireLocked now faults).disk.lookup p = some .dir ↔ c.disk.lookup p = some .dir := by
  rw [lookup_expireLocked hs]
  refine ⟨fun h => h.1, fun h => ⟨h, fun x hx hexpired hpath => ?_⟩⟩
  -- what is removed is a file
  have hactive : x.active = true := (Bool.and_eq_true _ _ ▸ hexpired).1
  have hfile := ((hs.good x hx).stored hactive).1
  rw [hpath, h] at hfile
  cases hfile

theorem activeOwnedLocked_expireLocked (hd : c.Distinct) {id : String} :
    (c.expireLocked now faults).activeOwnedLocked id owner = .ok t ↔
      c.activeOwnedLocked id owner = .ok t ∧ expired now t = false := by
  constructor
  · intro h
    obtain ⟨ht, rfl, rfl, hactive⟩ := activeOwnedLocked_eq_ok h
    obtain ⟨ht, -, hexpired⟩ := (active_expireLocked hd).1 ⟨ht, hactive⟩
    exact ⟨activeOwnedLocked_of_mem hd ht hactive, hexpired⟩
  · rintro ⟨h, hexpired⟩
    obtain ⟨ht, rfl, rfl, hactive⟩ := activeOwnedLocked_eq_ok h
    exact activeOwnedLocked_of_mem (distinct_expireLocked hd)
      ((active_expireLocked hd).2 ⟨ht, hactive, hexpired⟩).1 hactive

/-! ### Completion -/

/-- `t` is completed, or its file is at its destination. -/
def Activated (c : Controller) (t : Transfer) : Prop :=
  t.state = .completed ∨ (t.finalPath ≠ t.tempPath ∧ c.disk.lookup t.finalPath = some
    (.file t.inode))

theorem activated_iff (hs : Sound sha256 P c) (ht : t ∈ c.transfers) :
    Activated c t ↔ t.state = .completed := by
  constructor
  · rintro (hstate | ⟨hne, hlookup⟩)
    · exact hstate
    · by_contra hstate
      exact hne ((hs.good t ht).unmoved hstate _ hlookup)
  · exact .inl

theorem afterExpiry_of_terminal (h : t.active = false) : afterExpiry now t = t := by
  rw [afterExpiry, expired, h]
  rfl

theorem completed_expireLocked (hd : c.Distinct)
    (hu : u.state = .completed) :
    u ∈ (c.expireLocked now faults).transfers ↔ u ∈ c.transfers := by
  rw [mem_expireLocked hd]
  constructor
  · rintro ⟨t, ht, rfl⟩
    by_cases hexpired : expired now t = true
    · rw [afterExpiry, if_pos hexpired] at hu
      cases hu
    · rw [afterExpiry, if_neg hexpired]
      exact ht
  · intro hmem
    exact ⟨u, hmem, afterExpiry_of_terminal (by rw [Transfer.active, hu]; rfl)⟩

/-- **The completion request gets as far as the rename of `t`, and that succeeds**, in terms of the
state before the call. -/
structure Completes (sha256 : Bytes → Bytes) (c : Controller) (now : Time) (faults : Faults)
    (owner : NodeID) (request : FileCompleteV1) (t : Transfer) : Prop where
  valid : request.validate = .ok ()
  found : c.activeOwnedLocked request.transferID owner = .ok t
  unexpired : expired now t = false
  same : Matches t request
  verified : c.verify sha256 faults t = .ok ()
  inspected : faults.lstat t.finalPath = none
  vacant : Vacant c now faults t.finalPath
  directory : c.disk.lookup t.finalPath.dropLast = some .dir
  renamed : faults.rename = none

theorem verify_expireLocked :
    (c.expireLocked now faults).verify sha256 faults t = c.verify sha256 faults t := by
  rw [verify, contents_expireLocked]
  rfl

theorem exists_activates_iff {i : ℕ} (hfile : c.disk.lookup t.tempPath = some (.file i)) :
    (∃ disk, Activates sha256 c faults t disk) ↔ c.verify sha256 faults t = .ok () ∧
      faults.lstat t.finalPath = none ∧ c.disk.lookup t.finalPath = none ∧
      c.disk.lookup t.finalPath.dropLast = some .dir ∧ faults.rename = none := by
  constructor
  · rintro ⟨disk, h⟩
    have habsent := FS.lstat_eq_notExist h.absent
    refine ⟨h.verified, FS.fault_of_lstat h.absent, habsent, FS.parent_of_rename h.renamed⟩
  · rintro ⟨hverified, hlstat, habsent, hparent, hrename⟩
    obtain ⟨disk, hrenamed⟩ := FS.exists_rename hfile hparent habsent
    refine ⟨disk, hverified, ?_, hrename ▸ hrenamed⟩
    rw [hlstat]
    exact FS.lstat_of_lookup habsent

theorem completes_iff (hs : Sound sha256 P c) {request : FileCompleteV1} :
    Completes sha256 c now faults owner request t ↔ request.validate = .ok () ∧
      (c.expireLocked now faults).activeOwnedLocked request.transferID owner = .ok t ∧
      Matches t request ∧ ∃ disk, Activates sha256 (c.expireLocked now faults) faults t disk := by
  have hiff : (c.expireLocked now faults).activeOwnedLocked request.transferID owner = .ok t →
      ((∃ disk, Activates sha256 (c.expireLocked now faults) faults t disk) ↔
        c.verify sha256 faults t = .ok () ∧ faults.lstat t.finalPath = none ∧
        Vacant c now faults t.finalPath ∧ c.disk.lookup t.finalPath.dropLast = some .dir ∧
        faults.rename = none) := by
    intro hfound
    obtain ⟨ht, -, -, hactive⟩ := activeOwnedLocked_eq_ok hfound
    have hfile := (((sound_expireLocked hs).good t ht).stored hactive).1
    rw [exists_activates_iff hfile, verify_expireLocked, vacant_iff hs, dir_expireLocked hs]
  constructor
  · intro h
    have hfound : (c.expireLocked now faults).activeOwnedLocked request.transferID owner = .ok t :=
      (activeOwnedLocked_expireLocked hs.distinct).2 ⟨h.found, h.unexpired⟩
    exact ⟨h.valid, hfound, h.same, (hiff hfound).2 ⟨h.verified, h.inspected, h.vacant, h.directory,
      h.renamed⟩⟩
  · rintro ⟨hvalid, hfound, hsame, hactivates⟩
    obtain ⟨hverified, hinspected, hvacant, hdirectory, hrenamed⟩ := (hiff hfound).1 hactivates
    obtain ⟨hfound, hunexpired⟩ := (activeOwnedLocked_expireLocked hs.distinct).1 hfound
    exact ⟨hvalid, hfound, hunexpired, hsame, hverified, hinspected, hvacant, hdirectory, hrenamed⟩

/-- A completion ends with an error that leaves no new transfer completed, or as `Completes`
says. -/
theorem completeFor_cases (hs : Sound sha256 P c) (request : FileCompleteV1) :
    ((∃ text, (c.completeFor sha256 now faults owner request).1 = .error text) ∧
      (∀ t, ¬ Completes sha256 c now faults owner request t) ∧
      (∀ u ∈ (c.completeFor sha256 now faults owner request).2.transfers, u.state = .completed →
        u ∈ c.transfers) ∧ ∀ u ∈ c.transfers, u.state = .completed →
        u ∈ (c.completeFor sha256 now faults owner request).2.transfers) ∨
    ∃ t disk, Completes sha256 c now faults owner request t ∧
      Activates sha256 (c.expireLocked now faults) faults t disk ∧
      c.completeFor sha256 now faults owner request =
        ((c.expireLocked now faults).activated t disk).answer faults (done t) := by
  have hsame : ∀ u, u.state = .completed →
      (u ∈ (c.expireLocked now faults).transfers ↔ u ∈ c.transfers) :=
    fun u hu => completed_expireLocked hs.distinct hu
  rw [completeFor]
  split
  · rename_i text hvalid
    refine .inl ⟨⟨text, rfl⟩, fun t h => ?_, fun u hu _ => hu, fun u hu _ => hu⟩
    rw [h.valid] at hvalid
    cases hvalid
  · rename_i hvalid
    split
    · rename_i text hfound
      refine .inl ⟨⟨text, rfl⟩, fun t h => ?_, fun u hu hstate => (hsame u hstate).1 hu,
        fun u hu hstate => (hsame u hstate).2 hu⟩
      rw [((completes_iff hs).1 h).2.1] at hfound
      cases hfound
    · rename_i t hfound
      obtain ⟨ht, -, -, hactive⟩ := activeOwnedLocked_eq_ok hfound
      have hunique : ∀ {t'}, Completes sha256 c now faults owner request t' → t' = t := by
        intro t' h
        have heq := ((completes_iff hs).1 h).2.1.symm.trans hfound
        cases heq
        rfl
      rcases @finish_cases sha256 (c.expireLocked now faults) t faults hactive request with
        ⟨hnot, text, heq⟩ | ⟨-, htext, hsettled, hnot⟩ | ⟨disk, hmatches, h, heq⟩
      · rw [heq]
        refine .inl ⟨⟨text, rfl⟩, fun t' h => ?_, fun u hu hstate => (hsame u hstate).1 hu,
          fun u hu hstate => (hsame u hstate).2 hu⟩
        exact hnot (hunique h ▸ h.same)
      · refine .inl ⟨htext, fun t' h => ?_, fun u hu hstate => ?_, fun u hu hstate => ?_⟩
        · obtain ⟨-, -, -, disk, hactivates⟩ := (completes_iff hs).1 h
          exact hnot disk (hunique h ▸ hactivates)
        · rcases mem_settled hsettled hu with ⟨-, hfailed, -⟩ | ⟨hu, -⟩
          · rw [hstate] at hfailed
            cases hfailed
          · exact (hsame u hstate).1 hu
        · obtain ⟨-, err, htransfers⟩ := hsettled
          rw [htransfers]
          refine mem_set.2 (.inr ⟨(hsame u hstate).2 hu, fun hid => ?_⟩)
          -- `t` is active, `u` is not
          have heq := eq_of_id (distinct_expireLocked hs.distinct) ((hsame u hstate).2 hu) ht hid
          exact ne_completed_of_active hactive (heq ▸ hstate)
      · exact .inr ⟨t, disk, (completes_iff hs).2 ⟨hvalid, hfound, hmatches, disk, h⟩, h, heq⟩

theorem publishes_activated (hs : Sound sha256 P c) (hlisted : Listed c) {request : FileCompleteV1}
    {disk : FS} (h : Completes sha256 c now faults owner request t)
    (hactivates : Activates sha256 (c.expireLocked now faults) faults t disk) :
    Publishes ((c.expireLocked now faults).activated t disk) faults (done t) ↔
      Reports c now faults request.transferID := by
  obtain ⟨-, hfound, hmatches, -⟩ := (completes_iff hs).1 h
  obtain ⟨ht, hid, -, hactive⟩ := activeOwnedLocked_eq_ok hfound
  obtain ⟨hopen, hdigest⟩ := verify_eq_ok hactivates.verified
  have hmove : ∀ {Q}, Move sha256 Q (fun _ => True) (c.expireLocked now faults)
      ((c.expireLocked now faults).activated t disk) :=
    .activate _ t faults.rename disk ht hactive hopen hmatches.2.2 hdigest
      (FS.lstat_eq_notExist hactivates.absent) hactivates.renamed
  rw [← hid]
  exact publishes_iff_reports hs hlisted (u := done t) ht rfl rfl rfl rfl hmove

/-- **An error of `completeFor` means that nothing is activated** exactly when the transfer is not
completed already and the publication after a rename succeeds. -/
theorem completeFor_honest_iff (hs : Sound sha256 P c) (hlisted : Listed c)
    (request : FileCompleteV1) :
    ((∃ text, (c.completeFor sha256 now faults owner request).1 = .error text) →
      ∀ t ∈ (c.completeFor sha256 now faults owner request).2.transfers, t.id = request.transferID →
        ¬ Activated (c.completeFor sha256 now faults owner request).2 t) ↔
    (∀ t ∈ c.transfers, t.id = request.transferID → t.state ≠ .completed) ∧
      ∀ t, Completes sha256 c now faults owner request t →
        Reports c now faults request.transferID := by
  have hs' : Sound sha256 P (c.completeFor sha256 now faults owner request).2 :=
    (hs.moves (F := fun _ => True) (moves_completeFor hs.distinct now trivial owner request)).1
  rcases @completeFor_cases sha256 P c now faults owner hs request with
    ⟨herror, hnot, hbefore, hafter⟩ | ⟨t, disk, h, hactivates, heq⟩
  · constructor
    · intro hhonest
      refine ⟨fun t ht hid hstate => ?_, fun t h => absurd h (hnot t)⟩
      exact hhonest herror t (hafter t ht hstate) hid (.inl hstate)
    · rintro ⟨hnone, -⟩ - t ht hid hactivated
      have hstate := (activated_iff hs' ht).1 hactivated
      exact hnone t (hbefore t ht hstate) hid hstate
  · have hpublishes := publishes_activated hs hlisted h hactivates
    obtain ⟨-, hfound, -, -⟩ := (completes_iff hs).1 h
    obtain ⟨ht, hid, -, hactive⟩ := activeOwnedLocked_eq_ok hfound
    constructor
    · intro hhonest
      refine ⟨fun u hu huid hstate => ?_, fun _ _ => ?_⟩
      · -- the transfer that was found is active
        have hmem : u ∈ (c.expireLocked now faults).transfers :=
          (completed_expireLocked hs.distinct hstate).2 hu
        have heq' := eq_of_id (distinct_expireLocked hs.distinct) hmem ht (huid.trans hid.symm)
        exact ne_completed_of_active hactive (heq' ▸ hstate)
      · by_contra hfailed
        rw [heq] at hhonest
        refine hhonest (answer_error_iff.2 fun hok => hfailed (hpublishes.1 hok)) (done t) ?_
          hid (.inl rfl)
        rw [transfers_answer]
        exact mem_set.2 (.inl ⟨rfl, t, ht, rfl⟩)
    · rintro ⟨-, hreports⟩ herror
      rw [heq, answer_error_iff] at herror
      exact absurd (hpublishes.2 (hreports t h)) herror

/-! ### Chunks -/

/-- **The chunk request reaches the end of the received bytes of `t` and its data is stored there**,
in terms of the state before the call. -/
structure Advances (sha256 : Bytes → Bytes) (c : Controller) (now : Time) (faults : Faults)
    (owner : NodeID) (request : FileChunkV1) (t : Transfer) : Prop where
  checked : checkChunk sha256 request = .ok ()
  found : c.activeOwnedLocked request.transferID owner = .ok t
  unexpired : expired now t = false
  chunk_le : request.data.length ≤ t.offer.chunkSize
  fits : request.offset + request.data.length ≤ t.offer.size
  next : request.offset = t.received
  written : faults.writeAt = none

/-- The controller with the data stored and counted. -/
def advanced (c : Controller) (t : Transfer) (data : Bytes) : Controller :=
  { c with
    disk := c.disk.store t.inode
      (FS.overwrite (c.disk.contents t.inode) t.received.toNat data) }.set (extended t data)

/-- The ways `writeChunk` ends: the write fails, and the transfer with it, or the data is
counted. -/
theorem writeChunk_cases (hactive : t.active = true) (hopen : t.isOpen = true) (data : Bytes) :
    ((c.disk.writeAt t.inode t.received.toNat data faults.writeAt).1 ≠ none ∧
      Settled c t .failed (c.writeChunk faults t data).2) ∨
    ((c.disk.writeAt t.inode t.received.toNat data faults.writeAt).1 = none ∧
      c.writeChunk faults t data = (c.advanced t data).answer faults (extended t data)) := by
  rw [writeChunk, if_pos hopen]
  split
  · rename_i text disk heq
    refine .inl ⟨by rw [heq]; rintro ⟨⟩, ?_⟩
    exact settled_failLocked (c := { c with disk }) hactive text
  · rename_i disk heq
    have hnone : (c.disk.writeAt t.inode t.received.toNat data faults.writeAt).1 =
      none := by rw [heq]
    obtain ⟨-, hstore⟩ := FS.writeAt_eq_none hnone
    rw [heq] at hstore
    obtain rfl : disk = _ := hstore
    exact .inr ⟨hnone, rfl⟩

/-- The ways `takeChunk` ends; the first is a refusal or a repetition. -/
theorem takeChunk_cases (hactive : t.active = true) (hopen : t.isOpen = true)
    (request : FileChunkV1) :
    (¬(request.data.length ≤ t.offer.chunkSize ∧
        int64 (request.offset + request.data.length) ≤ t.offer.size ∧ request.offset = t.received) ∧
      (c.takeChunk faults t request).2 = c) ∨
    ((c.disk.writeAt t.inode t.received.toNat request.data faults.writeAt).1 ≠ none ∧
      Settled c t .failed (c.takeChunk faults t request).2) ∨
    (request.data.length ≤ t.offer.chunkSize ∧
      int64 (request.offset + request.data.length) ≤ t.offer.size ∧ request.offset = t.received ∧
      (c.disk.writeAt t.inode t.received.toNat request.data faults.writeAt).1 = none ∧
      c.takeChunk faults t request = (c.advanced t request.data).answer faults
        (extended t request.data)) := by
  rw [takeChunk]
  split_ifs with hlimit hbelow hgap
  · refine .inl ⟨fun h => ?_, rfl⟩
    rcases hlimit with hlimit | hlimit
    · omega
    · omega
  · exact .inl ⟨fun h => hbelow.ne h.2.2, rfl⟩
  · exact .inl ⟨fun h => hgap h.2.2, rfl⟩
  · push Not at hlimit hgap
    rcases writeChunk_cases (c := c) hactive hopen request.data with ⟨hfault, hsettled⟩ |
      ⟨hnone, heq⟩
    · exact .inr (.inl ⟨hfault, hsettled⟩)
    · exact .inr (.inr ⟨hlimit.1, hlimit.2, hgap, hnone, heq⟩)

theorem data_length {request : FileChunkV1} (h : checkChunk sha256 request = .ok ()) :
    0 < request.data.length ∧ request.data.length ≤ maxFileChunkBytes := by
  obtain ⟨_, h, -⟩ := bind_eq_ok.1 h
  obtain ⟨_, _, h⟩ := bind_eq_ok.1 h
  obtain ⟨_, _, h⟩ := bind_eq_ok.1 h
  obtain ⟨_, h, -⟩ := bind_eq_ok.1 h
  rw [require_eq_ok] at h
  push Not at h
  exact ⟨Nat.pos_of_ne_zero h.2.1, h.2.2⟩

theorem advances_iff (hs : Sound sha256 P c) (hlisted : Listed c) {request : FileChunkV1} :
    Advances sha256 c now faults owner request t ↔ checkChunk sha256 request = .ok () ∧
      (c.expireLocked now faults).activeOwnedLocked request.transferID owner = .ok t ∧
      request.data.length ≤ t.offer.chunkSize ∧
      int64 (request.offset + request.data.length) ≤ t.offer.size ∧ request.offset = t.received ∧
      ((c.expireLocked now faults).disk.writeAt t.inode t.received.toNat request.data
        faults.writeAt).1 = none := by
  have hsum : ∀ (_ : checkChunk sha256 request = .ok ())
    (_ : c.activeOwnedLocked request.transferID owner = .ok t)
      (_ : request.offset = t.received),
      int64 (request.offset + request.data.length) = request.offset + request.data.length ∧
        t.received.toNat + request.data.length ≤ FS.maxOffset := by
    intro hchecked hfound hnext
    obtain ⟨ht, -, -, -⟩ := activeOwnedLocked_eq_ok hfound
    have hgood := hs.good t ht
    have hsize := (hlisted.entry t ht).size_le
    have hle := hgood.received_le
    have hreceived := hgood.received_eq
    have hlength := (data_length hchecked).2
    simp only [maxVariableSafeInteger, maxFileChunkBytes, FS.maxOffset] at hsize hlength ⊢
    exact ⟨int64_eq (by omega) (by omega), by omega⟩
  constructor
  · intro h
    obtain ⟨hint, hoffset⟩ := hsum h.checked h.found h.next
    refine ⟨h.checked, (activeOwnedLocked_expireLocked hs.distinct).2
      ⟨h.found, h.unexpired⟩, h.chunk_le,
      hint.le.trans h.fits, h.next, ?_⟩
    rw [h.written, FS.writeAt, if_neg (by omega)]
  · rintro ⟨hchecked, hfound, hchunk, hfits, hnext, hwritten⟩
    obtain ⟨hfound, hunexpired⟩ := (activeOwnedLocked_expireLocked hs.distinct).1 hfound
    refine ⟨hchecked, hfound, hunexpired, hchunk, (hsum hchecked hfound hnext).1.ge.trans
      hfits, hnext, ?_⟩
    cases hfault : faults.writeAt with
    | none => rfl
    | some fault =>
      rw [hfault] at hwritten
      cases hwritten

/-- A chunk either leaves every transfer with what it had received or failed, or `Advances`. -/
theorem chunkFor_cases (hs : Sound sha256 P c) (hlisted : Listed c) (request : FileChunkV1) :
    ((∀ t, ¬ Advances sha256 c now faults owner request t) ∧
      ∀ t ∈ c.transfers, ∃ u ∈ (c.chunkFor sha256 now faults owner request).2.transfers,
        u.inode = t.inode ∧ (u.received = t.received ∨ u.state = .failed)) ∨
    ∃ t, Advances sha256 c now faults owner request t ∧
      c.chunkFor sha256 now faults owner request =
        ((c.expireLocked now faults).advanced t request.data).answer faults
          (extended t request.data) := by
  have hexpired : ∀ t ∈ c.transfers, ∃ u ∈ (c.expireLocked now faults).transfers,
      u.inode = t.inode ∧ (u.received = t.received ∨ u.state = .failed) := by
    intro t ht
    refine ⟨afterExpiry now t, (mem_expireLocked hs.distinct).2 ⟨t, ht, rfl⟩, ?_⟩
    rw [afterExpiry]
    split_ifs
    · exact ⟨rfl, .inl rfl⟩
    · exact ⟨rfl, .inl rfl⟩
  rw [chunkFor]
  split
  · rename_i text hcheck
    refine .inl ⟨fun t h => ?_, fun t ht => ⟨t, ht, rfl, .inl rfl⟩⟩
    rw [h.checked] at hcheck
    cases hcheck
  · rename_i hcheck
    split
    · rename_i text hfound
      refine .inl ⟨fun t h => ?_, hexpired⟩
      rw [((advances_iff hs hlisted).1 h).2.1] at hfound
      cases hfound
    · rename_i t hfound
      obtain ⟨ht, -, -, hactive⟩ := activeOwnedLocked_eq_ok hfound
      have hs' : Sound sha256 P (c.expireLocked now faults) := sound_expireLocked hs
      have hopen : t.isOpen = true := (hs'.good t ht).opened.trans hactive
      have hunique : ∀ {t'}, Advances sha256 c now faults owner request t' → t' = t := by
        intro t' h
        have heq := ((advances_iff hs hlisted).1 h).2.1.symm.trans hfound
        cases heq
        rfl
      rcases @takeChunk_cases (c.expireLocked now faults) t faults hactive hopen request with
        ⟨hnot, hsame⟩ | ⟨hfault, hsettled⟩ | ⟨hchunk, hfits, hnext, hnone, heq⟩
      · rw [hsame]
        refine .inl ⟨fun t' h => ?_, hexpired⟩
        obtain rfl := hunique h
        obtain ⟨-, -, hchunk, hfits, hnext, -⟩ := (advances_iff hs hlisted).1 h
        exact hnot ⟨hchunk, hfits, hnext⟩
      · refine .inl ⟨fun t' h => ?_, fun x hx => ?_⟩
        · obtain rfl := hunique h
          obtain ⟨-, -, -, -, -, hwritten⟩ := (advances_iff hs hlisted).1 h
          exact hfault hwritten
        · obtain ⟨u, hu, hinode, hreceived⟩ := hexpired x hx
          obtain ⟨-, err, htransfers⟩ := hsettled
          rw [htransfers]
          by_cases hid : u.id = t.id
          · rw [← hinode, eq_of_id hs'.distinct hu ht hid]
            exact ⟨_, mem_set.2 (.inl ⟨rfl, t, ht, rfl⟩), rfl, .inr rfl⟩
          · exact ⟨u, mem_set.2 (.inr ⟨hu, hid⟩), hinode, hreceived⟩
      · exact .inr ⟨t, (advances_iff hs hlisted).2
          ⟨hcheck, hfound, hchunk, hfits, hnext, hnone⟩, heq⟩

theorem publishes_advanced (hs : Sound sha256 P c) (hlisted : Listed c) {request : FileChunkV1}
    (h : Advances sha256 c now faults owner request t) :
    Publishes ((c.expireLocked now faults).advanced t request.data) faults
      (extended t request.data) ↔
      Reports c now faults request.transferID := by
  obtain ⟨-, hfound, -, -, -, -⟩ := (advances_iff hs hlisted).1 h
  obtain ⟨ht, hid, -, hactive⟩ := activeOwnedLocked_eq_ok hfound
  have hopen : t.isOpen = true := ((sound_expireLocked hs).good t ht).opened.trans hactive
  have hmove : ∀ {Q}, Move sha256 Q (fun _ => True) (c.expireLocked now faults)
      ((c.expireLocked now faults).advanced t request.data) :=
    .extend _ t request.data ht hactive hopen (h.next ▸ h.fits)
  rw [← hid]
  exact publishes_iff_reports hs hlisted (u := extended t request.data) ht rfl rfl rfl rfl hmove

/-- **An error of `chunkFor` means that nothing is received, or the transfer failed,** exactly when
the publication after a write succeeds. -/
theorem chunkFor_honest_iff (hs : Sound sha256 P c) (hlisted : Listed c) (request : FileChunkV1) :
    ((∃ text, (c.chunkFor sha256 now faults owner request).1 = .error text) →
      ∀ t ∈ c.transfers, t.id = request.transferID →
        ∃ u ∈ (c.chunkFor sha256 now faults owner request).2.transfers,
          u.inode = t.inode ∧ (u.received = t.received ∨ u.state = .failed)) ↔
    ∀ t, Advances sha256 c now faults owner request t →
      Reports c now faults request.transferID := by
  have hs' : Sound sha256 P (c.chunkFor sha256 now faults owner request).2 :=
    (hs.moves (F := fun _ => True) (moves_chunkFor hs.distinct now trivial owner request)).1
  rcases @chunkFor_cases sha256 P c now faults owner hs hlisted request with
    ⟨hnot, hsame⟩ | ⟨t, h, heq⟩
  · exact iff_of_true (fun _ t ht _ => hsame t ht) fun t h => absurd h (hnot t)
  · have hpublishes := publishes_advanced hs hlisted h
    obtain ⟨-, hfound, -⟩ := (advances_iff hs hlisted).1 h
    obtain ⟨ht', hid, -, hactive⟩ := activeOwnedLocked_eq_ok hfound
    constructor
    · intro hhonest _ _
      by_contra hfailed
      have ht := ((active_expireLocked hs.distinct).1 ⟨ht', hactive⟩).1
      have hadvanced : extended t request.data ∈
          (c.chunkFor sha256 now faults owner request).2.transfers := by
        rw [heq, transfers_answer]
        rw [advanced, mem_set]
        exact .inl ⟨rfl, t, ht', rfl⟩
      have herror : ∃ text, (c.chunkFor sha256 now faults owner request).1 = .error text := by
        rw [heq]
        exact answer_error_iff.2 fun hok => hfailed (hpublishes.1 hok)
      obtain ⟨u, hu, hinode, hu'⟩ := hhonest herror t ht hid
      -- the transfer with this file has received more, and is not failed
      obtain rfl : u = extended t request.data :=
        inj_on_of_nodup_map hs'.inodes hu hadvanced hinode
      rcases hu' with hreceived | hstate
      · have hpos := (data_length h.checked).1
        have hmore : t.received + request.data.length = t.received := hreceived
        omega
      · cases hstate
    · rintro hreports herror
      rw [heq, answer_error_iff] at herror
      exact absurd (hpublishes.2 (hreports t h)) herror

/-- **Errors agree with the disk** exactly when the publications that follow an activation or an
advance succeed, and no transfer is completed twice. -/
theorem errors_honest_iff (sha256 : Bytes → Bytes) (limits : Limits) (disk : FS) (calls : List Call)
    (owner : NodeID) (now : Time) (faults : Faults) (complete : FileCompleteV1)
      (chunk : FileChunkV1) :
    let c := calls.foldl (step sha256) { limits, disk }
    let (completion, completed) := c.completeFor sha256 now faults owner complete
    let (receipt, received) := c.chunkFor sha256 now faults owner chunk
    (((∃ text, completion = .error text) →
        ∀ t ∈ completed.transfers, t.id = complete.transferID → ¬ Activated completed t) ↔
      (∀ t ∈ c.transfers, t.id = complete.transferID → t.state ≠ .completed) ∧
        ∀ t, Completes sha256 c now faults owner complete t →
          Reports c now faults complete.transferID) ∧
    (((∃ text, receipt = .error text) →
        ∀ t ∈ c.transfers, t.id = chunk.transferID → ∃ u ∈ received.transfers,
          u.inode = t.inode ∧ (u.received = t.received ∨ u.state = .failed)) ↔
      ∀ t, Advances sha256 c now faults owner chunk t → Reports c now faults chunk.transferID) := by
  intro c
  have hs : Sound sha256 (fun _ => True) c :=
    ((sound_start sha256 _ limits disk).run fun call _ => call.offers_true).1
  have hlisted : Listed c := Listed.run (sound_start sha256 _ limits disk)
    (listed_start limits disk) calls
  exact ⟨completeFor_honest_iff hs hlisted complete, chunkFor_honest_iff hs hlisted chunk⟩

/-- One byte, received; the summaries cannot be set when it is completed: an error is returned, and
the file is at its destination. -/
theorem error_after_rename :
    let c := (plainCalls (plainOffer 1 [0]) 1).foldl (step plainHash)
      { limits := plainLimits 1 (by decide), disk := plainDisk }
    let faults : Faults := { summaries := some "payload too large" }
    let result := c.completeFor plainHash 0 faults 1 (plainComplete (plainOffer 1 [0]))
    result.1.toBool = false ∧ result.2.transfers.map Transfer.state = [.completed] ∧
      result.2.disk.lookup ["a"] = some (.file 0) := by
  refine ⟨?_, ?_, ?_⟩
  · decide +kernel
  · decide +kernel
  · decide +kernel

end Controller

end Upload
