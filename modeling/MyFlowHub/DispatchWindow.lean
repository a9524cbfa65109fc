/-
The window of the dispatcher, in which a command runs at most once.

The entries of the cache stand in the order of their last use, so the entries behind an entry
have been completed or presented since the entry itself was completed.  An entry therefore
leaves the cache only when it has expired, or when `maxDedup` others have been in use since.

* `Kept` — what the steps of the dispatcher keep: the map and the list agree, entries are in
  the order of their last use, and for every start of a command either the command is still
  under way, or it was completed and its entry is still there or was rightly dropped;
* `Kept.step`, `Kept.size_step`, **`kept_run`** — every step keeps that, and the limit of the cache.
-/
import MyFlowHub.Dispatcher
import MyFlowHub.Runs

open Std Function Tables Runs List

namespace Command

/-! ### Reading the history -/

/-- The identifier that an event brings to the back of the list. -/
def Event.touches : Event → Option MessageID
  | .presented _ id | .completed _ id _ => some id
  | _ => none

/-- The identifiers completed, or presented again as duplicates. -/
def touched (log : List Event) : Finset MessageID := (log.filterMap Event.touches).toFinset

def Event.completes (id : MessageID) : Event → Bool
  | .completed _ id' _ => id' = id
  | _ => false

/-- The events after the last completion of an identifier. -/
def after (id : MessageID) (log : List Event) : List Event :=
  (log.reverse.takeWhile fun ev => !ev.completes id).reverse

/-- The events after the last use of an identifier, be it a completion or a duplicate. -/
def sinceUse (id : MessageID) (log : List Event) : List Event :=
  (log.reverse.takeWhile fun ev => ev.touches ≠ some id).reverse

variable {pending : Finset MessageID} {id : MessageID} {call : ℕ → CallPhase}

theorem mem_touched {log : List Event} : id ∈ touched log ↔ ∃ ev ∈ log, ev.touches = some id := by
  rw [touched, mem_toFinset, mem_filterMap]

theorem touched_mono {log log' : List Event} (h : log ⊆ log') : touched log ⊆ touched log' := by
  intro id hid
  obtain ⟨ev, hev, htouches⟩ := mem_touched.mp hid
  exact mem_touched.mpr ⟨ev, h hev, htouches⟩

theorem after_concat_of_completes {ev : Event} (log : List Event) (h : ev.completes id = true) :
    after id (log ++ [ev]) = [] := by
  rw [after, reverse_append, reverse_singleton, singleton_append, takeWhile_cons, h]
  rfl

theorem after_concat {ev : Event} (log : List Event) (h : ev.completes id = false) :
    after id (log ++ [ev]) = after id log ++ [ev] := by
  rw [after, reverse_append, reverse_singleton, singleton_append, takeWhile_cons, h]
  simp [after]

theorem sinceUse_concat {ev : Event} (log : List Event) (h : ev.touches ≠ some id) :
    sinceUse id (log ++ [ev]) = sinceUse id log ++ [ev] := by
  rw [sinceUse, reverse_append, reverse_singleton, singleton_append, takeWhile_cons,
    if_pos (decide_eq_true h), reverse_cons, sinceUse]

theorem Event.completes_of_touches {ev : Event} (h : ev.touches ≠ some id) :
    ev.completes id = false := by
  cases ev with
  | completed t id' now => exact decide_eq_false fun heq => h (congrArg some heq)
  | _ => rfl

theorem sinceUse_subset_after (id : MessageID) (log : List Event) :
    sinceUse id log ⊆ after id log := by
  induction log using List.reverseRecOn with
  | nil => exact List.Subset.refl _
  | append_singleton log ev ih =>
    by_cases htouches : ev.touches = some id
    · have hnil : sinceUse id (log ++ [ev]) = [] := by
        rw [sinceUse, reverse_append, reverse_singleton, singleton_append, takeWhile_cons,
          if_neg (by simpa using htouches), reverse_nil]
      rw [hnil]
      exact List.nil_subset _
    · rw [sinceUse_concat log htouches, after_concat log (Event.completes_of_touches htouches)]
      exact append_subset.mpr ⟨List.Subset.trans ih (subset_append_left _ _),
        subset_append_right _ _⟩

/-! ### The window -/

def CallPhase.holds : CallPhase → Option MessageID
  | .accepted id | .refusing id _ | .waiting id | .completing id _ => some id
  | _ => none

/-- The identifier of a call whose command was started and is not completed. -/
def CallPhase.runs : CallPhase → Option MessageID
  | .waiting id | .completing id _ => some id
  | _ => none

theorem CallPhase.holds_of_runs {p : CallPhase} (h : p.runs = some id) : p.holds = some id := by
  cases p <;> first | exact h | cases h

/-- The command completed at `time` may run again: enough time has passed, or enough other
commands were completed or presented in the events `later`. -/
def Retired (cfg : Config) (clock : ℕ) (id : MessageID) (time : ℕ) (later : List Event) : Prop :=
  time + cfg.dedupTTL ≤ clock ∨ cfg.maxDedup ≤ ((touched later).erase id).card

theorem Retired.mono {cfg : Config} {clock clock' time : ℕ} {later later' : List Event}
    (h : Retired cfg clock id time later) (hclock : clock ≤ clock') (hlater : later ⊆ later') :
    Retired cfg clock' id time later' := by
  rcases h with hold | hmany
  · exact .inl (Nat.le_trans hold hclock)
  · exact .inr (Nat.le_trans hmany (Finset.card_le_card (Finset.erase_subset_erase _
      (touched_mono hlater))))

/-- The start of a command: it is under way, or it was completed and its entry is still in the
cache, or may have left it. -/
def Settles (cfg : Config) (s : System) : Event → List Event → Prop
  | .started t id _, later => (s.call t).runs = some id ∨
      ∃ l₁ time l₂, later = l₁ ++ .completed t id time :: l₂ ∧ time ≤ s.clock ∧
        (Retired cfg s.clock id time l₂ ∨
          ∃ r, s.dispatcher.cache[id]? = some r ∧ time + cfg.dedupTTL ≤ r.expires ∧
            after id s.log <:+ l₂)
  | _, _ => True

/-- When a command is started, every earlier start of it was completed, and may run again. -/
def Reopens (cfg : Config) (log : List Event) : Event → Prop
  | .started _ id now => ∀ pre t now' mid, log = pre ++ .started t id now' :: mid →
      ∃ l₁ time l₂, mid = l₁ ++ .completed t id time :: l₂ ∧ Retired cfg now id time l₂
  | _ => True

/-- The identifiers that are pending are those of the calls under way, one call each. -/
structure Holding (pending : Finset MessageID) (call : ℕ → CallPhase) : Prop where
  pending : ∀ id, id ∈ pending ↔ ∃ t, (call t).holds = some id
  unique : ∀ t t' id, (call t).holds = some id → (call t').holds = some id → t = t'

theorem Holding.congr {call' : ℕ → CallPhase} (h : Holding pending call)
    (hholds : ∀ t, (call' t).holds = (call t).holds) : Holding pending call' := by
  refine ⟨fun id => ?_, fun t t' id ht ht' => ?_⟩
  · rw [h.pending id]
    exact exists_congr fun t => by rw [hholds t]
  · rw [hholds] at ht ht'
    exact h.unique t t' id ht ht'

theorem Holding.accept (h : Holding pending call) {t : ℕ} (hcall : (call t).holds = none)
    (hnew : id ∉ pending) : Holding (insert id pending) (update call t (.accepted id)) := by
  have hself : update call t (.accepted id) t = .accepted id := update_self ..
  have hother : ∀ u, u ≠ t → update call t (.accepted id) u = call u := fun u hu =>
    update_of_ne hu _ _
  have hfree : ∀ u, (call u).holds ≠ some id := fun u hu => hnew ((h.pending id).mpr ⟨u, hu⟩)
  refine ⟨fun id' => ?_, fun u u' id' hu hu' => ?_⟩
  · rw [Finset.mem_insert, h.pending id']
    constructor
    · rintro (rfl | ⟨u, hu⟩)
      · exact ⟨t, by rw [hself]; rfl⟩
      · refine ⟨u, ?_⟩
        rw [hother u]
        · exact hu
        · rintro rfl
          rw [hcall] at hu
          cases hu
    · rintro ⟨u, hu⟩
      by_cases hut : u = t
      · rw [hut, hself] at hu
        exact .inl (Option.some.inj hu).symm
      · rw [hother u hut] at hu
        exact .inr ⟨u, hu⟩
  · by_cases hut : u = t
    · by_cases hut' : u' = t
      · exact hut.trans hut'.symm
      · rw [hut, hself] at hu
        rw [hother u' hut', ← hu] at hu'
        exact absurd hu' (hfree u')
    · by_cases hut' : u' = t
      · rw [hut', hself] at hu'
        rw [hother u hut, ← hu'] at hu
        exact absurd hu (hfree u)
      · rw [hother u hut] at hu
        rw [hother u' hut'] at hu'
        exact h.unique u u' id' hu hu'

theorem Holding.release (h : Holding pending call) {t : ℕ} (result : Result)
    (hcall : (call t).holds = some id) :
    Holding (pending.erase id) (update call t (.returned result)) := by
  have hself : update call t (.returned result) t = .returned result := update_self ..
  have hother : ∀ u, u ≠ t → update call t (.returned result) u = call u := fun u hu =>
    update_of_ne hu _ _
  -- whoever holds an identifier is another call
  have hne : ∀ u id', (update call t (.returned result) u).holds = some id' → u ≠ t := by
    rintro u id' hu rfl
    rw [hself] at hu
    cases hu
  refine ⟨fun id' => ?_, fun u u' id' hu hu' => ?_⟩
  · rw [Finset.mem_erase, h.pending id']
    constructor
    · rintro ⟨hid', u, hu⟩
      refine ⟨u, ?_⟩
      rw [hother u]
      · exact hu
      · rintro rfl
        rw [hcall] at hu
        exact hid' (Option.some.inj hu).symm
    · rintro ⟨u, hu⟩
      have hut := hne u id' hu
      rw [hother u hut] at hu
      refine ⟨?_, u, hu⟩
      rintro rfl
      exact hut (h.unique u t id' hu hcall)
  · have hut := hne u id' hu
    have hut' := hne u' id' hu'
    rw [hother u hut] at hu
    rw [hother u' hut'] at hu'
    exact h.unique u u' id' hu hu'

/-- **What every step keeps.** -/
structure Kept (cfg : Config) (s : System) : Prop where
  agree : Agree s.dispatcher.cacheLRU s.dispatcher.cache
  /-- Every entry was used since the last use of each entry before it. -/
  recent : s.dispatcher.cacheLRU.Pairwise fun x y => y.id ∈ touched (sinceUse x.id s.log)
  holding : Holding s.dispatcher.pending s.call
  apart : ∀ id ∈ s.dispatcher.pending, s.dispatcher.cache[id]? = none
  starts : Settled (Settles cfg s) s.log
  log : Justified (Reopens cfg) s.log

section Kept

variable {cfg : Config} {s s' : System}

theorem kept_start (cfg : Config) : Kept cfg {} := by
  refine ⟨agree_nil, List.Pairwise.nil, ⟨fun id => ?_, fun t t' id h => ?_⟩, fun id hid => ?_,
    settled_nil _, justified_nil _⟩
  · constructor
    · intro hid
      cases hid
    · rintro ⟨t, ht⟩
      cases ht
  · cases h
  · cases hid

theorem Kept.congr (h : Kept cfg s) (hpending : s'.dispatcher.pending = s.dispatcher.pending)
    (hcache : s'.dispatcher.cache = s.dispatcher.cache)
    (hlru : s'.dispatcher.cacheLRU = s.dispatcher.cacheLRU) (hlog : s'.log = s.log)
    (hclock : s.clock ≤ s'.clock) (hholds : ∀ t, (s'.call t).holds = (s.call t).holds)
    (hruns : ∀ t, (s'.call t).runs = (s.call t).runs) : Kept cfg s' := by
  refine ⟨?_, ?_, ?_, ?_, ?_, ?_⟩
  · rw [hlru, hcache]
    exact h.agree
  · rw [hlru, hlog]
    exact h.recent
  · rw [hpending]
    exact h.holding.congr hholds
  · rw [hpending, hcache]
    exact h.apart
  · rw [hlog]
    refine h.starts.imp fun ev later hev => ?_
    cases ev with
    | started t id now =>
      rcases hev with hrunning | ⟨l₁, time, l₂, heq, htime, hrest⟩
      · exact .inl ((hruns t).trans hrunning)
      · refine .inr ⟨l₁, time, l₂, heq, Nat.le_trans htime hclock, ?_⟩
        rw [hcache, hlog]
        exact hrest.imp_left fun hretired => hretired.mono hclock (List.Subset.refl _)
    | _ => trivial
  · rw [hlog]
    exact h.log

variable {ev : Event} {id : MessageID} {result : Result} {t : ℕ}

theorem Settles.concat {ev' : Event} {later : List Event} (h : Settles cfg s ev later)
    (hcache : s'.dispatcher.cache = s.dispatcher.cache) (hlog : s'.log = s.log ++ [ev'])
    (hclock : s.clock ≤ s'.clock) (hev' : ∀ id, ev'.completes id = false)
    (hruns : ∀ t id, (s.call t).runs = some id → (s'.call t).runs = some id) :
    Settles cfg s' ev (later ++ [ev']) := by
  cases ev with
  | started t id now =>
    rcases h with hrunning | ⟨l₁, time, l₂, rfl, htime, hrest⟩
    · exact .inl (hruns t id hrunning)
    · refine .inr ⟨l₁, time, l₂ ++ [ev'], by simp, Nat.le_trans htime hclock, ?_⟩
      rcases hrest with hretired | ⟨r, hr, hexpires, hsuffix⟩
      · exact .inl (hretired.mono hclock (subset_append_left _ _))
      · refine .inr ⟨r, ?_, hexpires, ?_⟩
        · rw [hcache]
          exact hr
        · rw [hlog, after_concat _ (hev' id)]
          obtain ⟨l, rfl⟩ := hsuffix
          exact ⟨l, (append_assoc ..).symm⟩
  | _ => trivial

theorem Settles.setCall {later : List Event} {phase : CallPhase} (h : Settles cfg s ev later)
    (hruns : (s.call t).runs = none) (hcall : s'.call = update s.call t phase)
    (hcache : s'.dispatcher.cache = s.dispatcher.cache) (hlog : s'.log = s.log)
    (hclock : s'.clock = s.clock) : Settles cfg s' ev later := by
  cases ev with
  | started u id now =>
    rcases h with hrunning | hdone
    · have hut : u ≠ t := by
        rintro rfl
        rw [hruns] at hrunning
        cases hrunning
      left
      rw [hcall, update_of_ne hut]
      exact hrunning
    · right
      rw [hcache, hlog, hclock]
      exact hdone
  | _ => trivial

theorem recent_concat {lru : List CacheRecord} {log : List Event}
    (h : lru.Pairwise fun x y => y.id ∈ touched (sinceUse x.id log))
    (hev : ∀ x ∈ lru, ev.touches ≠ some x.id) :
    lru.Pairwise fun x y => y.id ∈ touched (sinceUse x.id (log ++ [ev])) := by
  refine h.imp_of_mem fun {x y} hx _ hxy => ?_
  rw [sinceUse_concat _ (hev x hx)]
  exact touched_mono (subset_append_left _ _) hxy

section

variable (h : Kept cfg s)
include h

theorem Kept.extend (hpending : s'.dispatcher.pending = s.dispatcher.pending)
    (hcache : s'.dispatcher.cache = s.dispatcher.cache)
    (hlru : s'.dispatcher.cacheLRU = s.dispatcher.cacheLRU) (hlog : s'.log = s.log ++ [ev])
    (hclock : s'.clock = s.clock) (hholds : ∀ t, (s'.call t).holds = (s.call t).holds)
    (hruns : ∀ t id, (s.call t).runs = some id → (s'.call t).runs = some id)
    (hev : ev.touches = none) (hnew : Settles cfg s' ev [])
    (hreopens : Reopens cfg s.log ev) : Kept cfg s' := by
  have hother : ∀ id, ev.touches ≠ some id := fun id => by simp [hev]
  refine ⟨?_, ?_, ?_, ?_, ?_, ?_⟩
  · rw [hlru, hcache]
    exact h.agree
  · rw [hlru, hlog]
    exact recent_concat h.recent fun x _ => hother x.id
  · rw [hpending]
    exact h.holding.congr hholds
  · rw [hpending, hcache]
    exact h.apart
  · rw [hlog]
    exact h.starts.concat
      (fun _ _ hold => hold.concat hcache hlog (Nat.le_of_eq hclock.symm)
        (fun id => Event.completes_of_touches (hother id)) hruns) hnew
  · rw [hlog]
    exact h.log.concat hreopens

theorem Kept.note (hev : ev.touches = none) (hnew : ∀ s : System, Settles cfg s ev [])
    (hreopens : Reopens cfg s.log ev) : Kept cfg (s.record [ev]) :=
  h.extend rfl rfl rfl rfl rfl (fun _ => rfl) (fun _ _ hid => hid) hev (hnew _) hreopens

theorem Kept.dropped {gone : CacheRecord → Prop} {lru' : List CacheRecord} {cache' : Cache}
    (hdropped : Dropped gone s.dispatcher.cacheLRU lru' s.dispatcher.cache cache')
    (hgone : ∀ r, gone r → r.expires ≤ s.clock ∨ ∃ before behind,
      s.dispatcher.cacheLRU = before ++ r :: behind ∧ cfg.maxDedup ≤ behind.length) :
    Kept cfg { s with
      dispatcher := { s.dispatcher with cacheLRU := lru', cache := cache' } } := by
  -- entries at the front go, because they have expired or have enough others behind them
  refine ⟨hdropped.agree, h.recent.sublist hdropped.suffix.sublist, h.holding,
    fun id hid => ?_, ?_, h.log⟩
  · cases hleft : cache'[id]? with
    | none => rfl
    | some r =>
      have hnone := h.apart id hid
      rw [hdropped.old id r hleft] at hnone
      cases hnone
  · refine h.starts.imp fun ev later hev => ?_
    cases ev with
    | started t id now =>
      rcases hev with hrunning | ⟨l₁, time, l₂, heq, htime, hretired | ⟨r, hr, hexpires, hsuffix⟩⟩
      · exact .inl hrunning
      · exact .inr ⟨l₁, time, l₂, heq, htime, .inl hretired⟩
      · refine .inr ⟨l₁, time, l₂, heq, htime, ?_⟩
        rcases hdropped.kept id r hr with hkept | ⟨-, hwhy⟩
        · exact .inr ⟨r, hkept, hexpires, hsuffix⟩
        · left
          rcases hgone r hwhy with hexpired | ⟨before, behind, hlru, hmany⟩
          · exact .inl (Nat.le_trans hexpires hexpired)
          · -- the entries behind were all used since the completion
            right
            obtain ⟨-, hid⟩ := (h.agree.lookup id r).mp hr
            have hnodup := h.agree.nodup
            have hrecent := h.recent
            rw [hlru] at hnodup hrecent
            rw [map_append, map_cons] at hnodup
            obtain ⟨hfront, hbehind⟩ := nodup_cons.mp (nodup_append.mp hnodup).2.1
            have hlast := (pairwise_cons.mp (pairwise_append.mp hrecent).2.1).1
            have hsub : (behind.map CacheRecord.id).toFinset ⊆ (touched l₂).erase id := by
              intro x hx
              obtain ⟨y, hy, rfl⟩ := mem_map.mp (mem_toFinset.mp hx)
              refine Finset.mem_erase.mpr ⟨?_, ?_⟩
              · rintro heq
                exact hfront (mem_map.mpr ⟨y, hy, heq.trans hid.symm⟩)
              · have htouched := hlast y hy
                rw [hid] at htouched
                exact touched_mono (List.Subset.trans (sinceUse_subset_after id s.log)
                  hsuffix.subset) htouched
            have hcard := Finset.card_le_card hsub
            rw [toFinset_card_of_nodup hbehind, length_map] at hcard
            exact Nat.le_trans hmany hcard
    | _ => trivial

theorem Kept.prune : Kept cfg { s with dispatcher := s.dispatcher.pruneLocked s.clock } :=
  h.dropped (prune_spec s.clock h.agree) fun _ hexpired => .inl hexpired

theorem Kept.accept {time : ℕ} (deadline : ℕ → ℕ) (hcall : s.call t = .checked id time)
    (hpending : id ∉ s.dispatcher.pending) (hcache : s.dispatcher.cache[id]? = none) :
    Kept cfg (({ s with
      dispatcher := { s.dispatcher with pending := insert id s.dispatcher.pending }
      deadline := deadline }.setCall t (.accepted id)).record [.accepted t id]) := by
  have hinner : Kept cfg ({ s with
      dispatcher := { s.dispatcher with pending := insert id s.dispatcher.pending }
      deadline := deadline }.setCall t (.accepted id)) := by
    refine ⟨h.agree, h.recent, h.holding.accept (by rw [hcall]; rfl) hpending, fun id' hid' => ?_,
      h.starts.imp fun _ _ hev => hev.setCall (by rw [hcall]; rfl) rfl rfl rfl rfl, h.log⟩
    rcases Finset.mem_insert.mp hid' with rfl | hid'
    · exact hcache
    · exact h.apart id' hid'
  exact hinner.note rfl (fun _ => trivial) trivial

theorem Kept.endPending (hcall : s.call t = .refusing id result) :
    Kept cfg ({ s with dispatcher := s.dispatcher.endPending id }.setCall t
      (.returned result)) := by
  refine ⟨h.agree, h.recent, h.holding.release result (by rw [hcall]; rfl), fun id' hid' => ?_,
    h.starts.imp fun _ _ hev => hev.setCall (by rw [hcall]; rfl) rfl rfl rfl rfl, h.log⟩
  exact h.apart id' (Finset.mem_of_mem_erase hid')

theorem Kept.present {r : CacheRecord} (hr : r ∈ s.dispatcher.cacheLRU) (t : ℕ) :
    Kept cfg ({ s with
      dispatcher := { s.dispatcher with
        cacheLRU := s.dispatcher.cacheLRU.erase r ++ [r] } }.record [.presented t r.id]) := by
  have hperm : (s.dispatcher.cacheLRU.erase r ++ [r]).Perm s.dispatcher.cacheLRU :=
    (perm_append_singleton _ _).trans (perm_cons_erase hr).symm
  have hev : ∀ id, (Event.presented t r.id).completes id = false := fun _ => rfl
  -- the other entries are of other identifiers, and their last use stays where it was
  have hother : ∀ x ∈ s.dispatcher.cacheLRU.erase r,
      (Event.presented t r.id).touches ≠ some x.id := by
    intro x hx heq
    obtain ⟨hne, hx⟩ := (h.agree.nodup.of_map _).mem_erase_iff.mp hx
    exact hne (h.agree.eq_of_id hx hr (Option.some.inj heq).symm)
  have hrecent : List.Pairwise (fun x y : CacheRecord =>
      y.id ∈ touched (sinceUse x.id (s.log ++ [.presented t r.id])))
      (s.dispatcher.cacheLRU.erase r ++ [r]) := by
    refine pairwise_append.mpr ⟨?_, pairwise_singleton _ _, fun x hx y hy => ?_⟩
    · exact recent_concat (h.recent.sublist erase_sublist) hother
    · rw [mem_singleton.mp hy, sinceUse_concat _ (hother x hx)]
      exact mem_touched.mpr ⟨.presented t r.id, mem_append_right _ mem_cons_self, rfl⟩
  refine ⟨h.agree.perm hperm, hrecent, h.holding, h.apart, ?_, ?_⟩
  · exact h.starts.concat
      (fun _ _ hold => hold.concat rfl rfl (Nat.le_refl _) hev fun _ _ hid => hid) trivial
  · exact h.log.concat trivial

theorem Kept.start (hcall : s.call t = .accepted id) : Kept cfg (s.start t id) := by
  -- a command is started: its earlier starts were completed and may run again
  have hother : ∀ u, u ≠ t → update s.call t (.waiting id) u = s.call u := fun u hu =>
    update_of_ne hu _ _
  have hself : update s.call t (.waiting id) t = .waiting id := update_self ..
  have hholds : (s.call t).holds = some id := by rw [hcall]; rfl
  refine h.extend rfl rfl rfl rfl rfl (fun u => ?_) (fun u id' hu => ?_) rfl ?_ ?_
  · show (update s.call t (.waiting id) u).holds = (s.call u).holds
    by_cases hut : u = t
    · rw [hut, hself, hholds]
      rfl
    · rw [hother u hut]
  · show (update s.call t (.waiting id) u).runs = some id'
    rw [hother u]
    · exact hu
    · rintro rfl
      rw [hcall] at hu
      cases hu
  · left
    show (update s.call t (.waiting id) t).runs = some id
    rw [hself]
    rfl
  · intro pre u now mid hlog
    have hsettles : Settles cfg s (.started u id now) mid := h.starts pre _ mid hlog
    rcases hsettles with hrunning | ⟨l₁, time, l₂, heq, -, hretired | ⟨r, hr, -⟩⟩
    · -- an earlier command under way would be pending twice
      obtain rfl := h.holding.unique u t id (CallPhase.holds_of_runs hrunning) hholds
      rw [hcall] at hrunning
      cases hrunning
    · exact ⟨l₁, time, l₂, heq, hretired⟩
    · rw [h.apart id ((h.holding.pending id).mpr ⟨t, hholds⟩)] at hr
      cases hr

theorem Kept.push (delay : ℕ) (hcall : s.call t = .completing id result) :
    Kept cfg (({ s with
      dispatcher := { s.dispatcher with
        pending := s.dispatcher.pending.erase id
        cacheLRU := s.dispatcher.cacheLRU ++
          [CacheRecord.mk id result (s.clock + delay + cfg.dedupTTL)]
        cache := s.dispatcher.cache.insert id
          (CacheRecord.mk id result (s.clock + delay + cfg.dedupTTL)) }
      clock := s.clock + delay }.setCall t (.returned result)).record
        [.completed t id (s.clock + delay)]) := by
  have hother : ∀ u, u ≠ t → update s.call t (.returned result) u = s.call u := fun u hu =>
    update_of_ne hu _ _
  have hself : update s.call t (.returned result) t = .returned result := update_self ..
  have hholds : (s.call t).holds = some id := by rw [hcall]; rfl
  have hnone : s.dispatcher.cache[id]? = none := h.apart id ((h.holding.pending id).mpr ⟨t, hholds⟩)
  have hne : ∀ x ∈ s.dispatcher.cacheLRU, x.id ≠ id := by
    rintro x hx rfl
    rw [(h.agree.lookup x.id x).mpr ⟨hx, rfl⟩] at hnone
    cases hnone
  have hev : ∀ x, x ≠ id → (Event.completed t id (s.clock + delay)).completes x = false :=
    fun x hx => decide_eq_false fun hc => hx hc.symm
  have htouches : ∀ x ∈ s.dispatcher.cacheLRU,
      (Event.completed t id (s.clock + delay)).touches ≠ some x.id :=
    fun x hx heq => hne x hx (Option.some.inj heq).symm
  have hpush := h.agree.push (r := ⟨id, result, s.clock + delay + cfg.dedupTTL⟩) hnone
  have hrecent : List.Pairwise (fun x y : CacheRecord =>
      y.id ∈ touched (sinceUse x.id (s.log ++ [.completed t id (s.clock + delay)])))
      (s.dispatcher.cacheLRU ++ [CacheRecord.mk id result (s.clock + delay + cfg.dedupTTL)]) := by
    refine pairwise_append.mpr ⟨?_, pairwise_singleton _ _, fun x hx y hy => ?_⟩
    · exact recent_concat h.recent htouches
    · rw [mem_singleton.mp hy, sinceUse_concat _ (htouches x hx)]
      exact mem_touched.mpr ⟨.completed t id (s.clock + delay),
        mem_append_right _ mem_cons_self, rfl⟩
  refine ⟨hpush, hrecent, h.holding.release result hholds, fun id' hid' => ?_, ?_, ?_⟩
  · show (s.dispatcher.cache.insert id _)[id']? = none
    obtain ⟨hid, hid'⟩ := Finset.mem_erase.mp hid'
    rw [lookup_insert_of_ne _ _ hid]
    exact h.apart id' hid'
  · refine h.starts.concat (fun ev later hold => ?_) trivial
    cases ev with
    | started u id' now =>
      rcases hold with hrunning | ⟨l₁, time, l₂, rfl, htime, hrest⟩
      · by_cases hut : u = t
        · -- the start of the command that is completed now
          subst hut
          rw [hcall] at hrunning
          cases hrunning
          refine .inr ⟨later, s.clock + delay, [], rfl, Nat.le_refl _, .inr ?_⟩
          refine ⟨_, lookup_insert_self .., Nat.le_refl _, ?_⟩
          have hcompletes : (Event.completed u id (s.clock + delay)).completes id = true :=
            decide_eq_true rfl
          show after id (s.log ++ [.completed u id (s.clock + delay)]) <:+ []
          rw [after_concat_of_completes _ hcompletes]
        · left
          show (update s.call t (.returned result) u).runs = some id'
          rw [hother u hut]
          exact hrunning
      · refine .inr ⟨l₁, time, l₂ ++ [.completed t id (s.clock + delay)], by simp,
          Nat.le_trans htime (Nat.le_add_right _ _), ?_⟩
        rcases hrest with hretired | ⟨r, hr, hexpires, hsuffix⟩
        · exact .inl (hretired.mono (Nat.le_add_right _ _) (subset_append_left _ _))
        · have hid' : id' ≠ id := by
            rintro rfl
            rw [hr] at hnone
            cases hnone
          refine .inr ⟨r, ?_, hexpires, ?_⟩
          · show (s.dispatcher.cache.insert id _)[id']? = some r
            rw [lookup_insert_of_ne _ _ hid']
            exact hr
          · show after id' (s.log ++ [.completed t id (s.clock + delay)]) <:+ _
            rw [after_concat _ (hev id' hid')]
            obtain ⟨l, rfl⟩ := hsuffix
            exact ⟨l, (append_assoc ..).symm⟩
    | _ => trivial
  · exact h.log.concat trivial

theorem Kept.move {phase : CallPhase} (hholds : phase.holds = (s.call t).holds)
    (hruns : phase.runs = (s.call t).runs) : Kept cfg (s.setCall t phase) :=
  h.congr rfl rfl rfl rfl (Nat.le_refl _)
    (forall_update (L := fun u (p : CallPhase) => p.holds = (s.call u).holds) hholds fun _ _ => rfl)
    (forall_update (L := fun u (p : CallPhase) => p.runs = (s.call u).runs) hruns fun _ _ => rfl)

theorem Kept.beginCall {deadline : ℕ} (hcall : s.call t = .checked id deadline) :
    Kept cfg (s.beginCall t id deadline) := by
  have hpruned := h.prune
  have hreturn : ∀ result, (CallPhase.returned result).holds = (s.call t).holds ∧
      (CallPhase.returned result).runs = (s.call t).runs := by
    intro result
    rw [hcall]
    exact ⟨rfl, rfl⟩
  unfold System.beginCall Dispatcher.beginCall
  by_cases hpending : id ∈ (s.dispatcher.pruneLocked s.clock).pending
  · -- the command is under way, so it has no entry
    have hnone := hpruned.apart id hpending
    have habsent := contains_eq_false_iff.mpr hnone
    simp only [if_pos hpending]
    refine Kept.congr (hpruned.move (hreturn (duplicateResult [])).1 (hreturn _).2) rfl rfl rfl ?_
      (Nat.le_refl _) (fun _ => rfl) (fun _ => rfl)
    show s.log ++ (if (s.dispatcher.pruneLocked s.clock).cache.contains id = true then
      [Event.presented t id] else []) = s.log
    rw [habsent, if_neg (by decide), append_nil]
  · simp only [if_neg hpending]
    cases hr : (s.dispatcher.pruneLocked s.clock).cache[id]? with
    | none => exact hpruned.accept _ hcall hpending hr
    | some r =>
      obtain ⟨hmem, hid⟩ := (hpruned.agree.lookup id r).mp hr
      have hpresented := hpruned.present hmem t
      rw [hid] at hpresented
      simp only [contains_of_lookup hr, if_true]
      exact hpresented.move (hreturn _).1 (hreturn _).2

end

theorem complete_eq {d : Dispatcher} {now : ℕ} (h : (d.pruneLocked now).cache[id]? = none)
    (cfg : Config) (later : ℕ) (result : Result) :
    d.complete cfg now later id result =
      { d.pruneLocked now with pending := d.pending.erase id }.remember cfg.maxDedup
        ⟨id, result, later + cfg.dedupTTL⟩ := by
  have hforget : ((d.endPending id).pruneLocked now).forgetEntry id =
      (d.endPending id).pruneLocked now := by
    unfold Dispatcher.forgetEntry
    rw [show ((d.endPending id).pruneLocked now).cache[id]? = none from h]
  rw [Dispatcher.complete, hforget]
  rfl

theorem Kept.fresh (h : Kept cfg s) (hcall : s.call t = .completing id result) :
    (s.dispatcher.pruneLocked s.clock).cache[id]? = none :=
  h.prune.apart id ((h.holding.pending id).mpr ⟨t, by rw [hcall]; rfl⟩)

theorem Kept.complete (h : Kept cfg s) (delay : ℕ) (hcall : s.call t = .completing id result) :
    Kept cfg (({ s with
      dispatcher := s.dispatcher.complete cfg s.clock (s.clock + delay) id result
      clock := s.clock + delay }.setCall t (.returned result)).record
        [.completed t id (s.clock + delay)]) := by
  have hpushed := h.prune.push delay hcall
  rw [complete_eq (h.fresh hcall)]
  exact hpushed.dropped (evict_spec cfg.maxDedup hpushed.agree).1 fun _ hmany => .inr hmany

theorem Kept.step (h : Kept cfg s) (a : Act) : Kept cfg (s.step cfg a) := by
  cases a with
  | tick d =>
    exact h.congr rfl rfl rfl rfl (Nat.le_add_right _ _) (fun _ => rfl) (fun _ => rfl)
  | cancel t => exact h.congr rfl rfl rfl rfl (Nat.le_refl _) (fun _ => rfl) (fun _ => rfl)
  | invoke t c invalid authorizer =>
    simp only [System.step]
    split
    · next hcall =>
      unfold System.invoke
      split <;> exact h.move (by rw [hcall]; rfl) (by rw [hcall]; rfl)
    · exact h
  | beginCall t =>
    simp only [System.step]
    split
    · next hcall => exact h.beginCall hcall
    · exact h
  | slot t refuse err =>
    simp only [System.step]
    split
    · next hcall =>
      unfold System.slot
      split
      · exact h.start hcall
      · exact h.move (by rw [hcall]; rfl) (by rw [hcall]; rfl)
    · exact h
  | endPending t =>
    simp only [System.step]
    split
    · next hcall =>
      exact (h.endPending hcall).note rfl (fun _ => trivial) trivial
    · exact h
  | finish t result =>
    simp only [System.step]
    split
    · exact Kept.note (s := s.setExec t _) (h.congr rfl rfl rfl rfl (Nat.le_refl _) (fun _ => rfl)
        (fun _ => rfl)) rfl (fun _ => trivial) trivial
    · exact h
  | deliver t =>
    simp only [System.step]
    split
    · next hcall =>
      refine Kept.note ?_ rfl (fun _ => trivial) trivial
      exact Kept.move (s := s.setExec t _) (h.congr rfl rfl rfl rfl (Nat.le_refl _) (fun _ => rfl)
        (fun _ => rfl)) (by rw [System.setExec, hcall]; rfl) (by rw [System.setExec, hcall]; rfl)
    · exact h
  | late t =>
    simp only [System.step]
    split
    · split
      · exact Kept.note (s := s.setExec t _) (h.congr rfl rfl rfl rfl (Nat.le_refl _) (fun _ => rfl)
          (fun _ => rfl)) rfl (fun _ => trivial) trivial
      · exact h
    · exact h
  | release t =>
    simp only [System.step]
    split
    · exact h.congr rfl rfl rfl rfl (Nat.le_refl _) (fun _ => rfl) (fun _ => rfl)
    · exact h
  | giveUp t err =>
    simp only [System.step]
    split
    · next hcall =>
      split
      · exact h.move (by rw [hcall]; rfl) (by rw [hcall]; rfl)
      · exact h
    · exact h
  | complete t delay =>
    simp only [System.step]
    split
    · next hcall => exact h.complete delay hcall
    · exact h

/-! ### The size of the cache -/

theorem Dropped.size_le {gone : CacheRecord → Prop} {lru lru' : List CacheRecord}
    {cache cache' : Cache} (h : Dropped gone lru lru' cache cache') (hold : Agree lru cache) :
    cache'.size ≤ cache.size := by
  rw [h.agree.size, hold.size]
  exact h.suffix.length_le

theorem beginCall_size_le (h : Agree s.dispatcher.cacheLRU s.dispatcher.cache) (t : ℕ)
    (id : MessageID) (deadline : ℕ) :
    (s.beginCall t id deadline).dispatcher.cache.size ≤ s.dispatcher.cache.size := by
  have hpruned : (s.dispatcher.pruneLocked s.clock).cache.size ≤ s.dispatcher.cache.size :=
    (prune_spec s.clock h).size_le h
  unfold System.beginCall Dispatcher.beginCall
  by_cases hpending : id ∈ (s.dispatcher.pruneLocked s.clock).pending
  · simp only [if_pos hpending]
    exact hpruned
  · simp only [if_neg hpending]
    cases (s.dispatcher.pruneLocked s.clock).cache[id]? with
    | none => exact hpruned
    | some r => exact hpruned

theorem Kept.size_step (h : Kept cfg s) (hsize : s.dispatcher.cache.size ≤ cfg.maxDedup) (a : Act) :
    (s.step cfg a).dispatcher.cache.size ≤ cfg.maxDedup := by
  -- only `complete` adds an entry, and it keeps the limit
  cases a with
  | beginCall t =>
    simp only [System.step]
    split
    · exact Nat.le_trans (beginCall_size_le h.agree ..) hsize
    · exact hsize
  | complete t delay =>
    simp only [System.step]
    split
    · next hcall =>
      rw [complete_eq (h.fresh hcall)]
      exact (evict_spec cfg.maxDedup (h.prune.push delay hcall).agree).2
    · exact hsize
  | invoke t c invalid authorizer =>
    simp only [System.step]
    split
    · unfold System.invoke
      split <;> exact hsize
    · exact hsize
  | slot t refuse err =>
    simp only [System.step]
    split
    · unfold System.slot
      split <;> exact hsize
    · exact hsize
  | tick d => exact hsize
  | cancel t => exact hsize
  | endPending t | finish t result | deliver t | release t =>
    simp only [System.step]
    split <;> exact hsize
  | late t | giveUp t err =>
    simp only [System.step]
    split
    · split <;> exact hsize
    · exact hsize

end Kept

/-- **The window is kept in every run.** -/
theorem kept_run (cfg : Config) (as : List Act) : Kept cfg (System.run cfg as) :=
  foldl_invariant (fun _ a h => h.step a) (kept_start cfg) as

end Command
