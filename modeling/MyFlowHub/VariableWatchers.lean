/-
The watchers of a variable see every update in order.

Whoever sets the `draining` flag has to empty the queue of notifications.  At most one
caller has that duty, from the lock section that set the flag to the one that clears
it, and without such a caller the queue is empty.  What a watcher was told, what the
drainer still carries for it and what is queued for it together are the updates
published since the watcher registered.

* `Exact` — that balance, read off the history;
* `Watching` — the invariant, with the caller who drains as its parameter;
* **`watchers_see_updates`** — what every watcher is told.
-/
import MyFlowHub.VariableWrites

open Std Tables Runs List

namespace Resource

open Function

/-! ### Reading the history -/

def Entry.published : Entry → Option VariableUpdate
  | .committed _ _ update => some update
  | .retired => some Variable.goneUpdate
  | _ => none

def Entry.toldTo (watcher : ℕ) : Entry → Option VariableUpdate
  | .told id update => if id = watcher then some update else none
  | _ => none

def published (log : List Entry) : List VariableUpdate := log.filterMap Entry.published

def toldTo (watcher : ℕ) (log : List Entry) : List VariableUpdate :=
  log.filterMap (Entry.toldTo watcher)

theorem published_concat (log : List Entry) (e : Entry) :
    published (log ++ [e]) = published log ++ e.published.toList := by
  rw [published, filterMap_append, published]
  congr 1

theorem toldTo_concat (watcher : ℕ) (log : List Entry) (e : Entry) :
    toldTo watcher (log ++ [e]) = toldTo watcher log ++ (e.toldTo watcher).toList := by
  rw [toldTo, filterMap_append, toldTo]
  congr 1

variable {drain : Bool} {e : Entry} {log post pre : List Entry} {d : Option ℕ} {p p' : Phase}
  {s' : Shared} {v v' : Variable} {cfg : VariableConfig} {m : VariableSystem} {u : VariableUpdate}
  {order : MapOrder ℕ} {t : ℕ}

theorem concat_cases {x : Entry} (h : log ++ [e] = pre ++ x :: post) :
    (post = [] ∧ e = x ∧ pre = log) ∨ ∃ post', post = post' ++ [e] ∧ log = pre ++ x :: post' := by
  rcases eq_nil_or_concat post with rfl | ⟨post', y, rfl⟩
  · obtain ⟨hlog, hx⟩ := append_inj' h rfl
    exact .inl ⟨rfl, singleton_inj.mp hx, hlog.symm⟩
  · have hassoc : log ++ [e] = (pre ++ x :: post') ++ [y] := by
      rw [h]
      simp
    obtain ⟨hlog, hy⟩ := append_inj' hassoc rfl
    exact .inr ⟨post', by rw [singleton_inj.mp hy, concat_eq_append], hlog⟩

/-- What each watcher was told, and what is on its way, is what was published since it
registered. -/
def Exact (way : ℕ → List VariableUpdate) (cancelled : List ℕ) (log : List Entry) : Prop :=
  ∀ pre w snapshot post, log = pre ++ .registered w snapshot :: post → w ∉ cancelled →
    toldTo w log ++ way w = published post

theorem Exact.concat {way way' : ℕ → List VariableUpdate} {cancelled cancelled' : List ℕ}
    (h : Exact way cancelled log)
    (hold : ∀ w snapshot, .registered w snapshot ∈ log → w ∉ cancelled' → w ∉ cancelled ∧
      (e.toldTo w).toList ++ way' w = way w ++ e.published.toList)
    (hnew : ∀ w snapshot, e = .registered w snapshot → toldTo w log = [] ∧ way' w = []) :
    Exact way' cancelled' (log ++ [e]) := by
  intro pre w snapshot post hlog hw
  rcases concat_cases hlog with ⟨rfl, he, -⟩ | ⟨post', rfl, hlog'⟩
  · obtain ⟨htold, hway⟩ := hnew w snapshot he
    rw [toldTo_concat, htold, hway, he]
    rfl
  · have hmem : Entry.registered w snapshot ∈ log := by
      rw [hlog']
      simp
    obtain ⟨hw', hbalance⟩ := hold w snapshot hmem hw
    have hexact := h pre w snapshot post' hlog' hw'
    rw [toldTo_concat, published_concat, append_assoc, hbalance, ← append_assoc, hexact]

theorem Exact.of_eq {way way' : ℕ → List VariableUpdate} {cancelled cancelled' : List ℕ}
    (h : Exact way cancelled log) (hold : ∀ w, w ∉ cancelled' → w ∉ cancelled ∧ way' w = way w) :
    Exact way' cancelled' log := by
  intro pre w snapshot post hlog hw
  obtain ⟨hw', hway⟩ := hold w hw
  rw [hway]
  exact h pre w snapshot post hlog hw'

/-! ### What is on its way -/

def Phase.drains : Phase → Bool
  | .releasing _ drain => drain
  | .completing drain => drain
  | .draining _ | .notifying .. | .calling .. | .detaching .. => true
  | _ => false

/-- What a drainer still has to tell a watcher. -/
def Phase.carry (watcher : ℕ) : Phase → List VariableUpdate
  | .notifying _ update rest | .calling _ update _ rest | .detaching _ update _ rest =>
    if watcher ∈ rest then [update] else []
  | _ => []

def queued (watcher : ℕ) (pending : List VariableNotification) : List VariableUpdate :=
  pending.filterMap fun n => if watcher ∈ n.watchers then some n.update else none

def carried (phase : ℕ → Phase) (watcher : ℕ) : Option ℕ → List VariableUpdate
  | none => []
  | some t => (phase t).carry watcher

theorem queued_concat (watcher : ℕ) (pending : List VariableNotification)
    (n : VariableNotification) :
    queued watcher (pending ++ [n]) =
      queued watcher pending ++ if watcher ∈ n.watchers then [n.update] else [] := by
  rw [queued, filterMap_append, queued]
  congr 1
  by_cases h : watcher ∈ n.watchers <;> simp [h]

theorem queued_cons (watcher : ℕ) (pending : List VariableNotification) (n : VariableNotification) :
    queued watcher (n :: pending) =
      (if watcher ∈ n.watchers then [n.update] else []) ++ queued watcher pending := by
  rw [queued, filterMap_cons, queued]
  by_cases h : watcher ∈ n.watchers <;> simp [h]

theorem queued_eq_nil {watcher : ℕ} {pending : List VariableNotification}
    (h : ∀ n ∈ pending, watcher ∉ n.watchers) : queued watcher pending = [] := by
  rw [queued, filterMap_eq_nil_iff]
  intro n hn
  rw [if_neg (h n hn)]

theorem carried_update_of_eq {phase : ℕ → Phase} {w : ℕ} (h : p'.carry w = (phase t).carry w) :
    carried (update phase t p') w d = carried phase w d := by
  cases d with
  | none => rfl
  | some u =>
    show (update phase t p' u).carry w = (phase u).carry w
    by_cases hu : u = t
    · rw [hu, update_self, h]
    · rw [update_of_ne hu]

theorem carried_update_self {phase : ℕ → Phase} {w : ℕ} :
    carried (update phase t p') w (some t) = p'.carry w := by
  show (update phase t p' t).carry w = _
  rw [update_self]

/-! ### The invariant -/

/-- Different watchers that have been registered. -/
def Known (v : Variable) (ids : List ℕ) : Prop := ids.Nodup ∧ ∀ id ∈ ids, id ≤ v.nextWatch

theorem Known.mono {ids : List ℕ} (h : Known v ids) (hle : v.nextWatch ≤ v'.nextWatch) :
    Known v' ids :=
  ⟨h.1, fun id hid => Nat.le_trans (h.2 id hid) hle⟩

/-- What a drainer knows about the watchers it still has to call. -/
def PhaseKnows (v : Variable) : Phase → Prop
  | .notifying _ _ rest | .calling _ _ _ rest => Known v rest
  | .detaching _ _ watcher rest => Known v rest ∧ watcher ∈ v.cancelled
  | _ => True

structure Listed (s : Shared) : Prop where
  watchers : Known s.var s.var.watchers
  pending : ∀ n ∈ s.var.pending, Known s.var n.watchers
  live : ∀ w snapshot, .registered w snapshot ∈ s.log → w ∉ s.var.cancelled →
    s.var.retired = false → w ∈ s.var.watchers
  told : ∀ w u, .told w u ∈ s.log → w ≤ s.var.nextWatch

structure Watching (d : Option ℕ) (m : VariableSystem) : Prop where
  owner : ∀ t, (m.phase t).drains = true ↔ d = some t
  flag : m.shared.var.draining = d.isSome
  idle : d = none → m.shared.var.pending = []
  exact : Exact (fun w => carried m.phase w d ++ queued w m.shared.var.pending)
    m.shared.var.cancelled m.shared.log
  listed : Listed m.shared
  phases : ∀ t, PhaseKnows m.shared.var (m.phase t)

inductive DutyMove (t : ℕ) (p p' : Phase) (d : Option ℕ) : Option ℕ → Prop
  | kept (h : p'.drains = p.drains) : DutyMove t p p' d d
  | taken (hfree : d = none) (h : p'.drains = true) : DutyMove t p p' d (some t)
  | released (hheld : d = some t) (h : p'.drains = false) : DutyMove t p p' d none

theorem PhaseKnows.mono {p : Phase} (h : PhaseKnows v p) (hle : v.nextWatch ≤ v'.nextWatch)
    (hsub : v.cancelled ⊆ v'.cancelled) : PhaseKnows v' p := by
  cases p with
  | notifying outcome update rest => exact Known.mono h hle
  | calling outcome update watcher rest => exact Known.mono h hle
  | detaching outcome update watcher rest => exact ⟨h.1.mono hle, hsub h.2⟩
  | _ => trivial

theorem Watching.move {d' : Option ℕ} (h : Watching d m) (hduty : DutyMove t (m.phase t) p' d d')
    (hflag : s'.var.draining = d'.isSome) (hidle : d' = none → s'.var.pending = [])
    (hexact : Exact (fun w => carried (update m.phase t p') w d' ++ queued w s'.var.pending)
      s'.var.cancelled s'.log)
    (hlisted : Listed s') (hself : PhaseKnows s'.var p')
    (hnext : m.shared.var.nextWatch ≤ s'.var.nextWatch)
    (hcancelled : m.shared.var.cancelled ⊆ s'.var.cancelled) :
    Watching d' ⟨s', update m.phase t p'⟩ := by
  refine ⟨?_, hflag, hidle, hexact, hlisted, ?_⟩
  · refine forall_update (L := fun u (q : Phase) => q.drains = true ↔ d' = some u) ?_ fun u hu => ?_
    · cases hduty with
      | kept hdrains => rw [hdrains, h.owner t]
      | taken hfree hdrains => simp [hdrains]
      | released hheld hdrains => simp [hdrains]
    · cases hduty with
      | kept hdrains => exact h.owner u
      | taken hfree hdrains =>
        rw [h.owner u, hfree]
        simpa using hu.symm
      | released hheld hdrains =>
        rw [h.owner u, hheld]
        simpa using hu.symm
  · exact forall_update (L := fun _ (q : Phase) => PhaseKnows s'.var q) hself fun u _ =>
      (h.phases u).mono hnext hcancelled

theorem Watching.stay (h : Watching d m) (hp : m.phase t = p) (hvar : s'.var = m.shared.var)
    (hlog : s'.log = m.shared.log) (hdrains : p'.drains = p.drains)
    (hcarry : ∀ w, p'.carry w = p.carry w) (hself : PhaseKnows m.shared.var p') :
    Watching d ⟨s', update m.phase t p'⟩ := by
  subst hp
  refine h.move (.kept hdrains) (by rw [hvar]; exact h.flag) (by rw [hvar]; exact h.idle) ?_
    ⟨by rw [hvar]; exact h.listed.watchers, by rw [hvar]; exact h.listed.pending,
      by rw [hvar, hlog]; exact h.listed.live, by rw [hvar, hlog]; exact h.listed.told⟩
    (by rw [hvar]; exact hself)
    (Nat.le_of_eq (by rw [hvar])) (by rw [hvar]; exact fun _ hx => hx)
  rw [hvar, hlog]
  refine h.exact.of_eq fun w hw => ⟨hw, ?_⟩
  rw [carried_update_of_eq (hcarry w)]

/-! ### Publishing -/

/-- What publishing an update does to the queue: the watchers there are get a
notification, and the caller has to drain if nobody else does. -/
structure Publishes (v : Variable) (u : VariableUpdate) (order : MapOrder ℕ) (drain : Bool)
    (v' : Variable) : Prop where
  pending : v'.pending =
    if v.watchers = [] then v.pending else v.pending ++ [⟨u, order.arrange v.watchers⟩]
  draining : v'.draining = (v.draining || drain)
  duty : drain = (decide (v.watchers ≠ []) && !v.draining)
  nextWatch : v'.nextWatch = v.nextWatch
  cancelled : v'.cancelled = v.cancelled
  watchers : v'.watchers = v.watchers ∨ v'.watchers = [] ∧ v'.retired = true

theorem publishes_enqueueLocked (v : Variable) (order : MapOrder ℕ) (u : VariableUpdate) :
    Publishes v u order (v.enqueueLocked order u).1 (v.enqueueLocked order u).2 := by
  unfold Variable.enqueueLocked
  by_cases hnone : v.watchers = []
  · rw [if_pos hnone]
    exact ⟨by rw [if_pos hnone], by simp, by simp [hnone], rfl, rfl, .inl rfl⟩
  · rw [if_neg hnone]
    cases hdraining : v.draining with
    | true =>
      exact ⟨by rw [if_neg hnone]; rfl, by simp [hdraining], by simp [hdraining], rfl,
        rfl, .inl rfl⟩
    | false =>
      exact ⟨by rw [if_neg hnone]; rfl, by simp, by simp [hnone, hdraining], rfl, rfl, .inl rfl⟩

theorem publishes_commit {prepared : PreparedVariable}
    (h : v.commit cfg order prepared = .ok (drain, v')) :
    Publishes v prepared.update order drain v' := by
  unfold Variable.commit at h
  split_ifs at h
  have hpublishes := publishes_enqueueLocked { v with current := prepared } order prepared.update
  rw [Except.ok.injEq] at h
  rw [h] at hpublishes
  exact { hpublishes with }

theorem publishes_prepareRetire (h : v.prepareRetire order = some (drain, v')) :
    Publishes v Variable.goneUpdate order drain v' := by
  obtain ⟨-, hretired, -⟩ := prepareRetire_eq_some h
  unfold Variable.prepareRetire at h
  split_ifs at h
  have hpublishes := publishes_enqueueLocked { v with retired := true } order Variable.goneUpdate
  rw [Option.some.injEq, Prod.mk.injEq] at h
  rw [h.1] at hpublishes
  rw [← h.2] at hretired ⊢
  exact { hpublishes with watchers := .inr ⟨rfl, hretired⟩ }

theorem Known.arrange {ids : List ℕ} (h : Known v ids) (order : MapOrder ℕ) :
    Known v (order.arrange ids) :=
  ⟨(order.perm ids).nodup_iff.mpr h.1, fun id hid => h.2 id ((order.perm ids).mem_iff.mp hid)⟩

theorem Listed.publish {s : Shared} (h : Listed s) (hpub : Publishes s.var u order drain s'.var)
    (hlog : s'.log = s.log ++ [e]) (hlive : s.var.retired = false) (htold : ∀ w, e.toldTo w = none)
    (hreg : ∀ w snapshot, e ≠ .registered w snapshot) : Listed s' := by
  have hmono : ∀ ids, Known s.var ids → Known s'.var ids := fun ids hids =>
    hids.mono (Nat.le_of_eq hpub.nextWatch.symm)
  refine ⟨?_, fun n hn => ?_, fun w snapshot hmem hw hretired => ?_, fun w u hmem => ?_⟩
  · rcases hpub.watchers with hsame | ⟨hnone, -⟩
    · rw [hsame]
      exact hmono _ h.watchers
    · rw [hnone]
      exact ⟨nodup_nil, fun id hid => absurd hid not_mem_nil⟩
  · rw [hpub.pending] at hn
    split_ifs at hn
    · exact hmono _ (h.pending n hn)
    · rcases mem_append.mp hn with hn | hn
      · exact hmono _ (h.pending n hn)
      · rw [mem_singleton.mp hn]
        exact hmono _ (h.watchers.arrange order)
  · rw [hlog, mem_append, mem_singleton] at hmem
    have hmem := hmem.resolve_right (hreg w snapshot).symm
    rw [hpub.cancelled] at hw
    rcases hpub.watchers with hsame | ⟨-, hgone⟩
    · rw [hsame]
      exact h.live w snapshot hmem hw hlive
    · rw [hgone] at hretired
      cases hretired
  · rw [hlog, mem_append, mem_singleton] at hmem
    rcases hmem with hmem | rfl
    · rw [hpub.nextWatch]
      exact h.told w u hmem
    · have := htold w
      simp [Entry.toldTo] at this

/-- **Publishing keeps the balance**, and hands the duty to drain to somebody. -/
theorem Watching.publish (h : Watching d m) (hpub : Publishes m.shared.var u order drain s'.var)
    (hlog : s'.log = m.shared.log ++ [e]) (he : e.published = some u)
    (htold : ∀ w, e.toldTo w = none) (hreg : ∀ w snapshot, e ≠ .registered w snapshot)
    (hlive : m.shared.var.retired = false) (hdrains : (m.phase t).drains = false)
    (hcarry : ∀ w, (m.phase t).carry w = []) (hdrains' : p'.drains = drain)
    (hcarry' : ∀ w, p'.carry w = []) (hself : ∀ v, PhaseKnows v p') :
    ∃ d', Watching d' ⟨s', update m.phase t p'⟩ := by
  have hlisted := h.listed.publish hpub hlog hlive htold hreg
  have hnext := Nat.le_of_eq hpub.nextWatch.symm
  have hcancelled : m.shared.var.cancelled ⊆ s'.var.cancelled := hpub.cancelled ▸ fun _ hx => hx
  -- a watcher that is registered and not cancelled is among those notified
  have hmem : ∀ w snapshot, .registered w snapshot ∈ m.shared.log → w ∉ s'.var.cancelled →
      w ∈ m.shared.var.watchers := fun w snapshot hw hc =>
    h.listed.live w snapshot hw (hpub.cancelled ▸ hc) hlive
  have hexact : ∀ d', (∀ w, carried (update m.phase t p') w d' = carried m.phase w d) →
      Exact (fun w => carried (update m.phase t p') w d' ++ queued w s'.var.pending)
        s'.var.cancelled s'.log := by
    intro d' hcarried
    rw [hlog]
    refine h.exact.concat (fun w snapshot hw hc => ⟨hpub.cancelled ▸ hc, ?_⟩)
      fun w snapshot hreg' => absurd hreg' (hreg w snapshot)
    have hwatcher := hmem w snapshot hw hc
    have hne : m.shared.var.watchers ≠ [] := ne_nil_of_mem hwatcher
    rw [htold, he, hcarried, hpub.pending, if_neg hne, queued_concat,
      if_pos ((order.perm _).mem_iff.mpr hwatcher)]
    simp
  cases hd : d with
  | some t₀ =>
    -- somebody drains already
    subst hd
    have hflag : m.shared.var.draining = true := h.flag
    have hnone : drain = false := by rw [hpub.duty, hflag, Bool.not_true, Bool.and_false]
    refine ⟨some t₀, h.move (.kept ?_) ?_ (fun hc => by cases hc) (hexact _ fun w => ?_) hlisted
      (hself _) hnext hcancelled⟩
    · rw [hdrains', hnone, hdrains]
    · rw [hpub.draining, hflag]
      rfl
    · exact carried_update_of_eq ((hcarry' w).trans (hcarry w).symm)
  | none =>
    subst hd
    have hflag : m.shared.var.draining = false := h.flag
    cases drain with
    | true =>
      refine ⟨some t, h.move (.taken rfl hdrains') ?_ (fun hc => by cases hc) (hexact _ fun w => ?_)
        hlisted (hself _) hnext hcancelled⟩
      · rw [hpub.draining, Bool.or_true]
        rfl
      · rw [carried_update_self, hcarry']
        rfl
    | false =>
      -- there was nobody to tell
      have hnobody : m.shared.var.watchers = [] := by
        have hdrain := hpub.duty
        rw [hflag, Bool.not_false, Bool.and_true] at hdrain
        simpa using hdrain.symm
      refine ⟨none, h.move (.kept (hdrains'.trans hdrains.symm)) ?_ (fun _ => ?_)
        (hexact _ fun w => rfl) hlisted (hself _) hnext hcancelled⟩
      · rw [hpub.draining, hflag]
        rfl
      · rw [hpub.pending, if_pos hnobody]
        exact h.idle rfl

/-! ### Draining -/

theorem Listed.detach {s : Shared} (h : Listed s) {id : ℕ} (hid : id ∈ s.var.cancelled) :
    Listed { s with var := s.var.detach id } := by
  refine ⟨⟨h.watchers.1.filter _, fun x hx => h.watchers.2 x (mem_filter.mp hx).1⟩, h.pending,
    fun w snapshot hmem hw hretired => mem_filter.mpr ⟨h.live w snapshot hmem hw hretired, ?_⟩,
    h.told⟩
  exact decide_eq_true fun heq => hw (heq ▸ hid)

theorem Watching.take (h : Watching d m) {outcome : Outcome} (hp : m.phase t = .draining outcome)
    (cfg : VariableConfig) (input : Input) : ∃ d', Watching d' (m.step cfg (.advance t input)) := by
  have hd : d = some t := (h.owner t).mp (by rw [hp]; rfl)
  subst hd
  have hcarry : ∀ w, (m.phase t).carry w = [] := fun w => by rw [hp]; rfl
  simp only [VariableSystem.step, hp, Shared.advance]
  cases hpending : m.shared.var.pending with
  | nil =>
    have htake : m.shared.var.take = (none, { m.shared.var with draining := false }) := by
      simp [Variable.take, hpending]
    rw [htake]
    refine ⟨none, h.move (.released rfl rfl) rfl (fun _ => hpending)
      (h.exact.of_eq fun w hw => ⟨hw, ?_⟩)
      { h.listed with } trivial (Nat.le_refl _)
      fun _ hx => hx⟩
    show [] ++ queued w m.shared.var.pending = (m.phase t).carry w ++ queued w m.shared.var.pending
    rw [hcarry w]
  | cons n rest =>
    have htake : m.shared.var.take = (some n, { m.shared.var with pending := rest }) := by
      rw [Variable.take, hpending]
    rw [htake]
    have hknown : Known m.shared.var n.watchers := h.listed.pending n (hpending ▸ mem_cons_self)
    refine ⟨some t, h.move (.kept (by rw [hp]; rfl)) h.flag (fun hc => by cases hc)
      (h.exact.of_eq fun w hw => ⟨hw, ?_⟩) ⟨h.listed.watchers, fun k hk => ?_, h.listed.live,
        h.listed.told⟩
      hknown
      (Nat.le_refl _) fun _ hx => hx⟩
    · rw [carried_update_self]
      show (if w ∈ n.watchers then [n.update] else []) ++ queued w rest =
        (m.phase t).carry w ++ queued w m.shared.var.pending
      rw [hcarry w, hpending, queued_cons]
      rfl
    · exact h.listed.pending k (hpending ▸ mem_cons_of_mem n hk)

theorem Watching.tell (h : Watching d m) {outcome : Outcome} {id : ℕ} {rest : List ℕ}
    (hp : m.phase t = .notifying outcome u (id :: rest)) (cfg : VariableConfig) (input : Input) :
    Watching d (m.step cfg (.advance t input)) := by
  -- a drainer looks at the next watcher: it is told the update, unless it was cancelled
  have hd : d = some t := (h.owner t).mp (by rw [hp]; rfl)
  subst hd
  have hknown : Known m.shared.var (id :: rest) := by
    have := h.phases t
    rwa [hp] at this
  have hrest : Known m.shared.var rest :=
    ⟨(nodup_cons.mp hknown.1).2, fun x hx => hknown.2 x (mem_cons_of_mem id hx)⟩
  have hcarry : ∀ w, (m.phase t).carry w = if w ∈ id :: rest then [u] else [] := fun w => by
    rw [hp]
    rfl
  simp only [VariableSystem.step, hp, Shared.advance]
  split_ifs with hcancelled
  · refine h.move (.kept (by rw [hp]; rfl)) h.flag (fun hc => by cases hc)
      (h.exact.of_eq fun w hw => ⟨hw, ?_⟩) h.listed hrest (Nat.le_refl _) fun _ hx => hx
    -- the watcher that is skipped is cancelled
    have hne : w ≠ id := fun heq => hw (heq ▸ hcancelled)
    rw [carried_update_self]
    show (if w ∈ rest then [u] else []) ++ _ = (m.phase t).carry w ++ _
    rw [hcarry w]
    simp [hne]
  · refine h.move (.kept (by rw [hp]; rfl)) h.flag (fun hc => by cases hc)
      (h.exact.concat (fun w snapshot _ hw => ⟨hw, ?_⟩) fun w snapshot he => by cases he)
      ⟨h.listed.watchers, h.listed.pending, fun w snapshot hmem => ?_, fun w u' hmem => ?_⟩ hrest
      (Nat.le_refl _) fun _ hx => hx
    · rw [carried_update_self]
      show (Entry.toldTo w (.told id u)).toList ++ ((if w ∈ rest then [u] else []) ++ _) =
        ((m.phase t).carry w ++ _) ++ []
      rw [hcarry w, Entry.toldTo]
      by_cases hw : w = id
      · have hnot : id ∉ rest := (nodup_cons.mp hknown.1).1
        simp [hw, hnot]
      · simp [hw, Ne.symm hw]
    · have hmem : Entry.registered w snapshot ∈ m.shared.log := by simpa using hmem
      exact h.listed.live w snapshot hmem
    · rcases mem_append.mp hmem with hmem | hmem
      · exact h.listed.told w u' hmem
      · cases mem_singleton.mp hmem
        exact hknown.2 _ mem_cons_self

theorem Watching.settle (h : Watching d m)
    (hp : (∃ o u w rest, m.phase t = .calling o u w rest) ∨ ∃ o u w rest, m.phase t =
      .detaching o u w rest)
    (cfg : VariableConfig) (input : Input) : Watching d (m.step cfg (.advance t input)) := by
  have hphase := h.phases t
  rcases hp with ⟨outcome, u, id, rest, hp⟩ | ⟨outcome, u, id, rest, hp⟩
  · rw [hp] at hphase
    simp only [VariableSystem.step, hp, Shared.advance]
    split_ifs
    · refine h.move (.kept (by rw [hp]; rfl)) h.flag h.idle (h.exact.of_eq fun w hw => ?_)
        { h.listed with
            live := fun w snapshot hmem hw => h.listed.live w snapshot hmem fun hc => hw
              (mem_cons_of_mem id hc) }
        ⟨hphase, mem_cons_self⟩ (Nat.le_refl _) fun _ hx => mem_cons_of_mem id hx
      refine ⟨fun hc => hw (mem_cons_of_mem id hc), ?_⟩
      rw [carried_update_of_eq (by rw [hp]; rfl)]
      rfl
    · exact h.stay hp rfl rfl rfl (fun _ => rfl) hphase
  · rw [hp] at hphase
    simp only [VariableSystem.step, hp, Shared.advance]
    refine h.move (.kept (by rw [hp]; rfl)) h.flag h.idle (h.exact.of_eq fun w hw => ⟨hw, ?_⟩)
      (h.listed.detach hphase.2) hphase.1 (Nat.le_refl _) fun _ hx => hx
    rw [carried_update_of_eq (by rw [hp]; rfl)]
    rfl

/-! ### Every step -/

/-- The phases in which a caller has nothing to do with the watchers. -/
def Phase.plain (p : Phase) : Prop :=
  p.drains = false ∧ (∀ w, p.carry w = []) ∧ ∀ v, PhaseKnows v p

theorem Watching.plain (h : Watching d m) (hp : (m.phase t).plain) (hp' : p'.plain) :
    Watching d ⟨m.shared, update m.phase t p'⟩ :=
  h.stay rfl rfl rfl (hp'.1.trans hp.1.symm) (fun w => (hp'.2.1 w).trans
    (hp.2.1 w).symm) (hp'.2.2 _)

theorem plain_fails (text : String) : (Phase.releasing (.error text) false).plain :=
  ⟨rfl, fun _ => rfl, fun _ => trivial⟩

section

variable (h : Watching d m)
include h

theorem Watching.acquire {waiting taken : Phase} (hp : m.phase t = p)
    (hdrains : waiting.drains = p.drains) (hdrains' : taken.drains = p.drains)
    (hcarry : ∀ w, waiting.carry w = p.carry w) (hcarry' : ∀ w, taken.carry w = p.carry w)
    (hself : PhaseKnows m.shared.var waiting) (hself' : PhaseKnows m.shared.var taken) :
    Watching d ⟨(m.shared.acquire t waiting taken).1,
      update m.phase t (m.shared.acquire t waiting taken).2⟩ := by
  unfold Shared.acquire
  cases m.shared.gate with
  | none => exact h.stay hp rfl rfl hdrains' hcarry' hself'
  | some u => exact h.stay hp rfl rfl hdrains hcarry hself

theorem Watching.note {write : VariableWrite} (hp : (m.phase t).plain) (hp' : p'.plain) :
    Watching d ⟨{ m.shared with log := m.shared.log ++ [.invoked t write] },
      update m.phase t p'⟩ := by
  refine h.move (.kept (hp'.1.trans hp.1.symm)) h.flag h.idle
    (h.exact.concat (fun w snapshot _ hw => ⟨hw, ?_⟩) fun w snapshot he => by cases he)
    ⟨h.listed.watchers, h.listed.pending, fun w snapshot hmem => ?_, fun w u hmem => ?_⟩ (hp'.2.2 _)
    (Nat.le_refl _) fun _ hx => hx
  · rw [carried_update_of_eq ((hp'.2.1 w).trans (hp.2.1 w).symm)]
    exact (append_nil _).symm
  · have hmem : Entry.registered w snapshot ∈ m.shared.log := by simpa using hmem
    exact h.listed.live w snapshot hmem
  · have hmem : Entry.told w u ∈ m.shared.log := by simpa using hmem
    exact h.listed.told w u hmem

theorem Watching.commit (hp : (m.phase t).plain) (cfg : VariableConfig) (input : Input)
    (origin : Origin) (prepared : PreparedVariable) :
    ∃ d', Watching d' ⟨(m.shared.commit cfg t input origin prepared).1,
      update m.phase t (m.shared.commit cfg t input origin prepared).2⟩ := by
  unfold Shared.commit
  rcases hcommit : m.shared.var.commit cfg input.order prepared with text | ⟨drain, v⟩
  · exact ⟨d, h.plain hp (plain_fails text)⟩
  · exact h.publish (publishes_commit hcommit) rfl rfl (fun _ => rfl) (fun _ _ he => by cases he)
      (commit_eq_ok hcommit).1 hp.1 hp.2.1 rfl (fun _ => rfl) fun _ => trivial

variable (cfg : VariableConfig)

/-- **Every step of a caller keeps the balance.** -/
theorem Watching.advance (t : ℕ) (input : Input) :
    ∃ d', Watching d' (m.step cfg (.advance t input)) := by
  have hstep : m.step cfg (.advance t input) = ⟨(m.shared.advance cfg t input (m.phase t)).1,
    update m.phase t (m.shared.advance cfg t input (m.phase t)).2⟩ := rfl
  cases hp : m.phase t with
  | draining outcome => exact h.take hp cfg input
  | calling outcome u w rest => exact ⟨d, h.settle (.inl ⟨outcome, u, w, rest, hp⟩) cfg input⟩
  | detaching outcome u w rest => exact ⟨d, h.settle (.inr ⟨outcome, u, w, rest, hp⟩) cfg input⟩
  | notifying outcome u rest =>
    cases rest with
    | nil =>
      rw [hstep, hp]
      exact ⟨d, h.stay hp rfl rfl rfl (fun _ => rfl) trivial⟩
    | cons w rest => exact ⟨d, h.tell hp cfg input⟩
  | releasing outcome drain =>
    rw [hstep, hp]
    refine ⟨d, h.stay hp rfl rfl ?_ (fun w => ?_) ?_⟩ <;>
      cases drain <;> trivial
  | completing drain =>
    rw [hstep, hp]
    exact ⟨d, h.acquire hp rfl rfl (fun _ => rfl) (fun _ => rfl) trivial trivial⟩
  | retireEnter =>
    have hplain : (m.phase t).plain := by
      rw [hp]
      exact ⟨rfl, fun _ => rfl, fun _ => trivial⟩
    rw [hstep, hp]
    simp only [Shared.advance]
    split
    · exact ⟨d, h.plain hplain ⟨rfl, fun _ => rfl, fun _ => trivial⟩⟩
    · next drain v hretire =>
      exact h.publish (publishes_prepareRetire hretire) rfl rfl (fun _ => rfl)
        (fun _ _ he => by cases he) (prepareRetire_eq_some hretire).1 hplain.1 hplain.2.1 rfl
        (fun _ => rfl) fun _ => trivial
  | casConfirmed write prepared =>
    rw [hstep, hp]
    exact h.commit (by rw [hp]; exact ⟨rfl, fun _ => rfl, fun _ => trivial⟩) cfg input _ prepared
  | setPrepared prepared =>
    rw [hstep, hp]
    exact h.commit (by rw [hp]; exact ⟨rfl, fun _ => rfl, fun _ => trivial⟩) cfg input _ prepared
  | casAdmitted write current prepared =>
    have hplain : (m.phase t).plain := by
      rw [hp]
      exact ⟨rfl, fun _ => rfl, fun _ => trivial⟩
    rw [hstep, hp]
    simp only [Shared.advance]
    split_ifs
    · split
      · exact ⟨d, h.plain hplain (plain_fails _)⟩
      · exact ⟨d, h.plain hplain (plain_fails _)⟩
      · exact ⟨d, h.note hplain ⟨rfl, fun _ => rfl, fun _ => trivial⟩⟩
    · exact ⟨d, h.plain hplain ⟨rfl, fun _ => rfl, fun _ => trivial⟩⟩
  | casWaiting write =>
    have hplain : (m.phase t).plain := by
      rw [hp]
      exact ⟨rfl, fun _ => rfl, fun _ => trivial⟩
    rw [hstep, hp]
    simp only [Shared.advance]
    split
    · exact ⟨d, h.plain hplain ⟨rfl, fun _ => rfl, fun _ => trivial⟩⟩
    · exact ⟨d, h.acquire hp rfl rfl (fun _ => rfl) (fun _ => rfl) trivial trivial⟩
  | setEnter revision state =>
    rw [hstep, hp]
    exact ⟨d, h.acquire hp rfl rfl (fun _ => rfl) (fun _ => rfl) trivial trivial⟩
  | idle =>
    rw [hstep, hp]
    exact ⟨d, h.stay hp rfl rfl rfl (fun _ => rfl) trivial⟩
  | done outcome =>
    rw [hstep, hp]
    exact ⟨d, h.stay hp rfl rfl rfl (fun _ => rfl) trivial⟩
  | _ =>
    -- the remaining phases only move their caller
    have hplain : (m.phase t).plain := by
      rw [hp]
      exact ⟨rfl, fun _ => rfl, fun _ => trivial⟩
    rw [hstep, hp]
    simp only [Shared.advance]
    split <;> exact ⟨d, h.plain hplain ⟨rfl, fun _ => rfl, fun _ => trivial⟩⟩

theorem Watching.watch : Watching d (m.step cfg .watch) := by
  simp only [VariableSystem.step, VariableSystem.watch]
  split
  · exact h
  · next id snapshot v hwatch =>
    unfold Variable.watch at hwatch
    split_ifs at hwatch
    cases hwatch
    have hnew : ∀ ids, Known m.shared.var ids → m.shared.var.nextWatch + 1 ∉ ids :=
      fun ids hids hmem => Nat.not_succ_le_self _ (hids.2 _ hmem)
    refine ⟨h.owner, h.flag, h.idle, h.exact.concat (fun w _ _ hw => ⟨hw, ?_⟩) (fun w s he => ?_),
      ⟨⟨?_, ?_⟩, fun n hn => (h.listed.pending n hn).mono (Nat.le_succ _), ?_, ?_⟩,
      fun t => (h.phases t).mono (Nat.le_succ _) fun _ hx => hx⟩
    · exact (append_nil _).symm
    · cases he
      have hcarried : carried m.phase (m.shared.var.nextWatch + 1) d = [] := by
        cases d with
        | none => rfl
        | some t =>
          have hphase := h.phases t
          show (m.phase t).carry _ = []
          cases hp : m.phase t with
          | notifying o u rest =>
            rw [hp] at hphase
            exact if_neg (hnew rest hphase)
          | calling o u w rest =>
            rw [hp] at hphase
            exact if_neg (hnew rest hphase)
          | detaching o u w rest =>
            rw [hp] at hphase
            exact if_neg (hnew rest hphase.1)
          | _ => rfl
      refine ⟨?_, ?_⟩
      · rw [toldTo, filterMap_eq_nil_iff]
        intro e he
        cases e with
        | told w u =>
          have hle := h.listed.told w u he
          exact if_neg (Nat.ne_of_lt (Nat.lt_succ_of_le hle))
        | _ => rfl
      · show carried m.phase _ d ++ queued _ m.shared.var.pending = []
        rw [hcarried, queued_eq_nil fun n hn => hnew _ (h.listed.pending n hn)]
        rfl
    · refine h.listed.watchers.1.append (nodup_singleton _) fun x hx hx' => ?_
      rw [mem_singleton.mp hx'] at hx
      exact hnew _ h.listed.watchers hx
    · intro x hx
      rcases mem_append.mp hx with hx | hx
      · exact Nat.le_succ_of_le (h.listed.watchers.2 x hx)
      · rw [mem_singleton.mp hx]
    · intro w s hmem hw hretired
      rcases mem_append.mp hmem with hmem | hmem
      · exact mem_append_left _ (h.listed.live w s hmem hw hretired)
      · cases mem_singleton.mp hmem
        exact mem_append_right _ mem_cons_self
    · intro w u hmem
      have hmem : Entry.told w u ∈ m.shared.log := by simpa using hmem
      exact Nat.le_succ_of_le (h.listed.told w u hmem)

theorem Watching.step (act : VariableAct) : ∃ d', Watching d' (m.step cfg act) := by
  cases act with
  | call t call =>
    simp only [VariableSystem.step]
    split_ifs with hfree
    · have hold : (m.phase t).plain := by
        cases hp : m.phase t with
        | idle => exact ⟨rfl, fun _ => rfl, fun _ => trivial⟩
        | done outcome => exact ⟨rfl, fun _ => rfl, fun _ => trivial⟩
        | _ =>
          rw [hp] at hfree
          cases hfree
      have hnew : call.enter.plain := by
        cases call with
        | apply revision state =>
          unfold VariableCall.enter
          dsimp only
          split <;> exact ⟨rfl, fun _ => rfl, fun _ => trivial⟩
        | _ => exact ⟨rfl, fun _ => rfl, fun _ => trivial⟩
      exact ⟨d, h.plain hold hnew⟩
    · exact ⟨d, h⟩
  | advance t input => exact h.advance cfg t input
  | watch => exact ⟨d, h.watch cfg⟩
  | cancel id =>
    refine ⟨d, h.owner, h.flag, h.idle, h.exact.of_eq fun w hw => ⟨fun hc => ?_, rfl⟩,
      { h.listed with live := fun w snapshot hmem hw => ?_ },
      fun t => (h.phases t).mono (Nat.le_refl _) fun _ hx => mem_cons_of_mem id hx⟩
    · exact hw (mem_cons_of_mem id hc)
    · exact h.listed.live w snapshot hmem fun hc => hw (mem_cons_of_mem id hc)
  | detach id =>
    simp only [VariableSystem.step]
    split_ifs with hid
    · exact ⟨d, h.owner, h.flag, h.idle, h.exact, h.listed.detach hid,
        fun t => (h.phases t).mono (Nat.le_refl _) fun _ hx => hx⟩
    · exact ⟨d, h⟩

end

/-- **The balance holds in every state reached.** -/
theorem watching_run {now : ℤ} {initial : VariableState} (h : cfg.newVariable now initial = .ok v)
    (acts : List VariableAct) :
    ∃ d, Watching d (acts.foldl (VariableSystem.step cfg) (VariableSystem.start v)) := by
  refine foldl_invariant (I := fun m => ∃ d, Watching d m) (fun m act hm => ?_) ?_ acts
  · obtain ⟨d, hd⟩ := hm
    exact hd.step cfg act
  · simp only [VariableConfig.newVariable, Checks.bind_eq_ok] at h
    obtain ⟨current, -, h⟩ := h
    cases h
    refine ⟨none, fun t => ⟨fun hd => (by cases hd), fun hd => (by cases hd)⟩, rfl,
      fun _ => rfl, ?_,
      ⟨⟨nodup_nil, fun id hid => absurd hid not_mem_nil⟩,
        fun n hn => absurd hn not_mem_nil, fun w s hmem => absurd hmem not_mem_nil,
        fun w u hmem => absurd hmem not_mem_nil⟩, fun t => trivial⟩
    intro pre w snapshot post hlog
    exact absurd hlog (by simp [VariableSystem.start])

/-! ### What watchers see -/

theorem published_eq (h : Justified (Lawful cfg) (pre ++ post)) :
    published post = committed post ++ if .retired ∈ post then [Variable.goneUpdate] else [] := by
  induction post using List.reverseRecOn with
  | nil => rfl
  | append_singleton post e ih =>
    rw [← append_assoc] at h
    have hpost := ih h.of_append
    have he : Lawful cfg (pre ++ post) e := h _ e [] rfl
    have hnot : Entry.retired ∉ pre ++ post → Entry.retired ∉ post := fun hc hmem =>
      hc (mem_append_right _ hmem)
    rw [published_concat, hpost, committed_append]
    cases e with
    | committed t origin u =>
      have hlive := hnot he.1
      simp [hlive, Entry.published, committed]
    | retired =>
      have hlive := hnot he
      simp [hlive, Entry.published, committed]
    | invoked t write => simp [Entry.published, committed]
    | registered w snapshot => simp [Entry.published, committed]
    | told w u => simp [Entry.published, committed]

theorem lastRevision_lt {revision : UInt64} (h : Tally cfg (pre ++ post) revision)
    (hu : u ∈ committed post) : lastRevision pre < u.revision := by
  have hcommitted := committed_append pre post
  rw [lastRevision]
  rcases eq_nil_or_concat (committed pre) with hnil | ⟨front, x, hconcat⟩
  · rw [hnil]
    exact (h.above u (by rw [hcommitted]; exact mem_append_right _ hu)).1
  · have hincreasing := h.increasing
    rw [hcommitted, map_append, pairwise_append] at hincreasing
    rw [hconcat, concat_eq_append, List.getLast?_concat]
    refine hincreasing.2.2 x.revision (mem_map.mpr ⟨x, ?_, rfl⟩) u.revision
      (mem_map.mpr ⟨u, hu, rfl⟩)
    rw [hconcat]
    simp

/-- **Watchers see every update in order.** -/
theorem watchers_see_updates (cfg : VariableConfig) (now : ℤ) (initial : VariableState)
    (v : Variable)
    (hnew : cfg.newVariable now initial = .ok v) (acts : List VariableAct) :
    let m := acts.foldl (VariableSystem.step cfg) (VariableSystem.start v)
    -- at most one caller drains, the flag says whether one does, and else the queue is empty
    (∀ t u, (m.phase t).drains = true → (m.phase u).drains = true → t = u) ∧
    (m.shared.var.draining = true ↔ ∃ t, (m.phase t).drains = true) ∧
    (m.shared.var.draining = false → m.shared.var.pending = []) ∧
    -- a watcher is told what was committed since it registered, and the end
    ∀ pre w snapshot post, m.shared.log = pre ++ .registered w snapshot :: post →
      w ∉ m.shared.var.cancelled →
      (∃ onTheWay, toldTo w m.shared.log ++ onTheWay =
          committed post ++ (if .retired ∈ post then [Variable.goneUpdate] else []) ∧
        (m.shared.var.draining = false → onTheWay = [])) ∧
      ((committed post).map VariableUpdate.revision).Pairwise (· < ·) ∧
      ∀ u ∈ committed post, snapshot.revision < u.revision ∧ u.failure = none := by
  intro m
  obtain ⟨d, h⟩ : ∃ d, Watching d m := watching_run hnew acts
  have htally : Tally cfg m.shared.log m.shared.var.revision := (writes_run hnew acts).history.tally
  refine ⟨fun t u ht hu => ?_, ⟨fun hflag => ?_, ?_⟩, fun hflag => ?_, ?_⟩
  · have hd := (h.owner t).mp ht
    rw [(h.owner u).mp hu] at hd
    exact (Option.some.inj hd).symm
  · rw [h.flag] at hflag
    obtain ⟨t, ht⟩ := Option.isSome_iff_exists.mp hflag
    exact ⟨t, (h.owner t).mpr ht⟩
  · rintro ⟨t, ht⟩
    rw [h.flag, (h.owner t).mp ht]
    rfl
  · rw [h.flag, Option.isSome_eq_false_iff, Option.isNone_iff_eq_none] at hflag
    exact h.idle hflag
  · intro pre w snapshot post hlog hw
    have hsplit : m.shared.log = (pre ++ [.registered w snapshot]) ++ post := by
      rw [hlog]
      simp
    have hlawful := htally.lawful
    rw [hsplit] at hlawful
    refine ⟨⟨carried m.phase w d ++ queued w m.shared.var.pending, ?_, fun hflag => ?_⟩, ?_,
      fun u hu => ⟨?_, ?_⟩⟩
    · rw [← published_eq hlawful]
      exact h.exact pre w snapshot post hlog hw
    · rw [h.flag, Option.isSome_eq_false_iff, Option.isNone_iff_eq_none] at hflag
      rw [h.idle hflag, hflag]
      rfl
    · have hincreasing := htally.increasing
      rw [hsplit, committed_append, map_append] at hincreasing
      exact (pairwise_append.mp hincreasing).2.1
    · have hsnapshot : snapshot.revision = lastRevision pre := htally.lawful pre _ post hlog
      rw [hsplit] at htally
      have hlt := lastRevision_lt htally hu
      rwa [lastRevision_quiet rfl, ← hsnapshot] at hlt
    · obtain ⟨e, he, hcommitted⟩ := mem_filterMap.mp hu
      obtain ⟨mid, rest, rfl⟩ := append_of_mem he
      have hentry := hlawful (pre ++ [.registered w snapshot] ++ mid) e rest (by simp)
      cases e with
      | committed t origin x =>
        cases hcommitted
        exact hentry.2.1
      | _ => cases hcommitted

/-- A watcher, a value set by the owner, and the retirement. -/
def setAndRetire : List VariableAct :=
  [.watch, .call 0 (.set { value := [49], status := "ready" })] ++ List.replicate 10
    (.advance 0 {}) ++
    [.call 0 .retire] ++ List.replicate 8 (.advance 0 {})

theorem watchers_see_updates_setAndRetire :
    ∃ v, plainVariable.newVariable 0 { value := [48], status := "ready" } = .ok v ∧
      let m := setAndRetire.foldl (VariableSystem.step plainVariable) (VariableSystem.start v)
      (toldTo 1 m.shared.log).map VariableUpdate.revision = [2, 0] ∧
      (m.shared.var.draining = false → m.shared.var.pending = []) :=
  ⟨_, rfl, by decide +kernel, (watchers_see_updates plainVariable 0
    { value := [48], status := "ready" } _ rfl setAndRetire).2.2.1⟩

end Resource
