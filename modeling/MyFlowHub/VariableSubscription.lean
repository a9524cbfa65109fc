/-
A subscription to a variable (`runtime/subscription/manager.go`, with `Observe` of
`runtime/resource/variable.go` and one delivery queue).

`Subscribe` registers a watcher, queues its snapshot and then closes the channel `ready`;
the callback of the watcher waits for that channel and hands the update to the queue.
The queue keeps the snapshot in its list and only the newest of the updates, so what the
subscriber is shown is a part of what the variable published.

* `VariableSubscription.step` — the variable, the steps of `Subscribe` and the queue;
* `Coalesces` — to show some of the items, the last one among them;
* `Advanced` — what one step of a caller does to the callbacks, said once;
* **`subscriber_ends_on_latest`** — the snapshot comes first, the revisions increase, and
  a subscriber with nothing left to come has seen the current revision.
-/
import MyFlowHub.VariableWatchers

open Std Tables Runs List

/-! ### Showing the last item -/

section Coalesces

variable {α : Type*}

/-- Some of the items in their order, with the last one among them. -/
def Coalesces (shown all : List α) : Prop := shown.Sublist all ∧ shown.getLast? = all.getLast?

theorem coalesces_nil : Coalesces ([] : List α) [] := ⟨List.Sublist.slnil, rfl⟩

theorem Coalesces.push {front slot all : List α} (h : Coalesces (front ++ slot) all) (x : α) :
    Coalesces (front ++ [x]) (all ++ [x]) := by
  refine ⟨((sublist_append_left front slot).trans h.1).append (List.Sublist.refl [x]), ?_⟩
  rw [List.getLast?_concat, List.getLast?_concat]

end Coalesces

namespace Resource

open Function

/-! ### The system -/

/-- What the watcher of `Observe` makes of an update. -/
def VariableUpdate.observation (u : VariableUpdate) : Observation :=
  match u.failure with
  | some failure => { failure := some failure }
  | none => { revision := u.revision, schema := schemaVariableValueV1, value := u.eventPayload }

/-- The snapshot `Observe` returns. -/
def VariableUpdate.snapshot (u : VariableUpdate) (payload : List UInt8) : Observation :=
  { snapshot := true, revision := u.revision, schema := schemaVariableValueV1, value := payload }

/-- How far `Subscribe` is. -/
inductive Stage where
  | unsubscribed
  /-- `Observe` has returned. -/
  | observed (watcher : ℕ) (snapshot : Observation)
  /-- The snapshot was queued. -/
  | entered (watcher : ℕ)
  /-- The channel `ready` was closed. -/
  | ready (watcher : ℕ)
  /-- `Subscribe` returned an error, or the subscription was cancelled. -/
  | ended (watcher : Option ℕ)
  deriving DecidableEq, Repr

namespace Stage

def watcher : Stage → Option ℕ
  | .unsubscribed => none
  | .observed watcher _ | .entered watcher | .ready watcher => some watcher
  | .ended watcher => watcher

/-- Whether a callback waits for `ready`. -/
def waits : Stage → Bool
  | .observed .. | .entered _ => true
  | _ => false

/-- Whether the snapshot was queued for a subscription that goes on. -/
def subscribed : Stage → Bool
  | .entered _ | .ready _ => true
  | _ => false

end Stage

structure VariableSubscription where
  system : VariableSystem
  request : Interest
  delivery : Delivery
  stage : Stage := .unsubscribed
  /-- What `next` has returned. -/
  emitted : List Delivery.Event := []

inductive SubscriptionAct where
  | observe
  /-- `Subscribe` queues the snapshot. -/
  | enqueue
  | ready
  /-- `Subscribe` fails after the snapshot, or the subscription is cancelled. -/
  | unsubscribe
  | next
  | expire (reason : String)
  /-- An act on the variable. -/
  | onVariable (act : VariableAct)

namespace VariableSubscription

def start (v : Variable) (request : Interest) (queue : ℕ) : VariableSubscription where
  system := VariableSystem.start v
  request := request
  delivery := Delivery.newDelivery request.resource queue

variable (cfg : VariableConfig) (encode : Option VariableValueV1 → Except String (List UInt8))

/-- The end of the subscription: its watcher is cancelled, its queue is stopped, and no
callback waits any more. -/
def finish (m : VariableSubscription) (watcher : Option ℕ) : VariableSubscription :=
  { m with
    system :=
      match watcher with
      | none => m.system
      | some id => m.system.step cfg (.cancel id)
    delivery := m.delivery.stop
    stage := .ended watcher }

/-- `Observe` in `Subscribe`. -/
def observe (m : VariableSubscription) : VariableSubscription :=
  match m.system.shared.var.watch cfg with
  | .error _ => m.finish cfg none
  | .ok (watcher, snapshot, _) =>
    let registered := { m with system := m.system.step cfg .watch }
    match encode snapshot.state with
    | .error _ => registered.finish cfg (some watcher)
    | .ok payload => { registered with stage := .observed watcher (snapshot.snapshot payload) }

/-- An act on the variable; the callback of the subscription is a part of it. -/
def onVariable (m : VariableSubscription) (act : VariableAct) : VariableSubscription :=
  match act with
  | .advance caller input =>
    match m.system.phase caller with
    | .calling _ update watcher _ =>
      if m.stage.watcher = some watcher then
        if m.stage.waits then m
        else
          { m with
            system := m.system.step cfg (.advance caller { input with panics := false })
            delivery := enqueueObservation m.delivery m.request update.observation }
      else { m with system := m.system.step cfg act }
    | _ => { m with system := m.system.step cfg act }
  | .cancel watcher =>
    -- the function belongs to a watcher, and that of the subscription to the manager
    if watcher ≤ m.system.shared.var.nextWatch ∧ m.stage.watcher ≠ some watcher then
      { m with system := m.system.step cfg act }
    else m
  | _ => { m with system := m.system.step cfg act }

def step (m : VariableSubscription) : SubscriptionAct → VariableSubscription
  | .observe =>
    match m.stage with
    | .unsubscribed => m.observe cfg encode
    | _ => m
  | .enqueue =>
    match m.stage with
    | .observed watcher snapshot =>
      { m with
        delivery := enqueueObservation m.delivery m.request snapshot
        stage := .entered watcher }
    | _ => m
  | .ready =>
    match m.stage with
    | .entered watcher => { m with stage := .ready watcher }
    | _ => m
  | .unsubscribe =>
    match m.stage with
    | .entered watcher | .ready watcher => m.finish cfg (some watcher)
    | _ => m
  | .next =>
    match m.delivery.next with
    | (some emission, d) => { m with delivery := d, emitted := m.emitted ++ [emission.event] }
    | (none, d) => { m with delivery := d }
  | .expire reason => { m with delivery := m.delivery.expire reason }
  | .onVariable act => m.onVariable cfg act

end VariableSubscription

/-- The phase whose next step is `PrepareRetire`. -/
def Phase.retires : Phase → Bool
  | .retireEnter => true
  | _ => false

/-- A step without failure, expiry or cancellation. -/
def VariableSubscription.undisturbed (m : VariableSubscription) : SubscriptionAct → Bool
  | .unsubscribe => false
  | .expire _ => false
  | .onVariable (.advance caller _) => !(m.system.phase caller).retires
  | _ => true

/-! ### What a step of a caller does to the callbacks -/

def Phase.inHand : Phase → Option (ℕ × VariableUpdate)
  | .calling _ update watcher _ => some (watcher, update)
  | _ => none

variable {input : Input} {handed : List VariableUpdate} {d : Option ℕ} {p p' : Phase}
  {s s' : Shared} {cfg : VariableConfig} {m : VariableSystem} {t w : ℕ}

theorem Phase.drains_of_inHand {x : ℕ × VariableUpdate} (h : p.inHand = some x) :
    p.drains = true := by
  cases p with
  | calling outcome update watcher rest => rfl
  | _ => cases h

inductive CallEffect (s : Shared) (p : Phase) (input : Input) (s' : Shared) (p' : Phase) : Prop
  /-- No callback begins; one may have ended. -/
  | quiet (hand : p'.inHand = none) (told : ∀ w, toldTo w s'.log = toldTo w s.log)
      (cancelled : s'.var.cancelled = s.var.cancelled)
  | begins (w : ℕ) (u : VariableUpdate) (duty : p.drains = true) (before : p.inHand = none)
      (hand : p'.inHand = some (w, u)) (log : s'.log = s.log ++ [.told w u])
      (cancelled : s'.var.cancelled = s.var.cancelled)
  | panics (w : ℕ) (u : VariableUpdate) (panic : input.panics = true)
      (before : p.inHand = some (w, u)) (hand : p'.inHand = none) (log : s'.log = s.log)
      (cancelled : s'.var.cancelled = w :: s.var.cancelled)

structure Advanced (s : Shared) (p : Phase) (input : Input) (s' : Shared) (p' : Phase) : Prop where
  nextWatch : s'.var.nextWatch = s.var.nextWatch
  retired : p.retires = false → s'.var.retired = s.var.retired
  grows : ∀ e ∈ s.log, e ∈ s'.log
  effect : CallEffect s p input s' p'

theorem Advanced.same (hvar : s'.var = s.var) (hlog : s'.log = s.log) (hand : p'.inHand = none) :
    Advanced s p input s' p' :=
  ⟨by rw [hvar], fun _ => by rw [hvar], fun e he => hlog ▸ he,
    .quiet hand (fun w => by rw [hlog]) (by rw [hvar])⟩

theorem Advanced.entry {e : Entry} (hnext : s'.var.nextWatch = s.var.nextWatch)
    (hcancelled : s'.var.cancelled = s.var.cancelled)
    (hretired : p.retires = false → s'.var.retired = s.var.retired) (hlog : s'.log = s.log ++ [e])
    (he : ∀ w, e.toldTo w = none) (hand : p'.inHand = none) : Advanced s p input s' p' := by
  refine ⟨hnext, hretired, fun x hx => ?_, .quiet hand (fun w => ?_) hcancelled⟩
  · rw [hlog]
    exact mem_append_left _ hx
  · rw [hlog, toldTo_concat, he w]
    exact append_nil _

theorem Advanced.acquire {waiting taken : Phase} (hwaiting : waiting.inHand = none)
    (htaken : taken.inHand = none) :
    Advanced s p input (s.acquire t waiting taken).1 (s.acquire t waiting taken).2 := by
  unfold Shared.acquire
  cases s.gate with
  | none => exact .same rfl rfl htaken
  | some u => exact .same rfl rfl hwaiting

theorem Advanced.commit (cfg : VariableConfig) (s : Shared) (p : Phase) (input : Input) (t : ℕ)
    (origin : Origin) (prepared : PreparedVariable) :
    Advanced s p input (s.commit cfg t input origin prepared).1
      (s.commit cfg t input origin prepared).2 := by
  unfold Shared.commit
  rcases hcommit : s.var.commit cfg input.order prepared with text | ⟨drain, v⟩
  · exact .same rfl rfl rfl
  · obtain ⟨hold, -, hnew⟩ := commit_eq_ok hcommit
    have hpublishes := publishes_commit hcommit
    exact .entry hpublishes.nextWatch hpublishes.cancelled (fun _ => hnew.trans hold.symm) rfl
      (fun _ => rfl) rfl

theorem advanced (cfg : VariableConfig) (s : Shared) (t : ℕ) (input : Input) (p : Phase) :
    Advanced s p input (s.advance cfg t input p).1 (s.advance cfg t input p).2 := by
  cases p with
  | casWaiting write =>
    simp only [Shared.advance]
    split
    · exact .same rfl rfl rfl
    · exact .acquire rfl rfl
  | setEnter revision state => exact .acquire rfl rfl
  | completing drain => exact .acquire rfl rfl
  | casConfirmed write prepared => exact .commit cfg s _ input t _ prepared
  | setPrepared prepared => exact .commit cfg s _ input t _ prepared
  | casAdmitted write current prepared =>
    simp only [Shared.advance]
    split_ifs
    · split
      · exact .same rfl rfl rfl
      · exact .same rfl rfl rfl
      · exact .entry rfl rfl (fun _ => rfl) rfl (fun _ => rfl) rfl
    · exact .same rfl rfl rfl
  | releasing outcome drain =>
    refine .same rfl rfl ?_
    cases drain <;> rfl
  | draining outcome =>
    simp only [Shared.advance, Variable.take]
    cases s.var.pending with
    | nil => exact ⟨rfl, fun _ => rfl, fun _ he => he, .quiet rfl (fun _ => rfl) rfl⟩
    | cons n rest => exact ⟨rfl, fun _ => rfl, fun _ he => he, .quiet rfl (fun _ => rfl) rfl⟩
  | notifying outcome update rest =>
    cases rest with
    | nil => exact .same rfl rfl rfl
    | cons watcher rest =>
      simp only [Shared.advance]
      split_ifs
      · exact .same rfl rfl rfl
      · exact ⟨rfl, fun _ => rfl, fun e he => mem_append_left _ he,
          .begins watcher update rfl rfl rfl rfl rfl⟩
  | calling outcome update watcher rest =>
    simp only [Shared.advance]
    split_ifs with hpanics
    · exact ⟨rfl, fun _ => rfl, fun _ he => he, .panics watcher update hpanics rfl rfl rfl rfl⟩
    · exact .same rfl rfl rfl
  | detaching outcome update watcher rest =>
    exact ⟨rfl, fun _ => rfl, fun _ he => he, .quiet rfl (fun _ => rfl) rfl⟩
  | retireEnter =>
    simp only [Shared.advance]
    split
    · exact .same rfl rfl rfl
    · next drain v hretire =>
      have hpublishes := publishes_prepareRetire hretire
      exact .entry hpublishes.nextWatch hpublishes.cancelled (fun hc => by cases hc) rfl
        (fun _ => rfl) rfl
  | idle => exact .same rfl rfl rfl
  | done outcome => exact .same rfl rfl rfl
  | _ =>
    -- the remaining phases only move their caller
    simp only [Shared.advance]
    split <;> exact .same rfl rfl rfl

/-! ### The updates handed to the queue -/

/-- What callbacks of a watcher have handed on: all it was told, but for a callback that
has not ended. -/
structure Handed (m : VariableSystem) (w : ℕ) (handed : List VariableUpdate) : Prop where
  free : (∀ t u, (m.phase t).inHand ≠ some (w, u)) → toldTo w m.shared.log = handed
  held : ∀ t u, (m.phase t).inHand = some (w, u) → toldTo w m.shared.log = handed ++ [u]

/-- A variable that is not retired, and its cancelled watchers. -/
structure Calm (m : VariableSystem) : Prop where
  unretired : m.shared.var.retired = false
  told : ∀ t w u, (m.phase t).inHand = some (w, u) → .told w u ∈ m.shared.log
  flagged : ∀ w ∈ m.shared.var.cancelled, w ≤ m.shared.var.nextWatch

structure Alive (m : VariableSystem) (w : ℕ) (snapshot : VariableUpdate)
    (handed : List VariableUpdate) : Prop where
  registered : .registered w snapshot ∈ m.shared.log
  uncancelled : w ∉ m.shared.var.cancelled
  handed : Handed m w handed

theorem Watching.inHand_unique (h : Watching d m) {u : ℕ} (ht : (m.phase t).drains = true)
    (hne : u ≠ t) : (m.phase u).inHand = none := by
  by_contra hsome
  obtain ⟨x, hx⟩ := Option.ne_none_iff_exists'.mp hsome
  have hu := (h.owner u).mp (Phase.drains_of_inHand hx)
  rw [(h.owner t).mp ht, Option.some.injEq] at hu
  exact hne hu.symm

theorem inHand_self {phase : ℕ → Phase} :
    (VariableSystem.phase ⟨s', update phase t p'⟩ t).inHand = p'.inHand := by
  show (update phase t p' t).inHand = _
  rw [update_self]

theorem inHand_of_ne {phase : ℕ → Phase} {u : ℕ} (hu : u ≠ t) :
    (VariableSystem.phase ⟨s', update phase t p'⟩ u).inHand = (phase u).inHand := by
  show (update phase t p' u).inHand = _
  rw [update_of_ne hu]

theorem Handed.advance (h : Handed m w handed) (hw : Watching d m)
    (hadv : Advanced m.shared (m.phase t) input s' p')
    (hout : ∀ u, (m.phase t).inHand ≠ some (w, u)) :
    Handed ⟨s', update m.phase t p'⟩ w handed := by
  -- who is in a callback of the watcher, when the caller is in none before and after
  have hothers : (∀ u, p'.inHand ≠ some (w, u)) → toldTo w s'.log = toldTo w m.shared.log →
      Handed ⟨s', update m.phase t p'⟩ w handed := by
    intro hnone htold
    refine ⟨fun hfree => htold.trans (h.free fun v u => ?_), fun v u hv => htold.trans
      (h.held v u ?_)⟩
    · by_cases hvt : v = t
      · rw [hvt]
        exact hout u
      · have hv := hfree v u
        rwa [inHand_of_ne hvt] at hv
    · by_cases hvt : v = t
      · rw [hvt, inHand_self] at hv
        exact absurd hv (hnone u)
      · rwa [inHand_of_ne hvt] at hv
  cases hadv.effect with
  | quiet hand told _ => exact hothers (fun u => by rw [hand]; exact nofun) (told w)
  | panics x u _ _ hand log _ =>
    exact hothers (fun u => by rw [hand]; exact nofun) (by rw [log])
  | begins x u duty before hand log _ =>
    by_cases hx : x = w
    · subst hx
      -- nobody was in a callback before
      have hfree := h.free fun v u => by
        by_cases hvt : v = t
        · rw [hvt]
          exact hout u
        · rw [hw.inHand_unique duty hvt]
          exact nofun
      refine ⟨fun hc => absurd ?_ (hc t u), fun v u' hv => ?_⟩
      · rw [inHand_self, hand]
      · show toldTo x s'.log = handed ++ [u']
        have hu : u' = u := by
          by_cases hvt : v = t
          · rw [hvt, inHand_self, hand, Option.some.injEq, Prod.mk.injEq] at hv
            exact hv.2.symm
          · rw [inHand_of_ne hvt, hw.inHand_unique duty hvt] at hv
            cases hv
        rw [log, toldTo_concat, hfree, hu, Entry.toldTo, if_pos rfl]
        rfl
    · refine hothers (fun u' => ?_) ?_
      · rw [hand]
        intro hc
        cases hc
        exact hx rfl
      · rw [log, toldTo_concat, Entry.toldTo, if_neg hx]
        exact append_nil _

theorem Handed.returns (h : Handed m w handed) (hw : Watching d m)
    (hadv : Advanced m.shared (m.phase t) input s' p') {u : VariableUpdate}
    (hin : (m.phase t).inHand = some (w, u)) :
    Handed ⟨s', update m.phase t p'⟩ w (handed ++ [u]) := by
  have hduty := Phase.drains_of_inHand hin
  have hends : p'.inHand = none ∧ toldTo w s'.log = toldTo w m.shared.log := by
    cases hadv.effect with
    | quiet hand told _ => exact ⟨hand, told w⟩
    | panics x u _ _ hand log _ => exact ⟨hand, by rw [log]⟩
    | begins x u _ before _ _ _ =>
      rw [hin] at before
      cases before
  refine ⟨fun _ => hends.2.trans (h.held t u hin), fun v u' hv => ?_⟩
  by_cases hvt : v = t
  · rw [hvt, inHand_self, hends.1] at hv
    cases hv
  · rw [inHand_of_ne hvt, hw.inHand_unique hduty hvt] at hv
    cases hv

theorem Handed.of_eq {m' : VariableSystem} (h : Handed m w handed)
    (hin : ∀ t, (m'.phase t).inHand = (m.phase t).inHand)
    (htold : toldTo w m'.shared.log = toldTo w m.shared.log) : Handed m' w handed := by
  refine ⟨fun hfree => ?_, fun t u ht => ?_⟩
  · rw [htold]
    exact h.free fun t u => by rw [← hin t]; exact hfree t u
  · rw [htold]
    exact h.held t u (by rw [← hin t]; exact ht)

theorem inHand_call {call : VariableCall} (hfree : (m.phase t).free = true) (u : ℕ) :
    (update m.phase t call.enter u).inHand = (m.phase u).inHand := by
  have henter : call.enter.inHand = none := by
    cases call with
    | apply revision state =>
      unfold VariableCall.enter
      dsimp only
      split <;> rfl
    | _ => rfl
  have hold : (m.phase t).inHand = none := by
    cases hp : m.phase t with
    | calling outcome update watcher rest =>
      rw [hp] at hfree
      cases hfree
    | _ => rfl
  by_cases hu : u = t
  · rw [hu, update_self, henter, hold]
  · rw [update_of_ne hu]

theorem watch_cases (cfg : VariableConfig) (s : Shared) :
    VariableSystem.watch cfg s = s ∨ ∃ v, s.var.watch cfg = .ok
      (s.var.nextWatch + 1, s.var.current.update, v) ∧
      v.nextWatch = s.var.nextWatch + 1 ∧ v.cancelled = s.var.cancelled ∧ v.retired =
        s.var.retired ∧
      VariableSystem.watch cfg s =
        { s with var := v, log := s.log ++ [.registered (s.var.nextWatch + 1)
          s.var.current.update] } := by
  unfold VariableSystem.watch
  cases hwatch : s.var.watch cfg with
  | error text => exact .inl rfl
  | ok r =>
    right
    unfold Variable.watch at hwatch
    split_ifs at hwatch
    cases hwatch
    exact ⟨_, rfl, rfl, rfl, rfl, rfl⟩

/-- The acts on the variable that let a watcher go on. -/
def Spares (m : VariableSystem) (w : ℕ) : VariableAct → Prop
  | .advance t _ => ∀ u, (m.phase t).inHand ≠ some (w, u)
  | .cancel x => x ≠ w
  | _ => True

variable {snapshot : VariableUpdate}

theorem Alive.step (h : Alive m w snapshot handed) (hw : Watching d m)
    (cfg : VariableConfig) {act : VariableAct} (hact : Spares m w act) :
    Alive (m.step cfg act) w snapshot handed := by
  cases act with
  | call t call =>
    simp only [VariableSystem.step]
    split_ifs with hfree
    · exact { h with handed := h.handed.of_eq (inHand_call hfree) rfl }
    · exact h
  | advance t input =>
    have hadv := advanced cfg m.shared t input (m.phase t)
    refine ⟨hadv.grows _ h.registered, ?_, h.handed.advance hw hadv hact⟩
    show w ∉ (m.shared.advance cfg t input (m.phase t)).1.var.cancelled
    cases hadv.effect with
    | quiet _ _ cancelled => rw [cancelled]; exact h.uncancelled
    | begins _ _ _ _ _ _ cancelled => rw [cancelled]; exact h.uncancelled
    | panics x u _ before _ _ cancelled =>
      rw [cancelled, mem_cons, not_or]
      refine ⟨fun hx => hact u ?_, h.uncancelled⟩
      rw [before, hx]
  | watch =>
    rcases watch_cases cfg m.shared with hsame | ⟨v, -, -, hcancelled, -, hwatch⟩
    · simp only [VariableSystem.step, hsame]
      exact h
    · simp only [VariableSystem.step, hwatch]
      refine ⟨mem_append_left _ h.registered, ?_, h.handed.of_eq (fun _ => rfl) ?_⟩
      · rw [hcancelled]
        exact h.uncancelled
      · rw [toldTo_concat]
        exact append_nil _
  | cancel x =>
    refine ⟨h.registered, ?_, h.handed.of_eq (fun _ => rfl) rfl⟩
    show w ∉ x :: m.shared.var.cancelled
    rw [mem_cons, not_or]
    exact ⟨Ne.symm hact, h.uncancelled⟩
  | detach x =>
    simp only [VariableSystem.step]
    split_ifs
    · exact { h with handed := h.handed.of_eq (fun _ => rfl) rfl }
    · exact h

/-- The acts that keep the variable, and cancel only watchers there are. -/
def Keeps (m : VariableSystem) : VariableAct → Prop
  | .advance t _ => (m.phase t).retires = false
  | .cancel x => x ≤ m.shared.var.nextWatch
  | _ => True

theorem Calm.step (h : Calm m) (hw : Watching d m) (cfg : VariableConfig) {act : VariableAct}
    (hact : Keeps m act) : Calm (m.step cfg act) := by
  cases act with
  | call t call =>
    simp only [VariableSystem.step]
    split_ifs with hfree
    · refine ⟨h.unretired, fun v w u hv => h.told v w u ?_, h.flagged⟩
      rw [← hv]
      exact (inHand_call hfree v).symm
    · exact h
  | advance t input =>
    have hadv := advanced cfg m.shared t input (m.phase t)
    refine ⟨(hadv.retired hact).trans h.unretired, ?_, ?_⟩
    · refine forall_update (L := fun _ (q : Phase) => ∀ w u, q.inHand = some (w, u) →
        .told w u ∈ (m.shared.advance cfg t input (m.phase t)).1.log) (fun w u hand' => ?_)
        fun v _ w u hv => hadv.grows _ (h.told v w u hv)
      cases hadv.effect with
      | quiet hand _ _ => cases hand.symm.trans hand'
      | panics _ _ _ _ hand _ _ => cases hand.symm.trans hand'
      | begins x y _ _ hand log _ =>
        cases hand.symm.trans hand'
        rw [log]
        exact mem_append_right _ mem_cons_self
    · show ∀ w ∈ (m.shared.advance cfg t input (m.phase t)).1.var.cancelled,
        w ≤ (m.shared.advance cfg t input (m.phase t)).1.var.nextWatch
      rw [hadv.nextWatch]
      intro w hmem
      cases hadv.effect with
      | quiet _ _ cancelled => exact h.flagged w (cancelled ▸ hmem)
      | begins _ _ _ _ _ _ cancelled => exact h.flagged w (cancelled ▸ hmem)
      | panics x u _ before _ _ cancelled =>
        rw [cancelled, mem_cons] at hmem
        rcases hmem with rfl | hmem
        · exact hw.listed.told w u (h.told t w u before)
        · exact h.flagged w hmem
  | watch =>
    rcases watch_cases cfg m.shared with hsame | ⟨v, -, hnext, hcancelled, hretired, hwatch⟩
    · simp only [VariableSystem.step, hsame]
      exact h
    · simp only [VariableSystem.step, hwatch]
      refine ⟨hretired.trans h.unretired, fun t w u ht => mem_append_left _ (h.told t w u ht),
        fun w hmem => ?_⟩
      show w ≤ v.nextWatch
      rw [hnext]
      exact Nat.le_succ_of_le (h.flagged w (hcancelled ▸ hmem))
  | cancel x =>
    refine ⟨h.unretired, h.told, fun w hmem => ?_⟩
    rcases mem_cons.mp hmem with rfl | hmem
    · exact hact
    · exact h.flagged w hmem
  | detach x =>
    simp only [VariableSystem.step]
    split_ifs
    · exact { h with }
    · exact h

/-- A run of the variable that was not disturbed. -/
structure Running (cfg : VariableConfig) (m : VariableSystem) : Prop where
  watching : ∃ d, Watching d m
  writes : Writes cfg m
  calm : Calm m

theorem Running.step (h : Running cfg m) (act : VariableAct) (hact : Keeps m act) :
    Running cfg (m.step cfg act) := by
  obtain ⟨d, hw⟩ := h.watching
  exact ⟨hw.step cfg act, h.writes.step act, h.calm.step hw cfg hact⟩

/-! ### What a watcher was told is what was committed -/

theorem getLast_lastRevision (pre post : List Entry) :
    (lastRevision pre :: (committed post).map VariableUpdate.revision).getLast? =
      some (lastRevision (pre ++ post)) := by
  rw [lastRevision, lastRevision, committed_append]
  rcases eq_nil_or_concat (committed post) with hnil | ⟨front, u, hconcat⟩
  · rw [hnil, append_nil]
    rfl
  · rw [hconcat, concat_eq_append, map_append, map_singleton, ← cons_append,
      List.getLast?_concat, ← append_assoc, List.getLast?_concat]
    rfl

/-- The phases of a drainer that has taken a notification from the queue. -/
def Phase.delivering : Phase → Bool
  | .notifying .. | .calling .. | .detaching .. => true
  | _ => false

theorem Phase.carry_of_not_delivering (h : p.delivering = false) (w : ℕ) : p.carry w = [] := by
  cases p with
  | notifying outcome update rest => cases h
  | calling outcome update watcher rest => cases h
  | detaching outcome update watcher rest => cases h
  | _ => rfl

theorem Phase.inHand_of_not_delivering (h : p.delivering = false) : p.inHand = none := by
  cases p with
  | calling outcome update watcher rest => cases h
  | _ => rfl

theorem Handed.isPrefix (h : Handed m w handed) :
    ∃ rest, toldTo w m.shared.log = handed ++ rest := by
  by_cases hin : ∃ t u, (m.phase t).inHand = some (w, u)
  · obtain ⟨t, u, hin⟩ := hin
    exact ⟨[u], h.held t u hin⟩
  · refine ⟨[], ?_⟩
    rw [append_nil]
    exact h.free fun t u hc => hin ⟨t, u, hc⟩

section

variable (h : Alive m w snapshot handed)
include h

theorem Alive.told_committed (hw : Watching d m) (hwrites : Writes cfg m) (hcalm : Calm m) :
    ∃ pre post, m.shared.log = (pre ++ [.registered w snapshot]) ++ post ∧
      toldTo w m.shared.log ++ (carried m.phase w d ++ queued w m.shared.var.pending) =
        committed post := by
  obtain ⟨pre, post, hlog⟩ := append_of_mem h.registered
  have hsplit : m.shared.log = (pre ++ [.registered w snapshot]) ++ post := by
    rw [hlog]
    simp
  refine ⟨pre, post, hsplit, ?_⟩
  have hlawful := hwrites.history.tally.lawful
  rw [hsplit] at hlawful
  have hlive : Entry.retired ∉ post := fun hmem => by
    have hretired := hwrites.history.retired.mpr (hsplit ▸ mem_append_right _ hmem)
    rw [hcalm.unretired] at hretired
    cases hretired
  rw [hw.exact pre w snapshot post hlog h.uncancelled, published_eq hlawful, if_neg hlive,
    append_nil]

/-- **The updates a live watcher has handed on** begin above its snapshot, increase, and
end with the current revision when nothing is left to deliver. -/
theorem Alive.revisions (hm : Running cfg m) :
    (snapshot.revision :: handed.map VariableUpdate.revision).Pairwise (· < ·) ∧
      (m.shared.var.pending = [] → (∀ t, (m.phase t).delivering = false) →
        (snapshot.revision :: handed.map VariableUpdate.revision).getLast? =
          some m.shared.var.revision) := by
  obtain ⟨d, hw⟩ := hm.watching
  have htally := hm.writes.history.tally
  obtain ⟨pre, post, hsplit, hcommitted⟩ := h.told_committed hw hm.writes hm.calm
  obtain ⟨rest, hrest⟩ := h.handed.isPrefix
  have hsnapshot : lastRevision (pre ++ [.registered w snapshot]) = snapshot.revision := by
    have hlawful : snapshot.revision = lastRevision pre :=
      htally.lawful pre (.registered w snapshot) post (by rw [hsplit]; simp)
    rw [lastRevision_quiet rfl, hlawful]
  refine ⟨?_, fun hpending hquiet => ?_⟩
  · have hpairwise : (snapshot.revision :: (committed post).map VariableUpdate.revision).Pairwise
        (· < ·) := by
      rw [pairwise_cons]
      refine ⟨fun r hr => ?_, ?_⟩
      · obtain ⟨u, hu, rfl⟩ := mem_map.mp hr
        rw [← hsnapshot]
        exact lastRevision_lt (hsplit ▸ htally) hu
      · have hincreasing := htally.increasing
        rw [hsplit, committed_append, map_append] at hincreasing
        exact (pairwise_append.mp hincreasing).2.1
    rw [← hcommitted, hrest, append_assoc, map_append, ← cons_append] at hpairwise
    exact (pairwise_append.mp hpairwise).1
  · have hcarried : carried m.phase w d = [] := by
      cases d with
      | none => rfl
      | some t => exact Phase.carry_of_not_delivering (hquiet t) w
    have htold := h.handed.free fun t u => by
      rw [Phase.inHand_of_not_delivering (hquiet t)]
      exact nofun
    rw [hcarried, hpending, htold, nil_append] at hcommitted
    have hhanded : handed = committed post := by
      rw [← hcommitted]
      exact (append_nil handed).symm
    rw [← hsnapshot, hhanded, getLast_lastRevision, ← hsplit, htally.last]

theorem Alive.carries (hm : Running cfg m) {u : VariableUpdate}
    (hin : (m.phase t).inHand = some (w, u)) : u.failure = none ∧ u.revision ≠ 0 := by
  obtain ⟨d, hw⟩ := hm.watching
  have htally := hm.writes.history.tally
  obtain ⟨pre, post, hsplit, hcommitted⟩ := h.told_committed hw hm.writes hm.calm
  rw [h.handed.held t u hin] at hcommitted
  have hu : u ∈ committed m.shared.log := by
    rw [hsplit, committed_append, ← hcommitted]
    simp
  obtain ⟨e, he, hentry⟩ := mem_filterMap.mp hu
  obtain ⟨front, back, hlog⟩ := append_of_mem he
  have hlawful := htally.lawful front e back hlog
  cases e with
  | committed t origin x =>
    cases hentry
    exact ⟨hlawful.2.1, (UInt64.ne_of_lt (UInt64.lt_of_le_of_lt UInt64.zero_le hlawful.2.2.1)).symm⟩
  | _ => cases hentry

end

/-! ### The queue of the subscription -/

end Resource

namespace Delivery

/-- A queue without gap, deferred event and end. -/
structure Ordinary (d : Delivery) : Prop where
  gapFrom : d.gapFrom = 0
  deferredStream : d.deferredStream = none
  terminal : d.terminal = none

theorem Ordinary.next_eq {d : Delivery} (h : d.Ordinary) :
    d.next =
      match d.pending, d.latestVariable with
      | event :: rest, _ => (some ⟨event, false⟩, { d with pending := rest })
      | [], some event => (some ⟨event, false⟩, { d with latestVariable := none })
      | [], none => (none, d) := by
  -- `next` empties the list, and then the slot of the newest value
  unfold next nextQueued nextQueued.nextPending takeTerminal
  rw [h.deferredStream, h.terminal, h.gapFrom]
  cases d.pending <;> cases d.latestVariable <;> simp

structure Idle (d : Delivery) : Prop extends d.Ordinary where
  pending : d.pending = []
  latestVariable : d.latestVariable = none

theorem Idle.next_eq {d : Delivery} (h : d.Idle) : d.next = (none, d) := by
  rw [h.toOrdinary.next_eq, h.pending, h.latestVariable]

/-- What a queue has emitted and still holds: the snapshot, then some of the updates that
were handed to it, the last one among them. -/
structure Fed (d : Delivery) (emitted : List Event) (revision : UInt64) (handed : List UInt64) :
    Prop where
  ordinary : d.Ordinary
  running : d.closed = false
  shown : ∃ snapshot rest, emitted ++ d.pending = snapshot :: rest ∧ snapshot.kind = .snapshot ∧
    snapshot.revision = revision ∧ (∀ e ∈ rest ++ d.latestVariable.toList, e.kind = .data) ∧
    Coalesces ((rest ++ d.latestVariable.toList).map Event.revision) handed

variable {d : Delivery} {emitted : List Event} {revision : UInt64} {handed : List UInt64}

theorem Idle.enqueueSnapshot (hd : d.Idle) (hopen : d.closed = false) {e : Event}
    (he : e.kind = .snapshot) : (d.enqueueSnapshot e).Fed [] e.revision [] := by
  rw [Delivery.enqueueSnapshot, hopen, if_neg Bool.false_ne_true]
  refine ⟨{ hd with }, hopen, e, [], ?_, he, rfl, ?_, ?_⟩
  · rw [hd.pending]
    rfl
  · rw [hd.latestVariable]
    exact fun x hx => absurd hx not_mem_nil
  · rw [hd.latestVariable]
    exact coalesces_nil

variable (h : d.Fed emitted revision handed)
include h

theorem Fed.enqueueVariable {e : Event} (he : e.kind = .data) :
    (d.enqueueVariable e).Fed emitted revision (handed ++ [e.revision]) := by
  rw [Delivery.enqueueVariable, h.running, if_neg Bool.false_ne_true]
  obtain ⟨snapshot, rest, hfront, hkind, hrevision, hdata, hshown⟩ := h.shown
  refine ⟨{ h.ordinary with }, h.running, snapshot,
    rest, hfront, hkind, hrevision, fun x hx => ?_, ?_⟩
  · rcases mem_append.mp hx with hx | hx
    · exact hdata x (mem_append_left _ hx)
    · rw [mem_singleton.mp hx]
      exact he
  · rw [map_append] at hshown ⊢
    exact hshown.push e.revision

/-- What `next` returns was the first that is still to be shown. -/
theorem Fed.next :
    d.next.2.Fed (emitted ++ (d.next.1.map Emission.event).toList) revision handed := by
  obtain ⟨snapshot, rest, hfront, hkind, hrevision, hdata, hshown⟩ := h.shown
  rw [h.ordinary.next_eq]
  cases hpending : d.pending with
  | cons event pending =>
    refine ⟨{ h.ordinary with }, h.running, snapshot,
      rest, ?_, hkind, hrevision, hdata, hshown⟩
    show (emitted ++ [event]) ++ pending = snapshot :: rest
    rw [← hfront, hpending, append_assoc]
    rfl
  | nil =>
    rw [hpending, append_nil] at hfront
    cases hlatest : d.latestVariable with
    | none =>
      refine ⟨h.ordinary, h.running, snapshot, rest, ?_, hkind, hrevision, hdata, hshown⟩
      show (emitted ++ []) ++ d.pending = snapshot :: rest
      rw [hpending, append_nil, append_nil, hfront]
    | some event =>
      rw [hlatest] at hdata hshown
      refine ⟨{ h.ordinary with }, h.running, snapshot,
        rest ++ [event], ?_, hkind, hrevision, fun x hx => hdata x (by simpa using hx), ?_⟩
      · show (emitted ++ [event]) ++ [] = snapshot :: (rest ++ [event])
        rw [append_nil, hfront]
        rfl
      · show Coalesces ((rest ++ [event] ++ []).map Event.revision) handed
        rw [append_nil]
        exact hshown

theorem Fed.emitted_sublist : (emitted.map Event.revision).Sublist (revision :: handed) := by
  obtain ⟨snapshot, rest, hfront, -, hrevision, -, hshown⟩ := h.shown
  have hemitted : (emitted.map Event.revision).Sublist ((snapshot :: rest).map Event.revision) := by
    rw [← hfront]
    exact (sublist_append_left _ _).map _
  refine hemitted.trans ?_
  rw [map_cons, hrevision]
  refine List.Sublist.cons_cons revision (List.Sublist.trans ?_ hshown.1)
  exact (sublist_append_left _ _).map _

theorem Fed.kinds :
    (∀ e, emitted.head? = some e → e.kind = .snapshot) ∧ ∀ e ∈ emitted.tail, e.kind = .data := by
  obtain ⟨snapshot, rest, hfront, hkind, -, hdata, -⟩ := h.shown
  cases emitted with
  | nil => exact ⟨fun e he => (nomatch he), fun e he => absurd he not_mem_nil⟩
  | cons first tail =>
    obtain ⟨rfl, hrest⟩ := List.cons.inj hfront
    refine ⟨fun e he => ?_, fun e he => hdata e (mem_append_left _ ?_)⟩
    · cases he
      exact hkind
    · rw [← hrest]
      exact mem_append_left _ he

theorem Fed.last (hempty : d.next.1 = none) :
    emitted.getLast?.map Event.revision = (revision :: handed).getLast? := by
  obtain ⟨snapshot, rest, hfront, -, hrevision, -, hshown⟩ := h.shown
  rw [h.ordinary.next_eq] at hempty
  cases hpending : d.pending with
  | cons event pending =>
    rw [hpending] at hempty
    cases hempty
  | nil =>
    cases hlatest : d.latestVariable with
    | some event =>
      rw [hpending, hlatest] at hempty
      cases hempty
    | none =>
      rw [hpending, append_nil] at hfront
      rw [hlatest] at hshown
      simp only [Option.toList, append_nil] at hshown
      rw [← List.getLast?_map, hfront, map_cons, hrevision, List.getLast?_cons, List.getLast?_cons,
        hshown.2]

end Delivery

namespace Resource

theorem enqueueObservation_of_closed {d : Delivery} (h : d.closed = true) (request : Interest)
    (o : Observation) : enqueueObservation d request o = d := by
  unfold enqueueObservation
  split
  · rw [Delivery.fail, if_pos h]
  · split_ifs
    · rw [Delivery.enqueueSnapshot, if_pos h]
    · rw [Delivery.enqueueVariable, if_pos h]
    · rw [Delivery.enqueueStream, if_pos h]

/-! ### The stages of a subscription -/

def StageOK (system : VariableSystem) (d : Delivery) (emitted : List Delivery.Event) : Stage → Prop
  | .unsubscribed => d.Idle ∧ d.closed = false ∧ emitted = []
  | .observed w o => (∃ s payload, o = VariableUpdate.snapshot s payload ∧ Alive system w s []) ∧
      d.Idle ∧ d.closed = false ∧ emitted = []
  | .entered w => ∃ s, Alive system w s [] ∧ d.Fed emitted s.revision []
  | .ready w => ∃ s handed, Alive system w s handed ∧
      d.Fed emitted s.revision (handed.map VariableUpdate.revision)
  | .ended _ => d.Idle ∧ d.closed = true ∧ emitted = []

structure Subscribed (cfg : VariableConfig) (m : VariableSubscription) : Prop where
  running : Running cfg m.system
  stage : StageOK m.system m.delivery m.emitted m.stage

variable {cfg : VariableConfig} {m : VariableSubscription}

theorem StageOK.step {system : VariableSystem} {d : Delivery} {emitted : List Delivery.Event}
    {stage : Stage} (h : StageOK system d emitted stage) (hm : Running cfg system)
    {act : VariableAct} (hact : ∀ w, stage.watcher = some w → Spares system w act) :
    StageOK (system.step cfg act) d emitted stage := by
  obtain ⟨duty, hw⟩ := hm.watching
  cases stage with
  | unsubscribed => exact h
  | observed w o =>
    obtain ⟨⟨s, payload, ho, halive⟩, hrest⟩ := h
    exact ⟨⟨s, payload, ho, halive.step hw cfg (hact w rfl)⟩, hrest⟩
  | entered w =>
    obtain ⟨s, halive, hfed⟩ := h
    exact ⟨s, halive.step hw cfg (hact w rfl), hfed⟩
  | ready w =>
    obtain ⟨s, handed, halive, hfed⟩ := h
    exact ⟨s, handed, halive.step hw cfg (hact w rfl), hfed⟩
  | ended w => exact h

theorem Running.watch {m : VariableSystem} (hm : Running cfg m) {w : ℕ}
    {v : Variable} (h : m.shared.var.watch cfg = .ok (w, snapshot, v)) :
    Alive (m.step cfg .watch) w snapshot [] ∧ w ≤ (m.step cfg .watch).shared.var.nextWatch := by
  obtain ⟨d, hw⟩ := hm.watching
  have hwatch : (m.step cfg .watch).shared =
      { m.shared with var := v, log := m.shared.log ++ [.registered w snapshot] } := by
    simp only [VariableSystem.step, VariableSystem.watch, h]
  have hphase : (m.step cfg .watch).phase = m.phase := rfl
  unfold Variable.watch at h
  split_ifs at h
  cases h
  have htold : toldTo (m.shared.var.nextWatch + 1) m.shared.log = [] := by
    rw [toldTo, filterMap_eq_nil_iff]
    intro e he
    cases e with
    | told x u => exact if_neg (Nat.ne_of_lt (Nat.lt_succ_of_le (hw.listed.told x u he)))
    | _ => rfl
  refine ⟨⟨?_, ?_, ?_, ?_⟩, ?_⟩
  · rw [hwatch]
    exact mem_append_right _ mem_cons_self
  · rw [hwatch]
    exact fun hmem => Nat.not_succ_le_self _ (hm.calm.flagged _ hmem)
  · intro _
    rw [hwatch]
    show toldTo _ (m.shared.log ++ _) = []
    rw [toldTo_concat, htold]
    rfl
  · intro t u hin
    rw [hphase] at hin
    exact absurd (hw.listed.told _ u (hm.calm.told t _ u hin)) (Nat.not_succ_le_self _)
  · rw [hwatch]

theorem onVariable_cases (cfg : VariableConfig) (m : VariableSubscription) (act : VariableAct) :
    m.onVariable cfg act = m ∨
    (m.onVariable cfg act = { m with system := m.system.step cfg act } ∧
      (∀ w, m.stage.watcher = some w → Spares m.system w act) ∧
      ∀ w, act = .cancel w → w ≤ m.system.shared.var.nextWatch) ∨
    ∃ t input w u, act = .advance t input ∧ (m.system.phase t).inHand = some (w, u) ∧
      m.stage.watcher = some w ∧ m.stage.waits = false ∧
      m.onVariable cfg act =
        { m with
          system := m.system.step cfg (.advance t { input with panics := false })
          delivery := enqueueObservation m.delivery m.request u.observation } := by
  cases act with
  | call t call => exact .inr (.inl ⟨rfl, fun _ _ => trivial, fun _ hc => (nomatch hc)⟩)
  | watch => exact .inr (.inl ⟨rfl, fun _ _ => trivial, fun _ hc => (nomatch hc)⟩)
  | detach x => exact .inr (.inl ⟨rfl, fun _ _ => trivial, fun _ hc => (nomatch hc)⟩)
  | cancel x =>
    simp only [VariableSubscription.onVariable]
    split_ifs with hx
    · refine .inr (.inl ⟨rfl, fun w hw hc => hx.2 (hc ▸ hw), fun w hc => ?_⟩)
      cases hc
      exact hx.1
    · exact .inl rfl
  | advance t input =>
    cases hp : m.system.phase t with
    | calling outcome u x rest =>
      simp only [VariableSubscription.onVariable, hp]
      split_ifs with hx hwaits
      · exact .inl rfl
      · exact .inr (.inr ⟨t, input, x, u, rfl, by rw [hp]; rfl, hx, by simpa using hwaits, rfl⟩)
      · refine .inr (.inl ⟨rfl, fun w hw u' hin => hx ?_, fun w hc => (nomatch hc)⟩)
        rw [hp] at hin
        cases hin
        exact hw
    | _ =>
      refine .inr (.inl ⟨?_, fun w hw u' hin => ?_, fun w hc => (nomatch hc)⟩)
      · simp only [VariableSubscription.onVariable, hp]
      · rw [hp] at hin
        cases hin

theorem Subscribed.callback (h : Subscribed cfg m) {t w : ℕ} {input : Input} {u : VariableUpdate}
    (hin : (m.system.phase t).inHand = some (w, u)) (hwatcher : m.stage.watcher = some w)
    (hwaits : m.stage.waits = false) (hpanics : input.panics = false) :
    StageOK (m.system.step cfg (.advance t input))
      (enqueueObservation m.delivery m.request u.observation) m.emitted m.stage := by
  have hstage := h.stage
  cases hs : m.stage with
  | unsubscribed =>
    rw [hs] at hwatcher
    cases hwatcher
  | observed x o =>
    rw [hs] at hwaits
    cases hwaits
  | entered x =>
    rw [hs] at hwaits
    cases hwaits
  | ended x =>
    rw [hs] at hstage
    rw [enqueueObservation_of_closed hstage.2.1]
    exact hstage
  | ready x =>
    rw [hs] at hwatcher hstage
    cases hwatcher
    obtain ⟨s, handed, halive, hfed⟩ := hstage
    obtain ⟨duty, hw⟩ := h.running.watching
    obtain ⟨hfailure, hrevision⟩ := halive.carries h.running hin
    have hadv := advanced cfg m.system.shared t input (m.system.phase t)
    refine ⟨s, handed ++ [u], ⟨hadv.grows _ halive.registered, ?_, halive.handed.returns hw
      hadv hin⟩, ?_⟩
    · show w ∉ (m.system.shared.advance cfg t input (m.system.phase t)).1.var.cancelled
      cases hadv.effect with
      | quiet _ _ cancelled => rw [cancelled]; exact halive.uncancelled
      | begins _ _ _ _ _ _ cancelled => rw [cancelled]; exact halive.uncancelled
      | panics _ _ panic _ _ _ _ =>
        rw [hpanics] at panic
        cases panic
    · have hvalue : u.observation =
          { revision := u.revision, schema := schemaVariableValueV1, value := u.eventPayload } := by
        rw [VariableUpdate.observation, hfailure]
      rw [hvalue, map_append, map_singleton]
      have hqueue : enqueueObservation m.delivery m.request
          { revision := u.revision, schema := schemaVariableValueV1, value := u.eventPayload } =
          m.delivery.enqueueVariable (Observation.event
            { revision := u.revision, schema := schemaVariableValueV1, value := u.eventPayload }
            m.request) := by
        simp [enqueueObservation, hrevision]
      rw [hqueue]
      exact hfed.enqueueVariable rfl

theorem Subscribed.finish (hm : Running cfg m.system) (hidle : m.delivery.Idle)
    (hemitted : m.emitted = []) {watcher : Option ℕ}
    (hknown : ∀ w, watcher = some w → w ≤ m.system.shared.var.nextWatch) :
    Subscribed cfg (m.finish cfg watcher) := by
  refine ⟨?_, ⟨{ hidle with }, hidle.pending,
    hidle.latestVariable⟩, Bool.or_true _, hemitted⟩
  cases watcher with
  | none => exact hm
  | some w => exact hm.step (.cancel w) (hknown w rfl)

/-- **Every undisturbed step keeps the invariant.** -/
theorem Subscribed.step {encode : Option VariableValueV1 → Except String (List UInt8)}
    (h : Subscribed cfg m) {act : SubscriptionAct} (hact : m.undisturbed act = true) :
    Subscribed cfg (m.step cfg encode act) := by
  have hstage := h.stage
  cases act with
  | unsubscribe => cases hact
  | expire reason => cases hact
  | observe =>
    cases hs : m.stage with
    | unsubscribed =>
      rw [hs] at hstage
      obtain ⟨hidle, hopen, hemitted⟩ := hstage
      simp only [VariableSubscription.step, hs, VariableSubscription.observe]
      split
      · exact .finish h.running hidle hemitted fun w hw => (nomatch hw)
      · next w snapshot v hwatch =>
        obtain ⟨halive, hle⟩ := h.running.watch hwatch
        have hrunning : Running cfg (m.system.step cfg .watch) := h.running.step .watch trivial
        split
        · refine .finish
            (m := { m with system := m.system.step cfg .watch, stage := .unsubscribed })
            hrunning hidle hemitted fun x hx => ?_
          cases hx
          exact hle
        · next payload _ => exact ⟨hrunning, ⟨snapshot, payload, rfl, halive⟩, hidle,
            hopen, hemitted⟩
    | _ =>
      simp only [VariableSubscription.step, hs]
      exact h
  | enqueue =>
    cases hs : m.stage with
    | observed w o =>
      rw [hs] at hstage
      obtain ⟨⟨s, payload, rfl, halive⟩, hidle, hopen, hemitted⟩ := hstage
      simp only [VariableSubscription.step, hs]
      refine ⟨h.running, s, halive, ?_⟩
      show (enqueueObservation m.delivery m.request (s.snapshot payload)).Fed m.emitted
        s.revision []
      rw [hemitted]
      exact hidle.enqueueSnapshot (e := (s.snapshot payload).event m.request) hopen rfl
    | _ =>
      simp only [VariableSubscription.step, hs]
      exact h
  | ready =>
    cases hs : m.stage with
    | entered w =>
      rw [hs] at hstage
      obtain ⟨s, halive, hfed⟩ := hstage
      simp only [VariableSubscription.step, hs]
      exact ⟨h.running, s, [], halive, hfed⟩
    | _ =>
      simp only [VariableSubscription.step, hs]
      exact h
  -- an emission appends the event it takes from the queue, at every stage
  | next =>
    have hnext : m.step cfg encode .next =
        { m with
          delivery := m.delivery.next.2
          emitted := m.emitted ++ (m.delivery.next.1.map Delivery.Emission.event).toList } := by
      simp only [VariableSubscription.step]
      rcases m.delivery.next with ⟨emission | emission, d⟩
      · exact congrArg (fun l => { m with delivery := d, emitted := l }) (append_nil _).symm
      · rfl
    rw [hnext]
    refine ⟨h.running, ?_⟩
    show StageOK m.system m.delivery.next.2
      (m.emitted ++ (m.delivery.next.1.map Delivery.Emission.event).toList) m.stage
    cases hs : m.stage with
    | unsubscribed =>
      rw [hs] at hstage
      rw [hstage.1.next_eq]
      exact ⟨hstage.1, hstage.2.1, by rw [hstage.2.2]; rfl⟩
    | observed w o =>
      rw [hs] at hstage
      rw [hstage.2.1.next_eq]
      exact ⟨hstage.1, hstage.2.1, hstage.2.2.1, by rw [hstage.2.2.2]; rfl⟩
    | entered w =>
      rw [hs] at hstage
      obtain ⟨s, halive, hfed⟩ := hstage
      exact ⟨s, halive, hfed.next⟩
    | ready w =>
      rw [hs] at hstage
      obtain ⟨s, handed, halive, hfed⟩ := hstage
      exact ⟨s, handed, halive, hfed.next⟩
    | ended w =>
      rw [hs] at hstage
      rw [hstage.1.next_eq]
      exact ⟨hstage.1, hstage.2.1, by rw [hstage.2.2]; rfl⟩
  -- a step of the variable: none of ours, one beside the watcher, or the watcher's callback
  | onVariable act =>
    have hretires : ∀ t input, m.undisturbed (.onVariable (.advance t input)) = true →
        (m.system.phase t).retires = false := fun t input hc => by
      simpa [VariableSubscription.undisturbed] using hc
    show Subscribed cfg (m.onVariable cfg act)
    rcases onVariable_cases cfg m act with hsame | ⟨hstep, hspares, hcancel⟩ |
      ⟨t, input, w, u, rfl, hin, hwatcher, hwaits, hstep⟩
    · rw [hsame]
      exact h
    · rw [hstep]
      refine ⟨h.running.step act ?_, hstage.step h.running hspares⟩
      cases act with
      | advance t input => exact hretires t input hact
      | cancel w => exact hcancel w rfl
      | _ => trivial
    · rw [hstep]
      have hrunning := h.running.step (.advance t { input with panics := false })
        (hretires t input hact)
      exact ⟨hrunning, h.callback hin hwatcher hwaits rfl⟩

theorem subscribed_start {now : ℤ} {initial : VariableState} {v : Variable}
    (h : cfg.newVariable now initial = .ok v) (request : Interest) (queue : ℕ) :
    Subscribed cfg (VariableSubscription.start v request queue) := by
  have hwatching := watching_run h []
  have hwrites := writes_start h
  simp only [VariableConfig.newVariable, Checks.bind_eq_ok] at h
  obtain ⟨current, -, h⟩ := h
  cases h
  exact ⟨⟨hwatching, hwrites, rfl, fun t w u hin => (by cases hin),
    fun w hw => absurd hw not_mem_nil⟩, ⟨⟨rfl, rfl, rfl⟩, rfl, rfl⟩, rfl, rfl⟩

theorem Subscribed.fed (h : Subscribed cfg m) :
    (m.emitted = [] ∧ m.stage.subscribed = false) ∨
      ∃ w s handed, Alive m.system w s handed ∧
        m.delivery.Fed m.emitted s.revision (handed.map VariableUpdate.revision) := by
  have hstage := h.stage
  cases hs : m.stage with
  | unsubscribed =>
    rw [hs] at hstage
    exact .inl ⟨hstage.2.2, rfl⟩
  | observed w o =>
    rw [hs] at hstage
    exact .inl ⟨hstage.2.2.2, rfl⟩
  | entered w =>
    rw [hs] at hstage
    obtain ⟨s, halive, hfed⟩ := hstage
    exact .inr ⟨w, s, [], halive, hfed⟩
  | ready w =>
    rw [hs] at hstage
    obtain ⟨s, handed, halive, hfed⟩ := hstage
    exact .inr ⟨w, s, handed, halive, hfed⟩
  | ended w =>
    rw [hs] at hstage
    exact .inl ⟨hstage.2.2, rfl⟩

/-! ### What a subscriber sees -/

/-- **A subscriber ends on the latest value.** -/
theorem subscriber_ends_on_latest (cfg : VariableConfig)
    (encode : Option VariableValueV1 → Except String (List UInt8)) (now : ℤ)
    (initial : VariableState) (v : Variable) (hnew : cfg.newVariable now initial = .ok v)
    (request : Interest) (queue : ℕ) (acts : List SubscriptionAct)
    (hcalm : Along (VariableSubscription.step cfg encode) (fun m act => m.undisturbed act = true)
      (VariableSubscription.start v request queue) acts) :
    let m := acts.foldl (VariableSubscription.step cfg encode)
      (VariableSubscription.start v request queue)
    -- the snapshot comes first, and then data
    (∀ e, m.emitted.head? = some e → e.kind = .snapshot) ∧
    (∀ e ∈ m.emitted.tail, e.kind = .data) ∧
    (m.emitted.map Delivery.Event.revision).Pairwise (· < ·) ∧
    -- with nothing queued or being delivered, the last event has the current revision
    (m.stage.subscribed = true → m.system.shared.var.pending = [] →
      (∀ t, (m.system.phase t).delivering = false) → m.delivery.next.1 = none →
      m.emitted.getLast?.map Delivery.Event.revision = some m.system.shared.var.revision) := by
  intro m
  have h : Subscribed cfg m := foldl_along (I := Subscribed cfg) (fun _ _ hm hact => hm.step hact)
    (subscribed_start hnew request queue) hcalm
  rcases h.fed with ⟨hemitted, hstage⟩ | ⟨w, s, handed, halive, hfed⟩
  · rw [hemitted, hstage]
    exact ⟨fun e he => (nomatch he), fun e he => absurd he not_mem_nil, List.Pairwise.nil,
      fun hc => (nomatch hc)⟩
  · obtain ⟨hincreasing, hlast⟩ := halive.revisions h.running
    exact ⟨hfed.kinds.1, hfed.kinds.2, hincreasing.sublist hfed.emitted_sublist,
      fun _ hpending hquiet hempty => (hfed.last hempty).trans (hlast hpending hquiet)⟩

/-- A subscriber, its snapshot, and an owner who sets a value. -/
def subscribeAndSet (steps : ℕ) : List SubscriptionAct :=
  [.observe, .enqueue, .ready, .next,
    .onVariable (.call 0 (.set { value := [49], status := "ready" }))] ++
    List.replicate steps (.onVariable (.advance 0 {}))

def plainEncode (state : Option VariableValueV1) : Except String (List UInt8) :=
  .ok (state.elim [] VariableValueV1.value)

/-- What the subscription of `subscribeAndSet` is for. -/
def plainInterest : Interest := ⟨⟨1, "value"⟩, "subscribe"⟩

/-- The drainer has taken the notification and not yet called the watcher: both queues are
empty, and the subscriber has not seen the current revision. -/
theorem update_in_hand :
    ∃ v, plainVariable.newVariable 0 { value := [48], status := "ready" } = .ok v ∧
      let m := (subscribeAndSet 6).foldl (VariableSubscription.step plainVariable plainEncode)
        (VariableSubscription.start v plainInterest 4)
      Along (VariableSubscription.step plainVariable plainEncode)
        (fun m act => m.undisturbed act = true) (VariableSubscription.start v plainInterest 4)
        (subscribeAndSet 6) ∧
      m.stage.subscribed = true ∧ m.system.shared.var.pending = [] ∧ m.delivery.next.1 = none ∧
      m.emitted.getLast?.map Delivery.Event.revision = some 1 ∧ m.system.shared.var.revision = 2 :=
  ⟨_, rfl, by decide +kernel⟩

theorem subscriber_ends_on_latest_subscribeAndSet :
    ∃ v, plainVariable.newVariable 0 { value := [48], status := "ready" } = .ok v ∧
      let m := (subscribeAndSet 10 ++ [SubscriptionAct.next]).foldl
        (VariableSubscription.step plainVariable plainEncode)
        (VariableSubscription.start v plainInterest 4)
      m.emitted.map Delivery.Event.revision = [1, 2] ∧ m.system.shared.var.revision = 2 ∧
      (m.emitted.map Delivery.Event.revision).Pairwise (· < ·) := by
  refine ⟨_, rfl, by decide +kernel, by decide +kernel, ?_⟩
  have hcalm := subscriber_ends_on_latest plainVariable plainEncode 0
    { value := [48], status := "ready" } _ rfl plainInterest 4 (subscribeAndSet 10 ++ [.next])
    (by decide +kernel)
  exact hcalm.2.2.1

end Resource
