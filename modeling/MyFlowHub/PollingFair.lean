/-
Batch polling is fair (`sdk/bindings/desktop/poll_batch.go`).

A scan goes once around the sorted identifiers and begins after the subscription served last.
Once a subscription has been served, another one that has an item whenever it is visited lies
ahead: the scan that is running, or the next one, comes to it first.

* `System.served` — the subscriptions whose items were returned or collected, in order;
* `Turn` — what a step does to the scan, and `turn_step`;
* `Owed` — the scan still has to come to `y` before it can come to `x` again;
* **`polling_fair`** — between two items of one subscription.
-/
import MyFlowHub.PollingFlow

open Function Runs List Option

namespace Desktop

open BatchPhase

def Batch.index (b : Batch) : ℕ := (b.start + b.offset) % b.ids.length

def System.place (s : System) : Option ℕ := s.batch.map Batch.index

/-- The subscriptions whose items were returned, or are collected by the running call. -/
def System.served (s : System) : List ℕ :=
  (returnedItems s.log ++ (s.batch.map Batch.items).getD []).map Item.subscriptionID

def BatchPhase.visits : BatchPhase → Option ℕ
  | .tryLock id | .checkErrors id | .checkDone id | .take id | .settle id _ _ => some id
  | .look | .waiting => none

variable (encodedLength : Item → Option ℕ)

def Entry.fails : Entry → Bool
  | .failed _ => true
  | _ => false

/-- The batch calls are for these subscriptions and succeed, and there are no other polls. -/
def Regular (ids : List ℕ) (s : System) : Act → Prop
  | .pollSubscriptions ids' _ => ids'.Perm ids
  | .batch => ∀ entry ∈ (s.step encodedLength .batch).log.drop s.log.length, entry.fails = false
  | .pollSubscription .. | .single _ | .selectEvent _ | .selectError _ | .selectDone _
  | .selectTimeout _ => False
  | _ => True

instance (ids : List ℕ) (s : System) : DecidablePred (Regular encodedLength ids s) := fun a => by
  unfold Regular
  split <;> infer_instance

def BatchPhase.takes : BatchPhase → Option ℕ
  | .take id => some id
  | _ => none

/-- The scan visits the subscription and finds nothing. -/
def Misses (y : ℕ) (s : System) : Act → Prop
  | .batch => (s.batch.bind fun b => b.phase.takes) = some y ∧ (s.subs y).pending = none ∧
      (s.subs y).events = []
  | _ => False

instance (y : ℕ) (s : System) : DecidablePred (Misses y s) := fun a => by
  unfold Misses
  split <;> infer_instance

/-! ### Steps -/

/-- What is known of the scan that is running over the sorted identifiers `ids`. -/
def Scans (ids : List ℕ) (batch : Option Batch) : Prop :=
  ∀ b ∈ batch, (b.ids = ids ∧ 0 < ids.length ∧ ids.Pairwise (· < ·)) ∧
    ∀ id ∈ b.phase.visits, ids.getD b.index 0 = id

inductive Turn (ids : List ℕ) (s : System) (a : Act) (s' : System) : Prop where
  | stay (served : s'.served = s.served) (after : s'.batchAfter = s.batchAfter)
      (place : s'.place = s.place ∨ s'.place = none)
  | scan (served : s'.served = s.served) (after : s'.batchAfter = s.batchAfter)
      (place : s'.place = some (Search.search ids.length (fun i => s.batchAfter < ids.getD i 0) %
        ids.length))
  | skip (i : ℕ) (served : s'.served = s.served) (after : s'.batchAfter = s.batchAfter)
      (before : s.place = some i) (misses : Misses (ids.getD i 0) s a)
      (place : s'.place = some ((i + 1) % ids.length))
  | serve (i : ℕ) (served : s'.served = s.served ++ [ids.getD i 0])
      (after : s'.batchAfter = ids.getD i 0) (before : s.place = some i) (lt : i < ids.length)
      (place : s'.place = none ∨ s'.place = some ((i + 1) % ids.length))

variable {encodedLength} {ids : List ℕ} {s : System} {b : Batch}

theorem Batch.index_next (b : Batch) :
    (b.start + (b.offset + 1)) % b.ids.length = (b.index + 1) % b.ids.length := by
  rw [Batch.index, Nat.mod_add_mod, Nat.add_assoc]

/-- The end of the loop: nothing is lost, and a call with items does not wait. -/
theorem endLoop_spec (s : System) (hids : b.ids = ids ∧ 0 < ids.length ∧ ids.Pairwise (· < ·)) :
    (s.endLoop b).served = (returnedItems s.log ++ b.items).map Item.subscriptionID ∧
      (s.endLoop b).batchAfter = s.batchAfter ∧
      ((s.endLoop b).place = none ∨ b.items = [] ∧ (s.endLoop b).place = some b.index) ∧
      Scans ids (s.endLoop b).batch := by
  unfold System.endLoop
  split_ifs with hreturn
  · simp [System.served, System.record, System.place, Scans, returnedItems_concat, Entry.items]
  · rw [not_or, not_not] at hreturn
    simp [System.served, System.setBatch, System.place, Batch.index, Scans, visits, hids, hreturn.1]

theorem next_spec (s : System) (hids : b.ids = ids ∧ 0 < ids.length ∧ ids.Pairwise (· < ·)) :
    (s.next b).served = (returnedItems s.log ++ b.items).map Item.subscriptionID ∧
      (s.next b).batchAfter = s.batchAfter ∧
      (((s.next b).place = none ∨ b.items = [] ∧ (s.next b).place = some b.index) ∨
        (s.next b).place = some ((b.index + 1) % ids.length)) ∧
      Scans ids (s.next b).batch := by
  unfold System.next
  split_ifs
  · obtain ⟨rfl, hlen⟩ := hids
    rw [← Batch.index_next]
    simp [System.served, System.setBatch, System.place, Scans, visits, Batch.index, hlen]
  · obtain ⟨hserved, hafter, hplace, hscans⟩ := endLoop_spec s hids
    exact ⟨hserved, hafter, .inl hplace, hscans⟩

variable {ids₀ : List ℕ}

theorem Regular.not_fail {s' : System} {text : String}
    (h : Regular encodedLength ids₀ s .batch) (hb : s.batch = some b) (hlog : s'.log = s.log)
    (hstep : s.batchStep encodedLength b = s'.fail text) : False := by
  have hfails := h (.failed text) (by
    simp [System.step, hb, hstep, System.fail, System.record, hlog])
  cases hfails

theorem stay_visit {s' : System} {p : BatchPhase} {a : Act} (hscans : Scans ids s.batch)
    (hb : s.batch = some b) (hvisits : ∀ id ∈ p.visits, ids.getD b.index 0 = id)
    (hlog : returnedItems s'.log = returnedItems s.log) (hafter : s'.batchAfter = s.batchAfter)
    (hb' : s'.batch = some { b with phase := p }) :
    Turn ids s a s' ∧ Scans ids s'.batch := by
  refine ⟨.stay ?_ hafter (.inl ?_), ?_⟩
  · simp [System.served, hlog, hb, hb']
  · rw [System.place, System.place, hb, hb']
    rfl
  · intro b' hmem
    rw [hb'] at hmem
    cases hmem
    exact ⟨(hscans b hb).1, hvisits⟩

theorem turn_take (hscans : Scans ids s.batch) (hb : s.batch = some b) {id : ℕ}
    (hphase : b.phase = .take id) :
    Turn ids s .batch (s.take b id) ∧ Scans ids (s.take b id).batch := by
  have hvisits : ids.getD b.index 0 = id := (hscans b hb).2 id (by rw [hphase]; rfl)
  unfold System.take
  split
  · refine stay_visit hscans hb (p := .settle id true _) ?_ rfl rfl rfl
    simpa [visits] using hvisits
  · refine stay_visit hscans hb (p := .settle id true _) ?_ ?_ rfl rfl
    · simpa [visits] using hvisits
    · exact (returnedItems_concat ..).trans (append_nil _)
  · next hpending hevents =>
    obtain ⟨hserved, hafter, hplace, hscans'⟩ := next_spec (s.unlock id) (hscans b hb).1
    have hserved : ((s.unlock id).next b).served = s.served := by
      rw [hserved]
      simp [System.served, hb, System.unlock, System.setSub]
    have hplace₀ : s.place = some b.index := by rw [System.place, hb, map_some]
    refine ⟨?_, hscans'⟩
    rcases hplace with (hplace | ⟨-, hplace⟩) | hplace
    · exact .stay hserved hafter (.inr hplace)
    · exact .stay hserved hafter (.inl (hplace.trans hplace₀.symm))
    · refine .skip b.index hserved hafter hplace₀ ⟨?_, ?_⟩ hplace
      · rw [hb, bind_some, hphase, hvisits]
        rfl
      · rw [hvisits]
        exact ⟨hpending, hevents⟩

theorem turn_settle (hlocked : s.Locked encodedLength)
    (hregular : Regular encodedLength ids₀ s .batch) (hscans : Scans ids s.batch)
    (hb : s.batch = some b) {id : ℕ} {known : Bool} {item : Item}
    (hphase : b.phase = .settle id known item) :
    Turn ids s .batch (s.settle encodedLength b id known item) ∧
      Scans ids (s.settle encodedLength b id known item).batch := by
  have hvisits : ids.getD b.index 0 = id := (hscans b hb).2 id (by rw [hphase]; rfl)
  have hitem : item.subscriptionID = id := by
    cases known with
    | true => exact ((hlocked.batch b hb).settling id item hphase).1
    | false => rw [(hlocked.batch b hb).madeUp id item hphase]; rfl
  have hstep : s.batchStep encodedLength b = s.settle encodedLength b id known item := by
    rw [System.batchStep, hphase]
  have hplace₀ : s.place = some b.index := by rw [System.place, hb, map_some]
  have hrelease : ∀ s : System, (s.release id known).log = s.log ∧
      (s.release id known).batchAfter = s.batchAfter := by
    intro s
    unfold System.release
    split_ifs <;> exact ⟨rfl, rfl⟩
  unfold System.settle at hstep ⊢
  split at hstep
  · exact (hregular.not_fail hb (hrelease s).1 hstep).elim
  next n hn =>
  simp only at hstep ⊢
  split_ifs at hstep ⊢ with hsingle hfull
  · exact (hregular.not_fail hb (hrelease s).1 hstep).elim
  · -- the item is parked and the loop ends
    obtain ⟨hserved, hafter, hplace, hscans'⟩ :=
      endLoop_spec ((s.park id known item).release id known) (hscans b hb).1
    have hpark : (s.park id known item).log = s.log ∧
        (s.park id known item).batchAfter = s.batchAfter := by
      unfold System.park
      split_ifs <;> exact ⟨rfl, rfl⟩
    refine ⟨.stay ?_ (hafter.trans ((hrelease _).2.trans hpark.2))
      (.inr (hplace.resolve_right fun hc => hfull.2 hc.1)), hscans'⟩
    rw [hserved, (hrelease _).1, hpark.1]
    simp [System.served, hb]
  · obtain ⟨hserved, hafter, hplace, hscans'⟩ :=
      next_spec (b := { b with items := b.items ++ [item], bytes := b.bytes + n + 1 })
        { s.release id known with batchAfter := id } (hscans b hb).1
    refine ⟨.serve b.index ?_ (hafter.trans hvisits.symm) hplace₀ ?_
      (hplace.imp_left fun hc => hc.resolve_right (by simp)), hscans'⟩
    · rw [hserved, hvisits]
      simp [System.served, hb, (hrelease s).1, hitem]
    · rw [← (hscans b hb).1.1]
      exact Nat.mod_lt _ ((hscans b hb).1.1 ▸ (hscans b hb).1.2.1)

theorem turn_batchStep (hlocked : s.Locked encodedLength)
    (hregular : Regular encodedLength ids₀ s .batch) (hscans : Scans ids s.batch)
    (hb : s.batch = some b) :
    Turn ids s .batch (s.batchStep encodedLength b) ∧ Scans ids
      (s.batchStep encodedLength b).batch := by
  have hfail := fun (text : String) (hc : s.batchStep encodedLength b = s.fail text) =>
    hregular.not_fail hb rfl hc
  have hvisits := (hscans b hb).2
  cases hphase : b.phase with
  | look =>
    have hlook : ∀ id, id = b.ids.getD ((b.start + b.offset) % b.ids.length) 0 →
        ids.getD b.index 0 = id := by
      rintro id rfl
      rw [(hscans b hb).1.1, Batch.index, (hscans b hb).1.1]
    simp only [System.batchStep, hphase, System.look] at hfail ⊢
    split_ifs at hfail ⊢
    · exact (hfail _ rfl).elim
    · refine stay_visit hscans hb (p := .tryLock _) ?_ rfl rfl rfl
      simpa [visits] using hlook _ rfl
    · refine stay_visit hscans hb (p := .settle _ _ _) ?_ rfl rfl rfl
      simpa [visits] using hlook _ rfl
  | tryLock id =>
    cases hlock : (s.subs id).pollMu with
    | some owner =>
      simp only [System.batchStep, hphase, System.tryLock, hlock] at hfail
      exact (hfail _ rfl).elim
    | none =>
      simp only [System.batchStep, hphase, System.tryLock, hlock]
      refine stay_visit hscans hb (p := .checkErrors id) ?_ rfl rfl rfl
      simpa [visits, hphase] using hvisits
  | checkErrors id | checkDone id =>
    simp only [System.batchStep, hphase, System.checkErrors, System.checkDone]
    split
    · refine stay_visit hscans hb (p := .settle id true _) ?_ rfl rfl rfl
      simpa [visits, hphase] using hvisits
    · refine stay_visit hscans hb ?_ rfl rfl rfl
      simpa [visits, hphase] using hvisits
  | take id =>
    rw [System.batchStep, hphase]
    exact turn_take hscans hb hphase
  | settle id known item =>
    rw [System.batchStep, hphase]
    exact turn_settle hlocked hregular hscans hb hphase
  | waiting =>
    rw [System.batchStep, hphase]
    exact ⟨.stay rfl rfl (.inl rfl), hscans⟩

theorem turn_step {a : Act} (hids : ids = ids₀.insertionSort (· ≤ ·))
    (hlocked : s.Locked encodedLength) (hregular : Regular encodedLength ids₀ s a)
    (hscans : Scans ids s.batch) :
    Turn ids s a (s.step encodedLength a) ∧ Scans ids (s.step encodedLength a).batch := by
  -- a step that does not touch the batch call, and one that starts a new scan
  have hstay : ∀ s' : System, s'.batch = s.batch → s'.batchAfter = s.batchAfter →
      returnedItems s'.log = returnedItems s.log → Turn ids s a s' ∧ Scans ids s'.batch := by
    intro s' hb hafter hlog
    refine ⟨.stay ?_ hafter (.inl ?_), hb ▸ hscans⟩
    · rw [System.served, System.served, hb, hlog]
    · rw [System.place, System.place, hb]
  have hscan : ∀ (s' : System) (timeoutMS : ℕ), s'.log = s.log → s'.batchAfter = s.batchAfter →
      s'.batch = some (s.newBatch ids timeoutMS) → (s.batch.map Batch.items).getD [] = [] →
      0 < ids.length ∧ ids.Pairwise (· < ·) → Turn ids s a s' ∧ Scans ids s'.batch := by
    intro s' timeoutMS hlog hafter hb' hitems hsorted
    refine ⟨.scan ?_ hafter ?_, fun b' hmem => ?_⟩
    · simp [System.served, hlog, hb', hitems, System.newBatch]
    · simp [System.place, hb', Batch.index, System.newBatch]
    · obtain rfl := mem_unique hb' hmem
      exact ⟨⟨rfl, hsorted⟩, by simp [System.newBatch, visits]⟩
  cases a with
  | listen id | register id | cancel id | stop id =>
    simp only [System.step]
    split <;> exact hstay _ rfl rfl rfl
  | close => exact hstay _ rfl rfl rfl
  | onEvent id event =>
    simp only [System.step]
    split_ifs
    · exact hstay _ rfl rfl ((returnedItems_concat ..).trans (append_nil _))
    · exact hstay _ rfl rfl rfl
  | onError id failure =>
    simp only [System.step]
    split_ifs <;> exact hstay _ rfl rfl rfl
  | pollSubscriptions ids' timeoutMS =>
    have hsort : ids'.insertionSort (· ≤ ·) = ids :=
      hids ▸ List.Perm.eq_of_pairwise' (pairwise_insertionSort ..)
        (pairwise_insertionSort ..) ((perm_insertionSort ..).trans
          (List.Perm.trans hregular (perm_insertionSort ..).symm))
    simp only [System.step]
    split_ifs with hvalid
    · split
      · next hb =>
        rw [hsort]
        refine hscan _ timeoutMS rfl rfl rfl (by rw [hb]; rfl) ⟨?_, ?_⟩
        · rw [← hsort, length_insertionSort]
          exact hvalid.1.1
        · have hnodup := (perm_insertionSort (· ≤ ·) ids').nodup_iff.mpr hvalid.1.2.2.2
          rw [← hsort]
          exact ((pairwise_insertionSort (· ≤ ·) ids').and hnodup).imp fun h =>
            lt_of_le_of_ne h.1 h.2
      · exact hstay _ rfl rfl rfl
    · exact hstay _ rfl rfl rfl
  | batch =>
    simp only [System.step]
    split
    · next b hb => exact turn_batchStep hlocked hregular hscans hb
    · exact hstay _ rfl rfl rfl
  | wake =>
    simp only [System.step]
    split
    · next b hb =>
      split
      · next hphase =>
        split_ifs
        · rw [(hscans b hb).1.1]
          refine hscan _ b.timeoutMS rfl rfl rfl ?_ (hscans b hb).1.2
          rw [hb, map_some, (hlocked.batch b hb).waiting hphase]
          rfl
        · exact hstay _ rfl rfl rfl
      · exact hstay _ rfl rfl rfl
    · exact hstay _ rfl rfl rfl
  | timer =>
    simp only [System.step]
    split
    · next b hb =>
      split
      · next hphase =>
        have hitems := (hlocked.batch b hb).waiting hphase
        refine ⟨.stay ?_ rfl (.inr rfl), fun b' hmem => by cases hmem⟩
        simp [System.served, System.record, returnedItems_concat, Entry.items, hb, hitems]
      · exact hstay _ rfl rfl rfl
    · exact hstay _ rfl rfl rfl
  -- regular runs have no calls for one subscription
  | pollSubscription t id => exact hregular.elim
  | single t | selectEvent t | selectError t | selectDone t | selectTimeout t => exact hregular.elim

/-! ### The order of the scan -/

/-- How far the index `i` lies after `o` on a circle of `n`. -/
def ahead (n o i : ℕ) : ℕ := if o ≤ i then i - o else i + n - o

theorem ahead_succ {n o i m : ℕ} (hi : i < n) (ho : o < n) (hm : m < n)
    (h : ahead n o i < ahead n o m) : ahead n o ((i + 1) % n) = ahead n o i + 1 := by
  have hmod : (i + 1) % n = if i + 1 = n then 0 else i + 1 := by
    split_ifs with hn
    · rw [hn, Nat.mod_self]
    · exact Nat.mod_eq_of_lt (by omega)
  rw [hmod]
  simp only [ahead] at h ⊢
  split_ifs at h ⊢ <;> omega

theorem ahead_inj {n o i m : ℕ} (hi : i < n) (ho : o < n) (hm : m < n)
    (h : ahead n o i = ahead n o m) : i = m := by
  simp only [ahead] at h
  split_ifs at h <;> omega

section Order

variable {a : Act} {s' : System} {x y : ℕ}

section

variable (hsorted : ids.Pairwise (· < ·))
include hsorted

theorem getD_lt {i j : ℕ} (hij : i < j) (hj : j < ids.length) : ids.getD i 0 < ids.getD j 0 := by
  rw [getD_eq_getElem _ _ (hij.trans hj), getD_eq_getElem _ _ hj]
  exact pairwise_iff_getElem.mp hsorted i j (hij.trans hj) hj hij

theorem getD_inj {i j : ℕ} (hi : i < ids.length) (hj : j < ids.length)
    (h : ids.getD i 0 = ids.getD j 0) : i = j := by
  rcases lt_trichotomy i j with hlt | heq | hlt
  · exact absurd h (getD_lt hsorted hlt hj).ne
  · exact heq
  · exact absurd h (getD_lt hsorted hlt hi).ne'

theorem search_after {k : ℕ} (hk : k < ids.length) :
    Search.search ids.length (fun i => ids.getD k 0 < ids.getD i 0) = k + 1 := by
  have hiff : ∀ i, i < ids.length → (ids.getD k 0 < ids.getD i 0 ↔ k < i) := by
    intro i hi
    refine ⟨fun h => ?_, fun h => getD_lt hsorted h hi⟩
    by_contra hle
    rcases Nat.lt_or_eq_of_le (Nat.le_of_not_lt hle) with hlt | rfl
    · exact absurd h (getD_lt hsorted hlt hk).asymm
    · exact absurd h (lt_irrefl _)
  have hspec := Search.search_spec (f := fun i => ids.getD k 0 < ids.getD i 0) (n := ids.length) (by
    intro i j hij hj hi
    rw [decide_eq_true_eq, hiff _ (by omega)] at hi
    rw [decide_eq_true_eq, hiff _ hj]
    omega)
  generalize Search.search ids.length (fun i => ids.getD k 0 < ids.getD i 0) = m at hspec
  have hle : ¬ m ≤ k := fun hc => by
    have := hspec.above k hc hk
    simp at this
  have hge : ¬ k + 1 < m := fun hc => by
    have hlt : k + 1 < ids.length := lt_of_lt_of_le hc hspec.bound
    have := hspec.below (k + 1) hc
    rw [decide_eq_false_iff_not, hiff _ hlt] at this
    omega
  omega

end

/-- The scan has to come to the index `y` before it can come to `x` again. -/
structure Owed (ids : List ℕ) (x y : ℕ) (s : System) : Prop where
  after : ∃ k < ids.length, s.batchAfter = ids.getD k 0 ∧ ahead ids.length x k < ahead
    ids.length x y
  place : ∀ i, s.place = some i → i < ids.length ∧ 0 < ahead ids.length x i ∧
    ahead ids.length x i ≤ ahead ids.length x y

theorem place_succ (hx : x < ids.length) (hy : y < ids.length) {i : ℕ} (hi : i < ids.length)
    (hlt : ahead ids.length x i < ahead ids.length x y)
    (hplace : s.place = none ∨ s.place = some ((i + 1) % ids.length)) (j : ℕ)
      (hj : s.place = some j) :
    j < ids.length ∧ 0 < ahead ids.length x j ∧ ahead ids.length x j ≤ ahead ids.length x y := by
  -- the scan goes one further and does not pass `y`
  rcases hplace with hplace | hplace
  · simp [hplace] at hj
  · rw [hplace] at hj
    obtain rfl := some.inj hj
    rw [ahead_succ hi hx hy hlt]
    exact ⟨Nat.mod_lt _ (by omega), Nat.succ_pos _, hlt⟩

/-- A step that does not miss `y` serves it, or leaves it owed and does not serve `x`. -/
theorem Owed.turn (h : Owed ids x y s) (hsorted : ids.Pairwise (· < ·)) (hx : x < ids.length)
    (hy : y < ids.length) (hturn : Turn ids s a s') (hmisses : ¬ Misses (ids.getD y 0) s a) :
    ∃ new, s'.served = s.served ++ new ∧
      (ids.getD y 0 ∈ new ∨ ids.getD x 0 ∉ new ∧ Owed ids x y s') := by
  have hpass : ∀ i, s.place = some i → i ≠ y → ahead ids.length x i < ahead ids.length x y := by
    intro i hi hne
    obtain ⟨hlt, -, hle⟩ := h.place i hi
    exact lt_of_le_of_ne hle fun hc => hne (ahead_inj hlt hx hy hc)
  cases hturn with
  | stay served after place =>
    refine ⟨[], by simp [served], .inr ⟨by simp, after ▸ h.after, fun i hi => h.place i ?_⟩⟩
    rcases place with place | place
    · rw [← place, hi]
    · simp [place] at hi
  | scan served after place =>
    obtain ⟨k, hk, hafter, hlt⟩ := h.after
    rw [hafter, search_after hsorted hk] at place
    exact ⟨[], by simp [served], .inr ⟨by simp, after ▸ h.after,
      place_succ hx hy hk hlt (.inr place)⟩⟩
  | skip i served after before misses place =>
    have hne : i ≠ y := by
      rintro rfl
      exact hmisses misses
    exact ⟨[], by simp [served], .inr ⟨by simp, after ▸ h.after,
      place_succ hx hy (h.place i before).1 (hpass i before hne) (.inr place)⟩⟩
  | serve i served after before lt place =>
    refine ⟨_, served, ?_⟩
    by_cases hne : i = y
    · subst hne
      exact .inl (mem_singleton_self _)
    · refine .inr ⟨fun hc => ?_, ⟨i, lt, after, hpass i before hne⟩,
        place_succ hx hy lt (hpass i before hne) place⟩
      have hix := getD_inj hsorted hx lt (mem_singleton.mp hc)
      have hpos := (h.place i before).2.1
      rw [← hix, ahead, if_pos le_rfl] at hpos
      omega

theorem Turn.grows (hturn : Turn ids s a s') : ∃ more, s'.served = s.served ++ more := by
  cases hturn with
  | stay served | scan served | skip _ served => exact ⟨[], by simp [served]⟩
  | serve _ served => exact ⟨_, served⟩

/-- Once `x` has been served, every other subscription is owed. -/
theorem owed_of_served {v : ℕ} (hturn : Turn ids s a s') (hserved : s'.served = s.served ++ [v]) :
    ∃ x < ids.length, s.place = some x ∧ ids.getD x 0 = v ∧
      ∀ y < ids.length, y ≠ x → Owed ids x y s' := by
  have hgrows : s'.served ≠ s.served := fun hc => by
    rw [hc] at hserved
    simp at hserved
  cases hturn with
  | stay served | scan served | skip _ served => exact absurd served hgrows
  | serve x served after before lt place =>
    refine ⟨x, lt, before, ?_, fun y hy hne => ?_⟩
    · rw [served] at hserved
      simpa using hserved
    · have hlt : ahead ids.length x x < ahead ids.length x y := by
        simp only [ahead]
        split_ifs <;> omega
      exact ⟨⟨x, lt, after, hlt⟩, place_succ lt hy lt hlt place⟩

end Order

/-- **Batch polling is fair.**  Batch calls for one set of subscriptions are made and succeed,
with events, errors and cancellations in between, from any state in which no batch call is
running.  Between two items of `x` there is an item of every other `y` of the set that was not
found empty by a scan in between.  The items are counted when a call collects them, which is the
order in which they are returned. -/
theorem polling_fair (encodedLength : Item → Option ℕ) {ids mid : List ℕ} {as₀ as₁ as₂ : List Act}
    {a : Act} {x y : ℕ} {s₀ s₁ s₂ : System} (hs₀ : s₀ = as₀.foldl (System.step encodedLength) {})
    (hidle : s₀.batch = none) (hs₁ : s₁ = as₁.foldl (System.step encodedLength) s₀)
    (hs₂ : s₂ = s₁.step encodedLength a)
    (hregular : Along (System.step encodedLength) (Regular encodedLength ids) s₀ (as₁ ++ a :: as₂))
    (hfirst : s₂.served = s₁.served ++ [x])
    (hlast : (as₂.foldl (System.step encodedLength) s₂).served = s₂.served ++ mid ++ [x])
    (hy : y ∈ ids) (hne : y ≠ x)
    (havailable : Along (System.step encodedLength) (fun s a => ¬ Misses y s a) s₂ as₂) :
    y ∈ mid := by
  obtain ⟨hfront, hact, hback⟩ := along_append.mp hregular
  rw [← hs₁] at hact hback
  rw [← hs₂] at hback
  have hlocked₀ : s₀.Locked encodedLength := by
    rw [hs₀]
    refine foldl_invariant (I := System.Locked encodedLength) (fun s a h => locked_step h a)
      ⟨fun b hb => ?_, fun t => .plain rfl, ?_⟩ _
    · cases hb
    · intro id item hitem
      cases hitem
  obtain ⟨sorted, hids⟩ : ∃ sorted, sorted = ids.insertionSort (· ≤ ·) := ⟨_, rfl⟩
  obtain ⟨hlocked₁, hscans₁⟩ : s₁.Locked encodedLength ∧ Scans sorted s₁.batch := by
    rw [hs₁]
    refine foldl_along (I := fun s => s.Locked encodedLength ∧ Scans sorted s.batch)
      (fun s a h hgood => ⟨locked_step h.1 a, (turn_step hids h.1 hgood h.2).2⟩)
      ⟨hlocked₀, fun b hb => ?_⟩ hfront
    simp [hidle] at hb
  obtain ⟨hturn, hscans₂⟩ := turn_step hids hlocked₁ hact hscans₁
  rw [← hs₂] at hturn hscans₂
  obtain ⟨i, hi, hplace, hx, howed⟩ := owed_of_served hturn hfirst
  obtain ⟨b, hb, -⟩ := map_eq_some_iff.mp hplace
  have hsorted := (hscans₁ b hb).1.2.2
  obtain ⟨j, hj, hjy⟩ := getElem_of_mem
    (hids ▸ (perm_insertionSort (· ≤ ·) ids).mem_iff.mpr hy)
  rw [← getD_eq_getElem _ 0] at hjy
  have hji : j ≠ i := by
    rintro rfl
    exact hne (hjy.symm.trans hx)
  -- what has been served since, and that `y` is among it or still owed
  obtain ⟨-, -, new, hnew, hcase⟩ := foldl_along
    (I := fun s => s.Locked encodedLength ∧ Scans sorted s.batch ∧
      ∃ new, s.served = s₂.served ++ new ∧ (y ∈ new ∨ x ∉ new ∧ Owed sorted i j s)) (by
      rintro s a ⟨hlocked, hscans, new, hserved, hcase⟩ ⟨hgood, hmisses⟩
      obtain ⟨hturn, hscans'⟩ := turn_step hids hlocked hgood hscans
      refine ⟨locked_step hlocked a, hscans', ?_⟩
      rcases hcase with hmem | ⟨hmem, howed⟩
      · obtain ⟨more, hmore⟩ := hturn.grows
        exact ⟨new ++ more, by rw [hmore, hserved, append_assoc],
          .inl (mem_append_left more hmem)⟩
      · obtain ⟨more, hmore, hcase⟩ := howed.turn hsorted hi hj hturn (hjy ▸ hmisses)
        rw [hjy, hx] at hcase
        refine ⟨new ++ more, by rw [hmore, hserved, append_assoc], ?_⟩
        rcases hcase with hmem' | ⟨hmem', howed'⟩
        · exact .inl (mem_append_right new hmem')
        · exact .inr ⟨by simp [hmem, hmem'], howed'⟩)
    ⟨hs₂ ▸ locked_step hlocked₁ a, hscans₂, [], by simp, .inr ⟨by simp, howed j hj hji⟩⟩
    (hback.and havailable)
  rw [hlast, append_assoc, append_cancel_left_eq] at hnew
  rcases hcase with hmem | ⟨hmem, -⟩
  · rw [← hnew, mem_append, mem_singleton] at hmem
    exact hmem.resolve_right hne
  · exact absurd (hnew ▸ mem_append_right mid (mem_singleton_self x)) hmem

/-- Both subscriptions are served by the first call, and the second one begins after them. -/
theorem polling_fair_two :
    let step := System.step plainLength
    let s₀ := (twoSubscriptions ++ [Act.onEvent 2 "b", .onEvent 1 "c"]).foldl step {}
    let s₁ := (.pollSubscriptions [2, 1] 0 :: List.replicate 5 .batch).foldl step s₀
    let as₂ := List.replicate 6 .batch ++ .pollSubscriptions [1, 2] 0 :: List.replicate 6 .batch
    (as₂.foldl step (step s₁ .batch)).served = [1, 2, 1] ∧ 2 ∈ [2] := by
  intro step s₀ s₁ as₂
  have hregular : Along step (Regular plainLength [1, 2]) s₀
      ((.pollSubscriptions [2, 1] 0 :: List.replicate 5 .batch) ++ .batch :: as₂) := by decide
  have hlast : (as₂.foldl step (step s₁ .batch)).served = (step s₁ .batch).served ++
    [2] ++ [1] := by
    decide
  exact ⟨by decide, polling_fair plainLength rfl rfl rfl rfl hregular (by decide) hlast (by decide)
    (by decide) (by decide)⟩

end Desktop
