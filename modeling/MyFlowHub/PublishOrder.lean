/-
Stream order under concurrent publishers.

Publishers call a subscriber outside the lock that numbered their events.  When one
overtakes another, `enqueueStream` takes the older number last and the subscriber
emits it after the newer one.  The order is kept as long as nobody overtakes, and as
long as the queue does not overflow while an event waits behind a gap that was
emitted already: then a new gap would be emitted in front of that event.

* `Rising` — what the queue has emitted and plans to emit increases;
* **`published_in_order`** — runs in which nobody overtakes keep the stream order;
* `overtaken_publisher` — two publishers, the second of which is faster.
-/
import MyFlowHub.Publishing

open Std Tables Runs List

namespace Delivery

/-- The numbers the events account for increase along the list, from one up to `last`. -/
structure Climbs (last : ℕ) (l : List Event) : Prop where
  positive : ∀ x ∈ l, 1 ≤ x.low
  ordered : ∀ x ∈ l, x.low ≤ x.high
  seen : ∀ x ∈ l, x.high ≤ last
  increasing : l.Pairwise fun a b => a.high < b.low

theorem climbs_nil (last : ℕ) : Climbs last [] := by
  constructor <;> simp

variable {e : Event} {l : List Event} {last : ℕ}

theorem Climbs.sublist {l' : List Event} (h : Climbs last l) (hsub : l'.Sublist l) :
    Climbs last l' :=
  ⟨fun x hx => h.positive x (hsub.subset hx), fun x hx => h.ordered x (hsub.subset hx),
    fun x hx => h.seen x (hsub.subset hx), h.increasing.sublist hsub⟩

theorem Climbs.concat (h : Climbs last l) (last' : ℕ) (habove : last < e.low)
    (hordered : e.low ≤ e.high) (hlast : e.high ≤ last') : Climbs last' (l ++ [e]) := by
  have hmem : ∀ x ∈ l ++ [e], x ∈ l ∨ x = e := fun x hx =>
    (mem_append.mp hx).imp id mem_singleton.mp
  refine ⟨fun x hx => ?_, fun x hx => ?_, fun x hx => ?_, ?_⟩
  · rcases hmem x hx with hx | rfl
    · exact h.positive x hx
    · omega
  · rcases hmem x hx with hx | rfl
    · exact h.ordered x hx
    · exact hordered
  · rcases hmem x hx with hx | rfl
    · have := h.seen x hx
      omega
    · exact hlast
  · refine pairwise_append.mpr ⟨h.increasing, pairwise_singleton _ _, fun a ha b hb => ?_⟩
    rw [mem_singleton.mp hb]
    have := h.seen a ha
    omega

theorem Climbs.before {m : List Event} (h : Climbs last (l ++ e :: m)) : Climbs (e.low - 1) l := by
  have hsub : l.Sublist (l ++ e :: m) := sublist_append_left _ _
  have hl := h.sublist hsub
  refine { hl with seen := fun x hx => ?_ }
  have := (pairwise_append.mp h.increasing).2.2 x hx e mem_cons_self
  omega

/-- The trace of the queue climbs up to the last number seen. -/
structure Rising (s : StreamRun) : Prop where
  shape : Shape s.queue
  climbs : Climbs s.queue.lastStream.toNat s.trace

/-- The queue does not overflow while an event waits behind an emitted gap. -/
def Roomy (d : Delivery) (sequence : UInt64) : Prop :=
  d.gapFrom = 0 → d.deferredStream ≠ none →
    d.pending.length < d.capacity ∨ d.lastStream + 1 < sequence

instance (d : Delivery) (sequence : UInt64) : Decidable (Roomy d sequence) :=
  inferInstanceAs (Decidable (_ → _ → _))

theorem rising_start (resource : ResourceID) {capacity : ℕ} (h : 1 ≤ capacity) :
    Rising (StreamRun.start resource capacity) :=
  ⟨shape_newDelivery resource h, climbs_nil _⟩

theorem Rising.next {s : StreamRun} (h : Rising s) : Rising (s.step .next) := by
  obtain ⟨htrace, hshape, hlast⟩ := step_next_trace h.shape
  exact ⟨hshape, by rw [htrace, hlast]; exact h.climbs⟩

/-- **A newer event that finds room keeps the trace climbing.** -/
theorem Rising.enqueue {s : StreamRun} (h : Rising s) (hdata : e.kind = .data)
    (hnew : s.queue.lastStream < e.sequence) (hroomy : Roomy s.queue e.sequence) :
    Rising (s.step (.enqueueStream e)) := by
  obtain ⟨hshape, hlast, hcase⟩ := enqueueStream_spec h.shape hdata hnew
  have hnat := UInt64.lt_iff_toNat_lt.mp hnew
  have hlow := low_of_data hdata
  have hhigh := high_of_data hdata
  refine ⟨hshape, ?_⟩
  show Climbs (s.queue.enqueueStream e).lastStream.toNat
    (s.emitted ++ (s.queue.enqueueStream e).plan)
  rw [hlast]
  have hclimbs := h.climbs
  rw [StreamRun.trace] at hclimbs
  cases hcase with
  | jump g hgap hlt hkind hglow hghigh hseen hplan =>
    have hfront : Climbs s.queue.lastStream.toNat (s.emitted ++ s.queue.pending) := by
      refine hclimbs.sublist ?_
      rw [plan, if_pos hgap]
      exact (sublist_append_right _ _).append_left _
    have hgap' := hfront.concat (e := g) g.high (by omega) (by omega) (Nat.le_refl _)
    have hall := hgap'.concat (e := e) e.sequence.toNat (by omega) (by omega) (by omega)
    rw [hplan]
    simpa using hall
  | swallow g hgap hkind hglow hghigh hplan =>
    -- the open gap is widened up to the new number
    rw [plan, if_neg hgap, ← append_assoc] at hclimbs
    have hmem : s.queue.gapEvent ∈ (s.emitted ++ s.queue.pending) ++
        s.queue.gapEvent :: s.queue.deferredStream.toList :=
      mem_append_right _ mem_cons_self
    have hpositive := hclimbs.positive _ hmem
    have hordered := hclimbs.ordered _ hmem
    have hseen := hclimbs.seen _ hmem
    have hfront := hclimbs.before
    rw [gapEvent_low] at hpositive hordered hfront
    have hall := hfront.concat (e := g) e.sequence.toNat (by omega) (by omega) (by omega)
    rw [hplan, ← append_assoc]
    exact hall
  | overflow g hgap hfull hcont hkind hglow hghigh hplan =>
    have hnone : s.queue.deferredStream = none := by
      by_contra hsome
      obtain ⟨x, hx⟩ := Option.ne_none_iff_exists'.mp hsome
      have hmem : x ∈ s.emitted ++ s.queue.plan := by
        rw [plan, if_pos hgap, hx]
        simp
      obtain ⟨hxdata, hxlast⟩ := h.shape.deferredData x hx
      have hpositive := hclimbs.positive x hmem
      rw [low_of_data hxdata] at hpositive
      have hxnat := UInt64.le_iff_toNat_le.mp hxlast
      have hne : s.queue.lastStream ≠ 0 := by
        intro hzero
        rw [hzero, UInt64.toNat_zero] at hxnat
        omega
      have hcont := hcont hne
      rcases hroomy hgap hsome with hroom | hjump
      · omega
      · have hjump := UInt64.lt_iff_toNat_lt.mp hjump
        rw [Counter.toNat_add_one_of_lt hnew] at hjump
        omega
    rw [plan, if_pos hgap, hnone] at hclimbs
    have hall := hclimbs.concat (e := g) e.sequence.toNat (by omega) (by omega) (by omega)
    rw [hplan, hnone]
    simpa using hall
  | queued hgap hroom hcont hplan =>
    have hall := hclimbs.concat (e := e) e.sequence.toNat (by omega) (by omega) (by omega)
    rw [hplan, ← append_assoc]
    exact hall

end Delivery

namespace Resource.Publishing

open Delivery

/-- The next call of the publisher tells the subscriber something newer than all it was
told, and its queue does not overflow behind an emitted gap. -/
def Ahead (m : Publishing) : Option Flight → Prop
  | some ⟨o, id :: _⟩ => ∀ s ∈ m.subscribers[id]?,
      s.run.queue.lastStream < o.sequence ∧ Roomy s.run.queue o.sequence
  | some ⟨_, []⟩ => True
  | none => True

def InOrder (m : Publishing) : PublishAct → Prop
  | .notify place => m.Ahead m.flights[place]?
  | _ => True

instance (m : Publishing) : DecidablePred m.Ahead
  | some ⟨o, id :: _⟩ =>
    match h : m.subscribers[id]? with
    | none => isTrue (by simp [Ahead, h])
    | some s =>
      decidable_of_iff (s.run.queue.lastStream < o.sequence ∧ Roomy s.run.queue o.sequence)
        (by simp [Ahead, h])
  | some ⟨_, []⟩ => isTrue trivial
  | none => isTrue trivial

instance (m : Publishing) : DecidablePred (InOrder m)
  | .notify place => inferInstanceAs (Decidable (m.Ahead m.flights[place]?))
  | .publish .. => isTrue trivial
  | .next _ => isTrue trivial
  | .watch .. => isTrue trivial
  | .cancel _ => isTrue trivial

def Plain (o : Observation) : Prop := o.failure = none ∧ o.snapshot = false ∧ o.revision = 0

/-- Publishers tell stream events, and what every subscriber emits increases. -/
structure Orderly (m : Publishing) : Prop where
  flights : ∀ f ∈ m.flights, Plain f.observation
  rising : ∀ (id : ℕ) (s : Subscriber), m.subscribers[id]? = some s → Rising s.run

variable {value : List UInt8} {o : Observation}

theorem Plain.event_kind (h : Plain o) (request : Interest) : (o.event request).kind = .data := by
  rw [Observation.event, h.2.1]
  rfl

theorem Plain.enqueueObservation (h : Plain o) (d : Delivery) (request : Interest) :
    enqueueObservation d request o = d.enqueueStream (o.event request) := by
  rw [Resource.enqueueObservation, h.1]
  simp [h.2.1, h.2.2]

theorem plain_stream {s s' : Stream} (h : s.publish value = .ok (o, s')) : Plain o := by
  unfold Stream.publish at h
  rcases hpayload : validatePayload s.maxPayloadBytes value with text | u
  · rw [hpayload] at h
    cases h
  · simp only [hpayload, bind, Except.bind] at h
    split_ifs at h
    cases h
    exact ⟨rfl, rfl, rfl⟩

theorem plain_topic {t t' : Topic} {publisher : NodeID} {now : ℤ}
    (h : t.publish publisher value now = .ok (o, t')) : Plain o := by
  unfold Topic.publish at h
  rcases hpayload : validatePayload t.maxPayloadBytes value with text | u
  · simp only [hpayload, bind, Except.bind] at h
    split_ifs at h
  · simp only [hpayload, bind, Except.bind] at h
    split_ifs at h
    cases h
    exact ⟨rfl, rfl, rfl⟩

theorem plain_publish {source source' : Source} {publisher : NodeID} {now : ℤ}
    (h : source.publish publisher value now = .ok (o, source')) : Plain o := by
  cases source with
  | stream s =>
    rcases hpublish : s.publish value with text | ⟨o', s'⟩
    · rw [Source.publish, hpublish] at h
      cases h
    · rw [Source.publish, hpublish] at h
      cases h
      exact plain_stream hpublish
  | topic t =>
    rcases hpublish : t.publish publisher value now with text | ⟨o', t'⟩
    · rw [Source.publish, hpublish] at h
      cases h
    · rw [Source.publish, hpublish] at h
      cases h
      exact plain_topic hpublish

theorem Orderly.deliver {m : Publishing} (h : Orderly m) {id : ℕ} (hplain : Plain o)
    (horder : ∀ s, m.subscribers[id]? = some s → s.run.queue.lastStream < o.sequence ∧
      Roomy s.run.queue o.sequence) :
    Orderly (m.deliver id o) := by
  unfold Publishing.deliver
  cases hs : m.subscribers[id]? with
  | none => exact h
  | some s =>
    refine ⟨h.flights, fun id' s' hs' => ?_⟩
    obtain ⟨hnew, hroomy⟩ := horder s hs
    rcases lookup_insert_eq_some.mp hs' with ⟨-, rfl⟩ | ⟨-, hs'⟩
    · have hrising := (h.rising id s hs).enqueue (e := o.event s.request) (hplain.event_kind _) hnew
        hroomy
      rw [hplain.enqueueObservation]
      exact hrising
    · exact h.rising id' s' hs'

/-- **Every step in order keeps what the subscribers emit increasing.** -/
theorem Orderly.step {m : Publishing} (h : Orderly m) (act : PublishAct) (horder : InOrder m act) :
    Orderly (m.step act) := by
  cases act with
  | publish order publisher value now =>
    simp only [Publishing.step]
    rcases hpublish : m.source.publish publisher value now with text | ⟨o, source⟩
    · exact h
    · refine ⟨fun f hf => ?_, h.rising⟩
      rcases mem_append.mp hf with hf | hf
      · exact h.flights f hf
      · rw [mem_singleton.mp hf]
        exact plain_publish hpublish
  | notify place =>
    simp only [Publishing.step]
    rcases hplace : m.flights[place]? with _ | ⟨o, _ | ⟨id, rest⟩⟩
    · exact h
    · exact ⟨fun f hf => h.flights f (mem_of_mem_eraseIdx hf), h.rising⟩
    · have hplain : Plain o := h.flights _ (mem_of_getElem? hplace)
      have hset : Orderly { m with flights := m.flights.set place ⟨o, rest⟩ } := by
        refine ⟨fun f hf => ?_, h.rising⟩
        rcases mem_or_eq_of_mem_set hf with hf | rfl
        · exact h.flights f hf
        · exact hplain
      rw [InOrder, hplace] at horder
      exact hset.deliver hplain horder
  | next id =>
    simp only [Publishing.step]
    cases hs : m.subscribers[id]? with
    | none => exact h
    | some s =>
      refine ⟨h.flights, fun id' s' hs' => ?_⟩
      rcases lookup_insert_eq_some.mp hs' with ⟨-, rfl⟩ | ⟨-, hs'⟩
      · exact (h.rising id s hs).next
      · exact h.rising id' s' hs'
  | watch request queue =>
    simp only [Publishing.step]
    split_ifs with hqueue
    · exact h
    · rcases m.source.watch with text | ⟨id, source⟩
      · exact h
      · refine ⟨h.flights, fun id' s' hs' => ?_⟩
        rcases lookup_insert_eq_some.mp hs' with ⟨-, rfl⟩ | ⟨-, hs'⟩
        · exact rising_start _ (Nat.not_lt.mp hqueue)
        · exact h.rising id' s' hs'
  | cancel id => exact { h with }

theorem orderly_start (source : Source) : Orderly (start source) :=
  ⟨fun f hf => absurd hf not_mem_nil, fun id s hs => by simp [start] at hs⟩

/-- **Concurrent publishing keeps the stream order** in every run in which nobody
overtakes: the data events a subscriber emits increase, and its gaps hold no number it
emits as data. -/
theorem published_in_order (source : Source) (acts : List PublishAct)
    (horder : Along Publishing.step InOrder (start source) acts) (id : ℕ) (s : Subscriber)
    (hs : (acts.foldl Publishing.step (start source)).subscribers[id]? = some s) :
    ((s.run.emitted.filter fun e => e.kind = .data).map Event.sequence).Pairwise (· < ·) ∧
    ∀ g ∈ s.run.emitted, g.kind = .gap → ∀ e ∈ s.run.emitted, e.kind = .data →
      ¬(g.gapFrom ≤ e.sequence ∧ e.sequence ≤ g.gapTo) := by
  have horderly := foldl_along (I := Orderly) (fun m act hm ha => hm.step act ha)
    (orderly_start source) horder
  have hclimbs : Climbs _ s.run.emitted :=
    (horderly.rising id s hs).climbs.sublist (sublist_append_left _ _)
  refine ⟨?_, fun g hg hgap e he hdata => ?_⟩
  · rw [pairwise_map]
    refine (hclimbs.increasing.sublist filter_sublist).imp_of_mem fun {a b} ha hb hlt => ?_
    have ha := of_decide_eq_true (mem_filter.mp ha).2
    have hb := of_decide_eq_true (mem_filter.mp hb).2
    rw [high_of_data ha, low_of_data hb] at hlt
    exact UInt64.lt_iff_toNat_lt.mpr hlt
  · rintro ⟨hfrom, hto⟩
    have hfrom := UInt64.le_iff_toNat_le.mp hfrom
    have hto := UInt64.le_iff_toNat_le.mp hto
    have hlow : g.low = g.gapFrom.toNat := by rw [Event.low, if_pos hgap]
    have hhigh : g.high = g.gapTo.toNat := by rw [Event.high, if_pos hgap]
    have helow := low_of_data hdata
    have hehigh := high_of_data hdata
    -- the gap and the event are different entries of the list, one before the other
    have hne : g ≠ e := by
      rintro rfl
      rw [hgap] at hdata
      cases hdata
    have hsymm : s.run.emitted.Pairwise fun a b => a.high < b.low ∨ b.high < a.low :=
      hclimbs.increasing.imp Or.inl
    have : Std.Symm fun a b : Event => a.high < b.low ∨ b.high < a.low := ⟨fun _ _ => Or.symm⟩
    rcases hsymm.forall hg he hne with hlt | hlt
    · omega
    · omega

/-- A stream with one subscriber, and two publishers of which the second is faster. -/
def fasterSecond : List PublishAct :=
  [.watch ⟨⟨1, "log"⟩, "subscribe"⟩ 4, .publish .asIs 0 [] 0, .publish .asIs 0 [] 0, .notify 1,
    .notify 0, .next 1, .next 1]

/-- **The subscriber emits the second event before the first.** -/
theorem overtaken_publisher :
    ((fasterSecond.foldl Publishing.step (start
      (.stream ⟨64, "log.v1", 0, 0, []⟩))).subscribers[1]?.map
      fun s => s.run.emitted.map fun e => (e.kind, e.sequence)) = some
        [(.data, 2), (.data, 1)] := by
  decide +kernel

/-- The same two publishers in the order of their numbers. -/
def secondAfterFirst : List PublishAct :=
  [.watch ⟨⟨1, "log"⟩, "subscribe"⟩ 4, .publish .asIs 0 [] 0, .publish .asIs 0 [] 0, .notify 0,
    .notify 1, .next 1, .next 1]

theorem published_in_order_secondAfterFirst :
    ∃ s, (secondAfterFirst.foldl Publishing.step
        (start (.stream ⟨64, "log.v1", 0, 0, []⟩))).subscribers[1]? = some s ∧
      s.run.emitted.map (·.sequence) = [1, 2] ∧
      ((s.run.emitted.filter fun e => e.kind = .data).map Event.sequence).Pairwise (· < ·) := by
  have horder : Along Publishing.step InOrder (start (.stream ⟨64, "log.v1", 0, 0, []⟩))
      secondAfterFirst := by decide +kernel
  have hemitted : ((secondAfterFirst.foldl Publishing.step
      (start (.stream ⟨64, "log.v1", 0, 0, []⟩))).subscribers[1]?.map fun s =>
        s.run.emitted.map (·.sequence)) = some [1, 2] := by decide +kernel
  obtain ⟨s, hs, hsequences⟩ := Option.map_eq_some_iff.mp hemitted
  exact ⟨s, hs, hsequences, (published_in_order _ secondAfterFirst horder 1 s hs).1⟩

end Resource.Publishing
