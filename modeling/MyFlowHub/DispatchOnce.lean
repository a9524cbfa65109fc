/-
A command runs at most once inside the window of the dispatcher.

The events of a call and of its execution in the history are those of the phase it is in: a
call is accepted, then refused a slot or completed; an execution starts, ends, and hands its
result over once.

* `Recorded` — the events of calls, which say what is pending;
* `Handed` — the events of executions, and who can take a result that was not handed over;
* **`runs_once_in_window`** — the guarantees for every run.
-/
import MyFlowHub.DispatchWindow

open Std Function Tables Runs List

namespace Command

open Event

/-! ### Calls -/

/-- The events that say whether a call is under way. -/
def Event.ofCall (t : ℕ) : Event → Bool
  | .accepted u _ | .refused u _ | .completed u _ _ => u = t
  | _ => false

/-- What the history holds about a call in a phase. -/
def CallPhase.Recorded (t : ℕ) (events : List Event) : CallPhase → Prop
  | .idle | .checked .. => events = []
  | .accepted id | .refusing id _ | .waiting id | .completing id _ => events = [.accepted t id]
  | .returned _ => events = [] ∨ ∃ id, events = [.accepted t id, .refused t id] ∨
      ∃ time, events = [.accepted t id, .completed t id time]

def Recorded (s : System) : Prop := ∀ t, (s.call t).Recorded t (s.log.filter (ofCall t))

section Recorded

variable {cfg : Config} {s s' : System}

theorem Recorded.keep (h : Recorded s) {events : List Event} (hcall : s'.call = s.call)
    (hlog : s'.log = s.log ++ events) (hevents : ∀ u, events.filter (ofCall u) = []) :
    Recorded s' := by
  intro u
  rw [hcall, hlog, filter_append, hevents u, append_nil]
  exact h u

variable {t : ℕ}

variable (h : Recorded s)
include h

theorem Recorded.move {phase : CallPhase} {events : List Event}
    (hcall : s'.call = update s.call t phase) (hlog : s'.log = s.log ++ events)
    (hevents : ∀ u, u ≠ t → events.filter (ofCall u) = [])
    (hself : phase.Recorded t (s.log.filter (ofCall t) ++ events.filter (ofCall t))) :
    Recorded s' := by
  intro u
  rw [hcall, hlog, filter_append]
  by_cases hut : u = t
  · rw [hut, update_self]
    exact hself
  · rw [update_of_ne hut, hevents u hut, append_nil]
    exact h u

theorem Recorded.quiet {old phase : CallPhase} {events : List Event} (hold : s.call t = old)
    (hcall : s'.call = update s.call t phase) (hlog : s'.log = s.log ++ events)
    (hevents : ∀ u, events.filter (ofCall u) = [])
    (hself : ∀ own, old.Recorded t own → phase.Recorded t own) : Recorded s' := by
  refine h.move hcall hlog (fun u _ => hevents u) ?_
  rw [hevents, append_nil]
  exact hself _ (hold ▸ h t)

theorem Recorded.beginCall {id : MessageID} {deadline : ℕ}
    (hcall : s.call t = .checked id deadline) :
    Recorded (s.beginCall t id deadline) := by
  have hself := h t
  rw [hcall] at hself
  have hnone : s.log.filter (ofCall t) = [] := hself
  unfold System.beginCall
  split
  · refine h.move rfl rfl (fun u _ => ?_) (.inl ?_)
    · split_ifs <;> rfl
    · rw [hnone]
      split_ifs <;> rfl
  · refine h.move rfl rfl (fun u hu => ?_) ?_
    · simp [ofCall, hu.symm]
    · rw [hnone]
      simp [ofCall, CallPhase.Recorded]

theorem Recorded.end {id : MessageID} {result : Result} {ev : Event}
    (hself : (s.log.filter (ofCall t)) = [.accepted t id])
    (hev : ev = .refused t id ∨ ∃ time, ev = .completed t id time)
    (hcall : s'.call = update s.call t (.returned result)) (hlog : s'.log = s.log ++ [ev]) :
    Recorded s' := by
  refine h.move hcall hlog (fun u hu => ?_) (.inr ⟨id, ?_⟩)
  · rcases hev with rfl | ⟨time, rfl⟩ <;> simp [ofCall, hu.symm]
  · rw [hself]
    rcases hev with rfl | ⟨time, rfl⟩
    · exact .inl (by simp [ofCall])
    · exact .inr ⟨time, by simp [ofCall]⟩

theorem Recorded.step (a : Act) : Recorded (s.step cfg a) := by
  cases a with
  | tick d => exact h.keep rfl (append_nil _).symm fun _ => rfl
  | cancel t => exact h.keep rfl (append_nil _).symm fun _ => rfl
  | invoke t c invalid authorizer =>
    simp only [System.step]
    split
    · next hcall =>
      unfold System.invoke
      split
      · exact h.quiet hcall rfl (append_nil _).symm (fun _ => rfl) fun _ => .inl
      · exact h.quiet hcall rfl (append_nil _).symm (fun _ => rfl) fun _ => id
    · exact h
  | beginCall t =>
    simp only [System.step]
    split
    · next hcall => exact h.beginCall hcall
    · exact h
  | slot t refuse err =>
    simp only [System.step]
    split
    · next hcall =>
      unfold System.slot
      split
      · exact h.quiet hcall rfl rfl (fun _ => rfl) fun _ => id
      · exact h.quiet hcall rfl (append_nil _).symm (fun _ => rfl) fun _ => id
    · exact h
  | endPending t =>
    simp only [System.step]
    split
    · next hcall =>
      have hself := h t
      rw [hcall] at hself
      exact h.end hself (.inl rfl) rfl rfl
    · exact h
  | finish t result =>
    simp only [System.step]
    split
    · exact h.keep rfl rfl fun _ => rfl
    · exact h
  | deliver t =>
    simp only [System.step]
    split
    · next hcall => exact h.quiet hcall rfl rfl (fun _ => rfl) fun _ => id
    · exact h
  | late t =>
    simp only [System.step]
    split
    · split
      · exact h.keep rfl rfl fun _ => rfl
      · exact h
    · exact h
  | release t =>
    simp only [System.step]
    split
    · exact h.keep rfl (append_nil _).symm fun _ => rfl
    · exact h
  | giveUp t err =>
    simp only [System.step]
    split
    · next hcall =>
      split
      · exact h.quiet hcall rfl (append_nil _).symm (fun _ => rfl) fun _ => id
      · exact h
    · exact h
  | complete t delay =>
    simp only [System.step]
    split
    · next hcall =>
      have hself := h t
      rw [hcall] at hself
      exact h.end hself (.inr ⟨_, rfl⟩) rfl rfl
    · exact h

/-- A call holds an identifier exactly while it was accepted and neither refused nor completed. -/
theorem Recorded.holds_iff (t : ℕ) (id : MessageID) :
    (s.call t).holds = some id ↔ .accepted t id ∈ s.log ∧ .refused t id ∉ s.log ∧
      ∀ time, .completed t id time ∉ s.log := by
  have hmem : ∀ ev, ev.ofCall t = true → (ev ∈ s.log ↔ ev ∈ s.log.filter (ofCall t)) :=
    fun ev hev => by rw [mem_filter, and_iff_left hev]
  rw [hmem (.accepted t id) (decide_eq_true rfl), hmem (.refused t id) (decide_eq_true rfl)]
  have hcompleted : (∀ time, .completed t id time ∉ s.log) ↔
      ∀ time, .completed t id time ∉ s.log.filter (ofCall t) :=
    forall_congr' fun time => not_congr (hmem _ (decide_eq_true rfl))
  rw [hcompleted]
  have hself := h t
  cases hcall : s.call t with
  | idle | checked | accepted | refusing | waiting | completing =>
    rw [hcall] at hself
    have hevents : s.log.filter (ofCall t) = _ := hself
    rw [hevents]
    simp [CallPhase.holds, eq_comm]
  | returned result =>
    rw [hcall] at hself
    rcases hself with hevents | ⟨id', hevents | ⟨time, hevents⟩⟩
    · rw [hevents]
      simp [CallPhase.holds]
    · rw [hevents]
      simp only [CallPhase.holds, mem_cons, accepted.injEq, refused.injEq]
      simp
    · rw [hevents]
      simp only [CallPhase.holds, mem_cons, accepted.injEq, completed.injEq]
      simp +contextual

end Recorded

/-! ### Results of executions -/

def Event.ofExecution (t : ℕ) : Event → Bool
  | .started u _ _ | .executed u _ | .toCaller u _ | .toLate u _ => u = t
  | _ => false

/-- What the history holds about the goroutine of a call in a phase. -/
def ExecPhase.Recorded (t : ℕ) (events : List Event) : ExecPhase → Prop
  | .idle => events = []
  | .executing => ∃ id now, events = [.started t id now]
  | .offering r => ∃ id now, events = [.started t id now, .executed t r]
  | .releasing | .ended => ∃ id now r, events = [.started t id now, .executed t r, .toCaller t r] ∨
      events = [.started t id now, .executed t r, .toLate t r]

/-- The goroutine of a call does not exist before it has a slot. -/
def CallPhase.early : CallPhase → Bool
  | .idle | .checked .. | .accepted _ | .refusing .. => true
  | _ => false

def CallPhase.answer : CallPhase → Option Result
  | .completing _ result | .returned result => some result
  | _ => none

def ExecPhase.busy : ExecPhase → Bool
  | .executing | .offering _ => true
  | _ => false

/-- The goroutine of a call: its history, who can still take its result, and that a result which
was handed to the caller is the one the caller has. -/
structure Handed (s : System) (t : ℕ) : Prop where
  early : (s.call t).early = true → s.exec t = .idle
  waited : (s.exec t).busy = true → (∃ id, s.call t = .waiting id) ∨ s.done t = true
  events : (s.exec t).Recorded t (s.log.filter (ofExecution t))
  taken : ∀ r, .toCaller t r ∈ s.log → (s.call t).answer = some r

section Handed

variable {cfg : Config} {s s' : System}
  {events : List Event} {result : Result} {t : ℕ} {p : CallPhase}

theorem Handed.call (h : Handed s t) (hexec : s'.exec t = s.exec t)
    (hlog : s'.log = s.log ++ events) (hevents : events.filter (ofExecution t) = [])
    (hearly : (s'.call t).early = true → (s.call t).early = true)
    (hwaited : (s.exec t).busy = true → (∃ id, s'.call t = .waiting id) ∨ s'.done t = true)
    (hanswer : ∀ r, (s.call t).answer = some r → (s'.call t).answer = some r) : Handed s' t := by
  refine ⟨fun hc => ?_, fun hbusy => ?_, ?_, fun r hr => ?_⟩
  · rw [hexec]
    exact h.early (hearly hc)
  · rw [hexec] at hbusy
    exact hwaited hbusy
  · rw [hexec, hlog, filter_append, hevents, append_nil]
    exact h.events
  · refine hanswer r (h.taken r ?_)
    rw [hlog, mem_append] at hr
    refine hr.resolve_right fun hr => ?_
    have hmem : toCaller t r ∈ events.filter (ofExecution t) :=
      mem_filter.mpr ⟨hr, decide_eq_true rfl⟩
    rw [hevents] at hmem
    cases hmem

theorem Handed.other (h : Handed s t) (hcall : s'.call t = s.call t) (hexec : s'.exec t = s.exec t)
    (hdone : s.done t = true → s'.done t = true) (hlog : s'.log = s.log ++ events)
    (hevents : events.filter (ofExecution t) = []) : Handed s' t := by
  refine h.call hexec hlog hevents (fun hearly => ?_) (fun hbusy => ?_) (fun r hr => ?_)
  · rwa [hcall] at hearly
  · rw [hcall]
    exact (h.waited hbusy).imp_right hdone
  · rwa [hcall]

theorem handed_move (h : ∀ u, Handed s u) (hcall : ∀ u, u ≠ t → s'.call u = s.call u)
    (hexec : ∀ u, u ≠ t → s'.exec u = s.exec u)
    (hdone : ∀ u, u ≠ t → s.done u = true → s'.done u = true) (hlog : s'.log = s.log ++ events)
    (hevents : ∀ u, u ≠ t → events.filter (ofExecution u) = []) (hself : Handed s' t) :
    ∀ u, Handed s' u := by
  intro u
  by_cases hut : u = t
  · rw [hut]
    exact hself
  · exact (h u).other (hcall u hut) (hexec u hut) (hdone u hut) hlog (hevents u hut)

theorem Handed.quiet (h : Handed s t) (hcall : s.call t = p) (hbefore : p.early = true)
    (hexec : s'.exec t = s.exec t) (hlog : s'.log = s.log ++ events)
    (hevents : events.filter (ofExecution t) = []) : Handed s' t := by
  subst hcall
  have hidle := h.early hbefore
  refine h.call hexec hlog hevents (fun _ => hbefore) (fun hbusy => ?_) (fun r hr => ?_)
  · rw [hidle] at hbusy
    cases hbusy
  · cases hcall : s.call t with
    | idle | checked | accepted | refusing | waiting =>
      rw [hcall] at hr
      cases hr
    | completing | returned =>
      rw [hcall] at hbefore
      cases hbefore

theorem done_iff (s : System) (t : ℕ) :
    s.done t = true ↔ s.cancelled t = true ∨ s.deadline t ≤ s.clock := decide_eq_true_iff

theorem done_mono (hcancelled : s.cancelled t = true → s'.cancelled t = true)
    (hdeadline : s'.deadline t = s.deadline t) (hclock : s.clock ≤ s'.clock) (h : s.done t = true) :
    s'.done t = true := by
  rw [done_iff] at h ⊢
  rw [hdeadline]
  exact h.imp hcancelled fun hexpired => Nat.le_trans hexpired hclock

theorem handed_start (h : ∀ u, Handed s u) {id : MessageID} (hcall : s.call t = .accepted id) :
    ∀ u, Handed (s.start t id) u := by
  have hidle : s.exec t = .idle := (h t).early (by rw [hcall]; rfl)
  have hevents := (h t).events
  rw [hidle] at hevents
  have hnone : s.log.filter (ofExecution t) = [] := hevents
  have hcall' : (s.start t id).call t = .waiting id := update_self ..
  have hexec' : (s.start t id).exec t = .executing := update_self ..
  refine handed_move h (t := t) (fun u hu => update_of_ne hu _ _) (fun u hu => update_of_ne hu _ _)
    (fun _ _ hdone => hdone) rfl (fun u hu => by simp [ofExecution, hu.symm]) ?_
  refine ⟨fun hearly => ?_, fun _ => .inl ⟨id, hcall'⟩, ?_, fun r hr => ?_⟩
  · rw [hcall'] at hearly
    cases hearly
  · rw [hexec']
    refine ⟨id, s.clock, ?_⟩
    show (s.log ++ [started t id s.clock]).filter (ofExecution t) = _
    rw [filter_append, hnone]
    simp [ofExecution]
  · -- nothing was handed over before the start
    have hmem : toCaller t r ∈ s.log := by
      have hold : toCaller t r ∈ s.log ++ [.started t id s.clock] := hr
      simpa using hold
    have hfiltered : toCaller t r ∈ s.log.filter (ofExecution t) :=
      mem_filter.mpr ⟨hmem, decide_eq_true rfl⟩
    rw [hnone] at hfiltered
    cases hfiltered

theorem handed_finish (h : ∀ u, Handed s u) (result : Result) (hexec : s.exec t = .executing) :
    ∀ u, Handed ((s.setExec t (.offering result)).record [.executed t result]) u := by
  obtain ⟨id, now, hevents⟩ : ∃ id now, s.log.filter (ofExecution t) = [.started t id now] := by
    have hevents := (h t).events
    rw [hexec] at hevents
    exact hevents
  have hself : update s.exec t (.offering result) t = .offering result := update_self ..
  refine handed_move h (t := t) (fun _ _ => rfl) (fun u hu => update_of_ne hu _ _)
    (fun _ _ hdone => hdone) rfl (fun u hu => by simp [ofExecution, hu.symm]) ?_
  refine ⟨fun hearly => ?_, fun _ => (h t).waited (by rw [hexec]; rfl), ?_, fun r hr => ?_⟩
  · have hidle := (h t).early hearly
    rw [hexec] at hidle
    cases hidle
  · show (update s.exec t (.offering result) t).Recorded t
      ((s.log ++ [executed t result]).filter (ofExecution t))
    rw [hself, filter_append, hevents]
    exact ⟨id, now, by simp [ofExecution]⟩
  · refine (h t).taken r ?_
    have hold : toCaller t r ∈ s.log ++ [.executed t result] := hr
    simpa using hold

theorem Handed.offered (h : Handed s t) (hexec : s.exec t = .offering result) :
    ∃ id now, s.log.filter (ofExecution t) = [.started t id now, .executed t result] := by
  have hevents := h.events
  rw [hexec] at hevents
  exact hevents

variable (h : ∀ u, Handed s u)
include h

theorem handed_deliver (id : MessageID) (hexec : s.exec t = .offering result) :
    ∀ u, Handed (((s.setExec t .releasing).setCall t (.completing id result)).record
      [.toCaller t result]) u := by
  obtain ⟨id', now, hevents⟩ := (h t).offered hexec
  have hcall' : update s.call t (.completing id result) t = .completing id result := update_self ..
  have hexec' : update s.exec t .releasing t = .releasing := update_self ..
  refine handed_move h (t := t) (fun u hu => update_of_ne hu _ _) (fun u hu => update_of_ne hu _ _)
    (fun _ _ hdone => hdone) rfl (fun u hu => by simp [ofExecution, hu.symm]) ?_
  refine ⟨fun hearly => ?_, fun hbusy => ?_, ?_, fun r hr => ?_⟩
  · have hc : (update s.call t (.completing id result) t).early = true := hearly
    rw [hcall'] at hc
    cases hc
  · have hc : (update s.exec t .releasing t).busy = true := hbusy
    rw [hexec'] at hc
    cases hc
  · show (update s.exec t .releasing t).Recorded t
      ((s.log ++ [toCaller t result]).filter (ofExecution t))
    rw [hexec', filter_append, hevents]
    exact ⟨id', now, result, .inl (by simp [ofExecution])⟩
  · show (update s.call t (.completing id result) t).answer = some r
    rw [hcall']
    have hnew : toCaller t r ∈ s.log ++ [.toCaller t result] := hr
    rcases mem_append.mp hnew with hold | hnew
    · have hfiltered : toCaller t r ∈ s.log.filter (ofExecution t) :=
        mem_filter.mpr ⟨hold, decide_eq_true rfl⟩
      rw [hevents] at hfiltered
      simp at hfiltered
    · cases mem_singleton.mp hnew
      rfl

theorem handed_exec (phase : ExecPhase) (events : List Event) (hcall : s'.call = s.call)
    (hexec : s'.exec = update s.exec t phase) (hdone : s'.done = s.done)
    (hlog : s'.log = s.log ++ events)
    (hevents : ∀ u, u ≠ t → events.filter (ofExecution u) = [])
    (hcaller : ∀ r, .toCaller t r ∉ events) (hbefore : s.exec t ≠ .idle)
    (hbusy : phase.busy = false)
    (hself : phase.Recorded t (s.log.filter (ofExecution t) ++ events.filter (ofExecution t))) :
    ∀ u, Handed s' u := by
  refine handed_move h (t := t) (fun u _ => by rw [hcall])
    (fun u hu => by rw [hexec, update_of_ne hu]) (fun u _ hd => by rw [hdone]; exact hd)
      hlog hevents
    ?_
  refine ⟨fun hearly => ?_, fun hc => ?_, ?_, fun r hr => ?_⟩
  · rw [hcall] at hearly
    exact absurd ((h t).early hearly) hbefore
  · rw [hexec, update_self, hbusy] at hc
    cases hc
  · rw [hexec, update_self, hlog, filter_append]
    exact hself
  · rw [hcall]
    rw [hlog] at hr
    exact (h t).taken r ((mem_append.mp hr).resolve_right (hcaller r))

theorem handed_late (hexec : s.exec t = .offering result) :
    ∀ u, Handed ((s.setExec t .releasing).record [.toLate t result]) u := by
  obtain ⟨id, now, hevents⟩ := (h t).offered hexec
  refine handed_exec h (t := t) .releasing [.toLate t result] rfl rfl rfl rfl
    (fun u hu => by simp [ofExecution, hu.symm]) (fun r => by simp) (by rw [hexec]; simp) rfl ?_
  rw [hevents]
  exact ⟨id, now, result, .inr (by simp [ofExecution])⟩

theorem handed_step (a : Act) : ∀ u, Handed (s.step cfg a) u := by
  cases a with
  | tick d =>
    exact fun u => (h u).other rfl rfl (done_mono (fun hc => hc) rfl (Nat.le_add_right _ _))
      (append_nil _).symm rfl
  | cancel t =>
    refine fun u => (h u).other rfl rfl (done_mono (fun hc => ?_) rfl (Nat.le_refl _))
      (append_nil _).symm rfl
    by_cases hut : u = t
    · rw [hut]
      exact update_self ..
    · exact (update_of_ne hut _ _).trans hc
  -- up to the slot a call moves without an execution, so its events stay
  | invoke t c invalid authorizer =>
    simp only [System.step]
    split
    · next hcall =>
      unfold System.invoke
      split <;> exact handed_move h (t := t) (fun u hu => update_of_ne hu _ _) (fun _ _ => rfl)
        (fun _ _ hd => hd) (append_nil _).symm (fun _ _ => rfl)
        ((h t).quiet hcall rfl rfl (append_nil _).symm rfl)
    · exact h
  | beginCall t =>
    simp only [System.step]
    split
    · next hcall =>
      unfold System.beginCall
      split
      · have hevents : ∀ (b : Bool) id u, (if b = true then [presented t id] else []).filter
            (ofExecution u) = [] := by
          intro b id u
          split_ifs <;> rfl
        exact handed_move h (t := t) (fun u hu => update_of_ne hu _ _) (fun _ _ => rfl)
          (fun _ _ hd => hd) rfl (fun u _ => hevents _ _ u)
            ((h t).quiet hcall rfl rfl rfl (hevents _ _ t))
      · exact handed_move h (t := t) (fun u hu => update_of_ne hu _ _) (fun _ _ => rfl)
          (fun u hu => done_mono (fun hc => hc) (update_of_ne hu _ _) (Nat.le_refl _)) rfl
          (fun _ _ => rfl) ((h t).quiet hcall rfl rfl rfl rfl)
    · exact h
  | slot t refuse err =>
    simp only [System.step]
    split
    · next hcall =>
      unfold System.slot
      split
      · exact handed_start h hcall
      · exact handed_move h (t := t) (fun u hu => update_of_ne hu _ _) (fun _ _ => rfl)
          (fun _ _ hd => hd) (append_nil _).symm (fun _ _ => rfl)
          ((h t).quiet hcall rfl rfl (append_nil _).symm rfl)
    · exact h
  | endPending t =>
    simp only [System.step]
    split
    · next hcall =>
      exact handed_move h (t := t) (fun u hu => update_of_ne hu _ _) (fun _ _ => rfl)
        (fun _ _ hd => hd) rfl (fun _ _ => rfl) ((h t).quiet hcall rfl rfl rfl rfl)
    · exact h
  -- the execution of a call: it may end after the call has given up
  | finish t result =>
    simp only [System.step]
    split
    · next hexec => exact handed_finish h result hexec
    · exact h
  | deliver t =>
    simp only [System.step]
    split
    · next hexec _ => exact handed_deliver h _ hexec
    · exact h
  | late t =>
    simp only [System.step]
    split
    · next hexec =>
      split
      · exact handed_late h hexec
      · exact h
    · exact h
  | release t =>
    simp only [System.step]
    split
    · next hexec =>
      have hevents := (h t).events
      rw [hexec] at hevents
      refine handed_exec h (t := t) .ended [] rfl rfl rfl
        (append_nil _).symm (fun _ _ => rfl) (fun _ => not_mem_nil) (by rw [hexec]; simp)
        rfl ?_
      rw [filter_nil, append_nil]
      exact hevents
    · exact h
  -- a call gives up only when its context is done, which `waited` then records
  | giveUp t err =>
    simp only [System.step]
    split
    · next id hcall =>
      split
      · next hdone =>
        have hcall' : update s.call t (.completing id (resultForContext err)) t =
            .completing id (resultForContext err) := update_self ..
        refine handed_move h (t := t) (fun u hu => update_of_ne hu _ _) (fun _ _ => rfl)
          (fun _ _ hd => hd) (append_nil _).symm (fun _ _ => rfl)
          ((h t).call rfl (append_nil _).symm rfl (fun hearly => ?_) (fun _ => .inr hdone)
            (fun r hr => ?_))
        · have hc : (update s.call t (.completing id (resultForContext err)) t).early =
            true := hearly
          rw [hcall'] at hc
          cases hc
        · rw [hcall] at hr
          cases hr
      · exact h
    · exact h
  | complete t delay =>
    simp only [System.step]
    split
    · next id result hcall =>
      have hcall' : update s.call t (.returned result) t = .returned result := update_self ..
      refine handed_move h (t := t) (fun u hu => update_of_ne hu _ _) (fun _ _ => rfl)
        (fun _ _ => done_mono (fun hc => hc) rfl (Nat.le_add_right _ _)) rfl (fun _ _ => rfl)
        ((h t).call rfl rfl rfl (fun hearly => ?_) (fun hbusy => ?_) (fun r hr => ?_))
      · have hc : (update s.call t (.returned result) t).early = true := hearly
        rw [hcall'] at hc
        cases hc
      · refine .inr (((h t).waited hbusy).elim (fun hwaiting => ?_)
          (done_mono (fun hc => hc) rfl (Nat.le_add_right _ _)))
        obtain ⟨id', hwaiting⟩ := hwaiting
        rw [hcall] at hwaiting
        cases hwaiting
      · rw [hcall] at hr
        show (update s.call t (.returned result) t).answer = some r
        rw [hcall']
        exact hr
    · exact h

end Handed

/-! ### The guarantees -/

/-- **A command runs at most once inside the window.**  In every run from the empty dispatcher:
between two starts of one identifier the first was completed, and since then `dedupTTL` has
passed or `maxDedup` other identifiers were completed or presented again; the map and the list
of the cache hold the same identifiers, once each and at most `maxDedup`; an identifier is
pending exactly while its call was accepted and neither refused nor completed; and a result goes
to the caller or to the late path, once, and as long as it was not handed over one of the two
can take it. -/
theorem runs_once_in_window (cfg : Config) (as : List Act) :
    (∀ pre t₁ id n₁ mid t₂ n₂ post, (System.run cfg as).log =
        pre ++ .started t₁ id n₁ :: (mid ++ .started t₂ id n₂ :: post) →
      ∃ l₁ time l₂, mid = l₁ ++ .completed t₁ id time :: l₂ ∧
        (time + cfg.dedupTTL ≤ n₂ ∨ cfg.maxDedup ≤ ((touched l₂).erase id).card)) ∧
    (((System.run cfg as).dispatcher.cacheLRU.map CacheRecord.id).Nodup ∧
      (∀ id : MessageID, (System.run cfg as).dispatcher.cache.contains id = true ↔
        id ∈ (System.run cfg as).dispatcher.cacheLRU.map CacheRecord.id) ∧
      (System.run cfg as).dispatcher.cache.size = (System.run cfg as).dispatcher.cacheLRU.length ∧
      (System.run cfg as).dispatcher.cache.size ≤ cfg.maxDedup) ∧
    (∀ id, id ∈ (System.run cfg as).dispatcher.pending ↔
      ∃ t, .accepted t id ∈ (System.run cfg as).log ∧ .refused t id ∉ (System.run cfg as).log ∧
        ∀ time, .completed t id time ∉ (System.run cfg as).log) ∧
    ∀ t, Handed (System.run cfg as) t := by
  obtain ⟨hkept, hsize⟩ : Kept cfg (System.run cfg as) ∧
      (System.run cfg as).dispatcher.cache.size ≤ cfg.maxDedup :=
    foldl_invariant (I := fun s => Kept cfg s ∧ s.dispatcher.cache.size ≤ cfg.maxDedup)
      (fun s a h => ⟨h.1.step a, h.1.size_step h.2 a⟩) ⟨kept_start cfg, Nat.zero_le _⟩ as
  have hrecorded : Recorded (System.run cfg as) :=
    foldl_invariant (I := Recorded) (s := {}) (fun _ a h => h.step a) (fun _ => rfl) as
  have hhanded : ∀ t, Handed (System.run cfg as) t := by
    refine foldl_invariant (I := fun s => ∀ t, Handed s t) (fun s a h => handed_step h a) ?_ as
    refine fun t => ⟨fun _ => rfl, fun hbusy => ?_, rfl, fun r hr => ?_⟩
    · cases hbusy
    · cases hr
  refine ⟨?_, ⟨hkept.agree.nodup, hkept.agree.mem_iff, hkept.agree.size, hsize⟩, fun id => ?_,
    hhanded⟩
  · intro pre t₁ id n₁ mid t₂ n₂ post hlog
    have hreopens := hkept.log (pre ++ .started t₁ id n₁ :: mid) (.started t₂ id n₂) post
      (by rw [hlog]; simp)
    exact hreopens pre t₁ n₁ mid rfl
  · rw [hkept.holding.pending id]
    exact exists_congr fun t => hrecorded.holds_iff t id

end Command
