/-
Runs of a machine given by a step function.

A machine is a step function `step : σ → α → σ` on a state type; a run is the
list of labels it takes, and the state reached is a left fold.  `Along step good`
says that every step of a run meets a condition on the state before it and its
label.  The three rules below are all the run proofs need:

* `foldl_along` — an invariant kept by the steps that meet the condition holds
  after every run whose steps all meet it;
* `along_append` — the condition along a run splits at any point;
* `exists_first_of_not_along` — a run that breaks the condition has a first step
  that breaks it.
-/
import Mathlib

open List

namespace Runs

variable {σ α : Type*} {step : σ → α → σ} {good good' : σ → α → Prop}

/-- Every step of the run `as` from `s` meets `good` in the state before it. -/
def Along (step : σ → α → σ) (good : σ → α → Prop) : σ → List α → Prop
  | _, [] => True
  | s, a :: as => good s a ∧ Along step good (step s a) as

@[simp] theorem along_nil (s : σ) : Along step good s [] := trivial

@[simp] theorem along_cons (s : σ) (a : α) (as : List α) :
    Along step good s (a :: as) ↔ good s a ∧ Along step good (step s a) as := Iff.rfl

instance decidableAlong [∀ s, DecidablePred (good s)] (s : σ) :
    ∀ as : List α, Decidable (Along step good s as)
  | [] => inferInstanceAs (Decidable True)
  | a :: as =>
    have := decidableAlong (step s a) as
    inferInstanceAs (Decidable (_ ∧ _))

theorem along_append {s : σ} {as bs : List α} :
    Along step good s (as ++ bs) ↔
      Along step good s as ∧ Along step good (as.foldl step s) bs := by
  induction as generalizing s with
  | nil => simp
  | cons a as ih => simp [ih, and_assoc]

theorem Along.and {s : σ} {as : List α} (h : Along step good s as) (h' : Along step good' s as) :
    Along step (fun s a => good s a ∧ good' s a) s as := by
  induction as generalizing s with
  | nil => trivial
  | cons a as ih => exact ⟨⟨h.1, h'.1⟩, ih h.2 h'.2⟩

theorem along_of_forall {s : σ} {as : List α} (h : ∀ a ∈ as, ∀ s, good s a) :
    Along step good s as := by
  induction as generalizing s with
  | nil => trivial
  | cons a as ih =>
    exact ⟨h a mem_cons_self s, ih fun b hb => h b (mem_cons_of_mem a hb)⟩

/-- **The invariant rule.**  What every admissible step keeps holds at the end of
every admissible run. -/
theorem foldl_along {I : σ → Prop} (hstep : ∀ s a, I s → good s a → I (step s a)) :
    ∀ {s : σ} {as : List α}, I s → Along step good s as → I (as.foldl step s) := by
  intro s as
  induction as generalizing s with
  | nil => exact fun h _ => h
  | cons a as ih => exact fun h hg => ih (hstep s a h hg.1) hg.2

theorem foldl_invariant {I : σ → Prop} (hstep : ∀ s a, I s → I (step s a)) {s : σ} (h : I s)
    (as : List α) : I (as.foldl step s) := by
  induction as generalizing s with
  | nil => exact h
  | cons a as ih => exact ih (hstep s a h)

theorem exists_first_of_not_along {s : σ} {as : List α} (h : ¬ Along step good s as) :
    ∃ pre a post, as = pre ++ a :: post ∧ Along step good s pre ∧
      ¬ good (pre.foldl step s) a := by
  induction as generalizing s with
  | nil => exact absurd trivial h
  | cons a as ih =>
    by_cases ha : good s a
    · obtain ⟨pre, b, post, rfl, hpre, hb⟩ := ih (s := step s a) fun hc => h ⟨ha, hc⟩
      exact ⟨a :: pre, b, post, rfl, ⟨ha, hpre⟩, hb⟩
    · exact ⟨[], a, as, rfl, trivial, ha⟩

/-! ### Logs -/

/-- Every entry of a log was justified by the entries before it. -/
def Justified (just : List α → α → Prop) (log : List α) : Prop :=
  ∀ pre x post, log = pre ++ x :: post → just pre x

theorem justified_nil (just : List α → α → Prop) : Justified just [] := by
  intro pre x post h
  simp at h

section

variable {just : List α → α → Prop}

theorem Justified.concat {log : List α} {a : α} (h : Justified just log) (ha : just log a) :
    Justified just (log ++ [a]) := by
  intro pre x post heq
  rcases eq_nil_or_concat post with rfl | ⟨post', y, rfl⟩
  · obtain ⟨rfl, hx⟩ := append_inj' heq rfl
    obtain rfl := singleton_inj.mp hx
    exact ha
  · have hassoc : log ++ [a] = (pre ++ x :: post') ++ [y] := by
      rw [heq]
      simp
    exact h pre x post' (append_inj' hassoc rfl).1

/-- Several new entries, when what justifies an entry stays true of a longer log. -/
theorem Justified.append {log new : List α}
    (hmono : ∀ {log : List α} {x : α}, just log x → ∀ log', just (log ++ log') x)
    (h : Justified just log) (hnew : ∀ x ∈ new, just log x) : Justified just (log ++ new) := by
  induction new generalizing log with
  | nil => rwa [append_nil]
  | cons x new ih =>
    have hfirst := h.concat (hnew x mem_cons_self)
    have hrest := ih hfirst fun y hy => hmono (hnew y (mem_cons_of_mem x hy)) [x]
    rwa [append_assoc] at hrest

theorem Justified.of_append {log log' : List α} (h : Justified just (log ++ log')) :
    Justified just log := by
  rintro pre x post rfl
  exact h pre x (post ++ log') (by simp)

end

/-- What came after each entry of a log settles it. -/
def Settled (settles : α → List α → Prop) (log : List α) : Prop :=
  ∀ pre x post, log = pre ++ x :: post → settles x post

theorem settled_nil (settles : α → List α → Prop) : Settled settles [] := by
  intro pre x post h
  simp at h

theorem Settled.imp {settles settles' : α → List α → Prop} {log : List α}
    (h : Settled settles log) (himp : ∀ x post, settles x post → settles' x post) :
    Settled settles' log :=
  fun pre x post heq => himp x post (h pre x post heq)

/-- One new entry: the old ones have to be settled with it, and it with nothing. -/
theorem Settled.concat {settles settles' : α → List α → Prop} {log : List α} {a : α}
    (h : Settled settles log) (hold : ∀ x post, settles x post → settles' x (post ++ [a]))
    (hnew : settles' a []) : Settled settles' (log ++ [a]) := by
  intro pre x post heq
  rcases eq_nil_or_concat post with rfl | ⟨post', y, rfl⟩
  · obtain ⟨-, hx⟩ := append_inj' heq rfl
    obtain rfl := singleton_inj.mp hx
    exact hnew
  · have hassoc : log ++ [a] = (pre ++ x :: post') ++ [y] := by
      rw [heq]
      simp
    obtain ⟨hlog, hy⟩ := append_inj' hassoc rfl
    obtain rfl := singleton_inj.mp hy
    rw [concat_eq_append]
    exact hold x post' (h pre x post' hlog)

/-- The invariant rule for a loop that may fail; the invariant may count the rounds. -/
theorem foldlM_invariant {ε γ : Type*} {f : σ → γ → Except ε σ} {I : ℕ → σ → Prop} {n : ℕ}
    {s s' : σ} {items : List γ} (hstep : ∀ n s c s', I n s → f s c = .ok s' → I (n + 1) s')
    (h : I n s) (hrun : items.foldlM f s = .ok s') : I (n + items.length) s' := by
  induction items generalizing n s with
  | nil =>
    cases hrun
    exact h
  | cons c items ih =>
    rw [foldlM_cons] at hrun
    cases hc : f s c with
    | error err =>
      rw [hc] at hrun
      cases hrun
    | ok u =>
      rw [hc] at hrun
      have hlast := ih (hstep n s c u h hc) hrun
      rw [length_cons]
      convert hlast using 1
      omega

/-! ### Threads -/

/-- When one thread moves, a property of all threads has to be shown of its new phase,
and of the others in the new state. -/
theorem forall_update {φ : Type*} {L : ℕ → φ → Prop} {phase : ℕ → φ} {t : ℕ} {p : φ}
    (hself : L t p) (hothers : ∀ u, u ≠ t → L u (phase u)) :
    ∀ u, L u (Function.update phase t p u) := by
  intro u
  by_cases hu : u = t
  · rw [hu, Function.update_self]
    exact hself
  · rw [Function.update_of_ne hu]
    exact hothers u hu

end Runs
