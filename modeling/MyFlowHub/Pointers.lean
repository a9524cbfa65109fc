/-
Walks along a pointer function.

Every node of a type has at most one pointer, `f : α → Option α`.  `Leads f a b`
says that the walk from `a` meets `b`; `Ends f a` that it stops after finitely
many steps; `Acyclic f` that no walk returns to where it started.

* `Ends.update` — pointing `d` at `p` keeps every walk finite when the walk from
  `p` does not meet `d`;
* `not_ends_update` — and makes the walk from `d` endless when it does;
* `Acyclic.update` — the same for acyclicity, without a bound on the walks;
* `Acyclic.nodup_trail` — without cycles no node is visited twice.
-/
import Mathlib

open Relation

namespace Pointers

variable {α : Type*} {f g : α → Option α}

def Points (f : α → Option α) (a b : α) : Prop := f a = some b

/-- The walk from `a` meets `b`. -/
def Leads (f : α → Option α) : α → α → Prop := ReflTransGen (Points f)

/-- The walk from `a` stops. -/
inductive Ends (f : α → Option α) : α → Prop
  | stop {a : α} (h : f a = none) : Ends f a
  | step {a b : α} (h : f a = some b) (hb : Ends f b) : Ends f a

def Acyclic (f : α → Option α) : Prop := ∀ a, ¬ TransGen (Points f) a a

theorem leads_iff {a b : α} : Leads f a b ↔ a = b ∨ ∃ c, f a = some c ∧ Leads f c b := by
  constructor
  · intro h
    rcases ReflTransGen.cases_head h with rfl | ⟨c, hac, hcb⟩
    · exact .inl rfl
    · exact .inr ⟨c, hac, hcb⟩
  · rintro (rfl | ⟨c, hac, hcb⟩)
    · exact ReflTransGen.refl
    · exact ReflTransGen.head hac hcb

theorem not_leads_of_none {a b : α} (h : f a = none) (hne : a ≠ b) : ¬ Leads f a b := by
  rw [leads_iff]
  rintro (hab | ⟨c, hc, -⟩)
  · exact hne hab
  · rw [h] at hc
    exact Option.some_ne_none c hc.symm

/-- The nodes of the walk from `a`, if it stops within the fuel. -/
def walk (f : α → Option α) : ℕ → α → Option (List α)
  | 0, _ => none
  | fuel + 1, a =>
    match f a with
    | none => some [a]
    | some b => (walk f fuel b).map (a :: ·)

theorem leads_iff_mem_walk {fuel : ℕ} {a : α} {l : List α} (h : walk f fuel a = some l) {b : α} :
    Leads f a b ↔ b ∈ l := by
  induction fuel generalizing a l with
  | zero => cases h
  | succ fuel ih =>
    rw [walk] at h
    rw [leads_iff]
    cases hfa : f a with
    | none =>
      rw [hfa] at h
      cases h
      simp [eq_comm]
    | some c =>
      rw [hfa] at h
      obtain ⟨m, hm, rfl⟩ := Option.map_eq_some_iff.mp h
      simp [ih hm, eq_comm]

theorem not_leads_of_walk {a b : α} (fuel : ℕ) (l : List α) (h : walk f fuel a = some l)
    (hb : b ∉ l) : ¬ Leads f a b := by
  rwa [leads_iff_mem_walk h]

theorem not_ends_of_cycle {a : α} (h : TransGen (Points f) a a) : ¬ Ends f a := by
  intro hends
  induction hends with
  | stop hnone =>
    obtain ⟨b, hab, -⟩ := TransGen.head'_iff.mp h
    rw [Points, hnone] at hab
    exact Option.some_ne_none b hab.symm
  | @step a b hab _ ih =>
    obtain ⟨c, hac, hca⟩ := TransGen.head'_iff.mp h
    obtain rfl : b = c := Option.mem_unique hab hac
    -- the cycle through `a` is also one through its successor
    exact ih (TransGen.tail' hca hab)

theorem cycle_of_leads {a b : α} (h : Leads f a b) (ha : TransGen (Points f) a a) :
    TransGen (Points f) b b := by
  induction h using ReflTransGen.head_induction_on with
  | refl => exact ha
  | @head a c hac _ ih =>
    obtain ⟨c', hac', hca⟩ := TransGen.head'_iff.mp ha
    obtain rfl : c = c' := Option.mem_unique hac hac'
    exact ih (TransGen.tail' hca hac)

def trail (f : α → Option α) : ℕ → α → List α
  | 0, a => [a]
  | n + 1, a =>
    match f a with
    | none => [a]
    | some b => a :: trail f n b

theorem leads_of_mem_trail {n : ℕ} {a b : α} (h : b ∈ trail f n a) : Leads f a b := by
  induction n generalizing a with
  | zero => exact leads_iff.mpr (.inl (List.mem_singleton.mp h).symm)
  | succ n ih =>
    rw [trail] at h
    cases hfa : f a with
    | none =>
      rw [hfa] at h
      exact leads_iff.mpr (.inl (List.mem_singleton.mp h).symm)
    | some c =>
      rw [hfa] at h
      rcases List.mem_cons.mp h with rfl | h
      · exact leads_iff.mpr (.inl rfl)
      · exact leads_iff.mpr (.inr ⟨c, hfa, ih h⟩)

theorem Acyclic.nodup_trail (h : Acyclic f) (n : ℕ) (a : α) : (trail f n a).Nodup := by
  induction n generalizing a with
  | zero => exact List.nodup_singleton a
  | succ n ih =>
    rw [trail]
    cases hfa : f a with
    | none => exact List.nodup_singleton a
    | some b =>
      refine List.nodup_cons.mpr ⟨fun hmem => ?_, ih b⟩
      exact h a (TransGen.head' hfa (leads_of_mem_trail hmem))

theorem Acyclic.mono (h : Acyclic f) (hsub : ∀ a b, g a = some b → f a = some b) : Acyclic g :=
  fun a ha => h a (TransGen.mono hsub _ _ ha)

theorem Ends.mono {a : α} (h : Ends f a) (hsub : ∀ a, g a = none ∨ g a = f a) : Ends g a := by
  induction h with
  | @stop a hnone =>
    rcases hsub a with hg | hg
    · exact .stop hg
    · exact .stop (hg.trans hnone)
  | @step a b hab _ ih =>
    rcases hsub a with hg | hg
    · exact .stop hg
    · exact .step (hg.trans hab) ih

section Update

variable {d p : α}

theorem Ends.of_not_leads {a : α} (h : Ends f a) (hd : ¬ Leads f a d)
    (hg : ∀ x, x ≠ d → g x = f x) : Ends g a := by
  -- a walk that never meets `d` does not notice a new pointer at `d`
  induction h with
  | @stop a hnone =>
    have hne : a ≠ d := fun hc => hd (leads_iff.mpr (.inl hc))
    exact .stop ((hg a hne).trans hnone)
  | @step a b hab _ ih =>
    have hne : a ≠ d := fun hc => hd (leads_iff.mpr (.inl hc))
    exact .step ((hg a hne).trans hab) (ih fun hbd => hd (leads_iff.mpr (.inr ⟨b, hab, hbd⟩)))

/-- **A new pointer keeps every walk finite** unless its target leads back. -/
theorem Ends.update (h : ∀ a, Ends f a) (hp : ¬ Leads f p d) (hgd : g d = some p)
    (hg : ∀ x, x ≠ d → g x = f x) (a : α) : Ends g a := by
  have hd : Ends g d := .step hgd ((h p).of_not_leads hp hg)
  induction h a with
  | @stop a hnone =>
    by_cases had : a = d
    · rwa [had]
    · exact .stop ((hg a had).trans hnone)
  | @step a b hab _ ih =>
    by_cases had : a = d
    · rwa [had]
    · exact .step ((hg a had).trans hab) ih

theorem Leads.update {a : α} (h : Leads f a d) (hg : ∀ x, x ≠ d → g x = f x) : Leads g a d := by
  -- the walk up to `d` does not use the pointer of `d`
  induction h using ReflTransGen.head_induction_on with
  | refl => exact ReflTransGen.refl
  | @head a c hac _ ih =>
    by_cases had : a = d
    · rw [had]
      exact ReflTransGen.refl
    · exact ReflTransGen.head ((hg a had).trans hac) ih

/-- **A new pointer whose target leads back makes the walk endless.** -/
theorem not_ends_update (hp : Leads f p d) (hgd : g d = some p)
    (hg : ∀ x, x ≠ d → g x = f x) : ¬ Ends g d :=
  not_ends_of_cycle (TransGen.head' hgd (hp.update hg))

/-- **A new pointer keeps the pointers acyclic** unless its target leads back. -/
theorem Acyclic.update (h : Acyclic f) (hp : ¬ Leads f p d) (hgd : g d = some p)
    (hg : ∀ x, x ≠ d → g x = f x) : Acyclic g := by
  -- until it meets `d`, a walk along `g` is one along `f`
  have hback : ∀ {a b : α}, TransGen (Points g) a b → TransGen (Points f) a b ∨ Leads g a d := by
    intro a b hab
    induction hab using TransGen.head_induction_on with
    | @single a hab =>
      by_cases had : a = d
      · exact .inr (leads_iff.mpr (.inl had))
      · exact .inl (.single ((hg a had).symm.trans hab))
    | @head a c hac _ ih =>
      by_cases had : a = d
      · exact .inr (leads_iff.mpr (.inl had))
      · rcases ih with hcb | hcd
        · exact .inl (.head ((hg a had).symm.trans hac) hcb)
        · exact .inr (ReflTransGen.head hac hcd)
  have hleads : ∀ {a : α}, Leads g a d → Leads f a d := fun ha => ha.update fun x hx =>
    (hg x hx).symm
  intro a ha
  rcases hback ha with hcycle | had
  · exact h a hcycle
  · -- the cycle through `a` passes `d`, so it also returns to `d` through `p`
    obtain ⟨c, hdc, hcd⟩ := TransGen.head'_iff.mp (cycle_of_leads had ha)
    obtain rfl : p = c := Option.mem_unique hgd hdc
    exact hp (hleads hcd)

end Update

end Pointers
