/-
Lists of intervals laid end to end.

Each entry of a list accounts for the numbers from `lo x` to `hi x`.  `Tiles lo hi
a l b` says that the entries of `l`, in order, account for `a, …, b - 1` without
hole or overlap.  The consequences are the ones a delivery guarantee asks for:

* `Tiles.existsUnique` — every number in range is accounted for by exactly one
  entry;
* `Tiles.pairwise` — the numbers increase along the list;
* `not_overtaken` — in such a list nothing is accounted for after something
  larger.  `Overtaken` is the way a tiling breaks for good: it survives every
  later extension of the list.
-/
import Mathlib

open List

namespace Tiling

variable {α : Type*} {lo hi : α → ℕ}

/-- The entries of the list account for `a, …, b - 1`, in order and once each. -/
def Tiles (lo hi : α → ℕ) : ℕ → List α → ℕ → Prop
  | a, [], b => a = b
  | a, x :: l, b => lo x = a ∧ lo x ≤ hi x ∧ Tiles lo hi (hi x + 1) l b

variable {l m : List α} {x : α} {a b n : ℕ}

@[simp] theorem tiles_nil : Tiles lo hi a [] b ↔ a = b := Iff.rfl

@[simp] theorem tiles_cons :
    Tiles lo hi a (x :: l) b ↔ lo x = a ∧ lo x ≤ hi x ∧ Tiles lo hi (hi x + 1) l b := Iff.rfl

theorem tiles_append {c : ℕ} :
    Tiles lo hi a (l ++ m) c ↔ ∃ b, Tiles lo hi a l b ∧ Tiles lo hi b m c := by
  induction l generalizing a with
  | nil => simp
  | cons x l ih => simp [ih, and_assoc]

section

variable (h : Tiles lo hi a l b)
include h

theorem Tiles.le : a ≤ b := by
  induction l generalizing a with
  | nil => exact le_of_eq h
  | cons x l ih =>
    obtain ⟨hlo, hle, hl⟩ := h
    have := ih hl
    omega

theorem Tiles.bounds (hx : x ∈ l) : a ≤ lo x ∧ lo x ≤ hi x ∧ hi x < b := by
  induction l generalizing a with
  | nil => simp at hx
  | cons y l ih =>
    obtain ⟨hlo, hle, hl⟩ := h
    rcases mem_cons.mp hx with rfl | hx
    · have := hl.le
      omega
    · have := ih hl hx
      omega

theorem Tiles.pairwise : l.Pairwise fun x y => hi x < lo y := by
  induction l generalizing a with
  | nil => exact List.Pairwise.nil
  | cons x l ih =>
    obtain ⟨-, -, hl⟩ := h
    refine pairwise_cons.mpr ⟨fun y hy => ?_, ih hl⟩
    have := (hl.bounds hy).1
    omega

theorem Tiles.exists_mem (han : a ≤ n) (hnb : n < b) : ∃ x ∈ l, lo x ≤ n ∧ n ≤ hi x := by
  induction l generalizing a with
  | nil =>
    have : a = b := h
    omega
  | cons x l ih =>
    obtain ⟨hlo, hle, hl⟩ := h
    by_cases hn : n ≤ hi x
    · exact ⟨x, mem_cons_self, by omega, hn⟩
    · obtain ⟨y, hy, hyn⟩ := ih hl (by omega)
      exact ⟨y, mem_cons_of_mem x hy, hyn⟩

/-- **Exactly once.**  Every number in range belongs to exactly one position. -/
theorem Tiles.existsUnique (han : a ≤ n) (hnb : n < b) :
    ∃! i : Fin l.length, lo (l.get i) ≤ n ∧ n ≤ hi (l.get i) := by
  obtain ⟨x, hx, hxn⟩ := h.exists_mem han hnb
  obtain ⟨i, rfl⟩ := get_of_mem hx
  have hpair := pairwise_iff_get.mp h.pairwise
  refine ⟨i, hxn, fun j hj => ?_⟩
  rcases lt_trichotomy j i with hji | rfl | hij
  · have := hpair j i hji
    omega
  · rfl
  · have := hpair i j hij
    omega

end

/-- Whatever accounts for `n` comes after something above `n`. -/
def Overtaken (lo hi : α → ℕ) (n : ℕ) (l : List α) : Prop :=
  ∀ pre x post, l = pre ++ x :: post → lo x ≤ n → n ≤ hi x → ∃ y ∈ pre, n < lo y

theorem not_overtaken (hpair : l.Pairwise fun x y => hi x < lo y) (hx : x ∈ l) (hlo : lo x ≤ n)
    (hhi : n ≤ hi x) (hle : ∀ y ∈ l, lo y ≤ hi y) : ¬ Overtaken lo hi n l := by
  -- a list in increasing order that accounts for `n` has not been overtaken
  intro hover
  obtain ⟨pre, post, rfl⟩ := append_of_mem hx
  obtain ⟨y, hy, hny⟩ := hover pre x post rfl hlo hhi
  have hyx := (pairwise_append.mp hpair).2.2 y hy x mem_cons_self
  have := hle y (mem_append_left _ hy)
  omega

theorem Overtaken.append (h : Overtaken lo hi n l) (hm : ∀ x ∈ m, n < lo x) :
    Overtaken lo hi n (l ++ m) := by
  -- entries above `n` at the end of the list change nothing for `n`
  intro pre x post heq hlo hhi
  rcases append_eq_append_iff.mp heq with ⟨as, rfl, hmas⟩ | ⟨bs, rfl, hbs⟩
  · have := hm x (hmas ▸ mem_append_right as mem_cons_self)
    omega
  · rcases cons_eq_append_iff.mp hbs with ⟨-, hxm⟩ | ⟨bs', rfl, -⟩
    · have := hm x (hxm ▸ mem_cons_self)
      omega
    · exact h pre x bs' rfl hlo hhi

theorem Overtaken.of_append (h : Overtaken lo hi n (l ++ m)) : Overtaken lo hi n l := by
  intro pre x post heq
  exact h pre x (post ++ m) (by rw [heq]; simp)

theorem overtaken_concat :
    Overtaken lo hi n (l ++ [x]) ↔
      Overtaken lo hi n l ∧ (lo x ≤ n → n ≤ hi x → ∃ y ∈ l, n < lo y) := by
  constructor
  · intro h
    exact ⟨h.of_append, h l x [] rfl⟩
  · rintro ⟨hl, hx⟩ pre y post heq hlo hhi
    rcases eq_nil_or_concat post with rfl | ⟨post', z, rfl⟩
    · obtain ⟨rfl, hxy⟩ := append_inj' heq rfl
      obtain rfl : x = y := by simpa using hxy
      exact hx hlo hhi
    · have hcat : l ++ [x] = (pre ++ y :: post') ++ [z] := by rw [heq]; simp
      exact hl pre y post' (append_inj' hcat rfl).1 hlo hhi

theorem Overtaken.erase {z : α} (h : Overtaken lo hi n (l ++ z :: m))
    (hz : ∀ x ∈ m, lo x ≤ n → n ≤ hi x → lo z ≤ n) : Overtaken lo hi n (l ++ m) := by
  intro pre x post heq hlo hhi
  rcases append_eq_append_iff.mp heq with ⟨as, rfl, rfl⟩ | ⟨bs, rfl, hbs⟩
  · obtain ⟨y, hy, hny⟩ := h (l ++ z :: as) x post (by simp) hlo hhi
    rcases mem_append.mp hy with hy | hy
    · exact ⟨y, mem_append_left as hy, hny⟩
    · rcases mem_cons.mp hy with rfl | hy
      · have := hz x (mem_append_right as mem_cons_self) hlo hhi
        omega
      · exact ⟨y, mem_append_right l hy, hny⟩
  · rcases cons_eq_append_iff.mp hbs with ⟨rfl, rfl⟩ | ⟨bs', rfl, -⟩
    · obtain ⟨y, hy, hny⟩ := h (pre ++ [] ++ [z]) x post (by simp) hlo hhi
      rcases mem_append.mp hy with hy | hy
      · exact ⟨y, by simpa using hy, hny⟩
      · obtain rfl : y = z := by simpa using hy
        have := hz x mem_cons_self hlo hhi
        omega
    · exact h pre x (bs' ++ z :: m) (by simp) hlo hhi

theorem overtaken_of_forall (h : ∀ x ∈ l, ¬ (lo x ≤ n ∧ n ≤ hi x)) : Overtaken lo hi n l := by
  intro pre x post heq hlo hhi
  exact absurd ⟨hlo, hhi⟩ (h x (heq ▸ mem_append_right pre mem_cons_self))

end Tiling
