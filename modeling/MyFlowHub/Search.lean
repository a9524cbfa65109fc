/-
Binary search for the first index at which a predicate holds.

`search n f` is the loop of Go's `sort.Search`: it halves an interval and keeps the
predicate false below it and true above it.  On a predicate that stays true once it
is true the result is the boundary.

* `search_spec` — the boundary;
* `search_mem_iff` — looking an element up in a sorted list.
-/
import Mathlib

namespace Search

/-- The loop on the interval from `i` to `j`; the fuel bounds its length. -/
def searchLoop (f : ℕ → Bool) : ℕ → ℕ → ℕ → ℕ
  | 0, i, _ => i
  | fuel + 1, i, j =>
    if i < j then
      let h := (i + j) / 2
      if f h = false then searchLoop f fuel (h + 1) j else searchLoop f fuel i h
    else i

/-- `sort.Search`. -/
def search (n : ℕ) (f : ℕ → Bool) : ℕ := searchLoop f n 0 n

/-- The predicate is false below the interval and true from its end on. -/
structure Brackets (f : ℕ → Bool) (n i j : ℕ) : Prop where
  le : i ≤ j
  bound : j ≤ n
  below : ∀ k, k < i → f k = false
  above : ∀ k, j ≤ k → k < n → f k = true

def Stays (f : ℕ → Bool) (n : ℕ) : Prop := ∀ i j, i ≤ j → j < n → f i = true → f j = true

theorem searchLoop_spec {f : ℕ → Bool} {n fuel i j : ℕ} (hstays : Stays f n)
    (h : Brackets f n i j) (hfuel : j - i ≤ fuel) :
    Brackets f n (searchLoop f fuel i j) (searchLoop f fuel i j) := by
  induction fuel generalizing i j with
  | zero =>
    have heq : j = i := by
      have := h.le
      omega
    subst heq
    exact h
  | succ fuel ih =>
    rw [searchLoop]
    by_cases hlt : i < j
    · rw [if_pos hlt]
      -- the middle is inside the interval
      have hmid : i ≤ (i + j) / 2 ∧ (i + j) / 2 < j := by omega
      have hbound := h.bound
      by_cases hf : f ((i + j) / 2) = false
      · simp only [hf, if_true]
        refine ih ⟨by omega, h.bound, fun k hk => ?_, h.above⟩ (by omega)
        -- were it true at `k`, it would be true in the middle
        by_contra htrue
        have := hstays k ((i + j) / 2) (by omega) (by omega) (Bool.eq_true_of_not_eq_false htrue)
        rw [hf] at this
        cases this
      · have htrue := Bool.eq_true_of_not_eq_false hf
        simp only [htrue, Bool.true_eq_false, if_false]
        refine ih ⟨hmid.1, by omega, h.below, fun k hk hn => ?_⟩ (by omega)
        exact hstays _ k hk hn htrue
    · rw [if_neg hlt]
      have heq : j = i := by
        have := h.le
        omega
      subst heq
      exact h

/-- **The boundary.** -/
theorem search_spec {f : ℕ → Bool} {n : ℕ} (hstays : Stays f n) :
    Brackets f n (search n f) (search n f) := by
  refine searchLoop_spec hstays ⟨Nat.zero_le n, le_refl n, fun k hk => ?_, fun k hk hn => ?_⟩ ?_
  · omega
  · omega
  · omega

/-- **Looking up an element of a sorted list.** -/
theorem search_mem_iff {α : Type*} [LinearOrder α] {values : List α} (hsorted : values.SortedLE)
    (x : α) :
    values[search values.length fun i => values[i]?.any fun v => decide (x ≤ v)]? = some x ↔
      x ∈ values := by
  have hget : ∀ i (hi : i < values.length),
      (values[i]?.any fun v => decide (x ≤ v)) = true ↔ x ≤ values[i] := by
    intro i hi
    simp [List.getElem?_eq_getElem hi]
  have hstays : Stays (fun i => values[i]?.any fun v => decide (x ≤ v)) values.length := by
    intro i j hij hj hi
    dsimp only at hi ⊢
    rw [hget i (by omega)] at hi
    rw [hget j hj]
    exact hi.trans (hsorted.getElem_le_getElem_of_le hij)
  have hspec := search_spec hstays
  generalize search values.length (fun i => values[i]?.any fun v => decide (x ≤ v)) = s at hspec ⊢
  constructor
  · exact List.mem_of_getElem?
  · intro hmem
    obtain ⟨k, hk, hx⟩ := List.getElem_of_mem hmem
    -- the boundary is not after an index that holds the element
    have hle : s ≤ k := by
      by_contra hlt
      have hfalse := hspec.below k (by omega)
      have htrue := (hget k hk).mpr hx.ge
      rw [hfalse] at htrue
      cases htrue
    have hs : s < values.length := by omega
    have hlow : x ≤ values[s] := (hget s hs).mp (hspec.above s (le_refl s) hs)
    have hhigh : values[s] ≤ x := hx ▸ hsorted.getElem_le_getElem_of_le hle
    rw [List.getElem?_eq_getElem hs, le_antisymm hhigh hlow]

end Search
