/-
Finite tables with decidable keys.

A Go map is modelled by Mathlib's extensional tree map.  The library states its
lookup lemmas through `cmp k a = .eq`; for a lawful comparison this is equality of
keys, which is the form every proof about a table wants.  Deleting while ranging
over a map is a fold of `erase` over the keys to go, `eraseAll`.
-/
import Mathlib

open Std List

namespace Tables

variable {α β : Type*} {cmp : α → α → Ordering} [TransCmp cmp] [LawfulEqCmp cmp]

/-- The keys whose value passes a test, in key order. -/
def keysWhere (t : ExtTreeMap α β cmp) (p : β → Bool) : List α :=
  (t.toList.filter fun e => p e.2).map Prod.fst

variable {t : ExtTreeMap α β cmp}

theorem mem_keysWhere {p : β → Bool} {a : α} :
    a ∈ keysWhere t p ↔ ∃ v, t[a]? = some v ∧ p v = true := by
  simp only [keysWhere, mem_map, mem_filter, Prod.exists,
    ExtTreeMap.mem_toList_iff_getElem?_eq_some]
  constructor
  · rintro ⟨k, v, ⟨hk, hp⟩, rfl⟩
    exact ⟨v, hk, hp⟩
  · rintro ⟨v, hk, hp⟩
    exact ⟨a, v, ⟨hk, hp⟩, rfl⟩

def values (t : ExtTreeMap α β cmp) : List β := t.toList.map Prod.snd

theorem mem_values {v : β} : v ∈ values t ↔ ∃ a : α, t[a]? = some v := by
  simp only [values, mem_map, Prod.exists, ExtTreeMap.mem_toList_iff_getElem?_eq_some]
  constructor
  · rintro ⟨a, w, h, rfl⟩
    exact ⟨a, h⟩
  · rintro ⟨a, h⟩
    exact ⟨a, v, h, rfl⟩

omit [LawfulEqCmp cmp] in
theorem contains_eq_false_iff {a : α} :
    t.contains a = false ↔ t[a]? = none := by
  rw [ExtTreeMap.contains_eq_isSome_getElem?, Option.isSome_eq_false_iff, Option.isNone_iff_eq_none]

omit [LawfulEqCmp cmp] in
theorem contains_of_lookup {a : α} {v : β} (h : t[a]? = some v) :
    t.contains a = true := by
  rw [ExtTreeMap.contains_eq_isSome_getElem?, h]
  rfl

omit [LawfulEqCmp cmp] in
theorem length_values (t : ExtTreeMap α β cmp) : (values t).length = t.size := by
  rw [values, length_map, ExtTreeMap.length_toList]

variable [DecidableEq α]

section

variable (t : ExtTreeMap α β cmp)

theorem lookup_insert (k a : α) (v : β) : (t.insert k v)[a]? = if a = k then some v else t[a]? := by
  rw [ExtTreeMap.getElem?_insert]
  by_cases h : a = k
  · rw [if_pos h, if_pos (by rw [h]; exact LawfulEqCmp.compare_eq_iff_eq.mpr rfl)]
  · rw [if_neg h, if_neg fun hc => h (LawfulEqCmp.compare_eq_iff_eq.mp hc).symm]

theorem lookup_erase (k a : α) : (t.erase k)[a]? = if a = k then none else t[a]? := by
  rw [ExtTreeMap.getElem?_erase]
  by_cases h : a = k
  · rw [if_pos h, if_pos (by rw [h]; exact LawfulEqCmp.compare_eq_iff_eq.mpr rfl)]
  · rw [if_neg h, if_neg fun hc => h (LawfulEqCmp.compare_eq_iff_eq.mp hc).symm]

@[simp] theorem lookup_insert_self (k : α) (v : β) :
    (t.insert k v)[k]? = some v := by rw [lookup_insert, if_pos rfl]

theorem lookup_insert_of_ne {k a : α} (v : β) (h : a ≠ k) :
    (t.insert k v)[a]? = t[a]? := by rw [lookup_insert, if_neg h]

end

omit [DecidableEq α] in
theorem lookup_filter {f : α → β → Bool} {a : α} {v : β} :
    (t.filter f)[a]? = some v ↔ t[a]? = some v ∧ f a v = true := by
  rw [ExtTreeMap.getElem?_filter', Option.filter_eq_some_iff]

theorem lookup_insert_eq_some {k a : α} {v w : β} :
    (t.insert k v)[a]? = some w ↔ a = k ∧ v = w ∨ a ≠ k ∧ t[a]? = some w := by
  rw [lookup_insert]
  split_ifs with h
  · simp [h]
  · simp [h]

theorem exists_lookup_insert {a : α} (h : ∃ w, t[a]? = some w) (k : α) (v : β) :
    ∃ w, (t.insert k v)[a]? = some w := by
  rw [lookup_insert]
  split_ifs
  · exact ⟨v, rfl⟩
  · exact h

/-- What holds of all values and of a new one holds of all values after the insertion. -/
theorem forall_lookup_insert {P : β → Prop}
    (h : ∀ (a : α) (v : β), t[a]? = some v → P v) (k : α) {w : β} (hw : P w) (a : α) (v : β)
    (hv : (t.insert k w)[a]? = some v) : P v := by
  rcases lookup_insert_eq_some.mp hv with ⟨-, rfl⟩ | ⟨-, hv⟩
  · exact hw
  · exact h a v hv

@[simp] theorem lookup_erase_self (t : ExtTreeMap α β cmp) (k : α) :
    (t.erase k)[k]? = none := by rw [lookup_erase, if_pos rfl]

theorem lookup_erase_of_ne (t : ExtTreeMap α β cmp) {k a : α} (h : a ≠ k) :
    (t.erase k)[a]? = t[a]? := by rw [lookup_erase, if_neg h]

def eraseAll (t : ExtTreeMap α β cmp) (ks : List α) : ExtTreeMap α β cmp :=
  ks.foldl (fun t k => t.erase k) t

theorem lookup_eraseAll (t : ExtTreeMap α β cmp) (ks : List α) (a : α) :
    (eraseAll t ks)[a]? = if a ∈ ks then none else t[a]? := by
  induction ks generalizing t with
  | nil => rw [if_neg not_mem_nil]; rfl
  | cons k ks ih =>
    show (eraseAll (t.erase k) ks)[a]? = _
    rw [ih, lookup_erase]
    by_cases hks : a ∈ ks
    · rw [if_pos hks, if_pos (mem_cons_of_mem k hks)]
    · rw [if_neg hks]
      by_cases hk : a = k
      · rw [if_pos hk, if_pos (hk ▸ mem_cons_self)]
      · rw [if_neg hk, if_neg fun hc => (mem_cons.mp hc).elim hk hks]

/-! ### Rebuilding a table from its values -/

def insertAll (t : ExtTreeMap α β cmp) (entries : List (α × β)) : ExtTreeMap α β cmp :=
  entries.foldl (fun t e => t.insert e.1 e.2) t

section

variable (t : ExtTreeMap α β cmp)

theorem lookup_insertAll_of_notMem {entries : List (α × β)} {a : α} (h : a ∉ entries.map Prod.fst) :
    (insertAll t entries)[a]? = t[a]? := by
  induction entries generalizing t with
  | nil => rfl
  | cons e entries ih =>
    rw [map_cons, mem_cons, not_or] at h
    exact (ih (t.insert e.1 e.2) h.2).trans (lookup_insert_of_ne t e.2 h.1)

theorem lookup_insertAll_of_mem {entries : List (α × β)} {a : α} {v : β}
    (hnodup : (entries.map Prod.fst).Nodup) (h : (a, v) ∈ entries) :
    (insertAll t entries)[a]? = some v := by
  induction entries generalizing t with
  | nil => exact absurd h not_mem_nil
  | cons e entries ih =>
    rw [map_cons, nodup_cons] at hnodup
    rcases mem_cons.mp h with rfl | h
    · exact (lookup_insertAll_of_notMem _ hnodup.1).trans (lookup_insert_self t a v)
    · exact ih (t.insert e.1 e.2) hnodup.2 h

theorem insertAll_toList : insertAll ∅ t.toList = t := by
  refine ExtTreeMap.ext_getElem? fun a => ?_
  have hnodup : (t.toList.map Prod.fst).Nodup := by
    rw [ExtTreeMap.map_fst_toList_eq_keys]
    exact ExtTreeMap.nodup_keys
  cases h : t[a]? with
  | some v =>
    exact lookup_insertAll_of_mem ∅ hnodup (ExtTreeMap.mem_toList_iff_getElem?_eq_some.mpr h)
  | none =>
    rw [lookup_insertAll_of_notMem]
    · simp
    · intro hmem
      obtain ⟨⟨b, v⟩, hv, rfl⟩ := mem_map.mp hmem
      rw [ExtTreeMap.mem_toList_iff_getElem?_eq_some.mp hv] at h
      cases h

end

omit [DecidableEq α] in
theorem map_values_eq_toList {key : β → α}
    (hkey : ∀ (a : α) (v : β), t[a]? = some v → key v = a) :
    (values t).map (fun v => (key v, v)) = t.toList := by
  rw [values, map_map]
  conv_rhs => rw [← map_id t.toList]
  refine map_congr_left fun e he => ?_
  show (key e.2, e.2) = e
  rw [hkey e.1 e.2 (ExtTreeMap.mem_toList_iff_getElem?_eq_some.mp he)]

omit [LawfulEqCmp cmp] [DecidableEq α] in
theorem map_keys_eq_toList (t : ExtTreeMap α Unit cmp) :
    t.keys.map (fun a => (a, ())) = t.toList := by
  rw [← ExtTreeMap.map_fst_toList_eq_keys, map_map]
  conv_rhs => rw [← map_id t.toList]
  exact map_congr_left fun e _ => rfl

section Rebuild

variable {γ ε : Type*} {add : ExtTreeMap α β cmp → γ → Except ε (ExtTreeMap α β cmp)}
  (entry : γ → α × β)

omit [LawfulEqCmp cmp] [DecidableEq α] in
/-- A loop that inserts an entry for each item, if it gets through, has inserted them all. -/
theorem eq_insertAll_of_foldlM (hadd : ∀ t c t', add t c = .ok t' →
      t' = t.insert (entry c).1 (entry c).2) {items : List γ} {t t' : ExtTreeMap α β cmp}
    (h : items.foldlM add t = .ok t') : t' = insertAll t (items.map entry) := by
  induction items generalizing t with
  | nil =>
    cases h
    rfl
  | cons c items ih =>
    rw [foldlM_cons] at h
    cases hc : add t c with
    | error err =>
      rw [hc] at h
      cases h
    | ok u =>
      rw [hc] at h
      rw [ih h, hadd t c u hc]
      rfl

theorem foldlM_eq_insertAll {items : List γ} (hnodup : (items.map fun c => (entry c).1).Nodup)
    (hadd : ∀ c ∈ items, ∀ t, t[(entry c).1]? = none →
      add t c = .ok (t.insert (entry c).1 (entry c).2)) (ht : ∀ c ∈ items, t[(entry c).1]? = none) :
    items.foldlM add t = .ok (insertAll t (items.map entry)) := by
  induction items generalizing t with
  | nil => rfl
  | cons c items ih =>
    rw [map_cons, nodup_cons] at hnodup
    have hc := hadd c mem_cons_self t (ht c mem_cons_self)
    rw [foldlM_cons, hc]
    refine ih hnodup.2 (fun d hd => hadd d (mem_cons_of_mem c hd)) fun d hd => ?_
    rw [lookup_insert_of_ne]
    · exact ht d (mem_cons_of_mem c hd)
    · intro hkey
      exact hnodup.1 (mem_map.mpr ⟨d, hd, hkey⟩)

omit [DecidableEq α] in
theorem nodup_keys_values {key : β → α}
    (hkey : ∀ (a : α) (v : β), t[a]? = some v → key v = a) : ((values t).map key).Nodup := by
  have hkeys := congrArg (List.map Prod.fst) (map_values_eq_toList hkey)
  rw [map_map, ExtTreeMap.map_fst_toList_eq_keys] at hkeys
  exact hkeys ▸ ExtTreeMap.nodup_keys

theorem foldlM_values_eq {key : β → α}
    {add : ExtTreeMap α β cmp → β → Except ε (ExtTreeMap α β cmp)}
    (hkey : ∀ (a : α) (v : β), t[a]? = some v → key v = a)
    (hadd : ∀ (a : α) (v : β), t[a]? = some v → ∀ u : ExtTreeMap α β cmp,
      u[key v]? = none → add u v = .ok (u.insert (key v) v)) :
    (values t).foldlM add ∅ = .ok t := by
  rw [foldlM_eq_insertAll (fun v => (key v, v)) (nodup_keys_values hkey) (fun v hv u hu => ?_)
    fun v _ => by simp, map_values_eq_toList hkey, insertAll_toList]
  obtain ⟨a, ha⟩ := mem_values.mp hv
  exact hadd a v ha u hu

end Rebuild

end Tables
