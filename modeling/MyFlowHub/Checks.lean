/-
Checks, commits, counters and the order of a map: what the modules below share.

* `require`, `within` — code that returns at the first check that fails, and `bind_eq_ok`,
  `bind_eq_error`, `exists_bind`, by which such code is taken apart;
* `Commit` — clone, modify, commit: a component with durable state prepares its next state beside
  the current one, saves the record of the next state, and adopts it when the save reports no error;
  whatever the save does to the device, an error keeps the current state in memory;
* `Counter` — a counter of 64 bits goes up until its last value;
* `MapOrder` — an order in which a map may be ranged over.
-/
import Mathlib

abbrev Bytes := List UInt8

namespace Checks

variable {ε α β : Type}

/-- One check: go on, or return the error. -/
def require (p : Prop) [Decidable p] (text : String) : Except String Unit :=
  if p then .ok () else .error text

@[simp] theorem require_eq_ok {p : Prop} [Decidable p] {text : String} {u : Unit} :
    require p text = .ok u ↔ p := by
  rw [require]
  split <;> simp [*]

/-- The error of a check inside another one. -/
def within (context : String) (x : Except String α) : Except String α :=
  x.mapError fun text => context ++ ": " ++ text

@[simp] theorem within_eq_ok {context : String} {x : Except String α} {v : α} :
    within context x = .ok v ↔ x = .ok v := by
  cases x with
  | error text => simp [within, Except.mapError]
  | ok w => simp [within, Except.mapError]

theorem bind_eq_ok {x : Except ε α} {f : α → Except ε β} {b : β} :
    (x >>= f) = .ok b ↔ ∃ a, x = .ok a ∧ f a = .ok b := by
  cases x with
  | error err => simp [bind, Except.bind]
  | ok a => simp [bind, Except.bind]

theorem bind_eq_error {x : Except ε α} {f : α → Except ε β} {err : ε} :
    (x >>= f) = .error err ↔ x = .error err ∨ ∃ a, x = .ok a ∧ f a = .error err := by
  cases x with
  | error err => simp [bind, Except.bind]
  | ok a => simp [bind, Except.bind]

theorem exists_bind {x : Except ε α} {f : α → Except ε β} {a : α} (hx : x = .ok a)
    (hf : ∃ b, f a = .ok b) : ∃ b, (x >>= f) = .ok b := by
  subst hx
  exact hf

end Checks

namespace Commit

variable {R D S : Type}

/-- A way to save a record on a device: the error, and the device afterwards. -/
abbrev Saver (R D : Type) := R → D → Option String × D

/-- A device with room for one record: a save writes it, or fails and leaves the device
as it was. -/
def slot (fault : Option String) : Saver R (Option R) := fun record d =>
  match fault with
  | some text => (some text, d)
  | none => (none, some record)

/-- Refuse, or save the record of the next state and adopt it. -/
def commit (save : Saver R D) (refusal : Option String) (label : String) (record : R)
    (state next : S) (d : D) : Option String × S × D :=
  match refusal with
  | some text => (some text, state, d)
  | none =>
    match save record d with
    | (some text, d') => (some (label ++ ": " ++ text), state, d')
    | (none, d') => (none, next, d')

end Commit

namespace Counter

variable {n m : UInt64}

theorem toNat_add_one_of_lt (h : n < m) : (n + 1).toNat = n.toNat + 1 := by
  have hnm := UInt64.lt_iff_toNat_lt.mp h
  have hm := m.toNat_lt
  rw [UInt64.toNat_add, UInt64.toNat_one]
  omega

theorem toNat_add_one (h : n ≠ UInt64.ofNat (2 ^ 64 - 1)) : (n + 1).toNat = n.toNat + 1 := by
  have hlt := n.toNat_lt
  have hne : n.toNat ≠ 2 ^ 64 - 1 := fun heq => h (UInt64.toNat_inj.mp heq)
  rw [UInt64.toNat_add, UInt64.toNat_one]
  omega

theorem lt_add_one (h : n ≠ UInt64.ofNat (2 ^ 64 - 1)) : n < n + 1 := by
  rw [UInt64.lt_iff_toNat_lt, toNat_add_one h]
  exact Nat.lt_succ_self _

theorem add_one_ne (n : UInt64) : n + 1 ≠ n := by
  intro h
  have hn := congrArg UInt64.toNat h
  have hlt := n.toNat_lt
  rw [UInt64.toNat_add, UInt64.toNat_one] at hn
  omega

end Counter

/-- An order in which Go may range over a map. -/
structure MapOrder (κ : Type) where
  arrange : List κ → List κ
  perm : ∀ keys, (arrange keys).Perm keys

def MapOrder.asIs {κ : Type} : MapOrder κ := ⟨id, fun _ => .refl _⟩
