/-
Base64 with the URL alphabet and without padding (`base64.RawURLEncoding`).

* `encode`, `decode` — the text of a list of bytes, and back; decoding is strict, and skips line
  breaks as the Go library does;
* `decode_encode` — the round trip;
* `utf8ByteSize_encode` — the length of the text;
* `utf8ByteSize_ascii` — the length of ASCII text in bytes.
-/
import Mathlib

namespace Base64

def alphabet : List Char :=
  "ABCDEFGHIJKLMNOPQRSTUVWXYZabcdefghijklmnopqrstuvwxyz0123456789-_".toList

def digit (n : ℕ) : Char := alphabet.getD n 'A'

def value (c : Char) : Option ℕ := alphabet.findIdx? (· == c)

def encodeBytes : List UInt8 → List Char
  | [] => []
  | [a] => [digit (a.toNat / 4), digit (a.toNat % 4 * 16)]
  | [a, b] =>
    [digit (a.toNat / 4), digit (a.toNat % 4 * 16 + b.toNat / 16), digit (b.toNat % 16 * 4)]
  | a :: b :: c :: rest =>
    digit (a.toNat / 4) :: digit (a.toNat % 4 * 16 + b.toNat / 16) ::
      digit (b.toNat % 16 * 4 + c.toNat / 64) :: digit (c.toNat % 64) :: encodeBytes rest

/-- The bits left over at the end have to be zero. -/
def decodeChars : List Char → Option (List UInt8)
  | [] => some []
  | [_] => none
  | [x, y] => do
    let p ← value x
    let q ← value y
    if q % 16 = 0 then some [UInt8.ofNat (p * 4 + q / 16)] else none
  | [x, y, z] => do
    let p ← value x
    let q ← value y
    let r ← value z
    if r % 4 = 0 then
      some [UInt8.ofNat (p * 4 + q / 16), UInt8.ofNat (q % 16 * 16 + r / 4)]
    else none
  | x :: y :: z :: w :: rest => do
    let p ← value x
    let q ← value y
    let r ← value z
    let s ← value w
    let bytes ← decodeChars rest
    some (UInt8.ofNat (p * 4 + q / 16) :: UInt8.ofNat (q % 16 * 16 + r / 4) ::
      UInt8.ofNat (r % 4 * 64 + s) :: bytes)

def encode (bytes : List UInt8) : String := String.ofList (encodeBytes bytes)

def decode (text : String) : Option (List UInt8) :=
  decodeChars (text.toList.filter fun c => c ≠ '\n' ∧ c ≠ '\r')

theorem value_digit {n : ℕ} (h : n < 64) : value (digit n) = some n := by
  revert n
  decide +kernel

theorem digit_plain (n : ℕ) : (digit n).utf8Size = 1 ∧ digit n ≠ '\n' ∧ digit n ≠ '\r' := by
  by_cases hn : n < 64
  · revert n
    decide +kernel
  · have : digit n = 'A' := List.getD_eq_default _ _ (Nat.not_lt.1 hn)
    rw [this]
    decide

theorem ofNat_eq (a : UInt8) {n : ℕ} (h : n = a.toNat) : UInt8.ofNat n = a := by
  rw [h]
  exact UInt8.ofNat_toNat

variable (bytes : List UInt8)

theorem decodeChars_encodeBytes : decodeChars (encodeBytes bytes) = some bytes := by
  fun_induction encodeBytes bytes with
  | case1 => rfl
  | case2 a =>
    have ha := a.toNat_lt
    simp only [decodeChars, value_digit (show a.toNat / 4 < 64 by omega),
      value_digit (show a.toNat % 4 * 16 < 64 by omega), Option.bind_eq_bind, Option.bind_some]
    rw [if_pos (by omega), ofNat_eq a (by omega)]
  | case3 a b =>
    have ha := a.toNat_lt
    have hb := b.toNat_lt
    simp only [decodeChars, value_digit (show a.toNat / 4 < 64 by omega),
      value_digit (show a.toNat % 4 * 16 + b.toNat / 16 < 64 by omega),
      value_digit (show b.toNat % 16 * 4 < 64 by omega), Option.bind_eq_bind, Option.bind_some]
    rw [if_pos (by omega), ofNat_eq a (by omega), ofNat_eq b (by omega)]
  | case4 a b c rest ih =>
    have ha := a.toNat_lt
    have hb := b.toNat_lt
    have hc := c.toNat_lt
    simp only [decodeChars, value_digit (show a.toNat / 4 < 64 by omega),
      value_digit (show a.toNat % 4 * 16 + b.toNat / 16 < 64 by omega),
      value_digit (show b.toNat % 16 * 4 + c.toNat / 64 < 64 by omega),
      value_digit (show c.toNat % 64 < 64 by omega), ih, Option.bind_eq_bind, Option.bind_some]
    rw [ofNat_eq a (by omega), ofNat_eq b (by omega), ofNat_eq c (by omega)]

theorem plain_encodeBytes : ∀ c ∈ encodeBytes bytes, c.utf8Size = 1 ∧ c ≠ '\n' ∧ c ≠ '\r' := by
  fun_induction encodeBytes bytes with
  | case1 => simp
  | case2 a => simp [digit_plain]
  | case3 a b => simp [digit_plain]
  | case4 a b c rest ih => simpa [digit_plain] using ih

theorem decode_encode : decode (encode bytes) = some bytes := by
  have hfilter : (encodeBytes bytes).filter (fun c => c ≠ '\n' ∧ c ≠ '\r') = encodeBytes bytes := by
    rw [List.filter_eq_self]
    intro c hc
    simpa using (plain_encodeBytes bytes c hc).2
  rw [decode, encode, String.toList_ofList, hfilter, decodeChars_encodeBytes]

/-! ### Lengths -/

theorem utf8Len_ascii {cs : List Char} (h : ∀ c ∈ cs, c.utf8Size = 1) :
    String.utf8Len cs = cs.length := by
  induction cs with
  | nil => rfl
  | cons c cs ih =>
    rw [String.utf8Len_cons, ih fun c hc => h c (List.mem_cons_of_mem _ hc), h c List.mem_cons_self]
    rfl

theorem utf8ByteSize_ascii {cs : List Char} (h : ∀ c ∈ cs, c.utf8Size = 1) :
    (String.ofList cs).utf8ByteSize = cs.length := by
  rw [String.utf8ByteSize_ofList, utf8Len_ascii h]

theorem length_encodeBytes : (encodeBytes bytes).length = (bytes.length * 4 + 2) / 3 := by
  fun_induction encodeBytes bytes with
  | case1 => rfl
  | case2 a => simp
  | case3 a b => simp
  | case4 a b c rest ih =>
    simp only [List.length_cons, ih]
    omega

theorem utf8ByteSize_encode : (encode bytes).utf8ByteSize = (bytes.length * 4 + 2) / 3 := by
  rw [encode, utf8ByteSize_ascii fun c hc => (plain_encodeBytes bytes c hc).1, length_encodeBytes]

end Base64
