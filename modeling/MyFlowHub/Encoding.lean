/-
Bytes and numbers as text: lower-case hexadecimal and decimal; numbers as bytes.

* `hexDecode_hexEncode`, `lowerCase_hexEncode` — bytes survive hexadecimal, which has
  no upper-case letter;
* `parseUint_formatUint` — a number survives its decimal form, which is canonical;
  `head_toDigits` — it does not begin with a zero;
* `bigEndianValue_bigEndian`, `bigEndian_bigEndianValue` — big-endian words of any width;
* `slice_append_slice`, `slice_append_right` — how the parts of a buffer compose.
-/
import Mathlib

open List

namespace Encoding

/-! ### Hexadecimal -/

def hexDigit (d : ℕ) : Char := "0123456789abcdef".toList.getD d '0'

def hexValue (c : Char) : Option ℕ :=
  if '0' ≤ c ∧ c ≤ '9' then some (c.toNat - 48)
  else if 'a' ≤ c ∧ c ≤ 'f' then some (c.toNat - 87)
  else if 'A' ≤ c ∧ c ≤ 'F' then some (c.toNat - 55)
  else none

def hexChars : List UInt8 → List Char
  | [] => []
  | b :: bs => hexDigit (b.toNat / 16) :: hexDigit (b.toNat % 16) :: hexChars bs

def hexEncode (bs : List UInt8) : String := String.ofList (hexChars bs)

def hexBytes : List Char → Option (List UInt8)
  | [] => some []
  | [_] => none
  | c :: d :: rest => do
    let high ← hexValue c
    let low ← hexValue d
    let bs ← hexBytes rest
    return UInt8.ofNat (16 * high + low) :: bs

/-- The bytes of a text of hexadecimal digits of either case. -/
def hexDecode (s : String) : Option (List UInt8) := hexBytes s.toList

def lowerCase (s : String) : Bool := s.toList.all fun c => c.toLower == c

theorem hexValue_hexDigit {d : ℕ} (h : d < 16) : hexValue (hexDigit d) = some d := by
  interval_cases d <;> decide

theorem toLower_hexDigit {d : ℕ} (h : d < 16) : (hexDigit d).toLower = hexDigit d := by
  interval_cases d <;> decide

theorem hexBytes_hexChars (bs : List UInt8) : hexBytes (hexChars bs) = some bs := by
  induction bs with
  | nil => rfl
  | cons b bs ih =>
    have hb : b.toNat < 256 := b.toNat_lt
    have hjoin : 16 * (b.toNat / 16) + b.toNat % 16 = b.toNat := by omega
    rw [hexChars, hexBytes, hexValue_hexDigit (by omega), hexValue_hexDigit (by omega), ih]
    show some (UInt8.ofNat (16 * (b.toNat / 16) + b.toNat % 16) :: bs) = some (b :: bs)
    rw [hjoin, UInt8.ofNat_toNat]

theorem hexDecode_hexEncode (bs : List UInt8) : hexDecode (hexEncode bs) = some bs := by
  rw [hexDecode, hexEncode, String.toList_ofList, hexBytes_hexChars]

theorem hexEncode_injective {bs cs : List UInt8} (h : hexEncode bs = hexEncode cs) : bs = cs := by
  have hbs := hexDecode_hexEncode bs
  rw [h, hexDecode_hexEncode] at hbs
  exact (Option.some.inj hbs).symm

theorem lowerCase_hexEncode (bs : List UInt8) : lowerCase (hexEncode bs) = true := by
  rw [lowerCase, hexEncode, String.toList_ofList]
  induction bs with
  | nil => rfl
  | cons b bs ih =>
    have hb : b.toNat < 256 := b.toNat_lt
    simp [hexChars, ih, toLower_hexDigit (show b.toNat / 16 < 16 by omega),
      toLower_hexDigit (show b.toNat % 16 < 16 by omega)]

/-! ### Decimal -/

def formatUint (n : UInt64) : String := toString n.toNat

/-- A number of decimal digits that fits in 64 bits. -/
def parseUint (s : String) : Option UInt64 :=
  if s.toList ≠ [] ∧ s.toList.all Char.isDigit = true then
    let value := Nat.ofDigitChars 10 s.toList 0
    if value < 2 ^ 64 then some (UInt64.ofNat value) else none
  else none

theorem parseUint_formatUint (n : UInt64) : parseUint (formatUint n) = some n := by
  have hlist : (formatUint n).toList = Nat.toDigits 10 n.toNat := by simp [formatUint]
  have hdigits : (Nat.toDigits 10 n.toNat).all Char.isDigit = true := by
    rw [all_eq_true]
    intro c hc
    exact Nat.isDigit_of_mem_toDigits (by omega) le_rfl hc
  rw [parseUint, hlist, if_pos ⟨Nat.toDigits_ne_nil, hdigits⟩, Nat.ofDigitChars_ten_toDigits]
  dsimp only
  rw [if_pos n.toNat_lt, UInt64.ofNat_toNat]

theorem formatUint_injective {m n : UInt64} (h : formatUint m = formatUint n) : m = n := by
  have hm := parseUint_formatUint m
  rw [h, parseUint_formatUint] at hm
  exact (Option.some.inj hm).symm

theorem head_toDigits {n : ℕ} (h : 0 < n) :
    ∃ c ∈ (Nat.toDigits 10 n).head?, '1' ≤ c ∧ c ≤ '9' := by
  induction n using Nat.strong_induction_on with
  | _ n ih =>
    rw [Nat.toDigits_eq_if (by omega)]
    split_ifs with hn
    · have hdigit : ∀ n < 10, 0 < n → '1' ≤ n.digitChar ∧ n.digitChar ≤ '9' := by decide
      exact ⟨n.digitChar, rfl, hdigit n hn h⟩
    · obtain ⟨c, hc, hrange⟩ := ih (n / 10) (by omega) (by omega)
      refine ⟨c, ?_, hrange⟩
      rw [List.head?_append, hc]
      rfl

theorem utf8Size_of_isDigit {c : Char} (h : c.isDigit = true) : c.utf8Size = 1 := by
  have hle : c.val ≤ 57 := by
    simp only [Char.isDigit, Bool.and_eq_true, decide_eq_true_eq] at h
    exact h.2
  have hascii : c.val ≤ 127 := UInt32.le_trans hle (by decide)
  exact if_pos hascii

/-! ### UTF-8 -/

def utf8 (s : String) : List UInt8 := s.toByteArray.data.toList

theorem utf8_injective {s t : String} (h : utf8 s = utf8 t) : s = t := by
  have : s.toByteArray = t.toByteArray := by
    apply ByteArray.ext
    exact Array.toList_inj.1 h
  exact String.toByteArray_inj.1 this

/-! ### Big endian -/

/-- The last `width` bytes of a number, most significant first. -/
def bigEndian : ℕ → ℕ → List UInt8
  | 0, _ => []
  | width + 1, n => bigEndian width (n / 256) ++ [UInt8.ofNat n]

def bigEndianValue (bs : List UInt8) : ℕ := bs.foldl (fun n b => 256 * n + b.toNat) 0

@[simp] theorem length_bigEndian (width n : ℕ) : (bigEndian width n).length = width := by
  induction width generalizing n with
  | zero => rfl
  | succ width ih => rw [bigEndian, length_append, ih, length_singleton]

theorem bigEndianValue_concat (bs : List UInt8) (b : UInt8) :
    bigEndianValue (bs ++ [b]) = 256 * bigEndianValue bs + b.toNat := by
  rw [bigEndianValue, foldl_append]
  rfl

theorem bigEndianValue_bigEndian {width n : ℕ} (h : n < 256 ^ width) :
    bigEndianValue (bigEndian width n) = n := by
  induction width generalizing n with
  | zero =>
    have hzero : n = 0 := by simpa using h
    rw [hzero]
    rfl
  | succ width ih =>
    have hquot : n / 256 < 256 ^ width := by
      rw [Nat.div_lt_iff_lt_mul (by decide)]
      rwa [pow_succ] at h
    have hlast : (UInt8.ofNat n).toNat = n % 256 := by simp
    rw [bigEndian, bigEndianValue_concat, ih hquot, hlast]
    omega

theorem bigEndianValue_lt (bs : List UInt8) : bigEndianValue bs < 256 ^ bs.length := by
  induction bs using List.reverseRecOn with
  | nil => simp [bigEndianValue]
  | append_singleton bs b ih =>
    have hb : b.toNat < 256 := b.toNat_lt
    rw [bigEndianValue_concat, length_append, length_singleton, pow_succ]
    omega

theorem bigEndian_bigEndianValue (bs : List UInt8) :
    bigEndian bs.length (bigEndianValue bs) = bs := by
  induction bs using List.reverseRecOn with
  | nil => rfl
  | append_singleton bs b ih =>
    have hb : b.toNat < 256 := b.toNat_lt
    have hquot : (256 * bigEndianValue bs + b.toNat) / 256 = bigEndianValue bs := by omega
    have hlast : UInt8.ofNat (256 * bigEndianValue bs + b.toNat) = b := by
      apply UInt8.toNat_inj.mp
      rw [UInt8.toNat_ofNat']
      omega
    rw [length_append, length_singleton, bigEndian, bigEndianValue_concat, hquot, ih, hlast]

theorem bigEndian_value_of_length {bs : List UInt8} {width : ℕ} (h : bs.length = width) :
    bigEndian width (bigEndianValue bs) = bs := by
  rw [← h, bigEndian_bigEndianValue]

/-! ### Parts of a buffer -/

/-- `buffer[i:j]`. -/
def slice (buffer : List UInt8) (i j : ℕ) : List UInt8 := (buffer.drop i).take (j - i)

theorem length_slice {buffer : List UInt8} {i j : ℕ} (h : j ≤ buffer.length) :
    (slice buffer i j).length = j - i := by
  rw [slice, length_take, length_drop]
  omega

theorem slice_append_slice (buffer : List UInt8) {i j k : ℕ} (hij : i ≤ j) (hjk : j ≤ k) :
    slice buffer i j ++ slice buffer j k = slice buffer i k := by
  have hdrop : buffer.drop j = (buffer.drop i).drop (j - i) := by
    rw [drop_drop]
    congr 1
    omega
  have hsum : k - i = (j - i) + (k - j) := by omega
  rw [slice, slice, slice, hdrop, hsum, take_add]

theorem slice_zero_length (buffer : List UInt8) : slice buffer 0 buffer.length = buffer := by
  rw [slice, drop_zero, Nat.sub_zero, take_length]

theorem slice_append_left {a : List UInt8} (b : List UInt8) {j : ℕ} (h : a.length = j) :
    slice (a ++ b) 0 j = a := by
  rw [slice, drop_zero, Nat.sub_zero, ← h, take_left]

theorem slice_append_right {a : List UInt8} (b : List UInt8) {i j : ℕ} (h : a.length ≤ i) :
    slice (a ++ b) i j = slice b (i - a.length) (j - a.length) := by
  have hwidth : j - a.length - (i - a.length) = j - i := by omega
  rw [slice, slice, drop_append, drop_eq_nil_of_le h, nil_append, hwidth]

theorem slice_middle {a b c : List UInt8} {i j : ℕ} (ha : a.length = i) (hb : i + b.length = j) :
    slice (a ++ (b ++ c)) i j = b := by
  rw [slice_append_right _ (le_of_eq ha), ha, Nat.sub_self]
  exact slice_append_left c (by omega)

theorem slice_one {buffer : List UInt8} {i : ℕ} (h : i < buffer.length) :
    slice buffer i (i + 1) = [buffer.getD i 0] := by
  rw [slice, Nat.add_sub_cancel_left, drop_eq_getElem_cons h, take_succ_cons,
    take_zero, getD_eq_getElem _ _ h]

end Encoding
