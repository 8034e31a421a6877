import Mathlib.Algebra.Ring.Nat
import Mathlib.Tactic.Common

/-!
# Bytes and formatted text

Strings of the source are sequences of bytes. `decimal` is what `%u` prints. A number has at most
`k` digits if and only if it is below `10 ^ k` (`length_decimal_le_iff`), and no two numbers
print alike (`decimal_injective`).
-/

set_option autoImplicit false

namespace Tmuduo

/-- `std::string` and `std::vector<char>`. -/
abbrev Bytes := List UInt8

/-- A string literal of the source as bytes. -/
def ascii (s : String) : Bytes :=
  s.toList.map fun c => c.toUInt8

/-- What `snprintf` leaves in a buffer of `size` bytes, without the terminating zero. -/
def snprintf (size : ℕ) (text : Bytes) : Bytes :=
  text.take (size - 1)

/-- A number as `%u` prints it. -/
def decimal (n : ℕ) : Bytes := (Nat.toDigits 10 n).map fun c => c.toUInt8

/-- A number as `%d` prints it. -/
def signedDecimal (n : ℤ) : Bytes :=
  if n < 0 then ascii "-" ++ decimal n.natAbs else decimal n.natAbs

/-- A number as `%x` prints it. -/
def hexadecimal (n : ℕ) : Bytes := (Nat.toDigits 16 n).map fun c => c.toUInt8

theorem length_decimal_le_iff {n k : ℕ} (hk : 0 < k) : (decimal n).length ≤ k ↔ n < 10 ^ k := by
  rw [decimal, List.length_map]
  exact Nat.length_toDigits_le_iff (by decide) hk

theorem length_decimal_pos (n : ℕ) : 0 < (decimal n).length := by
  rw [decimal, List.length_map]
  exact Nat.length_toDigits_pos

/-- A digit more at the end. -/
theorem decimal_ten_mul_add {n d : ℕ} (hn : 0 < n) (hd : d < 10) :
    decimal (10 * n + d) = decimal n ++ decimal d := by
  unfold decimal
  rw [← List.map_append, Nat.toDigits_append_toDigits (by decide) hn hd]

theorem toNat_toUInt8_of_isDigit {c : Char} (hc : c.isDigit = true) :
    c.toUInt8.toNat = c.toNat := by
  obtain ⟨-, hle⟩ := Char.isDigit_iff_toNat.mp hc
  have h9 : '9'.toNat = 57 := by decide
  exact (UInt32.toNat_toUInt8 c.val).trans (Nat.mod_eq_of_lt (by change c.toNat < _; omega))

theorem isDigit_of_mem_decimal {n : ℕ} {b : UInt8} (hb : b ∈ decimal n) : 48 ≤ b ∧ b ≤ 57 := by
  obtain ⟨c, hc, rfl⟩ := List.mem_map.mp hb
  have hdigit := Nat.isDigit_of_mem_toDigits (by decide) (by decide) hc
  have hrange := Char.isDigit_iff_toNat.mp hdigit
  rw [← toNat_toUInt8_of_isDigit hdigit] at hrange
  exact hrange

/-- The digits can be read back from the bytes. -/
theorem toDigits_eq_map (n : ℕ) :
    Nat.toDigits 10 n = (decimal n).map fun b => Char.ofNat b.toNat := by
  rw [decimal, List.map_map]
  refine (List.map_id' _).symm.trans (List.map_congr_left fun c hc => ?_)
  have hdigit := Nat.isDigit_of_mem_toDigits (by decide) (by decide) hc
  rw [Function.comp_apply, toNat_toUInt8_of_isDigit hdigit, Char.ofNat_toNat]

theorem decimal_injective : Function.Injective decimal := by
  intro m n h
  have hdigits : Nat.toDigits 10 m = Nat.toDigits 10 n := by
    rw [toDigits_eq_map, h, ← toDigits_eq_map]
  rw [← Nat.ofDigitChars_ten_toDigits (n := m), hdigits, Nat.ofDigitChars_ten_toDigits]

theorem take_decimal_of_lt {n r : ℕ} (h : n < 10 ^ r) (hr : 0 < r) :
    (decimal n).take r = decimal n :=
  List.take_of_length_le ((length_decimal_le_iff hr).mpr h)

/-- A power of ten that has one digit too many looks like the power before it. -/
theorem take_decimal_pow (r : ℕ) :
    (decimal (10 ^ (r + 1))).take (r + 1) = (decimal (10 ^ r)).take (r + 1) := by
  have hpos : 0 < 10 ^ r := Nat.pow_pos (by decide)
  have hlength : r + 1 ≤ (decimal (10 ^ r)).length := by
    by_contra hlt
    rcases Nat.eq_zero_or_pos r with rfl | hr
    · have := length_decimal_pos (10 ^ 0)
      omega
    · have := (length_decimal_le_iff hr).mp (show (decimal (10 ^ r)).length ≤ r by omega)
      omega
  rw [Nat.pow_succ', ← Nat.add_zero (10 * 10 ^ r), decimal_ten_mul_add hpos (by decide),
    List.take_append_of_le_length hlength]

/-- The first `r` digits tell the numbers from 1 to `n` apart exactly as long as `n` has no more
than `r` digits, or there is nothing to tell apart. -/
theorem take_decimal_ne_iff (r n : ℕ) :
    (∀ i j, 1 ≤ i → i < j → j ≤ n → (decimal i).take r ≠ (decimal j).take r) ↔
      n ≤ 1 ∨ n < 10 ^ r := by
  constructor
  · intro h
    by_contra hnot
    obtain ⟨hn, hpow⟩ := not_or.mp hnot
    cases r with
    | zero => exact h 1 2 le_rfl (by decide) (by omega) rfl
    | succ r =>
      have hpos : 0 < 10 ^ r := Nat.pow_pos (by decide)
      have hlt : 10 ^ r < 10 ^ (r + 1) := Nat.pow_lt_pow_succ (by decide)
      exact h (10 ^ r) (10 ^ (r + 1)) hpos hlt (by omega) (take_decimal_pow r).symm
  · rintro (hn | hn) i j hi hij hj heq
    · omega
    · have hr : 0 < r := by
        rcases Nat.eq_zero_or_pos r with rfl | hr
        · rw [Nat.pow_zero] at hn
          omega
        · exact hr
      rw [take_decimal_of_lt (by omega) hr, take_decimal_of_lt (by omega) hr] at heq
      exact absurd (decimal_injective heq) (by omega)

end Tmuduo
