import Tmuduo.Numeral
import Tmuduo.Text

/-!
# Numbers in the log

`convert` writes an integer into an array of characters : its digits from the last one on, the sign,
a terminating zero, and then the digits and the sign turned around in place. The remainder of a
negative number is negative in C, so the digit is looked up in a table that is mirrored at zero, and
the most negative number needs no negation. A write outside of the array is `none`.

`convert_eq` and `convertHex_eq` say what is in the array afterwards, and `convert_canonical` that
it is the canonical numeral, for every integer that a `LogStream` accepts.
-/

set_option autoImplicit false

namespace Tmuduo

namespace LogStream

def kMaxNumericSize : ℕ := 32

/-! ## The functions -/

/-- `digits`. -/
def digits : Bytes := ascii "9876543210123456789"

/-- `zero[lsd]`, where `zero` is `digits + 9`. -/
def zero (lsd : ℤ) : UInt8 := digits.getD (9 + lsd).toNat 0

/-- `digitsHex`. -/
def digitsHex : Bytes := ascii "0123456789ABCDEF"

/-- `digitsHex[lsd]`. -/
def hexDigit (lsd : ℤ) : UInt8 := digitsHex.getD lsd.toNat 0

/-- `*p = c`. -/
def put (buf : Bytes) (p : ℕ) (c : UInt8) : Option Bytes :=
  if p < buf.length then some (buf.set p c) else none

/-- The loop of `convert` and `convertHex`, for at most `n` turns. `char` is the table of their
characters. -/
def digitLoop (base : ℤ) (char : ℤ → UInt8) : ℕ → ℤ → Bytes → ℕ → Option (Bytes × ℕ)
  | 0, _, _, _ => none
  | n + 1, i, buf, p => do
    let lsd := i.tmod base
    let i := i.tdiv base
    let buf ← put buf p (char lsd)
    if i ≠ 0 then digitLoop base char n i buf (p + 1) else return (buf, p + 1)

/-- `std::reverse(buf, p)`. -/
def reverse (buf : Bytes) (p : ℕ) : Bytes :=
  (buf.take p).reverse ++ buf.drop p

/-- The sign of a negative number. -/
def putSign (value : ℤ) (buf : Bytes) (p : ℕ) : Option (Bytes × ℕ) :=
  if value < 0 then (put buf p '-'.toUInt8).map (·, p + 1) else some (buf, p)

/-- The terminating zero and the reversal : the array after them, and the length. -/
def terminate (buf : Bytes) (p : ℕ) : Option (Bytes × ℕ) :=
  (put buf p 0).map fun buf => (reverse buf p, p)

/-- `convert` : the array after it, and the length that it returns. -/
def convert (buf : Bytes) (value : ℤ) : Option (Bytes × ℕ) := do
  let (buf, p) ← digitLoop 10 zero (value.natAbs + 1) value buf 0
  let (buf, p) ← putSign value buf p
  terminate buf p

/-- `convertHex`, for a `uintptr_t`. -/
def convertHex (buf : Bytes) (value : BitVec 64) : Option (Bytes × ℕ) := do
  let (buf, p) ← digitLoop 16 hexDigit (value.toNat + 1) value.toNat buf 0
  terminate buf p

/-- The arguments of `operator<<` that are integers. -/
inductive Integer
  | short (v : BitVec 16)
  | unsignedShort (v : BitVec 16)
  | int (v : BitVec 32)
  | unsignedInt (v : BitVec 32)
  | long (v : BitVec 64)
  | unsignedLong (v : BitVec 64)
  | longLong (v : BitVec 64)
  | unsignedLongLong (v : BitVec 64)
  deriving DecidableEq, Repr

namespace Integer

/-- The number. -/
def value : Integer → ℤ
  | short v => v.toInt
  | unsignedShort v => v.toNat
  | int v => v.toInt
  | unsignedInt v => v.toNat
  | long v => v.toInt
  | unsignedLong v => v.toNat
  | longLong v => v.toInt
  | unsignedLongLong v => v.toNat

/-- What `operator<<` passes to `convert`. The short types go through those of `int`. -/
def argument : Integer → ℤ
  | short v => (int (v.signExtend 32)).value
  | unsignedShort v => (unsignedInt (v.setWidth 32)).value
  | v => v.value

theorem argument_eq (v : Integer) : v.argument = v.value := by
  cases v with
  | short v => exact BitVec.toInt_signExtend_of_le (by decide)
  | unsignedShort v => exact congrArg Int.ofNat (BitVec.toNat_setWidth_of_le (by decide))
  | _ => rfl

end Integer

/-! ## The array -/

/-- Writing into the next free place. -/
theorem put_next {w r : Bytes} (hr : 0 < r.length) (c : UInt8) :
    put (w ++ r) w.length c = some (w ++ [c] ++ r.drop 1) := by
  obtain ⟨x, r, rfl⟩ := List.exists_cons_of_length_pos hr
  rw [put, if_pos (by simp), List.set_append_right _ _ (Nat.le_refl _), Nat.sub_self]
  simp

theorem reverse_append (w r : Bytes) : reverse (w ++ r) w.length = w.reverse ++ r := by
  simp [reverse]

/-- The least significant digit has the sign of the number. -/
theorem tmod_eq (i : ℤ) (b : ℕ) :
    (0 ≤ i ∧ i.tmod b = (i.natAbs % b : ℕ)) ∨ (i < 0 ∧ i.tmod b = -(i.natAbs % b : ℕ)) := by
  rcases lt_or_ge i 0 with hi | hi
  · refine .inr ⟨hi, ?_⟩
    obtain ⟨k, rfl⟩ := Int.eq_negSucc_of_lt_zero hi
    rfl
  · refine .inl ⟨hi, ?_⟩
    obtain ⟨k, rfl⟩ := Int.eq_ofNat_of_zero_le hi
    rfl

section Loop

variable {b : ℕ} {char : ℤ → UInt8} {digit : ℕ → UInt8}

/-- The loop writes the digits behind what has been written, the least significant one first. -/
theorem digitLoop_eq (hb : 1 < b) (hpos : ∀ d < b, char d = digit d) {i : ℤ}
    (hneg : i < 0 → ∀ d < b, char (-d) = digit d) {n : ℕ} (hn : i.natAbs < n) {w r : Bytes}
    (hr : (lsdDigits b i.natAbs).length ≤ r.length) :
    digitLoop b char n i (w ++ r) w.length =
      some (w ++ (lsdDigits b i.natAbs).map digit ++ r.drop (lsdDigits b i.natAbs).length,
        w.length + (lsdDigits b i.natAbs).length) := by
  induction n generalizing i w r with
  | zero => exact absurd hn (Nat.not_lt_zero _)
  | succ n ih =>
    have hlt : i.natAbs % b < b := Nat.mod_lt _ (by omega)
    have hchar : char (i.tmod b) = digit (i.natAbs % b) := by
      rcases tmod_eq i b with ⟨-, heq⟩ | ⟨hi, heq⟩
      · rw [heq, hpos _ hlt]
      · rw [heq, hneg hi _ hlt]
    have hdiv : (i.tdiv b).natAbs = i.natAbs / b := by
      rw [Int.natAbs_tdiv]
      rfl
    rw [lsdDigits_eq hb] at hr ⊢
    rw [List.length_cons] at hr
    rw [digitLoop, hchar, put_next (by omega), Option.bind_eq_bind, Option.bind_some]
    by_cases hzero : i.natAbs / b = 0
    · have hend : i.tdiv b = 0 := Int.natAbs_eq_zero.mp (hdiv.trans hzero)
      rw [if_neg (not_not.mpr hend), if_pos hzero]
      rfl
    · have hmore : i.tdiv b ≠ 0 := fun h => hzero (by rw [← hdiv, h]; rfl)
      rw [if_neg hzero] at hr
      have hneg' : i.tdiv b < 0 → ∀ d < b, char (-d) = digit d := fun h => hneg (by
        by_contra hnonneg
        exact absurd (Int.tdiv_nonneg (not_lt.mp hnonneg) (Int.natCast_nonneg b)) (not_le.mpr h))
      have hless : (i.tdiv b).natAbs < n := by
        have hsmaller : i.natAbs / b < i.natAbs :=
          Nat.div_lt_self (Nat.pos_of_ne_zero fun h => hzero (by rw [h, Nat.zero_div])) hb
        omega
      have hrest : (lsdDigits b (i.tdiv b).natAbs).length ≤ (r.drop 1).length := by
        rw [hdiv, List.length_drop]
        omega
      have hnext := ih hneg' hless (w := w ++ [digit (i.natAbs % b)]) hrest
      rw [List.length_append, List.length_singleton] at hnext
      rw [if_pos hmore, if_neg hzero, hnext, hdiv]
      simp [Nat.add_assoc, Nat.add_comm 1]

end Loop

/-! ## What is written -/

/-- The character of a decimal digit. -/
def decimalChar (d : ℕ) : UInt8 := UInt8.ofNat (48 + d)

/-- The character of a hexadecimal digit. -/
def hexChar (d : ℕ) : UInt8 := digitsHex.getD d 0

/-- The text that `convert` writes. -/
def integerText (v : ℤ) : Bytes :=
  if v < 0 then '-'.toUInt8 :: numeral 10 decimalChar v.natAbs else numeral 10 decimalChar v.natAbs

/-- The text that `convertHex` writes. -/
def hexText (n : ℕ) : Bytes :=
  numeral 16 hexChar n

theorem zero_eq : ∀ d : ℕ, d < 10 → zero d = decimalChar d := by decide

/-- The table is mirrored at zero. -/
theorem zero_neg : ∀ d : ℕ, d < 10 → zero (-d) = decimalChar d := by decide

/-- The loop from the start of the array. -/
theorem digitLoop_zero {b : ℕ} {char : ℤ → UInt8} {digit : ℕ → UInt8} (hb : 1 < b)
    (hpos : ∀ d < b, char d = digit d) {i : ℤ} (hneg : i < 0 → ∀ d < b, char (-d) = digit d)
    {buf : Bytes} (hbuf : (numeral b digit i.natAbs).length ≤ buf.length) :
    digitLoop b char (i.natAbs + 1) i buf 0 =
      some ((numeral b digit i.natAbs).reverse ++ buf.drop (numeral b digit i.natAbs).length,
        (numeral b digit i.natAbs).reverse.length) := by
  have hloop := digitLoop_eq hb hpos hneg (Nat.lt_succ_self i.natAbs) (w := []) (r := buf)
    (by rwa [length_numeral] at hbuf)
  simpa [numeral] using hloop

theorem terminate_eq {w r : Bytes} (hr : 0 < r.length) :
    terminate (w ++ r) w.length = some (w.reverse ++ 0 :: r.drop 1, w.length) := by
  rw [terminate, put_next hr, Option.map_some, List.append_assoc, reverse_append]
  rfl

theorem convert_eq {v : ℤ} {buf : Bytes} (hbuf : (integerText v).length < buf.length) :
    convert buf v = some (integerText v ++ 0 :: buf.drop ((integerText v).length + 1),
      (integerText v).length) := by
  have hloop := @digitLoop_zero 10 zero decimalChar (by decide) zero_eq v (fun _ => zero_neg) buf
  rw [show ((10 : ℕ) : ℤ) = 10 from rfl] at hloop
  unfold integerText at hbuf ⊢
  unfold convert
  generalize numeral 10 decimalChar v.natAbs = ds at hbuf hloop ⊢
  by_cases hv : v < 0
  · rw [if_pos hv, List.length_cons] at hbuf
    have hsign := @put_next ds.reverse (buf.drop ds.length) (by rw [List.length_drop]; omega)
      '-'.toUInt8
    have hend := @terminate_eq (ds.reverse ++ ['-'.toUInt8]) ((buf.drop ds.length).drop 1)
      (by rw [List.length_drop, List.length_drop]; omega)
    rw [List.length_append, List.length_singleton] at hend
    simp only [hloop (by omega), putSign, if_pos hv, hsign, Option.map_some, Option.bind_eq_bind,
      Option.bind_some, hend]
    simp
  · rw [if_neg hv] at hbuf
    have hend := @terminate_eq ds.reverse (buf.drop ds.length) (by rw [List.length_drop]; omega)
    simp only [hloop (by omega), putSign, if_neg hv, Option.bind_eq_bind, Option.bind_some, hend]
    simp

theorem hexDigit_eq : ∀ d : ℕ, d < 16 → hexDigit d = hexChar d := by decide

theorem convertHex_eq {v : BitVec 64} {buf : Bytes} (hbuf : (hexText v.toNat).length < buf.length) :
    convertHex buf v = some (hexText v.toNat ++ 0 :: buf.drop ((hexText v.toNat).length + 1),
      (hexText v.toNat).length) := by
  have hneg : (v.toNat : ℤ) < 0 → ∀ d : ℕ, d < 16 → hexDigit (-d) = hexChar d := fun h => by
    omega
  have hloop := @digitLoop_zero 16 hexDigit hexChar (by decide) hexDigit_eq v.toNat hneg buf
  rw [show ((16 : ℕ) : ℤ) = 16 from rfl, Int.natAbs_natCast] at hloop
  unfold hexText at hbuf ⊢
  unfold convertHex
  generalize numeral 16 hexChar v.toNat = ds at hbuf hloop ⊢
  have hend := @terminate_eq ds.reverse (buf.drop ds.length) (by rw [List.length_drop]; omega)
  simp only [hloop (by omega), Option.bind_eq_bind, Option.bind_some, hend]
  simp

/-! ## Reading it back -/

/-- The digit of a decimal character. -/
def decimalDigit? (c : UInt8) : Option ℕ :=
  if '0'.toUInt8 ≤ c ∧ c ≤ '9'.toUInt8 then some (c.toNat - '0'.toNat) else none

/-- The digit of a hexadecimal character, in upper case. -/
def hexDigit? (c : UInt8) : Option ℕ :=
  if 'A'.toUInt8 ≤ c ∧ c ≤ 'F'.toUInt8 then some (c.toNat - 'A'.toNat + 10) else decimalDigit? c

/-- The integer that a text denotes. -/
def integer? (text : Bytes) : Option ℤ :=
  if text.head? = some '-'.toUInt8 then
    (numeral? 10 decimalDigit? text.tail).map fun n : ℕ => -(n : ℤ)
  else (numeral? 10 decimalDigit? text).map fun n : ℕ => (n : ℤ)

/-- The text is the integer as it is written : a sign if and only if it is negative, and then the
numeral of its size. -/
def IsDecimal (text : Bytes) (v : ℤ) : Prop :=
  ∃ ds, text = (if v < 0 then ['-'.toUInt8] else []) ++ ds ∧
    IsNumeral 10 decimalDigit? ds v.natAbs

theorem decimalDigit?_char : ∀ d < 10, decimalDigit? (decimalChar d) = some d := by decide

theorem hexDigit?_char : ∀ d < 16, hexDigit? (hexChar d) = some d := by decide

theorem isDecimal_integerText (v : ℤ) : IsDecimal (integerText v) v := by
  refine ⟨numeral 10 decimalChar v.natAbs, ?_, isNumeral_numeral (by decide) decimalDigit?_char _⟩
  unfold integerText
  split_ifs <;> rfl

/-- A text that is the integer as it is written reads as the integer. -/
theorem IsDecimal.integer? {text : Bytes} {v : ℤ} (h : IsDecimal text v) :
    LogStream.integer? text = some v := by
  obtain ⟨ds, rfl, hds⟩ := h
  unfold LogStream.integer?
  by_cases hv : v < 0
  · have hhead : (['-'.toUInt8] ++ ds).head? = some '-'.toUInt8 := rfl
    have htail : (['-'.toUInt8] ++ ds).tail = ds := rfl
    rw [if_pos hv, if_pos hhead, htail, hds.value, Option.map_some]
    congr 1
    omega
  · have hhead : ds.head? ≠ some '-'.toUInt8 := fun h => by
      cases numeral?_head hds.value h
    rw [if_neg hv, List.nil_append, if_neg hhead, hds.value, Option.map_some]
    congr 1
    omega

/-! ## Every integer -/

/-- An integer of `w` bits. -/
theorem natAbs_toInt_lt {w : ℕ} (hw : w ≤ 64) (x : BitVec w) : x.toInt.natAbs < 2 ^ 64 := by
  have hlt := x.isLt
  have hpow : 2 ^ w ≤ 2 ^ 64 := Nat.pow_le_pow_right (by decide) hw
  rw [BitVec.toInt_eq_toNat_cond]
  split_ifs <;> omega

theorem natAbs_toNat_lt {w : ℕ} (hw : w ≤ 64) (x : BitVec w) : (x.toNat : ℤ).natAbs < 2 ^ 64 := by
  have hlt := x.isLt
  have hpow : 2 ^ w ≤ 2 ^ 64 := Nat.pow_le_pow_right (by decide) hw
  omega

theorem Integer.natAbs_value_lt (v : Integer) : v.value.natAbs < 2 ^ 64 := by
  cases v with
  | short v => exact natAbs_toInt_lt (by decide) v
  | unsignedShort v => exact natAbs_toNat_lt (by decide) v
  | int v => exact natAbs_toInt_lt (by decide) v
  | unsignedInt v => exact natAbs_toNat_lt (by decide) v
  | long v => exact natAbs_toInt_lt (by decide) v
  | unsignedLong v => exact natAbs_toNat_lt (by decide) v
  | longLong v => exact natAbs_toInt_lt (by decide) v
  | unsignedLongLong v => exact natAbs_toNat_lt (by decide) v

theorem length_integerText_le {v : ℤ} (hv : v.natAbs < 2 ^ 64) : (integerText v).length ≤ 21 := by
  have hdigits : (numeral 10 decimalChar v.natAbs).length ≤ 20 := by
    rw [length_numeral]
    refine (length_lsdDigits_le_iff (by decide) (by decide)).mpr (Nat.lt_of_lt_of_le hv ?_)
    decide
  unfold integerText
  split_ifs
  · rw [List.length_cons]
    omega
  · omega

theorem length_hexText_le (v : BitVec 64) : (hexText v.toNat).length ≤ 16 := by
  rw [hexText, length_numeral]
  exact (length_lsdDigits_le_iff (by decide) (by decide)).mpr v.isLt

/-- For every integer that the stream accepts, and every array with room for a number : `convert`
writes the integer as it is written in decimal, with a terminating zero, nothing else changes, and
it returns the length, which is below `kMaxNumericSize` with the zero; the text reads as the
integer. And `convertHex` does so for every pointer, in hexadecimal, behind the two characters that
`operator<<` has put in front. -/
theorem convert_canonical :
    (∀ (v : Integer) (buf : Bytes), kMaxNumericSize ≤ buf.length →
      ∃ text, convert buf v.argument =
          some (text ++ 0 :: buf.drop (text.length + 1), text.length) ∧
        text.length + 1 < kMaxNumericSize ∧ IsDecimal text v.value ∧
        integer? text = some v.value) ∧
    (∀ (v : BitVec 64) (buf : Bytes), kMaxNumericSize ≤ 2 + buf.length →
      ∃ text, convertHex buf v = some (text ++ 0 :: buf.drop (text.length + 1), text.length) ∧
        text.length + 1 < kMaxNumericSize ∧ IsNumeral 16 hexDigit? text v.toNat) := by
  have hmax : kMaxNumericSize = 32 := rfl
  refine ⟨fun v buf hbuf => ?_, fun v buf hbuf => ?_⟩
  · have hlen := length_integerText_le v.natAbs_value_lt
    have hdecimal := isDecimal_integerText v.value
    refine ⟨integerText v.value, ?_, by omega, hdecimal, hdecimal.integer?⟩
    rw [v.argument_eq]
    exact convert_eq (by omega)
  · have hlen := length_hexText_le v
    refine ⟨hexText v.toNat, convertHex_eq (by omega), by omega, ?_⟩
    exact isNumeral_numeral (by decide) hexDigit?_char v.toNat

/-- The most negative `long`, and the greatest pointer. -/
theorem convert_canonical_extremes :
    (∃ text, convert (List.replicate 32 1) (Integer.long (BitVec.intMin 64)).argument =
        some (text ++ 0 :: (List.replicate 32 1).drop (text.length + 1), text.length) ∧
      integer? text = some (-9223372036854775808)) ∧
    (∃ text, convertHex (List.replicate 30 1) (BitVec.allOnes 64) =
        some (text ++ 0 :: (List.replicate 30 1).drop (text.length + 1), text.length) ∧
      IsNumeral 16 hexDigit? text 18446744073709551615) := by
  obtain ⟨text, hcall, -, -, hread⟩ :=
    convert_canonical.1 (.long (BitVec.intMin 64)) (List.replicate 32 1) (by decide)
  obtain ⟨text', hcall', -, hread'⟩ :=
    convert_canonical.2 (BitVec.allOnes 64) (List.replicate 30 1) (by decide)
  exact ⟨⟨text, hcall, hread⟩, text', hcall', hread'⟩

end LogStream

end Tmuduo
