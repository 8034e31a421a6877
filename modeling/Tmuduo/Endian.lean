import Mathlib.Algebra.Ring.Int.Defs
import Mathlib.Algebra.Ring.Nat
import Mathlib.Data.List.Basic
import Mathlib.Tactic.Common

/-!
# Integers as bytes

`leBytes n v` are the `n` low bytes of `v`, lowest first, and `leValue` is the number that bytes are
in that order. An integer of `n` bytes is a `BitVec (8 * n)`; `objectBytes` is how it lies in the
memory of a little-endian host, `ofObject` is the integer that lies there, and `byteSwap` turns its
bytes around.

`bigEndian n v` is what the network expects : byte `i` of the `n` has the weight
`256 ^ (n - 1 - i)`, and a negative `v` is in two's complement because the division rounds down.
`objectBytes_byteSwap` says that a swapped integer lies in memory as the network expects it.
-/

set_option autoImplicit false

namespace Tmuduo

/-- The low `n` bytes of `v`, lowest first. -/
def leBytes : ℕ → ℕ → List UInt8
  | 0, _ => []
  | n + 1, v => UInt8.ofNat v :: leBytes n (v / 256)

/-- The number whose bytes these are, lowest first. -/
def leValue : List UInt8 → ℕ
  | [] => 0
  | b :: bs => b.toNat + 256 * leValue bs

@[simp] theorem length_leBytes (n v : ℕ) : (leBytes n v).length = n := by
  induction n generalizing v with
  | zero => rfl
  | succ n ih => rw [leBytes, List.length_cons, ih]

theorem leValue_leBytes (n v : ℕ) : leValue (leBytes n v) = v % 256 ^ n := by
  induction n generalizing v with
  | zero => simp [leBytes, leValue, Nat.mod_one]
  | succ n ih =>
    have hbyte : (UInt8.ofNat v).toNat = v % 256 := UInt8.toNat_ofNat'
    rw [leBytes, leValue, ih, hbyte, Nat.pow_succ, Nat.mul_comm (256 ^ n), Nat.mod_mul]

theorem leValue_lt (bs : List UInt8) : leValue bs < 256 ^ bs.length := by
  induction bs with
  | nil => simp [leValue]
  | cons b bs ih =>
    have hb := b.toNat_lt
    rw [leValue, List.length_cons, Nat.pow_succ]
    omega

theorem leBytes_leValue (bs : List UInt8) : leBytes bs.length (leValue bs) = bs := by
  induction bs with
  | nil => rfl
  | cons b bs ih =>
    have hb := b.toNat_lt
    have hdiv : leValue (b :: bs) / 256 = leValue bs := by
      rw [leValue]
      omega
    have hlow : UInt8.ofNat (leValue (b :: bs)) = b := by
      apply UInt8.toNat_inj.mp
      rw [UInt8.toNat_ofNat', leValue]
      omega
    rw [List.length_cons, leBytes, hdiv, hlow, ih]

theorem getElem?_leBytes {n i : ℕ} (v : ℕ) (h : i < n) :
    (leBytes n v)[i]? = some (UInt8.ofNat (v / 256 ^ i)) := by
  induction n generalizing v i with
  | zero => exact absurd h (Nat.not_lt_zero i)
  | succ n ih =>
    cases i with
    | zero => simp [leBytes]
    | succ i =>
      rw [leBytes, List.getElem?_cons_succ, ih _ (Nat.lt_of_succ_lt_succ h), Nat.div_div_eq_div_mul,
        Nat.pow_succ, Nat.mul_comm 256]

/-! ## Objects in memory -/

variable {n : ℕ}

/-- The integer as it lies in memory. -/
def objectBytes (x : BitVec (8 * n)) : List UInt8 :=
  leBytes n x.toNat

/-- The integer that lies in memory as these bytes. -/
def ofObject (n : ℕ) (bs : List UInt8) : BitVec (8 * n) :=
  BitVec.ofNat (8 * n) (leValue bs)

/-- The integer with its bytes in the other order. -/
def byteSwap (x : BitVec (8 * n)) : BitVec (8 * n) :=
  ofObject n (objectBytes x).reverse

@[simp] theorem length_objectBytes (x : BitVec (8 * n)) : (objectBytes x).length = n :=
  length_leBytes n _

theorem two_pow_eight_mul (n : ℕ) : 2 ^ (8 * n) = 256 ^ n :=
  Nat.pow_mul 2 8 n

@[simp] theorem ofObject_objectBytes (x : BitVec (8 * n)) : ofObject n (objectBytes x) = x := by
  apply BitVec.eq_of_toNat_eq
  rw [ofObject, objectBytes, leValue_leBytes, BitVec.toNat_ofNat, ← two_pow_eight_mul, Nat.mod_mod,
    Nat.mod_eq_of_lt x.isLt]

theorem objectBytes_ofObject {bs : List UInt8} (h : bs.length = n) :
    objectBytes (ofObject n bs) = bs := by
  subst h
  rw [objectBytes, ofObject, BitVec.toNat_ofNat, two_pow_eight_mul,
    Nat.mod_eq_of_lt (leValue_lt bs), leBytes_leValue]

theorem objectBytes_byteSwap_eq_reverse (x : BitVec (8 * n)) :
    objectBytes (byteSwap x) = (objectBytes x).reverse :=
  objectBytes_ofObject (by simp)

@[simp] theorem byteSwap_byteSwap (x : BitVec (8 * n)) : byteSwap (byteSwap x) = x := by
  rw [byteSwap, objectBytes_byteSwap_eq_reverse, List.reverse_reverse, ofObject_objectBytes]

/-! ## The order of the network -/

/-- The `n` bytes of `v` in two's complement, highest first. -/
def bigEndian (n : ℕ) (v : ℤ) : List UInt8 :=
  (List.range n).map fun i => UInt8.ofNat ((v / 256 ^ (n - 1 - i)) % 256).toNat

@[simp] theorem length_bigEndian (n : ℕ) (v : ℤ) : (bigEndian n v).length = n := by
  simp [bigEndian]

/-- A byte of a signed integer is the byte of its bit pattern. -/
theorem toInt_byte (x : BitVec (8 * n)) {k : ℕ} (hk : k < n) :
    (x.toInt / 256 ^ k) % 256 = ((x.toNat / 256 ^ k % 256 : ℕ) : ℤ) := by
  rw [BitVec.toInt_eq_toNat_cond, two_pow_eight_mul]
  split_ifs
  · simp
  · -- A multiple of `256 ^ (k + 1)` is taken away, which the byte does not see.
    obtain ⟨m, rfl⟩ : ∃ m, n = k + (m + 1) := ⟨n - k - 1, by omega⟩
    have hsplit : (x.toNat : ℤ) - ((256 ^ (k + (m + 1)) : ℕ) : ℤ) =
        x.toNat + -(256 ^ m) * 256 * 256 ^ k := by
      have hpow : ((256 ^ (k + (m + 1)) : ℕ) : ℤ) = 256 ^ m * 256 * 256 ^ k := by
        rw [Int.natCast_pow, Int.pow_add, Int.pow_succ, Int.mul_comm]
        rfl
      rw [hpow, Int.neg_mul, Int.neg_mul, Int.sub_eq_add_neg]
    have hpos : (256 ^ k : ℤ) ≠ 0 := Int.ne_of_gt (Int.pow_pos (by decide))
    rw [hsplit, Int.add_mul_ediv_right _ _ hpos, Int.add_mul_emod_self_right]
    simp

/-- A swapped integer lies in memory in the order of the network. -/
theorem objectBytes_byteSwap (x : BitVec (8 * n)) :
    objectBytes (byteSwap x) = bigEndian n x.toInt := by
  rw [objectBytes_byteSwap_eq_reverse]
  apply List.ext_getElem?
  intro i
  by_cases hi : i < n
  · have hk : n - 1 - i < n := by omega
    rw [List.getElem?_reverse (by simpa using hi), length_objectBytes, objectBytes,
      getElem?_leBytes _ hk, bigEndian, List.getElem?_map, List.getElem?_range hi, Option.map_some,
      toInt_byte x hk, Int.toNat_natCast]
    congr 1
    apply UInt8.toNat_inj.mp
    simp
  · rw [List.getElem?_eq_none (by simpa using hi), List.getElem?_eq_none (by simpa using hi)]

end Tmuduo
