import Mathlib.Data.Nat.Bitwise
import Tmuduo.TimerQueue

/-!
# Microseconds as a `timespec`

`CurrentThread::sleepUSec` and `howMuchTimeFromNow` split a number of microseconds into seconds and
nanoseconds. The second takes the remainder and scales it. The first means to, but has `&` in the
place of `%`, and `*` binds closer than `&` : its nanoseconds are the bits that the number has in
common with `10 ^ 9`.

`timespec_exact_iff` says for which numbers that makes no difference (`FitsMask`).
-/

set_option autoImplicit false

namespace Tmuduo

/-- `CurrentThread::sleepUSec` : the argument of `nanosleep`. -/
def sleepUSec (usec : BitVec 64) : Timespec where
  tv_sec := usec.toInt.tdiv Timestamp.kMicroSecondsPerSecond
  tv_nsec := (usec &&& 1000000#64 * 1000#64).toInt

/-- The time is this number of microseconds, with less than a second in `tv_nsec`. -/
structure Timespec.IsExact (ts : Timespec) (microseconds : ℤ) : Prop where
  nonneg : 0 ≤ ts.tv_nsec
  normalised : ts.tv_nsec < 1000000000
  total : ts.tv_sec * 1000000000 + ts.tv_nsec = 1000 * microseconds

/-! ## The remainder -/

theorem howMuchTimeFromNow_exact {u : ℤ} (hu : 100 ≤ u) (now : Timestamp) :
    (howMuchTimeFromNow (now + u) now).IsExact u := by
  have hunit : Timestamp.kMicroSecondsPerSecond = 1000000 := rfl
  have hago : now + u - now = u := add_sub_cancel_left now u
  unfold howMuchTimeFromNow
  simp only [hago, if_neg (not_lt.mpr hu), hunit]
  have hsplit := Int.mul_tdiv_add_tmod u 1000000
  have hlow := Int.tmod_nonneg 1000000 (show 0 ≤ u by omega)
  have hhigh := Int.tmod_lt_of_pos u (show (0 : ℤ) < 1000000 by decide)
  refine ⟨?_, ?_, ?_⟩
  · simp only
    omega
  · simp only
    omega
  · simp only
    omega

/-! ## The mask -/

/-- A masked number is `v` if and only if `v` has no bit outside the mask, and the number has the
bits of `v` inside. -/
theorem and_eq_iff {u m v : ℕ} :
    u &&& m = v ↔ (∀ i, v.testBit i = true → m.testBit i = true) ∧
      ∀ i, m.testBit i = true → u.testBit i = v.testBit i := by
  constructor
  · rintro rfl
    refine ⟨fun i hi => ?_, fun i hi => ?_⟩
    · rw [Nat.testBit_and, Bool.and_eq_true] at hi
      exact hi.2
    · rw [Nat.testBit_and, hi, Bool.and_true]
  · rintro ⟨hsub, hsame⟩
    refine Nat.eq_of_testBit_eq fun i => ?_
    rw [Nat.testBit_and]
    cases hm : m.testBit i with
    | true => rw [hsame i hm, Bool.and_true]
    | false =>
      cases hv : v.testBit i with
      | true => exact absurd (hsub i hv) (by simp [hm])
      | false => rw [Bool.and_false]

/-- The places of the ones of `10 ^ 9` in base two. -/
def nanoBits : List ℕ := [9, 11, 14, 15, 17, 19, 20, 23, 24, 25, 27, 28, 29]

theorem testBit_nano (i : ℕ) : (1000000000 : ℕ).testBit i = true ↔ i ∈ nanoBits := by
  rcases Nat.lt_or_ge i 30 with hi | hi
  · revert i
    decide
  · have hbit : (1000000000 : ℕ).testBit i = false :=
      Nat.testBit_eq_false_of_lt
        (Nat.lt_of_lt_of_le (by decide) (Nat.pow_le_pow_right (by decide) hi))
    have hmem : i ∉ nanoBits := by
      simp only [nanoBits, List.mem_cons, List.not_mem_nil, or_false]
      omega
    simp [hbit, hmem]

/-- With `r` the microseconds past the second : the ones of `1000 * r` are at places of ones of
`10 ^ 9`, and at all of these `u` has the digits of `1000 * r`. -/
structure FitsMask (u : ℕ) : Prop where
  residue : ∀ i, (1000 * (u % 1000000)).testBit i = true → i ∈ nanoBits
  digits : ∀ i ∈ nanoBits, u.testBit i = (1000 * (u % 1000000)).testBit i

theorem fitsMask_iff {u : ℕ} : FitsMask u ↔ u &&& 1000000000 = 1000 * (u % 1000000) := by
  rw [and_eq_iff]
  simp only [testBit_nano]
  exact ⟨fun h => ⟨h.residue, h.digits⟩, fun h => ⟨h.1, h.2⟩⟩

/-- What `sleepUSec` makes of a number that is not negative. -/
theorem sleepUSec_eq {usec : BitVec 64} (h : 0 ≤ usec.toInt) :
    usec.toInt = usec.toNat ∧
      sleepUSec usec = ⟨(usec.toNat / 1000000 : ℕ), (usec.toNat &&& 1000000000 : ℕ)⟩ := by
  have hlt : 2 * usec.toNat < 2 ^ 64 := by
    rw [BitVec.toInt_eq_toNat_cond] at h
    split_ifs at h with hsmall
    · exact hsmall
    · have := usec.isLt
      omega
  have hnat : usec.toInt = usec.toNat := BitVec.toInt_eq_toNat_of_lt hlt
  have hmask : (usec &&& 1000000#64 * 1000#64).toNat = usec.toNat &&& 1000000000 := by
    rw [BitVec.toNat_and]
    rfl
  have hle : usec.toNat &&& 1000000000 ≤ 1000000000 := Nat.and_le_right
  refine ⟨hnat, ?_⟩
  rw [sleepUSec, hnat, BitVec.toInt_eq_toNat_of_lt (by rw [hmask]; omega), hmask]
  rfl

theorem sleepUSec_exact_iff {usec : BitVec 64} (h : 0 ≤ usec.toInt) :
    (sleepUSec usec).IsExact usec.toInt ↔ FitsMask usec.toNat := by
  obtain ⟨hnat, heq⟩ := sleepUSec_eq h
  rw [hnat, heq, fitsMask_iff]
  have hsplit := Nat.div_add_mod usec.toNat 1000000
  have hlt := Nat.mod_lt usec.toNat (show 0 < 1000000 by decide)
  constructor
  · intro hexact
    have htotal := hexact.total
    simp only at htotal
    omega
  · intro hmask
    refine ⟨?_, ?_, ?_⟩
    · simp only [hmask]
      omega
    · simp only [hmask]
      omega
    · simp only [hmask]
      omega

/-- For every number of microseconds that is not negative : both `timespec`s are normalised and
exactly this time (the second from 100 microseconds on), if and only if the number fits the mask. -/
theorem timespec_exact_iff (usec : BitVec 64) (h : 0 ≤ usec.toInt) :
    ((sleepUSec usec).IsExact usec.toInt ∧ (100 ≤ usec.toInt →
      ∀ now, (howMuchTimeFromNow (now + usec.toInt) now).IsExact usec.toInt)) ↔
    FitsMask usec.toNat := by
  rw [sleepUSec_exact_iff h]
  exact and_iff_left fun hu now => howMuchTimeFromNow_exact hu now

/-- A time of more than four minutes that fits. -/
theorem timespec_exact_four_minutes : (sleepUSec 246176704#64).IsExact 246176704 ∧
    ∀ now, (howMuchTimeFromNow (now + 246176704) now).IsExact 246176704 := by
  have hfits : FitsMask (246176704#64).toNat := fitsMask_iff.mpr (by decide)
  obtain ⟨hsleep, htimer⟩ := (timespec_exact_iff 246176704#64 (by decide)).mpr hfits
  exact ⟨hsleep, htimer (by decide)⟩

/-- Half a second becomes 164 microseconds. -/
theorem sleepUSec_half_second : sleepUSec 500000#64 = ⟨0, 163840⟩ ∧
    ¬(sleepUSec 500000#64).IsExact 500000 := by
  have heq : sleepUSec 500000#64 = ⟨0, 163840⟩ := by decide
  refine ⟨heq, fun hexact => ?_⟩
  have htotal := hexact.total
  rw [heq] at htotal
  cases htotal

end Tmuduo
