import Tmuduo.Text

/-!
# Broken-down times as text

`zeroPadded` and `spacePadded` are the fields of `printf` with a width. `padded` is a field of
digits only, and texts of such fields are in the order of their numbers (`padded_append_lt`).

`Tm` is `struct tm`, which the log and the timestamps write with the same format (`Tm.format`). A
later time has a later text, field by field (`timeFields_lt`).
-/

set_option autoImplicit false

namespace Tmuduo

/-! ## Fields of a given width -/

def padLeft (w : ℕ) (c : UInt8) (text : Bytes) : Bytes :=
  List.replicate (w - text.length) c ++ text

/-- A number as `%0wd` prints it : the zeros stand behind the sign. -/
def zeroPadded (w : ℕ) (n : ℤ) : Bytes :=
  if n < 0 then ascii "-" ++ padLeft (w - 1) '0'.toUInt8 (decimal n.natAbs)
  else padLeft w '0'.toUInt8 (decimal n.natAbs)

/-- A number as `%wd` prints it. -/
def spacePadded (w : ℕ) (n : ℤ) : Bytes :=
  padLeft w ' '.toUInt8 (signedDecimal n)

theorem zero_not_mem_decimal (n : ℕ) : 0 ∉ decimal n := by
  intro h
  exact absurd (isDigit_of_mem_decimal h).1 (by decide)

theorem zero_not_mem_padLeft {w : ℕ} {c : UInt8} {text : Bytes} (hc : 0 ≠ c) (h : 0 ∉ text) :
    0 ∉ padLeft w c text := by
  rw [padLeft, List.mem_append, List.mem_replicate]
  rintro (⟨-, hzero⟩ | hzero)
  · exact hc hzero
  · exact h hzero

theorem zero_not_mem_zeroPadded (w : ℕ) (n : ℤ) : 0 ∉ zeroPadded w n := by
  have hpad := fun w => @zero_not_mem_padLeft w '0'.toUInt8 _ (by decide)
    (zero_not_mem_decimal n.natAbs)
  unfold zeroPadded
  split_ifs
  · rw [List.mem_append]
    rintro (hzero | hzero)
    · exact absurd hzero (by decide)
    · exact hpad _ hzero
  · exact hpad _

/-! ## The order of the fields -/

/-- A smaller text of the same length in front makes the whole text smaller. -/
theorem append_lt_append {a b x y : Bytes} (hlen : a.length = b.length) (h : a < b) :
    a ++ x < b ++ y := by
  induction a generalizing b with
  | nil =>
    rw [List.length_eq_zero_iff.mp hlen.symm] at h
    exact absurd h (List.lt_irrefl [])
  | cons c a ih =>
    obtain ⟨d, b, rfl⟩ := List.exists_cons_of_length_eq_add_one hlen.symm
    rw [List.cons_append, List.cons_append, List.cons_lt_cons_iff]
    rcases List.cons_lt_cons_iff.mp h with hcd | ⟨rfl, hab⟩
    · exact Or.inl hcd
    · exact Or.inr ⟨rfl, ih (Nat.succ.inj hlen) hab⟩

/-- The digits of a number in at least `w` places. -/
def padded (w n : ℕ) : Bytes := padLeft w '0'.toUInt8 (decimal n)

theorem length_padLeft {w : ℕ} {text : Bytes} (c : UInt8) (h : text.length ≤ w) :
    (padLeft w c text).length = w := by
  rw [padLeft, List.length_append, List.length_replicate]
  omega

theorem length_padded {w n : ℕ} (hw : 0 < w) (h : n < 10 ^ w) : (padded w n).length = w :=
  length_padLeft _ ((length_decimal_le_iff hw).mpr h)

theorem length_decimal_of_lt {n : ℕ} (h : n < 10) : (decimal n).length = 1 := by
  have hle := (@length_decimal_le_iff n 1 (by decide)).mpr h
  have hpos := length_decimal_pos n
  omega

/-- The last digit stands behind the others. -/
theorem padded_succ {w : ℕ} (hw : 0 < w) (n : ℕ) :
    padded (w + 1) n = padded w (n / 10) ++ decimal (n % 10) := by
  have hmod : n % 10 < 10 := Nat.mod_lt n (by decide)
  have hdigit := length_decimal_of_lt hmod
  unfold padded padLeft
  rcases Nat.eq_zero_or_pos (n / 10) with hzero | hpos
  · have hn : n % 10 = n := by omega
    rw [hn] at hdigit
    obtain ⟨k, rfl⟩ : ∃ k, w = k + 1 := ⟨w - 1, by omega⟩
    have hzeros : decimal 0 = ['0'.toUInt8] := rfl
    rw [hzero, hn, hdigit, hzeros, List.length_singleton, Nat.add_sub_cancel, Nat.add_sub_cancel,
      List.replicate_succ']
  · have hsplit := decimal_ten_mul_add hpos hmod
    rw [Nat.div_add_mod] at hsplit
    rw [hsplit, List.length_append, hdigit, Nat.add_sub_add_right, List.append_assoc]

theorem decimal_lt_decimal : ∀ n < 10, ∀ m < n, decimal m < decimal n := by
  decide

/-- Numbers of the same width are in the order of their texts. -/
theorem padded_lt_padded {w : ℕ} (hw : 0 < w) {m n : ℕ} (h : m < n) (hn : n < 10 ^ w) :
    padded w m < padded w n := by
  induction w generalizing m n with
  | zero => exact absurd hw (Nat.lt_irrefl 0)
  | succ w ih =>
    rcases Nat.eq_zero_or_pos w with rfl | hpos
    · have hone : ∀ k, k < 10 → padded (0 + 1) k = decimal k := fun k hk => by
        rw [padded, padLeft, length_decimal_of_lt hk, List.replicate_zero, List.nil_append]
      rw [hone m (by omega), hone n hn]
      exact decimal_lt_decimal n hn m h
    · have hn' : n / 10 < 10 ^ w := by
        rw [Nat.pow_succ] at hn
        omega
      rw [padded_succ hpos, padded_succ hpos]
      rcases Nat.eq_or_lt_of_le (Nat.div_le_div_right (c := 10) (Nat.le_of_lt h)) with heq | hlt
      · rw [heq]
        exact List.append_left_lt (decimal_lt_decimal _ (by omega) _ (by omega))
      · refine append_lt_append ?_ (ih hpos hlt hn')
        rw [length_padded hpos (by omega), length_padded hpos hn']

/-- A field in front of a text. -/
theorem padded_append_lt {w m n : ℕ} (hw : 0 < w) (hn : n < 10 ^ w) {x y : Bytes}
    (h : m < n ∨ m = n ∧ x < y) : padded w m ++ x < padded w n ++ y := by
  rcases h with hlt | ⟨rfl, hxy⟩
  · refine append_lt_append ?_ (padded_lt_padded hw hlt hn)
    rw [length_padded hw (Nat.lt_trans hlt hn), length_padded hw hn]
  · exact List.append_left_lt hxy

/-! ## `struct tm` -/

/-- `struct tm`, without the fields that are not read. -/
structure Tm where
  tm_year : ℤ
  tm_mon : ℤ
  tm_mday : ℤ
  tm_hour : ℤ
  tm_min : ℤ
  tm_sec : ℤ
  deriving DecidableEq, Repr

/-- `"%4d%02d%02d %02d:%02d:%02d"`. -/
def Tm.format (tm : Tm) : Bytes :=
  spacePadded 4 (tm.tm_year + 1900) ++ zeroPadded 2 (tm.tm_mon + 1) ++ zeroPadded 2 tm.tm_mday ++
    ascii " " ++ zeroPadded 2 tm.tm_hour ++ ascii ":" ++ zeroPadded 2 tm.tm_min ++ ascii ":" ++
    zeroPadded 2 tm.tm_sec

/-- The text of a time by its fields. -/
def timeFields (year month day hour min sec : ℕ) : Bytes :=
  padded 4 year ++ (padded 2 month ++ (padded 2 day ++ (ascii " " ++ (padded 2 hour ++
    (ascii ":" ++ (padded 2 min ++ (ascii ":" ++ padded 2 sec)))))))

theorem zeroPadded_natCast (w n : ℕ) : zeroPadded w n = padded w n := by
  rw [zeroPadded, if_neg (Int.not_lt.mpr (Int.natCast_nonneg n)), Int.natAbs_natCast, padded]

/-- A number that fills the width needs no padding. -/
theorem spacePadded_year {n : ℕ} (h : 1000 ≤ n) : spacePadded 4 n = padded 4 n := by
  have hlen : ¬(decimal n).length ≤ 3 := by
    rw [length_decimal_le_iff (by decide)]
    omega
  have hfull : 4 - (decimal n).length = 0 := by omega
  rw [spacePadded, signedDecimal, if_neg (Int.not_lt.mpr (Int.natCast_nonneg n)),
    Int.natAbs_natCast, padded, padLeft, padLeft, hfull, List.replicate_zero, List.replicate_zero]

theorem Tm.format_eq {tm : Tm} {year month day hour min sec : ℕ} (hyear : tm.tm_year + 1900 = year)
    (hlong : 1000 ≤ year) (hmonth : tm.tm_mon + 1 = month) (hday : tm.tm_mday = day)
    (hhour : tm.tm_hour = hour) (hmin : tm.tm_min = min) (hsec : tm.tm_sec = sec) :
    tm.format = timeFields year month day hour min sec := by
  rw [Tm.format, hyear, hmonth, hday, hhour, hmin, hsec, spacePadded_year hlong]
  simp only [zeroPadded_natCast, timeFields, List.append_assoc]

/-- The text has 17 bytes as long as the year has four digits, and more otherwise. -/
theorem length_timeFields_eq_iff {year month day hour min sec : ℕ} (hmonth : month < 100)
    (hday : day < 100) (hhour : hour < 100) (hmin : min < 100) (hsec : sec < 100) :
    (timeFields year month day hour min sec).length = 17 ↔ year < 10 ^ 4 := by
  have htwo : ∀ n < 100, (padded 2 n).length = 2 := fun n hn => length_padded (by decide) hn
  have hyear : (padded 4 year).length = 4 ↔ year < 10 ^ 4 := by
    rw [← length_decimal_le_iff (by decide), padded, padLeft, List.length_append,
      List.length_replicate]
    omega
  have hsep : (ascii " ").length = 1 ∧ (ascii ":").length = 1 := ⟨rfl, rfl⟩
  rw [← hyear, timeFields]
  simp only [List.length_append, htwo _ hmonth, htwo _ hday, htwo _ hhour, htwo _ hmin,
    htwo _ hsec, hsep.1, hsep.2]
  omega

/-- A later time has a later text. -/
theorem timeFields_lt {y m d h i s y' m' d' h' i' s' : ℕ} (hy : y' < 10 ^ 4) (hm : m' < 100)
    (hd : d' < 100) (hh : h' < 100) (hi : i' < 100) (hs : s' < 100)
    (hlt : y < y' ∨ y = y' ∧ (m < m' ∨ m = m' ∧ (d < d' ∨ d = d' ∧ (h < h' ∨ h = h' ∧
      (i < i' ∨ i = i' ∧ s < s'))))) :
    timeFields y m d h i s < timeFields y' m' d' h' i' s' := by
  refine padded_append_lt (by decide) hy (hlt.imp id fun ⟨hy, hlt⟩ => ⟨hy, ?_⟩)
  refine padded_append_lt (by decide) hm (hlt.imp id fun ⟨hm, hlt⟩ => ⟨hm, ?_⟩)
  refine padded_append_lt (by decide) hd (hlt.imp id fun ⟨hd, hlt⟩ => ⟨hd, List.append_left_lt ?_⟩)
  refine padded_append_lt (by decide) hh (hlt.imp id fun ⟨hh, hlt⟩ => ⟨hh, List.append_left_lt ?_⟩)
  refine padded_append_lt (by decide) hi (hlt.imp id fun ⟨hi, hlt⟩ => ⟨hi, List.append_left_lt ?_⟩)
  exact padded_lt_padded (by decide) hlt hs

end Tmuduo
