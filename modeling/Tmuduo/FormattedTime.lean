import Mathlib.Algebra.Ring.Int.Defs
import Tmuduo.Calendar
import Tmuduo.TimeFormat
import Tmuduo.Timestamp

/-!
# Timestamps as text

`toString` and `toFormattedString` of `Timestamp` print the time in UTC+8. `toString` adds the eight
hours to the seconds. `toFormattedString` adds them to the hour of the broken-down time, behind
`gmtime_r`, so nothing is carried into the day. `gmtime_r` is the function of the C library;
`GregorianUtc` says that it gives the fields of the Gregorian calendar (`utc`).

`formatted_time_iff` says that the text is the time in UTC+8 if and only if it is before four in
the afternoon in UTC. The texts are in the order of the times in any case
(`toFormattedString_lt`).
-/

set_option autoImplicit false

namespace Tmuduo

/-! ## The fields of a second -/

/-- The fields of the second `s` after the epoch, in UTC. -/
def utc (s : ℕ) : Tm where
  tm_year := (Date.ofDay (s / 86400)).year - 1900
  tm_mon := (Date.ofDay (s / 86400)).month - 1
  tm_mday := (Date.ofDay (s / 86400)).day
  tm_hour := (s % 86400 / 3600 : ℕ)
  tm_min := (s % 3600 / 60 : ℕ)
  tm_sec := (s % 60 : ℕ)

/-- The fields of the Gregorian calendar, from the epoch on. -/
def GregorianUtc (gmtime_r : ℤ → Tm) : Prop :=
  ∀ s : ℕ, gmtime_r s = utc s

namespace Timestamp

/-! ## The functions -/

/-- `Timestamp::toString`. -/
def toString (t : Timestamp) : Bytes :=
  let seconds := t.tdiv kMicroSecondsPerSecond
  let seconds := seconds + 8 * 60 * 60
  let microseconds := t.tmod kMicroSecondsPerSecond
  snprintf (32 - 1) (signedDecimal seconds ++ ascii "." ++ zeroPadded 6 microseconds)

/-- `Timestamp::toFormattedString`. -/
def toFormattedString (gmtime_r : ℤ → Tm) (t : Timestamp) (showMicroseconds : Bool) : Bytes :=
  let seconds := t.tdiv kMicroSecondsPerSecond
  let tm_time := gmtime_r seconds
  let shown := { tm_time with tm_hour := tm_time.tm_hour + 8 }
  if showMicroseconds then
    let microseconds := t.tmod kMicroSecondsPerSecond
    snprintf 64 (shown.format ++ ascii "." ++ zeroPadded 6 microseconds)
  else snprintf 64 shown.format

/-! ## What they should show -/

/-- The whole seconds since the epoch, of a time that is not before it. -/
def wholeSeconds (t : Timestamp) : ℕ := (t.tdiv kMicroSecondsPerSecond).toNat

/-- The microseconds behind the second. -/
def microsecondsText (t : Timestamp) : Bytes :=
  ascii "." ++ zeroPadded 6 (t.tmod kMicroSecondsPerSecond)

/-- The fields with the microseconds of `t`, or without. -/
def withMicroseconds (t : Timestamp) (tm : Tm) (showMicroseconds : Bool) : Bytes :=
  tm.format ++ if showMicroseconds then t.microsecondsText else []

/-- The time is an `int64_t` that is not before the epoch, and its year in UTC has four digits. -/
structure FourDigitYear (t : Timestamp) : Prop where
  nonneg : 0 ≤ t
  lt : t < 2 ^ 63
  year_le : (utc t.wholeSeconds).tm_year + 1900 ≤ 9999

/-- The text of the time is that of its fields in UTC+8, with an hour of the day; they are the
fields of the second that `toString` prints; and no later second has a smaller text. -/
structure IsBeijingTime (gmtime_r : ℤ → Tm) (t : Timestamp) : Prop where
  fields : ∃ tm, tm = utc (t.wholeSeconds + 8 * 60 * 60) ∧ 0 ≤ tm.tm_hour ∧ tm.tm_hour ≤ 23 ∧
    ∀ b, t.toFormattedString gmtime_r b = t.withMicroseconds tm b
  printed : ∃ seconds : ℕ,
    t.toString = decimal seconds ++ t.microsecondsText ∧
    ∀ b, t.toFormattedString gmtime_r b = t.withMicroseconds (utc seconds) b
  later : ∀ t' : Timestamp, t'.FourDigitYear → t.wholeSeconds < t'.wholeSeconds →
    ∀ b, ¬t'.toFormattedString gmtime_r b < t.toFormattedString gmtime_r b

end Timestamp

/-! ## The text of a second -/

/-- The text of the second `s`, with `k` added to the hour. -/
def clock (k s : ℕ) : Bytes :=
  timeFields (Date.ofDay (s / 86400)).year (Date.ofDay (s / 86400)).month
    (Date.ofDay (s / 86400)).day (s % 86400 / 3600 + k) (s % 3600 / 60) (s % 60)

theorem format_utc (k s : ℕ) :
    ({ utc s with tm_hour := (utc s).tm_hour + k } : Tm).format = clock k s := by
  have hyear := Date.year_ofDay (s / 86400)
  refine Tm.format_eq ?_ (by omega) ?_ rfl rfl rfl rfl
  · simp only [utc]
    omega
  · simp only [utc]
    omega

theorem length_clock_eq_iff {k : ℕ} (hk : k ≤ 8) (s : ℕ) :
    (clock k s).length = 17 ↔ (Date.ofDay (s / 86400)).year < 10 ^ 4 := by
  have hmonth := (Date.ofDay (s / 86400)).month_le
  have hday := (Date.ofDay (s / 86400)).day_le
  have hdays := daysInMonth_le (Date.ofDay (s / 86400)).year (Date.ofDay (s / 86400)).month
  exact length_timeFields_eq_iff (by omega) (by omega) (by omega) (by omega) (by omega)

/-- An earlier date, or an earlier hour, minute or second of the same date. -/
theorem clock_lt {k k' s s' : ℕ} (hk : k' ≤ 8) (hyear : (Date.ofDay (s' / 86400)).year < 10 ^ 4)
    (h : s / 86400 < s' / 86400 ∨ k = k' ∧ s < s') : clock k s < clock k' s' := by
  have hmonth := (Date.ofDay (s' / 86400)).month_le
  have hday := (Date.ofDay (s' / 86400)).day_le
  have hdays := daysInMonth_le (Date.ofDay (s' / 86400)).year (Date.ofDay (s' / 86400)).month
  refine timeFields_lt hyear (by omega) (by omega) (by omega) (by omega) (by omega) ?_
  by_cases hdate : s / 86400 < s' / 86400
  · rcases Date.ofDay_before hdate with hy | ⟨hy, hm | ⟨hm, hd⟩⟩
    · exact Or.inl hy
    · exact Or.inr ⟨hy, Or.inl hm⟩
    · exact Or.inr ⟨hy, Or.inr ⟨hm, Or.inl hd⟩⟩
  · obtain ⟨rfl, hlt⟩ := h.resolve_left hdate
    have hsame : s / 86400 = s' / 86400 := by omega
    rw [hsame]
    refine Or.inr ⟨rfl, Or.inr ⟨rfl, Or.inr ⟨rfl, ?_⟩⟩⟩
    omega

/-- Eight hours more on the same day. -/
theorem clock_eight_of_lt {s : ℕ} (h : s % 86400 < 16 * 60 * 60) :
    clock 8 s = clock 0 (s + 8 * 60 * 60) := by
  have hdate : (s + 8 * 60 * 60) / 86400 = s / 86400 := by omega
  have hhour : (s + 8 * 60 * 60) % 86400 / 3600 + 0 = s % 86400 / 3600 + 8 := by omega
  have hmin : (s + 8 * 60 * 60) % 3600 / 60 = s % 3600 / 60 := by omega
  have hsec : (s + 8 * 60 * 60) % 60 = s % 60 := by omega
  rw [clock, clock, hdate, hhour, hmin, hsec]

/-- Eight hours more on the next day : the date is not carried. -/
theorem clock_eight_ne {s : ℕ} (hyear : (Date.ofDay (s / 86400)).year < 10 ^ 4)
    (h : ¬s % 86400 < 16 * 60 * 60) : clock 8 s ≠ clock 0 (s + 8 * 60 * 60) := by
  intro heq
  by_cases hyear' : (Date.ofDay ((s + 8 * 60 * 60) / 86400)).year < 10 ^ 4
  · have hlt : clock 8 s < clock 0 (s + 8 * 60 * 60) :=
      clock_lt (by decide) hyear' (Or.inl (by omega))
    rw [heq] at hlt
    exact List.lt_irrefl _ hlt
  · -- The last eight hours of the year 9999.
    have hlen := (length_clock_eq_iff (k := 8) (by decide) s).mpr hyear
    rw [heq] at hlen
    exact hyear' ((length_clock_eq_iff (by decide) _).mp hlen)

namespace Timestamp

variable {gmtime_r : ℤ → Tm} {t t' : Timestamp}

/-! ## The text of a timestamp -/

theorem FourDigitYear.tdiv_eq (h : t.FourDigitYear) :
    t.tdiv kMicroSecondsPerSecond = t.wholeSeconds :=
  (Int.toNat_of_nonneg (Int.tdiv_nonneg h.nonneg (by decide))).symm

theorem FourDigitYear.year_lt (h : t.FourDigitYear) :
    (Date.ofDay (t.wholeSeconds / 86400)).year < 10 ^ 4 := by
  have hle := h.year_le
  simp only [utc] at hle
  omega

theorem FourDigitYear.length_microsecondsText (h : t.FourDigitYear) :
    t.microsecondsText.length = 7 := by
  have hnonneg : 0 ≤ t.tmod kMicroSecondsPerSecond := Int.tmod_nonneg _ h.nonneg
  have hlt : t.tmod kMicroSecondsPerSecond < 10 ^ 6 := Int.tmod_lt_of_pos t (by decide)
  obtain ⟨n, hn⟩ := Int.eq_ofNat_of_zero_le hnonneg
  have hdot : (ascii ".").length = 1 := rfl
  rw [microsecondsText, hn, zeroPadded_natCast, List.length_append, hdot,
    length_padded (by decide) (by omega)]

theorem toFormattedString_eq (hg : GregorianUtc gmtime_r) (h : t.FourDigitYear) (b : Bool) :
    t.toFormattedString gmtime_r b =
      clock 8 t.wholeSeconds ++ if b then t.microsecondsText else [] := by
  have hclock := (length_clock_eq_iff (k := 8) (by decide) t.wholeSeconds).mpr h.year_lt
  have hmicro := h.length_microsecondsText
  have hformat : Tm.format { utc t.wholeSeconds with
      tm_hour := (utc t.wholeSeconds).tm_hour + 8 } = clock 8 t.wholeSeconds := format_utc 8 _
  simp only [toFormattedString, h.tdiv_eq, hg t.wholeSeconds, hformat]
  cases b with
  | false =>
    rw [if_neg (by decide), if_neg (by decide), List.append_nil]
    exact List.take_of_length_le (by omega)
  | true =>
    rw [if_pos rfl, if_pos rfl, List.append_assoc]
    refine List.take_of_length_le ?_
    rw [← microsecondsText, List.length_append]
    omega

/-- `toString` prints the second of UTC+8. -/
theorem toString_eq (h : t.FourDigitYear) :
    t.toString = decimal (t.wholeSeconds + 8 * 60 * 60) ++ t.microsecondsText := by
  have hmicro := h.length_microsecondsText
  have hseconds : (t.wholeSeconds : ℤ) < 2 ^ 63 := by
    rw [← h.tdiv_eq]
    exact Int.lt_of_le_of_lt (Int.tdiv_le_self _ h.nonneg) h.lt
  have hdecimal : (decimal (t.wholeSeconds + 8 * 60 * 60)).length ≤ 20 :=
    (length_decimal_le_iff (by decide)).mpr (by omega)
  have hsigned : signedDecimal (t.wholeSeconds + 8 * 60 * 60) =
      decimal (t.wholeSeconds + 8 * 60 * 60) := by
    rw [signedDecimal, if_neg (by omega)]
    congr 1
  simp only [toString, h.tdiv_eq, hsigned, List.append_assoc]
  refine List.take_of_length_le ?_
  rw [← microsecondsText, List.length_append]
  omega

/-- The texts are in the order of the seconds. -/
theorem toFormattedString_lt (hg : GregorianUtc gmtime_r) (h : t.FourDigitYear)
    (h' : t'.FourDigitYear) (hlt : t.wholeSeconds < t'.wholeSeconds) (b : Bool) :
    t.toFormattedString gmtime_r b < t'.toFormattedString gmtime_r b := by
  have hlen := (length_clock_eq_iff (k := 8) (by decide) t.wholeSeconds).mpr h.year_lt
  have hlen' := (length_clock_eq_iff (k := 8) (by decide) t'.wholeSeconds).mpr h'.year_lt
  rw [toFormattedString_eq hg h, toFormattedString_eq hg h']
  refine append_lt_append (hlen.trans hlen'.symm) ?_
  exact clock_lt (by decide) h'.year_lt (Or.inr ⟨rfl, hlt⟩)

/-- With a `gmtime_r` that gives the fields of the Gregorian calendar, for every time from the epoch
on whose year has four digits : the text is the time in UTC+8, as `toString` prints it, if and only
if eight hours more are on the same day. A later second has a later text in any case. -/
theorem formatted_time_iff (hg : GregorianUtc gmtime_r) (h : t.FourDigitYear) :
    (IsBeijingTime gmtime_r t ↔ t.wholeSeconds % 86400 < 16 * 60 * 60) ∧
    ∀ t' : Timestamp, t'.FourDigitYear → t.wholeSeconds < t'.wholeSeconds →
      ∀ b, t.toFormattedString gmtime_r b < t'.toFormattedString gmtime_r b := by
  have hbeijing : (utc (t.wholeSeconds + 8 * 60 * 60)).format =
      clock 0 (t.wholeSeconds + 8 * 60 * 60) := by
    have hformat := format_utc 0 (t.wholeSeconds + 8 * 60 * 60)
    rwa [Int.natCast_zero, Int.add_zero] at hformat
  refine ⟨⟨fun hbt => ?_, fun hhour => ?_⟩, fun t' h' hlt => toFormattedString_lt hg h h' hlt⟩
  · obtain ⟨tm, rfl, -, -, htext⟩ := hbt.fields
    have hfalse := htext false
    rw [toFormattedString_eq hg h, withMicroseconds, hbeijing] at hfalse
    by_contra hhour
    exact clock_eight_ne h.year_lt hhour (List.append_cancel_right hfalse)
  · have htext : ∀ b, t.toFormattedString gmtime_r b =
        t.withMicroseconds (utc (t.wholeSeconds + 8 * 60 * 60)) b := by
      intro b
      rw [toFormattedString_eq hg h, withMicroseconds, hbeijing, clock_eight_of_lt hhour]
    refine ⟨⟨_, rfl, ?_, ?_, htext⟩, ⟨_, toString_eq h, htext⟩, fun t' h' hlt b => ?_⟩
    · simp only [utc]
      omega
    · simp only [utc]
      omega
    · exact List.lt_asymm (toFormattedString_lt hg h h' hlt b)

/-- A `gmtime_r` for the times from the epoch on. -/
def gregorian (seconds : ℤ) : Tm := utc seconds.toNat

theorem gregorianUtc_gregorian : GregorianUtc gregorian := fun _ => rfl

/-- The last second before midnight in UTC+8. -/
theorem formatted_time_iff_before_midnight :
    (57599999999 : Timestamp).FourDigitYear ∧
    toFormattedString gregorian 57599999999 true = ascii "19700101 23:59:59.999999" ∧
    IsBeijingTime gregorian 57599999999 := by
  have h : (57599999999 : Timestamp).FourDigitYear := ⟨by decide, by decide, by decide⟩
  exact ⟨h, by decide, (formatted_time_iff gregorianUtc_gregorian h).1.mpr (by decide)⟩

/-- Midnight in UTC+8 : the hour is 24 and the date is that of the day before, while `toString`
prints the first second of the next day. -/
theorem toFormattedString_midnight :
    (57600000000 : Timestamp).FourDigitYear ∧
    toFormattedString gregorian 57600000000 false = ascii "19700101 24:00:00" ∧
    toString 57600000000 = ascii "86400.000000" ∧
    (gregorian 86400).format = ascii "19700102 00:00:00" ∧
    ¬IsBeijingTime gregorian 57600000000 := by
  have htext : toFormattedString gregorian 57600000000 false = ascii "19700101 24:00:00" := by
    decide
  refine ⟨⟨by decide, by decide, by decide⟩, htext, by decide, by decide, fun hbt => ?_⟩
  obtain ⟨tm, rfl, -, -, hfields⟩ := hbt.fields
  have hfalse := (hfields false).symm.trans htext
  exact absurd hfalse (by decide)

end Timestamp

end Tmuduo
