import Mathlib.Data.Nat.Digits.Lemmas

/-!
# Numerals

`lsdDigits b n` are the digits of `n` in base `b`, the least significant one first, as a loop finds
them that divides by `b` until nothing is left. There is at least one. `numeral b char n` is their
text, the most significant one first, where `char` is the character of a digit.

`numeral?` reads a text back, where `digit?` is the digit of a character. `IsNumeral` says that a
text is the canonical numeral of a number : it reads as the number, it has a digit, and no leading
zero. `isNumeral_numeral` says that `numeral` writes such a text.
-/

set_option autoImplicit false

namespace Tmuduo

variable {b : ℕ}

/-- The digits of `n`, the least significant one first. -/
def lsdDigits (b n : ℕ) : List ℕ :=
  if n = 0 then [0] else Nat.digits b n

/-- The digits as a loop finds them that runs at least once. -/
theorem lsdDigits_eq (hb : 1 < b) (n : ℕ) :
    lsdDigits b n = n % b :: if n / b = 0 then [] else lsdDigits b (n / b) := by
  unfold lsdDigits
  by_cases hn : n = 0
  · simp [hn]
  · rw [if_neg hn, Nat.digits_def' hb (Nat.pos_of_ne_zero hn)]
    by_cases hdiv : n / b = 0
    · simp [hdiv]
    · rw [if_neg hdiv, if_neg hdiv]

theorem lsdDigits_ne_nil (b n : ℕ) : lsdDigits b n ≠ [] := by
  unfold lsdDigits
  split_ifs with hn
  · exact List.cons_ne_nil _ _
  · exact Nat.digits_ne_nil_iff_ne_zero.mpr hn

theorem lt_of_mem_lsdDigits (hb : 1 < b) {n d : ℕ} (hd : d ∈ lsdDigits b n) : d < b := by
  unfold lsdDigits at hd
  split_ifs at hd with hn
  · rw [List.mem_singleton] at hd
    omega
  · exact Nat.digits_lt_base hb hd

/-- Only zero starts with a zero. -/
theorem lsdDigits_of_getLast? {n : ℕ} (h : (lsdDigits b n).getLast? = some 0) :
    lsdDigits b n = [0] := by
  unfold lsdDigits at h ⊢
  split_ifs at h ⊢ with hn
  · rfl
  · have hne : Nat.digits b n ≠ [] := Nat.digits_ne_nil_iff_ne_zero.mpr hn
    rw [List.getLast?_eq_some_getLast hne] at h
    exact absurd (Option.some.inj h) (Nat.getLast_digit_ne_zero b hn)

theorem length_lsdDigits_le_iff (hb : 1 < b) {n k : ℕ} (hk : 0 < k) :
    (lsdDigits b n).length ≤ k ↔ n < b ^ k := by
  unfold lsdDigits
  split_ifs with hn
  · rw [hn]
    exact iff_of_true hk (Nat.pow_pos (by omega))
  · exact Nat.digits_length_le_iff hb n

theorem ofDigits_lsdDigits (b n : ℕ) : Nat.ofDigits b (lsdDigits b n) = n := by
  unfold lsdDigits
  split_ifs with hn
  · simp [hn]
  · exact Nat.ofDigits_digits b n

/-! ## Texts -/

variable {char : ℕ → UInt8} {digit? : UInt8 → Option ℕ}

/-- The text of a number. -/
def numeral (b : ℕ) (char : ℕ → UInt8) (n : ℕ) : List UInt8 :=
  ((lsdDigits b n).map char).reverse

/-- The number that a text of digits denotes. -/
def numeral? (b : ℕ) (digit? : UInt8 → Option ℕ) (text : List UInt8) : Option ℕ :=
  if text = [] then none else (text.mapM digit?).map (List.foldl (fun n d => b * n + d) 0)

/-- The text is the number as it is written : with a digit, and without leading zeros. -/
structure IsNumeral (b : ℕ) (digit? : UInt8 → Option ℕ) (text : List UInt8) (n : ℕ) : Prop where
  ne_nil : text ≠ []
  value : numeral? b digit? text = some n
  leading : text.head?.bind digit? = some 0 → text.length = 1

@[simp] theorem length_numeral (b : ℕ) (char : ℕ → UInt8) (n : ℕ) :
    (numeral b char n).length = (lsdDigits b n).length := by
  simp [numeral]

theorem numeral_ne_nil (b : ℕ) (char : ℕ → UInt8) (n : ℕ) : numeral b char n ≠ [] := by
  simp [numeral, lsdDigits_ne_nil]

/-- A list whose elements can be read back one by one can be read back. -/
theorem mapM_map_eq_some {α β : Type*} {f : α → β} {g : β → Option α} {l : List α}
    (h : ∀ a ∈ l, g (f a) = some a) : (l.map f).mapM g = some l := by
  induction l with
  | nil => rfl
  | cons a l ih =>
    obtain ⟨ha, hl⟩ := List.forall_mem_cons.mp h
    rw [List.map_cons, List.mapM_cons, ha, ih hl]
    rfl

theorem numeral?_numeral (hb : 1 < b) (hchar : ∀ d < b, digit? (char d) = some d) (n : ℕ) :
    numeral? b digit? (numeral b char n) = some n := by
  have hdigits : (numeral b char n).mapM digit? = some (lsdDigits b n).reverse := by
    rw [numeral, ← List.map_reverse]
    refine mapM_map_eq_some fun d hd => hchar d ?_
    exact lt_of_mem_lsdDigits hb (List.mem_reverse.mp hd)
  rw [numeral?, if_neg (numeral_ne_nil b char n), hdigits, Option.map_some, List.foldl_reverse]
  have hvalue := ofDigits_lsdDigits b n
  rw [Nat.ofDigits_eq_foldr] at hvalue
  simpa [Nat.add_comm] using hvalue

/-- A text that denotes a number starts with a digit. -/
theorem numeral?_head {text : List UInt8} {n : ℕ} (h : numeral? b digit? text = some n) {c : UInt8}
    (hc : text.head? = some c) : (digit? c).isSome := by
  cases text with
  | nil => cases hc
  | cons c' text =>
    obtain rfl := Option.some.inj hc
    rw [numeral?, if_neg (List.cons_ne_nil _ _), List.mapM_cons] at h
    cases hd : digit? c' with
    | none => simp [hd] at h
    | some d => rfl

theorem isNumeral_numeral (hb : 1 < b) (hchar : ∀ d < b, digit? (char d) = some d) (n : ℕ) :
    IsNumeral b digit? (numeral b char n) n where
  ne_nil := numeral_ne_nil b char n
  value := numeral?_numeral hb hchar n
  leading h := by
    rw [numeral, List.head?_reverse, List.getLast?_map] at h
    obtain ⟨c, hc, hzero⟩ := Option.bind_eq_some_iff.mp h
    obtain ⟨d, hd, rfl⟩ := Option.map_eq_some_iff.mp hc
    have hlt : d < b := lt_of_mem_lsdDigits hb (List.mem_of_getLast? hd)
    obtain rfl : d = 0 := Option.some.inj ((hchar d hlt).symm.trans hzero)
    rw [length_numeral, lsdDigits_of_getLast? hd]
    rfl

end Tmuduo
