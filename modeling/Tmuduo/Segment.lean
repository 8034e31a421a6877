import Mathlib.Data.List.Basic
import Mathlib.Data.List.Forall2
import Mathlib.Tactic.Common

/-!
# Segments of a vector

`slice v a b` is the part of `v` between two positions, `splice` overwrites a part of `v`
from a position on, and `copyWithin` is the element-by-element forward copy of one part of
`v` onto another. Each is described by its element at every position (`getElem?_slice`,
`getElem?_splice`, `getElem?_copyWithin`), and the equations between them follow pointwise.

The copy reads cells it may already have written. When the destination does not lie after
the source it never does, so it is a `splice` of the old slice (`copyWithin_eq_splice`).

`swapRemove` removes an element by putting the last one in its place (`getElem?_swapRemove`).
`forall_mem_take_countP_iff` : the first `countP p` elements are those with `p` if and only if no
element without `p` stands before one with it.
-/

set_option autoImplicit false

namespace Tmuduo

variable {α : Type*}

/-- The elements of `v` at positions `a ≤ i < b`. -/
def slice (v : List α) (a b : ℕ) : List α :=
  (v.take b).drop a

/-- `v` with `d` written over it from position `pos` on. -/
def splice (v : List α) (pos : ℕ) (d : List α) : List α :=
  v.take pos ++ d ++ v.drop (pos + d.length)

/-- Copy `n` elements inside `v` from `src` to `dst`, lowest position first. -/
def copyWithin (v : List α) (src dst : ℕ) : ℕ → List α
  | 0 => v
  | n + 1 =>
    match v[src]? with
    | some x => copyWithin (v.set dst x) (src + 1) (dst + 1) n
    | none => v

/-- `v` cut or padded with `x` to length `n`. -/
def resize (v : List α) (n : ℕ) (x : α) : List α :=
  v.take n ++ List.replicate (n - v.length) x

/-- Swap the element at position `k` with the last one, and drop the last. -/
def swapRemove (v : List α) (k : ℕ) : List α :=
  match v[k]?, v.getLast? with
  | some x, some y => ((v.set k y).set (v.length - 1) x).dropLast
  | _, _ => v

/-! ## Elements -/

theorem getElem?_slice (v : List α) (a b i : ℕ) :
    (slice v a b)[i]? = if a + i < b then v[a + i]? else none := by
  simp [slice, List.getElem?_take]

theorem getElem?_splice (v : List α) {pos : ℕ} (d : List α) (h : pos ≤ v.length) (i : ℕ) :
    (splice v pos d)[i]? =
      if i < pos then v[i]? else if i < pos + d.length then d[i - pos]? else v[i]? := by
  have hp : (v.take pos).length = pos := by simp [h]
  unfold splice
  rw [List.append_assoc, List.getElem?_append, hp]
  split_ifs with h1 h2
  · simp [h1]
  · rw [List.getElem?_append_left (by omega)]
  · rw [List.getElem?_append_right (by omega), List.getElem?_drop]
    congr 1
    omega

theorem getElem?_copyWithin :
    ∀ (n : ℕ) (v : List α) {src dst : ℕ}, dst ≤ src → src + n ≤ v.length → ∀ i,
      (copyWithin v src dst n)[i]? =
        if dst ≤ i ∧ i < dst + n then v[src + (i - dst)]? else v[i]?
  | 0, v, src, dst, _, _, i => by
    rw [if_neg (by omega)]
    rfl
  | n + 1, v, src, dst, hle, hlen, i => by
    have hsrc : src < v.length := by omega
    rw [copyWithin, List.getElem?_eq_getElem hsrc]
    simp only
    rw [getElem?_copyWithin n _ (by omega) (by simp; omega)]
    split_ifs with h1 h2 h2
    · rw [List.getElem?_set_ne (by omega)]
      congr 1
      omega
    · omega
    · obtain rfl : i = dst := by omega
      rw [List.getElem?_set_self (by omega), ← List.getElem?_eq_getElem hsrc]
      simp
    · rw [List.getElem?_set_ne (by omega)]

/-! ## Slices -/

theorem length_slice (v : List α) {a b : ℕ} (hb : b ≤ v.length) :
    (slice v a b).length = b - a := by
  simp [slice]
  omega

@[simp] theorem slice_self (v : List α) (a : ℕ) : slice v a a = [] := by
  simp [slice]

theorem slice_append_slice (v : List α) {a b c : ℕ} (hab : a ≤ b) (hbc : b ≤ c) :
    slice v a b ++ slice v b c = slice v a c := by
  simp only [slice, List.drop_take]
  have hc : c - a = (b - a) + (c - b) := by omega
  have hd : (v.drop a).drop (b - a) = v.drop b := by
    rw [List.drop_drop]
    congr 1
    omega
  rw [hc, List.take_add, hd]

theorem drop_slice (v : List α) (a b n : ℕ) : (slice v a b).drop n = slice v (a + n) b := by
  simp [slice, List.drop_drop]

theorem take_slice (v : List α) {a b n : ℕ} (h : a + n ≤ b) :
    (slice v a b).take n = slice v a (a + n) := by
  simp only [slice, List.drop_take, List.take_take]
  congr 1
  omega

theorem length_resize (v : List α) (n : ℕ) (x : α) : (resize v n x).length = n := by
  simp [resize]
  omega

/-- Growing a vector keeps every slice of what was there. -/
theorem slice_resize (v : List α) {a b n : ℕ} (x : α) (hb : b ≤ v.length) (hn : b ≤ n) :
    slice (resize v n x) a b = slice v a b := by
  have h : (resize v n x).take b = v.take b := by
    unfold resize
    rw [List.take_append_of_le_length (by simp; omega), List.take_take, Nat.min_eq_left hn]
  rw [slice, slice, h]

/-! ## Overwriting -/

theorem length_splice (v : List α) {pos : ℕ} {d : List α} (h : pos + d.length ≤ v.length) :
    (splice v pos d).length = v.length := by
  simp [splice]
  omega

/-- The written part reads back. -/
theorem slice_splice_self (v : List α) {pos : ℕ} {d : List α} (h : pos ≤ v.length) :
    slice (splice v pos d) pos (pos + d.length) = d := by
  refine List.ext_getElem? fun i => ?_
  rw [getElem?_slice, getElem?_splice v d h]
  split_ifs with h1
  · omega
  · rw [Nat.add_sub_cancel_left]
  · exact (List.getElem?_eq_none (by omega)).symm

/-- A slice that the write does not reach is unchanged. -/
theorem slice_splice_of_disjoint (v : List α) {pos a b : ℕ} {d : List α} (h : pos ≤ v.length)
    (hab : b ≤ pos ∨ pos + d.length ≤ a) : slice (splice v pos d) a b = slice v a b := by
  refine List.ext_getElem? fun i => ?_
  rw [getElem?_slice, getElem?_slice]
  split_ifs with h1
  · rw [getElem?_splice v d h]
    split_ifs <;> first | rfl | omega
  · rfl

/-- A forward copy to the left, or in place, writes the old slice. -/
theorem copyWithin_eq_splice (v : List α) {src dst n : ℕ} (hle : dst ≤ src)
    (hlen : src + n ≤ v.length) :
    copyWithin v src dst n = splice v dst (slice v src (src + n)) := by
  refine List.ext_getElem? fun i => ?_
  rw [getElem?_copyWithin n v hle hlen, getElem?_splice v _ (by omega), length_slice v hlen,
    getElem?_slice]
  split_ifs <;> first | rfl | omega

/-! ## Removal -/

theorem swapRemove_eq {v : List α} {k : ℕ} (hk : k < v.length) :
    swapRemove v k = (v.set k (v.getLast (List.ne_nil_of_length_pos (by omega)))).dropLast := by
  unfold swapRemove
  rw [List.getElem?_eq_getElem hk, List.getLast?_eq_some_getLast]
  simp only
  refine List.ext_getElem? fun i => ?_
  simp only [List.getElem?_dropLast, List.length_set]
  split_ifs with hi
  · rw [List.getElem?_set_ne (by omega)]
  · rfl

/-- The last element is just dropped. -/
theorem swapRemove_last {v : List α} {k : ℕ} (hk : k < v.length) (hlast : k = v.length - 1) :
    swapRemove v k = v.dropLast := by
  rw [swapRemove_eq hk]
  refine List.ext_getElem? fun i => ?_
  simp only [List.getElem?_dropLast, List.length_set]
  split_ifs
  · rw [List.getElem?_set_ne (by omega)]
  · rfl

theorem length_swapRemove {v : List α} {k : ℕ} (hk : k < v.length) :
    (swapRemove v k).length = v.length - 1 := by
  rw [swapRemove_eq hk, List.length_dropLast, List.length_set]

theorem getElem?_swapRemove {v : List α} {k i : ℕ} (hk : k < v.length) (hi : i < v.length - 1) :
    (swapRemove v k)[i]? = if i = k then v.getLast? else v[i]? := by
  rw [swapRemove_eq hk, List.getElem?_dropLast, List.length_set, if_pos hi]
  split_ifs with h
  · rw [h, List.getElem?_set_self hk, List.getLast?_eq_some_getLast]
  · rw [List.getElem?_set_ne (Ne.symm h)]

/-! ## Prefixes -/

theorem forall_mem_take_countP_iff {p : α → Bool} : ∀ {v : List α},
    (∀ x ∈ v.take (v.countP p), p x = true) ↔ v.Pairwise fun x y => p y = true → p x = true
  | [] => by simp
  | x :: v => by
    rw [List.pairwise_cons, ← forall_mem_take_countP_iff (v := v)]
    by_cases hx : p x = true
    · rw [List.countP_cons_of_pos hx, List.take_succ_cons, List.forall_mem_cons]
      exact ⟨fun h => ⟨fun _ _ _ => hx, h.2⟩, fun h => ⟨hx, h.2⟩⟩
    · rw [List.countP_cons_of_neg hx]
      constructor
      · intro h
        have hzero : v.countP p = 0 := by
          rcases Nat.eq_zero_or_pos (v.countP p) with hzero | hpos
          · exact hzero
          · obtain ⟨n, hn⟩ := Nat.exists_eq_succ_of_ne_zero (Nat.ne_of_gt hpos)
            rw [hn, List.take_succ_cons] at h
            exact absurd (h x List.mem_cons_self) hx
        refine ⟨fun y hy hpy => absurd hpy (List.countP_eq_zero.mp hzero y hy), ?_⟩
        simp [hzero]
      · rintro ⟨h, -⟩
        have hzero : v.countP p = 0 := List.countP_eq_zero.mpr fun y hy hpy => hx (h y hy hpy)
        simp [hzero]

/-- The elements with `p` are all among the first ones. -/
theorem lt_countP_of_pairwise {p : α → Bool} : ∀ {v : List α} {k : ℕ} {x : α},
    (v.Pairwise fun x y => p y = true → p x = true) → v[k]? = some x → p x = true →
    k < v.countP p
  | y :: v, 0, x, _, hget, hx => by
    obtain rfl : y = x := by simpa using hget
    rw [List.countP_cons_of_pos hx]
    omega
  | y :: v, k + 1, x, h, hget, hx => by
    obtain ⟨hfirst, hrest⟩ := List.pairwise_cons.mp h
    have hget : v[k]? = some x := by simpa using hget
    have hlt := lt_countP_of_pairwise hrest hget hx
    rw [List.countP_cons_of_pos (hfirst x (List.mem_of_getElem? hget) hx)]
    omega

/-! ## Lists related element by element -/

section Related

variable {β : Type*} {R : α → β → Prop}

theorem exists_forall₂ : ∀ {v : List α}, (∀ x ∈ v, ∃ y, R x y) → ∃ w, List.Forall₂ R v w
  | [], _ => ⟨[], .nil⟩
  | x :: v, h => by
    obtain ⟨y, hy⟩ := h x List.mem_cons_self
    obtain ⟨w, hw⟩ := exists_forall₂ fun z hz => h z (List.mem_cons_of_mem x hz)
    exact ⟨y :: w, .cons hy hw⟩

theorem exists_mem_right : ∀ {v : List α} {w : List β}, List.Forall₂ R v w →
    ∀ {x : α}, x ∈ v → ∃ y ∈ w, R x y
  | _, _, .cons (b := y) h hrest, x, hx => by
    rcases List.mem_cons.mp hx with rfl | hx
    · exact ⟨y, List.mem_cons_self, h⟩
    · obtain ⟨z, hz, hR⟩ := exists_mem_right hrest hx
      exact ⟨z, List.mem_cons_of_mem y hz, hR⟩

theorem exists_mem_left {v : List α} {w : List β} (h : List.Forall₂ R v w) {y : β} (hy : y ∈ w) :
    ∃ x ∈ v, R x y :=
  exists_mem_right h.flip hy

end Related

end Tmuduo
