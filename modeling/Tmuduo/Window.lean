import Tmuduo.Machine
import Tmuduo.Segment

/-!
# Reading inside a window

A function that gets two pointers may read the elements between them. A `Window` is a part of a
memory, and `read` fails at every position that is not in the part, so a function that is written
with it and does not fail has read nothing else.

`find`, `copy` and `equal` are `std::find`, the characters of a range, and `std::equal`, as loops
over `read`. On a range inside the window they do not fail, and are `List.idxOf`, the slice of the
range and its comparison (`find_eq`, `copy_eq`, `equal_eq`).
-/

set_option autoImplicit false

namespace Tmuduo

variable {α ε : Type}

/-- Why a function on a window fails : it reads outside of it, or it fails by itself. -/
inductive Fault (ε : Type)
  | outside (i : ℕ)
  | code (e : ε)
  deriving DecidableEq, Repr

/-- The positions `first ≤ i < last` of a memory. -/
structure Window (α : Type) where
  mem : List α
  first : ℕ
  last : ℕ
  le : first ≤ last
  bound : last ≤ mem.length

namespace Window

variable (w : Window α)

/-- What the window holds. -/
def text : List α :=
  slice w.mem w.first w.last

def read (i : ℕ) : Except (Fault ε) α :=
  if w.first ≤ i ∧ i < w.last then
    match w.mem[i]? with
    | some x => .ok x
    | none => .error (.outside i)
  else .error (.outside i)

def copyLoop : ℕ → ℕ → Except (Fault ε) (List α)
  | 0, _ => .ok []
  | n + 1, i => do
    let x ← w.read i
    let xs ← copyLoop n (i + 1)
    return x :: xs

/-- The string of the characters from `a` up to `b`. -/
def copy (a b : ℕ) : Except (Fault ε) (List α) :=
  w.copyLoop (b - a) a

variable {w}

/-- A position inside the window, and the slice that starts there. -/
theorem read_eq {i b : ℕ} (ha : w.first ≤ i) (hi : i < b) (hb : b ≤ w.last) :
    ∃ x, w.read i = (.ok x : Except (Fault ε) α) ∧
      slice w.mem i b = x :: slice w.mem (i + 1) b := by
  have hlen : i < w.mem.length := by
    have hbound := w.bound
    omega
  refine ⟨w.mem[i], ?_, ?_⟩
  · rw [read, if_pos ⟨ha, by omega⟩, List.getElem?_eq_getElem hlen]
  · have hcut : i < (w.mem.take b).length := by
      rw [List.length_take]
      omega
    rw [slice, List.drop_eq_getElem_cons hcut, List.getElem_take]
    rfl

theorem copyLoop_eq {n i : ℕ} (ha : w.first ≤ i) (hb : i + n ≤ w.last) :
    w.copyLoop n i = (.ok (slice w.mem i (i + n)) : Except (Fault ε) (List α)) := by
  induction n generalizing i with
  | zero => simp [copyLoop]
  | succ n ih =>
    obtain ⟨y, hread, hslice⟩ := read_eq (ε := ε) ha (Nat.lt_add_of_pos_right n.succ_pos) hb
    rw [copyLoop, hread, ok_bind, ih (by omega) (by omega), ok_bind, hslice,
      Nat.add_right_comm i 1 n]
    rfl

theorem copy_eq {a b : ℕ} (ha : w.first ≤ a) (hab : a ≤ b) (hb : b ≤ w.last) :
    w.copy a b = (.ok (slice w.mem a b) : Except (Fault ε) (List α)) := by
  rw [copy, copyLoop_eq ha (by omega), Nat.add_sub_cancel' hab]

/-! ## Looking for an element, and comparing -/

variable [DecidableEq α] (w)

/-- `std::find` over `n` elements from `i` on. -/
def findLoop (x : α) : ℕ → ℕ → Except (Fault ε) ℕ
  | 0, i => .ok i
  | n + 1, i => do
    let y ← w.read i
    if y = x then return i else findLoop x n (i + 1)

/-- `std::find(a, b, x)`. -/
def find (a b : ℕ) (x : α) : Except (Fault ε) ℕ :=
  w.findLoop x (b - a) a

/-- `std::equal` over `n` elements from `i` on. Past the end of `ys` there is nothing to read
either. -/
def equalLoop : ℕ → ℕ → List α → Except (Fault ε) Bool
  | 0, _, _ => .ok true
  | n + 1, i, y :: ys => do
    let x ← w.read i
    if x = y then equalLoop n (i + 1) ys else return false
  | _ + 1, i, [] => .error (.outside i)

/-- `std::equal(a, b, ys)`. -/
def equal (a b : ℕ) (ys : List α) : Except (Fault ε) Bool :=
  w.equalLoop (b - a) a ys

variable {w}

theorem findLoop_eq {x : α} {n i : ℕ} (ha : w.first ≤ i) (hb : i + n ≤ w.last) :
    w.findLoop x n i = (.ok (i + (slice w.mem i (i + n)).idxOf x) : Except (Fault ε) ℕ) := by
  induction n generalizing i with
  | zero => simp [findLoop]
  | succ n ih =>
    obtain ⟨y, hread, hslice⟩ := read_eq (ε := ε) ha (Nat.lt_add_of_pos_right n.succ_pos) hb
    rw [findLoop, hread, ok_bind, hslice]
    by_cases hy : y = x
    · simp [hy]
    · rw [if_neg hy, ih (by omega) (by omega), List.idxOf_cons_ne _ hy, Nat.add_right_comm i 1 n,
        Nat.add_assoc i n 1, Nat.add_assoc i 1, Nat.add_comm 1]

theorem find_eq {x : α} {a b : ℕ} (ha : w.first ≤ a) (hab : a ≤ b) (hb : b ≤ w.last) :
    w.find a b x = (.ok (a + (slice w.mem a b).idxOf x) : Except (Fault ε) ℕ) := by
  rw [find, findLoop_eq ha (by omega), Nat.add_sub_cancel' hab]

theorem equalLoop_eq {n i : ℕ} {ys : List α} (ha : w.first ≤ i) (hb : i + n ≤ w.last)
    (hys : ys.length = n) :
    w.equalLoop n i ys = (.ok (slice w.mem i (i + n) = ys) : Except (Fault ε) Bool) := by
  induction n generalizing i ys with
  | zero =>
    obtain rfl := List.length_eq_zero_iff.mp hys
    simp [equalLoop]
  | succ n ih =>
    obtain ⟨x, hread, hslice⟩ := read_eq (ε := ε) ha (Nat.lt_add_of_pos_right n.succ_pos) hb
    obtain ⟨y, ys, rfl⟩ := List.exists_cons_of_length_eq_add_one hys
    rw [equalLoop, hread, ok_bind, hslice]
    by_cases hx : x = y
    · rw [if_pos hx, ih (by omega) (by omega) (Nat.succ.inj hys), Nat.add_right_comm i 1 n]
      simp [hx, Nat.add_assoc]
    · simp [hx]

theorem equal_eq {a b : ℕ} {ys : List α} (ha : w.first ≤ a) (hab : a ≤ b) (hb : b ≤ w.last)
    (hys : ys.length = b - a) :
    w.equal a b ys = (.ok (slice w.mem a b = ys) : Except (Fault ε) Bool) := by
  rw [equal, equalLoop_eq ha (by omega) hys, Nat.add_sub_cancel' hab]

end Window

end Tmuduo
