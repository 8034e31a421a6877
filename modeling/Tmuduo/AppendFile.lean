import Tmuduo.Segment
import Tmuduo.Text

/-!
# Appending to the log file

`AppendFile::append` writes a line and, as long as `fwrite_unlocked` accepts a part of what is left,
goes on behind that part. It gives up when nothing is accepted inside its loop. `Fwrite` is any
`fwrite_unlocked` : what it returns may depend on the call and on the count, and is at most the
count.

`appendLoop_spec` says what the loop hands over. The function counts the whole line as written, also
when it gave up, so `writtenBytes_` is what the file has got if and only if it did not
(`append_accounts_iff`).
-/

set_option autoImplicit false

namespace Tmuduo

/-- `fwrite_unlocked`, over the calls of one `append` : what call `k` returns that is to write
`count` bytes. -/
structure Fwrite where
  result : ℕ → ℕ → ℕ
  le_count : ∀ k count, result k count ≤ count

/-- `FileUtil::AppendFile`. `file` is what `fwrite_unlocked` has accepted. -/
structure AppendFile where
  file : Bytes
  writtenBytes : ℕ
  deriving DecidableEq, Repr

namespace AppendFile

/-- `AppendFile::write`, when `x` bytes are accepted. -/
def write (f : AppendFile) (longline : Bytes) (x : ℕ) : AppendFile :=
  { f with file := f.file ++ longline.take x }

variable (w : Fwrite) (longline : Bytes)

/-- The loop of `append`, for at most as many turns as its first argument, with `k` calls made so
far. `none` : it has not ended. -/
def appendLoop : ℕ → AppendFile → (k n remain : ℕ) → Option AppendFile
  | 0, _, _, _, _ => none
  | turns + 1, f, k, n, remain =>
    if remain > 0 then
      let x := w.result k remain
      let f := f.write (slice longline n (n + remain)) x
      if x = 0 then some f
      else appendLoop turns f (k + 1) (n + x) (longline.length - (n + x))
    else some f

def append (f : AppendFile) : Option AppendFile := do
  let len := longline.length
  let n := w.result 0 len
  let f := f.write longline n
  let f ← appendLoop w longline (len + 1) f 1 n (len - n)
  return { f with writtenBytes := f.writtenBytes + len }

end AppendFile

namespace Fwrite

variable (w : Fwrite) (len : ℕ)

/-- The bytes accepted by the first calls, of `len` bytes in all. -/
def accepted : ℕ → ℕ
  | 0 => 0
  | k + 1 => accepted k + w.result k (len - accepted k)

/-- Call `k` is to write something, and nothing is accepted. -/
def StallsAt (k : ℕ) : Prop :=
  w.accepted len k < len ∧ w.result k (len - w.accepted len k) = 0

/-- Some call after the first one stalls. -/
def Stalls : Prop :=
  ∃ k, 1 ≤ k ∧ w.StallsAt len k

variable {w len}

theorem accepted_le (k : ℕ) : w.accepted len k ≤ len := by
  induction k with
  | zero => exact Nat.zero_le _
  | succ k ih =>
    have hle := w.le_count k (len - w.accepted len k)
    rw [accepted]
    omega

/-- When all is accepted, no later call stalls. -/
theorem not_stallsAt_of_all {k j : ℕ} (h : w.accepted len k = len) (hj : k ≤ j) :
    ¬w.StallsAt len j := by
  have hall : w.accepted len j = len := by
    induction j, hj using Nat.le_induction with
    | base => exact h
    | succ j _ ih =>
      have hle := w.le_count j (len - w.accepted len j)
      rw [accepted]
      omega
  rintro ⟨hlt, -⟩
  omega

end Fwrite

namespace AppendFile

variable {w : Fwrite} {longline : Bytes} {f f' f'' : AppendFile}

/-- `f'` is `f` with the bytes of the line from `a` to `b` behind it. -/
structure Handed (longline : Bytes) (f f' : AppendFile) (a b : ℕ) : Prop where
  le : a ≤ b
  file : f'.file = f.file ++ slice longline a b
  writtenBytes : f'.writtenBytes = f.writtenBytes

theorem Handed.refl (f : AppendFile) (a : ℕ) : Handed longline f f a a :=
  ⟨Nat.le_refl _, by simp, rfl⟩

/-- Without a gap, and without a repetition. -/
theorem Handed.trans {a b c : ℕ} (h : Handed longline f f' a b) (h' : Handed longline f' f'' b c) :
    Handed longline f f'' a c where
  le := Nat.le_trans h.le h'.le
  file := by rw [h'.file, h.file, List.append_assoc, slice_append_slice _ h.le h'.le]
  writtenBytes := h'.writtenBytes.trans h.writtenBytes

theorem handed_write (f : AppendFile) {n remain x : ℕ} (hx : x ≤ remain) :
    Handed longline f (f.write (slice longline n (n + remain)) x) n (n + x) where
  le := Nat.le_add_right _ _
  file := by rw [write, take_slice _ (by omega)]
  writtenBytes := rfl

/-- The loop ends. It hands over the bytes from where it starts up to some `m`. This is the end of
the line and no call has stalled, or one has. -/
theorem appendLoop_spec {turns k : ℕ} (f : AppendFile)
    (hturns : longline.length - w.accepted longline.length k < turns) :
    ∃ m f', appendLoop w longline turns f k (w.accepted longline.length k)
        (longline.length - w.accepted longline.length k) = some f' ∧
      Handed longline f f' (w.accepted longline.length k) m ∧
      ((m = longline.length ∧ ∀ j, k ≤ j → ¬w.StallsAt longline.length j) ∨
        (m < longline.length ∧ ∃ j, k ≤ j ∧ w.StallsAt longline.length j)) := by
  induction turns generalizing f k with
  | zero => exact absurd hturns (Nat.not_lt_zero _)
  | succ turns ih =>
    have hle : w.accepted longline.length k ≤ longline.length := Fwrite.accepted_le k
    have hx := w.le_count k (longline.length - w.accepted longline.length k)
    have hnext : w.accepted longline.length (k + 1) = w.accepted longline.length k +
        w.result k (longline.length - w.accepted longline.length k) := rfl
    have hwrite := @handed_write longline f (w.accepted longline.length k) _ _ hx
    rw [appendLoop]
    by_cases hremain : longline.length - w.accepted longline.length k > 0
    · rw [if_pos hremain]
      by_cases hzero : w.result k (longline.length - w.accepted longline.length k) = 0
      · -- the loop gives up
        refine ⟨_, _, if_pos hzero, hwrite, Or.inr ⟨by omega, k, Nat.le_refl _, by omega, hzero⟩⟩
      · obtain ⟨m, f', hloop, hhanded, hend⟩ := ih (k := k + 1)
          (f.write (slice longline (w.accepted longline.length k)
            (w.accepted longline.length k + (longline.length - w.accepted longline.length k)))
            (w.result k (longline.length - w.accepted longline.length k))) (by omega)
        refine ⟨m, f', ?_, hwrite.trans hhanded, ?_⟩
        · rw [hnext] at hloop
          simp only [if_neg hzero]
          exact hloop
        · rcases hend with ⟨hm, hnone⟩ | ⟨hm, j, hj, hstall⟩
          · refine Or.inl ⟨hm, fun j hj hstall => ?_⟩
            rcases Nat.eq_or_lt_of_le hj with rfl | hlt
            · exact hzero hstall.2
            · exact hnone j hlt hstall
          · exact Or.inr ⟨hm, j, by omega, hstall⟩
    · rw [if_neg hremain]
      have hall : w.accepted longline.length k = longline.length := by omega
      exact ⟨_, f, rfl, .refl f _, Or.inl ⟨hall, fun j hj => Fwrite.not_stallsAt_of_all hall hj⟩⟩

/-- `f'` is `f` after `append` as it should be : the file has got a part of the line, which is all
of it unless a call inside the loop has stalled, and the bytes it has got are counted. -/
def Accounted (w : Fwrite) (longline : Bytes) (f f' : AppendFile) : Prop :=
  ∃ n ≤ longline.length, f'.file = f.file ++ longline.take n ∧
    (n = longline.length ∨ w.Stalls longline.length) ∧ f'.writtenBytes = f.writtenBytes + n

/-- `append` returns, and counts the line. -/
theorem append_eq (f : AppendFile) (longline : Bytes) (w : Fwrite) :
    ∃ m f', f.append w longline = some f' ∧ f'.file = f.file ++ longline.take m ∧
      f'.writtenBytes = f.writtenBytes + longline.length ∧
      ((m = longline.length ∧ ¬w.Stalls longline.length) ∨
        (m < longline.length ∧ w.Stalls longline.length)) := by
  have hfirst : w.accepted longline.length 1 = w.result 0 longline.length := Nat.zero_add _
  have hall : slice longline 0 (0 + longline.length) = longline := by simp [slice]
  have hwrite := @handed_write longline f 0 _ _ (w.le_count 0 longline.length)
  rw [hall, Nat.zero_add] at hwrite
  obtain ⟨m, f', hloop, hhanded, hend⟩ := @appendLoop_spec w longline (longline.length + 1) 1
    (f.write longline (w.result 0 longline.length)) (by omega)
  rw [hfirst] at hloop hhanded
  have hpart := hwrite.trans hhanded
  refine ⟨m, { f' with writtenBytes := f'.writtenBytes + longline.length }, ?_, ?_, ?_, ?_⟩
  · simp [append, hloop]
  · rw [hpart.file]
    simp [slice]
  · rw [hpart.writtenBytes]
  · rcases hend with ⟨hm, hnone⟩ | ⟨hm, hstall⟩
    · refine Or.inl ⟨hm, ?_⟩
      rintro ⟨j, hj, hstall⟩
      exact hnone j hj hstall
    · exact Or.inr ⟨hm, hstall⟩

/-- For every line and all results of `fwrite_unlocked` : `append` returns, and the file has got a
part of the line, which is all of it unless a call inside the loop has stalled. What it has got is
what is counted, if and only if no call inside the loop has stalled. -/
theorem append_accounts_iff (f : AppendFile) (longline : Bytes) (w : Fwrite) :
    ∃ f' n, f.append w longline = some f' ∧ n ≤ longline.length ∧
      f'.file = f.file ++ longline.take n ∧ (n = longline.length ∨ w.Stalls longline.length) ∧
      (Accounted w longline f f' ↔ ¬w.Stalls longline.length) := by
  obtain ⟨m, f', hcall, hfile, hcount, ⟨rfl, hnone⟩ | ⟨hm, hstall⟩⟩ := append_eq f longline w
  · refine ⟨f', _, hcall, Nat.le_refl _, hfile, Or.inl rfl, iff_of_true ?_ hnone⟩
    exact ⟨_, Nat.le_refl _, hfile, Or.inl rfl, hcount⟩
  · have hle := Nat.le_of_lt hm
    refine ⟨f', m, hcall, hle, hfile, Or.inr hstall, iff_of_false ?_ (not_not.mpr hstall)⟩
    rintro ⟨n, hn, hfile', -, hcount'⟩
    have hsame := congrArg List.length (List.append_cancel_left (hfile.symm.trans hfile'))
    rw [List.length_take, List.length_take] at hsame
    omega

/-- A disk that takes one byte and is full then. -/
def fullDisk : Fwrite where
  result k count := if k = 0 then min 1 count else 0
  le_count k count := by
    split_ifs
    · exact Nat.min_le_right _ _
    · exact Nat.zero_le _

/-- One of two bytes is accepted, and two are counted. -/
theorem append_counts_lost_bytes : ∃ f',
    (⟨[], 0⟩ : AppendFile).append fullDisk (ascii "ab") = some f' ∧
      f'.file = ascii "a" ∧ f'.writtenBytes = 2 ∧
      ¬Accounted fullDisk (ascii "ab") ⟨[], 0⟩ f' := by
  refine ⟨_, rfl, rfl, rfl, ?_⟩
  rintro ⟨n, hn, hfile, -, hcount⟩
  have hcount : 2 = 0 + n := hcount
  obtain rfl : n = 2 := by omega
  cases hfile

end AppendFile

end Tmuduo
