import Mathlib.Data.List.Perm.Basic
import Mathlib.Tactic.Common

/-!
# Condition variables

A `CondVar ω` is a condition variable as its monitor sees it, between two critical sections : the
calls that wait on it, and the calls that were woken and have not got the lock back. `notify_one`
wakes any one of those that wait, `notify_all` all of them. A call may also be woken for no reason
(`wake`).

`Covers n` is the counting invariant against lost wakeups : if a call is left waiting, then `n`
calls are on their way. A notification covers one more (`Covers.notifyOne`), a call that gets the
lock back is one less on its way (`Covers.resume`).
-/

set_option autoImplicit false

namespace Tmuduo

/-- The calls that wait and were not notified, and those that were woken and have not got the lock
back. -/
structure CondVar (ω : Type*) where
  waiting : List ω
  woken : List ω

namespace CondVar

variable {ω : Type*}

def new : CondVar ω := ⟨[], []⟩

variable (v : CondVar ω)

/-- A call gives up the lock and waits. -/
def wait (w : ω) : CondVar ω :=
  { v with waiting := v.waiting ++ [w] }

/-- The `i`-th call that waits is woken. -/
def wake (i : ℕ) : CondVar ω :=
  ⟨v.waiting.eraseIdx i, v.woken ++ v.waiting[i]?.toList⟩

/-- `notify_one`, which wakes the `i`-th call that waits. -/
def notifyOne (i : ℕ) : CondVar ω := v.wake i

/-- `notify_all`. -/
def notifyAll : CondVar ω := ⟨[], v.woken ++ v.waiting⟩

/-- `notify_one` may pick `i` : one of those that wait, if there is one. -/
def CanNotify (i : ℕ) : Prop := v.waiting ≠ [] → i < v.waiting.length

/-- The `k`-th call that was woken gets the lock back. -/
def resume (k : ℕ) : CondVar ω :=
  { v with woken := v.woken.eraseIdx k }

/-- If a call is left waiting, `n` calls are on their way. -/
def Covers (n : ℕ) : Prop := v.waiting ≠ [] → n ≤ v.woken.length

instance (i : ℕ) : Decidable (v.CanNotify i) :=
  match h : v.waiting with
  | [] => isTrue fun hne => absurd h hne
  | _ :: _ => decidable_of_iff (i < v.waiting.length) ⟨fun hlt _ => hlt, fun hi => hi (by simp [h])⟩

variable {v} {n : ℕ}

theorem covers_new (n : ℕ) : (new : CondVar ω).Covers n :=
  fun hne => absurd rfl hne

theorem covers_zero (v : CondVar ω) : v.Covers 0 :=
  fun _ => Nat.zero_le _

theorem Covers.mono {k : ℕ} (h : v.Covers n) (hle : k ≤ n) : v.Covers k :=
  fun hne => Nat.le_trans hle (h hne)

theorem Covers.wake (h : v.Covers n) (i : ℕ) : (v.wake i).Covers n := by
  intro hne
  have hne' : v.waiting ≠ [] := by
    intro hnil
    simp [CondVar.wake, hnil] at hne
  simp only [CondVar.wake, List.length_append]
  exact Nat.le_trans (h hne') (Nat.le_add_right _ _)

/-- A notification tells one of those that wait, so one more is on its way. -/
theorem Covers.notifyOne (h : v.Covers n) {i : ℕ} (hi : v.CanNotify i) :
    (v.notifyOne i).Covers (n + 1) := by
  intro hne
  have hne' : v.waiting ≠ [] := by
    intro hnil
    simp [CondVar.notifyOne, CondVar.wake, hnil] at hne
  have hlt := hi hne'
  simp only [CondVar.notifyOne, CondVar.wake, List.length_append, List.getElem?_eq_getElem hlt,
    Option.toList_some, List.length_singleton]
  exact Nat.succ_le_succ (h hne')

theorem Covers.resume (h : v.Covers (n + 1)) {k : ℕ} (hk : k < v.woken.length) :
    (v.resume k).Covers n := by
  intro hne
  simp only [CondVar.resume, List.length_eraseIdx_of_lt hk]
  have hle : n + 1 ≤ v.woken.length := h hne
  omega

/-- A single call that waits is the one that `notify_one` wakes. -/
theorem waiting_notifyOne (hle : v.waiting.length ≤ 1) {i : ℕ} (hi : v.CanNotify i) :
    (v.notifyOne i).waiting = [] := by
  simp only [CondVar.notifyOne, CondVar.wake]
  by_cases hnil : v.waiting = []
  · rw [hnil]
    rfl
  · have hlt := hi hnil
    refine List.length_eq_zero_iff.mp ?_
    rw [List.length_eraseIdx_of_lt hlt]
    omega

/-- The calls that wait or are on their way. -/
def calls (v : CondVar ω) : List ω := v.waiting ++ v.woken

theorem calls_wait (w : ω) : (v.wait w).calls.Perm (v.calls ++ [w]) := by
  simp only [calls, CondVar.wait, List.append_assoc]
  exact List.perm_append_comm.append_left _

theorem calls_wake (i : ℕ) : (v.wake i).calls.Perm v.calls := by
  unfold calls CondVar.wake
  rcases Nat.lt_or_ge i v.waiting.length with hi | hi
  · rw [List.getElem?_eq_getElem hi, Option.toList_some, ← List.append_assoc]
    have hperm := (List.getElem_cons_eraseIdx_perm hi).append_right v.woken
    exact (List.perm_append_singleton _ _).trans hperm
  · rw [List.eraseIdx_of_length_le hi, List.getElem?_eq_none hi, Option.toList_none,
      List.append_nil]

theorem calls_notifyAll : v.notifyAll.calls.Perm v.calls := by
  simp only [calls, notifyAll, List.nil_append]
  exact List.perm_append_comm

theorem calls_resume {k : ℕ} {w : ω} (hk : v.woken[k]? = some w) :
    ((v.resume k).calls ++ [w]).Perm v.calls := by
  obtain ⟨hlt, rfl⟩ := List.getElem?_eq_some_iff.mp hk
  simp only [calls, CondVar.resume, List.append_assoc]
  refine List.Perm.append_left _ ?_
  exact (List.perm_append_singleton _ _).trans (List.getElem_cons_eraseIdx_perm hlt)

end CondVar

end Tmuduo
