import Mathlib.Data.Int.Notation
import Tmuduo.CondVar
import Tmuduo.Machine

/-!
# The latch

`CountDownLatch` is `tmuduo::CountDownLatch` between two critical sections. A call of `wait` loops
on the condition variable while `count_` is positive, and `countDown` notifies all calls when it
gets to zero, and not when it goes below.

`count_down_latch` is about every interleaving of calls : none returns early, and none is left
waiting.
-/

set_option autoImplicit false

namespace Tmuduo

/-- `tmuduo::CountDownLatch`. `called` are the calls of `wait`, `returned` those that have returned,
and `downs` is the number of calls of `countDown`. -/
structure CountDownLatch (ω : Type*) where
  count : ℤ
  condition : CondVar ω
  called : List ω
  returned : List ω
  downs : ℕ

namespace CountDownLatch

variable {ω : Type*}

/-- `CountDownLatch::CountDownLatch`. -/
def new (count : ℤ) : CountDownLatch ω := ⟨count, .new, [], [], 0⟩

variable (l : CountDownLatch ω)

/-- The test of the loop in `wait`, with the lock. -/
def loop (w : ω) : CountDownLatch ω :=
  if 0 < l.count then { l with condition := l.condition.wait w }
  else { l with returned := l.returned ++ [w] }

def wait (w : ω) : CountDownLatch ω :=
  ({ l with called := l.called ++ [w] }).loop w

def countDown : CountDownLatch ω :=
  let l := { l with count := l.count - 1, downs := l.downs + 1 }
  if l.count = 0 then { l with condition := l.condition.notifyAll } else l

def getCount : ℤ := l.count

/-- The `k`-th call that was woken gets the lock back. -/
def resume (k : ℕ) : CountDownLatch ω :=
  match l.condition.woken[k]? with
  | none => l
  | some w => ({ l with condition := l.condition.resume k }).loop w

end CountDownLatch

/-- A step of a thread, or a call that wakes up for no reason. -/
inductive LatchStep (ω : Type*)
  | wait (w : ω)
  | countDown
  | wake (i : ℕ)
  | resume (k : ℕ)

/-- Any threads on a latch. `countDown` is called as long as `count_` does not overflow. -/
def latchMachine (ω : Type*) : Machine (CountDownLatch ω) (LatchStep ω) Empty where
  enabled l
    | .wait _ => True
    | .countDown => -0x80000000 < l.count
    | .wake i => i < l.condition.waiting.length
    | .resume k => k < l.condition.woken.length
  exec l
    | .wait w => .ok (l.wait w)
    | .countDown => .ok l.countDown
    | .wake i => .ok { l with condition := l.condition.wake i }
    | .resume k => .ok (l.resume k)

instance {ω : Type*} (l : CountDownLatch ω) : ∀ s, Decidable ((latchMachine ω).enabled l s)
  | .wait _ => inferInstanceAs (Decidable True)
  | .countDown => inferInstanceAs (Decidable (-0x80000000 < l.count))
  | .wake i => inferInstanceAs (Decidable (i < l.condition.waiting.length))
  | .resume k => inferInstanceAs (Decidable (k < l.condition.woken.length))

/-! ## The invariant -/

namespace CountDownLatch

variable {ω : Type*} {l : CountDownLatch ω} {n : ℤ}

/-- A latch that was made with `n`. -/
structure Inv (n : ℤ) (l : CountDownLatch ω) : Prop where
  count : l.count = n - l.downs
  early : 0 < l.count → l.returned = []
  notified : l.count ≤ 0 → l.condition.waiting = []
  calls : (l.condition.calls ++ l.returned).Perm l.called

namespace Inv

theorem new (n : ℤ) : Inv n (.new n : CountDownLatch ω) where
  count := by simp [CountDownLatch.new]
  early _ := rfl
  notified _ := rfl
  calls := .refl _

/-- A call `w` that is in no list gets to the test of its loop. -/
theorem loop {w : ω} (hcount : l.count = n - l.downs) (hearly : 0 < l.count → l.returned = [])
    (hnotified : l.count ≤ 0 → l.condition.waiting = [])
    (hcalls : (l.condition.calls ++ l.returned ++ [w]).Perm l.called) : Inv n (l.loop w) := by
  unfold CountDownLatch.loop
  split_ifs with hpos
  · refine ⟨hcount, hearly, fun hle => absurd hpos (Int.not_lt.mpr hle), ?_⟩
    rw [hearly hpos, List.append_nil] at hcalls ⊢
    exact (CondVar.calls_wait w).trans hcalls
  · refine ⟨hcount, fun hpos' => absurd hpos' hpos, hnotified, ?_⟩
    rw [← List.append_assoc]
    exact hcalls

theorem countDown (h : Inv n l) : Inv n l.countDown := by
  have hcount : l.count - 1 = n - (l.downs + 1 : ℕ) := by
    rw [h.count]
    omega
  unfold CountDownLatch.countDown
  simp only
  split_ifs with hzero
  · refine ⟨hcount, fun hpos => ?_, fun _ => rfl, ?_⟩
    · have hpos : 0 < l.count - 1 := hpos
      omega
    · exact (CondVar.calls_notifyAll.append_right _).trans h.calls
  · refine ⟨hcount, fun hpos => h.early ?_, fun hle => h.notified ?_, h.calls⟩
    · have hpos : 0 < l.count - 1 := hpos
      omega
    -- the count has jumped over no value, so it was zero before
    · have hle : l.count - 1 ≤ 0 := hle
      omega

theorem wake (h : Inv n l) (i : ℕ) : Inv n { l with condition := l.condition.wake i } where
  count := h.count
  early := h.early
  notified hle := by
    have hnone := h.notified hle
    simp [CondVar.wake, hnone]
  calls := ((CondVar.calls_wake i).append_right _).trans h.calls

theorem resume (h : Inv n l) (k : ℕ) : Inv n (l.resume k) := by
  unfold CountDownLatch.resume
  cases hk : l.condition.woken[k]? with
  | none => exact h
  | some w =>
    refine loop h.count h.early h.notified ?_
    have hperm := (CondVar.calls_resume hk).append_right l.returned
    rw [List.append_assoc] at hperm ⊢
    exact ((List.perm_append_comm.append_left _).trans hperm).trans h.calls

theorem step {s : LatchStep ω} {u : CountDownLatch ω} (h : Inv n l)
    (hx : (latchMachine ω).exec l s = .ok u) : Inv n u := by
  cases s with
  | wait w =>
    obtain rfl := Except.ok.inj hx
    exact loop h.count h.early h.notified (h.calls.append_right [w])
  | countDown =>
    obtain rfl := Except.ok.inj hx
    exact h.countDown
  | wake i =>
    obtain rfl := Except.ok.inj hx
    exact h.wake i
  | resume k =>
    obtain rfl := Except.ok.inj hx
    exact h.resume k

/-- The calls that are on their way return, once the count has got to zero. -/
theorem drain (h : Inv n l) (hle : l.count ≤ 0) {m : ℕ} (hm : l.condition.woken.length = m) :
    ∃ u, (latchMachine ω).Run l (List.replicate m (.resume 0)) u ∧
      u.returned.Perm l.called := by
  induction m generalizing l with
  | zero =>
    refine ⟨l, .nil, ?_⟩
    have hnone : l.condition.calls = [] := by
      rw [CondVar.calls, h.notified hle, List.length_eq_zero_iff.mp hm]
      rfl
    have hcalls := h.calls
    rwa [hnone, List.nil_append] at hcalls
  | succ m ih =>
    obtain ⟨w, woken, hwoken⟩ := List.exists_cons_of_length_eq_add_one hm
    have hresume : l.resume 0 =
        { l with condition := l.condition.resume 0, returned := l.returned ++ [w] } := by
      simp only [CountDownLatch.resume, hwoken, List.getElem?_cons_zero, CountDownLatch.loop]
      exact if_neg (Int.not_lt.mpr hle)
    have hm' : (l.resume 0).condition.woken.length = m := by
      rw [hresume]
      simp only [CondVar.resume, hwoken, List.eraseIdx_cons_zero]
      rw [hwoken, List.length_cons] at hm
      omega
    have hle' : (l.resume 0).count ≤ 0 := by
      rw [hresume]
      exact hle
    obtain ⟨u, hrun, hreturned⟩ := ih (h.resume 0) hle' hm'
    rw [hresume] at hreturned
    have hstep : (latchMachine ω).Run l [.resume 0] (l.resume 0) :=
      .snoc .nil (by simp [latchMachine, hwoken]) rfl
    exact ⟨u, hstep.trans hrun, hreturned⟩

end Inv

end CountDownLatch

open CountDownLatch in
/-- For every latch and every interleaving of its calls : `getCount` is the first count less the
calls of `countDown`, each call of `wait` waits, is on its way or has returned, and none has
returned before that many calls of `countDown`. After them none is left waiting, and all calls have
returned as soon as those on their way have got the lock. -/
theorem count_down_latch {ω : Type*} (n : ℤ) {ls : List (LatchStep ω)} {t : CountDownLatch ω}
    (hrun : (latchMachine ω).Run (.new n) ls t) :
    t.getCount = n - t.downs ∧
    (t.condition.waiting ++ t.condition.woken ++ t.returned).Perm t.called ∧
    (t.returned ≠ [] → n ≤ t.downs) ∧
    (n ≤ t.downs → t.condition.waiting = [] ∧
      ∃ u, (latchMachine ω).Run t (List.replicate t.condition.woken.length (.resume 0)) u ∧
        u.returned.Perm t.called) := by
  have h : Inv n t := hrun.invariant (.new n) fun _ _ _ ht _ hx => ht.step hx
  have hcount := h.count
  refine ⟨hcount, h.calls, fun hne => ?_, fun hle => ?_⟩
  · by_contra hlt
    exact hne (h.early (by omega))
  · have hzero : t.count ≤ 0 := by omega
    exact ⟨h.notified hzero, h.drain hzero rfl⟩

/-- Two threads wait for two events, and one of them wakes up for no reason in between. -/
theorem count_down_latch_two : ∃ t : CountDownLatch ℕ, (latchMachine ℕ).Run (.new 2)
      [.wait 0, .countDown, .wait 1, .wake 0, .resume 0, .countDown, .resume 1] t ∧
    t.getCount = 0 ∧ t.condition.waiting = [] ∧ t.returned = [0] ∧
    ∃ u, (latchMachine ℕ).Run t [.resume 0] u ∧ u.returned.Perm [0, 1] := by
  have hrun : (latchMachine ℕ).Run (.new 2)
      [.wait 0, .countDown, .wait 1, .wake 0, .resume 0, .countDown, .resume 1] _ := .of_play rfl
  obtain ⟨hcount, -, -, hdone⟩ := count_down_latch 2 hrun
  obtain ⟨hwaiting, hdrain⟩ := hdone (by decide)
  exact ⟨_, hrun, hcount, hwaiting, rfl, hdrain⟩

end Tmuduo
