import Mathlib.Data.Int.CardIntervalMod
import Tmuduo.Machine

/-!
# The loops of a server

`EventLoopThreadPool L` is `tmuduo::net::EventLoopThreadPool` with loops of `L`. `getNextLoop` goes
through `loops_` in turn, so the `k`-th call returns the loop at place `k` modulo their number
(`getNextLoop_eq`), and after any number of calls each loop was returned as often as every other,
give or take one (`count_loopOf`).
-/

set_option autoImplicit false

namespace Tmuduo

/-- The assertion of `start`, and a place outside of `loops_`. -/
inductive LoopPoolFault
  | started
  | outOfRange
  deriving DecidableEq, Repr

/-- `tmuduo::net::EventLoopThreadPool`. `initialized` are the loops that the callback of `start` was
called with. -/
structure EventLoopThreadPool (L : Type) where
  baseLoop : L
  started : Bool
  numThreads : ℕ
  next : ℕ
  loops : List L
  initialized : List L
  deriving DecidableEq, Repr

namespace EventLoopThreadPool

variable {L : Type}

def new (baseLoop : L) : EventLoopThreadPool L where
  baseLoop := baseLoop
  started := false
  numThreads := 0
  next := 0
  loops := []
  initialized := []

variable (pool : EventLoopThreadPool L)

def setThreadNum (numThreads : ℕ) : EventLoopThreadPool L :=
  { pool with numThreads := numThreads }

/-- `EventLoopThreadPool::start`. `startLoop i` is the loop of the `i`-th thread, which calls the
callback, if there is one (`cb`), before `startLoop` returns. -/
def start (startLoop : ℕ → L) (cb : Bool) : Except LoopPoolFault (EventLoopThreadPool L) := do
  check (pool.started = false) .started
  let loops := (List.range pool.numThreads).map startLoop
  let called := if pool.numThreads = 0 then [pool.baseLoop] else loops
  return { pool with
    started := true
    loops := pool.loops ++ loops
    initialized := pool.initialized ++ if cb then called else [] }

def getNextLoop : Except LoopPoolFault (L × EventLoopThreadPool L) :=
  if pool.loops = [] then return (pool.baseLoop, pool)
  else
    match pool.loops[pool.next]? with
    | none => .error .outOfRange
    | some loop =>
      let next := pool.next + 1
      return (loop, { pool with next := if next ≥ pool.loops.length then 0 else next })

/-- The loop of the `k`-th call of `getNextLoop`. -/
def loopOf (k : ℕ) : L :=
  if h : pool.loops = [] then pool.baseLoop
  else pool.loops.get ⟨k % pool.loops.length, Nat.mod_lt k (List.length_pos_iff.mpr h)⟩

/-- `getNextLoop` has been called `k` times. -/
def Called (k : ℕ) : Prop := pool.loops ≠ [] → pool.next = k % pool.loops.length

variable {pool}

/-- A pool that was started has one loop for each thread, in order, and the first has its turn. -/
theorem start_eq {baseLoop : L} {numThreads : ℕ} {startLoop : ℕ → L} {cb : Bool}
    (h : ((new baseLoop).setThreadNum numThreads).start startLoop cb = .ok pool) :
    pool.baseLoop = baseLoop ∧ pool.loops = (List.range numThreads).map startLoop ∧
      pool.next = 0 := by
  obtain rfl := Except.ok.inj h
  exact ⟨rfl, rfl, rfl⟩

/-- The next call returns the loop whose turn it is. -/
theorem getNextLoop_eq {k : ℕ} (h : pool.Called k) :
    ∃ next, pool.getNextLoop = .ok (pool.loopOf k, { pool with next := next }) ∧
      ({ pool with next := next } : EventLoopThreadPool L).Called (k + 1) := by
  by_cases hnil : pool.loops = []
  · refine ⟨pool.next, ?_, fun hne => absurd hnil hne⟩
    rw [getNextLoop, if_pos hnil, loopOf, dif_pos hnil]
    rfl
  · have hpos := List.length_pos_iff.mpr hnil
    have hnext := h hnil
    have hlt : k % pool.loops.length < pool.loops.length := Nat.mod_lt k hpos
    have hget : pool.loops[pool.next]? = some (pool.loops.get ⟨_, hlt⟩) := by
      rw [hnext]
      exact List.getElem?_eq_getElem hlt
    refine ⟨if pool.next + 1 ≥ pool.loops.length then 0 else pool.next + 1, ?_, fun _ => ?_⟩
    · rw [getNextLoop, if_neg hnil, hget, loopOf, dif_neg hnil]
      rfl
    · show (if pool.next + 1 ≥ pool.loops.length then 0 else pool.next + 1) =
        (k + 1) % pool.loops.length
      rcases Nat.eq_or_lt_of_le (Nat.succ_le_of_lt hpos) with hone | htwo
      · rw [← hone, Nat.mod_one]
        exact if_pos (Nat.le_add_left 1 _)
      · rw [hnext, Nat.add_mod_eq_ite, Nat.mod_eq_of_lt htwo]
        split_ifs <;> omega

/-- Two turns of the same loop are a multiple of the number of loops apart. -/
theorem loopOf_eq_iff (hnodup : pool.loops.Nodup) {i : ℕ} (hi : i < pool.loops.length) (k : ℕ) :
    pool.loopOf k = pool.loops[i] ↔ k ≡ i [MOD pool.loops.length] := by
  have hne : pool.loops ≠ [] := List.ne_nil_of_length_pos (Nat.zero_lt_of_lt hi)
  rw [loopOf, dif_neg hne, List.get_eq_getElem, hnodup.getElem_inj_iff, Nat.ModEq,
    Nat.mod_eq_of_lt hi]

/-- Of the first `m` calls, those that return the loop at the place `i` are `m` divided by the
number of loops, rounded up or down. -/
theorem count_loopOf [DecidableEq L] (hnodup : pool.loops.Nodup) (m : ℕ) {i : ℕ}
    (hi : i < pool.loops.length) :
    ((List.range m).map pool.loopOf).count pool.loops[i] =
      m / pool.loops.length + if i < m % pool.loops.length then 1 else 0 := by
  have hcount : ∀ m, ((List.range m).map pool.loopOf).count pool.loops[i] =
      m.count (· ≡ i [MOD pool.loops.length]) := by
    intro m
    induction m with
    | zero => rfl
    | succ m ih =>
      rw [List.range_succ, List.map_append, List.count_append, ih, Nat.count_succ,
        List.map_singleton, List.count_singleton]
      congr 1
      exact if_congr (beq_iff_eq.trans (loopOf_eq_iff hnodup hi m)) rfl rfl
  rw [hcount, Nat.count_modEq_card _ (Nat.zero_lt_of_lt hi), Nat.mod_eq_of_lt hi]

end EventLoopThreadPool

end Tmuduo
