import Mathlib.Logic.Function.Basic
import Tmuduo.Machine

/-!
# The event loop and its pending functors

`EventLoop F T` is `tmuduo::net::EventLoop` as it runs `loop()` in its own thread, while the
threads of `T` call `queueInLoop` and `quit`. `F` is the type of functors. The code of handlers
and functors is the environment's choice : inside one, the loop thread may queue functors and
quit before it returns.

A call of another thread is two steps, the push or the flag under the lock, and the `wakeup`
write (`waking`). The loop thread's own `queueInLoop` is the push, and then the test that
decides whether it writes (`queueing`). The loop thread's control is `LoopPc`, one place for
each point of `loop` and `doPendingFunctors` that another thread can fall between.

The ghost fields number the batches, and record for each functor queued which batch was
running, and for each functor executed which batch it ran in. `pending_functors_fifo` reads off
them that functors run once and in order, and never in the batch they were queued in.
-/

set_option autoImplicit false

namespace Tmuduo

/-- A channel that `poll` reports : the loop's own wakeup channel, or one with a user handler. -/
inductive ActiveChannel
  | wakeup
  | user
  deriving DecidableEq, Repr

/-- Where the loop thread is. `handling` and `batch` are between two handlers, or two functors,
with what is left of the list. -/
inductive LoopPc (F : Type*)
  | check
  | poll
  | handling (active : List ActiveChannel)
  | inHandler (active : List ActiveChannel)
  | swap
  | batch (functors : List F)
  | inFunctor (functors : List F)
  | stopped

namespace LoopPc

variable {F : Type*}

/-- The functors of the current batch that have not started. -/
def rest : LoopPc F → List F
  | batch functors => functors
  | inFunctor functors => functors
  | _ => []

/-- A batch has been swapped out and has not ended. -/
def running : LoopPc F → Bool
  | batch _ => true
  | inFunctor _ => true
  | _ => false

/-- User code runs in the loop thread. -/
def inUserCode : LoopPc F → Bool
  | inHandler _ => true
  | inFunctor _ => true
  | _ => false

/-- `doPendingFunctors` has been entered and not left. -/
def inDoPendingFunctors : LoopPc F → Bool
  | swap => true
  | batch _ => true
  | inFunctor _ => true
  | _ => false

end LoopPc

/-- `tmuduo::net::EventLoop` and the threads that call it. -/
structure EventLoop (F T : Type*) where
  pc : LoopPc F
  quit : Bool
  callingPendingFunctors : Bool
  pendingFunctors : List F
  wakeupCounter : ℕ
  queueing : Bool
  waking : T → Bool
  batchNo : ℕ
  queued : List (F × Option ℕ)
  executed : List (F × ℕ)

namespace EventLoop

variable {F T : Type*}

/-- `loop()` is entered, with the functors `pending` queued before. The eventfd may have been
written, and threads may be about to write it. -/
def enter (pending : List F) (wakeupCounter : ℕ) (waking : T → Bool) : EventLoop F T where
  pc := .check
  quit := false
  callingPendingFunctors := false
  pendingFunctors := pending
  wakeupCounter := wakeupCounter
  queueing := false
  waking := waking
  batchNo := 0
  queued := pending.map (·, none)
  executed := []

variable (s : EventLoop F T)

/-- `::write(wakeupFd_, 1)` : the counter of an eventfd grows up to its maximum. -/
def wakeup : EventLoop F T :=
  { s with wakeupCounter :=
      if s.wakeupCounter < 0xfffffffffffffffe then s.wakeupCounter + 1 else s.wakeupCounter }

/-- `EventLoop::handleRead` : reading an eventfd resets its counter. -/
def handleRead : EventLoop F T :=
  { s with wakeupCounter := 0 }

/-- The locked part of `queueInLoop`. -/
def push (f : F) : EventLoop F T :=
  { s with
    pendingFunctors := s.pendingFunctors ++ [f]
    queued := s.queued ++ [(f, if s.pc.running then some s.batchNo else none)] }

/-- The part of `queueInLoop` after the lock. -/
def afterPush (isInLoopThread : Bool) : EventLoop F T :=
  if !isInLoopThread || s.callingPendingFunctors then s.wakeup else s

/-- The next step of the loop thread : of `loop` and `doPendingFunctors`, or the return of a
handler or a functor. -/
def advance : EventLoop F T :=
  match s.pc with
  | .check => { s with pc := if s.quit then .stopped else .poll }
  | .poll => s
  | .handling [] => { s with pc := .swap, callingPendingFunctors := true }
  | .handling (.wakeup :: active) => { s.handleRead with pc := .handling active }
  | .handling (.user :: active) => { s with pc := .inHandler active }
  | .inHandler active => { s with pc := .handling active }
  | .swap =>
    { s with
      pc := .batch s.pendingFunctors
      pendingFunctors := []
      batchNo := s.batchNo + 1 }
  | .batch [] => { s with pc := .check, callingPendingFunctors := false }
  | .batch (f :: functors) =>
    { s with pc := .inFunctor functors, executed := s.executed ++ [(f, s.batchNo)] }
  | .inFunctor functors => { s with pc := .batch functors }
  | .stopped => s

end EventLoop

/-- One step of the loop thread, or of another thread `t`. -/
inductive LoopStep (F T : Type*)
  | advance
  | pollReturns (active : List ActiveChannel)
  | queueInLoop (f : F)
  | afterQueueInLoop
  | quit
  | queueInLoopBy (t : T) (f : F)
  | quitBy (t : T)
  | wakeupBy (t : T)

open EventLoop in
/-- The loop, in every interleaving with the other threads. -/
def loopMachine (F T : Type*) [DecidableEq T] :
    Machine (EventLoop F T) (LoopStep F T) Empty where
  enabled s
    | .advance => s.queueing = false
    | .pollReturns active => s.pc = .poll ∧ (.wakeup ∈ active → 0 < s.wakeupCounter)
    | .queueInLoop _ => s.pc.inUserCode = true ∧ s.queueing = false
    | .afterQueueInLoop => s.queueing = true
    | .quit => s.pc.inUserCode = true ∧ s.queueing = false
    | .queueInLoopBy t _ => s.waking t = false
    | .quitBy t => s.waking t = false
    | .wakeupBy t => s.waking t = true
  exec s
    | .advance => .ok s.advance
    | .pollReturns active => .ok { s with pc := .handling active }
    | .queueInLoop f => .ok { s.push f with queueing := true }
    | .afterQueueInLoop => .ok { s.afterPush true with queueing := false }
    | .quit => .ok { s with quit := true }
    | .queueInLoopBy t f => .ok { s.push f with waking := Function.update s.waking t true }
    | .quitBy t => .ok { s with quit := true, waking := Function.update s.waking t true }
    | .wakeupBy t => .ok { s.afterPush false with waking := Function.update s.waking t false }

variable {F T : Type*}

/-! ## First in, first out -/

/-- The functors started, left in the batch, and pending are the functors queued. A functor that
was queued while a batch ran is not in that batch. -/
structure FifoInv (s : EventLoop F T) : Prop where
  fifo : s.executed.map Prod.fst ++ s.pc.rest ++ s.pendingFunctors = s.queued.map Prod.fst
  seen : ∀ (i : ℕ) (f : F) (b : ℕ), s.queued[i]? = some (f, some b) → b ≤ s.batchNo
  taken : s.pc.running = true → ∀ (i : ℕ) (f : F) (b : ℕ),
    i < s.executed.length + s.pc.rest.length → s.queued[i]? = some (f, some b) → b < s.batchNo
  past : ∀ (i : ℕ) (f f' : F) (b b' : ℕ), s.queued[i]? = some (f, some b) →
    s.executed[i]? = some (f', b') → b < b'

theorem FifoInv.enter (pending : List F) (wakeupCounter : ℕ) (waking : T → Bool) :
    FifoInv (.enter pending wakeupCounter waking) where
  fifo := by simp [EventLoop.enter, LoopPc.rest, Function.comp_def]
  seen i f b h := by simp [EventLoop.enter] at h
  taken h := by simp [EventLoop.enter, LoopPc.running] at h
  past i f f' b b' _ h := by simp [EventLoop.enter] at h

/-- A step that moves none of the functors. -/
theorem FifoInv.frame {s u : EventLoop F T} (h : FifoInv s)
    (hp : u.pendingFunctors = s.pendingFunctors) (hq : u.queued = s.queued)
    (hx : u.executed = s.executed) (hb : u.batchNo = s.batchNo) (hrest : u.pc.rest = s.pc.rest)
    (hrun : u.pc.running = true → s.pc.running = true) : FifoInv u where
  fifo := by rw [hx, hrest, hp, hq, h.fifo]
  seen := by rw [hq, hb]; exact h.seen
  taken hr := by rw [hx, hrest, hq, hb]; exact h.taken (hrun hr)
  past := by rw [hq, hx]; exact h.past

theorem FifoInv.length_queued {s : EventLoop F T} (h : FifoInv s) :
    s.executed.length + s.pc.rest.length + s.pendingFunctors.length = s.queued.length := by
  simpa [Nat.add_assoc] using congrArg List.length h.fifo

theorem getElem?_snoc_cases {α : Type*} {l : List α} {x y : α} {i : ℕ}
    (h : (l ++ [x])[i]? = some y) : l[i]? = some y ∨ i = l.length ∧ y = x := by
  rcases Nat.lt_trichotomy i l.length with hi | hi | hi
  · exact Or.inl (by rwa [List.getElem?_append_left hi] at h)
  · subst hi
    exact Or.inr ⟨rfl, by simpa using h.symm⟩
  · rw [List.getElem?_eq_none (by simp; omega)] at h
    cases h

theorem FifoInv.push {s : EventLoop F T} (h : FifoInv s) (f : F) : FifoInv (s.push f) where
  fifo := by
    simp only [EventLoop.push, List.map_append, List.map_cons, List.map_nil, ← h.fifo,
      List.append_assoc]
  seen i g b hg := by
    rcases getElem?_snoc_cases hg with hg | ⟨-, hg⟩
    · exact h.seen i g b hg
    · obtain ⟨-, hb⟩ := Prod.mk.inj hg
      split_ifs at hb
      · exact Nat.le_of_eq (Option.some.inj hb)
  taken hr i g b hi hg := by
    have hlen := h.length_queued
    rcases getElem?_snoc_cases hg with hg | ⟨hlast, -⟩
    · exact h.taken hr i g b hi hg
    · simp only [EventLoop.push] at hi
      omega
  past i g g' b b' hg hx := by
    have hlen := h.length_queued
    rcases getElem?_snoc_cases hg with hg | ⟨hlast, -⟩
    · exact h.past i g g' b b' hg hx
    · have hi := (List.getElem?_eq_some_iff.mp hx).1
      simp only [EventLoop.push] at hi
      omega

/-- The swap takes every pending functor into a new batch. -/
theorem FifoInv.swap {s : EventLoop F T} (h : FifoInv s) (hpc : s.pc = .swap) :
    FifoInv s.advance := by
  have hfifo := h.fifo
  rw [hpc] at hfifo
  unfold EventLoop.advance
  rw [hpc]
  refine ⟨by simpa [LoopPc.rest] using hfifo, fun i f b hq => ?_, fun _ i f b _ hq => ?_, h.past⟩
  · exact Nat.le_succ_of_le (h.seen i f b hq)
  · exact Nat.lt_succ_of_le (h.seen i f b hq)

/-- The first functor of the rest starts, in the batch that runs. -/
theorem FifoInv.call {s : EventLoop F T} (h : FifoInv s) {f : F} {functors : List F}
    (hpc : s.pc = .batch (f :: functors)) : FifoInv s.advance := by
  have hfifo := h.fifo
  have htaken := h.taken (by rw [hpc]; rfl)
  rw [hpc] at hfifo htaken
  unfold EventLoop.advance
  rw [hpc]
  refine ⟨by simpa [LoopPc.rest] using hfifo, h.seen, fun _ i g b hi hq => ?_, ?_⟩
  · refine htaken i g b ?_ hq
    simp only [LoopPc.rest, List.length_append, List.length_cons, List.length_nil] at hi ⊢
    omega
  · intro i g g' b b' hq hx
    rcases getElem?_snoc_cases hx with hx | ⟨hi, hx⟩
    · exact h.past i g g' b b' hq hx
    · obtain ⟨-, rfl⟩ := Prod.mk.inj hx
      refine htaken i g b ?_ hq
      simp only [LoopPc.rest, List.length_cons]
      omega

theorem FifoInv.advance {s : EventLoop F T} (h : FifoInv s) : FifoInv s.advance := by
  cases hpc : s.pc with
  | swap => exact h.swap hpc
  | batch functors =>
    cases functors with
    | cons f functors => exact h.call hpc
    | nil => apply h.frame <;> simp [EventLoop.advance, hpc, LoopPc.rest, LoopPc.running]
  | handling active =>
    cases active with
    | nil => apply h.frame <;> simp [EventLoop.advance, hpc, LoopPc.rest, LoopPc.running]
    | cons c active =>
      cases c <;> apply h.frame <;>
        simp [EventLoop.advance, hpc, LoopPc.rest, LoopPc.running, EventLoop.handleRead]
  | check =>
    apply h.frame <;> simp [EventLoop.advance, hpc] <;> split_ifs <;>
      simp [LoopPc.rest, LoopPc.running]
  | poll => simpa [EventLoop.advance, hpc] using h
  | inHandler active => apply h.frame <;> simp [EventLoop.advance, hpc, LoopPc.rest, LoopPc.running]
  | inFunctor functors =>
    apply h.frame <;> simp [EventLoop.advance, hpc, LoopPc.rest, LoopPc.running]
  | stopped => simpa [EventLoop.advance, hpc] using h

theorem FifoInv.afterPush {s : EventLoop F T} (h : FifoInv s) (isInLoopThread : Bool) :
    FifoInv (s.afterPush isInLoopThread) := by
  unfold EventLoop.afterPush
  split_ifs
  · exact h.frame rfl rfl rfl rfl rfl id
  · exact h

variable [DecidableEq T]

theorem FifoInv.step {s u : EventLoop F T} {l : LoopStep F T} (h : FifoInv s)
    (he : (loopMachine F T).enabled s l) (hx : (loopMachine F T).exec s l = .ok u) : FifoInv u := by
  cases l with
  | advance =>
    obtain rfl := Except.ok.inj hx
    exact h.advance
  | pollReturns active =>
    obtain rfl := Except.ok.inj hx
    exact h.frame rfl rfl rfl rfl (by rw [he.1]; rfl) (by simp [LoopPc.running])
  | queueInLoop f =>
    obtain rfl := Except.ok.inj hx
    exact (h.push f).frame rfl rfl rfl rfl rfl id
  | afterQueueInLoop =>
    obtain rfl := Except.ok.inj hx
    exact (h.afterPush true).frame rfl rfl rfl rfl rfl id
  | quit =>
    obtain rfl := Except.ok.inj hx
    exact h.frame rfl rfl rfl rfl rfl id
  | queueInLoopBy t f =>
    obtain rfl := Except.ok.inj hx
    exact (h.push f).frame rfl rfl rfl rfl rfl id
  | quitBy t =>
    obtain rfl := Except.ok.inj hx
    exact h.frame rfl rfl rfl rfl rfl id
  | wakeupBy t =>
    obtain rfl := Except.ok.inj hx
    exact (h.afterPush false).frame rfl rfl rfl rfl rfl id

/-- In every interleaving, the functors that started, the rest of the batch and the pending
functors are the functors queued, in the order of the lock. A functor queued while batch `b`
ran starts in a later batch. -/
theorem pending_functors_fifo {pending : List F} {wakeupCounter : ℕ} {waking : T → Bool}
    {ls : List (LoopStep F T)} {t : EventLoop F T}
    (hrun : (loopMachine F T).Run (.enter pending wakeupCounter waking) ls t) :
    t.executed.map Prod.fst ++ t.pc.rest ++ t.pendingFunctors = t.queued.map Prod.fst ∧
      ∀ (i : ℕ) (f f' : F) (b b' : ℕ), t.queued[i]? = some (f, some b) →
        t.executed[i]? = some (f', b') → f' = f ∧ b < b' := by
  have h : FifoInv t := hrun.invariant (.enter pending wakeupCounter waking)
    fun s l u hs he hx => hs.step he hx
  refine ⟨h.fifo, fun i f f' b b' hq hx => ⟨?_, h.past i f f' b b' hq hx⟩⟩
  obtain ⟨hi, hget⟩ := List.getElem?_eq_some_iff.mp hx
  have hfst := congrArg (fun l => l[i]?) h.fifo
  rw [List.append_assoc] at hfst
  simpa [List.getElem?_append_left, hi, hq, hget] using hfst

/-- Functor 1 queues functor 2 while it runs in batch 1. -/
theorem pending_functors_fifo_self_queue : ∃ t : EventLoop ℕ Unit,
    (loopMachine ℕ Unit).Run (.enter [1] 0 fun _ => false)
      [.advance, .pollReturns [], .advance, .advance, .advance, .queueInLoop 2] t ∧
    t.executed = [(1, 1)] ∧ t.queued = [(1, none), (2, some 1)] ∧
    t.executed.map Prod.fst ++ t.pc.rest ++ t.pendingFunctors = [1, 2] := by
  have hrun : (loopMachine ℕ Unit).Run (.enter [1] 0 fun _ => false) (((((([] ++ [.advance]) ++
      [.pollReturns []]) ++ [.advance]) ++ [.advance]) ++ [.advance]) ++ [.queueInLoop 2]) _ :=
    .snoc (.snoc (.snoc (.snoc (.snoc (.snoc .nil rfl rfl) ⟨rfl, by simp⟩ rfl) rfl rfl)
      rfl rfl) rfl rfl) ⟨rfl, rfl⟩ rfl
  exact ⟨_, hrun, rfl, rfl, (pending_functors_fifo hrun).1⟩

end Tmuduo
