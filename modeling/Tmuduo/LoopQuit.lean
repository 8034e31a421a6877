import Tmuduo.Wakeup

/-!
# The end of a loop

`loop()` does not clear `quit_`, so a loop that is told to quit stops at its next test, if it gets
there : it must not sleep in `poll`. `Awake` says that it will not. Other threads keep it so
(`Awake.step`), and then the loop's own thread gets to the end by itself (`stops_of_quit`).
-/

set_option autoImplicit false

namespace Tmuduo

variable {F T : Type*}

/-- The steps of the loop's own thread. -/
def LoopStep.ownThread : LoopStep F T → Bool
  | .queueInLoopBy _ _ | .quitBy _ | .wakeupBy _ => false
  | _ => true

/-- Somebody quits the loop. -/
def LoopStep.quits : LoopStep F T → Bool
  | .quit | .quitBy _ => true
  | _ => false

/-! ## How it stops -/

section Stops

variable [DecidableEq T] {s : EventLoop F T}

/-- The loop's own thread can get to the end of `loop()` by itself. -/
def Stops (s : EventLoop F T) : Prop :=
  ∃ ls u, (∀ l ∈ ls, LoopStep.ownThread l = true) ∧ (loopMachine F T).Run s ls u ∧ u.pc = .stopped

theorem Stops.head {l : LoopStep F T} {u : EventLoop F T} (hl : l.ownThread = true)
    (he : (loopMachine F T).enabled s l) (hx : (loopMachine F T).exec s l = .ok u)
    (h : Stops u) : Stops s := by
  obtain ⟨ls, v, hls, hrun, hv⟩ := h
  exact ⟨l :: ls, v, List.forall_mem_cons.mpr ⟨hl, hls⟩,
    Machine.Run.trans (.snoc .nil he hx) hrun, hv⟩

/-- One step of the loop thread, which leads to `u`. -/
theorem Stops.advance {u : EventLoop F T} (hqueueing : s.queueing = false) (hu : s.advance = u)
    (h : Stops u) : Stops s :=
  .head (l := .advance) rfl hqueueing (congrArg Except.ok hu) h

theorem stops_check (hquit : s.quit = true) (hqueueing : s.queueing = false)
    (hpc : s.pc = .check) : Stops s := by
  have hnext : s.advance = { s with pc := .stopped } := by simp [EventLoop.advance, hpc, hquit]
  exact .advance hqueueing hnext ⟨[], _, List.forall_mem_nil _, .nil, rfl⟩

theorem stops_batch (hquit : s.quit = true) (hqueueing : s.queueing = false) {functors : List F}
    (hpc : s.pc = .batch functors) : Stops s := by
  induction functors generalizing s with
  | nil =>
    have hnext : s.advance = { s with pc := .check, callingPendingFunctors := false } := by
      simp [EventLoop.advance, hpc]
    exact .advance hqueueing hnext (stops_check hquit hqueueing rfl)
  | cons f functors ih =>
    have hnext : s.advance =
        { s with pc := .inFunctor functors, executed := s.executed ++ [(f, s.batchNo)] } := by
      simp [EventLoop.advance, hpc]
    exact .advance hqueueing hnext (.advance hqueueing rfl (ih hquit hqueueing rfl))

theorem stops_swap (hquit : s.quit = true) (hqueueing : s.queueing = false)
    (hpc : s.pc = .swap) : Stops s := by
  have hnext : s.advance = { s with
      pc := .batch s.pendingFunctors
      pendingFunctors := []
      batchNo := s.batchNo + 1 } := by
    simp [EventLoop.advance, hpc]
  exact .advance hqueueing hnext (stops_batch hquit hqueueing rfl)

theorem stops_handling (hquit : s.quit = true) (hqueueing : s.queueing = false)
    {active : List ActiveChannel} (hpc : s.pc = .handling active) : Stops s := by
  induction active generalizing s with
  | nil =>
    have hnext : s.advance = { s with pc := .swap, callingPendingFunctors := true } := by
      simp [EventLoop.advance, hpc]
    exact .advance hqueueing hnext (stops_swap hquit hqueueing rfl)
  | cons c active ih =>
    cases c with
    | wakeup =>
      have hnext : s.advance = { s.handleRead with pc := .handling active } := by
        simp [EventLoop.advance, hpc]
      exact .advance hqueueing hnext (ih hquit hqueueing rfl)
    | user =>
      have hnext : s.advance = { s with pc := .inHandler active } := by
        simp [EventLoop.advance, hpc]
      exact .advance hqueueing hnext (.advance hqueueing rfl (ih hquit hqueueing rfl))

theorem stops_of_not_queueing (hquit : s.quit = true) (hqueueing : s.queueing = false)
    (hawake : s.pc = .poll → 0 < s.wakeupCounter) : Stops s := by
  cases hpc : s.pc with
  | check => exact stops_check hquit hqueueing hpc
  | poll =>
    have hwake : (loopMachine F T).enabled s (.pollReturns [.wakeup]) :=
      ⟨hpc, fun _ => hawake hpc⟩
    exact .head rfl hwake rfl (stops_handling hquit hqueueing rfl)
  | handling active => exact stops_handling hquit hqueueing hpc
  | inHandler active =>
    have hnext : s.advance = { s with pc := .handling active } := by
      simp [EventLoop.advance, hpc]
    exact .advance hqueueing hnext (stops_handling hquit hqueueing rfl)
  | swap => exact stops_swap hquit hqueueing hpc
  | batch functors => exact stops_batch hquit hqueueing hpc
  | inFunctor functors =>
    have hnext : s.advance = { s with pc := .batch functors } := by
      simp [EventLoop.advance, hpc]
    exact .advance hqueueing hnext (stops_batch hquit hqueueing rfl)
  | stopped => exact ⟨[], s, List.forall_mem_nil _, .nil, hpc⟩

omit [DecidableEq T] in
theorem EventLoop.afterPush_frame (s : EventLoop F T) (isInLoopThread : Bool) :
    (s.afterPush isInLoopThread).quit = s.quit ∧ (s.afterPush isInLoopThread).pc = s.pc ∧
      s.wakeupCounter ≤ (s.afterPush isInLoopThread).wakeupCounter := by
  unfold EventLoop.afterPush EventLoop.wakeup
  split_ifs <;> simp

/-- A loop that is told to quit, and not asleep, stops. -/
theorem stops_of_quit (hquit : s.quit = true) (hawake : s.pc = .poll → 0 < s.wakeupCounter) :
    Stops s := by
  cases hqueueing : s.queueing with
  | false => exact stops_of_not_queueing hquit hqueueing hawake
  | true =>
    -- the loop thread is inside `queueInLoop`, and leaves it first
    obtain ⟨hquit', hpc, hle⟩ := s.afterPush_frame true
    refine .head (l := .afterQueueInLoop) rfl hqueueing rfl
      (stops_of_not_queueing (hquit'.trans hquit) rfl fun hpoll => ?_)
    exact Nat.lt_of_lt_of_le (hawake (hpc.symm.trans hpoll)) hle

end Stops

/-! ## What the threads do to the flag -/

section Flag

variable [DecidableEq T] {s u : EventLoop F T}

/-- A loop that is told to quit and will see it. -/
structure Awake (s : EventLoop F T) : Prop where
  quit : s.quit = true
  poll : s.pc = .poll → 0 < s.wakeupCounter

omit [DecidableEq T] in
theorem Awake.advance (h : Awake s) : Awake s.advance := by
  have hquit : s.advance.quit = true := by
    unfold EventLoop.advance
    split <;> exact h.quit
  refine ⟨hquit, fun hpoll => ?_⟩
  -- the only way to `poll` is from `check`, with the flag not set
  cases hpc : s.pc with
  | check => simp [EventLoop.advance, hpc, h.quit] at hpoll
  | poll =>
    have hstays : s.advance = s := by simp [EventLoop.advance, hpc]
    rw [hstays]
    exact h.poll hpc
  | handling active =>
    cases active with
    | nil => simp [EventLoop.advance, hpc] at hpoll
    | cons c active => cases c <;> simp [EventLoop.advance, hpc] at hpoll
  | batch functors => cases functors <;> simp [EventLoop.advance, hpc] at hpoll
  | _ => simp [EventLoop.advance, hpc] at hpoll

theorem Awake.step {l : LoopStep F T} (h : Awake s) (hx : (loopMachine F T).exec s l = .ok u) :
    Awake u := by
  obtain ⟨hquit, hpoll⟩ := h
  cases l with
  | advance =>
    obtain rfl := Except.ok.inj hx
    exact .advance ⟨hquit, hpoll⟩
  | pollReturns active =>
    obtain rfl := Except.ok.inj hx
    exact ⟨hquit, nofun⟩
  | queueInLoop f | queueInLoopBy t f =>
    obtain rfl := Except.ok.inj hx
    exact ⟨hquit, hpoll⟩
  | quit | quitBy t =>
    obtain rfl := Except.ok.inj hx
    exact ⟨rfl, hpoll⟩
  | afterQueueInLoop =>
    obtain rfl := Except.ok.inj hx
    obtain ⟨hquit', hpc, hle⟩ := s.afterPush_frame true
    exact ⟨hquit'.trans hquit, fun hp => Nat.lt_of_lt_of_le (hpoll (hpc.symm.trans hp)) hle⟩
  | wakeupBy t =>
    obtain rfl := Except.ok.inj hx
    obtain ⟨hquit', hpc, hle⟩ := s.afterPush_frame false
    exact ⟨hquit'.trans hquit, fun hp => Nat.lt_of_lt_of_le (hpoll (hpc.symm.trans hp)) hle⟩

/-- `quit_` is set by `quit` alone, and never cleared. -/
theorem quit_step {l : LoopStep F T} (hx : (loopMachine F T).exec s l = .ok u) :
    u.quit = (s.quit || l.quits) := by
  cases l with
  | advance =>
    obtain rfl := Except.ok.inj hx
    unfold EventLoop.advance
    split <;> simp [LoopStep.quits, EventLoop.handleRead]
  | afterQueueInLoop | wakeupBy t =>
    obtain rfl := Except.ok.inj hx
    simp [LoopStep.quits, (s.afterPush_frame _).1]
  | _ =>
    obtain rfl := Except.ok.inj hx
    simp [LoopStep.quits, EventLoop.push]

/-- The loop stops only when it is told to. -/
theorem stopped_step {l : LoopStep F T} (h : s.pc = .stopped → s.quit = true)
    (hx : (loopMachine F T).exec s l = .ok u) (hstopped : u.pc = .stopped) : u.quit = true := by
  have hquit := quit_step hx
  cases l with
  | advance =>
    obtain rfl := Except.ok.inj hx
    rw [hquit]
    unfold EventLoop.advance at hstopped
    split at hstopped
    · cases hs : s.quit with
      | true => rfl
      | false => simp [hs] at hstopped
    all_goals first | cases hstopped | simp [h hstopped]
  | pollReturns active =>
    obtain rfl := Except.ok.inj hx
    cases hstopped
  | afterQueueInLoop | wakeupBy t =>
    obtain rfl := Except.ok.inj hx
    rw [hquit, h ((s.afterPush_frame _).2.1.symm.trans hstopped), Bool.true_or]
  | _ =>
    obtain rfl := Except.ok.inj hx
    rw [hquit, h hstopped, Bool.true_or]

end Flag

end Tmuduo
