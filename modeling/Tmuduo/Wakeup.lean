import Tmuduo.EventLoop

/-!
# No lost wakeup

The loop thread sleeps in `poll` until the eventfd is readable. `Signalled` says that it will
be : the counter is positive, or some other thread still has its `wakeup` to write. From the
swap of `doPendingFunctors` until the next `poll` returns, a pending functor was pushed after
the swap, and nothing has drained the eventfd since (`WakeInv.pushed`). A push of the loop
thread itself writes only when it comes from a functor, which is where the write is needed.
The handlers drain, and the swap that follows makes up for it.

`no_lost_wakeup` is the statement about the loop thread in `poll`.
-/

set_option autoImplicit false

namespace Tmuduo

variable {F T : Type*}

namespace EventLoop

variable (s : EventLoop F T)

/-- The eventfd is readable, or a thread is about to make it so. -/
def Signalled : Prop :=
  0 < s.wakeupCounter ∨ ∃ t, s.waking t = true

theorem wakeup_pos : 0 < s.wakeup.wakeupCounter := by
  unfold wakeup
  simp only
  split_ifs <;> omega

end EventLoop

/-- The loop thread is past the swap, and `poll` has not returned. -/
def LoopPc.undrained : LoopPc F → Bool
  | check => true
  | poll => true
  | batch _ => true
  | inFunctor _ => true
  | _ => false

/-- What the loop keeps so that no wakeup is lost. -/
structure WakeInv (s : EventLoop F T) : Prop where
  calling : s.callingPendingFunctors = s.pc.inDoPendingFunctors
  queueing : s.queueing = true → s.pc.inUserCode = true
  pushed : s.pc.undrained = true → s.pendingFunctors ≠ [] → s.Signalled ∨ s.queueing = true
  quit : s.pc = .poll → s.quit = true → s.Signalled

theorem WakeInv.enter (wakeupCounter : ℕ) (waking : T → Bool) :
    WakeInv (.enter [] wakeupCounter waking : EventLoop F T) where
  calling := rfl
  queueing h := by simp [EventLoop.enter] at h
  pushed _ h := by simp [EventLoop.enter] at h
  quit h := by simp [EventLoop.enter] at h

/-- At `check` and `poll` the loop thread is not inside `queueInLoop`. -/
theorem WakeInv.signalled {s : EventLoop F T} (h : WakeInv s) (hu : s.pc.undrained = true)
    (hcode : s.pc.inUserCode = false) (hp : s.pendingFunctors ≠ []) : s.Signalled := by
  rcases h.pushed hu hp with hs | hq
  · exact hs
  · rw [h.queueing hq] at hcode
    cases hcode

/-- Where the eventfd may have been drained nothing is promised about it. -/
theorem WakeInv.of_drained {u : EventLoop F T}
    (hcalling : u.callingPendingFunctors = u.pc.inDoPendingFunctors)
    (hqueueing : u.queueing = true → u.pc.inUserCode = true) (hu : u.pc.undrained = false) :
    WakeInv u := by
  refine ⟨hcalling, hqueueing, fun h => ?_, fun h => ?_⟩
  · rw [hu] at h
    cases h
  · rw [h] at hu
    cases hu

/-- A step of the loop thread that leaves the eventfd alone, the threads and the functors. -/
theorem WakeInv.of_signalled {s u : EventLoop F T} (hq : u.queueing = false)
    (hcalling : u.callingPendingFunctors = u.pc.inDoPendingFunctors)
    (hc : u.wakeupCounter = s.wakeupCounter) (hw : u.waking = s.waking)
    (hp : u.pendingFunctors ≠ [] → s.Signalled) (hquit : u.pc = .poll → u.quit = false) :
    WakeInv u := by
  have hsig : s.Signalled → u.Signalled := by
    unfold EventLoop.Signalled
    rw [hc, hw]
    exact id
  refine ⟨hcalling, fun h => ?_, fun _ h => Or.inl (hsig (hp h)), fun h h' => ?_⟩
  · rw [hq] at h
    cases h
  · rw [hquit h] at h'
    cases h'

theorem WakeInv.advance {s : EventLoop F T} (h : WakeInv s) (hq : s.queueing = false) :
    WakeInv s.advance := by
  have hcalling := h.calling
  have hpush : s.pc.undrained = true → s.pendingFunctors ≠ [] → s.Signalled := by
    intro hu hp
    rcases h.pushed hu hp with hs | hs
    · exact hs
    · rw [hq] at hs
      cases hs
  unfold EventLoop.advance
  cases hpc : s.pc with
  | check =>
    rw [hpc] at hcalling hpush
    cases hquit : s.quit with
    | true => exact .of_drained hcalling (by simp [hq]) rfl
    | false => exact .of_signalled hq hcalling rfl rfl (hpush rfl) fun _ => rfl
  | poll => exact h
  | handling active =>
    rw [hpc] at hcalling
    cases active with
    | nil => exact .of_drained rfl (by simp [hq]) rfl
    | cons c active =>
      cases c with
      | wakeup => exact .of_drained hcalling (by simp [EventLoop.handleRead, hq]) rfl
      | user => exact .of_drained hcalling (by simp [hq]) rfl
  | inHandler active =>
    rw [hpc] at hcalling
    exact .of_drained hcalling (by simp [hq]) rfl
  | swap =>
    rw [hpc] at hcalling
    exact .of_signalled (s := s) hq hcalling rfl rfl (fun hp => absurd rfl hp) (by simp)
  | batch functors =>
    rw [hpc] at hcalling hpush
    cases functors with
    | nil => exact .of_signalled hq rfl rfl rfl (hpush rfl) (by simp)
    | cons f functors => exact .of_signalled hq hcalling rfl rfl (hpush rfl) (by simp)
  | inFunctor functors =>
    rw [hpc] at hcalling hpush
    exact .of_signalled hq hcalling rfl rfl (hpush rfl) (by simp)
  | stopped => exact h

/-- A step of thread `t` after which it still has to write. -/
theorem WakeInv.by_waking {s u : EventLoop F T} (h : WakeInv s) {t : T}
    (hpc : u.pc = s.pc) (hcalling : u.callingPendingFunctors = s.callingPendingFunctors)
    (hq : u.queueing = s.queueing) (hw : u.waking t = true) : WakeInv u := by
  refine ⟨?_, ?_, fun _ _ => Or.inl (Or.inr ⟨t, hw⟩), fun _ _ => Or.inr ⟨t, hw⟩⟩
  · rw [hcalling, hpc]
    exact h.calling
  · rw [hq, hpc]
    exact h.queueing

/-- A step after which the eventfd is readable. -/
theorem WakeInv.by_writing {s u : EventLoop F T} (h : WakeInv s) (hpc : u.pc = s.pc)
    (hcalling : u.callingPendingFunctors = s.callingPendingFunctors)
    (hq : u.queueing = true → s.queueing = true) (hc : 0 < u.wakeupCounter) : WakeInv u := by
  refine ⟨?_, fun h' => ?_, fun _ _ => Or.inl (Or.inl hc), fun _ _ => Or.inl hc⟩
  · rw [hcalling, hpc]
    exact h.calling
  · rw [hpc]
    exact h.queueing (hq h')

/-- The end of a `queueInLoop` of the loop thread : a functor writes, a handler does not. -/
theorem WakeInv.afterQueueInLoop {s : EventLoop F T} (h : WakeInv s)
    (hqueueing : s.queueing = true) :
    WakeInv { s.afterPush true with queueing := false } := by
  have hcalling := h.calling
  have hcode := h.queueing hqueueing
  unfold EventLoop.afterPush
  cases hpc : s.pc with
  | inHandler active =>
    rw [hpc] at hcalling
    rw [if_neg (by simp [hcalling, LoopPc.inDoPendingFunctors])]
    exact .of_drained (by simpa [hpc] using hcalling) (by simp) (by simp [hpc, LoopPc.undrained])
  | inFunctor functors =>
    rw [hpc] at hcalling
    rw [if_pos (by simp [hcalling, LoopPc.inDoPendingFunctors])]
    exact h.by_writing rfl rfl (by simp) s.wakeup_pos
  | _ =>
    rw [hpc] at hcode
    cases hcode

variable [DecidableEq T]

theorem WakeInv.step {s u : EventLoop F T} {l : LoopStep F T} (h : WakeInv s)
    (he : (loopMachine F T).enabled s l) (hx : (loopMachine F T).exec s l = .ok u) :
    WakeInv u := by
  cases l with
  | advance =>
    obtain rfl := Except.ok.inj hx
    exact h.advance he
  | pollReturns active =>
    obtain rfl := Except.ok.inj hx
    have hcalling := h.calling
    have hqueueing := h.queueing
    rw [he.1] at hcalling hqueueing
    exact .of_drained hcalling hqueueing rfl
  | queueInLoop f =>
    obtain rfl := Except.ok.inj hx
    refine ⟨h.calling, fun _ => he.1, fun _ _ => Or.inr rfl, fun hpc => ?_⟩
    have hcode : s.pc.inUserCode = true := he.1
    rw [show s.pc = .poll from hpc] at hcode
    cases hcode
  | afterQueueInLoop =>
    obtain rfl := Except.ok.inj hx
    exact h.afterQueueInLoop he
  | quit =>
    obtain rfl := Except.ok.inj hx
    refine ⟨h.calling, h.queueing, h.pushed, fun hpc => ?_⟩
    have hcode : s.pc.inUserCode = true := he.1
    rw [show s.pc = .poll from hpc] at hcode
    cases hcode
  | queueInLoopBy t f =>
    obtain rfl := Except.ok.inj hx
    exact h.by_waking rfl rfl rfl (Function.update_self t true s.waking)
  | quitBy t =>
    obtain rfl := Except.ok.inj hx
    exact h.by_waking rfl rfl rfl (Function.update_self t true s.waking)
  | wakeupBy t =>
    obtain rfl := Except.ok.inj hx
    exact h.by_writing rfl rfl id s.wakeup_pos

/-- In every interleaving, whenever the loop thread is in `poll` although a functor is pending
or `quit` was called, the eventfd is readable or a thread still has its `wakeup` to write. -/
theorem no_lost_wakeup {wakeupCounter : ℕ} {waking : T → Bool} {ls : List (LoopStep F T)}
    {s : EventLoop F T} (hrun : (loopMachine F T).Run (.enter [] wakeupCounter waking) ls s)
    (hpoll : s.pc = .poll) (hdue : s.pendingFunctors ≠ [] ∨ s.quit = true) :
    0 < s.wakeupCounter ∨ ∃ t, s.waking t = true := by
  have h : WakeInv s := hrun.invariant (.enter wakeupCounter waking)
    fun s l u hs he hx => hs.step he hx
  rcases hdue with hp | hquit
  · exact h.signalled (by rw [hpoll]; rfl) (by rw [hpoll]; rfl) hp
  · exact h.quit hpoll hquit

/-- Another thread queues a functor while the loop thread is in `poll`. -/
theorem no_lost_wakeup_queued : ∃ s : EventLoop ℕ Unit,
    (loopMachine ℕ Unit).Run (.enter [] 0 fun _ => false)
      [.advance, .queueInLoopBy () 5, .wakeupBy ()] s ∧
    s.pc = .poll ∧ s.pendingFunctors = [5] ∧
    (0 < s.wakeupCounter ∨ ∃ t, s.waking t = true) := by
  have hrun : (loopMachine ℕ Unit).Run (.enter [] 0 fun _ => false)
      ((([] ++ [.advance]) ++ [.queueInLoopBy () 5]) ++ [.wakeupBy ()]) _ :=
    .snoc (.snoc (.snoc .nil rfl rfl) rfl rfl) rfl rfl
  exact ⟨_, hrun, rfl, rfl, no_lost_wakeup hrun rfl (Or.inl (List.cons_ne_nil 5 []))⟩

end Tmuduo
