import Tmuduo.TimerInvariant

/-!
# Cancelling from callbacks

`getExpired` has taken the batch out of `timerEntries_` before the first callback runs, and the
loop of `handleRead` looks every timer of the batch up in `timers_` once more. A callback that
cancels a timer of the batch that has not run takes it away under the loop : the assertion of
the loop fails when it gets there. A callback that cancels its own timer leaves the loop with a
dangling reference when it returns (`cancel_in_batch_fails`).

A callback that adds a timer while the batch has all of them makes `addTimerInLoop` read the first
of no entries, and the default build checks that (`debugTimerMachine`). `cancel_outside_batch`
proves that nothing else can go wrong. While callbacks cancel other timers only and add timers
while there is another one, no step fails, `handleRead` comes to its end, and no cancelled timer
starts.

The assertion of `cancelInLoop` reads `timers_[timerId]`, which stores a null pointer for an id
that is not there, and fails; the test after it is for such an id. `late_cancel_iff` : to cancel a
timer that is gone does nothing if and only if assertions are compiled out.
-/

set_option autoImplicit false

namespace Tmuduo

/-- `addTimerInLoop` where iterators are checked. -/
def TimerQueue.addTimerInLoopDebug (s : TimerQueue) (timer : Timer) (garbage : Bool) :
    Except TimerFault TimerQueue := do
  check s.Guarded .noEntry
  return s.addTimerInLoop timer garbage

/-- The queue in a build that checks iterators. -/
def debugTimerMachine : Machine TimerQueue TimerStep TimerFault where
  enabled := timerMachine.enabled
  exec s
    | .addTimer timer garbage => s.addTimerInLoopDebug timer garbage
    | l => timerMachine.exec s l

instance (s : TimerQueue) (l : TimerStep) : Decidable (debugTimerMachine.enabled s l) :=
  inferInstanceAs (Decidable (timerMachine.enabled s l))

/-- A callback cancels neither its own timer nor one of its batch that has not run, and it adds a
timer while there is one that is neither, or none at all. -/
def UsesOutsideBatch (s : TimerQueue) : TimerStep → Prop
  | .addTimer _ _ => s.SomeOutsideBatch
  | l => CancelsOutsideBatch s l

instance (s : TimerQueue) : ∀ l, Decidable (UsesOutsideBatch s l)
  | .addTimer _ _ => inferInstanceAs (Decidable s.SomeOutsideBatch)
  | .cancel timerId => inferInstanceAs (Decidable (CancelsOutsideBatch s (.cancel timerId)))
  | .handleRead | .startCallback | .endCallback | .finish | .tick _ => isTrue trivial

theorem UsesOutsideBatch.cancels {s : TimerQueue} {l : TimerStep} (h : UsesOutsideBatch s l) :
    CancelsOutsideBatch s l := by
  cases l with
  | addTimer timer garbage => trivial
  | _ => exact h

/-- Where the iterators are checked, too, no step fails. -/
theorem TimerInv.debug_step : (debugTimerMachine.restrict UsesOutsideBatch).Keeps TimerInv := by
  intro s l h ⟨he, huses⟩
  obtain ⟨u, hu, hinv⟩ := TimerInv.step h ⟨he, huses.cancels⟩
  refine ⟨u, ?_, hinv⟩
  cases l with
  | addTimer timer garbage =>
    have hguarded : s.Guarded := h.queue.toEntries.guarded_iff.mpr huses
    change s.addTimerInLoopDebug timer garbage = .ok u
    rw [TimerQueue.addTimerInLoopDebug, check_of _ hguarded, ok_bind]
    exact hu
  | _ => exact hu

/-- A step of the loop of `handleRead`. -/
def TimerStep.inHandleRead : TimerStep → Bool
  | startCallback => true
  | endCallback => true
  | finish => true
  | _ => false

/-- The steps that the loop of `handleRead` has yet to take. -/
def TimerPc.remaining : TimerPc → ℕ
  | outside => 0
  | batch _ rest => 2 * rest.length + 1
  | calling _ _ rest => 2 * rest.length + 2

/-- The next step of the loop succeeds and brings it nearer to its end. -/
theorem TimerInv.progress {s : TimerQueue} (h : TimerInv s) (hpc : s.pc ≠ .outside) :
    ∃ l u, l.inHandleRead = true ∧ debugTimerMachine.enabled s l ∧
      debugTimerMachine.exec s l = .ok u ∧ TimerInv u ∧ u.pc.remaining < s.pc.remaining := by
  cases hpc' : s.pc with
  | outside => exact absurd hpc' hpc
  | batch now rest =>
    cases rest with
    | nil => exact ⟨.finish, s.finish, rfl, ⟨now, hpc'⟩, rfl, h.finish hpc', Nat.succ_pos 0⟩
    | cons e rest =>
      obtain ⟨u, hu, hinv, hupc⟩ := h.startCallback hpc'
      refine ⟨.startCallback, u, rfl, ⟨now, e, rest, hpc'⟩, hu, hinv, ?_⟩
      simp only [hupc, TimerPc.remaining, List.length_cons]
      omega
  | calling now id rest =>
    obtain ⟨u, hu, hinv, hupc⟩ := h.endCallback hpc'
    refine ⟨.endCallback, u, rfl, ⟨now, id, rest, hpc'⟩, hu, hinv, ?_⟩
    simp only [hupc, TimerPc.remaining]
    omega

/-- The loop of `handleRead` comes to its end. -/
theorem TimerInv.runs_to_end {s : TimerQueue} (h : TimerInv s) :
    ∃ ls u, (∀ l ∈ ls, l.inHandleRead = true) ∧ debugTimerMachine.Run s ls u ∧
      u.pc = .outside := by
  induction hn : s.pc.remaining using Nat.strongRecOn generalizing s with
  | _ n ih =>
    by_cases hpc : s.pc = .outside
    · exact ⟨[], s, by simp, .nil, hpc⟩
    · obtain ⟨l, t, hl, he, hx, ht, hlt⟩ := h.progress hpc
      obtain ⟨ls, u, hls, hrun, hu⟩ := ih _ (hn ▸ hlt) ht rfl
      refine ⟨[l] ++ ls, u, ?_, Machine.Run.trans (.snoc .nil he hx) hrun, hu⟩
      simpa [hl] using hls

/-- While callbacks cancel neither their own timer nor one of their batch that has not run, and add
timers only while there is another one or none : no step fails, from every point `handleRead` comes
to its end, and the next callback to start is not that of a cancelled timer. -/
theorem cancel_outside_batch {clock : Timestamp} {ls : List TimerStep} {t : TimerQueue}
    (hrun : (debugTimerMachine.restrict UsesOutsideBatch).Run (.new clock) ls t) :
    (∀ l, debugTimerMachine.enabled t l → UsesOutsideBatch t l →
      ∃ u, debugTimerMachine.exec t l = .ok u) ∧
    (∃ ls' u, (∀ l ∈ ls', l.inHandleRead = true) ∧ debugTimerMachine.Run t ls' u ∧
      u.pc = .outside) ∧
    ∀ now e rest, t.pc = .batch now (e :: rest) → e.second ∉ t.cancelled := by
  have h : TimerInv t := TimerInv.debug_step.run (.new clock) hrun
  refine ⟨fun l he hl => ?_, h.runs_to_end, fun now e rest hpc hgone => ?_⟩
  · obtain ⟨u, hu, -⟩ := TimerInv.debug_step h ⟨he, hl⟩
    exact ⟨u, hu⟩
  · obtain ⟨timer, htimer, -⟩ := h.queue.startCallback_eq hpc
    exact (h.history.gone _ hgone).1 (mem_of_lookup htimer)

/-- The callback of timer 1 adds timer 3 and cancels timer 2, which expires later. -/
theorem cancel_outside_batch_later : ∃ t,
    (debugTimerMachine.restrict UsesOutsideBatch).Run (.new 0)
      [.addTimer ⟨10, 0, false, 1⟩ false, .addTimer ⟨20, 0, false, 2⟩ false, .tick 10, .handleRead,
        .startCallback, .addTimer ⟨30, 0, false, 3⟩ false, .cancel 2] t ∧
    t.cancelled = [2] ∧ ∃ ls' u, (∀ l ∈ ls', l.inHandleRead = true) ∧
      debugTimerMachine.Run t ls' u ∧ u.pc = .outside := by
  have hrun : (debugTimerMachine.restrict UsesOutsideBatch).Run (.new 0)
      [.addTimer ⟨10, 0, false, 1⟩ false, .addTimer ⟨20, 0, false, 2⟩ false, .tick 10, .handleRead,
        .startCallback, .addTimer ⟨30, 0, false, 3⟩ false, .cancel 2] _ := .of_play rfl
  exact ⟨_, hrun, rfl, (cancel_outside_batch hrun).2.1⟩

/-- A callback that cancels its own timer, one that cancels the next timer of its batch, and one
that adds a timer while there is no other. -/
theorem cancel_in_batch_fails :
    (∃ t, debugTimerMachine.Run (.new 0) [.addTimer ⟨10, 0, false, 1⟩ false, .tick 10, .handleRead,
        .startCallback, .cancel 1] t ∧
      debugTimerMachine.enabled t .endCallback ∧
      debugTimerMachine.exec t .endCallback = .error .danglingTimer) ∧
    (∃ t, debugTimerMachine.Run (.new 0) [.addTimer ⟨10, 0, false, 1⟩ false,
        .addTimer ⟨10, 0, false, 2⟩ false, .tick 10, .handleRead, .startCallback, .cancel 2,
        .endCallback] t ∧
      debugTimerMachine.enabled t .startCallback ∧
      debugTimerMachine.exec t .startCallback = .error .countAssert) ∧
    ∃ t, debugTimerMachine.Run (.new 0) [.addTimer ⟨10, 0, false, 1⟩ false, .tick 10, .handleRead,
        .startCallback] t ∧
      debugTimerMachine.enabled t (.addTimer ⟨30, 0, false, 2⟩ false) ∧
      debugTimerMachine.exec t (.addTimer ⟨30, 0, false, 2⟩ false) = .error .noEntry :=
  ⟨⟨_, .of_play rfl, ⟨_, _, _, rfl⟩, rfl⟩, ⟨_, .of_play rfl, ⟨_, _, _, rfl⟩, rfl⟩,
    _, .of_play rfl, by decide, rfl⟩

/-! ## Cancelling late -/

/-- Whether `assert` is compiled in (`debug`), or `NDEBUG` is defined. -/
inductive Build
  | debug
  | release
  deriving DecidableEq, Repr

namespace TimerQueue

/-- `cancelInLoop` without its assertion. -/
def cancelInLoopRelease (s : TimerQueue) (timerId : TimerId) : Except TimerFault TimerQueue :=
  match s.timers.lookup timerId with
  | some (some timer) => .ok
    { s with
      timerEntries := s.timerEntries.erase (timerEntry timer.expiration timerId)
      timers := s.timers.erase timerId
      cancelled := s.cancelled ++ [timerId] }
  | some none => .error .nullTimer
  | none => .ok s

def cancelInLoopIn (s : TimerQueue) : Build → TimerId → Except TimerFault TimerQueue
  | .debug => s.cancelInLoop
  | .release => s.cancelInLoopRelease

/-- The call passes its assertion and leaves both containers as they are. -/
def CancelDoesNothing (s : TimerQueue) (build : Build) (timerId : TimerId) : Prop :=
  ∃ u, s.cancelInLoopIn build timerId = .ok u ∧ u.timers = s.timers ∧
    u.timerEntries = s.timerEntries

variable {s u : TimerQueue} {id : TimerId}

theorem cancelInLoop_absent (hid : id ∉ s.timers) : s.cancelInLoop id = .error .cancelAssert := by
  simp only [cancelInLoop, if_neg hid, Finmap.lookup_insert]

theorem cancelInLoopRelease_absent (hid : id ∉ s.timers) : s.cancelInLoopRelease id = .ok s := by
  simp only [cancelInLoopRelease, Finmap.lookup_eq_none.mpr hid]

theorem cancelInLoopRelease_present (hid : id ∈ s.timers) (hu : s.cancelInLoop id = .ok u) :
    s.cancelInLoopRelease id = .ok u := by
  simp only [cancelInLoop, if_pos hid] at hu
  unfold cancelInLoopRelease
  split at hu
  · next timer htimer => rw [htimer, ← hu]
  · cases hu

/-- A timer that was cancelled is gone. -/
theorem not_mem_of_cancelInLoopIn {build : Build} (hu : s.cancelInLoopIn build id = .ok u) :
    id ∉ u.timers := by
  have hrelease : s.cancelInLoopRelease id = .ok u := by
    cases build with
    | release => exact hu
    | debug =>
      by_cases hid : id ∈ s.timers
      · exact cancelInLoopRelease_present hid hu
      · exact absurd (hu.symm.trans (cancelInLoop_absent hid)) nofun
  unfold cancelInLoopRelease at hrelease
  split at hrelease
  · obtain rfl := Except.ok.inj hrelease
    simp
  · cases hrelease
  · next hnone =>
    obtain rfl := Except.ok.inj hrelease
    exact Finmap.lookup_eq_none.mp hnone

theorem cancelDoesNothing_iff {build : Build} (hid : id ∉ s.timers) :
    s.CancelDoesNothing build id ↔ build = .release := by
  constructor
  · rintro ⟨u, hu, -⟩
    cases build with
    | release => rfl
    | debug => exact absurd (hu.symm.trans (cancelInLoop_absent hid)) nofun
  · rintro rfl
    exact ⟨s, cancelInLoopRelease_absent hid, rfl, rfl⟩

end TimerQueue

/-- The queue of a build, where any id may be cancelled at any time. -/
def timerMachineOf (build : Build) : Machine TimerQueue TimerStep TimerFault where
  enabled s
    | .cancel _ => s.pc.inUserCode = true
    | l => timerMachine.enabled s l
  exec s
    | .cancel timerId => s.cancelInLoopIn build timerId
    | l => timerMachine.exec s l

/-- Without assertions every step succeeds, also one that cancels a timer that is gone. -/
theorem TimerInv.release_step :
    ((timerMachineOf .release).restrict CancelsOutsideBatch).Keeps TimerInv := by
  intro s l h he
  cases l with
  | cancel id =>
    by_cases hid : id ∈ s.timers
    · obtain ⟨u, hu, hinv⟩ := h.cancel hid he.2
      exact ⟨u, TimerQueue.cancelInLoopRelease_present hid hu, hinv⟩
    · exact ⟨s, TimerQueue.cancelInLoopRelease_absent hid, h⟩
  | addTimer timer garbage => exact @TimerInv.step s (.addTimer timer garbage) h he
  | handleRead => exact @TimerInv.step s .handleRead h he
  | startCallback => exact @TimerInv.step s .startCallback h he
  | endCallback => exact @TimerInv.step s .endCallback h he
  | finish => exact @TimerInv.step s .finish h he
  | tick now => exact @TimerInv.step s (.tick now) h he

/-- In a build : to cancel an id that is not in `timers_` does nothing, and to cancel once more
does nothing, if and only if assertions are compiled out. Only then no step of any run fails while
callbacks cancel outside their batch. -/
theorem late_cancel_iff (build : Build) :
    (∀ (s : TimerQueue) id, id ∉ s.timers → (s.CancelDoesNothing build id ↔ build = .release)) ∧
    (∀ (s u : TimerQueue) id, s.cancelInLoopIn build id = .ok u →
      (u.CancelDoesNothing build id ↔ build = .release)) ∧
    ∀ clock, ((timerMachineOf build).restrict CancelsOutsideBatch).Safe (.new clock) ↔
      build = .release := by
  refine ⟨fun s id hid => TimerQueue.cancelDoesNothing_iff hid, fun s u id hu =>
    TimerQueue.cancelDoesNothing_iff (TimerQueue.not_mem_of_cancelInLoopIn hu), fun clock => ?_⟩
  constructor
  · intro hsafe
    cases build with
    | release => rfl
    | debug =>
      have hfails : (TimerQueue.new clock).cancelInLoop 0 = .error .cancelAssert :=
        TimerQueue.cancelInLoop_absent Finmap.notMem_empty
      obtain ⟨u, hu⟩ := hsafe .nil (l := .cancel 0) ⟨rfl, List.not_mem_nil⟩
      change (TimerQueue.new clock).cancelInLoop 0 = .ok u at hu
      exact absurd (hu.symm.trans hfails) nofun
  · rintro rfl
    exact TimerInv.release_step.safe (.new clock)

/-- With assertions, to cancel a one-shot timer that has fired fails, and so does to cancel a timer
twice. Without them both do nothing. -/
theorem late_cancel_fails :
    (∃ t, timerMachine.Run (.new 0) [.addTimer ⟨10, 0, false, 1⟩ false, .tick 10, .handleRead,
        .startCallback, .endCallback, .finish] t ∧
      t.pc = .outside ∧ 1 ∉ t.timers ∧ t.cancelInLoopIn .debug 1 = .error .cancelAssert ∧
      t.cancelInLoopIn .release 1 = .ok t) ∧
    ∃ t, timerMachine.Run (.new 0) [.addTimer ⟨10, 0, false, 1⟩ false, .cancel 1] t ∧
      t.pc = .outside ∧ 1 ∉ t.timers ∧ t.cancelInLoopIn .debug 1 = .error .cancelAssert ∧
      t.cancelInLoopIn .release 1 = .ok t :=
  ⟨⟨_, .of_play rfl, rfl, by decide, rfl, rfl⟩, _, .of_play rfl, rfl, by decide, rfl, rfl⟩

end Tmuduo
