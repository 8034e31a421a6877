import Tmuduo.TimerInvariant

/-!
# No timer is stranded

`Timerfd.Covers fd e` : the timerfd has an expiry that was not read, or it is armed, and not for
later than `e`, or than 100 microseconds after it was armed. `resetTimerfd` covers the time that
it is given, and a timerfd that covers a time covers every later time (`Timerfd.Covers.mono`).

Outside `handleRead` the timerfd covers the first entry (`ArmInv.armed`). An add re-arms when its
timer comes first, a cancel only moves the first entry to a later time, and `handleRead` re-arms
at its end, if the next expiration is valid. `no_timer_stranded` puts this together for every
run.
-/

set_option autoImplicit false

namespace Tmuduo

/-! ## Arming the timerfd -/

/-- Seconds and nanoseconds are put together to what they were taken from. -/
theorem howMuchTimeFromNow_toMicroSeconds (expiration now : ℤ) :
    (howMuchTimeFromNow expiration now).toMicroSeconds = max (expiration - now) 100 := by
  unfold howMuchTimeFromNow Timespec.toMicroSeconds
  simp only
  rw [Int.mul_tdiv_cancel _ (by decide), Int.add_comm, Int.tmod_add_tdiv_mul]
  split_ifs with h
  · exact (max_eq_right h.le).symm
  · exact (max_eq_left (not_lt.mp h)).symm

namespace Timerfd

/-- An expiry is to be read, or will come in time for `e`. -/
def Covers (fd : Timerfd) (e : Timestamp) : Prop :=
  fd.unread = true ∨ ∃ d, fd.deadline = some d ∧ d ≤ max e (fd.armedAt + 100)

variable {fd : Timerfd} {e e' : Timestamp}

theorem Covers.mono (h : fd.Covers e) (hle : e ≤ e') : fd.Covers e' := by
  refine h.imp_right fun ⟨d, hd, hdle⟩ => ⟨d, hd, ?_⟩
  exact hdle.trans (max_le_max_right _ hle)

theorem Covers.elapse (h : fd.Covers e) (now : Timestamp) : (fd.elapse now).Covers e := by
  unfold Timerfd.elapse
  split
  · split_ifs
    · exact Or.inl rfl
    · exact h
  · exact h

end Timerfd

theorem TimerQueue.resetTimerfd_covers (s : TimerQueue) (e : Timestamp) :
    (s.resetTimerfd e).Covers e := by
  have hdeadline : ∀ clock e : ℤ, clock + max (e - clock) 100 ≤ max e (clock + 100) := by
    intro clock e
    omega
  refine Or.inr ⟨_, rfl, ?_⟩
  rw [howMuchTimeFromNow_toMicroSeconds]
  exact hdeadline s.clock e

/-! ## Runs -/

/-- A use with one monotone clock and valid expirations, whose callbacks do not cancel. -/
def ValidUse (s : TimerQueue) : TimerStep → Prop
  | .addTimer timer _ => 0 < timer.expiration
  | .cancel _ => s.pc = .outside
  | .endCallback => ∀ id ∈ s.pc.current, ∀ timer ∈ (s.timers.lookup id).join,
      timer.repeats = true → 0 < (timer.restart s.clock).expiration
  | .tick now => s.clock ≤ now
  | _ => True

instance (s : TimerQueue) : ∀ l, Decidable (ValidUse s l)
  | .addTimer timer _ => inferInstanceAs (Decidable (0 < timer.expiration))
  | .cancel _ => inferInstanceAs (Decidable (s.pc = .outside))
  | .endCallback => inferInstanceAs (Decidable (∀ id ∈ s.pc.current,
      ∀ timer ∈ (s.timers.lookup id).join, timer.repeats = true →
        0 < (timer.restart s.clock).expiration))
  | .tick now => inferInstanceAs (Decidable (s.clock ≤ now))
  | .handleRead | .startCallback | .finish => isTrue trivial

theorem ValidUse.cancels {s : TimerQueue} {l : TimerStep} (h : ValidUse s l) :
    CancelsOutsideCallbacks s l := by
  cases l with
  | cancel id => exact h
  | _ => trivial

/-- What the queue keeps so that no timer is stranded. -/
structure ArmInv (s : TimerQueue) : Prop where
  timer : TimerInv s
  valid : ∀ id timer, s.timers.lookup id = some (some timer) → 0 < timer.expiration
  armed : s.pc = .outside → ∀ x, s.timerEntries.min? = some x → s.timerfd.Covers x.first

theorem first_mono {x y : TimerEntry} (h : x ≤ y) : x.first ≤ y.first := by
  rcases Prod.Lex.le_iff.mp h with hlt | ⟨heq, -⟩
  · exact hlt.le
  · exact heq.le

namespace ArmInv

variable {s : TimerQueue}

theorem new (clock : Timestamp) : ArmInv (.new clock) where
  timer := .new clock
  valid id timer h := by simp [TimerQueue.new] at h
  armed _ x h := by simp [TimerQueue.new, OrderedSet.min?, OrderedSet.empty] at h

/-- The first entry moves to a later time, or is removed. -/
theorem covers_of_subset (h : ArmInv s) (hpc : s.pc = .outside) {entries : OrderedSet TimerEntry}
    (hsub : ∀ x ∈ entries, x ∈ s.timerEntries) {x : TimerEntry} (hx : entries.min? = some x) :
    s.timerfd.Covers x.first := by
  have hmem := hsub x (OrderedSet.min?_mem hx)
  cases hmin : s.timerEntries.min? with
  | none => exact absurd hmem (OrderedSet.min?_eq_none_iff.mp hmin x)
  | some y => exact (h.armed hpc y hmin).mono (first_mono (OrderedSet.min?_le hmin hmem))

theorem valid_insert (h : ArmInv s) {timer : Timer} (hvalid : 0 < timer.expiration) (id : TimerId) :
    ∀ id' t, (s.timers.insert id (some timer)).lookup id' = some (some t) → 0 < t.expiration := by
  intro id' t ht
  rw [lookup_insert_eq] at ht
  split_ifs at ht
  · obtain rfl := Option.some.inj (Option.some.inj ht)
    exact hvalid
  · exact h.valid id' t ht

theorem valid_erase (h : ArmInv s) (id : TimerId) :
    ∀ id' t, (s.timers.erase id).lookup id' = some (some t) → 0 < t.expiration := by
  intro id' t ht
  rw [lookup_erase_eq] at ht
  split_ifs at ht
  exact h.valid id' t ht

/-- After an add the timerfd covers the first entry, whether the add re-armed it or not. -/
theorem addTimer_covers (h : ArmInv s) (hpc : s.pc = .outside) (timer : Timer) (garbage : Bool)
    {x : TimerEntry} (hx : (s.addTimerInLoop timer garbage).timerEntries.min? = some x) :
    (s.addTimerInLoop timer garbage).timerfd.Covers x.first := by
  have hmem := OrderedSet.mem_insert.mp (OrderedSet.min?_mem hx)
  cases hmin : s.timerEntries.min? with
  | none =>
    have hempty := h.timer.queue.toEntries.guarded_outside hpc hmin
    have hx' := hmem.resolve_right (OrderedSet.min?_eq_none_iff.mp hmin x)
    simp only [TimerQueue.addTimerInLoop, TimerQueue.earliestChanged, hempty, decide_true,
      Bool.true_or, if_true, hx', first_timerEntry]
    exact s.resetTimerfd_covers timer.expiration
  | some y =>
    have hy := h.armed hpc y hmin
    have hne : s.timers ≠ ∅ := by
      obtain ⟨t, ht, -⟩ :=
        (h.timer.queue.toEntries.mem_entries_outside hpc).mp (OrderedSet.min?_mem hmin)
      intro hempty
      rw [hempty, Finmap.lookup_empty] at ht
      cases ht
    simp only [TimerQueue.addTimerInLoop, TimerQueue.earliestChanged, hne, decide_false,
      Bool.false_or, hmin, decide_eq_true_eq]
    split_ifs with hlt
    · refine (s.resetTimerfd_covers timer.expiration).mono ?_
      rcases hmem with rfl | hmem
      · exact le_rfl
      · exact hlt.le.trans (first_mono (OrderedSet.min?_le hmin hmem))
    · refine hy.mono ?_
      rcases hmem with rfl | hmem
      · exact not_lt.mp hlt
      · exact first_mono (OrderedSet.min?_le hmin hmem)

/-- At its end `handleRead` re-arms the timerfd for the first entry. -/
theorem finish_covers (h : ArmInv s) {x : TimerEntry} (hx : s.timerEntries.min? = some x) :
    s.finish.timerfd.Covers x.first := by
  obtain ⟨-, timer, htimer, hexp⟩ :=
    (h.timer.queue.entries x.first x.second).mp (OrderedSet.min?_mem hx)
  have hvalid : Timestamp.valid x.first = true := decide_eq_true (hexp ▸ h.valid _ timer htimer)
  simp only [TimerQueue.finish, hx, Option.map_some, Option.getD_some, hvalid, if_true]
  exact s.resetTimerfd_covers x.first

theorem step : (timerMachine.restrict ValidUse).Keeps ArmInv := by
  intro s l h he
  have hcancels : CancelsOutsideBatch s l := CancelsOutsideBatch.of_callbacks he.2.cancels
  obtain ⟨u, hu, hinv⟩ := TimerInv.step h.timer ⟨he.1, hcancels⟩
  refine ⟨u, hu, ?_⟩
  cases l with
  | addTimer timer garbage =>
    obtain rfl := Except.ok.inj hu
    exact ⟨hinv, h.valid_insert he.2 _, fun hpc x hx => h.addTimer_covers hpc timer garbage hx⟩
  | cancel id =>
    obtain ⟨timer, -, heq⟩ := h.timer.queue.toEntries.cancelInLoop_eq he.1.2
    obtain rfl := Except.ok.inj (heq.symm.trans hu)
    refine ⟨hinv, h.valid_erase id, fun hpc x hx => h.covers_of_subset hpc (fun y hy => ?_) hx⟩
    exact (OrderedSet.mem_erase.mp hy).1
  | handleRead =>
    obtain rfl := Except.ok.inj ((h.timer.queue.toEntries.handleRead_eq he.1).symm.trans hu)
    exact ⟨hinv, h.valid, fun hpc => by cases hpc⟩
  | startCallback =>
    obtain ⟨now, e, rest, hpc⟩ := he.1
    obtain ⟨timer, -, -, heq⟩ := h.timer.queue.startCallback_eq hpc
    obtain rfl := Except.ok.inj (heq.symm.trans hu)
    exact ⟨hinv, h.valid, fun hpc => by cases hpc⟩
  | endCallback =>
    obtain ⟨now, id, rest, hpc⟩ := he.1
    obtain ⟨timer, htimer, -⟩ := h.timer.queue.lookup_current hpc
    cases hrep : timer.repeats with
    | true =>
      obtain rfl := Except.ok.inj ((TimerInv.endCallback_repeats hpc htimer hrep).symm.trans hu)
      have hvalid := he.2 id (by rw [hpc]; rfl) timer (by rw [htimer]; rfl) hrep
      exact ⟨hinv, h.valid_insert hvalid id, fun hpc => by cases hpc⟩
    | false =>
      obtain rfl := Except.ok.inj ((TimerInv.endCallback_one_shot hpc htimer hrep).symm.trans hu)
      exact ⟨hinv, h.valid_erase id, fun hpc => by cases hpc⟩
  | finish =>
    obtain rfl := Except.ok.inj hu
    exact ⟨hinv, h.valid, fun _ x hx => h.finish_covers hx⟩
  | tick now =>
    obtain rfl := Except.ok.inj hu
    exact ⟨hinv, h.valid, fun hpc x hx => (h.armed hpc x hx).elapse now⟩

end ArmInv

/-- In every run, whenever control is outside `handleRead` and there is an entry, the timerfd has
an expiry that was not read, or it is armed with a deadline that is not later than the first
expiration, or than 100 microseconds after it was last armed. -/
theorem no_timer_stranded {clock : Timestamp} {ls : List TimerStep} {t : TimerQueue}
    (hrun : (timerMachine.restrict ValidUse).Run (.new clock) ls t) (hpc : t.pc = .outside)
    {x : TimerEntry} (hx : t.timerEntries.min? = some x) :
    t.timerfd.unread = true ∨
      ∃ d, t.timerfd.deadline = some d ∧ d ≤ max x.first (t.timerfd.armedAt + 100) :=
  (ArmInv.step.run (.new clock) hrun).armed hpc x hx

/-- The first timer is cancelled, and the timerfd stays armed for it. -/
theorem no_timer_stranded_cancel : ∃ t,
    (timerMachine.restrict ValidUse).Run (.new 1) [.addTimer ⟨500, 0, false, 1⟩ false,
      .addTimer ⟨900, 0, false, 2⟩ false, .cancel 1] t ∧
    t.pc = .outside ∧ t.timerEntries.min? = some (timerEntry 900 2) ∧
    (t.timerfd.unread = true ∨
      ∃ d, t.timerfd.deadline = some d ∧ d ≤ max 900 (t.timerfd.armedAt + 100)) := by
  have hrun : (timerMachine.restrict ValidUse).Run (.new 1) [.addTimer ⟨500, 0, false, 1⟩ false,
      .addTimer ⟨900, 0, false, 2⟩ false, .cancel 1] _ := .of_play rfl
  exact ⟨_, hrun, rfl, rfl, no_timer_stranded hrun rfl rfl⟩

end Tmuduo
