import Tmuduo.ConnectorSockets

/-!
# Stopping a connector inside a batch

`EventLoop::removeChannel` asserts that the channel is the current one or not among the active
ones. The handlers of the connector's own channel remove it while it is the current one, and a
functor runs after the batch. `stop` in the loop thread removes it at once : when the handler of
another channel calls it, and the connector's channel is in the batch, the assertion fails.

`stop_in_batch_iff` : that is the only step of any run where it fails, and no channel that was
removed is handled later in the batch. `stop_in_batch_fails` is a timer that stops a connector
whose socket has become writable.
-/

set_option autoImplicit false

namespace Tmuduo

namespace ConnectorWorld

variable {w u : ConnectorWorld} {ch : Channel}

/-! ## What an attempt leaves as it is -/

/-- The start of an attempt does not move the loop. -/
theorem Begun.batch (h : w.Begun u) : u.batch = w.batch := by
  cases h with
  | connecting | closed => rfl
  | retry => rw [retry_eq]; rfl

/-- Nor does its end. -/
theorem Ended.batch (h : w.Ended ch u) : u.batch = w.batch := by
  cases h with
  | delivered | closed => rfl
  | retry => rw [retry_eq]; rfl

theorem Begun.mem_inFlight (h : w.Begun u) {n : ℤ} (hn : n ∈ w.inFlight) : n ∈ u.inFlight := by
  cases h with
  | connecting hnone =>
    rw [inFlight_of_none hnone] at hn
    cases hn
  | closed => exact hn
  | retry =>
    rw [retry_eq]
    exact hn

theorem Ended.inFlight (h : w.Ended ch u) : u.inFlight = [] := by
  cases h with
  | delivered | closed => rfl
  | retry => rw [retry_eq]; rfl

/-- At most one attempt is in flight. -/
theorem eq_of_mem_inFlight {m n : ℤ} (hm : m ∈ w.inFlight) (hn : n ∈ w.inFlight) : m = n := by
  obtain ⟨ch, hch, -, rfl⟩ := ConnectorWorld.mem_inFlight.mp hm
  obtain ⟨ch', hch', -, rfl⟩ := ConnectorWorld.mem_inFlight.mp hn
  rw [Option.some.inj (hch.symm.trans hch')]

/-! ## The batch -/

/-- Where the loop is in its batch. The connector's channels that are waiting are registered, and
are not the current one. While the handlers of one run, it is the current one, and an error is
handled first, while it is registered. -/
structure BatchInv (w : ConnectorWorld) : Prop where
  outside : w.batch.eventHandling = false → w.batch.rest = [] ∧ w.batch.tasks = []
  waiting : ∀ n, some n ∈ w.batch.rest → n ∈ w.inFlight ∧ some n ∈ w.batch.active ∧
    w.batch.rest.count (some n) = 1 ∧ w.batch.current ≠ some (some n)
  handling : w.batch.tasks ≠ [] → ∃ n, w.batch.current = some (some n) ∧ ∀ m ∈ w.inFlight, m = n
  errors : .handleError ∈ w.batch.tasks → w.inFlight ≠ []
  shape : ∃ error write, w.batch.tasks = LoopBatch.callbacks error write
  writing : w.batch.tasks ≠ [] → w.state ≠ .kConnected

namespace BatchInv

theorem new : BatchInv .new where
  outside _ := ⟨rfl, rfl⟩
  waiting := nofun
  handling h := absurd rfl h
  errors := nofun
  shape := ⟨false, false, rfl⟩
  writing h := absurd rfl h

/-- Between handlers only the waiting channels matter. -/
theorem of_idle (h : w.BatchInv) (hbatch : u.batch = { w.batch with tasks := [] })
    (hflight : ∀ n, some n ∈ w.batch.rest → n ∈ u.inFlight) : u.BatchInv := by
  have htasks : u.batch.tasks = [] := by rw [hbatch]
  refine ⟨fun hevents => ?_, fun n hn => ?_, fun hne => absurd htasks hne, fun hmem => ?_,
    ⟨false, false, htasks⟩, fun hne => absurd htasks hne⟩
  · rw [hbatch] at hevents ⊢
    exact ⟨(h.outside hevents).1, rfl⟩
  · rw [hbatch] at hn ⊢
    exact ⟨hflight n hn, (h.waiting n hn).2⟩
  · rw [htasks] at hmem
    cases hmem

theorem batch_eq (htasks : w.batch.tasks = []) : w.batch = { w.batch with tasks := [] } := by
  rw [← htasks]

theorem frame (h : w.BatchInv) (hbatch : u.batch = w.batch) (hchannel : u.channel = w.channel)
    (hstate : u.state = w.state) : u.BatchInv := by
  have hflight : u.inFlight = w.inFlight := by rw [inFlight, hchannel, inFlight]
  obtain ⟨houtside, hwaiting, hhandling, herrors, hshape, hwriting⟩ := h
  constructor
  · rwa [hbatch]
  · rwa [hbatch, hflight]
  · rwa [hbatch, hflight]
  · rwa [hbatch, hflight]
  · rwa [hbatch]
  · rwa [hbatch, hstate]

/-- A new attempt leaves the channel that is waiting registered. -/
theorem begun (h : w.BatchInv) (htasks : w.batch.tasks = []) (hu : w.Begun u) : u.BatchInv :=
  h.of_idle (hu.batch.trans (batch_eq htasks)) fun n hn => hu.mem_inFlight (h.waiting n hn).1

/-- A channel that may be removed is not waiting. -/
theorem not_waiting (h : w.BatchInv) (hch : w.channel = some ch) (hmay : w.mayRemove ch) (n : ℤ) :
    some n ∉ w.batch.rest := by
  intro hn
  obtain ⟨hflight, hactive, -, hcurrent⟩ := h.waiting n hn
  obtain ⟨ch', hch', -, rfl⟩ := mem_inFlight.mp hflight
  obtain rfl := Option.some.inj (hch.symm.trans hch')
  have hevents : w.batch.eventHandling = true := by
    by_contra hout
    rw [(h.outside (by simpa using hout)).1] at hn
    cases hn
  rcases hmay hevents with heq | hnot
  · exact hcurrent heq
  · exact hnot hactive

theorem ended (h : w.BatchInv) (htasks : w.batch.tasks = []) (hch : w.channel = some ch)
    (hmay : w.mayRemove ch) (hu : w.Ended ch u) : u.BatchInv :=
  h.of_idle (hu.batch.trans (batch_eq htasks)) fun n hn => absurd hn (h.not_waiting hch hmay n)

theorem startInLoop (h : w.BatchInv) (htasks : w.batch.tasks = []) {savedErrno : ConnectErrno}
    (hu : w.startInLoop savedErrno = .ok u) : u.BatchInv := by
  obtain ⟨-, rfl | hbegun⟩ := startInLoop_cases hu
  · exact h
  · exact h.begun htasks hbegun

theorem stopInLoop (h : w.BatchInv) (htasks : w.batch.tasks = []) (hu : w.stopInLoop = .ok u) :
    u.BatchInv := by
  obtain ⟨-, rfl⟩ | ⟨-, ch, hch, hmay, rfl⟩ := stopInLoop_cases hu
  · exact h
  · exact h.ended htasks hch hmay .retry

theorem start (h : w.BatchInv) {inLoop : Bool} {savedErrno : ConnectErrno}
    (he : inLoop = true → w.batch.inUserCode) (hu : w.start inLoop savedErrno = .ok u) :
    u.BatchInv := by
  unfold ConnectorWorld.start at hu
  simp only at hu
  split_ifs at hu with hloop
  · exact (h.frame (u := { w with connect_ := true }) rfl rfl rfl).startInLoop (he hloop).1 hu
  · obtain rfl := Except.ok.inj hu
    exact h.frame rfl rfl rfl

theorem stop (h : w.BatchInv) {inLoop : Bool} (he : inLoop = true → w.batch.inUserCode)
    (hu : w.stop inLoop = .ok u) : u.BatchInv := by
  unfold ConnectorWorld.stop at hu
  simp only at hu
  split_ifs at hu with hloop
  · exact (h.frame (u := { w with connect_ := false }) rfl rfl rfl).stopInLoop (he hloop).1 hu
  · obtain rfl := Except.ok.inj hu
    exact h.frame rfl rfl rfl

/-- Functors run outside the batch, where nothing waits. -/
theorem runFunctor (h : w.BatchInv) (hevents : w.batch.eventHandling = false)
    {savedErrno : ConnectErrno} {f : ConnectorFunctor} (hu : w.runFunctor savedErrno f = .ok u) :
    u.BatchInv := by
  obtain ⟨hrest, htasks⟩ := h.outside hevents
  cases f with
  | startInLoop => exact h.startInLoop htasks hu
  | stopInLoop => exact h.stopInLoop htasks hu
  | resetChannel =>
    obtain rfl := Except.ok.inj hu
    refine h.of_idle (batch_eq htasks) fun n hn => ?_
    rw [hrest] at hn
    cases hn

/-- The handlers of the connector's channel may remove it. -/
theorem mayRemove_of_tasks (h : w.BatchInv) (htasks : w.batch.tasks ≠ [])
    (hch : w.channel = some ch) (hadded : ch.addedToLoop = true) : w.mayRemove ch := by
  obtain ⟨n, hcurrent, hall⟩ := h.handling htasks
  have hn : ch.fd = n := hall _ (mem_inFlight.mpr ⟨ch, hch, hadded, rfl⟩)
  exact fun _ => .inl (by rw [hn]; exact hcurrent)

/-- The error is handled first, and at most the write is left. -/
theorem tail_of_error (h : w.BatchInv) {tasks : List ConnectorTask}
    (htasks : w.batch.tasks = .handleError :: tasks) : tasks = [] ∨ tasks = [.handleWrite] := by
  obtain ⟨error, write, hshape⟩ := h.shape
  rw [htasks] at hshape
  cases error <;> cases write <;> simp_all [LoopBatch.callbacks]

theorem tail_of_write (h : w.BatchInv) {tasks : List ConnectorTask}
    (htasks : w.batch.tasks = .handleWrite :: tasks) : tasks = [] := by
  obtain ⟨error, write, hshape⟩ := h.shape
  rw [htasks] at hshape
  cases error <;> cases write <;> simp_all [LoopBatch.callbacks]

/-- After an error the channel is removed, and a write may be left. -/
theorem handleError (h : w.BatchInv) {tasks : List ConnectorTask}
    (htasks : w.batch.tasks = .handleError :: tasks)
    (hu : ConnectorWorld.handleError { w with batch := { w.batch with tasks := tasks } } = .ok u) :
    u.BatchInv := by
  obtain ⟨-, ch, hch, hmay, rfl⟩ := handleError_cases hu
  have hended : Ended { w with batch := { w.batch with tasks := tasks } } ch _ := .retry
  have hbatch := hended.batch
  rcases h.tail_of_error htasks with rfl | rfl
  · exact h.of_idle hbatch fun n hn => absurd hn (h.not_waiting hch hmay n)
  · refine ⟨fun hevents => ?_, fun n hn => ?_, fun _ => ?_, fun hmem => ?_, ⟨false, true, ?_⟩,
      fun _ => ?_⟩
    · rw [hbatch] at hevents
      simp [(h.outside hevents).2] at htasks
    · rw [hbatch] at hn
      exact absurd hn (h.not_waiting hch hmay n)
    · obtain ⟨n, hcurrent, -⟩ := h.handling (by simp [htasks])
      refine ⟨n, by rw [hbatch]; exact hcurrent, fun m hm => ?_⟩
      rw [hended.inFlight] at hm
      cases hm
    · rw [hbatch] at hmem
      simp at hmem
    · rw [hbatch]
      rfl
    · rw [retry_eq]
      exact (by decide : ConnectorState.kDisconnected ≠ .kConnected)

theorem handleWrite (h : w.BatchInv) {tasks : List ConnectorTask}
    (htasks : w.batch.tasks = .handleWrite :: tasks) {err isSelfConnect : Bool}
    (hu : ConnectorWorld.handleWrite { w with batch := { w.batch with tasks := tasks } } err
      isSelfConnect = .ok u) : u.BatchInv := by
  obtain rfl := h.tail_of_write htasks
  obtain ⟨-, rfl⟩ | ⟨-, ch, hch, hmay, hended⟩ := handleWrite_cases hu
  · exact h.of_idle rfl fun n hn => (h.waiting n hn).1
  · exact h.of_idle hended.batch fun n hn => absurd hn (h.not_waiting hch hmay n)

/-- The poller reports registered channels. -/
theorem poll {active : List (Option ℤ)}
    (hactive : ∀ n, some n ∈ active → n ∈ w.inFlight ∧ active.count (some n) = 1) :
    BatchInv { w with batch := ⟨true, active, none, active, []⟩ } where
  outside := nofun
  waiting n hn := ⟨(hactive n hn).1, hn, (hactive n hn).2, nofun⟩
  handling h := absurd rfl h
  errors := nofun
  shape := ⟨false, false, rfl⟩
  writing h := absurd rfl h

/-- The loop reaches a channel of the batch. If it is the connector's, it is registered. -/
theorem handle (h : w.BatchInv) (hsockets : w.SocketInv) (hevents : w.batch.eventHandling = true)
    (htasks : w.batch.tasks = []) (error write : Bool) :
    BatchInv { w with batch := w.batch.next error write } := by
  have hwaiting := h.waiting
  unfold LoopBatch.next
  split
  · exact h
  · next n rest hrest =>
    rw [hrest] at hwaiting
    obtain ⟨hn, -, hcount, -⟩ := hwaiting n List.mem_cons_self
    have hflight : w.inFlight ≠ [] := List.ne_nil_of_mem hn
    have hout : some n ∉ rest := by
      rw [List.count_cons_self] at hcount
      exact List.count_eq_zero.mp (by omega)
    refine ⟨fun hnot => absurd (hevents.symm.trans hnot) (by decide), fun m hm => ?_,
      fun _ => ⟨n, rfl, fun m hm => eq_of_mem_inFlight hm hn⟩, fun _ => hflight,
      ⟨error, write, rfl⟩, fun _ hstate => ?_⟩
    · obtain ⟨hmflight, -⟩ := hwaiting m (List.mem_cons_of_mem _ hm)
      exact absurd (eq_of_mem_inFlight hmflight hn ▸ hm) hout
    · exact absurd (hstate.symm.trans (hsockets.attempt.mpr hflight)) (by decide)
  · next rest hrest =>
    rw [hrest] at hwaiting
    refine ⟨fun hnot => absurd (hevents.symm.trans hnot) (by decide), fun m hm => ?_,
      fun hne => absurd htasks hne, fun hmem => ?_, ⟨false, false, htasks⟩,
      fun hne => absurd htasks hne⟩
    · obtain ⟨hflight, hactive, hcount, -⟩ := hwaiting m (List.mem_cons_of_mem _ hm)
      rw [List.count_cons_of_ne (by simp)] at hcount
      exact ⟨hflight, hactive, hcount, by simp⟩
    · rw [htasks] at hmem
      cases hmem

theorem endBatch (active : List (Option ℤ)) :
    BatchInv { w with batch := ⟨false, active, none, [], []⟩ } where
  outside _ := ⟨rfl, rfl⟩
  waiting := nofun
  handling h := absurd rfl h
  errors := nofun
  shape := ⟨false, false, rfl⟩
  writing h := absurd rfl h

/-- What one step of the machine keeps. -/
theorem step {l : ConnectorStep} (h : w.BatchInv) (hsockets : w.SocketInv)
    (he : connectorMachine.enabled w l) (hx : connectorMachine.exec w l = .ok u) :
    u.BatchInv := by
  cases l with
  | start inLoop savedErrno => exact h.start he hx
  | stop inLoop => exact h.stop he hx
  | restart savedErrno =>
    refine startInLoop (w := { w with
      state := .kDisconnected
      retryDelayMs := Connector.kInitRetryDelayMs
      connect_ := true
      restarts := w.restarts + 1 }) ?_ he.1.1 hx
    exact h.of_idle (batch_eq he.1.1) fun n hn => (h.waiting n hn).1
  | timer i savedErrno =>
    have hrest : BatchInv { w with timers := w.timers.eraseIdx i } := h.frame rfl rfl rfl
    exact hrest.startInLoop he.1.1 hx
  | runFunctor savedErrno =>
    simp only [connectorMachine] at hx
    split at hx
    · obtain rfl := Except.ok.inj hx
      exact h
    · next f functors hfunctors =>
      have hrest : BatchInv { w with functors := functors } := h.frame rfl rfl rfl
      exact hrest.runFunctor he.1 hx
  | poll active =>
    obtain rfl := Except.ok.inj hx
    exact poll he.2
  | handle error write =>
    obtain rfl := Except.ok.inj hx
    exact h.handle hsockets he.1 he.2.1 error write
  | runTask err isSelfConnect =>
    simp only [connectorMachine] at hx
    split at hx
    · obtain rfl := Except.ok.inj hx
      exact h
    · next task tasks htasks =>
      cases task with
      | handleError => exact h.handleError htasks hx
      | handleWrite => exact h.handleWrite htasks hx
  | endBatch =>
    obtain rfl := Except.ok.inj hx
    exact endBatch _

end BatchInv

/-! ## The assertion of `removeChannel` -/

/-- Where the assertion of `removeChannel` fails. -/
theorem not_mayRemove_iff : ¬w.mayRemove ch ↔ w.batch.eventHandling = true ∧
    some ch.fd ∈ w.batch.active ∧ w.batch.current ≠ some (some ch.fd) := by
  unfold mayRemove
  simp only [Classical.not_imp, not_or, not_not, ne_eq]
  exact and_congr_right fun _ => and_comm

theorem removeAndResetChannel_eq_removeChannel_iff :
    w.removeAndResetChannel = .error .removeChannel ↔
      ∃ ch, w.channel = some ch ∧ ¬w.mayRemove ch := by
  rw [removeAndResetChannel_eq_error_iff]
  constructor
  · rintro (⟨-, ⟨⟩⟩ | ⟨ch, hch, hnot, -⟩)
    exact ⟨ch, hch, hnot⟩
  · rintro ⟨ch, hch, hnot⟩
    exact .inr ⟨ch, hch, hnot, rfl⟩

/-- Starting removes no channel. -/
theorem startInLoop_ne_removeChannel (savedErrno : ConnectErrno) :
    w.startInLoop savedErrno ≠ .error .removeChannel := by
  intro h
  rcases startInLoop_error h with ⟨-, ⟨⟩⟩ | ⟨-, -, -, ⟨⟩⟩

/-- Outside a batch a channel may be removed. -/
theorem runFunctor_ne_removeChannel (hevents : w.batch.eventHandling = false)
    (savedErrno : ConnectErrno) (f : ConnectorFunctor) :
    w.runFunctor savedErrno f ≠ .error .removeChannel := by
  intro h
  cases f with
  | startInLoop => exact startInLoop_ne_removeChannel savedErrno h
  | stopInLoop =>
    obtain ⟨-, hremove⟩ := stopInLoop_eq_error_iff.mp h
    obtain ⟨ch, -, hnot⟩ := removeAndResetChannel_eq_removeChannel_iff.mp hremove
    exact absurd (hevents.symm.trans (not_mayRemove_iff.mp hnot).1) (by decide)
  | resetChannel => cases h

/-- The call is a `stop` in the loop thread by the handler of another channel, and the channel of
the attempt in flight is in the batch. -/
def StopsBatched (w : ConnectorWorld) : ConnectorStep → Prop
  | .stop inLoop => inLoop = true ∧ w.batch.eventHandling = true ∧
      ∃ sockfd ∈ w.inFlight, some sockfd ∈ w.batch.active ∧
        w.batch.current ≠ some (some sockfd)
  | _ => False

theorem SocketInv.mem_inFlight_of_channel (h : w.SocketInv) (hstate : w.state = .kConnecting)
    (hch : w.channel = some ch) : ch.fd ∈ w.inFlight := by
  obtain ⟨ch', hch', hadded⟩ := exists_channel_of_inFlight (h.attempt.mp hstate)
  obtain rfl := Option.some.inj (hch.symm.trans hch')
  exact mem_inFlight.mpr ⟨ch, hch, hadded, rfl⟩

/-- A `stop` fails there exactly when it withdraws the attempt inside such a batch. -/
theorem SocketInv.stop_eq_removeChannel_iff (h : w.SocketInv) (inLoop : Bool) :
    w.stop inLoop = .error .removeChannel ↔ w.StopsBatched (.stop inLoop) := by
  cases inLoop with
  | false => exact ⟨nofun, fun hstops => absurd hstops.1 (by decide)⟩
  | true =>
    have heq : w.stop true = ConnectorWorld.stopInLoop { w with connect_ := false } := rfl
    rw [heq, stopInLoop_eq_error_iff, removeAndResetChannel_eq_removeChannel_iff]
    constructor
    · rintro ⟨hstate, ch, hch, hnot⟩
      obtain ⟨hevents, hactive, hcurrent⟩ := not_mayRemove_iff.mp hnot
      exact ⟨rfl, hevents, ch.fd, h.mem_inFlight_of_channel hstate hch, hactive, hcurrent⟩
    · rintro ⟨-, hevents, sockfd, hflight, hactive, hcurrent⟩
      obtain ⟨ch, hch, -, rfl⟩ := mem_inFlight.mp hflight
      exact ⟨h.attempt.mpr (List.ne_nil_of_mem hflight), ch, hch,
        not_mayRemove_iff.mpr ⟨hevents, hactive, hcurrent⟩⟩

/-- The handlers of the connector's channel remove it as the current one. -/
theorem BatchInv.runTask_ne_removeChannel (h : w.BatchInv) (hsockets : w.SocketInv)
    {task : ConnectorTask} {tasks : List ConnectorTask} (htasks : w.batch.tasks = task :: tasks)
    (err isSelfConnect : Bool) :
    ConnectorWorld.runTask { w with batch := { w.batch with tasks := tasks } } err isSelfConnect
      task ≠ .error .removeChannel := by
  have hmay : w.state = .kConnecting → ¬∃ ch, w.channel = some ch ∧ ¬w.mayRemove ch := by
    rintro hstate ⟨ch, hch, hnot⟩
    obtain ⟨_, hch', hadded, -⟩ :=
      mem_inFlight.mp (hsockets.mem_inFlight_of_channel hstate hch)
    obtain rfl := Option.some.inj (hch.symm.trans hch')
    exact hnot (h.mayRemove_of_tasks (by rw [htasks]; exact List.cons_ne_nil _ _) hch hadded)
  intro hfail
  cases task with
  | handleError =>
    obtain ⟨-, ⟨⟩⟩ | ⟨hstate, hremove⟩ := handleError_error hfail
    obtain ⟨ch, hch, hnot⟩ := removeAndResetChannel_eq_removeChannel_iff.mp hremove
    exact hmay hstate ⟨ch, hch, hnot⟩
  | handleWrite =>
    obtain ⟨-, ⟨⟩⟩ | ⟨hstate, hremove⟩ := handleWrite_error hfail
    obtain ⟨ch, hch, hnot⟩ := removeAndResetChannel_eq_removeChannel_iff.mp hremove
    exact hmay hstate ⟨ch, hch, hnot⟩

/-- No other step does. -/
theorem BatchInv.exec_eq_removeChannel_iff (h : w.BatchInv) (hsockets : w.SocketInv)
    {l : ConnectorStep} (he : connectorMachine.enabled w l) :
    connectorMachine.exec w l = .error .removeChannel ↔ w.StopsBatched l := by
  cases l with
  | stop inLoop => exact hsockets.stop_eq_removeChannel_iff inLoop
  | start inLoop savedErrno =>
    refine iff_of_false ?_ id
    cases inLoop with
    | true => exact startInLoop_ne_removeChannel savedErrno
    | false => exact fun hx => by cases hx
  | restart savedErrno | timer i savedErrno =>
    exact iff_of_false (startInLoop_ne_removeChannel savedErrno) id
  | runFunctor savedErrno =>
    refine iff_of_false ?_ id
    simp only [connectorMachine]
    split
    · exact fun hx => by cases hx
    · next f functors hfunctors =>
      exact runFunctor_ne_removeChannel (w := { w with functors := functors }) he.1 savedErrno f
  | runTask err isSelfConnect =>
    refine iff_of_false ?_ id
    simp only [connectorMachine]
    split
    · exact fun hx => by cases hx
    · next task tasks htasks =>
      exact h.runTask_ne_removeChannel hsockets htasks err isSelfConnect
  | poll | handle | endBatch => exact iff_of_false (fun hx => by cases hx) id

/-- What every run keeps of the sockets and of the batch. -/
theorem inv_of_run {ls : List ConnectorStep} (hrun : connectorMachine.Run .new ls w) :
    w.SocketInv ∧ w.BatchInv := by
  refine @Machine.Run.invariant _ _ _ _ (fun w => w.SocketInv ∧ w.BatchInv) _ _ _ hrun ?_ ?_
  · exact ⟨.new, .new⟩
  · rintro v l u ⟨hsockets, hbatch⟩ he hx
    exact ⟨hsockets.step he hx, hbatch.step hsockets he hx⟩

end ConnectorWorld

/-- In every run, a step fails at the assertion of `EventLoop::removeChannel` if and only if the
handler of another channel calls `stop` while the channel of the attempt in flight is in the
batch. The channels of the connector that the loop has yet to handle are registered. -/
theorem stop_in_batch_iff {ls : List ConnectorStep} {t : ConnectorWorld}
    (hrun : connectorMachine.Run .new ls t) :
    (∀ l, connectorMachine.enabled t l →
      (connectorMachine.exec t l = .error .removeChannel ↔ t.StopsBatched l)) ∧
    ∀ sockfd, some sockfd ∈ t.batch.rest → sockfd ∈ t.inFlight := by
  obtain ⟨hsockets, hbatch⟩ := ConnectorWorld.inv_of_run hrun
  exact ⟨fun l he => hbatch.exec_eq_removeChannel_iff hsockets he,
    fun sockfd hrest => (hbatch.waiting sockfd hrest).1⟩

/-- The socket is writable and another channel is handled first. -/
theorem stop_in_batch_other : ∃ t,
    connectorMachine.Run .new
      [.start true .EINPROGRESS, .poll [none, some 0], .handle false false, .stop false] t ∧
    ¬t.StopsBatched (.stop false) ∧
    connectorMachine.exec t (.stop false) ≠ .error .removeChannel ∧
    some 0 ∈ t.batch.rest ∧ 0 ∈ t.inFlight := by
  have hrun : connectorMachine.Run .new
      [.start true .EINPROGRESS, .poll [none, some 0], .handle false false, .stop false] _ :=
    .of_play rfl
  obtain ⟨hfails, hrest⟩ := stop_in_batch_iff hrun
  have hother := (hfails (.stop false) (by decide)).not.mpr (by rintro ⟨⟨⟩, -⟩)
  exact ⟨_, hrun, by rintro ⟨⟨⟩, -⟩, hother, by decide, hrest 0 (by decide)⟩

/-- A timer stops the connector in the batch in which its socket becomes writable. -/
theorem stop_in_batch_fails : ∃ t,
    connectorMachine.Run .new
      [.start true .EINPROGRESS, .poll [none, some 0], .handle false false] t ∧
    connectorMachine.enabled t (.stop true) ∧
    connectorMachine.exec t (.stop true) = .error .removeChannel :=
  ⟨_, .of_play rfl, by decide, rfl⟩

end Tmuduo
