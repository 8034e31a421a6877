import Tmuduo.ConnectorBatch

/-!
# Starting a connector again

An attempt leaves things behind : a retry timer that `stop` does not cancel, a `startInLoop` in the
queue, a channel that waits for `resetChannel`, and `kConnected` for a socket that was closed
because of a `stop`. Each makes an assertion fail when a later `start` meets it
(`start_after_stop_fails`).

`NothingLeft` : a `start` finds no attempt under way (`Idle`), and what may make a new channel finds
no `resetChannel` in the queue. `connector_asserts_hold` : where every step of a run meets it, the
assertions of `Connector.cc` hold, and at most one attempt is in flight.
-/

set_option autoImplicit false

namespace Tmuduo

namespace ConnectorWorld

variable {w u : ConnectorWorld} {ch : Channel}

/-- No attempt is under way : none is in flight, queued or waits for a timer, and none came through,
to a connection or to a socket that `handleWrite` closed because of a `stop`. -/
structure Idle (w : ConnectorWorld) : Prop where
  inFlight : w.inFlight = []
  connected : w.state ≠ .kConnected
  timers : w.timers = []
  queued : .startInLoop ∉ w.functors

instance (w : ConnectorWorld) : Decidable w.Idle :=
  decidable_of_iff (w.inFlight = [] ∧ w.state ≠ .kConnected ∧ w.timers = [] ∧
      .startInLoop ∉ w.functors)
    ⟨fun h => ⟨h.1, h.2.1, h.2.2.1, h.2.2.2⟩,
      fun h => ⟨h.inFlight, h.connected, h.timers, h.queued⟩⟩

/-- A `start` finds no attempt under way, and no call that may make a new channel finds a
`resetChannel` in the queue. -/
def NothingLeft (w : ConnectorWorld) : ConnectorStep → Prop
  | .start inLoop savedErrno => w.Idle ∧
      (inLoop = true → savedErrno.inProgress = true → .resetChannel ∉ w.functors)
  | .restart savedErrno => savedErrno.inProgress = true → .resetChannel ∉ w.functors
  | .timer _ savedErrno =>
      w.connect_ = true → savedErrno.inProgress = true → .resetChannel ∉ w.functors
  | _ => True

instance (w : ConnectorWorld) : ∀ l, Decidable (w.NothingLeft l)
  | .start inLoop savedErrno => inferInstanceAs (Decidable (w.Idle ∧
      (inLoop = true → savedErrno.inProgress = true → .resetChannel ∉ w.functors)))
  | .restart savedErrno =>
    inferInstanceAs (Decidable (savedErrno.inProgress = true → .resetChannel ∉ w.functors))
  | .timer _ savedErrno => inferInstanceAs (Decidable
      (w.connect_ = true → savedErrno.inProgress = true → .resetChannel ∉ w.functors))
  | .stop _ | .runFunctor _ | .poll _ | .handle _ _ | .runTask _ _ | .endBatch =>
    inferInstanceAs (Decidable True)

theorem SocketInv.state_of_idle (h : w.SocketInv) (hidle : w.Idle) :
    w.state = .kDisconnected := by
  cases hstate : w.state with
  | kDisconnected => rfl
  | kConnecting => exact absurd hidle.inFlight (h.attempt.mp hstate)
  | kConnected => exact absurd hstate hidle.connected

/-- Without an attempt in flight, only a `resetChannel` in the queue leaves a channel. -/
theorem SocketInv.channel_eq_none (h : w.SocketInv) (hstate : w.state ≠ .kConnecting)
    (hresets : .resetChannel ∉ w.functors) : w.channel = none := by
  have hunregistered := h.resets
  rw [List.count_eq_zero.mpr hresets] at hunregistered
  exact channel_eq_none_iff.mpr ⟨h.inFlight_eq_nil hstate, hunregistered.symm⟩

/-! ## One attempt at a time -/

/-- The attempts, connections and calls of `startInLoop` that are under way. -/
def pending (w : ConnectorWorld) : ℕ :=
  (if w.state = .kDisconnected then 0 else 1) + w.timers.length + w.functors.count .startInLoop

/-- A `resetChannel` comes before a `startInLoop`. -/
def ResetsFirst (functors : List ConnectorFunctor) : Prop :=
  functors.Pairwise fun f g => f = .startInLoop → g ≠ .resetChannel

theorem ResetsFirst.snoc {functors : List ConnectorFunctor} (h : ResetsFirst functors)
    {f : ConnectorFunctor} (hf : f = .resetChannel → .startInLoop ∉ functors) :
    ResetsFirst (functors ++ [f]) := by
  refine List.pairwise_append.mpr ⟨h, List.pairwise_singleton _ _, ?_⟩
  rintro _ hstart g hg rfl rfl
  exact hf (List.mem_singleton.mp hg).symm hstart

/-- At most one attempt is under way, and a `startInLoop` in the queue comes after the
`resetChannel` of the attempt before. -/
structure AttemptInv (w : ConnectorWorld) : Prop where
  single : w.pending ≤ 1
  order : ResetsFirst w.functors

theorem pending_eq_zero_iff : w.pending = 0 ↔
    w.state = .kDisconnected ∧ w.timers = [] ∧ .startInLoop ∉ w.functors := by
  unfold pending
  rw [← List.count_eq_zero, ← List.length_eq_zero_iff]
  split_ifs with hstate
  · simp only [hstate, true_and]
    omega
  · simp only [hstate, false_and, iff_false]
    omega

theorem pending_le_one (htimers : w.timers = []) (hqueued : .startInLoop ∉ w.functors) :
    w.pending ≤ 1 := by
  rw [pending, htimers, List.count_eq_zero.mpr hqueued]
  split_ifs
  · exact Nat.zero_le 1
  · exact Nat.le_refl 1

/-- `retry` leaves a timer at most. -/
theorem pending_retry_le_one (htimers : w.timers = []) (hqueued : .startInLoop ∉ w.functors)
    (sockfd : ℤ) : (w.retry sockfd).pending ≤ 1 := by
  rw [retry_eq, pending, if_pos rfl, List.count_eq_zero.mpr hqueued]
  simp only [htimers, List.nil_append]
  split_ifs
  · exact Nat.le_refl 1
  · exact Nat.zero_le 1

namespace AttemptInv

theorem new : AttemptInv .new :=
  ⟨by decide, .nil⟩

theorem frame (h : w.AttemptInv) (hstate : u.state = w.state) (htimers : u.timers = w.timers)
    (hcount : u.functors.count .startInLoop = w.functors.count .startInLoop)
    (horder : ResetsFirst u.functors) :
    u.AttemptInv := by
  refine ⟨?_, horder⟩
  rw [pending, hstate, htimers, hcount]
  exact h.single

/-- While one is under way there is no other. -/
theorem of_state (h : w.AttemptInv) (hstate : w.state ≠ .kDisconnected) :
    w.timers = [] ∧ .startInLoop ∉ w.functors := by
  have hsingle := h.single
  rw [pending, if_neg hstate] at hsingle
  rw [← List.count_eq_zero, ← List.length_eq_zero_iff]
  omega

theorem begun (hnone : w.pending = 0) (horder : ResetsFirst w.functors) (hu : w.Begun u) :
    u.AttemptInv := by
  obtain ⟨hstate, htimers, hqueued⟩ := pending_eq_zero_iff.mp hnone
  cases hu with
  | connecting | closed => exact ⟨pending_le_one htimers hqueued, horder⟩
  | retry =>
    refine ⟨pending_retry_le_one (w := w.createNonblockingOrDie) htimers hqueued _, ?_⟩
    rw [retry_eq]
    exact horder

theorem startInLoop (hnone : w.pending = 0) (horder : ResetsFirst w.functors)
    {savedErrno : ConnectErrno} (hu : w.startInLoop savedErrno = .ok u) : u.AttemptInv := by
  obtain ⟨-, rfl | hbegun⟩ := startInLoop_cases hu
  · exact ⟨by omega, horder⟩
  · exact begun hnone horder hbegun

/-- No `startInLoop` is in the queue when an attempt ends, so `resetChannel` follows none. -/
theorem ended (h : w.AttemptInv) (hstate : w.state = .kConnecting) (hu : w.Ended ch u) :
    u.AttemptInv := by
  obtain ⟨htimers, hqueued⟩ := h.of_state (by rw [hstate]; decide)
  have horder : ResetsFirst (w.functors ++ [.resetChannel]) := h.order.snoc fun _ => hqueued
  have hout : .startInLoop ∉ w.functors ++ [.resetChannel] := by simp [hqueued]
  cases hu with
  | retry =>
    refine ⟨pending_retry_le_one (w := w.withdraw ch) htimers hout _, ?_⟩
    rw [retry_eq]
    exact horder
  | delivered =>
    exact ⟨pending_le_one (w := ((w.withdraw ch).setState .kConnected).newConnectionCallback ch.fd)
      htimers hout, horder⟩
  | closed =>
    exact ⟨pending_le_one (w := ((w.withdraw ch).setState .kConnected).close ch.fd) htimers hout,
      horder⟩

theorem stopInLoop (h : w.AttemptInv) (hu : w.stopInLoop = .ok u) : u.AttemptInv := by
  obtain ⟨-, rfl⟩ | ⟨hstate, ch, -, -, rfl⟩ := stopInLoop_cases hu
  · exact h
  · exact h.ended hstate .retry

theorem start (h : w.AttemptInv) (hsockets : w.SocketInv) {inLoop : Bool}
    {savedErrno : ConnectErrno} (hidle : w.Idle) (hu : w.start inLoop savedErrno = .ok u) :
    u.AttemptInv := by
  have hstate := hsockets.state_of_idle hidle
  obtain ⟨-, -, htimers, hqueued⟩ := hidle
  unfold ConnectorWorld.start at hu
  simp only at hu
  split_ifs at hu
  · have hnone : pending { w with connect_ := true } = 0 :=
      pending_eq_zero_iff.mpr ⟨hstate, htimers, hqueued⟩
    exact startInLoop hnone h.order hu
  · obtain rfl := Except.ok.inj hu
    refine ⟨?_, h.order.snoc nofun⟩
    change (if w.state = .kDisconnected then 0 else 1) + w.timers.length +
      (w.functors ++ [ConnectorFunctor.startInLoop]).count .startInLoop ≤ 1
    rw [if_pos hstate, htimers, List.count_append, List.count_eq_zero.mpr hqueued]
    exact Nat.le_refl 1

theorem stop (h : w.AttemptInv) {inLoop : Bool} (hu : w.stop inLoop = .ok u) : u.AttemptInv := by
  unfold ConnectorWorld.stop at hu
  simp only at hu
  split_ifs at hu
  · have hstopped : AttemptInv { w with connect_ := false } := h.frame rfl rfl rfl h.order
    exact hstopped.stopInLoop hu
  · obtain rfl := Except.ok.inj hu
    exact h.frame rfl rfl (by simp [queueInLoop]) (h.order.snoc nofun)

/-- The connection that was delivered is over, and nothing else is under way. -/
theorem restart (h : w.AttemptInv) (hsockets : w.SocketInv)
    (hrestarts : w.restarts < w.delivered.length) {savedErrno : ConnectErrno}
    (hu : w.restart savedErrno = .ok u) : u.AttemptInv := by
  obtain ⟨-, hstate⟩ := hsockets.connected_of_restart hrestarts
  obtain ⟨htimers, hqueued⟩ := h.of_state (by rw [hstate]; decide)
  exact startInLoop (w := { w with
    state := .kDisconnected
    retryDelayMs := Connector.kInitRetryDelayMs
    connect_ := true
    restarts := w.restarts + 1 }) (pending_eq_zero_iff.mpr ⟨rfl, htimers, hqueued⟩) h.order hu

/-- A retry timer is the only thing under way. -/
theorem pending_eraseIdx (h : w.AttemptInv) {i : ℕ} (hi : i < w.timers.length) :
    pending { w with timers := w.timers.eraseIdx i } = 0 := by
  have hsingle := h.single
  have hlength := List.length_eraseIdx_of_lt hi
  unfold pending at hsingle ⊢
  simp only [hlength]
  omega

/-- A `startInLoop` in the queue is the only thing under way. -/
theorem pending_tail (h : w.AttemptInv) {functors : List ConnectorFunctor}
    (hfunctors : w.functors = .startInLoop :: functors) :
    pending { w with functors := functors } = 0 := by
  have hsingle := h.single
  unfold pending at hsingle ⊢
  rw [hfunctors, List.count_cons_self] at hsingle
  simp only
  omega

theorem runFunctor (h : w.AttemptInv) {savedErrno : ConnectErrno} {f : ConnectorFunctor}
    {functors : List ConnectorFunctor} (hfunctors : w.functors = f :: functors)
    (hu : ConnectorWorld.runFunctor { w with functors := functors } savedErrno f = .ok u) :
    u.AttemptInv := by
  have horder := h.order
  rw [hfunctors] at horder
  have hcount : f ≠ .startInLoop →
      functors.count .startInLoop = w.functors.count .startInLoop := fun hne => by
    rw [hfunctors, List.count_cons_of_ne hne]
  cases f with
  | startInLoop => exact startInLoop (h.pending_tail hfunctors) horder.of_cons hu
  | stopInLoop =>
    have hrest : AttemptInv { w with functors := functors } :=
      h.frame rfl rfl (hcount (by decide)) horder.of_cons
    exact hrest.stopInLoop hu
  | resetChannel =>
    obtain rfl := Except.ok.inj hu
    exact h.frame rfl rfl (hcount (by decide)) horder.of_cons

theorem runTask (h : w.AttemptInv) {err isSelfConnect : Bool} {task : ConnectorTask}
    (hu : w.runTask err isSelfConnect task = .ok u) : u.AttemptInv := by
  cases task with
  | handleError =>
    obtain ⟨hstate, ch, -, -, rfl⟩ := handleError_cases hu
    exact h.ended hstate .retry
  | handleWrite =>
    obtain ⟨-, rfl⟩ | ⟨hstate, ch, -, -, hended⟩ := handleWrite_cases hu
    · exact h
    · exact h.ended hstate hended

/-- The attempts do not read the batch. -/
theorem of_batch (h : w.AttemptInv) (batch : LoopBatch) : AttemptInv { w with batch := batch } :=
  h.frame rfl rfl rfl h.order

theorem step {l : ConnectorStep} (h : w.AttemptInv) (hsockets : w.SocketInv)
    (he : connectorMachine.enabled w l) (hl : w.NothingLeft l)
    (hx : connectorMachine.exec w l = .ok u) : u.AttemptInv := by
  cases l with
  | start inLoop savedErrno => exact h.start hsockets hl.1 hx
  | stop inLoop => exact h.stop hx
  | restart savedErrno => exact h.restart hsockets he.2 hx
  | timer i savedErrno => exact startInLoop (h.pending_eraseIdx he.2.2) h.order hx
  | runFunctor savedErrno =>
    simp only [connectorMachine] at hx
    split at hx
    · obtain rfl := Except.ok.inj hx
      exact h
    · next f functors hfunctors => exact h.runFunctor hfunctors hx
  | runTask err isSelfConnect =>
    simp only [connectorMachine] at hx
    split at hx
    · obtain rfl := Except.ok.inj hx
      exact h
    · exact (h.of_batch _).runTask hx
  | poll | handle | endBatch =>
    obtain rfl := Except.ok.inj hx
    exact h.of_batch _

end AttemptInv

/-! ## The assertions of the connector -/

variable {a : ConnectorFault}

/-- While an attempt is in flight there is a channel to remove. -/
theorem SocketInv.removeAndResetChannel_error (h : w.SocketInv) (hstate : w.state = .kConnecting)
    (hremove : w.removeAndResetChannel = .error a) : a = .removeChannel := by
  obtain ⟨ch, hch, -⟩ := exists_channel_of_inFlight (h.attempt.mp hstate)
  obtain ⟨hnone, -⟩ | ⟨_, -, -, ha⟩ := removeAndResetChannel_eq_error_iff.mp hremove
  · exact absurd (hnone.symm.trans hch) nofun
  · exact ha

theorem SocketInv.stopInLoop_error (h : w.SocketInv) (hstop : w.stopInLoop = .error a) :
    a = .removeChannel := by
  obtain ⟨hstate, hremove⟩ := stopInLoop_eq_error_iff.mp hstop
  exact h.removeAndResetChannel_error hstate hremove

/-- The handlers of one dispatch find the attempt in flight, or one that the error ended. -/
theorem BatchInv.runTask_error (h : w.BatchInv) (hsockets : w.SocketInv) {task : ConnectorTask}
    {tasks : List ConnectorTask} (htasks : w.batch.tasks = task :: tasks) {err isSelfConnect : Bool}
    (hrun : ConnectorWorld.runTask { w with batch := { w.batch with tasks := tasks } } err
      isSelfConnect task = .error a) : a = .removeChannel := by
  have hrest := hsockets.of_batch { w.batch with tasks := tasks }
  cases task with
  | handleError =>
    obtain ⟨hstate, -⟩ | ⟨hstate, hremove⟩ := handleError_error hrun
    · refine absurd (hsockets.attempt.mpr (h.errors ?_)) hstate
      rw [htasks]
      exact List.mem_cons_self
    · exact hrest.removeAndResetChannel_error hstate hremove
  | handleWrite =>
    obtain ⟨hstate, -⟩ | ⟨hstate, hremove⟩ := handleWrite_error hrun
    · refine absurd hstate (h.writing ?_)
      rw [htasks]
      exact List.cons_ne_nil _ _
    · exact hrest.removeAndResetChannel_error hstate hremove

/-- A `startInLoop` of the queue comes after the `resetChannel` of the attempt before. -/
theorem AttemptInv.channel_of_startInLoop (h : w.AttemptInv) (hsockets : w.SocketInv)
    {functors : List ConnectorFunctor} (hfunctors : w.functors = .startInLoop :: functors) :
    w.channel = none := by
  obtain ⟨hstate, -⟩ := pending_eq_zero_iff.mp (h.pending_tail hfunctors)
  have horder := h.order
  rw [hfunctors] at horder
  refine hsockets.channel_eq_none (by rw [hstate]; decide) ?_
  rw [hfunctors, List.mem_cons, not_or]
  exact ⟨by decide, fun hmem => List.rel_of_pairwise_cons horder hmem rfl rfl⟩

theorem AttemptInv.runFunctor_error (h : w.AttemptInv) (hsockets : w.SocketInv)
    {savedErrno : ConnectErrno} {f : ConnectorFunctor} {functors : List ConnectorFunctor}
    (hfunctors : w.functors = f :: functors)
    (hrun : ConnectorWorld.runFunctor { w with functors := functors } savedErrno f = .error a) :
    a = .removeChannel := by
  cases f with
  | startInLoop =>
    obtain ⟨hstate, -⟩ := pending_eq_zero_iff.mp (h.pending_tail hfunctors)
    obtain ⟨hnot, -⟩ | ⟨-, -, hnot, -⟩ := startInLoop_error hrun
    · exact absurd hstate hnot
    · exact absurd (h.channel_of_startInLoop hsockets hfunctors) hnot
  | stopInLoop =>
    have hcount : functors.count .resetChannel = w.functors.count .resetChannel := by
      rw [hfunctors, List.count_cons_of_ne (by decide)]
    have hrest : SocketInv { w with functors := functors } :=
      hsockets.frame rfl rfl hcount rfl rfl rfl rfl
    exact hrest.stopInLoop_error hrun
  | resetChannel => cases hrun

theorem AttemptInv.exec_error (h : w.AttemptInv) (hsockets : w.SocketInv) (hbatch : w.BatchInv)
    {l : ConnectorStep} (he : connectorMachine.enabled w l) (hl : w.NothingLeft l)
    (hx : connectorMachine.exec w l = .error a) : a = .removeChannel := by
  cases l with
  | start inLoop savedErrno =>
    obtain ⟨hidle, hresets⟩ := hl
    have hstate := hsockets.state_of_idle hidle
    cases inLoop with
    | false => cases hx
    | true =>
      obtain ⟨hnot, -⟩ | ⟨-, hprogress, hnot, -⟩ := startInLoop_error hx
      · exact absurd hstate hnot
      · refine absurd (hsockets.channel_eq_none ?_ (hresets rfl hprogress)) hnot
        rw [hstate]
        decide
  | stop inLoop =>
    cases inLoop with
    | false => cases hx
    | true =>
      have hstopped : SocketInv { w with connect_ := false } :=
        hsockets.frame rfl rfl rfl rfl rfl rfl rfl
      exact hstopped.stopInLoop_error hx
  | restart savedErrno =>
    obtain ⟨-, hstate⟩ := hsockets.connected_of_restart he.2
    obtain ⟨hnot, -⟩ | ⟨-, hprogress, hnot, -⟩ := startInLoop_error hx
    · exact absurd rfl hnot
    · refine absurd (hsockets.channel_eq_none ?_ (hl hprogress)) hnot
      rw [hstate]
      decide
  | timer i savedErrno =>
    obtain ⟨hstate, -⟩ := pending_eq_zero_iff.mp (h.pending_eraseIdx he.2.2)
    obtain ⟨hnot, -⟩ | ⟨hconnect, hprogress, hnot, -⟩ := startInLoop_error hx
    · exact absurd hstate hnot
    · refine absurd (hsockets.channel_eq_none ?_ (hl hconnect hprogress)) hnot
      rw [show w.state = .kDisconnected from hstate]
      decide
  | runFunctor savedErrno =>
    simp only [connectorMachine] at hx
    split at hx
    · cases hx
    · next f functors hfunctors => exact h.runFunctor_error hsockets hfunctors hx
  | runTask err isSelfConnect =>
    simp only [connectorMachine] at hx
    split at hx
    · cases hx
    · next task tasks htasks => exact hbatch.runTask_error hsockets htasks hx
  | poll | handle | endBatch => cases hx

/-- A descriptor that is open and was not handed over. -/
def Open (w : ConnectorWorld) (sockfd : ℤ) : Prop :=
  0 ≤ sockfd ∧ sockfd < w.obtained ∧ sockfd ∉ w.closed ∧ sockfd ∉ w.delivered

theorem SocketInv.eq_of_open (h : w.SocketInv) {m n : ℤ} (hm : w.Open m) (hn : w.Open n) :
    m = n := by
  have hflight : ∀ k, w.Open k → k ∈ w.inFlight := by
    rintro k ⟨hle, hlt, hclosed, hdelivered⟩
    have honce := h.once k
    rw [if_pos ⟨hle, hlt⟩, List.count_eq_zero.mpr hclosed, List.count_eq_zero.mpr hdelivered]
      at honce
    exact List.count_pos_iff.mp (by omega)
  exact eq_of_mem_inFlight (hflight m hm) (hflight n hn)

/-- The user calls `start` and `stop` in turns. -/
def alternates (started : Bool) : List ConnectorStep → Bool
  | [] => true
  | .start _ _ :: ls => !started && alternates true ls
  | .stop _ :: ls => started && alternates false ls
  | _ :: ls => alternates started ls

/-- After the calls `ls` the call `l` fails with `a`. The user called `start` and `stop` in
turns. -/
def FailsInTurns (ls : List ConnectorStep) (l : ConnectorStep) (a : ConnectorFault) : Prop :=
  alternates false (ls ++ [l]) = true ∧ ∃ t, connectorMachine.Run .new ls t ∧
    connectorMachine.enabled t l ∧ connectorMachine.exec t l = .error a

/-- What every run keeps whose steps find nothing left. -/
theorem inv_of_restrict {ls : List ConnectorStep}
    (hrun : (connectorMachine.restrict NothingLeft).Run .new ls w) :
    w.SocketInv ∧ w.BatchInv ∧ w.AttemptInv := by
  refine @Machine.Run.invariant _ _ _ _ (fun w => w.SocketInv ∧ w.BatchInv ∧ w.AttemptInv) _ _ _
    hrun ?_ ?_
  · exact ⟨.new, .new, .new⟩
  · rintro v l u ⟨hsockets, hbatch, hattempt⟩ ⟨he, hl⟩ hx
    exact ⟨hsockets.step he hx, hbatch.step hsockets he hx, hattempt.step hsockets he hl hx⟩

end ConnectorWorld

/-- In every run of starts and stops that find nothing left of an earlier attempt, no assertion of
`Connector.cc` fails, and at most one attempt is in flight. -/
theorem connector_asserts_hold {ls : List ConnectorStep} {t : ConnectorWorld}
    (hrun : (connectorMachine.restrict ConnectorWorld.NothingLeft).Run .new ls t) :
    (∀ l a, connectorMachine.enabled t l → t.NothingLeft l →
      connectorMachine.exec t l = .error a → a = .removeChannel) ∧
    ∀ m n, t.Open m → t.Open n → m = n := by
  obtain ⟨hsockets, hbatch, hattempt⟩ := ConnectorWorld.inv_of_restrict hrun
  exact ⟨fun l a he hl hx => hattempt.exec_error hsockets hbatch he hl hx,
    fun m n hm hn => hsockets.eq_of_open hm hn⟩

/-- A connector that is stopped after a retry, and started again after `resetChannel`. -/
theorem connector_asserts_hold_again : ∃ t,
    (connectorMachine.restrict ConnectorWorld.NothingLeft).Run .new
      [.start true .ECONNREFUSED, .poll [none], .handle false false, .timer 0 .EINPROGRESS,
        .stop true, .endBatch, .runFunctor .other, .start true .EINPROGRESS, .poll [some 2],
        .handle true true] t ∧
    (∀ a, connectorMachine.exec t (.runTask true false) = .error a → a = .removeChannel) ∧
    t.Open 2 ∧ ∀ n, t.Open n → n = 2 := by
  have hrun : (connectorMachine.restrict ConnectorWorld.NothingLeft).Run .new
      [.start true .ECONNREFUSED, .poll [none], .handle false false, .timer 0 .EINPROGRESS,
        .stop true, .endBatch, .runFunctor .other, .start true .EINPROGRESS, .poll [some 2],
        .handle true true] _ := .of_play rfl
  obtain ⟨hasserts, hone⟩ := connector_asserts_hold hrun
  refine ⟨_, hrun, fun a hx => hasserts (.runTask true false) a (by decide) trivial hx, ?_,
    fun n hn => hone n 2 hn ?_⟩
  all_goals exact ⟨by decide, by decide, by decide, by decide⟩

/-- `start`, `stop`, `start` : a retry timer of before the `stop` fires while the new attempt is in
flight; the channel of the first attempt is not reset yet; the first attempt came through after the
`stop`, which leaves `kConnected`. -/
theorem start_after_stop_fails :
    ConnectorWorld.FailsInTurns
      [.start true .ECONNREFUSED, .stop true, .start true .EINPROGRESS, .poll [none],
        .handle false false]
      (.timer 0 .EINPROGRESS) .startInLoop ∧
    ConnectorWorld.FailsInTurns [.start true .EINPROGRESS, .stop true]
      (.start true .EINPROGRESS) .connecting ∧
    ConnectorWorld.FailsInTurns
      [.start true .EINPROGRESS, .poll [some 0], .stop false, .handle false true,
        .runTask false false, .endBatch, .runFunctor .other, .runFunctor .other]
      (.start true .EINPROGRESS) .startInLoop := by
  refine ⟨⟨by decide, _, .of_play rfl, ?_, rfl⟩, ⟨by decide, _, .of_play rfl, ?_, rfl⟩,
    ⟨by decide, _, .of_play rfl, ?_, rfl⟩⟩
  all_goals decide

end Tmuduo
