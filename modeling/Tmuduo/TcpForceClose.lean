import Tmuduo.TcpState

/-!
# What forceClose leads to

`forceClose` and, when its timer expires, `forceCloseWithDelay` queue `shutdownInLoop`. The
function that closes the connection, `forceCloseInLoop`, is not called : `forceCloseInLoop_closed`
says what it would do.

`forceClose_closes_iff` : a connection that is up is not closed by `forceClose` and the functor it
queued, whatever its output buffer and its channel are; a connection that is connecting or
disconnected is left as it is. `run_open` : no run of the user's calls, functors and timers
closes a connection.
-/

set_option autoImplicit false

namespace Tmuduo

namespace TcpWorld

variable {c u : TcpWorld}

/-- The connection is connected or disconnecting. -/
def Up (c : TcpWorld) : Prop := c.state = .kConnected ∨ c.state = .kDisconnecting

instance : Decidable c.Up := inferInstanceAs (Decidable (_ ∨ _))

/-- `after` is the connection `before`, closed, with one more call of the close callback. -/
structure Closed (before after : TcpWorld) : Prop where
  state : after.state = .kDisconnected
  interest : after.channel.isNoneEvent = true
  callback : after.callbacks.count .close = before.callbacks.count .close + 1

variable (c) in
def forceCloseInLoop : Except TcpAssert TcpWorld :=
  if c.state = .kConnected ∨ c.state = .kDisconnecting then c.handleClose else return c

theorem handleClose_closed (h : c.handleClose = .ok u) : c.Closed u := by
  obtain ⟨-, hu⟩ := check_bind_eq_ok_iff.mp h
  obtain rfl := Except.ok.inj hu
  refine ⟨rfl, rfl, ?_⟩
  rw [List.count_append]
  rfl

/-- The function that `forceClose` does not queue closes a connection that is up. -/
theorem forceCloseInLoop_closed (hup : c.Up) : ∃ u, c.forceCloseInLoop = .ok u ∧ c.Closed u := by
  obtain ⟨u, hclose⟩ : ∃ u, c.handleClose = .ok u := ⟨_, check_bind_eq_ok_iff.mpr ⟨hup, rfl⟩⟩
  exact ⟨u, (if_pos hup).trans hclose, handleClose_closed hclose⟩

/-! ## The call and the functor it queued -/

theorem forceClose_of_up (hup : c.Up) :
    c.forceClose =
      ({ c with state := .kDisconnecting }).queueIf true (.shutdownInLoop .forceClose) :=
  if_pos hup

theorem length_forceClose (hup : c.Up) :
    c.pendingFunctors.length < c.forceClose.pendingFunctors.length := by
  rw [forceClose_of_up hup]
  simp [queueIf]

theorem runFunctor_queueIf (caller : Caller) :
    (c.queueIf true (.shutdownInLoop caller)).runFunctor c.pendingFunctors.length =
      c.shutdownInLoop := by
  have hfunctor : (c.pendingFunctors ++ [.shutdownInLoop caller])[c.pendingFunctors.length]? =
      some (TcpFunctor.shutdownInLoop caller) := List.getElem?_concat_length
  have herase : (c.pendingFunctors ++ [TcpFunctor.shutdownInLoop caller]).eraseIdx
      c.pendingFunctors.length = c.pendingFunctors := by
    simp [List.eraseIdx_append_of_length_le]
  simp only [queueIf, if_true, runFunctor, hfunctor, herase]

/-- The functor of a `forceClose` on a connection that is up shuts the writing side down, or does
nothing. -/
theorem runFunctor_forceClose (hup : c.Up) :
    c.forceClose.runFunctor c.pendingFunctors.length =
      ({ c with state := .kDisconnecting }).shutdownInLoop := by
  rw [forceClose_of_up hup]
  exact runFunctor_queueIf _

theorem forceClose_eq_self (hup : ¬c.Up) : c.forceClose = c :=
  if_neg hup

end TcpWorld

namespace TcpTimed

variable (s : TcpTimed)

theorem forceCloseWithDelay_eq_self (hup : ¬s.world.Up) (delta : ℤ) :
    s.forceCloseWithDelay delta = s :=
  if_neg hup

/-- `call` and what follows from it close a connection that is up, and `call` does not change one
that is not. -/
structure ClosedBy (call : TcpCall) (rest : List TcpCall) : Prop where
  closed : s.world.Up → ∃ t, tcpCalls.Run s (call :: rest) t ∧ s.world.Closed t.world
  unchanged : ¬s.world.Up → tcpCalls.exec s call = .ok s

/-- `forceClose()`, then the functor it queued. -/
def ForceCloses : Prop :=
  s.ClosedBy .forceClose [.runFunctor s.world.pendingFunctors.length]

/-- `forceCloseWithDelay(delta)`, then its timer, then the functor the timer queued. -/
def ForceClosesWithDelay (delta : ℤ) : Prop :=
  s.ClosedBy (.forceCloseWithDelay delta)
    [.delayedForceClose s.delayed.length, .runFunctor s.world.pendingFunctors.length]

/-- The connection after the functor : it is disconnecting. -/
def afterFunctor : TcpTimed :=
  { s with world := ({ s.world with state := .kDisconnecting }).shutdownInLoop }

variable {s}

theorem run_forceClose (hup : s.world.Up) : tcpCalls.Run s
    [.forceClose, .runFunctor s.world.pendingFunctors.length] s.afterFunctor := by
  have hcall : tcpCalls.Run s [.forceClose] { s with world := s.world.forceClose } :=
    .snoc .nil trivial rfl
  refine hcall.snoc (TcpWorld.length_forceClose hup) ?_
  exact congrArg (fun c => Except.ok { s with world := c }) (TcpWorld.runFunctor_forceClose hup)

/-- A delay changes nothing in what the functor does : the timer finds the connection
disconnecting. -/
theorem run_forceCloseWithDelay (hup : s.world.Up) (delta : ℤ) : tcpCalls.Run s
    [.forceCloseWithDelay delta, .delayedForceClose s.delayed.length,
      .runFunctor s.world.pendingFunctors.length] s.afterFunctor := by
  set c : TcpWorld := { s.world with state := .kDisconnecting }
  have hcup : c.Up := .inr rfl
  have hcall : tcpCalls.Run s [.forceCloseWithDelay delta] ⟨c, s.delayed ++ [delta]⟩ :=
    .snoc .nil trivial (congrArg Except.ok (if_pos hup))
  have htimer : tcpCalls.Run s [.forceCloseWithDelay delta, .delayedForceClose s.delayed.length]
      ⟨c.forceClose, s.delayed⟩ := by
    refine hcall.snoc (by simp [tcpCalls]) ?_
    simp [tcpCalls, List.eraseIdx_append_of_length_le]
  refine htimer.snoc (TcpWorld.length_forceClose hcup) ?_
  exact congrArg (fun c => Except.ok { s with world := c }) (TcpWorld.runFunctor_forceClose hcup)

theorem not_closed_afterFunctor : ¬s.world.Closed s.afterFunctor.world := by
  intro h
  have hstate : s.afterFunctor.world.state = .kDisconnecting := TcpWorld.shutdownInLoop_state _
  exact absurd (hstate.symm.trans h.state) (by decide)

theorem up_iff : ¬s.world.Up ↔ s.world.state = .kConnecting ∨ s.world.state = .kDisconnected := by
  unfold TcpWorld.Up
  cases s.world.state <;> decide

/-- Calls that take a connection that is up to `afterFunctor` do not close it. -/
theorem closedBy_iff {call : TcpCall} {rest : List TcpCall}
    (hrun : s.world.Up → tcpCalls.Run s (call :: rest) s.afterFunctor)
    (hself : ¬s.world.Up → tcpCalls.exec s call = .ok s) :
    s.ClosedBy call rest ↔ s.world.state = .kConnecting ∨ s.world.state = .kDisconnected := by
  rw [← up_iff]
  constructor
  · intro h hup
    obtain ⟨t, ht, hclosed⟩ := h.closed hup
    obtain rfl := ht.det (hrun hup)
    exact not_closed_afterFunctor hclosed
  · intro hup
    exact ⟨fun h => absurd h hup, hself⟩

end TcpTimed

/-- `forceClose` and `forceCloseWithDelay` close a connection that is up, and leave any other as it
is, if and only if the connection is connecting or disconnected : one that is up is left
disconnecting. -/
theorem forceClose_closes_iff (s : TcpTimed) :
    (s.ForceCloses ↔ s.world.state = .kConnecting ∨ s.world.state = .kDisconnected) ∧
    ∀ delta, s.ForceClosesWithDelay delta ↔
      s.world.state = .kConnecting ∨ s.world.state = .kDisconnected := by
  refine ⟨TcpTimed.closedBy_iff TcpTimed.run_forceClose fun hup => ?_, fun delta =>
    TcpTimed.closedBy_iff (fun hup => TcpTimed.run_forceCloseWithDelay hup delta) fun hup => ?_⟩
  · exact congrArg (fun c => Except.ok { s with world := c }) (TcpWorld.forceClose_eq_self hup)
  · exact congrArg Except.ok (s.forceCloseWithDelay_eq_self hup delta)

/-- An established connection with nothing to send stays open, and is only shut down for
writing. -/
theorem forceClose_leaves_open :
    (∃ t, tcpCalls.Run (.new 7 false false 64)
      [.connectionEstablished, .forceClose, .runFunctor 0] t ∧
      t.world.state = .kDisconnecting ∧ t.world.channel.isReading = true ∧
      .close ∉ t.world.callbacks ∧ t.world.pendingFunctors = []) ∧
    ∃ s, tcpCalls.Run (.new 7 false false 64) [.connectionEstablished] s ∧ ¬s.ForceCloses := by
  refine ⟨⟨_, .of_play rfl, rfl, by decide, by decide, rfl⟩, _, .of_play rfl, fun h => ?_⟩
  have hup : TcpWorld.Up (TcpRun.established 7 false false 64).world := .inl rfl
  obtain ⟨t, ht, hclosed⟩ := h.closed hup
  obtain rfl := ht.det (TcpTimed.run_forceClose hup)
  exact TcpTimed.not_closed_afterFunctor hclosed

/-! ## Every run of the user's calls -/

/-- The calls of the user, the functors and timers that follow from them, and the sending of
what is buffered. -/
def UserCall : TcpCall → Prop
  | .shutdown _ | .forceClose | .forceCloseWithDelay _ | .delayedForceClose _ | .sendInLoop _ _
  | .handleWrite _ | .runFunctor _ => True
  | .connectionEstablished | .connectionDestroyed | .handleClose | .handleRead _ => False

/-- The connection is open, and no callback has been invoked since `before`. -/
structure StaysOpen (before after : TcpWorld) : Prop where
  state : after.state ≠ .kDisconnected
  callbacks : after.callbacks = before.callbacks

namespace StaysOpen

variable {c u v : TcpWorld}

theorem of_kept (hc : c.state ≠ .kDisconnected) (h : TcpWorld.Kept c u) : StaysOpen c u :=
  ⟨fun hu => hc (h.state.symm.trans hu), h.callbacks⟩

theorem shutdown (inLoop : Bool) : StaysOpen c (c.shutdown inLoop) := by
  refine ⟨by rw [TcpWorld.shutdown_state]; decide, ?_⟩
  unfold TcpWorld.shutdown TcpWorld.afterShutdown
  split_ifs <;> simp

theorem forceClose (hc : c.state ≠ .kDisconnected) : StaysOpen c c.forceClose := by
  by_cases hup : c.Up
  · rw [TcpWorld.forceClose_of_up hup]
    exact ⟨by simp, by simp⟩
  · rw [TcpWorld.forceClose_eq_self hup]
    exact ⟨hc, rfl⟩

theorem forceCloseWithDelay {s : TcpTimed} (hs : s.world.state ≠ .kDisconnected) (delta : ℤ) :
    StaysOpen s.world (s.forceCloseWithDelay delta).world := by
  unfold TcpTimed.forceCloseWithDelay
  simp only
  split_ifs
  · exact ⟨by simp, rfl⟩
  · exact ⟨hs, rfl⟩

theorem step {s u : TcpTimed} {l : TcpCall} (hl : UserCall l)
    (hs : s.world.state ≠ .kDisconnected) (hx : tcpCalls.exec s l = .ok u) :
    StaysOpen s.world u.world := by
  cases l with
  | shutdown inLoop =>
    obtain rfl := Except.ok.inj hx
    exact shutdown inLoop
  | forceClose =>
    obtain rfl := Except.ok.inj hx
    exact forceClose hs
  | forceCloseWithDelay delta =>
    obtain rfl := Except.ok.inj hx
    exact forceCloseWithDelay hs delta
  | delayedForceClose i =>
    obtain rfl := Except.ok.inj hx
    exact forceClose hs
  | sendInLoop message r =>
    obtain ⟨w, hw, rfl⟩ := bind_pure_eq_ok_iff.mp hx
    exact .of_kept hs (TcpWorld.sendInLoop_kept hw).1
  | handleWrite w =>
    obtain rfl := Except.ok.inj hx
    exact .of_kept hs (s.world.handleWrite_kept w).1
  | runFunctor i =>
    obtain rfl := Except.ok.inj hx
    exact .of_kept hs (s.world.runFunctor_kept i).1
  | connectionEstablished | connectionDestroyed | handleClose | handleRead => exact hl.elim

end StaysOpen

/-- Whatever the user calls, and however often, the connection stays open and the close callback
is not invoked : only the peer, or the owner of the connection, closes it. -/
theorem run_open {s t : TcpTimed} {ls : List TcpCall}
    (h : (tcpCalls.restrict fun _ l => UserCall l).Run s ls t)
    (hs : s.world.state ≠ .kDisconnected) : StaysOpen s.world t.world := by
  induction h with
  | nil => exact ⟨hs, rfl⟩
  | snoc _ he hx ih =>
    have hstep := StaysOpen.step he.2 ih.state hx
    exact ⟨hstep.state, hstep.callbacks.trans ih.callbacks⟩

end Tmuduo
