import Tmuduo.TcpLifecycle

/-!
# The order of a connection's states

`tcpCalls` makes the operations of a connection one after the other, each to its end, in any
order and from the constructor on. What user code calls inside a callback comes next in the run :
an operation does not touch `state_` after it has invoked a callback.

`shutdown`, `forceClose` and `forceCloseWithDelay` exchange `state_` for `kDisconnecting` and then
act on what the exchange returned; `shutdown_eq` and `forceClose_eq` say that the first two are
the exchange and the end of `tcpLife`, with nothing between them.

`forward_iff_shutdownApplies` : the operations of a run all move `state_` forward if and only if
every `shutdown()` of the run finds the connection connected or disconnecting. `forceClose` and
`forceCloseWithDelay` put any other state back; `shutdown` does not.
-/

set_option autoImplicit false

namespace Tmuduo

/-- The place of a state in `kConnecting < kConnected < kDisconnecting < kDisconnected`. -/
def StateE.rank : StateE → ℕ
  | kConnecting => 0
  | kConnected => 1
  | kDisconnecting => 2
  | kDisconnected => 3

namespace TcpWorld

variable (c : TcpWorld)

def shutdown (inLoop : Bool) : TcpWorld :=
  ({ c with state := .kDisconnecting }).afterShutdown c.state inLoop

def forceClose : TcpWorld :=
  ({ c with state := .kDisconnecting }).afterForceClose c.state

theorem getElem?_exchange_callers (caller : Caller) :
    (c.exchange caller).callers[c.callers.length]? = some (caller, c.state) :=
  List.getElem?_concat_length

theorem eraseIdx_exchange_callers (caller : Caller) :
    (c.exchange caller).callers.eraseIdx c.callers.length = c.callers := by
  simp [exchange, List.eraseIdx_append_of_length_le]

/-- `shutdown` is its two steps, with nothing between them. -/
theorem shutdown_eq (inLoop : Bool) :
    c.shutdown inLoop = (c.exchange .shutdown).finish c.callers.length inLoop := by
  simp only [finish, getElem?_exchange_callers, eraseIdx_exchange_callers]
  rfl

theorem forceClose_eq (inLoop : Bool) :
    c.forceClose = (c.exchange .forceClose).finish c.callers.length inLoop := by
  simp only [finish, getElem?_exchange_callers, eraseIdx_exchange_callers]
  rfl

end TcpWorld

/-- A connection, and the delays of its timers that have `forceClose` still to call. -/
structure TcpTimed where
  world : TcpWorld
  delayed : List ℤ

/-- The operations of a connection. `delayedForceClose i` is the `i`-th timer expiring, and the
results of `write` and `readFd` are the kernel's. -/
inductive TcpCall
  | shutdown (inLoop : Bool)
  | forceClose
  | forceCloseWithDelay (delta : ℤ)
  | delayedForceClose (i : ℕ)
  | connectionEstablished
  | connectionDestroyed
  | handleClose
  | handleRead (r : ReadResult)
  | handleWrite (w : WriteResult)
  | sendInLoop (message : Bytes) (w : WriteResult)
  | runFunctor (i : ℕ)
  deriving DecidableEq, Repr

namespace TcpTimed

/-- A connection as it is constructed. -/
def new (sockfd : ℤ) (writeComplete highWater : Bool) (mark : ℕ) : TcpTimed where
  world := TcpWorld.new sockfd writeComplete highWater mark
  delayed := []

variable (s : TcpTimed)

/-- `TcpConnection::forceCloseWithDelay`, of a delay of `delta` microseconds. -/
def forceCloseWithDelay (delta : ℤ) : TcpTimed :=
  let old := s.world.state
  let s' := { s with world := { s.world with state := .kDisconnecting } }
  if old = .kConnected ∨ old = .kDisconnecting then { s' with delayed := s'.delayed ++ [delta] }
  else { s' with world := { s'.world with state := old } }

end TcpTimed

/-- The operations in any order. An operation whose assertion fails is not completed. -/
def tcpCalls : Machine TcpTimed TcpCall TcpAssert where
  enabled s
    | .delayedForceClose i => i < s.delayed.length
    | .handleWrite w => w.Valid s.world.outputBuffer.readableBytes
    | .sendInLoop message w => w.Valid message.length
    | .runFunctor i => i < s.world.pendingFunctors.length
    | _ => True
  exec s
    | .shutdown inLoop => .ok { s with world := s.world.shutdown inLoop }
    | .forceClose => .ok { s with world := s.world.forceClose }
    | .forceCloseWithDelay delta => .ok (s.forceCloseWithDelay delta)
    | .delayedForceClose i =>
        .ok { s with world := s.world.forceClose, delayed := s.delayed.eraseIdx i }
    | .connectionEstablished => do
        return { s with world := ← s.world.connectionEstablished }
    | .connectionDestroyed => do
        return { s with world := ← s.world.connectionDestroyed }
    | .handleClose => do
        return { s with world := ← s.world.handleClose }
    | .handleRead r => do
        return { s with world := ← s.world.handleRead r }
    | .handleWrite w => .ok { s with world := s.world.handleWrite w }
    | .sendInLoop message w => do
        return { s with world := ← s.world.sendInLoop message w }
    | .runFunctor i => .ok { s with world := s.world.runFunctor i }

instance (s : TcpTimed) : ∀ l, Decidable (tcpCalls.enabled s l)
  | .delayedForceClose i => inferInstanceAs (Decidable (i < s.delayed.length))
  | .handleWrite (.wrote n) =>
      inferInstanceAs (Decidable (n ≤ s.world.outputBuffer.readableBytes))
  | .handleWrite (.failed _) => isTrue trivial
  | .sendInLoop message (.wrote n) => inferInstanceAs (Decidable (n ≤ message.length))
  | .sendInLoop _ (.failed _) => isTrue trivial
  | .runFunctor i => inferInstanceAs (Decidable (i < s.world.pendingFunctors.length))
  | .shutdown _ | .forceClose | .forceCloseWithDelay _ | .connectionEstablished
  | .connectionDestroyed | .handleClose | .handleRead _ => isTrue trivial

/-! ## One operation -/

/-- The operation `l` takes the state from `before` to `after`, not backwards. A connection that
is connecting is left so by all operations but `connectionEstablished`, and one that is
disconnected by all. -/
structure Forward (l : TcpCall) (before after : StateE) : Prop where
  rank : before.rank ≤ after.rank
  connecting : before = .kConnecting → l ≠ .connectionEstablished → after = .kConnecting
  disconnected : before = .kDisconnected → after = .kDisconnected

/-- A `shutdown()` is called while the connection is connected or disconnecting. -/
def ShutdownApplies (s : TcpTimed) : TcpCall → Prop
  | .shutdown _ => s.world.state = .kConnected ∨ s.world.state = .kDisconnecting
  | _ => True

instance (s : TcpTimed) : ∀ l, Decidable (ShutdownApplies s l)
  | .shutdown _ => inferInstanceAs (Decidable (_ ∨ _))
  | .forceClose | .forceCloseWithDelay _ | .delayedForceClose _ | .connectionEstablished
  | .connectionDestroyed | .handleClose | .handleRead _ | .handleWrite _ | .sendInLoop _ _
  | .runFunctor _ => isTrue trivial

namespace Forward

variable {l : TcpCall} {before after : StateE}

theorem of_eq (h : after = before) : Forward l before after where
  rank := by rw [h]
  connecting hbefore _ := h.trans hbefore
  disconnected hbefore := h.trans hbefore

/-- A connection that is up may be disconnecting or disconnected afterwards. -/
theorem of_up (hup : before = .kConnected ∨ before = .kDisconnecting)
    (hafter : after = .kDisconnecting ∨ after = .kDisconnected) : Forward l before after := by
  rcases hup with rfl | rfl <;> rcases hafter with rfl | rfl <;>
    exact ⟨by decide, by simp, by simp⟩

end Forward

namespace TcpWorld

variable {c u : TcpWorld} {l : TcpCall}

theorem shutdown_state (inLoop : Bool) : (c.shutdown inLoop).state = .kDisconnecting := by
  unfold shutdown afterShutdown
  split_ifs <;> simp

/-- The state after an exchange, where a state in which the connection is not up is put back. -/
def closing (state : StateE) : StateE :=
  if state = .kConnected ∨ state = .kDisconnecting then .kDisconnecting else state

theorem forceClose_state : c.forceClose.state = closing c.state := by
  unfold forceClose afterForceClose closing
  split_ifs <;> simp

theorem forward_closing (state : StateE) : Forward l state (closing state) := by
  by_cases hup : state = .kConnected ∨ state = .kDisconnecting
  · exact .of_up hup (.inl (if_pos hup))
  · exact .of_eq (if_neg hup)

theorem forward_shutdown_iff (inLoop : Bool) :
    Forward (.shutdown inLoop) c.state (c.shutdown inLoop).state ↔
      c.state = .kConnected ∨ c.state = .kDisconnecting := by
  rw [shutdown_state]
  constructor
  · intro h
    by_contra hup
    obtain ⟨hconnected, hdisconnecting⟩ := not_or.mp hup
    by_cases hconnecting : c.state = .kConnecting
    · exact absurd (h.connecting hconnecting (by simp)) (by decide)
    · have hdown := StateE.eq_kDisconnected hconnecting hconnected hdisconnecting
      exact absurd (h.disconnected hdown) (by decide)
  · intro hup
    exact .of_up hup (.inl rfl)

theorem forward_handleClose (h : c.handleClose = .ok u) : Forward l c.state u.state := by
  obtain ⟨hup, hu⟩ := check_bind_eq_ok_iff.mp h
  obtain rfl := Except.ok.inj hu
  exact .of_up hup (.inr rfl)

theorem forward_handleRead {r : ReadResult} (h : c.handleRead r = .ok u) :
    Forward l c.state u.state := by
  cases r with
  | data d =>
    obtain rfl := Except.ok.inj h
    exact .of_eq rfl
  | eof => exact forward_handleClose h
  | failed =>
    obtain rfl := Except.ok.inj h
    exact .of_eq rfl

theorem forward_connectionEstablished (h : c.connectionEstablished = .ok u) :
    Forward .connectionEstablished c.state u.state := by
  obtain ⟨hstate, hu⟩ := check_bind_eq_ok_iff.mp h
  obtain rfl := Except.ok.inj hu
  rw [hstate]
  exact ⟨Nat.zero_le _, fun _ hne => absurd rfl hne, by rintro ⟨⟩⟩

theorem forward_connectionDestroyed (h : c.connectionDestroyed = .ok u) :
    Forward l c.state u.state := by
  by_cases hstate : c.state = .kConnected
  · obtain rfl := Except.ok.inj (h.symm.trans (connectionDestroyed_connected hstate))
    exact .of_up (.inl hstate) (.inr rfl)
  · obtain ⟨-, rfl⟩ := (connectionDestroyed_eq_ok_iff hstate).mp h
    exact .of_eq rfl

end TcpWorld

theorem TcpTimed.forceCloseWithDelay_state (s : TcpTimed) (delta : ℤ) :
    (s.forceCloseWithDelay delta).world.state = TcpWorld.closing s.world.state := by
  unfold forceCloseWithDelay TcpWorld.closing
  simp only
  split_ifs <;> rfl

/-- An operation that is completed moves the state forward, unless it is a `shutdown()` that finds
the connection not up. -/
theorem forward_step_iff {s u : TcpTimed} {l : TcpCall} (hx : tcpCalls.exec s l = .ok u) :
    Forward l s.world.state u.world.state ↔ ShutdownApplies s l := by
  cases l with
  | shutdown inLoop =>
    obtain rfl := Except.ok.inj hx
    exact TcpWorld.forward_shutdown_iff inLoop
  | forceClose =>
    obtain rfl := Except.ok.inj hx
    refine iff_of_true ?_ trivial
    rw [TcpWorld.forceClose_state]
    exact TcpWorld.forward_closing _
  | forceCloseWithDelay delta =>
    obtain rfl := Except.ok.inj hx
    refine iff_of_true ?_ trivial
    rw [TcpTimed.forceCloseWithDelay_state]
    exact TcpWorld.forward_closing _
  | delayedForceClose i =>
    obtain rfl := Except.ok.inj hx
    refine iff_of_true ?_ trivial
    rw [TcpWorld.forceClose_state]
    exact TcpWorld.forward_closing _
  | connectionEstablished =>
    obtain ⟨w, hw, rfl⟩ := bind_pure_eq_ok_iff.mp hx
    exact iff_of_true (TcpWorld.forward_connectionEstablished hw) trivial
  | connectionDestroyed =>
    obtain ⟨w, hw, rfl⟩ := bind_pure_eq_ok_iff.mp hx
    exact iff_of_true (TcpWorld.forward_connectionDestroyed hw) trivial
  | handleClose =>
    obtain ⟨w, hw, rfl⟩ := bind_pure_eq_ok_iff.mp hx
    exact iff_of_true (TcpWorld.forward_handleClose hw) trivial
  | handleRead r =>
    obtain ⟨w, hw, rfl⟩ := bind_pure_eq_ok_iff.mp hx
    exact iff_of_true (TcpWorld.forward_handleRead hw) trivial
  | handleWrite w =>
    obtain rfl := Except.ok.inj hx
    exact iff_of_true (.of_eq (s.world.handleWrite_kept w).1.state) trivial
  | sendInLoop message r =>
    obtain ⟨w, hw, rfl⟩ := bind_pure_eq_ok_iff.mp hx
    exact iff_of_true (.of_eq (TcpWorld.sendInLoop_kept hw).1.state) trivial
  | runFunctor i =>
    obtain rfl := Except.ok.inj hx
    exact iff_of_true (.of_eq (s.world.runFunctor_kept i).1.state) trivial

/-! ## Every run -/

/-- Every operation of the run moves the state forward, and so do any number of them in a row.
`final` : a connection that is disconnected at some point of the run is so from there on. -/
structure ForwardRun (s : TcpTimed) (ls : List TcpCall) (t : TcpTimed) : Prop where
  steps : tcpCalls.AllSteps (fun u l v => Forward l u.world.state v.world.state) s ls
  rank : ∀ pre post u, ls = pre ++ post → tcpCalls.Run s pre u →
    u.world.state.rank ≤ t.world.state.rank
  final : ∀ pre post u, ls = pre ++ post → tcpCalls.Run s pre u →
    u.world.state = .kDisconnected → t.world.state = .kDisconnected

/-- A run whose operations all apply is cut at any point into two such runs. -/
theorem restrict_run_split {s t u : TcpTimed} {pre post : List TcpCall}
    (h : (tcpCalls.restrict ShutdownApplies).Run s (pre ++ post) t) (hu : tcpCalls.Run s pre u) :
    (tcpCalls.restrict ShutdownApplies).Run u post t := by
  obtain ⟨u', hpre, hpost⟩ := Machine.run_append_iff.mp h
  obtain rfl := hu.det hpre.of_restrict
  exact hpost

theorem run_rank_le {s t : TcpTimed} {ls : List TcpCall}
    (h : (tcpCalls.restrict ShutdownApplies).Run s ls t) :
    s.world.state.rank ≤ t.world.state.rank := by
  induction h with
  | nil => exact le_rfl
  | snoc _ he hx ih => exact ih.trans ((forward_step_iff hx).mpr he.2).rank

theorem run_disconnected {s t : TcpTimed} {ls : List TcpCall}
    (h : (tcpCalls.restrict ShutdownApplies).Run s ls t) (hs : s.world.state = .kDisconnected) :
    t.world.state = .kDisconnected := by
  induction h with
  | nil => exact hs
  | snoc _ he hx ih => exact ((forward_step_iff hx).mpr he.2).disconnected ih

/-- The operations of a run from the constructor on, in any order, move `state_` forward, and
leave `kConnecting` and `kDisconnected` as they find them where they do not apply, if and only if
every `shutdown()` of the run finds the connection connected or disconnecting. -/
theorem forward_iff_shutdownApplies {sockfd : ℤ} {writeComplete highWater : Bool} {mark : ℕ}
    {ls : List TcpCall} {t : TcpTimed}
    (hrun : tcpCalls.Run (.new sockfd writeComplete highWater mark) ls t) :
    ForwardRun (.new sockfd writeComplete highWater mark) ls t ↔
      (tcpCalls.restrict ShutdownApplies).Run (.new sockfd writeComplete highWater mark) ls t := by
  have hsteps := @Machine.Run.allSteps_iff _ _ _ _ (fun _ => True)
    (fun u l v => Forward l u.world.state v.world.state) ShutdownApplies _ _ _ hrun trivial
    (fun _ _ _ _ _ _ => trivial) fun _ _ _ _ _ hx => forward_step_iff hx
  constructor
  · intro h
    exact hsteps.mp h.steps
  · intro h
    refine ⟨hsteps.mpr h, fun pre post u hls hu => ?_, fun pre post u hls hu => ?_⟩
    · rw [hls] at h
      exact run_rank_le (restrict_run_split h hu)
    · rw [hls] at h
      exact run_disconnected (restrict_run_split h hu)

/-- A connection that is shut down, closed by force, now and later, and closed by its peer before
the timer expires. -/
theorem forward_iff_shutdownApplies_delayed : ∃ t, tcpCalls.Run (.new 7 false false 64)
      [.forceClose, .connectionEstablished, .shutdown true, .shutdown false, .forceClose,
        .forceCloseWithDelay 1000, .handleClose, .delayedForceClose 0, .connectionDestroyed] t ∧
    ForwardRun (.new 7 false false 64)
      [.forceClose, .connectionEstablished, .shutdown true, .shutdown false, .forceClose,
        .forceCloseWithDelay 1000, .handleClose, .delayedForceClose 0, .connectionDestroyed] t ∧
    t.world.state = .kDisconnected := by
  have hrun : (tcpCalls.restrict ShutdownApplies).Run (.new 7 false false 64)
      [.forceClose, .connectionEstablished, .shutdown true, .shutdown false, .forceClose,
        .forceCloseWithDelay 1000, .handleClose, .delayedForceClose 0, .connectionDestroyed] _ :=
    .of_play rfl
  exact ⟨_, hrun.of_restrict, (forward_iff_shutdownApplies hrun.of_restrict).mpr hrun, rfl⟩

/-- `shutdown()` takes a connection that is disconnected back to `kDisconnecting`. It also takes a
connection that is connecting there, and `connectionEstablished` then fails. -/
theorem shutdown_moves_back :
    (∃ t, tcpCalls.Run (.new 7 false false 64)
      [.connectionEstablished, .handleClose, .shutdown true] t ∧
      ¬ForwardRun (.new 7 false false 64)
        [.connectionEstablished, .handleClose, .shutdown true] t ∧
      t.world.state = .kDisconnecting) ∧
    ∃ t, tcpCalls.Run (.new 7 false false 64) [.shutdown true] t ∧
      ¬ForwardRun (.new 7 false false 64) [.shutdown true] t ∧
      tcpCalls.exec t .connectionEstablished = .error .connectionEstablishedState := by
  constructor
  · have hpre : tcpCalls.Run (.new 7 false false 64) [.connectionEstablished, .handleClose] _ :=
      .of_play rfl
    refine ⟨_, hpre.trans (.of_play rfl), fun h => ?_, rfl⟩
    exact absurd (h.final _ [.shutdown true] _ rfl hpre rfl) (by decide)
  · refine ⟨_, .of_play rfl, fun h => ?_, rfl⟩
    have hstep : Forward (.shutdown true) .kConnecting .kDisconnecting :=
      h.steps (List.nil_append [TcpCall.shutdown true]).symm .nil rfl
    exact absurd (hstep.connecting rfl (by simp)) (by decide)

end Tmuduo
