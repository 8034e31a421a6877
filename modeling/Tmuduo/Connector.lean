import Tmuduo.Channel

/-!
# The connector

`Connector` is `tmuduo::net::Connector`. `ConnectorWorld` adds what it uses : the sockets it
obtained, closed and handed over, the functors and retry timers it left with its loop, and the
batch of active channels that the loop is at (`LoopBatch`). Sockets are named by the order in
which `createNonblockingOrDie` returned them.

`start` and `stop` set `connect_` at once, on any thread; their second part runs in the loop. The
results of `connect`, of `SO_ERROR` and of `isSelfConnect` are the kernel's choice.

`connectorMachine` makes the calls of the user, the functors, the timers and the batches of the
loop in any order. A step fails where an assertion of the source fails.
-/

set_option autoImplicit false

namespace Tmuduo

/-- `Connector::States`. -/
inductive ConnectorState
  | kDisconnected
  | kConnecting
  | kConnected
  deriving DecidableEq, Repr

/-- `savedErrno` of `Connector::connect`, as far as its cases tell them apart. -/
inductive ConnectErrno
  | zero
  | EINPROGRESS
  | EINTR
  | EISCONN
  | EAGAIN
  | EADDRINUSE
  | EADDRNOTAVAIL
  | ECONNREFUSED
  | ENETUNREACH
  | EACCES
  | EPERM
  | EAFNOSUPPORT
  | EALREADY
  | EBADF
  | EFAULT
  | ENOTSOCK
  | other
  deriving DecidableEq, Repr

/-- The functors a connector leaves with its loop. -/
inductive ConnectorFunctor
  | startInLoop
  | stopInLoop
  | resetChannel
  deriving DecidableEq, Repr

/-- A callback that `handleEvent` of the connector's channel has yet to call. -/
inductive ConnectorTask
  | handleError
  | handleWrite
  deriving DecidableEq, Repr

/-- An assertion that fails : four of `Connector.cc`, those of `Channel::remove` and
`EventLoop::removeChannel`, or a null `channel_`. -/
inductive ConnectorFault
  | startInLoop
  | connecting
  | handleWrite
  | handleError
  | channelRemove
  | removeChannel
  | nullChannel
  deriving DecidableEq, Repr

/-- `tmuduo::net::Connector`. -/
structure Connector where
  connect_ : Bool
  state : ConnectorState
  channel : Option Channel
  retryDelayMs : ℕ
  deriving DecidableEq, Repr

def Connector.kMaxRetryDelayMs : ℕ := 30 * 1000

def Connector.kInitRetryDelayMs : ℕ := 500

/-- The loop inside `EventLoop::loop` : `activeChannels_`, `currentActiveChannel_`, the channels
that are not handled yet, and what is left of `handleEvent` of the connector's channel. A channel
is that of a socket of the connector, or another one (`none`). -/
structure LoopBatch where
  eventHandling : Bool
  active : List (Option ℤ)
  current : Option (Option ℤ)
  rest : List (Option ℤ)
  tasks : List ConnectorTask
  deriving DecidableEq, Repr

/-- A connector, what became of its sockets, and what it left with its loop. -/
structure ConnectorWorld extends Connector where
  obtained : ℕ
  closed : List ℤ
  delivered : List ℤ
  restarts : ℕ
  functors : List ConnectorFunctor
  timers : List ℕ
  batch : LoopBatch
  deriving DecidableEq, Repr

namespace ConnectorWorld

/-- `Connector::Connector`. -/
def new : ConnectorWorld where
  connect_ := false
  state := .kDisconnected
  channel := none
  retryDelayMs := Connector.kInitRetryDelayMs
  obtained := 0
  closed := []
  delivered := []
  restarts := 0
  functors := []
  timers := []
  batch := ⟨false, [], none, [], []⟩

variable (w : ConnectorWorld)

def setState (state : ConnectorState) : ConnectorWorld :=
  { w with state := state }

/-- `sockets::close`. -/
def close (sockfd : ℤ) : ConnectorWorld :=
  { w with closed := w.closed ++ [sockfd] }

/-- `loop_->queueInLoop`. -/
def queueInLoop (f : ConnectorFunctor) : ConnectorWorld :=
  { w with functors := w.functors ++ [f] }

/-- `loop_->runAfter` with `startInLoop`, and the delay of the next time. -/
def runAfter : ConnectorWorld :=
  { w with
    timers := w.timers ++ [w.retryDelayMs]
    retryDelayMs := min (w.retryDelayMs * 2) Connector.kMaxRetryDelayMs }

def retry (sockfd : ℤ) : ConnectorWorld :=
  let w := (w.close sockfd).setState .kDisconnected
  if w.connect_ then w.runAfter else w

/-- The assertion of `EventLoop::removeChannel`. -/
def mayRemove (ch : Channel) : Prop :=
  w.batch.eventHandling = true →
    w.batch.current = some (some ch.fd) ∨ some ch.fd ∉ w.batch.active

instance (ch : Channel) : Decidable (w.mayRemove ch) :=
  inferInstanceAs (Decidable (_ → _))

/-- The socket of the channel, and the connector without it. -/
def removeAndResetChannel : Except ConnectorFault (ConnectorWorld × ℤ) :=
  match w.channel with
  | none => .error .nullChannel
  | some ch => do
    let ch ← ch.disableAll.remove.mapError fun _ => .channelRemove
    check (w.mayRemove ch) .removeChannel
    return (({ w with channel := some ch }).queueInLoop .resetChannel, ch.fd)

def connecting (sockfd : ℤ) : Except ConnectorFault ConnectorWorld := do
  let w := w.setState .kConnecting
  check (w.channel = none) .connecting
  return { w with channel := some (Channel.new sockfd).enableWriting }

/-- `sockets::createNonblockingOrDie`. -/
def createNonblockingOrDie : ConnectorWorld :=
  { w with obtained := w.obtained + 1 }

/-- `Connector::connect`, when `sockets::connect` ends with `savedErrno`. -/
def connect (savedErrno : ConnectErrno) : Except ConnectorFault ConnectorWorld :=
  let sockfd : ℤ := w.obtained
  let w := w.createNonblockingOrDie
  match savedErrno with
  | .zero | .EINPROGRESS | .EINTR | .EISCONN => w.connecting sockfd
  | .EAGAIN | .EADDRINUSE | .EADDRNOTAVAIL | .ECONNREFUSED | .ENETUNREACH => .ok (w.retry sockfd)
  | .EACCES | .EPERM | .EAFNOSUPPORT | .EALREADY | .EBADF | .EFAULT | .ENOTSOCK =>
    .ok (w.close sockfd)
  | .other => .ok (w.close sockfd)

def startInLoop (savedErrno : ConnectErrno) : Except ConnectorFault ConnectorWorld := do
  check (w.state = .kDisconnected) .startInLoop
  if w.connect_ then w.connect savedErrno else return w

/-- `Connector::start`, in the loop thread or in another. -/
def start (inLoop : Bool) (savedErrno : ConnectErrno) : Except ConnectorFault ConnectorWorld :=
  let w := { w with connect_ := true }
  if inLoop then w.startInLoop savedErrno else return w.queueInLoop .startInLoop

def stopInLoop : Except ConnectorFault ConnectorWorld :=
  if w.state = .kConnecting then do
    let (w, sockfd) ← (w.setState .kDisconnected).removeAndResetChannel
    return w.retry sockfd
  else return w

/-- `Connector::stop`, in the loop thread or in another. -/
def stop (inLoop : Bool) : Except ConnectorFault ConnectorWorld :=
  let w := { w with connect_ := false }
  if inLoop then w.stopInLoop else return w.queueInLoop .stopInLoop

def restart (savedErrno : ConnectErrno) : Except ConnectorFault ConnectorWorld :=
  ({ w with
    state := .kDisconnected
    retryDelayMs := Connector.kInitRetryDelayMs
    connect_ := true
    restarts := w.restarts + 1 }).startInLoop savedErrno

def resetChannel : ConnectorWorld :=
  { w with channel := none }

/-- `newConnectionCalback_(sockfd)`. What it calls of the connector is a further step. -/
def newConnectionCallback (sockfd : ℤ) : ConnectorWorld :=
  { w with delivered := w.delivered ++ [sockfd] }

/-- `Connector::handleWrite`. `err` : `SO_ERROR` is set. -/
def handleWrite (err isSelfConnect : Bool) : Except ConnectorFault ConnectorWorld :=
  if w.state = .kConnecting then do
    let (w, sockfd) ← w.removeAndResetChannel
    if err then return w.retry sockfd
    else if isSelfConnect then return w.retry sockfd
    else
      let w := w.setState .kConnected
      if w.connect_ then return w.newConnectionCallback sockfd else return w.close sockfd
  else do
    check (w.state = .kDisconnected) .handleWrite
    return w

def handleError : Except ConnectorFault ConnectorWorld := do
  check (w.state = .kConnecting) .handleError
  let (w, sockfd) ← w.removeAndResetChannel
  return w.retry sockfd

/-- `doPendingFunctors` calls a functor. `savedErrno` is the result of a `connect` in it. -/
def runFunctor (savedErrno : ConnectErrno) :
    ConnectorFunctor → Except ConnectorFault ConnectorWorld
  | .startInLoop => w.startInLoop savedErrno
  | .stopInLoop => w.stopInLoop
  | .resetChannel => .ok w.resetChannel

/-- `Channel::handleEventWithguard` of the connector's channel calls a callback. -/
def runTask (err isSelfConnect : Bool) :
    ConnectorTask → Except ConnectorFault ConnectorWorld
  | .handleError => w.handleError
  | .handleWrite => w.handleWrite err isSelfConnect

/-- The sockets of the attempts whose channel is registered. -/
def inFlight : List ℤ :=
  match w.channel with
  | some ch => if ch.addedToLoop then [ch.fd] else []
  | none => []

end ConnectorWorld

/-! ## Runs -/

/-- A step of the user, of the loop or of a timer. `poll` is `poll` returning active channels,
`handle` the loop reaching the next of them, with what is in its `revents` if it is the
connector's. -/
inductive ConnectorStep
  | start (inLoop : Bool) (savedErrno : ConnectErrno)
  | stop (inLoop : Bool)
  | restart (savedErrno : ConnectErrno)
  | timer (i : ℕ) (savedErrno : ConnectErrno)
  | runFunctor (savedErrno : ConnectErrno)
  | poll (active : List (Option ℤ))
  | handle (error write : Bool)
  | runTask (err isSelfConnect : Bool)
  | endBatch
  deriving DecidableEq, Repr

namespace LoopBatch

/-- The loop thread may call the connector : outside a batch, or in a handler. -/
def inUserCode (b : LoopBatch) : Prop :=
  b.tasks = [] ∧ (b.eventHandling = true → b.current ≠ none)

instance (b : LoopBatch) : Decidable b.inUserCode := inferInstanceAs (Decidable (_ ∧ _))

/-- The callbacks that the events of the connector's channel call, errors first. -/
def callbacks (error write : Bool) : List ConnectorTask :=
  (if error then [.handleError] else []) ++ if write then [.handleWrite] else []

/-- The loop reaches the next active channel. -/
def next (b : LoopBatch) (error write : Bool) : LoopBatch :=
  match b.rest with
  | [] => b
  | some sockfd :: rest =>
    { b with current := some (some sockfd), rest := rest, tasks := callbacks error write }
  | none :: rest => { b with current := some none, rest := rest }

end LoopBatch

open ConnectorWorld in
/-- A connector under any use of it. The poller reports a channel that is registered, and once.
Timers run in the handler of the timerfd. A connection that was delivered leads to at most one
`restart`. -/
def connectorMachine : Machine ConnectorWorld ConnectorStep ConnectorFault where
  enabled w
    | .start inLoop _ => inLoop = true → w.batch.inUserCode
    | .stop inLoop => inLoop = true → w.batch.inUserCode
    | .restart _ => w.batch.inUserCode ∧ w.restarts < w.delivered.length
    | .timer i _ => w.batch.inUserCode ∧ w.batch.current = some none ∧ i < w.timers.length
    | .runFunctor _ => w.batch.eventHandling = false ∧ w.functors ≠ []
    | .poll active => w.batch.eventHandling = false ∧
        ∀ sockfd, some sockfd ∈ active → sockfd ∈ w.inFlight ∧ active.count (some sockfd) = 1
    | .handle _ _ => w.batch.eventHandling = true ∧ w.batch.tasks = [] ∧ w.batch.rest ≠ []
    | .runTask _ _ => w.batch.tasks ≠ []
    | .endBatch => w.batch.eventHandling = true ∧ w.batch.tasks = [] ∧ w.batch.rest = []
  exec w
    | .start inLoop savedErrno => w.start inLoop savedErrno
    | .stop inLoop => w.stop inLoop
    | .restart savedErrno => w.restart savedErrno
    | .timer i savedErrno => ({ w with timers := w.timers.eraseIdx i }).startInLoop savedErrno
    | .runFunctor savedErrno =>
        match w.functors with
        | [] => .ok w
        | f :: functors => ({ w with functors := functors }).runFunctor savedErrno f
    | .poll active => .ok { w with batch := ⟨true, active, none, active, []⟩ }
    | .handle error write => .ok { w with batch := w.batch.next error write }
    | .runTask err isSelfConnect =>
        match w.batch.tasks with
        | [] => .ok w
        | task :: tasks =>
          ({ w with batch := { w.batch with tasks := tasks } }).runTask err isSelfConnect task
    | .endBatch => .ok { w with batch := ⟨false, w.batch.active, none, [], []⟩ }

instance (w : ConnectorWorld) : ∀ l, Decidable (connectorMachine.enabled w l)
  | .start _ _ => inferInstanceAs (Decidable (_ → _))
  | .stop _ => inferInstanceAs (Decidable (_ → _))
  | .restart _ => inferInstanceAs (Decidable (_ ∧ w.restarts < w.delivered.length))
  | .timer i _ => inferInstanceAs (Decidable (_ ∧ _ ∧ i < w.timers.length))
  | .runFunctor _ => inferInstanceAs (Decidable (_ ∧ w.functors ≠ []))
  | .poll active => decidable_of_iff (w.batch.eventHandling = false ∧
      ∀ c ∈ active, ∀ sockfd ∈ c, sockfd ∈ w.inFlight ∧ active.count (some sockfd) = 1)
      (and_congr_right fun _ => ⟨fun h sockfd hmem => h _ hmem sockfd rfl,
        fun h _ hc sockfd hs => h sockfd (Option.mem_def.mp hs ▸ hc)⟩)
  | .handle _ _ => inferInstanceAs (Decidable (_ ∧ _ ∧ w.batch.rest ≠ []))
  | .runTask _ _ => inferInstanceAs (Decidable (w.batch.tasks ≠ []))
  | .endBatch => inferInstanceAs (Decidable (_ ∧ _ ∧ w.batch.rest = []))

/-! ## What the calls do -/

/-- `Connector::connect` goes on to `connecting`. -/
def ConnectErrno.inProgress : ConnectErrno → Bool
  | .zero | .EINPROGRESS | .EINTR | .EISCONN => true
  | _ => false

/-- A channel after `disableAll` and `remove`. -/
def Channel.removed (ch : Channel) : Channel :=
  { ch.disableAll with addedToLoop := false }

theorem Channel.remove_disableAll (ch : Channel) : ch.disableAll.remove = .ok ch.removed :=
  rfl

namespace ConnectorWorld

variable {w u : ConnectorWorld}

/-- `retry`, with its test moved to the fields that it changes. -/
theorem retry_eq (sockfd : ℤ) : w.retry sockfd =
    { w with
      state := .kDisconnected
      retryDelayMs := if w.connect_ then min (w.retryDelayMs * 2) Connector.kMaxRetryDelayMs
        else w.retryDelayMs
      closed := w.closed ++ [sockfd]
      timers := if w.connect_ then w.timers ++ [w.retryDelayMs] else w.timers } := by
  unfold retry
  cases hconnect : w.connect_ with
  | true => simp [hconnect, close, setState, runAfter]
  | false => simp [hconnect, close, setState]

/-- The connector after `removeAndResetChannel`. -/
def withdraw (w : ConnectorWorld) (ch : Channel) : ConnectorWorld :=
  ({ w with channel := some ch.removed }).queueInLoop .resetChannel

/-- How an attempt begins : it is in progress, or its socket is closed, with a timer for the next
attempt or without. -/
inductive Begun (w : ConnectorWorld) : ConnectorWorld → Prop
  | connecting (h : w.channel = none) : Begun w
      { w.createNonblockingOrDie with
        state := .kConnecting
        channel := some (Channel.new w.obtained).enableWriting }
  | retry : Begun w (w.createNonblockingOrDie.retry w.obtained)
  | closed : Begun w (w.createNonblockingOrDie.close w.obtained)

/-- How an attempt ends, with the channel `ch` : its socket is closed and `retry` decides on a
timer, it is delivered, or it is closed because of a `stop`. -/
inductive Ended (w : ConnectorWorld) (ch : Channel) : ConnectorWorld → Prop
  | retry : Ended w ch ((w.withdraw ch).retry ch.fd)
  | delivered (h : w.connect_ = true) :
      Ended w ch (((w.withdraw ch).setState .kConnected).newConnectionCallback ch.fd)
  | closed (h : w.connect_ = false) :
      Ended w ch (((w.withdraw ch).setState .kConnected).close ch.fd)

theorem removeAndResetChannel_eq_ok_iff {sockfd : ℤ} :
    w.removeAndResetChannel = .ok (u, sockfd) ↔
      ∃ ch, w.channel = some ch ∧ w.mayRemove ch ∧ u = w.withdraw ch ∧ sockfd = ch.fd := by
  unfold removeAndResetChannel
  cases hch : w.channel with
  | none => exact ⟨nofun, by rintro ⟨_, ⟨⟩, -⟩⟩
  | some ch =>
    simp only [Channel.remove_disableAll]
    change (check (w.mayRemove ch.removed) ConnectorFault.removeChannel >>= _) = _ ↔ _
    rw [check_bind_eq_ok_iff]
    constructor
    · rintro ⟨hmay, heq⟩
      obtain ⟨rfl, rfl⟩ := Prod.mk.inj (Except.ok.inj heq)
      exact ⟨ch, rfl, hmay, rfl, rfl⟩
    · rintro ⟨_, ⟨⟩, hmay, rfl, rfl⟩
      exact ⟨hmay, rfl⟩

theorem connect_cases {savedErrno : ConnectErrno} (h : w.connect savedErrno = .ok u) :
    w.Begun u := by
  have hconnecting : w.createNonblockingOrDie.connecting w.obtained = .ok u → w.Begun u := by
    intro h
    obtain ⟨hnone, heq⟩ := check_bind_eq_ok_iff.mp h
    obtain rfl := Except.ok.inj heq
    exact .connecting hnone
  cases savedErrno with
  | zero | EINPROGRESS | EINTR | EISCONN => exact hconnecting h
  | EAGAIN | EADDRINUSE | EADDRNOTAVAIL | ECONNREFUSED | ENETUNREACH =>
    obtain rfl := Except.ok.inj h
    exact .retry
  | EACCES | EPERM | EAFNOSUPPORT | EALREADY | EBADF | EFAULT | ENOTSOCK | other =>
    obtain rfl := Except.ok.inj h
    exact .closed

theorem startInLoop_cases {savedErrno : ConnectErrno} (h : w.startInLoop savedErrno = .ok u) :
    w.state = .kDisconnected ∧ (u = w ∨ w.Begun u) := by
  obtain ⟨hstate, h⟩ := check_bind_eq_ok_iff.mp h
  refine ⟨hstate, ?_⟩
  split_ifs at h
  · exact .inr (connect_cases h)
  · exact .inl (Except.ok.inj h).symm

theorem stopInLoop_cases (h : w.stopInLoop = .ok u) :
    (w.state ≠ .kConnecting ∧ u = w) ∨ (w.state = .kConnecting ∧
      ∃ ch, w.channel = some ch ∧ w.mayRemove ch ∧ u = (w.withdraw ch).retry ch.fd) := by
  unfold stopInLoop at h
  split_ifs at h with hstate
  · obtain ⟨⟨v, sockfd⟩, hv, rfl⟩ := bind_pure_eq_ok_iff.mp h
    obtain ⟨ch, hch, hmay, rfl, rfl⟩ := removeAndResetChannel_eq_ok_iff.mp hv
    exact .inr ⟨hstate, ch, hch, hmay, rfl⟩
  · exact .inl ⟨hstate, (Except.ok.inj h).symm⟩

theorem handleError_cases (h : w.handleError = .ok u) : w.state = .kConnecting ∧
    ∃ ch, w.channel = some ch ∧ w.mayRemove ch ∧ u = (w.withdraw ch).retry ch.fd := by
  obtain ⟨hstate, h⟩ := check_bind_eq_ok_iff.mp h
  obtain ⟨⟨v, sockfd⟩, hv, rfl⟩ := bind_pure_eq_ok_iff.mp h
  obtain ⟨ch, hch, hmay, rfl, rfl⟩ := removeAndResetChannel_eq_ok_iff.mp hv
  exact ⟨hstate, ch, hch, hmay, rfl⟩

theorem handleWrite_cases {err isSelfConnect : Bool} (h : w.handleWrite err isSelfConnect = .ok u) :
    (w.state = .kDisconnected ∧ u = w) ∨ (w.state = .kConnecting ∧
      ∃ ch, w.channel = some ch ∧ w.mayRemove ch ∧ w.Ended ch u) := by
  unfold handleWrite at h
  by_cases hstate : w.state = .kConnecting
  · rw [if_pos hstate] at h
    obtain ⟨⟨v, sockfd⟩, hv, h⟩ := bind_eq_ok_iff.mp h
    obtain ⟨ch, hch, hmay, rfl, rfl⟩ := removeAndResetChannel_eq_ok_iff.mp hv
    refine .inr ⟨hstate, ch, hch, hmay, ?_⟩
    simp only at h
    split_ifs at h with herr hself hconnect
    · obtain rfl := Except.ok.inj h
      exact .retry
    · obtain rfl := Except.ok.inj h
      exact .retry
    · obtain rfl := Except.ok.inj h
      exact .delivered hconnect
    · obtain rfl := Except.ok.inj h
      exact .closed (eq_false_of_ne_true hconnect)
  · rw [if_neg hstate] at h
    obtain ⟨hdown, h⟩ := check_bind_eq_ok_iff.mp h
    exact .inl ⟨hdown, (Except.ok.inj h).symm⟩

/-! ## How the calls fail -/

variable {a : ConnectorFault}

theorem removeAndResetChannel_eq_error_iff : w.removeAndResetChannel = .error a ↔
    (w.channel = none ∧ a = .nullChannel) ∨
      ∃ ch, w.channel = some ch ∧ ¬w.mayRemove ch ∧ a = .removeChannel := by
  unfold removeAndResetChannel
  cases hch : w.channel with
  | none =>
    refine ⟨fun h => .inl ⟨rfl, (Except.error.inj h).symm⟩, ?_⟩
    rintro (⟨-, rfl⟩ | ⟨_, ⟨⟩, -⟩)
    rfl
  | some ch =>
    simp only [Channel.remove_disableAll]
    change (check (w.mayRemove ch.removed) ConnectorFault.removeChannel >>= _) = _ ↔ _
    rw [check_bind_eq_error_iff]
    constructor
    · rintro (⟨hnot, rfl⟩ | ⟨-, ⟨⟩⟩)
      exact .inr ⟨ch, rfl, hnot, rfl⟩
    · rintro (⟨⟨⟩, -⟩ | ⟨_, ⟨⟩, hnot, rfl⟩)
      exact .inl ⟨hnot, rfl⟩

theorem startInLoop_error {savedErrno : ConnectErrno} (h : w.startInLoop savedErrno = .error a) :
    (w.state ≠ .kDisconnected ∧ a = .startInLoop) ∨
      (w.connect_ = true ∧ savedErrno.inProgress = true ∧ w.channel ≠ none ∧
        a = .connecting) := by
  have hconnecting : w.createNonblockingOrDie.connecting w.obtained = .error a →
      w.channel ≠ none ∧ a = .connecting := fun h =>
    (check_bind_eq_error_iff.mp h).resolve_right (by rintro ⟨-, ⟨⟩⟩)
  rcases check_bind_eq_error_iff.mp h with hstate | ⟨-, h⟩
  · exact .inl hstate
  · split_ifs at h with hconnect
    · cases savedErrno with
      | zero | EINPROGRESS | EINTR | EISCONN => exact .inr ⟨hconnect, rfl, hconnecting h⟩
      | _ => cases h
    · cases h

theorem stopInLoop_eq_error_iff : w.stopInLoop = .error a ↔
    w.state = .kConnecting ∧ w.removeAndResetChannel = .error a := by
  unfold stopInLoop
  by_cases hstate : w.state = .kConnecting
  · rw [if_pos hstate, bind_pure_eq_error_iff, removeAndResetChannel_eq_error_iff,
      removeAndResetChannel_eq_error_iff]
    exact (and_iff_right hstate).symm
  · rw [if_neg hstate]
    exact ⟨nofun, fun h => absurd h.1 hstate⟩

theorem handleError_error (h : w.handleError = .error a) :
    (w.state ≠ .kConnecting ∧ a = .handleError) ∨
      (w.state = .kConnecting ∧ w.removeAndResetChannel = .error a) := by
  rcases check_bind_eq_error_iff.mp h with hstate | ⟨hstate, h⟩
  · exact .inl hstate
  · exact .inr ⟨hstate, bind_pure_eq_error_iff.mp h⟩

theorem handleWrite_error {err isSelfConnect : Bool}
    (h : w.handleWrite err isSelfConnect = .error a) :
    (w.state = .kConnected ∧ a = .handleWrite) ∨
      (w.state = .kConnecting ∧ w.removeAndResetChannel = .error a) := by
  unfold handleWrite at h
  by_cases hstate : w.state = .kConnecting
  · rw [if_pos hstate] at h
    rcases bind_eq_error_iff.mp h with h | ⟨⟨v, sockfd⟩, -, h⟩
    · exact .inr ⟨hstate, h⟩
    · simp only at h
      split_ifs at h <;> cases h
  · rw [if_neg hstate] at h
    rcases check_bind_eq_error_iff.mp h with ⟨hdown, rfl⟩ | ⟨-, ⟨⟩⟩
    refine .inl ⟨?_, rfl⟩
    cases hw : w.state with
    | kDisconnected => exact absurd hw hdown
    | kConnecting => exact absurd hw hstate
    | kConnected => rfl

end ConnectorWorld

end Tmuduo
