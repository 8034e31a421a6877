import Tmuduo.Buffer
import Tmuduo.Channel

/-!
# The TCP connection

`TcpConnection` holds the members that the connection's own code reads and writes.
`TcpWorld` adds what the outside has seen : the bytes the kernel accepted, the
`shutdownWrite` calls with the output that was unsent at each, the functors the loop has
still to run, the user callbacks, and the threads that are inside `shutdown` or
`forceClose`.

`sendInLoop`, `handleWrite` and `handleRead` take the kernel's result as an argument, since it
is the environment's choice. `shutdown` and `forceClose` run on any thread : each is an atomic
exchange of `state_` (`exchange`), and later a second step that acts on the value the exchange
returned (`afterShutdown`, `afterForceClose`).

`tcpMachine` makes these steps in any order, between `connectionEstablished` and
`handleClose` or `connectionDestroyed`.
-/

set_option autoImplicit false

namespace Tmuduo

/-- `TcpConnection::StateE`. -/
inductive StateE
  | kDisconnected
  | kConnecting
  | kConnected
  | kDisconnecting
  deriving DecidableEq, Repr

/-- The values of `errno` that the connection tells apart. -/
inductive Errno
  | EWOULDBLOCK
  | EPIPE
  | other
  deriving DecidableEq, Repr

/-- What `sockets::write` returns. -/
inductive WriteResult
  | wrote (n : ℕ)
  | failed (e : Errno)
  deriving DecidableEq, Repr

/-- The kernel accepts at most the bytes it is offered. -/
def WriteResult.Valid (count : ℕ) : WriteResult → Prop
  | wrote n => n ≤ count
  | failed _ => True

instance (count : ℕ) : ∀ r : WriteResult, Decidable (r.Valid count)
  | .wrote n => inferInstanceAs (Decidable (n ≤ count))
  | .failed _ => isTrue trivial

/-- What `Buffer::readFd` returns. -/
inductive ReadResult
  | data (d : Bytes)
  | eof
  | failed
  deriving DecidableEq, Repr

/-- The two calls that end in `shutdownInLoop`. -/
inductive Caller
  | shutdown
  | forceClose
  deriving DecidableEq, Repr

/-- The functors a connection queues in its loop. -/
inductive TcpFunctor
  | writeComplete
  | highWaterMark (len : ℕ)
  | shutdownInLoop (caller : Caller)
  deriving DecidableEq, Repr

/-- The user callbacks. `connection` carries what `connected()` returns inside it. -/
inductive TcpCallback
  | connection (connected : Bool)
  | message
  | close
  deriving DecidableEq, Repr

/-- The assertions of `TcpConnection.cc`. `danglingMessage` is not one of them : `sendInLoop` is
called with a message that is not there any more. -/
inductive TcpAssert
  | sendInLoopRemaining
  | handleCloseState
  | connectionEstablishedState
  | channelRemove
  | danglingMessage
  deriving DecidableEq, Repr

/-- `tmuduo::net::TcpConnection`. The two flags say whether a callback is set. -/
structure TcpConnection where
  state : StateE
  channel : Channel
  inputBuffer : ValidBuffer
  outputBuffer : ValidBuffer
  writeCompleteCallback : Bool
  highWaterMarkCallback : Bool
  highWaterMark : ℕ

/-- A connection, and what the outside has seen of it. -/
structure TcpWorld extends TcpConnection where
  accepted : Bytes
  shutdownWrites : List Bytes
  pendingFunctors : List TcpFunctor
  callbacks : List TcpCallback
  callers : List (Caller × StateE)

namespace TcpWorld

/-- The members as the constructor initialises them, with the callbacks that are set later. -/
def new (sockfd : ℤ) (writeComplete highWater : Bool) (mark : ℕ) : TcpWorld where
  state := .kConnecting
  channel := Channel.new sockfd
  inputBuffer := ValidBuffer.new
  outputBuffer := ValidBuffer.new
  writeCompleteCallback := writeComplete
  highWaterMarkCallback := highWater
  highWaterMark := mark
  accepted := []
  shutdownWrites := []
  pendingFunctors := []
  callbacks := []
  callers := []

variable (c : TcpWorld)

/-- `loop_->queueInLoop(f)` when the condition holds. -/
def queueIf (p : Bool) (f : TcpFunctor) : TcpWorld :=
  if p then { c with pendingFunctors := c.pendingFunctors ++ [f] } else c

/-! ## Sending -/

/-- The write `sendInLoop` makes when nothing is buffered : the connection after it, the
bytes that remain, and the error flag. -/
def directWrite (message : Bytes) : WriteResult → TcpWorld × ℕ × Bool
  | .wrote n =>
    let remaining := message.length - n
    (({ c with accepted := c.accepted ++ message.take n }).queueIf
      (remaining == 0 && c.writeCompleteCallback) .writeComplete, remaining, false)
  | .failed e => (c, message.length, e == .EPIPE)

/-- `outputBuffer_.append(static_cast<const char*>(message), remaining)`, between the
high-water check and `enableWriting`. -/
def bufferRest (message : Bytes) (remaining : ℕ) : TcpWorld :=
  let oldLen := c.outputBuffer.readableBytes
  let c₁ := c.queueIf
    (c.highWaterMark ≤ oldLen + remaining && oldLen < c.highWaterMark && c.highWaterMarkCallback)
    (.highWaterMark (oldLen + remaining))
  { c₁ with
    outputBuffer := c₁.outputBuffer.append (message.take remaining)
    channel := if !c₁.channel.isWriting then c₁.channel.enableWriting else c₁.channel }

/-- The guard of the direct write : the channel is not writing and nothing is buffered. -/
def idle : Bool := !c.channel.isWriting && c.outputBuffer.readableBytes == 0

/-- `TcpConnection::sendInLoop`. `r` is the result of `sockets::write`, if it is called. -/
def sendInLoop (message : Bytes) (r : WriteResult) : Except TcpAssert TcpWorld :=
  if c.state = .kDisconnected then return c
  else do
    let (c₁, remaining, error) :=
      if c.idle then c.directWrite message r else (c, message.length, false)
    check (remaining ≤ message.length) .sendInLoopRemaining
    if !error && 0 < remaining then return c₁.bufferRest message remaining
    else return c₁

/-! ## Shutting down -/

/-- `socket_->shutdownWrite()`, logged with the output that is unsent. -/
def shutdownWrite : TcpWorld :=
  { c with shutdownWrites := c.shutdownWrites ++ [c.outputBuffer.content] }

def shutdownInLoop : TcpWorld :=
  if !c.channel.isWriting then c.shutdownWrite else c

/-- `state_.exchange(kDisconnecting)` of a call of `shutdown` or `forceClose`. -/
def exchange (caller : Caller) : TcpWorld :=
  { c with state := .kDisconnecting, callers := c.callers ++ [(caller, c.state)] }

/-- The rest of `shutdown`, after the exchange returned `old`. `runInLoop` runs
`shutdownInLoop` at once in the loop thread, and queues it in another. -/
def afterShutdown (old : StateE) (inLoop : Bool) : TcpWorld :=
  if old = .kConnected then
    if inLoop then c.shutdownInLoop
    else c.queueIf true (.shutdownInLoop .shutdown)
  else c

/-- The rest of `forceClose`, after the exchange returned `old`. -/
def afterForceClose (old : StateE) : TcpWorld :=
  if old = .kConnected ∨ old = .kDisconnecting then c.queueIf true (.shutdownInLoop .forceClose)
  else { c with state := old }

/-! ## Channel events -/

/-- The kernel took `n` bytes of the output buffer. -/
def retrieveOutput (n : ℕ) : TcpWorld :=
  { c with
    accepted := c.accepted ++ c.outputBuffer.content.take n
    outputBuffer := c.outputBuffer.retrieve n }

/-- What `handleWrite` does once the output buffer is empty. -/
def outputEmptied : TcpWorld :=
  let c₁ := ({ c with channel := c.channel.disableWriting }).queueIf
    c.writeCompleteCallback .writeComplete
  if c₁.state = .kDisconnecting then c₁.shutdownInLoop else c₁

/-- `TcpConnection::handleWrite`. `r` is the result of `sockets::write`, if it is called. -/
def handleWrite (r : WriteResult) : TcpWorld :=
  if c.channel.isWriting then
    match r with
    | .wrote (n + 1) =>
      let c₁ := c.retrieveOutput (n + 1)
      if c₁.outputBuffer.readableBytes = 0 then c₁.outputEmptied else c₁
    | .wrote 0 => c
    | .failed _ => c
  else c

def handleClose : Except TcpAssert TcpWorld := do
  check (c.state = .kConnected ∨ c.state = .kDisconnecting) .handleCloseState
  return { c with
    state := .kDisconnected
    channel := c.channel.disableAll
    callbacks := c.callbacks ++ [.connection false, .close] }

def handleRead : ReadResult → Except TcpAssert TcpWorld
  | .data d => return { c with
      inputBuffer := c.inputBuffer.append d
      callbacks := c.callbacks ++ [.message] }
  | .eof => c.handleClose
  | .failed => return c

def connectionEstablished : Except TcpAssert TcpWorld := do
  check (c.state = .kConnecting) .connectionEstablishedState
  return { c with
    state := .kConnected
    channel := c.channel.enableReading
    callbacks := c.callbacks ++ [.connection true] }

def connectionDestroyed : Except TcpAssert TcpWorld := do
  let c₁ := if c.state = .kConnected then
    { c with
      state := .kDisconnected
      channel := c.channel.disableAll
      callbacks := c.callbacks ++ [.connection false] }
    else c
  let channel ← c₁.channel.remove.mapError fun _ => .channelRemove
  return { c₁ with channel := channel }

end TcpWorld

/-! ## Runs -/

/-- One step of a run. `finish i` is the second step of the `i`-th call that is between its
exchange and its end, and `runFunctor` is the loop running the oldest functor. -/
inductive TcpStep
  | sendInLoop (message : Bytes) (r : WriteResult)
  | handleWrite (r : WriteResult)
  | handleRead (r : ReadResult)
  | exchange (caller : Caller)
  | finish (i : ℕ) (inLoop : Bool)
  | runFunctor
  deriving DecidableEq, Repr

/-- A connection in a run, with the messages passed to `sendInLoop` so far, and whether the
`shutdownInLoop` of a `shutdown()` that found the connection connected has run. -/
structure TcpRun where
  world : TcpWorld
  sent : Bytes
  shutdownRan : Bool

namespace TcpRun

/-- A new connection after `connectionEstablished`. -/
def established (sockfd : ℤ) (writeComplete highWater : Bool) (mark : ℕ) : TcpRun where
  world := { TcpWorld.new sockfd writeComplete highWater mark with
    state := .kConnected
    channel := (Channel.new sockfd).enableReading
    callbacks := [.connection true] }
  sent := []
  shutdownRan := false

theorem connectionEstablished_new (sockfd : ℤ) (writeComplete highWater : Bool) (mark : ℕ) :
    (TcpWorld.new sockfd writeComplete highWater mark).connectionEstablished =
      .ok (established sockfd writeComplete highWater mark).world :=
  rfl

variable (s : TcpRun)

/-- The second step of the call `(caller, old)`. -/
def finishCall (inLoop : Bool) : Caller × StateE → TcpRun
  | (.shutdown, old) =>
    { s with
      world := s.world.afterShutdown old inLoop
      shutdownRan := s.shutdownRan || (old == .kConnected && inLoop) }
  | (.forceClose, old) => { s with world := s.world.afterForceClose old }

/-- The loop runs a functor. The user's callbacks are further steps of the run. -/
def callFunctor : TcpFunctor → TcpRun
  | .shutdownInLoop caller =>
    { s with
      world := s.world.shutdownInLoop
      shutdownRan := s.shutdownRan || caller == .shutdown }
  | .writeComplete => s
  | .highWaterMark _ => s

end TcpRun

/-- A connection from `connectionEstablished` on. The results of `write` and `readFd` are the
kernel's choice, and an end of file ends the run. -/
def tcpMachine : Machine TcpRun TcpStep TcpAssert where
  enabled s
    | .sendInLoop message r => r.Valid message.length
    | .handleWrite r => r.Valid s.world.outputBuffer.readableBytes
    | .handleRead r => r ≠ .eof
    | .exchange _ => True
    | .finish i _ => i < s.world.callers.length
    | .runFunctor => s.world.pendingFunctors ≠ []
  exec s
    | .sendInLoop message r => (s.world.sendInLoop message r).map fun c =>
        { s with world := c, sent := s.sent ++ message }
    | .handleWrite r => .ok { s with world := s.world.handleWrite r }
    | .handleRead r => (s.world.handleRead r).map fun c => { s with world := c }
    | .exchange caller => .ok { s with world := s.world.exchange caller }
    | .finish i inLoop =>
        match s.world.callers[i]? with
        | some call => .ok (TcpRun.finishCall
            { s with world := { s.world with callers := s.world.callers.eraseIdx i } } inLoop call)
        | none => .ok s
    | .runFunctor =>
        match s.world.pendingFunctors with
        | f :: rest => .ok (TcpRun.callFunctor
            { s with world := { s.world with pendingFunctors := rest } } f)
        | [] => .ok s

instance (s : TcpRun) : ∀ l, Decidable (tcpMachine.enabled s l)
  | .sendInLoop message r => inferInstanceAs (Decidable (r.Valid message.length))
  | .handleWrite r => inferInstanceAs (Decidable (r.Valid s.world.outputBuffer.readableBytes))
  | .handleRead r => inferInstanceAs (Decidable (r ≠ .eof))
  | .exchange _ => isTrue trivial
  | .finish i _ => inferInstanceAs (Decidable (i < s.world.callers.length))
  | .runFunctor => inferInstanceAs (Decidable (s.world.pendingFunctors ≠ []))

end Tmuduo
