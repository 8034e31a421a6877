import Tmuduo.ConnectorSockets
import Tmuduo.TcpServer

/-!
# The client

`TcpClient` is `tmuduo::net::TcpClient` on top of its connector. The connector gives it a socket, it
makes a connection of it, and when that connection closes it may have the connector try again. The
close callback of a connection leads to `TcpClient::removeConnection`, which asserts that the
connection is the one in `connection_`; the destructor replaces it by `detail::removeConnection`.

`tcpClient` makes the calls of the user, of the loop and of the open connections in any order, each
of them in one step, whatever thread makes it. An open connection closes once. What the connector
does for the client in one step is `ConnectorWorld.ofLoop_cases` : nothing that the client sees
(`Calm`), or it delivers a socket.
-/

set_option autoImplicit false

namespace Tmuduo

/-- What a connection calls when it closes : `TcpClient::removeConnection`, or
`detail::removeConnection`. -/
inductive ClientCloseCallback
  | removeConnection
  | detail
  deriving DecidableEq, Repr

/-- A connection of the client. -/
structure ClientConnection where
  sockfd : ℤ
  name : Bytes
  deriving DecidableEq, Repr

/-- The functors that a client leaves with its loop. -/
inductive ClientFunctor
  | connectionDestroyed (conn : ClientConnection)
  | setCloseCallback (conn : ClientConnection)
  deriving DecidableEq, Repr

/-- A step that the client does not survive : in its connector, at the assertion of
`removeConnection`, or a callback after its destructor. -/
inductive ClientFault
  | connector (e : ConnectorFault)
  | removeConnection
  | freed
  deriving DecidableEq, Repr

/-- `tmuduo::net::TcpClient`. `established` are the connections that were made, `opened` those that
have not called their close callback, with that callback, and `destroyed` those on which
`connectionDestroyed` was called. `shutdowns` are the calls of `shutdown`. -/
structure TcpClient where
  connector : ConnectorWorld
  name : Bytes
  retry : Bool
  connect_ : Bool
  nextConnId : BitVec 32
  connection : Option ClientConnection
  alive : Bool
  established : List ClientConnection
  opened : List (ClientConnection × ClientCloseCallback)
  destroyed : List ClientConnection
  shutdowns : List ClientConnection
  functors : List ClientFunctor
  deriving DecidableEq, Repr

namespace TcpClient

/-- `TcpClient::TcpClient`. -/
def new (nameArg : Bytes) : TcpClient where
  connector := .new
  name := nameArg
  retry := false
  connect_ := true
  nextConnId := 1
  connection := none
  alive := true
  established := []
  opened := []
  destroyed := []
  shutdowns := []
  functors := []

variable (c : TcpClient)

/-- The connector does something. -/
def withConnector (w : Except ConnectorFault ConnectorWorld) : Except ClientFault TcpClient := do
  let w ← w.mapError .connector
  return { c with connector := w }

/-- `loop_->queueInLoop`. -/
def queueInLoop (f : ClientFunctor) : TcpClient :=
  { c with functors := c.functors ++ [f] }

/-- `TcpClient::connect`, in the loop thread or in another. -/
def connect (inLoop : Bool) (savedErrno : ConnectErrno) : Except ClientFault TcpClient :=
  ({ c with connect_ := true }).withConnector (c.connector.start inLoop savedErrno)

def disconnect : TcpClient :=
  { c with
    connect_ := false
    shutdowns := c.shutdowns ++ c.connection.toList }

/-- `TcpClient::stop`, in the loop thread or in another. -/
def stop (inLoop : Bool) : Except ClientFault TcpClient :=
  ({ c with connect_ := false }).withConnector (c.connector.stop inLoop)

def enableRetry : TcpClient :=
  { c with retry := true }

def newConnection (sockfd : ℤ) (peerAddr : InetAddress) : Except ClientFault TcpClient := do
  check (c.alive = true) .freed
  let conn := ⟨sockfd, TcpServer.connName peerAddr.toIpPort c.name c.nextConnId.toInt⟩
  return { c with
    nextConnId := c.nextConnId + 1
    connection := some conn
    established := c.established ++ [conn]
    opened := c.opened ++ [(conn, .removeConnection)] }

/-- `TcpClient::removeConnection`. `savedErrno` is the result of a `connect` in it. -/
def removeConnection (conn : ClientConnection) (savedErrno : ConnectErrno) :
    Except ClientFault TcpClient := do
  check (c.alive = true) .freed
  check (c.connection = some conn) .removeConnection
  let c := ({ c with connection := none }).queueInLoop (.connectionDestroyed conn)
  if c.retry && c.connect_ then c.withConnector (c.connector.restart savedErrno) else return c

/-- `TcpConnection::handleClose` of the `i`-th open connection gets to its close callback. -/
def handleClose (i : ℕ) (savedErrno : ConnectErrno) : Except ClientFault TcpClient :=
  match c.opened[i]? with
  | none => .ok c
  | some (conn, callback) =>
    let c := { c with opened := c.opened.eraseIdx i }
    match callback with
    | .removeConnection => c.removeConnection conn savedErrno
    | .detail => .ok (c.queueInLoop (.connectionDestroyed conn))

/-- `TcpConnection::setCloseCallback` with `detail::removeConnection`. -/
def setCloseCallback (conn : ClientConnection) : TcpClient :=
  { c with opened := c.opened.map fun p => if p.1 = conn then (p.1, .detail) else p }

/-- A step of the loop in the connector, and `newConnection` if it calls that. -/
def loopStep (l : ConnectorStep) (peerAddr : InetAddress) : Except ClientFault TcpClient := do
  let w ← (connectorMachine.exec c.connector l).mapError .connector
  let u := { c with connector := w }
  match w.delivered.drop c.connector.delivered.length with
  | [] => return u
  | sockfd :: _ => u.newConnection sockfd peerAddr

def runFunctor : ClientFunctor → TcpClient
  | .connectionDestroyed conn => { c with destroyed := c.destroyed ++ [conn] }
  | .setCloseCallback conn => c.setCloseCallback conn

/-- `TcpClient::~TcpClient`, in the loop thread or in another. -/
def destroy (inLoop : Bool) : Except ClientFault TcpClient :=
  let c := { c with alive := false }
  match c.connection with
  | some conn =>
    if inLoop then .ok (c.setCloseCallback conn) else .ok (c.queueInLoop (.setCloseCallback conn))
  | none => c.withConnector (c.connector.stop inLoop)

end TcpClient

/-! ## Runs -/

/-- A step of the user, of the loop in the connector, of an open connection or of a functor. -/
inductive ClientStep
  | connect (inLoop : Bool) (savedErrno : ConnectErrno)
  | disconnect
  | stop (inLoop : Bool)
  | enableRetry
  | loop (l : ConnectorStep) (peerAddr : InetAddress)
  | handleClose (i : ℕ) (savedErrno : ConnectErrno)
  | runFunctor
  | destroy (inLoop : Bool)

/-- The steps that the loop makes and not the client. -/
def ConnectorStep.ofLoop : ConnectorStep → Bool
  | .start _ _ | .stop _ | .restart _ => false
  | _ => true

/-- A client under any use of it. Its functions are called until the destructor, and its connections
are closed one by one. -/
def tcpClient : Machine TcpClient ClientStep ClientFault where
  enabled c
    | .connect inLoop savedErrno =>
        c.alive = true ∧ connectorMachine.enabled c.connector (.start inLoop savedErrno)
    | .disconnect => c.alive = true
    | .stop inLoop => c.alive = true ∧ connectorMachine.enabled c.connector (.stop inLoop)
    | .enableRetry => c.alive = true
    | .loop l _ => l.ofLoop = true ∧ connectorMachine.enabled c.connector l
    | .handleClose i _ => c.connector.batch.inUserCode ∧ i < c.opened.length
    | .runFunctor => c.connector.batch.eventHandling = false ∧ c.functors ≠ []
    | .destroy inLoop => c.alive = true ∧ (inLoop = true → c.connector.batch.inUserCode)
  exec c
    | .connect inLoop savedErrno => c.connect inLoop savedErrno
    | .disconnect => .ok c.disconnect
    | .stop inLoop => c.stop inLoop
    | .enableRetry => .ok c.enableRetry
    | .loop l peerAddr => c.loopStep l peerAddr
    | .handleClose i savedErrno => c.handleClose i savedErrno
    | .runFunctor =>
        match c.functors with
        | [] => .ok c
        | f :: functors => .ok (({ c with functors := functors }).runFunctor f)
    | .destroy inLoop => c.destroy inLoop

instance (c : TcpClient) : ∀ l, Decidable (tcpClient.enabled c l)
  | .connect _ _ => inferInstanceAs (Decidable (_ ∧ connectorMachine.enabled _ _))
  | .disconnect => inferInstanceAs (Decidable (c.alive = true))
  | .stop _ => inferInstanceAs (Decidable (_ ∧ connectorMachine.enabled _ _))
  | .enableRetry => inferInstanceAs (Decidable (c.alive = true))
  | .loop l _ => inferInstanceAs (Decidable (l.ofLoop = true ∧ connectorMachine.enabled _ _))
  | .handleClose i _ => inferInstanceAs (Decidable (_ ∧ i < c.opened.length))
  | .runFunctor => inferInstanceAs (Decidable (_ ∧ c.functors ≠ []))
  | .destroy _ => inferInstanceAs (Decidable (_ ∧ (_ → _)))

/-! ## What the connector does for the client -/

namespace ConnectorWorld

variable {w u : ConnectorWorld}

/-- From `w` to `u` no connection is delivered and none given up. -/
structure Calm (w u : ConnectorWorld) : Prop where
  delivered : u.delivered = w.delivered
  restarts : u.restarts = w.restarts
  connect_ : u.connect_ = w.connect_
  connected : w.state = .kConnected → u.state = .kConnected

theorem Calm.refl (w : ConnectorWorld) : Calm w w :=
  ⟨rfl, rfl, rfl, id⟩

theorem calm_retry (hstate : w.state = .kConnecting) (ch : Channel) :
    Calm w ((w.withdraw ch).retry ch.fd) := by
  rw [retry_eq]
  refine ⟨rfl, rfl, rfl, fun hconnected => ?_⟩
  rw [hstate] at hconnected
  cases hconnected

theorem Begun.calm (h : w.Begun u) (hstate : w.state = .kDisconnected) : Calm w u := by
  have hdown : w.state = .kConnected → u.state = .kConnected := fun hconnected => by
    rw [hstate] at hconnected
    cases hconnected
  cases h with
  | connecting => exact ⟨rfl, rfl, rfl, hdown⟩
  | retry =>
    rw [retry_eq] at hdown ⊢
    exact ⟨rfl, rfl, rfl, hdown⟩
  | closed => exact ⟨rfl, rfl, rfl, hdown⟩

theorem startInLoop_calm {savedErrno : ConnectErrno} (h : w.startInLoop savedErrno = .ok u) :
    Calm w u := by
  obtain ⟨hstate, rfl | hbegun⟩ := startInLoop_cases h
  · exact .refl _
  · exact hbegun.calm hstate

theorem stopInLoop_calm (h : w.stopInLoop = .ok u) : Calm w u := by
  obtain ⟨-, rfl⟩ | ⟨hstate, ch, -, -, rfl⟩ := stopInLoop_cases h
  · exact .refl _
  · exact calm_retry hstate ch

theorem start_calm {inLoop : Bool} {savedErrno : ConnectErrno}
    (h : w.start inLoop savedErrno = .ok u) : Calm { w with connect_ := true } u := by
  unfold start at h
  simp only at h
  split_ifs at h
  · exact startInLoop_calm h
  · obtain rfl := Except.ok.inj h
    exact ⟨rfl, rfl, rfl, id⟩

theorem stop_calm {inLoop : Bool} (h : w.stop inLoop = .ok u) :
    Calm { w with connect_ := false } u := by
  unfold stop at h
  simp only at h
  split_ifs at h
  · exact stopInLoop_calm h
  · obtain rfl := Except.ok.inj h
    exact ⟨rfl, rfl, rfl, id⟩

/-- A step of the loop delivers nothing, or the socket of an attempt that is wanted. -/
theorem ofLoop_cases {l : ConnectorStep} (hl : l.ofLoop = true)
    (h : connectorMachine.exec w l = .ok u) : Calm w u ∨
      (w.state = .kConnecting ∧ w.connect_ = true ∧ u.restarts = w.restarts ∧
        u.connect_ = w.connect_ ∧ ∃ sockfd, u.delivered = w.delivered ++ [sockfd]) := by
  cases l with
  | start | stop | restart => cases hl
  | timer i savedErrno =>
    have hcalm := startInLoop_calm h
    exact .inl { hcalm with }
  | runFunctor savedErrno =>
    refine .inl ?_
    simp only [connectorMachine] at h
    split at h
    · obtain rfl := Except.ok.inj h
      exact .refl _
    · next f functors _ =>
      cases f with
      | startInLoop =>
        have hcalm := startInLoop_calm h
        exact { hcalm with }
      | stopInLoop =>
        have hcalm := stopInLoop_calm h
        exact { hcalm with }
      | resetChannel =>
        obtain rfl := Except.ok.inj h
        exact ⟨rfl, rfl, rfl, id⟩
  | runTask err isSelfConnect =>
    simp only [connectorMachine] at h
    split at h
    · obtain rfl := Except.ok.inj h
      exact .inl (.refl _)
    · next task tasks _ =>
      cases task with
      | handleError =>
        obtain ⟨hstate, ch, -, -, rfl⟩ := handleError_cases h
        have hcalm := calm_retry hstate ch
        exact .inl { hcalm with }
      | handleWrite =>
        obtain ⟨-, rfl⟩ | ⟨hstate, ch, -, -, hended⟩ := handleWrite_cases h
        · exact .inl ⟨rfl, rfl, rfl, id⟩
        · cases hended with
          | retry =>
            have hcalm := calm_retry hstate ch
            exact .inl { hcalm with }
          | delivered hconnect => exact .inr ⟨hstate, hconnect, rfl, rfl, ch.fd, rfl⟩
          | closed => exact .inl ⟨rfl, rfl, rfl, fun _ => rfl⟩
  | poll | handle | endBatch =>
    obtain rfl := Except.ok.inj h
    exact .inl ⟨rfl, rfl, rfl, id⟩

/-- `restart` gives the delivered connection up. -/
theorem restart_cases {savedErrno : ConnectErrno} (h : w.restart savedErrno = .ok u) :
    u.delivered = w.delivered ∧ u.restarts = w.restarts + 1 := by
  obtain ⟨hdelivered, hrestarts, -, -⟩ := startInLoop_calm h
  exact ⟨hdelivered, hrestarts⟩

theorem SocketInv.of_run {ls : List ConnectorStep} (h : w.SocketInv)
    (hrun : connectorMachine.Run w ls u) : u.SocketInv :=
  hrun.invariant h fun _ _ _ ht he hx => ht.step he hx

end ConnectorWorld

end Tmuduo
