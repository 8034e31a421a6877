import Tmuduo.EventLoopThreadPool
import Tmuduo.Mailboxes
import Tmuduo.TcpDestroy
import Tmuduo.TcpServer
import Tmuduo.TcpWriteComplete

/-!
# A server in several loops

`ServerLoops L` is a `TcpServer` with the loops of its thread pool. The acceptor and `connections_`
live in the base loop, and each connection in the loop that `getNextLoop` chose for it. The loops
talk through their functors : `connectionEstablished` goes from the base loop to the loop of the
connection, `removeConnectionInLoop` back when the connection is closed, and `connectionDestroyed`
once more to the loop of the connection. `runInLoop` calls a functor at once in the thread of its
loop. Each loop runs its functors in order, between the events of its channels; nothing is said
about the order of steps in different loops.

A connection is a `TcpLife`, so the threads of the user and the kernel do with it what they like.
`ConnPhase` are the six phases a connection goes through, with the one functor that may be under way
in each. `server_phases` says that every connection is in one of them, whatever the loops do, and
that no assertion fails.
-/

set_option autoImplicit false

namespace Tmuduo

/-- What one loop of a server asks another to do, for the connection with this number. -/
inductive ServerFunctor
  | connectionEstablished (conn : ℕ)
  | removeConnectionInLoop (conn : ℕ)
  | connectionDestroyed (conn : ℕ)
  deriving DecidableEq, Repr

def ServerFunctor.conn : ServerFunctor → ℕ
  | connectionEstablished conn => conn
  | removeConnectionInLoop conn => conn
  | connectionDestroyed conn => conn

/-- A connection that has been accepted, and the loop it lives in. -/
structure LoopConn (L : Type) where
  named : NamedConnection
  ioLoop : L
  life : TcpLife

/-- An assertion that fails, or a connection or a loop that is not there. -/
inductive ServerFault
  | connection (e : TcpAssert)
  | eraseOne
  | nextLoop (e : LoopPoolFault)
  | noConnection
  deriving DecidableEq, Repr

/-- `tmuduo::net::TcpServer`, its thread pool, all connections it has accepted in their order, and
the functors of the loops. -/
structure ServerLoops (L : Type) where
  server : TcpServer
  pool : EventLoopThreadPool L
  conns : List (LoopConn L)
  queues : Mailboxes L ServerFunctor

namespace TcpLife

/-- The connection that `newConnection` of a server makes, before it is established. -/
def connecting (user : UserCallbacks) (sockfd : ℤ) : TcpLife where
  world := (TcpServer.makeConnection user sockfd).toTcpWorld
  sends := []
  tasks := []
  inCallback := false
  destroyed := false

/-- The life of a connection after `connectionEstablished`. -/
def connectionEstablished (s : TcpLife) : Except TcpAssert TcpLife := do
  let world ← s.world.connectionEstablished
  return { s with world := world }

end TcpLife

namespace ServerLoops

variable {L : Type} [DecidableEq L]

/-- A server whose pool has been started. -/
def new (listenAddr : InetAddress) (nameArg : Bytes) (pool : EventLoopThreadPool L) :
    ServerLoops L where
  server := .new listenAddr nameArg
  pool := pool
  conns := []
  queues := .empty

variable (s : ServerLoops L)

/-- The loop is not inside an event of one of its connections. -/
def Idle (ℓ : L) : Prop := ∀ conn ∈ s.conns, conn.ioLoop = ℓ → conn.life.tasks = []

def setLife (i : ℕ) (conn : LoopConn L) (life : TcpLife) : ServerLoops L :=
  { s with conns := s.conns.set i { conn with life := life } }

def queueInLoop (ℓ : L) (f : ServerFunctor) : ServerLoops L :=
  { s with queues := s.queues.post ℓ f }

/-- `TcpServer::removeConnectionInLoop`. -/
def removeConnectionInLoop (i : ℕ) (conn : LoopConn L) : Except ServerFault (ServerLoops L) := do
  let server ← (s.server.removeConnectionInLoop conn.named).mapError fun _ => .eraseOne
  return { s with server := server }.queueInLoop conn.ioLoop (.connectionDestroyed i)

/-- A functor is called, in its loop. -/
def call (f : ServerFunctor) : Except ServerFault (ServerLoops L) :=
  match s.conns[f.conn]?, f with
  | none, _ => .error .noConnection
  | some conn, .connectionEstablished i => do
    let life ← conn.life.connectionEstablished.mapError .connection
    return s.setLife i conn life
  | some conn, .removeConnectionInLoop i => s.removeConnectionInLoop i conn
  | some conn, .connectionDestroyed i => do
    let life ← (tcpLife.exec conn.life .connectionDestroyed).mapError .connection
    return s.setLife i conn life

/-- `ℓ->runInLoop(f)`, in the thread of the loop `thread`. -/
def runInLoop (thread ℓ : L) (f : ServerFunctor) : Except ServerFault (ServerLoops L) :=
  if thread = ℓ then s.call f else return s.queueInLoop ℓ f

/-- `TcpServer::newConnection`. -/
def newConnection (user : UserCallbacks) (sockfd : ℤ) : Except ServerFault (ServerLoops L) := do
  let (ioLoop, pool) ← s.pool.getNextLoop.mapError .nextLoop
  let conn := ⟨s.server.nextConnection, ioLoop, .connecting user sockfd⟩
  let s' := { s with server := s.server.newConnection, pool := pool, conns := s.conns ++ [conn] }
  s'.runInLoop pool.baseLoop ioLoop (.connectionEstablished s.conns.length)

/-- The next step of the loop's event calls `closeCallback_`. -/
def closes (life : TcpLife) : LifeStep → Bool
  | .runTask _ _ => life.tasks.head? = some .invokeClose
  | _ => false

/-- The poller reports an event. -/
def isDispatch : LifeStep → Bool
  | .dispatch _ => true
  | _ => false

/-- A step of the connection `i`. Its `closeCallback_` is `TcpServer::removeConnection`. -/
def lifeStep (i : ℕ) (l : LifeStep) : Except ServerFault (ServerLoops L) :=
  match s.conns[i]? with
  | none => .error .noConnection
  | some conn => do
    let life ← (tcpLife.exec conn.life l).mapError .connection
    let s' := s.setLife i conn life
    if closes conn.life l then s'.runInLoop conn.ioLoop s.pool.baseLoop (.removeConnectionInLoop i)
    else return s'

/-- The loop `ℓ` calls the first of its functors. -/
def runFunctor (ℓ : L) : Except ServerFault (ServerLoops L) :=
  match s.queues ℓ with
  | [] => return s
  | f :: _ => { s with queues := s.queues.take ℓ }.call f

end ServerLoops

/-- The steps of the loops and of the threads that use the connections. -/
inductive ServerStep (L : Type)
  | newConnection (sockfd : ℤ)
  | life (i : ℕ) (l : LifeStep)
  | runFunctor (ℓ : L)
  deriving DecidableEq, Repr

open ServerLoops in
/-- A server under any schedule of its loops. A connection is used from `connectionEstablished` on,
and `connectionDestroyed` is left to the server. -/
def serverLoops (L : Type) [DecidableEq L] (user : UserCallbacks) :
    Machine (ServerLoops L) (ServerStep L) ServerFault where
  enabled s
    | .newConnection _ => s.Idle s.pool.baseLoop
    | .life i l => ∃ conn, s.conns[i]? = some conn ∧ conn.life.world.state ≠ .kConnecting ∧
        tcpLife.enabled conn.life l ∧ l ≠ .connectionDestroyed ∧
        (isDispatch l = true → s.Idle conn.ioLoop)
    | .runFunctor ℓ => s.queues ℓ ≠ [] ∧ s.Idle ℓ
  exec s
    | .newConnection sockfd => s.newConnection user sockfd
    | .life i l => s.lifeStep i l
    | .runFunctor ℓ => s.runFunctor ℓ

instance {L : Type} [DecidableEq L] (s : ServerLoops L) (ℓ : L) : Decidable (s.Idle ℓ) :=
  inferInstanceAs (Decidable (∀ conn ∈ s.conns, conn.ioLoop = ℓ → conn.life.tasks = []))

instance {L : Type} [DecidableEq L] {user : UserCallbacks} (s : ServerLoops L) :
    ∀ l, Decidable ((serverLoops L user).enabled s l)
  | .newConnection _ => inferInstanceAs (Decidable (s.Idle s.pool.baseLoop))
  | .life i l =>
    match h : s.conns[i]? with
    | none => isFalse fun he => by
        obtain ⟨conn, hconn, -⟩ := he
        rw [h] at hconn
        cases hconn
    | some conn =>
      decidable_of_iff (conn.life.world.state ≠ .kConnecting ∧ tcpLife.enabled conn.life l ∧
        l ≠ .connectionDestroyed ∧ (ServerLoops.isDispatch l = true → s.Idle conn.ioLoop)) (by
          simp [serverLoops, h])
  | .runFunctor ℓ => inferInstanceAs (Decidable (s.queues ℓ ≠ [] ∧ s.Idle ℓ))

/-- The number of a new connection is not cut in its name. No `sendInLoop` gets past its test of
`state_` after the DOWN callback, or comes after the `send` that has its message. -/
def Orderly {L : Type} (s : ServerLoops L) : ServerStep L → Prop
  | .newConnection _ => s.server.accepted.length + 1 < 2 ^ 31 ∧
      s.server.accepted.length + 1 < 10 ^ (29 - s.server.hostport.length)
  | .life i l => ∀ conn, s.conns[i]? = some conn → NoLateSend conn.life l
  | .runFunctor _ => True

instance {L : Type} (s : ServerLoops L) : ∀ l, Decidable (Orderly s l)
  | .newConnection _ => inferInstanceAs (Decidable (_ ∧ _))
  | .life i l =>
    match h : s.conns[i]? with
    | none => isTrue fun conn hconn => by
        rw [h] at hconn
        cases hconn
    | some conn => decidable_of_iff (NoLateSend conn.life l) (by simp [Orderly, h])
  | .runFunctor _ => isTrue trivial

/-! ## Phases -/

/-- The phases of a connection : `connectionEstablished` is under way; it is up; it is down and its
`closeCallback_` is next; `removeConnectionInLoop` is under way; `connectionDestroyed` is under way;
it is destroyed. -/
inductive ConnPhase
  | connecting
  | up
  | closing
  | removing
  | destroying
  | destroyed
  deriving DecidableEq, Repr

namespace ConnPhase

variable {L : Type} [DecidableEq L]

/-- The functors of the connection `i` that are under way to the loop `ℓ`. -/
def mail (base ioLoop : L) (i : ℕ) (ℓ : L) : ConnPhase → List ServerFunctor
  | connecting => if ℓ = ioLoop then [.connectionEstablished i] else []
  | removing => if ℓ = base then [.removeConnectionInLoop i] else []
  | destroying => if ℓ = ioLoop then [.connectionDestroyed i] else []
  | up | closing | destroyed => []

/-- The connection is in `connections_`. -/
def listed : ConnPhase → Bool
  | connecting | up | closing | removing => true
  | destroying | destroyed => false

/-- What is known of the connection itself. -/
def Life (user : UserCallbacks) : ConnPhase → TcpLife → Prop
  | connecting, s => ∃ sockfd, s = .connecting user sockfd
  | up, s => IsUp s ∧ s.destroyed = false
  | closing, s => IsDown s ∧ s.destroyed = false ∧
      ∃ rest, s.tasks = .invokeClose :: rest ∧ .invokeClose ∉ rest
  | removing, s => IsDown s ∧ s.destroyed = false ∧ .invokeClose ∉ s.tasks
  | destroying, s => IsDown s ∧ s.destroyed = false ∧ .invokeClose ∉ s.tasks
  | destroyed, s => IsDown s ∧ s.destroyed = true ∧ .invokeClose ∉ s.tasks

end ConnPhase

namespace TcpLife

variable {s u : TcpLife}

theorem connectionEstablished_connecting (user : UserCallbacks) (sockfd : ℤ) :
    (connecting user sockfd).connectionEstablished =
      .ok (established sockfd false false (64 * 1024 * 1024)) :=
  rfl

/-- A task takes the connection down, and then `closeCallback_` is next; or it is not the DOWN
callback that is invoked. -/
theorem runTask_cases {r : ReadResult} {w : WriteResult} {rest : List LoopTask} {task : LoopTask}
    (hx : s.runTask r w rest task = .ok u) :
    u.tasks = .invokeClose :: rest ∨ (u.tasks = rest ∧
      (.connection false ∈ u.world.callbacks → .connection false ∈ s.world.callbacks)) := by
  have hdown : ∀ {v}, s.goDown rest = .ok v → v.tasks = .invokeClose :: rest := by
    intro v hv
    obtain ⟨w, -, rfl⟩ := bind_pure_eq_ok_iff.mp hv
    rfl
  cases task with
  | close => exact .inl (hdown hx)
  | read =>
    cases r with
    | eof => exact .inl (hdown hx)
    | data d =>
      obtain ⟨w, hw, rfl⟩ := bind_pure_eq_ok_iff.mp hx
      obtain rfl := Except.ok.inj hw
      exact .inr ⟨rfl, by simp⟩
    | failed =>
      obtain rfl := Except.ok.inj hx
      exact .inr ⟨rfl, id⟩
  | error =>
    obtain rfl := Except.ok.inj hx
    exact .inr ⟨rfl, id⟩
  | write =>
    obtain rfl := Except.ok.inj hx
    refine .inr ⟨rfl, fun hmem => ?_⟩
    rwa [(s.world.handleWrite_kept w).1.callbacks] at hmem
  | invokeClose =>
    obtain rfl := Except.ok.inj hx
    exact .inr ⟨rfl, by simp [TcpWorld.invokeClose]⟩

/-- Only an event and its tasks change what is left of an event, and only a task invokes the DOWN
callback. -/
theorem exec_cases {l : LifeStep} (hl : l ≠ .connectionDestroyed)
    (hx : tcpLife.exec s l = .ok u) :
    (u.world.callbacks = s.world.callbacks ∧
      (u.tasks = s.tasks ∨ ∃ revents, l = .dispatch revents)) ∨
    ∃ r w task rest, l = .runTask r w ∧ s.tasks = task :: rest ∧
      s.runTask r w rest task = .ok u := by
  cases l with
  | send message | sendPointer message =>
    obtain rfl := Except.ok.inj hx
    obtain ⟨sends, heq⟩ := s.send_eq message _
    rw [heq]
    exact .inl ⟨rfl, .inl rfl⟩
  | returnSend i =>
    obtain rfl := Except.ok.inj hx
    exact .inl ⟨rfl, .inl rfl⟩
  | runSend i r =>
    simp only [tcpLife] at hx
    split at hx
    · obtain ⟨w, hw, rfl⟩ := bind_pure_eq_ok_iff.mp hx
      obtain ⟨-, hw⟩ := sendInLoop_eq_ok_iff.mp hw
      exact .inl ⟨(TcpWorld.sendInLoop_kept hw).1.callbacks, .inl rfl⟩
    · obtain rfl := Except.ok.inj hx
      exact .inl ⟨rfl, .inl rfl⟩
  | exchange caller =>
    obtain rfl := Except.ok.inj hx
    exact .inl ⟨rfl, .inl rfl⟩
  | finish i inLoop =>
    obtain rfl := Except.ok.inj hx
    exact .inl ⟨(s.world.finish_cases i inLoop).1, .inl rfl⟩
  | runFunctor i =>
    obtain rfl := Except.ok.inj hx
    exact .inl ⟨(s.world.runFunctor_kept i).1.callbacks, .inl rfl⟩
  | dispatch revents =>
    obtain rfl := Except.ok.inj hx
    exact .inl ⟨rfl, .inr ⟨revents, rfl⟩⟩
  | runTask r w =>
    simp only [tcpLife] at hx
    split at hx
    · next task rest hs => exact .inr ⟨r, w, task, rest, rfl, hs, hx⟩
    · obtain rfl := Except.ok.inj hx
      exact .inl ⟨rfl, .inl rfl⟩
  | connectionDestroyed => exact absurd rfl hl

end TcpLife

/-- No step of a connection fails, apart from `connectionDestroyed` and a `sendInLoop` that comes
too late. -/
theorem LifeInv.exec_ok {s : TcpLife} {l : LifeStep} (h : LifeInv s) (hlate : NoLateSend s l)
    (hl : l ≠ .connectionDestroyed) : ∃ u, tcpLife.exec s l = .ok u := by
  cases l with
  | connectionDestroyed => exact absurd rfl hl
  | runTask r w =>
    simp only [tcpLife]
    split
    · next task rest hs =>
      rcases h with hup | hdown
      · obtain ⟨u, hu, -⟩ := hup.runTask hs r w
        exact ⟨u, hu⟩
      · obtain ⟨u, hu, -⟩ := hdown.runTask hs r w
        exact ⟨u, hu⟩
    · exact ⟨s, rfl⟩
  | runSend i r =>
    simp only [tcpLife]
    split
    · next q hget =>
      obtain ⟨w, hw⟩ := s.world.sendInLoop_total q.message r
      have hq : q.owner ≠ .dangling := fun hq => hlate.2 (by rw [hget, Option.map_some, hq])
      simp only [TcpLife.sendInLoop_eq_ok_iff.mpr ⟨hq, hw⟩, ok_bind]
      exact ⟨_, rfl⟩
    · exact ⟨s, rfl⟩
  | _ => exact ⟨_, rfl⟩

namespace IsDown

theorem mem_callbacks {s : TcpLife} (h : IsDown s) : .connection false ∈ s.world.callbacks := by
  obtain ⟨pre, post, hcallbacks, -⟩ := h.down
  rw [hcallbacks]
  exact List.mem_append_right pre List.mem_cons_self

end IsDown

namespace ConnPhase

variable {user : UserCallbacks} {s u : TcpLife} {l : LifeStep}

/-- A connection that is up stays up, or goes down and `closeCallback_` is next. -/
theorem step_up (h : up.Life user s) (he : (tcpLife.restrict NoLateSend).enabled s l)
    (hl : l ≠ .connectionDestroyed) (hx : tcpLife.exec s l = .ok u) :
    up.Life user u ∨ closing.Life user u := by
  obtain ⟨hup, hdestroyed⟩ := h
  have hdestroyed' := (TcpLife.exec_destroyed hx hl).trans hdestroyed
  rcases hup.step he.1 hx with hup' | hdown
  · exact .inl ⟨hup', hdestroyed'⟩
  · have hnew := hdown.mem_callbacks
    obtain ⟨hsame, -⟩ | ⟨r, w, task, rest, rfl, hs, hrun⟩ := TcpLife.exec_cases hl hx
    · rw [hsame] at hnew
      exact absurd hnew hup.down
    · obtain htasks | ⟨-, hold⟩ := TcpLife.runTask_cases hrun
      · refine .inr ⟨hdown, hdestroyed', rest, htasks, fun hmem => ?_⟩
        have hsub := hup.tasks.sublist.subset (by rw [hs]; exact List.mem_cons_of_mem _ hmem)
        simp at hsub
      · exact absurd (hold hnew) hup.down

/-- While `closeCallback_` is next, any other step leaves it next. -/
theorem step_closing (h : closing.Life user s)
    (he : (tcpLife.restrict NoLateSend).enabled s l) (hl : l ≠ .connectionDestroyed)
    (hcloses : ServerLoops.closes s l = false) (hx : tcpLife.exec s l = .ok u) :
    closing.Life user u := by
  obtain ⟨hdown, hdestroyed, rest, hs, hrest⟩ := h
  refine ⟨hdown.step he hx, (TcpLife.exec_destroyed hx hl).trans hdestroyed, rest, ?_, hrest⟩
  obtain ⟨-, htasks | ⟨revents, rfl⟩⟩ | ⟨r, w, task, rest', rfl, -, -⟩ := TcpLife.exec_cases hl hx
  · exact htasks.trans hs
  · exact absurd (he.1.1.symm.trans hs) (by simp)
  · simp [ServerLoops.closes, hs] at hcloses

/-- The step that calls `closeCallback_`. -/
theorem step_closes (h : closing.Life user s)
    (he : (tcpLife.restrict NoLateSend).enabled s l) (hl : l ≠ .connectionDestroyed)
    (hcloses : ServerLoops.closes s l = true) (hx : tcpLife.exec s l = .ok u) :
    removing.Life user u := by
  obtain ⟨hdown, hdestroyed, rest, hs, hrest⟩ := h
  refine ⟨hdown.step he hx, (TcpLife.exec_destroyed hx hl).trans hdestroyed, ?_⟩
  obtain ⟨r, w, rfl⟩ : ∃ r w, l = .runTask r w := by
    cases l <;> first | exact ⟨_, _, rfl⟩ | simp [ServerLoops.closes] at hcloses
  simp only [tcpLife, hs] at hx
  obtain rfl := Except.ok.inj hx
  exact hrest

/-- A connection whose `closeCallback_` has been called only works off its event. -/
theorem step_down (hdown : IsDown s) (htasks : .invokeClose ∉ s.tasks)
    (he : (tcpLife.restrict NoLateSend).enabled s l) (hl : l ≠ .connectionDestroyed)
    (hx : tcpLife.exec s l = .ok u) :
    IsDown u ∧ u.destroyed = s.destroyed ∧ .invokeClose ∉ u.tasks ∧
      ServerLoops.closes s l = false := by
  refine ⟨hdown.step he hx, TcpLife.exec_destroyed hx hl, ?_, ?_⟩
  · obtain ⟨-, hsame | ⟨revents, rfl⟩⟩ | ⟨r, w, task, rest, rfl, hs, hrun⟩ :=
      TcpLife.exec_cases hl hx
    · rwa [hsame]
    · have hnone : s.world.channel.isNoneEvent = true := beq_iff_eq.mpr hdown.channel
      exact absurd (hnone.symm.trans he.1.2.1) (by decide)
    · rw [hs] at htasks
      have hrest : .invokeClose ∉ rest := fun hmem => htasks (List.mem_cons_of_mem task hmem)
      rcases hdown.tasks task (by rw [hs]; exact List.mem_cons_self) with rfl | rfl | rfl
      · obtain rfl := Except.ok.inj hrun
        exact hrest
      · obtain rfl := Except.ok.inj hrun
        exact hrest
      · exact absurd List.mem_cons_self htasks
  · cases l with
    | runTask r w =>
      refine decide_eq_false fun hhead => htasks ?_
      exact List.mem_of_head? hhead
    | _ => rfl

end ConnPhase

/-! ## What the loops keep -/

namespace ServerLoops

variable {L : Type} {user : UserCallbacks} {pool₀ : EventLoopThreadPool L} {hostport name : Bytes}
  {s u : ServerLoops L}

/-- The functors of one connection that are under way. -/
def mail (s : ServerLoops L) (i : ℕ) (ℓ : L) : List ServerFunctor :=
  s.queues.about (fun f => decide (f.conn = i)) ℓ

/-- The connection `i` is in the phase. -/
structure InPhase [DecidableEq L] (user : UserCallbacks) (s : ServerLoops L) (i : ℕ)
    (conn : LoopConn L) (phase : ConnPhase) : Prop where
  mail : ∀ ℓ, s.mail i ℓ = phase.mail s.pool.baseLoop conn.ioLoop i ℓ
  listed : conn.named ∈ s.server.live ↔ phase.listed = true
  life : phase.Life user conn.life

/-- What every step keeps, apart from the phases. -/
structure Frame (pool₀ : EventLoopThreadPool L) (hostport name : Bytes) (s : ServerLoops L) :
    Prop where
  server : s.server.Inv hostport name
  distinct : s.server.Distinct
  named : s.conns.map LoopConn.named = s.server.accepted
  pool : ∃ next, s.pool = { pool₀ with next := next }
  called : s.pool.Called s.conns.length
  spread : ∀ i conn, s.conns[i]? = some conn → conn.ioLoop = s.pool.loopOf i
  known : ∀ ℓ, ∀ f ∈ s.queues ℓ, f.conn < s.conns.length

/-- The number of a connection is its place. -/
theorem Frame.named_id (h : s.Frame pool₀ hostport name) {i : ℕ} {conn : LoopConn L}
    (hi : s.conns[i]? = some conn) : conn.named.id = i := by
  have hnamed : s.server.accepted[i]? = some conn.named := by
    rw [← h.named, List.getElem?_map, hi]
    rfl
  rw [h.server.accepted_eq i conn.named hnamed]

variable [DecidableEq L]

section Mail

variable {i : ℕ} {ℓ ℓ' : L} {f : ServerFunctor} {rest : List ServerFunctor}

theorem mail_queueInLoop_of_ne (hf : f.conn ≠ i) :
    (s.queueInLoop ℓ f).mail i ℓ' = s.mail i ℓ' :=
  Mailboxes.about_post_of_ne (decide_eq_false hf)

/-- With nothing else under way. -/
theorem mail_queueInLoop (hf : f.conn = i) (hnone : ∀ ℓ, s.mail i ℓ = []) :
    (s.queueInLoop ℓ f).mail i ℓ' = if ℓ' = ℓ then [f] else [] := by
  have hpost : (s.queueInLoop ℓ f).mail i ℓ' = s.mail i ℓ' ++ if ℓ' = ℓ then [f] else [] :=
    Mailboxes.about_post (decide_eq_true hf)
  rw [hpost, hnone, List.nil_append]

theorem mail_take_of_ne (hq : s.queues ℓ = f :: rest) (hf : f.conn ≠ i) :
    ({ s with queues := s.queues.take ℓ }).mail i ℓ' = s.mail i ℓ' :=
  Mailboxes.about_take_of_ne hq (decide_eq_false hf)

theorem mail_take (hq : s.queues ℓ = f :: rest) (hf : f.conn = i) :
    s.mail i ℓ' = (if ℓ' = ℓ then [f] else []) ++
      ({ s with queues := s.queues.take ℓ }).mail i ℓ' :=
  Mailboxes.about_take hq (decide_eq_true hf)

end Mail

/-- Every connection apart from `i` is in a phase. -/
structure Others (user : UserCallbacks) (pool₀ : EventLoopThreadPool L) (hostport name : Bytes)
    (i : ℕ) (s : ServerLoops L) : Prop extends Frame pool₀ hostport name s where
  phase : ∀ j conn, j ≠ i → s.conns[j]? = some conn → ∃ phase, InPhase user s j conn phase

/-- What every step keeps. -/
structure Inv (user : UserCallbacks) (pool₀ : EventLoopThreadPool L) (hostport name : Bytes)
    (s : ServerLoops L) : Prop extends Frame pool₀ hostport name s where
  phase : ∀ i conn, s.conns[i]? = some conn → ∃ phase, InPhase user s i conn phase

theorem Inv.others (h : s.Inv user pool₀ hostport name) (i : ℕ) :
    s.Others user pool₀ hostport name i :=
  ⟨h.toFrame, fun j conn _ hj => h.phase j conn hj⟩

theorem Others.inv {i : ℕ} (h : s.Others user pool₀ hostport name i) {conn : LoopConn L}
    (phase : ConnPhase) (hi : s.conns[i]? = some conn) (hphase : InPhase user s i conn phase) :
    s.Inv user pool₀ hostport name := by
  refine ⟨h.toFrame, fun j conn' hj => ?_⟩
  by_cases hij : j = i
  · subst hij
    obtain rfl := Option.some.inj (hi.symm.trans hj)
    exact ⟨phase, hphase⟩
  · exact h.phase j conn' hij hj

/-- A functor is posted for the connection `i`. -/
theorem Others.queueInLoop {i : ℕ} (h : s.Others user pool₀ hostport name i) {f : ServerFunctor}
    (hf : f.conn = i) (hi : i < s.conns.length) (ℓ : L) :
    (s.queueInLoop ℓ f).Others user pool₀ hostport name i := by
  refine ⟨⟨h.server, h.distinct, h.named, h.pool, h.called, h.spread, fun ℓ' f' hf' => ?_⟩, ?_⟩
  · rcases Mailboxes.mem_of_mem_post hf' with hold | rfl
    · exact h.known ℓ' f' hold
    · rw [hf]
      exact hi
  · intro j conn hj hconn
    obtain ⟨phase, hphase⟩ := h.phase j conn hj hconn
    refine ⟨phase, fun ℓ' => ?_, hphase.listed, hphase.life⟩
    refine (mail_queueInLoop_of_ne ?_).trans (hphase.mail ℓ')
    rw [hf]
    exact hj.symm

/-- The loop `ℓ` takes a functor of the connection `i`. -/
theorem Inv.take (h : s.Inv user pool₀ hostport name) {ℓ : L} {f : ServerFunctor}
    {rest : List ServerFunctor} (hq : s.queues ℓ = f :: rest) :
    ({ s with queues := s.queues.take ℓ }).Others user pool₀ hostport name f.conn := by
  refine ⟨⟨h.server, h.distinct, h.named, h.pool, h.called, h.spread, fun ℓ' f' hf' => ?_⟩, ?_⟩
  · exact h.known ℓ' f' (Mailboxes.mem_of_mem_take hf')
  · intro j conn hj hconn
    obtain ⟨phase, hphase⟩ := h.phase j conn hconn
    exact ⟨phase, fun ℓ' => (mail_take_of_ne hq hj.symm).trans (hphase.mail ℓ'), hphase.listed,
      hphase.life⟩

/-- The life of the connection `i` goes on. -/
theorem Others.setLife {i : ℕ} (h : s.Others user pool₀ hostport name i) {conn : LoopConn L}
    (hi : s.conns[i]? = some conn) (life : TcpLife) :
    (s.setLife i conn life).Others user pool₀ hostport name i ∧
      (s.setLife i conn life).conns[i]? = some { conn with life := life } := by
  have hlt : i < s.conns.length := (List.getElem?_eq_some_iff.mp hi).1
  have hget : ∀ j, (s.setLife i conn life).conns[j]? =
      if i = j then some { conn with life := life } else s.conns[j]? := by
    intro j
    simp only [ServerLoops.setLife, List.getElem?_set, hlt]
    split_ifs with hij
    · subst hij
      simp
    · rfl
  have hlength : (s.setLife i conn life).conns.length = s.conns.length := List.length_set
  refine ⟨⟨⟨h.server, h.distinct, ?_, h.pool, ?_, ?_, ?_⟩, ?_⟩, by rw [hget i, if_pos rfl]⟩
  · refine Eq.trans (List.ext_getElem? fun j => ?_) h.named
    rw [List.getElem?_map, List.getElem?_map, hget j]
    split_ifs with hij
    · subst hij
      rw [hi]
      rfl
    · rfl
  · rw [hlength]
    exact h.called
  · intro j conn' hj
    rw [hget j] at hj
    split_ifs at hj with hij
    · subst hij
      obtain rfl := Option.some.inj hj
      exact h.spread i conn hi
    · exact h.spread j conn' hj
  · intro ℓ f hf
    rw [hlength]
    exact h.known ℓ f hf
  · intro j conn' hj hconn
    rw [hget j, if_neg fun hij => hj hij.symm] at hconn
    obtain ⟨phase, hphase⟩ := h.phase j conn' hj hconn
    exact ⟨phase, hphase.mail, hphase.listed, hphase.life⟩

/-! ## The functors -/

/-- `connectionEstablished` of a connection with no other functor under way. -/
theorem Others.established {i : ℕ} (h : s.Others user pool₀ hostport name i) {conn : LoopConn L}
    (hi : s.conns[i]? = some conn) {sockfd : ℤ} (hlife : conn.life = .connecting user sockfd)
    (hmail : ∀ ℓ, s.mail i ℓ = []) (hlive : conn.named ∈ s.server.live) :
    ∃ u, s.call (.connectionEstablished i) = .ok u ∧ u.Inv user pool₀ hostport name := by
  obtain ⟨hothers, hconn⟩ :=
    h.setLife hi (.established sockfd false false (64 * 1024 * 1024))
  refine ⟨s.setLife i conn (.established sockfd false false (64 * 1024 * 1024)), ?_,
    hothers.inv .up hconn ⟨hmail, iff_of_true hlive rfl, ?_⟩⟩
  · simp only [call, ServerFunctor.conn, hi, hlife, TcpLife.connectionEstablished_connecting]
    rfl
  · exact ⟨.established _ _ _ _, rfl⟩

/-- The entry of a connection is erased. -/
theorem Others.erase {i : ℕ} (h : s.Others user pool₀ hostport name i) {conn : LoopConn L}
    (hi : s.conns[i]? = some conn) (hlive : conn.named ∈ s.server.live) :
    ∃ server, s.server.removeConnectionInLoop conn.named = .ok server ∧
      ({ s with server := server }).Others user pool₀ hostport name i ∧
      conn.named ∉ server.live := by
  obtain ⟨server, herase⟩ :=
    (h.server.oneEntryEach_iff.mpr h.distinct).erases conn.named hlive
  have hinv := h.server.removeConnectionInLoop hlive herase
  obtain ⟨-, rfl⟩ := TcpServer.removeConnectionInLoop_eq_ok_iff.mp herase
  refine ⟨_, herase, ⟨⟨hinv, h.distinct, h.named, h.pool, h.called, h.spread, h.known⟩, ?_⟩, ?_⟩
  · intro j conn' hj hconn'
    obtain ⟨phase, hphase⟩ := h.phase j conn' hj hconn'
    have hne : conn'.named ≠ conn.named := by
      intro heq
      have hid := congrArg NamedConnection.id heq
      rw [h.named_id hi, h.named_id hconn'] at hid
      exact hj hid
    exact ⟨phase, hphase.mail, (List.mem_erase_of_ne hne).trans hphase.listed, hphase.life⟩
  · exact h.server.live_nodup.not_mem_erase

/-- `removeConnectionInLoop` of a connection with no other functor under way. -/
theorem Others.removed {i : ℕ} (h : s.Others user pool₀ hostport name i) {conn : LoopConn L}
    (hi : s.conns[i]? = some conn) (hlife : ConnPhase.removing.Life user conn.life)
    (hmail : ∀ ℓ, s.mail i ℓ = []) (hlive : conn.named ∈ s.server.live) :
    ∃ u, s.call (.removeConnectionInLoop i) = .ok u ∧ u.Inv user pool₀ hostport name := by
  obtain ⟨server, herase, hothers, hgone⟩ := h.erase hi hlive
  have hlt : i < s.conns.length := (List.getElem?_eq_some_iff.mp hi).1
  refine ⟨_, ?_, (hothers.queueInLoop (f := .connectionDestroyed i) rfl hlt conn.ioLoop).inv
    .destroying hi ⟨fun ℓ => ?_, iff_of_false hgone (by decide), hlife⟩⟩
  · simp only [call, ServerFunctor.conn, hi, ServerLoops.removeConnectionInLoop, herase]
    rfl
  · exact mail_queueInLoop (s := { s with server := server }) (f := .connectionDestroyed i) rfl
      hmail

/-- `connectionDestroyed` of a connection with no other functor under way. -/
theorem Others.destroyed {i : ℕ} (h : s.Others user pool₀ hostport name i) {conn : LoopConn L}
    (hi : s.conns[i]? = some conn) (hlife : ConnPhase.destroying.Life user conn.life)
    (hmail : ∀ ℓ, s.mail i ℓ = []) (hlive : conn.named ∉ s.server.live) :
    ∃ u, s.call (.connectionDestroyed i) = .ok u ∧ u.Inv user pool₀ hostport name := by
  obtain ⟨hdown, -, htasks⟩ := hlife
  have hne : conn.life.world.state ≠ .kConnected := by
    rcases hdown.state with hstate | hstate <;> simp [hstate]
  have hnone : conn.life.world.channel.isNoneEvent = true := beq_iff_eq.mpr hdown.channel
  have hworld := (TcpWorld.connectionDestroyed_eq_ok_iff hne).mpr ⟨hnone, rfl⟩
  obtain ⟨hothers, hconn⟩ := h.setLife hi { conn.life with
    world := { conn.life.world with
      channel := { conn.life.world.channel with addedToLoop := false } }
    destroyed := true }
  refine ⟨_, ?_, hothers.inv .destroyed hconn
    ⟨hmail, iff_of_false hlive (by decide), ?_, rfl, htasks⟩⟩
  · simp only [call, ServerFunctor.conn, hi, tcpLife, hworld, ok_bind]
    rfl
  · exact hdown.kept ⟨rfl, rfl, rfl⟩ rfl (List.Sublist.refl _)

/-- The only functor under way is taken. -/
theorem only_taken {a ℓ : L} {f g : ServerFunctor} {m : L → List ServerFunctor}
    (h : ∀ ℓ', (if ℓ' = a then [g] else []) = (if ℓ' = ℓ then [f] else []) ++ m ℓ') :
    f = g ∧ ∀ ℓ', m ℓ' = [] := by
  have hℓ := h ℓ
  rw [if_pos rfl] at hℓ
  by_cases ha : ℓ = a
  · subst ha
    rw [if_pos rfl] at hℓ
    obtain rfl := (List.cons.inj hℓ).1
    exact ⟨rfl, fun ℓ' => List.self_eq_append_right.mp (h ℓ')⟩
  · rw [if_neg ha] at hℓ
    cases hℓ

/-- The functor that a loop takes tells the phase of its connection. -/
theorem InPhase.taken {ℓ : L} {f : ServerFunctor} {rest : List ServerFunctor} {conn : LoopConn L}
    {phase : ConnPhase} (h : InPhase user s f.conn conn phase) (hq : s.queues ℓ = f :: rest) :
    (∀ ℓ', ({ s with queues := s.queues.take ℓ } : ServerLoops L).mail f.conn ℓ' = []) ∧
      ((f = .connectionEstablished f.conn ∧ phase = .connecting) ∨
        (f = .removeConnectionInLoop f.conn ∧ phase = .removing) ∨
        f = .connectionDestroyed f.conn ∧ phase = .destroying) := by
  have hmail := fun ℓ' => (h.mail ℓ').symm.trans (mail_take hq rfl)
  have hnone : phase.mail s.pool.baseLoop conn.ioLoop f.conn ℓ ≠ [] := by
    rw [hmail ℓ, if_pos rfl]
    exact List.cons_ne_nil _ _
  cases phase with
  | connecting =>
    obtain ⟨hf, hrest⟩ := only_taken hmail
    exact ⟨hrest, .inl ⟨hf, rfl⟩⟩
  | removing =>
    obtain ⟨hf, hrest⟩ := only_taken hmail
    exact ⟨hrest, .inr (.inl ⟨hf, rfl⟩)⟩
  | destroying =>
    obtain ⟨hf, hrest⟩ := only_taken hmail
    exact ⟨hrest, .inr (.inr ⟨hf, rfl⟩)⟩
  | up => exact absurd rfl hnone
  | closing => exact absurd rfl hnone
  | destroyed => exact absurd rfl hnone

theorem Inv.runFunctor (h : s.Inv user pool₀ hostport name) {ℓ : L} (hne : s.queues ℓ ≠ []) :
    ∃ u, s.runFunctor ℓ = .ok u ∧ u.Inv user pool₀ hostport name := by
  obtain ⟨f, rest, hq⟩ := List.exists_cons_of_ne_nil hne
  have hlt := h.known ℓ f (by rw [hq]; exact List.mem_cons_self)
  have hconn : s.conns[f.conn]? = some (s.conns.get ⟨f.conn, hlt⟩) := List.getElem?_eq_getElem hlt
  obtain ⟨phase, hphase⟩ := h.phase _ _ hconn
  obtain ⟨hmail, hcase⟩ := hphase.taken hq
  have hothers := h.take hq
  have hlisted := hphase.listed
  have hlife := hphase.life
  simp only [ServerLoops.runFunctor, hq]
  obtain ⟨hf, rfl⟩ | ⟨hf, rfl⟩ | ⟨hf, rfl⟩ := hcase
  · obtain ⟨sockfd, hlife⟩ := hlife
    rw [hf]
    exact hothers.established hconn hlife hmail (hlisted.mpr rfl)
  · rw [hf]
    exact hothers.removed hconn hlife hmail (hlisted.mpr rfl)
  · rw [hf]
    refine hothers.destroyed hconn hlife hmail fun hmem => ?_
    exact absurd (hlisted.mp hmem) (by decide)

/-! ## The steps -/

/-- `runInLoop` with `connectionEstablished`, in any thread. -/
theorem Others.runEstablished {i : ℕ} (h : s.Others user pool₀ hostport name i) (conn : LoopConn L)
    (hi : s.conns[i]? = some conn) {sockfd : ℤ} (hlife : conn.life = .connecting user sockfd)
    (hmail : ∀ ℓ, s.mail i ℓ = []) (hlive : conn.named ∈ s.server.live) (thread : L) :
    ∃ u, s.runInLoop thread conn.ioLoop (.connectionEstablished i) = .ok u ∧
      u.Inv user pool₀ hostport name := by
  have hlt : i < s.conns.length := (List.getElem?_eq_some_iff.mp hi).1
  unfold runInLoop
  split_ifs
  · exact h.established hi hlife hmail hlive
  · refine ⟨_, rfl, (h.queueInLoop (f := .connectionEstablished i) rfl hlt conn.ioLoop).inv
      .connecting hi ⟨fun ℓ => ?_, iff_of_true hlive rfl, sockfd, hlife⟩⟩
    exact mail_queueInLoop (f := .connectionEstablished i) rfl hmail

/-- `runInLoop` with `removeConnectionInLoop`, in any thread. -/
theorem Others.runRemove {i : ℕ} (h : s.Others user pool₀ hostport name i) {conn : LoopConn L}
    (hi : s.conns[i]? = some conn) (hlife : ConnPhase.removing.Life user conn.life)
    (hmail : ∀ ℓ, s.mail i ℓ = []) (hlive : conn.named ∈ s.server.live) (thread : L) :
    ∃ u, s.runInLoop thread s.pool.baseLoop (.removeConnectionInLoop i) = .ok u ∧
      u.Inv user pool₀ hostport name := by
  have hlt : i < s.conns.length := (List.getElem?_eq_some_iff.mp hi).1
  unfold runInLoop
  split_ifs
  · exact h.removed hi hlife hmail hlive
  · refine ⟨_, rfl, (h.queueInLoop (f := .removeConnectionInLoop i) rfl hlt s.pool.baseLoop).inv
      .removing hi ⟨fun ℓ => ?_, iff_of_true hlive rfl, hlife⟩⟩
    exact mail_queueInLoop (f := .removeConnectionInLoop i) rfl hmail

/-- The state after `newConnection` has made the connection. -/
theorem Inv.accept (h : s.Inv user pool₀ hostport name) {next : ℕ}
    (hcalled : ({ s.pool with next := next } : EventLoopThreadPool L).Called (s.conns.length + 1))
    (hmany : s.server.accepted.length + 1 < 2 ^ 31)
    (hroom : s.server.accepted.length + 1 < 10 ^ (29 - s.server.hostport.length)) (sockfd : ℤ) :
    ({ s with
      server := s.server.newConnection
      pool := { s.pool with next := next }
      conns := s.conns ++ [⟨s.server.nextConnection, s.pool.loopOf s.conns.length,
        .connecting user sockfd⟩] } : ServerLoops L).Others user pool₀ hostport name
      s.conns.length := by
  have hserver := h.server.newConnection hmany
  have hlast : ∀ {j : ℕ} {c : LoopConn L}, j ≠ s.conns.length →
      (s.conns ++ [⟨s.server.nextConnection, s.pool.loopOf s.conns.length,
        .connecting user sockfd⟩])[j]? = some c → s.conns[j]? = some c := by
    intro j c hj hc
    rcases Nat.lt_or_gt_of_ne hj with hlt | hgt
    · rwa [List.getElem?_append_left hlt] at hc
    · rw [List.getElem?_eq_none (by simp; omega)] at hc
      cases hc
  obtain ⟨next₀, hpool⟩ := h.pool
  refine ⟨⟨hserver, ?_, ?_, ⟨next, by rw [hpool]⟩, ?_, ?_, ?_⟩, ?_⟩
  · rw [hserver.distinct_iff]
    simp only [TcpServer.newConnection, List.length_append, List.length_singleton]
    rw [h.server.hostport_eq] at hroom
    exact .inr hroom
  · simp [TcpServer.newConnection, h.named]
  · simpa using hcalled
  · intro j c hc
    by_cases hj : j = s.conns.length
    · subst hj
      rw [List.getElem?_concat_length] at hc
      rw [← Option.some.inj hc]
      rfl
    · exact h.spread j c (hlast hj hc)
  · intro ℓ f hf
    exact Nat.lt_of_lt_of_le (h.known ℓ f hf) (by simp)
  · intro j c hj hc
    obtain ⟨phase, hphase⟩ := h.phase j c (hlast hj hc)
    have hne : c.named ≠ s.server.nextConnection := by
      intro heq
      have hid := h.named_id (hlast hj hc)
      rw [heq] at hid
      simp only [TcpServer.nextConnection, ← h.named, List.length_map] at hid
      exact hj hid.symm
    refine ⟨phase, hphase.mail, Iff.trans ?_ hphase.listed, hphase.life⟩
    simp [TcpServer.newConnection, hne]

theorem Inv.newConnection (h : s.Inv user pool₀ hostport name)
    (hmany : s.server.accepted.length + 1 < 2 ^ 31)
    (hroom : s.server.accepted.length + 1 < 10 ^ (29 - s.server.hostport.length)) (sockfd : ℤ) :
    ∃ u, s.newConnection user sockfd = .ok u ∧ u.Inv user pool₀ hostport name := by
  obtain ⟨next, hnext, hcalled⟩ := EventLoopThreadPool.getNextLoop_eq h.called
  have hothers := h.accept hcalled hmany hroom sockfd
  have hmail : ∀ ℓ, s.mail s.conns.length ℓ = [] := by
    intro ℓ
    refine List.filter_eq_nil_iff.mpr fun f hf => ?_
    have hlt := h.known ℓ f hf
    simp only [decide_eq_true_eq]
    omega
  simp only [ServerLoops.newConnection, hnext, Except.mapError, ok_bind]
  refine hothers.runEstablished ⟨_, _, _⟩ (List.getElem?_concat_length ..) rfl hmail ?_ _
  simp [TcpServer.newConnection]

/-- A step of a connection that calls nothing of the server. -/
theorem Inv.setLife (h : s.Inv user pool₀ hostport name) {i : ℕ} {conn : LoopConn L}
    (hi : s.conns[i]? = some conn) {phase : ConnPhase} (hphase : InPhase user s i conn phase)
    (phase' : ConnPhase) (hmail : ∀ ℓ,
      phase'.mail s.pool.baseLoop conn.ioLoop i ℓ = phase.mail s.pool.baseLoop conn.ioLoop i ℓ)
    (hlisted : phase'.listed = phase.listed) {life : TcpLife} (hlife : phase'.Life user life) :
    (s.setLife i conn life).Inv user pool₀ hostport name := by
  obtain ⟨hothers, hconn⟩ := (h.others i).setLife hi life
  refine hothers.inv phase' hconn ⟨fun ℓ => (hphase.mail ℓ).trans (hmail ℓ).symm, ?_, hlife⟩
  rw [hlisted]
  exact hphase.listed

/-- A connection that has been established is up or down. -/
theorem lifeInv_of_phase {phase : ConnPhase} {life : TcpLife}
    (h : phase.Life user life) (hstate : life.world.state ≠ .kConnecting) : LifeInv life := by
  cases phase with
  | connecting =>
    obtain ⟨sockfd, rfl⟩ := h
    exact absurd rfl hstate
  | up => exact .inl h.1
  | closing => exact .inr h.1
  | removing => exact .inr h.1
  | destroying => exact .inr h.1
  | destroyed => exact .inr h.1

/-- The event of a connection that is up does not call `closeCallback_`. -/
theorem closes_of_up {life : TcpLife} (h : IsUp life) (l : LifeStep) : closes life l = false := by
  cases l with
  | runTask r w =>
    refine decide_eq_false fun hhead => ?_
    have hmem := h.tasks.sublist.subset (List.mem_of_head? hhead)
    simp at hmem
  | _ => rfl

theorem Inv.lifeStep (h : s.Inv user pool₀ hostport name) {i : ℕ} {conn : LoopConn L} {l : LifeStep}
    (hi : s.conns[i]? = some conn) (hstate : conn.life.world.state ≠ .kConnecting)
    (he : (tcpLife.restrict NoLateSend).enabled conn.life l) (hl : l ≠ .connectionDestroyed) :
    ∃ u, s.lifeStep i l = .ok u ∧ u.Inv user pool₀ hostport name := by
  obtain ⟨phase, hphase⟩ := h.phase i conn hi
  obtain ⟨life, hx⟩ := (lifeInv_of_phase hphase.life hstate).exec_ok he.2 hl
  have hstep : s.lifeStep i l = if closes conn.life l then
      (s.setLife i conn life).runInLoop conn.ioLoop s.pool.baseLoop (.removeConnectionInLoop i)
      else .ok (s.setLife i conn life) := by
    simp only [ServerLoops.lifeStep, hi, hx, Except.mapError, ok_bind]
    rfl
  rw [hstep]
  have hlife := hphase.life
  cases phase with
  | connecting =>
    obtain ⟨sockfd, hlife⟩ := hlife
    rw [hlife] at hstate
    exact absurd rfl hstate
  | up =>
    rw [closes_of_up hlife.1 l]
    rcases ConnPhase.step_up hlife he hl hx with hup | hclosing
    · exact ⟨_, rfl, h.setLife hi hphase .up (fun _ => rfl) rfl hup⟩
    · exact ⟨_, rfl, h.setLife hi hphase .closing (fun _ => rfl) rfl hclosing⟩
  | closing =>
    cases hcloses : closes conn.life l with
    | false =>
      exact ⟨_, rfl, h.setLife hi hphase .closing (fun _ => rfl) rfl
        (ConnPhase.step_closing hlife he hl hcloses hx)⟩
    | true =>
      obtain ⟨hothers, hconn⟩ := (h.others i).setLife hi life
      exact hothers.runRemove hconn (ConnPhase.step_closes hlife he hl hcloses hx)
        (fun ℓ => hphase.mail ℓ) (hphase.listed.mpr rfl) conn.ioLoop
  | removing =>
    obtain ⟨hdown, hdestroyed, htasks, hcloses⟩ := ConnPhase.step_down hlife.1 hlife.2.2 he hl hx
    rw [hcloses]
    exact ⟨_, rfl, h.setLife hi hphase .removing (fun _ => rfl) rfl
      ⟨hdown, hdestroyed.trans hlife.2.1, htasks⟩⟩
  | destroying =>
    obtain ⟨hdown, hdestroyed, htasks, hcloses⟩ := ConnPhase.step_down hlife.1 hlife.2.2 he hl hx
    rw [hcloses]
    exact ⟨_, rfl, h.setLife hi hphase .destroying (fun _ => rfl) rfl
      ⟨hdown, hdestroyed.trans hlife.2.1, htasks⟩⟩
  | destroyed =>
    obtain ⟨hdown, hdestroyed, htasks, hcloses⟩ := ConnPhase.step_down hlife.1 hlife.2.2 he hl hx
    rw [hcloses]
    exact ⟨_, rfl, h.setLife hi hphase .destroyed (fun _ => rfl) rfl
      ⟨hdown, hdestroyed.trans hlife.2.1, htasks⟩⟩

/-- No step fails, and every step keeps the invariant. -/
theorem Inv.step :
    ((serverLoops L user).restrict Orderly).Keeps (Inv user pool₀ hostport name) := by
  intro s l h he
  obtain ⟨he, horderly⟩ := he
  cases l with
  | newConnection sockfd => exact h.newConnection horderly.1 horderly.2 sockfd
  | life i l =>
    obtain ⟨conn, hi, hstate, hlife, hl, -⟩ := he
    exact h.lifeStep hi hstate ⟨hlife, horderly conn hi⟩ hl
  | runFunctor ℓ => exact h.runFunctor he.1

theorem Inv.new (listenAddr : InetAddress) (nameArg : Bytes) {pool : EventLoopThreadPool L}
    (hpool : pool.next = 0) : (ServerLoops.new listenAddr nameArg pool).Inv user pool
      listenAddr.toIpPort nameArg where
  server := .new listenAddr nameArg
  distinct := List.Pairwise.nil
  named := rfl
  pool := ⟨pool.next, rfl⟩
  called _ := by simp [ServerLoops.new, hpool]
  spread _ _ h := by simp [ServerLoops.new] at h
  known _ _ h := by simp [ServerLoops.new, Mailboxes.empty] at h
  phase _ _ h := by simp [ServerLoops.new] at h

end ServerLoops

/-! ## Every run -/

/-- A server with any number of loops, under any schedule of them, as long as the numbers of its
connections fit into their names and no `sendInLoop` comes too late. No step fails. The map has an
entry for each connection that was not removed, and nothing else. Every connection is in one of the
six phases : its functors are under way one at a time, each in the loop it belongs to, and it leaves
the map before it is destroyed, which happens once. When no functor and no event is under way, every
connection is up and in the map, or destroyed. -/
theorem server_phases {L : Type} [DecidableEq L] {listenAddr : InetAddress} {nameArg : Bytes}
    {baseLoop : L} {numThreads : ℕ} {startLoop : ℕ → L} {cb : Bool} {pool : EventLoopThreadPool L}
    (hpool : ((EventLoopThreadPool.new baseLoop).setThreadNum numThreads).start startLoop cb =
      .ok pool) {user : UserCallbacks} {ls : List (ServerStep L)} {t : ServerLoops L}
    (hrun : ((serverLoops L user).restrict Orderly).Run (.new listenAddr nameArg pool) ls t) :
    (∀ l, ((serverLoops L user).restrict Orderly).enabled t l →
      ∃ u, (serverLoops L user).exec t l = .ok u) ∧
    t.server.OneEntryEach ∧
    (∀ i conn, t.conns[i]? = some conn → ∃ phase, t.InPhase user i conn phase) ∧
    ((∀ ℓ, t.queues ℓ = []) → (∀ conn ∈ t.conns, conn.life.tasks = []) →
      ∀ conn ∈ t.conns, (IsUp conn.life ∧ conn.named ∈ t.server.live) ∨
        (conn.life.destroyed = true ∧ conn.named ∉ t.server.live)) := by
  have h : t.Inv user pool listenAddr.toIpPort nameArg :=
    ServerLoops.Inv.step.run (.new listenAddr nameArg (EventLoopThreadPool.start_eq hpool).2.2) hrun
  refine ⟨fun l he => ?_, h.server.oneEntryEach_iff.mpr h.distinct, h.phase, ?_⟩
  · obtain ⟨u, hu, -⟩ := ServerLoops.Inv.step h he
    exact ⟨u, hu⟩
  · intro hqueues htasks conn hconn
    obtain ⟨i, hi⟩ := List.getElem?_of_mem hconn
    obtain ⟨phase, hphase⟩ := h.phase i conn hi
    have hnone : ∀ ℓ, phase.mail t.pool.baseLoop conn.ioLoop i ℓ = [] := by
      intro ℓ
      rw [← hphase.mail ℓ, ServerLoops.mail, Mailboxes.about, hqueues ℓ]
      rfl
    have hlife := hphase.life
    cases phase with
    | connecting => exact absurd (hnone conn.ioLoop) (by simp [ConnPhase.mail])
    | removing => exact absurd (hnone t.pool.baseLoop) (by simp [ConnPhase.mail])
    | destroying => exact absurd (hnone conn.ioLoop) (by simp [ConnPhase.mail])
    | closing =>
      obtain ⟨-, -, rest, hrest, -⟩ := hlife
      exact absurd ((htasks conn hconn).symm.trans hrest) (by simp)
    | up => exact .inl ⟨hlife.1, hphase.listed.mpr rfl⟩
    | destroyed =>
      exact .inr ⟨hlife.2.1, fun hmem => absurd (hphase.listed.mp hmem) (by decide)⟩

/-- Two threads. The first of two connections is closed by its peer and destroyed, and the second is
up. -/
theorem server_phases_two_threads : ∃ pool t,
    ((EventLoopThreadPool.new 0).setThreadNum 2).start (· + 1) false = .ok pool ∧
    ((serverLoops ℕ ⟨true, true, false⟩).restrict Orderly).Run
      (.new (.in4 ![0, 0, 0, 0] 9) [115] pool)
      [.newConnection 7, .newConnection 8, .runFunctor 2, .runFunctor 1,
        .life 0 (.dispatch (POLLIN ||| POLLRDHUP)), .life 0 (.runTask .eof (.wrote 0)),
        .life 0 (.runTask .eof (.wrote 0)), .runFunctor 0, .runFunctor 1] t ∧
    t.server.OneEntryEach ∧ t.server.live.length = 1 := by
  obtain ⟨pool, t, hpool, hrun, hlive⟩ : ∃ pool t,
      ((EventLoopThreadPool.new 0).setThreadNum 2).start (· + 1) false = .ok pool ∧
      ((serverLoops ℕ ⟨true, true, false⟩).restrict Orderly).Run
      (.new (.in4 ![0, 0, 0, 0] 9) [115] pool)
        [.newConnection 7, .newConnection 8, .runFunctor 2, .runFunctor 1,
          .life 0 (.dispatch (POLLIN ||| POLLRDHUP)), .life 0 (.runTask .eof (.wrote 0)),
          .life 0 (.runTask .eof (.wrote 0)), .runFunctor 0, .runFunctor 1] t ∧
      t.server.live.length = 1 := ⟨_, _, rfl, .of_play rfl, rfl⟩
  exact ⟨pool, t, hpool, hrun, (server_phases hpool hrun).2.1, hlive⟩

/-- The connections are spread over the threads in turn : the connection `i` lives in the loop of
the thread `i` modulo their number, and at any time two threads have been given the same number of
connections, give or take one. -/
theorem server_spread {L : Type} [DecidableEq L] {listenAddr : InetAddress} {nameArg : Bytes}
    {baseLoop : L} {numThreads : ℕ} {startLoop : ℕ → L} {cb : Bool} {pool : EventLoopThreadPool L}
    (hpool : ((EventLoopThreadPool.new baseLoop).setThreadNum numThreads).start startLoop cb =
      .ok pool) (hstart : Set.InjOn startLoop (Set.Iio numThreads)) (hthreads : 0 < numThreads)
    {user : UserCallbacks} {ls : List (ServerStep L)} {t : ServerLoops L}
    (hrun : ((serverLoops L user).restrict Orderly).Run (.new listenAddr nameArg pool) ls t) :
    t.conns.map LoopConn.ioLoop =
      (List.range t.conns.length).map (fun i => startLoop (i % numThreads)) ∧
    ∀ k, k < numThreads → (t.conns.map LoopConn.ioLoop).count (startLoop k) =
      t.conns.length / numThreads + if k < t.conns.length % numThreads then 1 else 0 := by
  obtain ⟨-, hloops, hnext⟩ := EventLoopThreadPool.start_eq hpool
  have h : t.Inv user pool listenAddr.toIpPort nameArg :=
    ServerLoops.Inv.step.run (.new listenAddr nameArg hnext) hrun
  have hlength : pool.loops.length = numThreads := by
    rw [hloops, List.length_map, List.length_range]
  have hnodup : pool.loops.Nodup := by
    rw [hloops]
    refine List.Nodup.map_on (fun i hi j hj hij => ?_) List.nodup_range
    exact hstart (List.mem_range.mp hi) (List.mem_range.mp hj) hij
  have hloop : ∀ i, pool.loopOf i = startLoop (i % numThreads) := by
    intro i
    simp [EventLoopThreadPool.loopOf, hloops, hthreads.ne']
  have hturns : t.conns.map LoopConn.ioLoop = (List.range t.conns.length).map pool.loopOf := by
    refine List.ext_getElem (by simp) fun i hi hi' => ?_
    rw [List.length_map] at hi
    rw [List.getElem_map, List.getElem_map, List.getElem_range]
    obtain ⟨next, hpool'⟩ := h.pool
    rw [h.spread i _ (List.getElem?_eq_getElem hi), hpool']
    rfl
  refine ⟨hturns.trans (List.map_congr_left fun i _ => hloop i), fun k hk => ?_⟩
  have hk' : k < pool.loops.length := hlength.symm ▸ hk
  have hcount := EventLoopThreadPool.count_loopOf hnodup t.conns.length hk'
  have hget : pool.loops[k] = startLoop k := by simp [hloops]
  rwa [hget, hlength, ← hturns] at hcount

/-- Three connections in two threads. -/
theorem server_spread_two_threads : ∃ pool t,
    ((EventLoopThreadPool.new 0).setThreadNum 2).start (· + 1) false = .ok pool ∧
    ((serverLoops ℕ ⟨true, true, false⟩).restrict Orderly).Run
      (.new (.in4 ![0, 0, 0, 0] 9) [115] pool)
      [.newConnection 7, .newConnection 8, .runFunctor 2, .newConnection 9, .runFunctor 1] t ∧
    t.conns.map LoopConn.ioLoop = [1, 2, 1] := by
  obtain ⟨pool, t, hpool, hrun, hlength⟩ : ∃ pool t,
      ((EventLoopThreadPool.new 0).setThreadNum 2).start (· + 1) false = .ok pool ∧
      ((serverLoops ℕ ⟨true, true, false⟩).restrict Orderly).Run
        (.new (.in4 ![0, 0, 0, 0] 9) [115] pool)
        [.newConnection 7, .newConnection 8, .runFunctor 2, .newConnection 9, .runFunctor 1] t ∧
      t.conns.length = 3 := ⟨_, _, rfl, .of_play rfl, rfl⟩
  have hstart : Set.InjOn (· + 1) (Set.Iio 2) := (add_left_injective 1).injOn
  have hspread := (server_spread hpool hstart two_pos hrun).1
  rw [hlength] at hspread
  exact ⟨pool, t, hpool, hrun, hspread⟩

end Tmuduo
