import Tmuduo.TcpOutput

/-!
# The life of a connection

`tcpLife` is a connection from `connectionEstablished` on, in its loop and in the hands of any
number of threads. `Channel::handleEvent` is a list of tasks (`handlers`) that the loop thread
works off. A task may invoke a user callback; until the next task the loop thread is then in user
code. Other threads may act between any two steps.

`send` is its test of `state_`, and later the `sendInLoop` of the message, which the loop thread
runs from its queue or at once. The lambda that another thread queues owns its message, except that
of `send(const void*, size_t)` : it refers to a local of the call, which may have returned when the
lambda runs. `shutdown` and `forceClose` are the two steps of `TcpWorld.exchange` and
`TcpWorld.finish`. The order in which the queued functors run is left open, and the connection is
taken to be there as long as one of them is queued : those of `send` and `shutdown` do not hold it.

`LifeInv` says that a connection is up or down. `life_callbacks_once` is what follows for every
run in which no `sendInLoop` comes too late : after the call of `send` whose local it refers to, or
past its test of `state_` once the connection is down. `life_down_twice` is a run for each.
-/

set_option autoImplicit false

namespace Tmuduo

def POLLERR : BitVec 32 := 0x008#32

def POLLHUP : BitVec 32 := 0x010#32

def POLLNVAL : BitVec 32 := 0x020#32

def POLLRDHUP : BitVec 32 := 0x2000#32

/-- What the loop thread does for a channel event. `invokeClose` is the call of `closeCallback_`
at the end of `handleClose`. -/
inductive LoopTask
  | close
  | error
  | read
  | write
  | invokeClose
  deriving DecidableEq, Repr

/-- The callbacks of the channel that `handleEventWithguard` calls, in order. -/
def handlers (revents : BitVec 32) : List LoopTask :=
  (if revents &&& POLLHUP ≠ 0 ∧ revents &&& POLLIN = 0 then [.close] else []) ++
    (if revents &&& (POLLERR ||| POLLNVAL) ≠ 0 then [.error] else []) ++
    (if revents &&& (POLLIN ||| POLLPRI ||| POLLRDHUP) ≠ 0 then [.read] else []) ++
    (if revents &&& POLLOUT ≠ 0 then [.write] else [])

/-- `POLLIN` is reported when `POLLPRI` or `POLLRDHUP` comes with `POLLHUP`. -/
def Reportable (revents : BitVec 32) : Prop :=
  revents &&& POLLHUP ≠ 0 → revents &&& (POLLPRI ||| POLLRDHUP) ≠ 0 → revents &&& POLLIN ≠ 0

instance (revents : BitVec 32) : Decidable (Reportable revents) :=
  inferInstanceAs (Decidable (_ → _ → _))

namespace TcpWorld

variable (c : TcpWorld)

/-- `handleClose` up to the connection callback. -/
def goDown : Except TcpAssert TcpWorld := do
  check (c.state = .kConnected ∨ c.state = .kDisconnecting) .handleCloseState
  return { c with
    state := .kDisconnected
    channel := c.channel.disableAll
    callbacks := c.callbacks ++ [.connection false] }

def invokeClose : TcpWorld :=
  { c with callbacks := c.callbacks ++ [.close] }

/-- `handleClose` is its two parts, one after the other. -/
theorem handleClose_eq : c.handleClose = c.goDown.map invokeClose := by
  unfold handleClose goDown check
  split_ifs
  · simp [Except.map, invokeClose]
  · rfl

/-- The second step of the `i`-th call of `shutdown` or `forceClose` that is under way. -/
def finish (i : ℕ) (inLoop : Bool) : TcpWorld :=
  let c' := { c with callers := c.callers.eraseIdx i }
  match c.callers[i]? with
  | some (.shutdown, old) => c'.afterShutdown old inLoop
  | some (.forceClose, old) => c'.afterForceClose old
  | none => c

/-- The loop runs the `i`-th functor. The user's callbacks are further steps. -/
def runFunctor (i : ℕ) : TcpWorld :=
  let c' := { c with pendingFunctors := c.pendingFunctors.eraseIdx i }
  match c.pendingFunctors[i]? with
  | some (.shutdownInLoop _) => c'.shutdownInLoop
  | some .writeComplete => c'
  | some (.highWaterMark _) => c'
  | none => c

end TcpWorld

/-- Where the message of a queued lambda lives : in the lambda, in a `send` that is running
(`borrowed`), or in one that has returned (`dangling`). -/
inductive MessageOwner
  | lambda
  | borrowed
  | dangling
  deriving DecidableEq, Repr

/-- A lambda that calls `sendInLoop`. -/
structure QueuedSend where
  message : Bytes
  owner : MessageOwner
  deriving DecidableEq, Repr

/-- The `send` that queued the lambda returns. -/
def QueuedSend.returned (q : QueuedSend) : QueuedSend :=
  if q.owner = .borrowed then { q with owner := .dangling } else q

/-- A connection, the messages that passed the test of `send` and were not sent, the tasks that
are left of an event, and whether the last one is inside a user callback. `destroyed` :
`connectionDestroyed` has run. -/
structure TcpLife where
  world : TcpWorld
  sends : List QueuedSend
  tasks : List LoopTask
  inCallback : Bool
  destroyed : Bool

/-- The steps of the threads. `sendPointer` is `send(const void*, size_t)` of a thread that is not
the loop's, up to its end, and `returnSend` the end; `send` is any other call of `send`. `runTask`
has what `readFd` and `write` return, if they are called. -/
inductive LifeStep
  | send (message : Bytes)
  | sendPointer (message : Bytes)
  | returnSend (i : ℕ)
  | runSend (i : ℕ) (r : WriteResult)
  | exchange (caller : Caller)
  | finish (i : ℕ) (inLoop : Bool)
  | runFunctor (i : ℕ)
  | dispatch (revents : BitVec 32)
  | runTask (r : ReadResult) (w : WriteResult)
  | connectionDestroyed
  deriving DecidableEq, Repr

namespace TcpLife

/-- A new connection after `connectionEstablished`. -/
def established (sockfd : ℤ) (writeComplete highWater : Bool) (mark : ℕ) : TcpLife where
  world := (TcpRun.established sockfd writeComplete highWater mark).world
  sends := []
  tasks := []
  inCallback := false
  destroyed := false

variable (s : TcpLife)

/-- `send`, up to the lambda. -/
def send (message : Bytes) (owner : MessageOwner) : TcpLife :=
  if s.world.state = .kConnected then { s with sends := s.sends ++ [⟨message, owner⟩] } else s

/-- The lambda of a `send`, once the loop thread calls it. -/
def sendInLoop (q : QueuedSend) (r : WriteResult) : Except TcpAssert TcpWorld := do
  check (q.owner ≠ .dangling) .danglingMessage
  s.world.sendInLoop q.message r

/-- The loop thread is not in the middle of an event, or it is inside a user callback. -/
def UserCode : Prop := s.tasks = [] ∨ s.inCallback = true

instance : Decidable s.UserCode := inferInstanceAs (Decidable (_ ∨ _))

/-- The connection goes down in the loop thread, and `rest` is left of the event. -/
def goDown (rest : List LoopTask) : Except TcpAssert TcpLife := do
  let world ← s.world.goDown
  return { s with world := world, tasks := .invokeClose :: rest, inCallback := true }

/-- The next task of an event, with `rest` after it. -/
def runTask (r : ReadResult) (w : WriteResult) (rest : List LoopTask) :
    LoopTask → Except TcpAssert TcpLife
  | .close => s.goDown rest
  | .error => .ok { s with tasks := rest, inCallback := false }
  | .read =>
    match r with
    | .eof => s.goDown rest
    | .data d => do
      let world ← s.world.handleRead (.data d)
      return { s with world := world, tasks := rest, inCallback := true }
    | .failed => .ok { s with tasks := rest, inCallback := false }
  | .write => .ok { s with world := s.world.handleWrite w, tasks := rest, inCallback := false }
  | .invokeClose => .ok { s with world := s.world.invokeClose, tasks := rest, inCallback := false }

end TcpLife

/-- A connection and its environment : any thread may call `send`, `shutdown` and `forceClose`
at any time, the kernel reports events of a channel with interest, and `connectionDestroyed` is
run once. -/
def tcpLife : Machine TcpLife LifeStep TcpAssert where
  enabled s
    | .send _ => True
    | .sendPointer _ => True
    | .returnSend i => s.sends[i]?.map QueuedSend.owner = some .borrowed
    | .runSend i _ => i < s.sends.length ∧ s.UserCode
    | .exchange _ => True
    | .finish i _ => i < s.world.callers.length
    | .runFunctor i => i < s.world.pendingFunctors.length ∧ s.tasks = []
    | .dispatch revents =>
        s.tasks = [] ∧ s.world.channel.isNoneEvent = false ∧ Reportable revents
    | .runTask _ _ => s.tasks ≠ []
    | .connectionDestroyed => s.destroyed = false ∧ s.UserCode
  exec s
    | .send message => .ok (s.send message .lambda)
    | .sendPointer message => .ok (s.send message .borrowed)
    | .returnSend i => .ok { s with sends := s.sends.modify i QueuedSend.returned }
    | .runSend i r =>
        match s.sends[i]? with
        | some q => do
            let world ← s.sendInLoop q r
            return { s with world := world, sends := s.sends.eraseIdx i }
        | none => .ok s
    | .exchange caller => .ok { s with world := s.world.exchange caller }
    | .finish i inLoop => .ok { s with world := s.world.finish i inLoop }
    | .runFunctor i => .ok { s with world := s.world.runFunctor i }
    | .dispatch revents => .ok { s with tasks := handlers revents, inCallback := false }
    | .runTask r w =>
        match s.tasks with
        | task :: rest => s.runTask r w rest task
        | [] => .ok s
    | .connectionDestroyed => do
        let world ← s.world.connectionDestroyed
        return { s with world := world, destroyed := true }

instance (s : TcpLife) : ∀ l, Decidable (tcpLife.enabled s l)
  | .send _ | .sendPointer _ => isTrue trivial
  | .returnSend i =>
      inferInstanceAs (Decidable (s.sends[i]?.map QueuedSend.owner = some .borrowed))
  | .runSend i _ => inferInstanceAs (Decidable (i < s.sends.length ∧ s.UserCode))
  | .exchange _ => isTrue trivial
  | .finish i _ => inferInstanceAs (Decidable (i < s.world.callers.length))
  | .runFunctor i => inferInstanceAs (Decidable
      (i < s.world.pendingFunctors.length ∧ s.tasks = []))
  | .dispatch revents => inferInstanceAs (Decidable
      (s.tasks = [] ∧ s.world.channel.isNoneEvent = false ∧ Reportable revents))
  | .runTask _ _ => inferInstanceAs (Decidable (s.tasks ≠ []))
  | .connectionDestroyed => inferInstanceAs (Decidable (s.destroyed = false ∧ s.UserCode))

/-! ## What the steps leave alone -/

namespace TcpWorld

variable {c u : TcpWorld}

/-- `u` has the state, the callbacks and the calls under way of `c`. -/
structure Kept (c u : TcpWorld) : Prop where
  state : u.state = c.state
  callbacks : u.callbacks = c.callbacks
  callers : u.callers = c.callers

theorem Kept.refl (c : TcpWorld) : Kept c c := ⟨rfl, rfl, rfl⟩

theorem Kept.trans {v : TcpWorld} (h : Kept c u) (h' : Kept u v) : Kept c v :=
  ⟨h'.state.trans h.state, h'.callbacks.trans h.callbacks, h'.callers.trans h.callers⟩

theorem directWrite_kept (c : TcpWorld) (message : Bytes) (r : WriteResult) :
    Kept c (c.directWrite message r).1 := by
  cases r with
  | wrote n => constructor <;> simp [directWrite]
  | failed e => exact .refl c

theorem bufferRest_kept (c : TcpWorld) (message : Bytes) (remaining : ℕ) :
    Kept c (c.bufferRest message remaining) := by
  constructor <;> simp [bufferRest]

theorem sendInLoop_kept {message : Bytes} {r : WriteResult}
    (h : c.sendInLoop message r = .ok u) :
    Kept c u ∧ (c.state = .kDisconnected → u = c) := by
  by_cases hstate : c.state = .kDisconnected
  · rw [sendInLoop, if_pos hstate] at h
    obtain rfl := Except.ok.inj h
    exact ⟨.refl _, fun _ => rfl⟩
  · refine ⟨?_, fun hdown => absurd hdown hstate⟩
    rw [sendInLoop, if_neg hstate] at h
    have hkept : Kept c
        (if c.idle then c.directWrite message r else (c, message.length, false)).1 := by
      split_ifs
      · exact c.directWrite_kept message r
      · exact .refl c
    generalize (if c.idle then c.directWrite message r else (c, message.length, false)) = p
      at h hkept
    obtain ⟨c₁, remaining, error⟩ := p
    obtain ⟨-, h⟩ := check_bind_eq_ok_iff.mp h
    split_ifs at h
    · obtain rfl := Except.ok.inj h
      exact hkept.trans (c₁.bufferRest_kept message remaining)
    · obtain rfl := Except.ok.inj h
      exact hkept

theorem sendInLoop_total (c : TcpWorld) (message : Bytes) (r : WriteResult) :
    ∃ u, c.sendInLoop message r = .ok u := by
  by_cases hstate : c.state = .kDisconnected
  · exact ⟨c, if_pos hstate⟩
  · rw [sendInLoop, if_neg hstate]
    have hle : (if c.idle then c.directWrite message r
        else (c, message.length, false)).2.1 ≤ message.length := by
      split_ifs
      · cases r <;> simp [directWrite]
      · exact le_rfl
    generalize (if c.idle then c.directWrite message r else (c, message.length, false)) = p
      at hle
    obtain ⟨c₁, remaining, error⟩ := p
    simp only [check_of _ hle, ok_bind]
    split_ifs <;> exact ⟨_, rfl⟩

theorem outputEmptied_kept (c : TcpWorld) : Kept c c.outputEmptied := by
  unfold outputEmptied
  constructor <;> (simp only; split_ifs <;> simp)

theorem handleWrite_kept (c : TcpWorld) (w : WriteResult) :
    Kept c (c.handleWrite w) ∧ (c.channel.isWriting = false → c.handleWrite w = c) := by
  refine ⟨?_, fun hidle => by simp [handleWrite, hidle]⟩
  unfold handleWrite
  split_ifs
  · split
    · simp only
      split_ifs
      · have hretrieve : ∀ n, Kept c (c.retrieveOutput n) := fun n => ⟨rfl, rfl, rfl⟩
        exact (hretrieve _).trans (outputEmptied_kept _)
      · exact ⟨rfl, rfl, rfl⟩
    · exact .refl c
    · exact .refl c
  · exact .refl c

theorem runFunctor_kept (c : TcpWorld) (i : ℕ) :
    Kept c (c.runFunctor i) ∧ (c.runFunctor i).channel = c.channel := by
  unfold runFunctor
  split
  · refine ⟨⟨?_, ?_, ?_⟩, ?_⟩ <;> simp
  · exact ⟨⟨rfl, rfl, rfl⟩, rfl⟩
  · exact ⟨⟨rfl, rfl, rfl⟩, rfl⟩
  · exact ⟨.refl c, rfl⟩

/-- A call that ends leaves the state alone, or is a `forceClose` that puts the old state back. -/
theorem finish_cases (c : TcpWorld) (i : ℕ) (inLoop : Bool) :
    (c.finish i inLoop).callbacks = c.callbacks ∧ (c.finish i inLoop).channel = c.channel ∧
    (∀ call ∈ (c.finish i inLoop).callers, call ∈ c.callers) ∧
    ((c.finish i inLoop).state = c.state ∨ ∃ call ∈ c.callers,
      call.2 ≠ .kConnected ∧ call.2 ≠ .kDisconnecting ∧ (c.finish i inLoop).state = call.2) := by
  have hsub : ∀ call ∈ c.callers.eraseIdx i, call ∈ c.callers := fun call hmem =>
    List.mem_of_mem_eraseIdx hmem
  unfold finish
  split
  · unfold afterShutdown
    split_ifs <;> exact ⟨by simp, by simp, by simpa using hsub, .inl (by simp)⟩
  · next old hcall =>
    unfold afterForceClose
    split_ifs with hold
    · exact ⟨by simp, by simp, by simpa using hsub, .inl (by simp)⟩
    · obtain ⟨hne, hne'⟩ := not_or.mp hold
      exact ⟨rfl, rfl, hsub, .inr ⟨_, List.mem_of_getElem? hcall, hne, hne', rfl⟩⟩
  · exact ⟨rfl, rfl, fun _ h => h, .inl rfl⟩

theorem connectionDestroyed_connected (h : c.state = .kConnected) :
    c.connectionDestroyed = .ok { c with
      state := .kDisconnected
      channel := { c.channel.disableAll with addedToLoop := false }
      callbacks := c.callbacks ++ [.connection false] } := by
  simp [connectionDestroyed, h]
  rfl

/-- A connection that is not connected is only removed, and that it has interest is an error. -/
theorem connectionDestroyed_eq_ok_iff (h : c.state ≠ .kConnected) :
    c.connectionDestroyed = .ok u ↔ c.channel.isNoneEvent = true ∧
      u = { c with channel := { c.channel with addedToLoop := false } } := by
  unfold connectionDestroyed
  simp only [if_neg h, Channel.remove]
  by_cases hnone : c.channel.isNoneEvent = true
  · simp [hnone, Except.mapError, eq_comm]
  · simp [hnone, check, Except.mapError]
    rintro ⟨⟩

theorem connectionDestroyed_ne (c : TcpWorld) :
    c.connectionDestroyed ≠ .error .handleCloseState := by
  by_cases hstate : c.state = .kConnected
  · rw [connectionDestroyed_connected hstate]
    rintro ⟨⟩
  · by_cases hnone : c.channel.isNoneEvent = true
    · rw [(connectionDestroyed_eq_ok_iff hstate).mpr ⟨hnone, rfl⟩]
      rintro ⟨⟩
    · simp [connectionDestroyed, hstate, Channel.remove, hnone, check, Except.mapError]
      rintro ⟨⟩

end TcpWorld

namespace TcpLife

variable {s : TcpLife}

/-- `send` changes what is queued and nothing else. -/
theorem send_eq (message : Bytes) (owner : MessageOwner) :
    ∃ sends, s.send message owner = { s with sends := sends } := by
  unfold send
  split_ifs
  · exact ⟨_, rfl⟩
  · exact ⟨s.sends, rfl⟩

theorem sendInLoop_eq_ok_iff {q : QueuedSend} {r : WriteResult} {w : TcpWorld} :
    s.sendInLoop q r = .ok w ↔ q.owner ≠ .dangling ∧ s.world.sendInLoop q.message r = .ok w :=
  check_bind_eq_ok_iff

end TcpLife

/-! ## Up and down -/

theorem StateE.eq_kDisconnected {state : StateE} (hconnecting : state ≠ .kConnecting)
    (hconnected : state ≠ .kConnected) (hdisconnecting : state ≠ .kDisconnecting) :
    state = .kDisconnected := by
  cases state <;> first | rfl | contradiction

/-- The tasks of one event, in order. The close and the read callback are not both called. -/
structure EventTasks (tasks : List LoopTask) : Prop where
  sublist : List.Sublist tasks [.close, .error, .read, .write]
  exclusive : .close ∈ tasks → .read ∉ tasks

theorem close_mem_handlers {revents : BitVec 32} :
    .close ∈ handlers revents ↔ revents &&& POLLHUP ≠ 0 ∧ revents &&& POLLIN = 0 := by
  simp [handlers]

theorem read_mem_handlers {revents : BitVec 32} :
    .read ∈ handlers revents ↔ revents &&& (POLLIN ||| POLLPRI ||| POLLRDHUP) ≠ 0 := by
  simp [handlers]

theorem handlers_eventTasks {revents : BitVec 32} (h : Reportable revents) :
    EventTasks (handlers revents) := by
  have hif : ∀ {p : Prop} [Decidable p] {task : LoopTask},
      List.Sublist (if p then [task] else []) [task] := by
    intro p _ task
    split_ifs <;> simp
  refine ⟨((hif.append hif).append hif).append hif, fun hclose hread => ?_⟩
  obtain ⟨hhup, hin⟩ := close_mem_handlers.mp hclose
  refine h hhup (fun hnone => read_mem_handlers.mp hread ?_) hin
  rw [BitVec.or_assoc, BitVec.and_or_distrib_left, hin, hnone]
  decide

theorem EventTasks.tail {task : LoopTask} {rest : List LoopTask} (h : EventTasks (task :: rest)) :
    EventTasks rest :=
  ⟨(List.sublist_cons_self task rest).trans h.sublist, fun hclose hread =>
    h.exclusive (List.mem_cons_of_mem task hclose) (List.mem_cons_of_mem task hread)⟩

/-- Nothing but the write callback comes after the read callback. -/
theorem EventTasks.after_read {rest : List LoopTask} (h : EventTasks (.read :: rest)) :
    ∀ task ∈ rest, task = .write := by
  have hsub := h.sublist
  simp only [List.cons_sublist_cons', reduceCtorEq, false_and, or_false, true_and,
    List.sublist_nil, false_or] at hsub
  exact fun task hmem => List.mem_singleton.mp (hsub.subset hmem)

/-- The error and the write callback may come after the close callback. -/
theorem EventTasks.after_close {rest : List LoopTask} (h : EventTasks (.close :: rest)) :
    ∀ task ∈ rest, task = .error ∨ task = .write := by
  intro task hmem
  have hread := h.exclusive List.mem_cons_self
  have hone : task = .error ∨ task = .read ∨ task = .write := by
    simpa using h.sublist.tail.subset hmem
  rcases hone with herror | rfl | hwrite
  · exact .inl herror
  · exact absurd (List.mem_cons_of_mem _ hmem) hread
  · exact .inr hwrite

/-- A connection whose DOWN callback has not been invoked. -/
structure IsUp (s : TcpLife) : Prop where
  state : s.world.state = .kConnected ∨ s.world.state = .kDisconnecting
  callers : ∀ call ∈ s.world.callers, call.2 = .kConnected ∨ call.2 = .kDisconnecting
  down : .connection false ∉ s.world.callbacks
  close : .close ∉ s.world.callbacks
  tasks : EventTasks s.tasks
  inCallback : s.inCallback = true → ∀ task ∈ s.tasks, task = .write

/-- A connection whose DOWN callback has been invoked : the channel has no interest, and nothing
that is left to do goes down again. -/
structure IsDown (s : TcpLife) : Prop where
  state : s.world.state = .kDisconnected ∨ s.world.state = .kDisconnecting
  callers : ∀ call ∈ s.world.callers, call.2 ≠ .kConnecting
  channel : s.world.channel.events = 0
  down : ∃ pre post, s.world.callbacks = pre ++ .connection false :: post ∧
    .connection false ∉ pre ∧ .connection false ∉ post ∧ .message ∉ post
  close : s.world.callbacks.count .close + s.tasks.count .invokeClose ≤ 1
  tasks : ∀ task ∈ s.tasks, task = .error ∨ task = .write ∨ task = .invokeClose

/-- What every step keeps. -/
def LifeInv (s : TcpLife) : Prop := IsUp s ∨ IsDown s

namespace IsUp

variable {s u : TcpLife}

theorem established (sockfd : ℤ) (writeComplete highWater : Bool) (mark : ℕ) :
    IsUp (.established sockfd writeComplete highWater mark) where
  state := .inl rfl
  callers := by simp [TcpLife.established, TcpRun.established, TcpWorld.new]
  down := by simp [TcpLife.established, TcpRun.established]
  close := by simp [TcpLife.established, TcpRun.established]
  tasks := ⟨List.nil_sublist _, fun h => by simp [TcpLife.established] at h⟩
  inCallback h := by simp [TcpLife.established] at h

/-- A step that keeps the state, the callbacks, the calls under way and the tasks. -/
theorem kept (h : IsUp s) (hworld : s.world.Kept u.world) (htasks : u.tasks = s.tasks)
    (hcallback : u.inCallback = s.inCallback) : IsUp u where
  state := by rw [hworld.state]; exact h.state
  callers := by rw [hworld.callers]; exact h.callers
  down := by rw [hworld.callbacks]; exact h.down
  close := by rw [hworld.callbacks]; exact h.close
  tasks := by rw [htasks]; exact h.tasks
  inCallback := by rw [htasks, hcallback]; exact h.inCallback

/-- A task that keeps the state, the callbacks and the calls under way. -/
theorem next {task : LoopTask} {rest : List LoopTask} (h : IsUp s) (hs : s.tasks = task :: rest)
    (hworld : s.world.Kept u.world) (htasks : u.tasks = rest) (hcallback : u.inCallback = false) :
    IsUp u where
  state := by rw [hworld.state]; exact h.state
  callers := by rw [hworld.callers]; exact h.callers
  down := by rw [hworld.callbacks]; exact h.down
  close := by rw [hworld.callbacks]; exact h.close
  tasks := by
    rw [htasks]
    exact EventTasks.tail (by rw [← hs]; exact h.tasks)
  inCallback hin := by simp [hcallback] at hin

theorem exchange (h : IsUp s) (caller : Caller) :
    IsUp { s with world := s.world.exchange caller } where
  state := .inr rfl
  callers call hcall := by
    rcases List.mem_append.mp hcall with hcall | hcall
    · exact h.callers call hcall
    · rw [List.mem_singleton.mp hcall]
      exact h.state
  down := h.down
  close := h.close
  tasks := h.tasks
  inCallback := h.inCallback

theorem finish (h : IsUp s) (i : ℕ) (inLoop : Bool) :
    IsUp { s with world := s.world.finish i inLoop } := by
  obtain ⟨hcallbacks, -, hcallers, hstate⟩ := s.world.finish_cases i inLoop
  refine ⟨?_, fun call hcall => h.callers call (hcallers call hcall), ?_, ?_, h.tasks,
    h.inCallback⟩
  · rcases hstate with hstate | ⟨call, hcall, hne, hne', -⟩
    · rw [hstate]
      exact h.state
    · exact absurd (h.callers call hcall) (not_or.mpr ⟨hne, hne'⟩)
  · rw [hcallbacks]
    exact h.down
  · rw [hcallbacks]
    exact h.close

/-- The connection goes down, and what is left to do does not go down again. -/
theorem goDown (h : IsUp s) (hstate : u.world.state = .kDisconnected)
    (hchannel : u.world.channel.events = 0) (hcallers : u.world.callers = s.world.callers)
    (hcallbacks : u.world.callbacks = s.world.callbacks ++ [.connection false])
    (hclose : u.tasks.count .invokeClose ≤ 1)
    (htasks : ∀ task ∈ u.tasks, task = .error ∨ task = .write ∨ task = .invokeClose) :
    IsDown u := by
  refine ⟨.inl hstate, fun call hcall => ?_, hchannel, ⟨_, [], hcallbacks, h.down, by simp,
    by simp⟩, ?_, htasks⟩
  · rw [hcallers] at hcall
    rcases h.callers call hcall with hold | hold <;> simp [hold]
  · rw [hcallbacks, List.count_append, List.count_eq_zero_of_not_mem h.close]
    simpa using hclose

/-- A callback that goes down, as the first of the tasks. -/
theorem goDown_exec {rest : List LoopTask} (h : IsUp s)
    (hrest : ∀ task ∈ rest, task = .error ∨ task = .write) :
    ∃ u, s.goDown rest = .ok u ∧ IsDown u := by
  refine ⟨_, by simp [TcpLife.goDown, TcpWorld.goDown, h.state]; rfl, ?_⟩
  refine h.goDown rfl rfl rfl rfl ?_ ?_
  · have hnone : .invokeClose ∉ rest := fun hmem => by
      rcases hrest _ hmem with h | h <;> cases h
    simp [List.count_eq_zero_of_not_mem hnone]
  · intro task hmem
    rcases List.mem_cons.mp hmem with hclose | hmem
    · exact .inr (.inr hclose)
    · rcases hrest task hmem with herror | hwrite
      · exact .inl herror
      · exact .inr (.inl hwrite)

theorem runTask (h : IsUp s) {task : LoopTask} {rest : List LoopTask} (hs : s.tasks = task :: rest)
    (r : ReadResult) (w : WriteResult) :
    ∃ u, s.runTask r w rest task = .ok u ∧ (IsUp u ∨ IsDown u) := by
  have htasks := h.tasks
  rw [hs] at htasks
  cases task with
  | close =>
    obtain ⟨u, hu, hdown⟩ := h.goDown_exec htasks.after_close
    exact ⟨u, hu, .inr hdown⟩
  | error => exact ⟨_, rfl, .inl (h.next hs (.refl _) rfl rfl)⟩
  | read =>
    cases r with
    | eof =>
      obtain ⟨u, hu, hdown⟩ := h.goDown_exec
        fun task hmem => .inr (htasks.after_read task hmem)
      exact ⟨u, hu, .inr hdown⟩
    | failed => exact ⟨_, rfl, .inl (h.next hs (.refl _) rfl rfl)⟩
    | data d =>
      refine ⟨_, rfl, .inl ⟨h.state, h.callers, ?_, ?_, htasks.tail, fun _ => htasks.after_read⟩⟩
      · simpa using h.down
      · simpa using h.close
  | write =>
    exact ⟨_, rfl, .inl (h.next hs (s.world.handleWrite_kept w).1 rfl rfl)⟩
  | invokeClose =>
    have hmem := htasks.sublist.subset List.mem_cons_self
    simp at hmem

/-- `connectionDestroyed` takes a connected connection down. -/
theorem connectionDestroyed (h : IsUp s) (hcode : s.UserCode) {w : TcpWorld}
    (hw : s.world.connectionDestroyed = .ok w) :
    LifeInv { s with world := w, destroyed := true } := by
  have hwrite : ∀ task ∈ s.tasks, task = .write := by
    rcases hcode with hnil | hin
    · simp [hnil]
    · exact h.inCallback hin
  rcases h.state with hstate | hstate
  · obtain rfl := Except.ok.inj (hw.symm.trans (TcpWorld.connectionDestroyed_connected hstate))
    refine .inr (h.goDown rfl rfl rfl rfl ?_ fun task hmem => .inr (.inl (hwrite task hmem)))
    rw [List.count_eq_zero_of_not_mem fun hmem => by cases hwrite _ hmem]
    exact Nat.zero_le 1
  · obtain ⟨-, rfl⟩ := (TcpWorld.connectionDestroyed_eq_ok_iff (by simp [hstate])).mp hw
    exact .inl (h.kept ⟨rfl, rfl, rfl⟩ rfl rfl)

theorem step {l : LifeStep} (h : IsUp s) (he : tcpLife.enabled s l)
    (hx : tcpLife.exec s l = .ok u) : LifeInv u := by
  cases l with
  | send message | sendPointer message =>
    obtain rfl := Except.ok.inj hx
    obtain ⟨sends, heq⟩ := s.send_eq message _
    rw [heq]
    exact .inl (h.kept (.refl _) rfl rfl)
  | returnSend i =>
    obtain rfl := Except.ok.inj hx
    exact .inl (h.kept (.refl _) rfl rfl)
  | runSend i r =>
    simp only [tcpLife] at hx
    split at hx
    · obtain ⟨w, hsend, rfl⟩ := bind_pure_eq_ok_iff.mp hx
      obtain ⟨-, hsend⟩ := TcpLife.sendInLoop_eq_ok_iff.mp hsend
      exact .inl (h.kept (TcpWorld.sendInLoop_kept hsend).1 rfl rfl)
    · obtain rfl := Except.ok.inj hx
      exact .inl h
  | exchange caller =>
    obtain rfl := Except.ok.inj hx
    exact .inl (h.exchange caller)
  | finish i inLoop =>
    obtain rfl := Except.ok.inj hx
    exact .inl (h.finish i inLoop)
  | runFunctor i =>
    obtain rfl := Except.ok.inj hx
    exact .inl (h.kept (s.world.runFunctor_kept i).1 rfl rfl)
  | dispatch revents =>
    obtain rfl := Except.ok.inj hx
    exact .inl ⟨h.state, h.callers, h.down, h.close, handlers_eventTasks he.2.2,
      fun hin => by simp at hin⟩
  | runTask r w =>
    simp only [tcpLife] at hx
    split at hx
    · next task rest hs =>
      obtain ⟨v, hv, hinv⟩ := h.runTask hs r w
      obtain rfl := Except.ok.inj (hx.symm.trans hv)
      exact hinv
    · obtain rfl := Except.ok.inj hx
      exact .inl h
  | connectionDestroyed =>
    obtain ⟨w, hw, rfl⟩ := bind_pure_eq_ok_iff.mp hx
    exact h.connectionDestroyed he.2 hw

end IsUp

/-- No `sendInLoop` gets past its test of `state_` once the DOWN callback has been invoked, or is
called when the `send` that has its message has returned. -/
def NoLateSend (s : TcpLife) : LifeStep → Prop
  | .runSend i _ => (.connection false ∈ s.world.callbacks → s.world.state = .kDisconnected) ∧
      s.sends[i]?.map QueuedSend.owner ≠ some .dangling
  | _ => True

instance (s : TcpLife) : ∀ l, Decidable (NoLateSend s l)
  | .runSend i _ => inferInstanceAs (Decidable
      ((.connection false ∈ s.world.callbacks → s.world.state = .kDisconnected) ∧
        s.sends[i]?.map QueuedSend.owner ≠ some .dangling))
  | .send _ | .sendPointer _ | .returnSend _ | .exchange _ | .finish _ _ | .runFunctor _
  | .dispatch _ | .runTask _ _ | .connectionDestroyed => isTrue trivial

namespace IsDown

variable {s u : TcpLife}

/-- A step that keeps the state, the callbacks, the calls under way and the channel's mask. -/
theorem kept (h : IsDown s) (hworld : s.world.Kept u.world)
    (hchannel : u.world.channel.events = s.world.channel.events)
    (hsub : List.Sublist u.tasks s.tasks) : IsDown u where
  state := by rw [hworld.state]; exact h.state
  callers := by rw [hworld.callers]; exact h.callers
  channel := hchannel.trans h.channel
  down := by rw [hworld.callbacks]; exact h.down
  close := by
    have hcount := hsub.count_le .invokeClose
    rw [hworld.callbacks]
    exact (Nat.add_le_add_left hcount _).trans h.close
  tasks task hmem := h.tasks task (hsub.subset hmem)

theorem exchange (h : IsDown s) (caller : Caller) :
    IsDown { s with world := s.world.exchange caller } where
  state := .inr rfl
  callers call hcall := by
    rcases List.mem_append.mp hcall with hcall | hcall
    · exact h.callers call hcall
    · rw [List.mem_singleton.mp hcall]
      rcases h.state with hstate | hstate <;> simp [hstate]
  channel := h.channel
  down := h.down
  close := h.close
  tasks := h.tasks

theorem finish (h : IsDown s) (i : ℕ) (inLoop : Bool) :
    IsDown { s with world := s.world.finish i inLoop } := by
  obtain ⟨hcallbacks, hchannel, hcallers, hstate⟩ := s.world.finish_cases i inLoop
  refine ⟨?_, fun call hcall => h.callers call (hcallers call hcall), ?_, ?_, ?_, h.tasks⟩
  · rcases hstate with hstate | ⟨call, hcall, hne, hne', hstate⟩
    · rw [hstate]
      exact h.state
    · rw [hstate]
      exact .inl (StateE.eq_kDisconnected (h.callers call hcall) hne hne')
  · rw [hchannel]
    exact h.channel
  · rw [hcallbacks]
    exact h.down
  · rw [hcallbacks]
    exact h.close

theorem runTask (h : IsDown s) {task : LoopTask} {rest : List LoopTask}
    (hs : s.tasks = task :: rest) (r : ReadResult) (w : WriteResult) :
    ∃ u, s.runTask r w rest task = .ok u ∧ IsDown u := by
  have hsub : List.Sublist rest s.tasks := by
    rw [hs]
    exact List.sublist_cons_self task rest
  have htask : task ∈ s.tasks := by
    rw [hs]
    exact List.mem_cons_self
  rcases h.tasks task htask with rfl | rfl | rfl
  · exact ⟨_, rfl, h.kept (.refl _) rfl hsub⟩
  · have hidle : s.world.channel.isWriting = false := by simp [Channel.isWriting, h.channel]
    have hsame := (s.world.handleWrite_kept w).2 hidle
    refine ⟨_, rfl, h.kept ?_ ?_ hsub⟩
    · simpa only [hsame] using TcpWorld.Kept.refl s.world
    · simp only [hsame]
  · obtain ⟨pre, post, hcallbacks, hpre, hpost, hmessage⟩ := h.down
    have hclose := h.close
    rw [hs, List.count_cons_self] at hclose
    refine ⟨_, rfl, h.state, h.callers, h.channel, ⟨pre, post ++ [.close], ?_, hpre, ?_, ?_⟩, ?_,
      fun task hmem => h.tasks task (hsub.subset hmem)⟩
    · simp [TcpWorld.invokeClose, hcallbacks]
    · simpa using hpost
    · simpa using hmessage
    · simp only [TcpWorld.invokeClose, List.count_append, List.count_singleton_self]
      omega

theorem step {l : LifeStep} (h : IsDown s) (he : (tcpLife.restrict NoLateSend).enabled s l)
    (hx : tcpLife.exec s l = .ok u) : IsDown u := by
  obtain ⟨he, hlate⟩ := he
  cases l with
  | send message | sendPointer message =>
    obtain rfl := Except.ok.inj hx
    obtain ⟨sends, heq⟩ := s.send_eq message _
    rw [heq]
    exact h.kept (.refl _) rfl (List.Sublist.refl _)
  | returnSend i =>
    obtain rfl := Except.ok.inj hx
    exact h.kept (.refl _) rfl (List.Sublist.refl _)
  | runSend i r =>
    have hdown : s.world.state = .kDisconnected := by
      obtain ⟨pre, post, hcallbacks, -⟩ := h.down
      exact hlate.1 (by simp [hcallbacks])
    simp only [tcpLife] at hx
    split at hx
    · obtain ⟨w, hsend, rfl⟩ := bind_pure_eq_ok_iff.mp hx
      obtain ⟨-, hsend⟩ := TcpLife.sendInLoop_eq_ok_iff.mp hsend
      obtain rfl := (TcpWorld.sendInLoop_kept hsend).2 hdown
      exact h.kept (.refl _) rfl (List.Sublist.refl _)
    · obtain rfl := Except.ok.inj hx
      exact h
  | exchange caller =>
    obtain rfl := Except.ok.inj hx
    exact h.exchange caller
  | finish i inLoop =>
    obtain rfl := Except.ok.inj hx
    exact h.finish i inLoop
  | runFunctor i =>
    obtain rfl := Except.ok.inj hx
    obtain ⟨hkept, hchannel⟩ := s.world.runFunctor_kept i
    exact h.kept hkept (congrArg Channel.events hchannel) (List.Sublist.refl _)
  | dispatch revents =>
    have hnone : s.world.channel.isNoneEvent = true := beq_iff_eq.mpr h.channel
    exact absurd (hnone.symm.trans he.2.1) (by decide)
  | runTask r w =>
    simp only [tcpLife] at hx
    split at hx
    · next task rest hs =>
      obtain ⟨v, hv, hdown⟩ := h.runTask hs r w
      obtain rfl := Except.ok.inj (hx.symm.trans hv)
      exact hdown
    · obtain rfl := Except.ok.inj hx
      exact h
  | connectionDestroyed =>
    obtain ⟨w, hw, rfl⟩ := bind_pure_eq_ok_iff.mp hx
    have hne : s.world.state ≠ .kConnected := by
      rcases h.state with hstate | hstate <;> simp [hstate]
    obtain ⟨-, rfl⟩ := (TcpWorld.connectionDestroyed_eq_ok_iff hne).mp hw
    exact h.kept ⟨rfl, rfl, rfl⟩ rfl (List.Sublist.refl _)

end IsDown

/-! ## Every run -/

namespace LifeInv

variable {s u : TcpLife} {l : LifeStep}

theorem step (h : LifeInv s) (he : (tcpLife.restrict NoLateSend).enabled s l)
    (hx : tcpLife.exec s l = .ok u) : LifeInv u := by
  rcases h with hup | hdown
  · exact hup.step he.1 hx
  · exact .inr (hdown.step he hx)

/-- The assertion of `handleClose` does not fail. -/
theorem exec_ne (h : LifeInv s) : tcpLife.exec s l ≠ .error .handleCloseState := by
  intro hx
  cases l with
  | runTask r w =>
    simp only [tcpLife] at hx
    split at hx
    · next task rest hs =>
      rcases h with hup | hdown
      · obtain ⟨v, hv, -⟩ := hup.runTask hs r w
        exact absurd (hv.symm.trans hx) (by rintro ⟨⟩)
      · obtain ⟨v, hv, -⟩ := hdown.runTask hs r w
        exact absurd (hv.symm.trans hx) (by rintro ⟨⟩)
    · cases hx
  | runSend i r =>
    simp only [tcpLife] at hx
    split at hx
    · next q _ =>
      obtain ⟨w, hw⟩ := s.world.sendInLoop_total q.message r
      by_cases hq : q.owner = .dangling
      · simp [TcpLife.sendInLoop, hq] at hx
        cases hx
      · simp only [TcpLife.sendInLoop, check_of _ hq, hw, ok_bind] at hx
        cases hx
    · cases hx
  | connectionDestroyed =>
    cases hw : s.world.connectionDestroyed with
    | ok w =>
      simp only [tcpLife, hw, ok_bind] at hx
      cases hx
    | error e =>
      have hne := s.world.connectionDestroyed_ne
      simp only [tcpLife, hw] at hx hne
      cases hx
      exact hne rfl
  | _ => cases hx

end LifeInv

/-- What the user sees of a connection : it goes down at most once, is closed at most once, and no
message comes after it went down. -/
structure CallbacksOnce (callbacks : List TcpCallback) : Prop where
  down : callbacks.count (.connection false) ≤ 1
  close : callbacks.count .close ≤ 1
  message : ∀ pre post, callbacks = pre ++ .connection false :: post → .message ∉ post

theorem LifeInv.callbacksOnce {s : TcpLife} (h : LifeInv s) : CallbacksOnce s.world.callbacks := by
  rcases h with hup | hdown
  · have hzero : s.world.callbacks.count (.connection false) = 0 :=
      List.count_eq_zero_of_not_mem hup.down
    have hclose : s.world.callbacks.count .close = 0 := List.count_eq_zero_of_not_mem hup.close
    refine ⟨by omega, by omega, fun pre post heq => ?_⟩
    exact absurd (by simp [heq]) hup.down
  · obtain ⟨pre, post, hcallbacks, hpre, hpost, hmessage⟩ := hdown.down
    have hclose := hdown.close
    refine ⟨?_, by omega, fun pre' post' heq => ?_⟩
    · rw [hcallbacks, List.count_append, List.count_cons_self,
        List.count_eq_zero_of_not_mem hpre, List.count_eq_zero_of_not_mem hpost]
    · obtain ⟨-, -, rfl⟩ :=
        (List.append_cons_inj_of_notMem hpre hpost).mp (hcallbacks.symm.trans heq)
      exact hmessage

/-- From `connectionEstablished` on, in every run in which no `sendInLoop` gets past its test of
`state_` after the DOWN callback, or comes after the `send` that has its message, the connection
callback is invoked with `connected()` false at most once, `closeCallback_` is invoked at most
once, no message callback comes after the DOWN callback, and the assertion of `handleClose` does
not fail. -/
theorem life_callbacks_once {sockfd : ℤ} {writeComplete highWater : Bool} {mark : ℕ}
    {ls : List LifeStep} {t : TcpLife} (hrun : (tcpLife.restrict NoLateSend).Run
      (.established sockfd writeComplete highWater mark) ls t) :
    CallbacksOnce t.world.callbacks ∧
      ∀ l, tcpLife.enabled t l → tcpLife.exec t l ≠ .error .handleCloseState := by
  have h : LifeInv t := hrun.invariant
    (.inl (.established sockfd writeComplete highWater mark)) fun _ _ _ hs he hx => hs.step he hx
  exact ⟨h.callbacksOnce, fun l _ => h.exec_ne⟩

/-- A connection that receives and sends a message, sends another one for a thread that waits inside
`send`, reads an end of file, is asked to close inside the DOWN callback, and is destroyed. -/
theorem life_callbacks_once_echo : ∃ t, (tcpLife.restrict NoLateSend).Run
      (.established 7 false false 64)
      [.dispatch POLLIN, .runTask (.data [97]) (.wrote 0), .send [97], .runSend 0 (.wrote 1),
        .sendPointer [98], .runSend 0 (.wrote 1), .dispatch (POLLIN ||| POLLRDHUP),
        .runTask .eof (.wrote 0), .exchange .forceClose, .finish 0 true, .runTask .eof (.wrote 0),
        .connectionDestroyed] t ∧
    t.world.callbacks = [.connection true, .message, .connection false, .close] ∧
    CallbacksOnce t.world.callbacks := by
  have hrun : (tcpLife.restrict NoLateSend).Run (.established 7 false false 64)
      [.dispatch POLLIN, .runTask (.data [97]) (.wrote 0), .send [97], .runSend 0 (.wrote 1),
        .sendPointer [98], .runSend 0 (.wrote 1), .dispatch (POLLIN ||| POLLRDHUP),
        .runTask .eof (.wrote 0), .exchange .forceClose, .finish 0 true, .runTask .eof (.wrote 0),
        .connectionDestroyed] _ := .of_play rfl
  exact ⟨_, hrun, rfl, (life_callbacks_once hrun).1⟩

/-- Another thread sends, the peer hangs up, and the user calls `shutdown()` inside the DOWN
callback, which sets `state_` back to `kDisconnecting`. So the send that is still queued turns on
writing, and the next event takes the connection down and closes it once more. And another thread
sends what it points to, and `send` returns before the loop runs the lambda. -/
theorem life_down_twice :
    (∃ t, tcpLife.Run (.established 7 false false 64)
      [.send [97], .dispatch POLLHUP, .runTask .eof (.wrote 0), .exchange .shutdown,
        .finish 0 true, .runTask .eof (.wrote 0), .runSend 0 (.failed .other),
        .dispatch (POLLHUP ||| POLLOUT), .runTask .eof (.wrote 0), .runTask .eof (.wrote 0)] t ∧
      t.world.callbacks =
        [.connection true, .connection false, .close, .connection false, .close] ∧
      ¬CallbacksOnce t.world.callbacks) ∧
    ∃ t, tcpLife.Run (.established 7 false false 64) [.sendPointer [97], .returnSend 0] t ∧
      tcpLife.enabled t (.runSend 0 (.wrote 1)) ∧
      tcpLife.exec t (.runSend 0 (.wrote 1)) = .error .danglingMessage := by
  have hrun : tcpLife.Run (.established 7 false false 64)
      [.send [97], .dispatch POLLHUP, .runTask .eof (.wrote 0), .exchange .shutdown,
        .finish 0 true, .runTask .eof (.wrote 0), .runSend 0 (.failed .other),
        .dispatch (POLLHUP ||| POLLOUT), .runTask .eof (.wrote 0), .runTask .eof (.wrote 0)] _ :=
    .of_play rfl
  exact ⟨⟨_, hrun, rfl, fun honce => absurd honce.down (by decide)⟩,
    _, .of_play rfl, by decide, rfl⟩

end Tmuduo
