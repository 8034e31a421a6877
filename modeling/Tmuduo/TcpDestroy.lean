import Tmuduo.EPollPoller
import Tmuduo.TcpLifecycle

/-!
# Destroying a connection

`polledLife i` is a connection whose channel is the channel `i` of a loop with an `EPollPoller`.
Each step of the connection makes the calls on its channel that `TcpLife.channelCalls` lists, and
the other channels of the loop are used in between. The loop polls, handles the active channels one
after the other (`EventBatch`), and then runs its functors.

`connectionDestroyed` takes the interest of the channel back only when the connection is
connected, and `EventLoop::removeChannel` asserts that the channel is the current one or not among
the active ones. A functor runs when no events are handled, but the destructor of a server calls
`connectionDestroyed` at once, in whatever handler it runs. `connectionDestroyed_ok_iff` says when
it succeeds, in every state that a run reaches, and `shutdown_then_destroyed` is a connection that
is shutting down, and one that another handler of its batch destroys.
-/

set_option autoImplicit false

namespace Tmuduo

/-! ## The calls on the channel -/

namespace TcpWorld

variable (c : TcpWorld)

/-- The calls of `sendInLoop` on the channel. -/
def sendCalls (message : Bytes) (r : WriteResult) : List InterestOp :=
  if c.state = .kDisconnected then []
  else
    let (c₁, remaining, error) :=
      if c.idle then c.directWrite message r else (c, message.length, false)
    if !error && 0 < remaining && !c₁.channel.isWriting then [.enableWriting] else []

/-- The calls of `handleWrite` on the channel. -/
def writeCalls : WriteResult → List InterestOp
  | .wrote (n + 1) =>
    if c.channel.isWriting && (c.retrieveOutput (n + 1)).outputBuffer.readableBytes == 0 then
      [.disableWriting]
    else []
  | .wrote 0 => []
  | .failed _ => []

variable {c}

theorem sendInLoop_channel {u : TcpWorld} {message : Bytes} {r : WriteResult}
    (h : c.sendInLoop message r = .ok u) :
    u.channel = (c.sendCalls message r).foldl Channel.call c.channel := by
  unfold sendCalls
  by_cases hstate : c.state = .kDisconnected
  · rw [if_pos hstate, (sendInLoop_kept h).2 hstate]
    rfl
  · rw [sendInLoop, if_neg hstate] at h
    rw [if_neg hstate]
    have hchannel : (if c.idle then c.directWrite message r
        else (c, message.length, false)).1.channel = c.channel := by
      split_ifs
      · cases r <;> simp [directWrite]
      · rfl
    generalize (if c.idle then c.directWrite message r else (c, message.length, false)) = p
      at h hchannel
    obtain ⟨c₁, remaining, error⟩ := p
    simp only at hchannel
    obtain ⟨-, h⟩ := check_bind_eq_ok_iff.mp h
    split_ifs at h with hrest
    · obtain rfl := Except.ok.inj h
      cases hwriting : c₁.channel.isWriting <;>
        simp [bufferRest, hrest, hwriting, Channel.call, ← hchannel]
    · obtain rfl := Except.ok.inj h
      simp [hrest, hchannel]

theorem outputEmptied_channel (c : TcpWorld) :
    c.outputEmptied.channel = c.channel.call .disableWriting := by
  unfold outputEmptied
  simp only
  split_ifs <;> simp [Channel.call]

theorem handleWrite_channel (c : TcpWorld) (w : WriteResult) :
    (c.handleWrite w).channel = (c.writeCalls w).foldl Channel.call c.channel := by
  have hretrieve : ∀ n, (c.retrieveOutput n).channel = c.channel := fun _ => rfl
  unfold handleWrite writeCalls
  split_ifs with hwriting
  · split
    · next n =>
      by_cases hempty : (c.retrieveOutput (n + 1)).outputBuffer.readableBytes = 0
      · simp [hwriting, hempty, outputEmptied_channel, hretrieve]
      · simp [hempty, hretrieve]
    · rfl
    · rfl
  · split <;> simp [hwriting]

end TcpWorld

namespace TcpLife

variable (s : TcpLife)

/-- The calls on the channel that a step makes, before `connectionDestroyed` removes it. -/
def channelCalls : LifeStep → List InterestOp
  | .runSend i r =>
    match s.sends[i]? with
    | some q => s.world.sendCalls q.message r
    | none => []
  | .runTask r w =>
    match s.tasks with
    | .close :: _ => [.disableAll]
    | .read :: _ => if r = .eof then [.disableAll] else []
    | .write :: _ => s.world.writeCalls w
    | _ => []
  | .connectionDestroyed => if s.world.state = .kConnected then [.disableAll] else []
  | _ => []

variable {s}

theorem goDown_channel {u : TcpLife} {rest : List LoopTask} (hx : s.goDown rest = .ok u) :
    u.world.channel = s.world.channel.call .disableAll := by
  obtain ⟨w, hw, rfl⟩ := bind_pure_eq_ok_iff.mp hx
  obtain ⟨-, hw⟩ := check_bind_eq_ok_iff.mp hw
  obtain rfl := Except.ok.inj hw
  rfl

theorem runTask_channel {u : TcpLife} {r : ReadResult} {w : WriteResult} {task : LoopTask}
    {rest : List LoopTask} (hs : s.tasks = task :: rest) (hx : s.runTask r w rest task = .ok u) :
    u.world.channel = (s.channelCalls (.runTask r w)).foldl Channel.call s.world.channel := by
  unfold channelCalls
  rw [hs]
  cases task with
  | close => exact goDown_channel hx
  | error =>
    obtain rfl := Except.ok.inj hx
    rfl
  | read =>
    cases r with
    | eof => exact goDown_channel hx
    | data d =>
      obtain rfl := Except.ok.inj hx
      rfl
    | failed =>
      obtain rfl := Except.ok.inj hx
      rfl
  | write =>
    obtain rfl := Except.ok.inj hx
    exact s.world.handleWrite_channel w
  | invokeClose =>
    obtain rfl := Except.ok.inj hx
    rfl

/-- A step changes the channel by the calls it makes. -/
theorem exec_channel {u : TcpLife} {l : LifeStep} (hx : tcpLife.exec s l = .ok u)
    (hl : l ≠ .connectionDestroyed) :
    u.world.channel = (s.channelCalls l).foldl Channel.call s.world.channel := by
  cases l with
  | send message | sendPointer message =>
    obtain rfl := Except.ok.inj hx
    obtain ⟨sends, heq⟩ := s.send_eq message _
    rw [heq]
    rfl
  | returnSend i =>
    obtain rfl := Except.ok.inj hx
    rfl
  | runSend i r =>
    simp only [tcpLife] at hx
    unfold channelCalls
    split at hx
    · next q hget =>
      obtain ⟨w, hsend, rfl⟩ := bind_pure_eq_ok_iff.mp hx
      simp only [hget]
      exact TcpWorld.sendInLoop_channel (sendInLoop_eq_ok_iff.mp hsend).2
    · next hget =>
      obtain rfl := Except.ok.inj hx
      simp only [hget]
      rfl
  | exchange caller =>
    obtain rfl := Except.ok.inj hx
    rfl
  | finish i inLoop =>
    obtain rfl := Except.ok.inj hx
    exact (s.world.finish_cases i inLoop).2.1
  | runFunctor i =>
    obtain rfl := Except.ok.inj hx
    exact (s.world.runFunctor_kept i).2
  | dispatch revents =>
    obtain rfl := Except.ok.inj hx
    rfl
  | runTask r w =>
    simp only [tcpLife] at hx
    split at hx
    · next task rest hs => exact runTask_channel hs hx
    · next hs =>
      obtain rfl := Except.ok.inj hx
      simp [channelCalls, hs]
  | connectionDestroyed => exact absurd rfl hl

end TcpLife

/-! ## The connection and the poller -/

/-- Where `EventLoop::loop` is : `eventHandling_`, `activeChannels_`, `currentActiveChannel_`, and
the active channels that it has yet to handle. -/
structure EventBatch (ι : Type) where
  eventHandling : Bool
  active : List ι
  current : Option ι
  rest : List ι
  deriving DecidableEq, Repr

/-- What fails in a loop with a connection. -/
inductive PolledFault
  | connection (e : TcpAssert)
  | removeChannel
  | poller (e : PollerFault)
  deriving DecidableEq, Repr

/-- A connection, the channels of its loop with their poller, and where the loop is. -/
structure PolledLife (ι : Type) where
  life : TcpLife
  system : EPollSystem ι
  batch : EventBatch ι

/-- A step of the connection in user code or in its handlers, a call on another channel, or a step
of the loop : it polls, reaches the next active channel, with what is in its `revents` if it is that
of the connection, or has handled them all. -/
inductive PolledStep (ι : Type)
  | life (l : LifeStep)
  | other (call : PollerCall ι)
  | poll (active : List ι)
  | handle (revents : BitVec 32)
  | endEvents
  deriving DecidableEq, Repr

/-- The channel of a call. -/
def PollerCall.channel {ι : Type} : PollerCall ι → ι
  | .interest i _ => i
  | .remove i => i

variable {ι : Type} [DecidableEq ι]

namespace EventBatch

/-- A loop that has not polled yet. -/
def new : EventBatch ι := ⟨false, [], none, []⟩

variable (b : EventBatch ι)

/-- The loop thread is in a handler or in a functor. -/
def InUserCode : Prop := b.eventHandling = true → b.current ≠ none

instance : Decidable b.InUserCode := inferInstanceAs (Decidable (_ → _))

/-- The assertion of `EventLoop::removeChannel`. -/
def MayRemove (i : ι) : Prop := b.eventHandling = true → b.current = some i ∨ i ∉ b.active

instance (i : ι) : Decidable (b.MayRemove i) := inferInstanceAs (Decidable (_ → _))

omit [DecidableEq ι] in
theorem mayRemove_iff {i : ι} : b.MayRemove i ↔
    ¬(b.eventHandling = true ∧ i ∈ b.active ∧ b.current ≠ some i) := by
  unfold MayRemove
  tauto

/-- `EventLoop::removeChannel`, with the part of `Channel::remove` before it. -/
def removeChannel (i : ι) (s : EPollSystem ι) : Except PolledFault (EPollSystem ι) := do
  check (b.MayRemove i) .removeChannel
  ((epollMachine ι).exec s (.remove i)).mapError .poller

end EventBatch

/-- The calls `ops` on the channel `i`, one after the other. -/
def EPollSystem.callAll (i : ι) :
    List InterestOp → EPollSystem ι → Except PollerFault (EPollSystem ι)
  | [], s => .ok s
  | op :: ops, s => do
    let s ← (epollMachine ι).exec s (.interest i op)
    callAll i ops s

namespace PolledLife

/-- A step of the connection with the channel `i`, and what it does to the poller. -/
def step (i : ι) (s : PolledLife ι) (l : LifeStep) : Except PolledFault (PolledLife ι) := do
  let life ← (tcpLife.exec s.life l).mapError .connection
  let system ← (EPollSystem.callAll i (s.life.channelCalls l) s.system).mapError .poller
  if l = .connectionDestroyed then do
    let system ← s.batch.removeChannel i system
    return ⟨life, system, s.batch⟩
  else return ⟨life, system, s.batch⟩

/-- A call on a channel of somebody else. -/
def other (s : PolledLife ι) : PollerCall ι → Except PolledFault (PolledLife ι)
  | .interest j op => do
    let system ← ((epollMachine ι).exec s.system (.interest j op)).mapError .poller
    return { s with system := system }
  | .remove j => do
    let system ← s.batch.removeChannel j s.system
    return { s with system := system }

/-- The loop reaches the next active channel. -/
def handle (i : ι) (s : PolledLife ι) (revents : BitVec 32) :
    Except PolledFault (PolledLife ι) :=
  match s.batch.rest with
  | [] => .ok s
  | j :: rest =>
    let s' := { s with batch := { s.batch with current := some j, rest := rest } }
    if j = i then s'.step i (.dispatch revents) else .ok s'

/-- The loop thread, where it is, may make the step. An event is handled when its turn comes. -/
def LoopMay (s : PolledLife ι) : LifeStep → Prop
  | .dispatch _ => False
  | .runFunctor _ => s.batch.eventHandling = false
  | .runSend _ _ | .connectionDestroyed => s.batch.InUserCode
  | _ => True

instance (s : PolledLife ι) : ∀ l, Decidable (s.LoopMay l)
  | .dispatch _ => isFalse id
  | .runFunctor _ => inferInstanceAs (Decidable (s.batch.eventHandling = false))
  | .runSend _ _ | .connectionDestroyed => inferInstanceAs (Decidable s.batch.InUserCode)
  | .send _ | .sendPointer _ | .returnSend _ | .exchange _ | .finish _ _ | .runTask _ _ =>
    isTrue trivial

end PolledLife

/-- A connection with the channel `i` in a loop that has other channels. The poller reports
channels that have interest, each once. -/
def polledLife (i : ι) : Machine (PolledLife ι) (PolledStep ι) PolledFault where
  enabled s
    | .life l => tcpLife.enabled s.life l ∧ s.LoopMay l
    | .other call => call.channel ≠ i ∧ (epollMachine ι).enabled s.system call
    | .poll active => s.batch.eventHandling = false ∧ active.Nodup ∧
        ∀ j ∈ active, (s.system.channel j).isNoneEvent = false
    | .handle revents => s.batch.eventHandling = true ∧ s.life.tasks = [] ∧ s.batch.rest ≠ [] ∧
        (s.batch.rest.head? = some i → tcpLife.enabled s.life (.dispatch revents))
    | .endEvents => s.batch.eventHandling = true ∧ s.life.tasks = [] ∧ s.batch.rest = []
  exec s
    | .life l => s.step i l
    | .other call => s.other call
    | .poll active => .ok { s with batch := ⟨true, active, none, active⟩ }
    | .handle revents => s.handle i revents
    | .endEvents => .ok { s with batch := ⟨false, s.batch.active, none, []⟩ }

instance (i : ι) (s : PolledLife ι) : ∀ l, Decidable ((polledLife i).enabled s l)
  | .life l => inferInstanceAs (Decidable (tcpLife.enabled s.life l ∧ s.LoopMay l))
  | .other call => inferInstanceAs (Decidable
      (call.channel ≠ i ∧ (epollMachine ι).enabled s.system call))
  | .poll active => inferInstanceAs (Decidable (_ ∧ active.Nodup ∧
      ∀ j ∈ active, (s.system.channel j).isNoneEvent = false))
  | .handle revents => inferInstanceAs (Decidable (_ ∧ s.life.tasks = [] ∧ s.batch.rest ≠ [] ∧
      (s.batch.rest.head? = some i → tcpLife.enabled s.life (.dispatch revents))))
  | .endEvents => inferInstanceAs (Decidable (_ ∧ s.life.tasks = [] ∧ s.batch.rest = []))

/-! ## What the two keep -/

omit [DecidableEq ι] in
/-- The poller and the kernel hold nothing for a channel that is not registered. -/
theorem EPollInv.of_not_added {s : EPollSystem ι} (h : EPollInv s) {i : ι}
    (hi : (s.channel i).addedToLoop = false) :
    s.poller.index i = EPollPoller.kNew ∧ (s.channel i).fd ∉ s.poller.channels ∧
      (s.channel i).fd ∉ s.poller.kernel := by
  have hm := h.mirrors i
  generalize he : s.poller.entry i (s.channel i).fd = e at hm
  obtain ⟨hindex, hchannels, hkernel⟩ := EPollPoller.entry_eq_iff.mp he
  cases hm with
  | new =>
    exact ⟨hindex, Finmap.lookup_eq_none.mp hchannels, Finmap.lookup_eq_none.mp hkernel⟩
  | added hadded => exact absurd (hadded.symm.trans hi) (by decide)
  | deleted hadded => exact absurd (hadded.symm.trans hi) (by decide)

theorem EPollInv.callAll (i : ι) : ∀ (ops : List InterestOp) {s : EPollSystem ι}, EPollInv s →
    ∃ u, EPollSystem.callAll i ops s = .ok u ∧ EPollInv u ∧
      u.channel i = ops.foldl Channel.call (s.channel i)
  | [], s, h => ⟨s, rfl, h, rfl⟩
  | op :: ops, s, h => by
    obtain ⟨p, hp, hinv⟩ := h.interest i op
    obtain ⟨u, hu, huinv, hchannel⟩ := hinv.callAll i ops
    refine ⟨u, ?_, huinv, ?_⟩
    · simp only [EPollSystem.callAll, epollMachine, hp, ok_bind, except_pure]
      exact hu
    · simpa using hchannel

theorem foldl_call_addedToLoop {c : Channel} (h : c.addedToLoop = true) (ops : List InterestOp) :
    (ops.foldl Channel.call c).addedToLoop = true := by
  induction ops generalizing c with
  | nil => exact h
  | cons op ops ih => exact ih (Channel.call_addedToLoop c op)

/-- A call leaves the other channels alone. -/
theorem epollMachine_exec_channel {s u : EPollSystem ι} {call : PollerCall ι} {j : ι}
    (hx : (epollMachine ι).exec s call = .ok u) (hj : j ≠ call.channel) :
    u.channel j = s.channel j := by
  cases call with
  | interest i op =>
    obtain ⟨p, -, rfl⟩ := bind_pure_eq_ok_iff.mp hx
    exact Function.update_of_ne hj ..
  | remove i =>
    obtain ⟨c, -, hx⟩ := bind_eq_ok_iff.mp hx
    obtain ⟨p, -, rfl⟩ := bind_pure_eq_ok_iff.mp hx
    exact Function.update_of_ne hj ..

theorem TcpLife.exec_destroyed {s u : TcpLife} {l : LifeStep} (hx : tcpLife.exec s l = .ok u)
    (hl : l ≠ .connectionDestroyed) : u.destroyed = s.destroyed := by
  cases l with
  | connectionDestroyed => exact absurd rfl hl
  | send message | sendPointer message =>
    obtain rfl := Except.ok.inj hx
    obtain ⟨sends, heq⟩ := s.send_eq message _
    rw [heq]
  | runSend i r =>
    simp only [tcpLife] at hx
    split at hx
    · obtain ⟨w, -, rfl⟩ := bind_pure_eq_ok_iff.mp hx
      rfl
    · obtain rfl := Except.ok.inj hx
      rfl
  | runTask r w =>
    simp only [tcpLife] at hx
    split at hx
    · next task rest hs =>
      have hdown : ∀ {v}, s.goDown rest = .ok v → v.destroyed = s.destroyed := by
        intro v hv
        obtain ⟨w, -, rfl⟩ := bind_pure_eq_ok_iff.mp hv
        rfl
      cases task with
      | close => exact hdown hx
      | read => cases r with
        | eof => exact hdown hx
        | data d | failed =>
          obtain rfl := Except.ok.inj hx
          rfl
      | error | write | invokeClose =>
        obtain rfl := Except.ok.inj hx
        rfl
    · obtain rfl := Except.ok.inj hx
      rfl
  | returnSend | exchange | finish | runFunctor | dispatch =>
    obtain rfl := Except.ok.inj hx
    rfl

/-- A connection that is destroyed has taken back its interest, or had none. -/
theorem TcpLife.connectionDestroyed_channel {s : TcpLife} {w : TcpWorld}
    (hw : s.world.connectionDestroyed = .ok w) :
    ((s.channelCalls .connectionDestroyed).foldl Channel.call s.world.channel).isNoneEvent = true ∧
      w.channel = { (s.channelCalls .connectionDestroyed).foldl Channel.call s.world.channel with
        addedToLoop := false } := by
  by_cases hstate : s.world.state = .kConnected
  · obtain rfl := Except.ok.inj (hw.symm.trans (TcpWorld.connectionDestroyed_connected hstate))
    simp only [TcpLife.channelCalls, if_pos hstate]
    exact ⟨rfl, rfl⟩
  · obtain ⟨hnone, rfl⟩ := (TcpWorld.connectionDestroyed_eq_ok_iff hstate).mp hw
    simp only [TcpLife.channelCalls, if_neg hstate]
    exact ⟨hnone, rfl⟩

namespace PolledLife

variable {i : ι} {s u : PolledLife ι}

/-- The poller mirrors the kernel, it has the channel of the connection, and that is registered
until the connection is destroyed. -/
structure Inv (i : ι) (s : PolledLife ι) : Prop where
  poller : EPollInv s.system
  same : s.system.channel i = s.life.world.channel
  registered : s.life.destroyed = false → s.life.world.channel.addedToLoop = true

/-- What `connectionDestroyed` leaves behind when the connection and the loop allow it. -/
theorem Inv.connectionDestroyed (h : Inv i s) (hdestroyed : s.life.destroyed = false)
    (hmay : s.batch.MayRemove i) {w : TcpWorld} (hw : s.life.world.connectionDestroyed = .ok w) :
    ∃ u, s.step i .connectionDestroyed = .ok u ∧ u.Inv i ∧
      u.life.world = w ∧ (u.system.channel i).addedToLoop = false := by
  obtain ⟨hnone, hchannel⟩ := TcpLife.connectionDestroyed_channel hw
  obtain ⟨sys, hsys, hinv, hsame⟩ :=
    h.poller.callAll i (s.life.channelCalls .connectionDestroyed)
  rw [h.same] at hsame
  have hadded : (sys.channel i).addedToLoop = true := by
    rw [hsame]
    exact foldl_call_addedToLoop (h.registered hdestroyed) _
  have hsysnone : (sys.channel i).isNoneEvent = true := by rwa [hsame]
  obtain ⟨c, p, hc, hp, hremoved⟩ := hinv.remove hadded hsysnone
  have hexec : s.batch.removeChannel i sys = .ok ⟨Function.update sys.channel i c, p⟩ := by
    simp [EventBatch.removeChannel, hmay, epollMachine, hc, hp, Except.mapError]
  have hcw : c = w.channel := by
    rw [hchannel, ← hsame]
    simpa [Channel.remove, hsysnone] using hc.symm
  refine ⟨⟨{ s.life with world := w, destroyed := true },
    ⟨Function.update sys.channel i c, p⟩, s.batch⟩, ?_, ⟨hremoved, ?_, ?_⟩, rfl, ?_⟩
  · simp [step, tcpLife, hw, hsys, hexec, Except.mapError]
  · simp [hcw]
  · simp
  · simp [hcw, hchannel]

/-- A connection that is destroyed has passed its own assertion and that of the loop. -/
theorem step_connectionDestroyed (hx : s.step i .connectionDestroyed = .ok u) :
    s.batch.MayRemove i ∧ ∃ w, s.life.world.connectionDestroyed = .ok w := by
  obtain ⟨life, hlife, hx⟩ := bind_eq_ok_iff.mp hx
  obtain ⟨sys, -, hx⟩ := bind_eq_ok_iff.mp hx
  rw [if_pos rfl] at hx
  obtain ⟨sys', hremove, -⟩ := bind_eq_ok_iff.mp hx
  obtain ⟨hmay, -⟩ := check_bind_eq_ok_iff.mp hremove
  obtain ⟨w, hw, -⟩ := bind_eq_ok_iff.mp (mapError_eq_ok_iff.mp hlife)
  exact ⟨hmay, w, hw⟩

theorem Inv.life (h : Inv i s) {l : LifeStep}
    (hl : l = .connectionDestroyed → s.life.destroyed = false) (hx : s.step i l = .ok u) :
    Inv i u := by
  by_cases hdestroy : l = .connectionDestroyed
  · subst hdestroy
    obtain ⟨hmay, w, hw⟩ := step_connectionDestroyed hx
    obtain ⟨v, hv, hinv, -⟩ := h.connectionDestroyed (hl rfl) hmay hw
    obtain rfl := Except.ok.inj (hx.symm.trans hv)
    exact hinv
  · obtain ⟨life, hlife, hx⟩ := bind_eq_ok_iff.mp hx
    obtain ⟨sys, hsys, hx⟩ := bind_eq_ok_iff.mp hx
    rw [if_neg hdestroy] at hx
    obtain rfl := Except.ok.inj hx
    rw [mapError_eq_ok_iff] at hlife hsys
    obtain ⟨sys', hsys', hinv, hsame⟩ := h.poller.callAll i (s.life.channelCalls l)
    obtain rfl := Except.ok.inj (hsys.symm.trans hsys')
    have hchannel := TcpLife.exec_channel hlife hdestroy
    refine ⟨hinv, by rw [hsame, h.same, hchannel], fun hdestroyed => ?_⟩
    rw [TcpLife.exec_destroyed hlife hdestroy] at hdestroyed
    simp only [hchannel]
    exact foldl_call_addedToLoop (h.registered hdestroyed) _

/-- A call on another channel, which may be a removal, does what the poller does. -/
theorem other_eq_ok {call : PollerCall ι} (hx : s.other call = .ok u) :
    ∃ sys, (epollMachine ι).exec s.system call = .ok sys ∧ u = { s with system := sys } := by
  cases call with
  | interest j op =>
    obtain ⟨sys, hsys, rfl⟩ := bind_pure_eq_ok_iff.mp hx
    exact ⟨sys, mapError_eq_ok_iff.mp hsys, rfl⟩
  | remove j =>
    obtain ⟨sys, hsys, rfl⟩ := bind_pure_eq_ok_iff.mp hx
    obtain ⟨-, hsys⟩ := check_bind_eq_ok_iff.mp hsys
    exact ⟨sys, mapError_eq_ok_iff.mp hsys, rfl⟩

omit [DecidableEq ι] in
theorem Inv.of_batch (h : Inv i s) (batch : EventBatch ι) : Inv i { s with batch := batch } :=
  ⟨h.poller, h.same, h.registered⟩

theorem Inv.step {l : PolledStep ι} (h : Inv i s) (he : (polledLife i).enabled s l)
    (hx : (polledLife i).exec s l = .ok u) : Inv i u := by
  cases l with
  | life l =>
    refine h.life (fun hl => ?_) hx
    subst hl
    exact he.1.1
  | other call =>
    obtain ⟨sys, hsys, rfl⟩ := other_eq_ok hx
    obtain ⟨sys', hsys', hinv⟩ := EPollInv.step h.poller he.2
    obtain rfl := Except.ok.inj (hsys.symm.trans hsys')
    exact ⟨hinv, (epollMachine_exec_channel hsys he.1.symm).trans h.same, h.registered⟩
  | poll active =>
    obtain rfl := Except.ok.inj hx
    exact h.of_batch _
  | handle revents =>
    simp only [polledLife, handle] at hx
    split at hx
    · obtain rfl := Except.ok.inj hx
      exact h
    · next j rest hrest =>
      split_ifs at hx
      · exact (h.of_batch _).life (by rintro ⟨⟩) hx
      · obtain rfl := Except.ok.inj hx
        exact h.of_batch _
  | endEvents =>
    obtain rfl := Except.ok.inj hx
    exact h.of_batch _

end PolledLife

/-- A connection is established in a loop that has been used with other channels, and any steps
follow. While it has not been destroyed, `connectionDestroyed` succeeds, leaves the channel without
interest and takes it out of the poller and the kernel's interest set, if and only if the connection
is connected or its channel has no interest, and the loop is not handling another channel of a batch
that has the connection's. -/
theorem connectionDestroyed_ok_iff {fd : ι → ℤ} (hfd : Function.Injective fd) {i : ι}
    {pre : List (PollerCall ι)} {idle sys : EPollSystem ι}
    (hpre : (epollMachine ι).Run (.new fd) pre idle) (hidle : idle.channel i = .new (fd i))
    (hsys : (epollMachine ι).exec idle (.interest i .enableReading) = .ok sys)
    {writeComplete highWater : Bool} {mark : ℕ} {batch : EventBatch ι}
    {ls : List (PolledStep ι)} {t : PolledLife ι}
    (hrun : (polledLife i).Run
      ⟨.established (fd i) writeComplete highWater mark, sys, batch⟩ ls t)
    (hdestroyed : t.life.destroyed = false) :
    (∃ u, (polledLife i).exec t (.life .connectionDestroyed) = .ok u ∧
      u.life.world.channel.isNoneEvent = true ∧ u.system.poller.index i = EPollPoller.kNew ∧
      u.life.world.channel.fd ∉ u.system.poller.channels ∧
      u.life.world.channel.fd ∉ u.system.poller.kernel) ↔
      (t.life.world.state = .kConnected ∨ t.life.world.channel.isNoneEvent = true) ∧
      ¬(t.batch.eventHandling = true ∧ i ∈ t.batch.active ∧ t.batch.current ≠ some i) := by
  have hstart : PolledLife.Inv i
      ⟨.established (fd i) writeComplete highWater mark, sys, batch⟩ := by
    obtain ⟨sys', hsys', hinv, hchannel⟩ := (EPollInv.step.run (.new hfd) hpre).callAll i
      [.enableReading]
    obtain ⟨sys'', hsys'', hrest⟩ := bind_eq_ok_iff.mp hsys'
    obtain rfl := Except.ok.inj (hsys.symm.trans hsys'')
    obtain rfl := Except.ok.inj hrest
    refine ⟨hinv, ?_, fun _ => rfl⟩
    rw [hchannel, hidle]
    rfl
  have hinv : PolledLife.Inv i t :=
    hrun.invariant hstart fun _ _ _ hs he hx => hs.step he hx
  rw [← EventBatch.mayRemove_iff]
  constructor
  · rintro ⟨u, hu, -⟩
    obtain ⟨hmay, w, hw⟩ := PolledLife.step_connectionDestroyed hu
    refine ⟨?_, hmay⟩
    by_cases hstate : t.life.world.state = .kConnected
    · exact .inl hstate
    · exact .inr ((TcpWorld.connectionDestroyed_eq_ok_iff hstate).mp hw).1
  · rintro ⟨hcond, hmay⟩
    obtain ⟨w, hw⟩ : ∃ w, t.life.world.connectionDestroyed = .ok w := by
      by_cases hstate : t.life.world.state = .kConnected
      · exact ⟨_, TcpWorld.connectionDestroyed_connected hstate⟩
      · exact ⟨_, (TcpWorld.connectionDestroyed_eq_ok_iff hstate).mpr
          ⟨hcond.resolve_left hstate, rfl⟩⟩
    obtain ⟨u, hu, hinvu, rfl, hremoved⟩ := hinv.connectionDestroyed hdestroyed hmay hw
    obtain ⟨hindex, hchannels, hkernel⟩ := hinvu.poller.of_not_added hremoved
    rw [hinvu.same] at hchannels hkernel
    obtain ⟨hnone, hchannel⟩ := TcpLife.connectionDestroyed_channel hw
    exact ⟨u, hu, by rw [hchannel]; exact hnone, hindex, hchannels, hkernel⟩

/-- A connected connection with output that is not sent is destroyed in the handler of another
channel, which is the only active one. -/
theorem connectionDestroyed_ok_pending : ∃ sys t u,
    (epollMachine Bool).exec (.new fun i => if i then 7 else 5) (.interest true .enableReading) =
      .ok sys ∧
    (polledLife true).Run ⟨.established 7 false false 64, sys, .new⟩
      [.other (.interest false .enableReading), .life (.send [97]),
        .life (.runSend 0 (.failed .EWOULDBLOCK)), .poll [false], .handle 0] t ∧
    t.life.world.channel.isWriting = true ∧
    (polledLife true).exec t (.life .connectionDestroyed) = .ok u ∧
    u.life.world.channel.isNoneEvent = true ∧
    u.life.world.channel.fd ∉ u.system.poller.channels := by
  have hfd : Function.Injective fun i : Bool => if i then (7 : ℤ) else 5 := by decide
  obtain ⟨sys, t, hsys, hrun, hwriting, hstate, hdestroyed, hactive⟩ : ∃ sys t,
      (epollMachine Bool).exec (.new fun i => if i then 7 else 5) (.interest true .enableReading) =
        .ok sys ∧
      (polledLife true).Run ⟨.established 7 false false 64, sys, .new⟩
        [.other (.interest false .enableReading), .life (.send [97]),
          .life (.runSend 0 (.failed .EWOULDBLOCK)), .poll [false], .handle 0] t ∧
      t.life.world.channel.isWriting = true ∧ t.life.world.state = .kConnected ∧
      t.life.destroyed = false ∧ t.batch.active = [false] :=
    ⟨_, _, rfl, .of_play rfl, rfl, rfl, rfl, rfl⟩
  obtain ⟨u, hu, hnone, -, hchannels, -⟩ :=
    (connectionDestroyed_ok_iff hfd .nil rfl hsys hrun hdestroyed).mpr
      ⟨.inl hstate, fun hbatch => by simp [hactive] at hbatch⟩
  exact ⟨sys, t, u, hsys, hrun, hwriting, hu, hnone, hchannels⟩

/-- The user has called `shutdown()` and the peer has not answered. The state is
`kDisconnecting`, so `connectionDestroyed` removes the channel without taking back its read
interest. And a connection that is connected is destroyed, as the destructor of its server does it,
in the handler of another channel that is active together with its own. -/
theorem shutdown_then_destroyed :
    (∃ sys t, (epollMachine Unit).exec (.new fun _ => 7) (.interest () .enableReading) = .ok sys ∧
      (polledLife ()).Run ⟨.established 7 false false 64, sys, .new⟩
        [.life (.exchange .shutdown), .life (.finish 0 true)] t ∧
      t.life.world.state = .kDisconnecting ∧
      (polledLife ()).enabled t (.life .connectionDestroyed) ∧
      (polledLife ()).exec t (.life .connectionDestroyed) =
        .error (.connection .channelRemove)) ∧
    ∃ sys t, (epollMachine Bool).exec (.new fun i => if i then 7 else 5)
        (.interest true .enableReading) = .ok sys ∧
      (polledLife true).Run ⟨.established 7 false false 64, sys, .new⟩
        [.other (.interest false .enableReading), .poll [false, true], .handle 0] t ∧
      t.life.world.state = .kConnected ∧
      (polledLife true).enabled t (.life .connectionDestroyed) ∧
      (polledLife true).exec t (.life .connectionDestroyed) = .error .removeChannel :=
  ⟨⟨_, _, rfl, .of_play rfl, rfl, by decide, rfl⟩, _, _, rfl, .of_play rfl, rfl, by decide, rfl⟩

end Tmuduo
