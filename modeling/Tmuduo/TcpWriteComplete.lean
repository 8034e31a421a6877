import Tmuduo.TcpOutput

/-!
# Notifying that the output is written

A connection queues its `writeCompleteCallback_` when all its output has been handed to the kernel,
by a direct write of `sendInLoop` that accepts the whole message, or by a `handleWrite` that empties
the output buffer (`Drains`). `exec_noted` says that it does so exactly then, if it has the
callback.

`TcpClient::newConnection` gives the connection the callback that its user has set, and
`TcpServer::newConnection` does not. So a client's connection notifies at every such moment
(`client_notifies`), and a server's at none : its runs are as they should be if and only if there is
no such moment in them (`server_notifies_iff`).
-/

set_option autoImplicit false

namespace Tmuduo

/-! ## New connections -/

/-- The callbacks that the user of a server or a client has set. -/
structure UserCallbacks where
  connectionCallback : Bool
  messageCallback : Bool
  writeCompleteCallback : Bool
  deriving DecidableEq, Repr

/-- A connection that has not been established, with all the callbacks it has been given. -/
structure NewConnection extends TcpWorld where
  connectionCallback : Bool
  messageCallback : Bool
  closeCallback : Bool

namespace NewConnection

/-- `TcpConnection::TcpConnection`. -/
def new (sockfd : ℤ) : NewConnection :=
  { TcpWorld.new sockfd false false (64 * 1024 * 1024) with
    connectionCallback := false
    messageCallback := false
    closeCallback := false }

variable (conn : NewConnection)

def setConnectionCallback (cb : Bool) : NewConnection := { conn with connectionCallback := cb }

def setMessageCallback (cb : Bool) : NewConnection := { conn with messageCallback := cb }

def setWriteCompleteCallback (cb : Bool) : NewConnection :=
  { conn with writeCompleteCallback := cb }

def setCloseCallback (cb : Bool) : NewConnection := { conn with closeCallback := cb }

/-- `connectionEstablished`, from where the runs of a connection start. -/
def establish : Except TcpAssert TcpRun := do
  let world ← conn.toTcpWorld.connectionEstablished
  return ⟨world, [], false⟩

end NewConnection

/-- The connection that `TcpServer::newConnection` makes. -/
def TcpServer.makeConnection (user : UserCallbacks) (sockfd : ℤ) : NewConnection :=
  let conn := NewConnection.new sockfd
  let conn := conn.setConnectionCallback user.connectionCallback
  let conn := conn.setMessageCallback user.messageCallback
  conn.setCloseCallback true

/-- The connection that `TcpClient::newConnection` makes. -/
def TcpClient.makeConnection (user : UserCallbacks) (sockfd : ℤ) : NewConnection :=
  let conn := NewConnection.new sockfd
  let conn := conn.setConnectionCallback user.connectionCallback
  let conn := conn.setMessageCallback user.messageCallback
  let conn := conn.setWriteCompleteCallback user.writeCompleteCallback
  conn.setCloseCallback true

/-! ## The moments at which the output is written -/

/-- The step hands the last of the output to the kernel. -/
def Drains (c : TcpWorld) : TcpStep → Prop
  | .sendInLoop message (.wrote n) =>
      c.state ≠ .kDisconnected ∧ c.idle = true ∧ n = message.length
  | .handleWrite (.wrote n) =>
      c.channel.isWriting = true ∧ 0 < n ∧ n = c.outputBuffer.readableBytes
  | _ => False

/-- The number of notifications that are queued. -/
def TcpWorld.notifications (c : TcpWorld) : ℕ :=
  c.pendingFunctors.count .writeComplete

/-- What a step should do : one notification when it hands over the last of the output, and none
while bytes are left in the output buffer. -/
def Notifies (s : TcpRun) (l : TcpStep) (u : TcpRun) : Prop :=
  (Drains s.world l → u.world.notifications = s.world.notifications + 1) ∧
    (s.world.notifications < u.world.notifications → u.world.outputBuffer.content = [])

/-! ## What one step queues -/

namespace TcpWorld

variable (c : TcpWorld)

@[simp] theorem queueIf_writeCompleteCallback (p : Bool) (f : TcpFunctor) :
    (c.queueIf p f).writeCompleteCallback = c.writeCompleteCallback := by
  cases p <;> rfl

@[simp] theorem shutdownInLoop_writeCompleteCallback :
    c.shutdownInLoop.writeCompleteCallback = c.writeCompleteCallback := by
  unfold shutdownInLoop
  split_ifs <;> rfl

theorem notifications_queueIf (p : Bool) :
    (c.queueIf p .writeComplete).notifications = c.notifications + if p then 1 else 0 := by
  cases p <;> simp [queueIf, notifications]

theorem notifications_queueIf_of_ne (p : Bool) {f : TcpFunctor} (hf : f ≠ .writeComplete) :
    (c.queueIf p f).notifications = c.notifications := by
  cases p <;> simp [queueIf, notifications, hf]

@[simp] theorem notifications_shutdownInLoop :
    c.shutdownInLoop.notifications = c.notifications := by
  rw [notifications, shutdownInLoop_pendingFunctors]
  rfl

theorem notifications_bufferRest (message : Bytes) (remaining : ℕ) :
    (c.bufferRest message remaining).notifications = c.notifications :=
  notifications_queueIf_of_ne c _ (by simp)

theorem notifications_directWrite (message : Bytes) (n : ℕ) :
    (c.directWrite message (.wrote n)).1.notifications = c.notifications +
      if message.length - n = 0 ∧ c.writeCompleteCallback = true then 1 else 0 := by
  simp only [directWrite, notifications_queueIf, Bool.and_eq_true, beq_iff_eq]
  rfl

/-- `c'` is `c` after a step that drained the output, or did not : the step queued one notification
if it did and there is a callback, and none otherwise. -/
structure Noted (c c' : TcpWorld) (drained : Prop) : Prop where
  callback : c'.writeCompleteCallback = c.writeCompleteCallback
  queued : drained → c.writeCompleteCallback = true → c'.notifications = c.notifications + 1
  quiet : ¬(drained ∧ c.writeCompleteCallback = true) → c'.notifications ≤ c.notifications
  emptied : drained → c'.outputBuffer.content = []

variable {c} {c' : TcpWorld}

theorem Noted.of_not {drained : Prop} (h : ¬drained)
    (hcallback : c'.writeCompleteCallback = c.writeCompleteCallback)
    (hle : c'.notifications ≤ c.notifications) : Noted c c' drained :=
  ⟨hcallback, fun hd => absurd hd h, fun _ => hle, fun hd => absurd hd h⟩

theorem Noted.trans {c'' : TcpWorld} (h : Noted c c' False) (h' : Noted c' c'' False) :
    Noted c c'' False :=
  .of_not id (h'.callback.trans h.callback)
    (Nat.le_trans (h'.quiet fun hd => hd.1) (h.quiet fun hd => hd.1))

theorem bufferRest_writeCompleteCallback (message : Bytes) (remaining : ℕ) :
    (c.bufferRest message remaining).writeCompleteCallback = c.writeCompleteCallback :=
  queueIf_writeCompleteCallback c _ _

theorem Noted.bufferRest {drained : Prop} (h : ¬drained) (message : Bytes) (remaining : ℕ) :
    Noted c (c.bufferRest message remaining) drained :=
  .of_not h (bufferRest_writeCompleteCallback message remaining)
    (Nat.le_of_eq (notifications_bufferRest c message remaining))

/-- A direct write that accepts the whole message. -/
theorem Noted.directWrite {drained : Prop} (h : drained) (hidle : c.idle = true) {message : Bytes}
    {n : ℕ} (hn : message.length - n = 0) :
    Noted c (c.directWrite message (.wrote n)).1 drained := by
  have hcount := c.notifications_directWrite message n
  have hempty : c.outputBuffer.readableBytes = 0 := by
    simp only [idle, Bool.and_eq_true, beq_iff_eq] at hidle
    exact hidle.2
  refine ⟨queueIf_writeCompleteCallback _ _ _, fun _ hcb => ?_, fun hnot => ?_, fun _ => ?_⟩
  · rw [hcount, if_pos ⟨hn, hcb⟩]
  · rw [hcount, if_neg fun hcb => hnot ⟨h, hcb.2⟩]
    exact Nat.le_refl _
  · have hbuffer : (c.directWrite message (.wrote n)).1.outputBuffer = c.outputBuffer :=
      queueIf_outputBuffer _ _ _
    rw [hbuffer]
    exact c.outputBuffer.readableBytes_eq_zero_iff.mp hempty

/-- What `sendInLoop` leaves, after a direct write that was cut short or was not made. -/
theorem Noted.send {drained : Prop} (h : ¬drained) {message : Bytes} {remaining : ℕ} {error : Bool}
    (hcall : (do
      check (remaining ≤ message.length) TcpAssert.sendInLoopRemaining
      if !error && 0 < remaining then return c.bufferRest message remaining
      else return c) = .ok c') : Noted c c' drained := by
  obtain ⟨-, hcall⟩ := check_bind_eq_ok_iff.mp hcall
  split_ifs at hcall
  · obtain rfl := Except.ok.inj hcall
    exact .bufferRest h message remaining
  · obtain rfl := Except.ok.inj hcall
    exact .of_not h rfl (Nat.le_refl _)

theorem sendInLoop_noted {message : Bytes} {r : WriteResult} (hr : r.Valid message.length)
    (hcall : c.sendInLoop message r = .ok c') : Noted c c' (Drains c (.sendInLoop message r)) := by
  unfold sendInLoop at hcall
  by_cases hstate : c.state = .kDisconnected
  · rw [if_pos hstate] at hcall
    obtain rfl := Except.ok.inj hcall
    refine .of_not ?_ rfl (Nat.le_refl _)
    cases r with
    | wrote n => exact fun h => h.1 hstate
    | failed e => exact id
  · rw [if_neg hstate] at hcall
    cases r with
    | failed e =>
      cases hidle : c.idle with
      | false =>
        rw [hidle] at hcall
        exact .send id hcall
      | true =>
        rw [hidle] at hcall
        exact .send id hcall
    | wrote n =>
      have hn : n ≤ message.length := hr
      cases hidle : c.idle with
      | false =>
        rw [hidle] at hcall
        exact .send (fun h => absurd (hidle.symm.trans h.2.1) (by decide)) hcall
      | true =>
        rw [hidle] at hcall
        have hcall : (do
            check (message.length - n ≤ message.length) TcpAssert.sendInLoopRemaining
            if !false && 0 < message.length - n then
              return (c.directWrite message (.wrote n)).1.bufferRest message (message.length - n)
            else return (c.directWrite message (.wrote n)).1) = .ok c' := hcall
        by_cases hall : message.length - n = 0
        · have hdrains : Drains c (.sendInLoop message (.wrote n)) := ⟨hstate, hidle, by omega⟩
          rw [hall] at hcall
          obtain rfl := Except.ok.inj hcall
          exact .directWrite hdrains hidle hall
        · have hnot : ¬Drains c (.sendInLoop message (.wrote n)) := fun h => hall (by
            rw [h.2.2]
            exact Nat.sub_self _)
          have hnext := Noted.send hnot hcall
          have hcount := c.notifications_directWrite message n
          rw [if_neg fun h => hall h.1] at hcount
          refine .of_not hnot (hnext.callback.trans (queueIf_writeCompleteCallback _ _ _)) ?_
          exact Nat.le_trans (hnext.quiet fun h => hnot h.1) (Nat.le_of_eq hcount)

/-- The shutdown that may follow an empty output buffer queues nothing. -/
theorem shutdownIf_same (c : TcpWorld) :
    let c' := if c.state = .kDisconnecting then c.shutdownInLoop else c
    c'.notifications = c.notifications ∧ c'.writeCompleteCallback = c.writeCompleteCallback ∧
      c'.outputBuffer = c.outputBuffer := by
  simp only
  split_ifs
  · exact ⟨by simp, by simp, by simp⟩
  · exact ⟨rfl, rfl, rfl⟩

theorem outputEmptied_eq (c : TcpWorld) :
    c.outputEmptied.notifications = c.notifications + (if c.writeCompleteCallback then 1 else 0) ∧
      c.outputEmptied.writeCompleteCallback = c.writeCompleteCallback ∧
      c.outputEmptied.outputBuffer = c.outputBuffer := by
  obtain ⟨hcount, hcallback, hbuffer⟩ := shutdownIf_same
    (({ c with channel := c.channel.disableWriting }).queueIf c.writeCompleteCallback
      .writeComplete)
  refine ⟨hcount.trans ?_, hcallback.trans ?_, hbuffer.trans ?_⟩
  · rw [notifications_queueIf]
    rfl
  · rw [queueIf_writeCompleteCallback]
  · rw [queueIf_outputBuffer]

/-- `handleWrite` queues its notification when it has emptied the output buffer. -/
theorem handleWrite_noted {r : WriteResult} (hr : r.Valid c.outputBuffer.readableBytes) :
    Noted c (c.handleWrite r) (Drains c (.handleWrite r)) := by
  unfold handleWrite
  by_cases hw : c.channel.isWriting = true
  · rw [if_pos hw]
    cases r with
    | failed e => exact .of_not id rfl (Nat.le_refl _)
    | wrote n =>
      cases n with
      | zero => exact .of_not (fun h => Nat.lt_irrefl 0 h.2.1) rfl (Nat.le_refl _)
      | succ n =>
        have hn : n + 1 ≤ c.outputBuffer.readableBytes := hr
        have hrest : (c.retrieveOutput (n + 1)).outputBuffer.readableBytes =
            c.outputBuffer.readableBytes - (n + 1) := by
          rw [← ValidBuffer.length_content, TcpWorld.retrieveOutput, ValidBuffer.content_retrieve,
            List.length_drop, ValidBuffer.length_content]
        simp only [hrest]
        obtain ⟨hcount, hcallback, hbuffer⟩ := outputEmptied_eq (c.retrieveOutput (n + 1))
        split_ifs with hz
        · have hdrains : Drains c (.handleWrite (.wrote (n + 1))) :=
            ⟨hw, Nat.succ_pos n, by omega⟩
          refine ⟨hcallback, fun _ hcb => ?_, fun hnot => ?_, fun _ => ?_⟩
          · rw [hcount]
            exact congrArg _ (if_pos hcb)
          · rw [hcount]
            exact Nat.le_of_eq (congrArg _ (if_neg fun hcb => hnot ⟨hdrains, hcb⟩))
          · rw [hbuffer, ← ValidBuffer.readableBytes_eq_zero_iff, hrest, hz]
        · refine .of_not (fun h => hz ?_) rfl (Nat.le_refl _)
          have hall : n + 1 = c.outputBuffer.readableBytes := h.2.2
          omega
  · rw [if_neg hw]
    refine .of_not ?_ rfl (Nat.le_refl _)
    cases r with
    | wrote n => exact fun h => hw h.1
    | failed e => exact id

theorem Noted.shutdownInLoop {drained : Prop} (h : ¬drained) : Noted c c.shutdownInLoop drained :=
  .of_not h (by simp) (by simp)

theorem Noted.afterShutdown {drained : Prop} (h : ¬drained) (old : StateE) (inLoop : Bool) :
    Noted c (c.afterShutdown old inLoop) drained := by
  unfold TcpWorld.afterShutdown
  split_ifs
  · exact .shutdownInLoop h
  · exact .of_not h (by simp) (Nat.le_of_eq (notifications_queueIf_of_ne c true (by simp)))
  · exact .of_not h rfl (Nat.le_refl _)

theorem Noted.afterForceClose {drained : Prop} (h : ¬drained) (old : StateE) :
    Noted c (c.afterForceClose old) drained := by
  unfold TcpWorld.afterForceClose
  split_ifs
  · exact .of_not h (by simp) (Nat.le_of_eq (notifications_queueIf_of_ne c true (by simp)))
  · exact .of_not h rfl (Nat.le_refl _)

end TcpWorld

/-- The end of a call of `shutdown` or `forceClose` hands nothing over. -/
theorem finishCall_noted (s : TcpRun) (inLoop : Bool) (call : Caller × StateE) :
    TcpWorld.Noted s.world (s.finishCall inLoop call).world False := by
  obtain ⟨caller, old⟩ := call
  cases caller with
  | shutdown => exact .afterShutdown id old inLoop
  | forceClose => exact .afterForceClose id old

theorem callFunctor_noted (s : TcpRun) (f : TcpFunctor) :
    TcpWorld.Noted s.world (s.callFunctor f).world False := by
  cases f with
  | writeComplete => exact .of_not id rfl (Nat.le_refl _)
  | highWaterMark len => exact .of_not id rfl (Nat.le_refl _)
  | shutdownInLoop caller => exact .shutdownInLoop id

/-- Every step queues one notification if it hands over the last of the output and there is a
callback, and none otherwise. -/
theorem exec_noted {s u : TcpRun} {l : TcpStep} (he : tcpMachine.enabled s l)
    (hx : tcpMachine.exec s l = .ok u) : TcpWorld.Noted s.world u.world (Drains s.world l) := by
  cases l with
  | sendInLoop message r =>
    obtain ⟨c, hc, rfl⟩ := map_eq_ok_iff.mp hx
    exact TcpWorld.sendInLoop_noted he hc
  | handleWrite r =>
    obtain rfl := Except.ok.inj hx
    exact TcpWorld.handleWrite_noted he
  | handleRead r =>
    cases r with
    | eof => exact absurd rfl he
    | data d =>
      obtain rfl := Except.ok.inj hx
      exact .of_not id rfl (Nat.le_refl _)
    | failed =>
      obtain rfl := Except.ok.inj hx
      exact .of_not id rfl (Nat.le_refl _)
  | exchange caller =>
    obtain rfl := Except.ok.inj hx
    exact .of_not id rfl (Nat.le_refl _)
  | finish i inLoop =>
    have hi : i < s.world.callers.length := he
    simp only [tcpMachine, List.getElem?_eq_getElem hi, Except.ok.injEq] at hx
    subst hx
    have hsame := @TcpWorld.Noted.of_not s.world
      { s.world with callers := s.world.callers.eraseIdx i } False id rfl (Nat.le_refl _)
    exact hsame.trans (finishCall_noted { s with world := _ } inLoop _)
  | runFunctor =>
    cases hf : s.world.pendingFunctors with
    | nil => exact absurd hf he
    | cons f rest =>
      simp only [tcpMachine, hf, Except.ok.injEq] at hx
      subst hx
      have hrest : ({ s.world with pendingFunctors := rest } : TcpWorld).notifications ≤
          s.world.notifications := by
        unfold TcpWorld.notifications
        rw [hf]
        exact (List.sublist_cons_self f rest).count_le _
      have hsame := @TcpWorld.Noted.of_not s.world { s.world with pendingFunctors := rest } False id
        rfl hrest
      exact hsame.trans (callFunctor_noted { s with world := _ } f)

/-- A step of a connection with the callback does what it should. -/
theorem notifies_of_callback {s u : TcpRun} {l : TcpStep}
    (hcallback : s.world.writeCompleteCallback = true) (he : tcpMachine.enabled s l)
    (hx : tcpMachine.exec s l = .ok u) : Notifies s l u := by
  have h := exec_noted he hx
  refine ⟨fun hd => h.queued hd hcallback, fun hlt => h.emptied ?_⟩
  by_contra hd
  exact absurd (h.quiet fun hboth => hd hboth.1) (Nat.not_le_of_lt hlt)

/-- A step of a connection without it does what it should if and only if it has nothing to do. -/
theorem notifies_iff_of_no_callback {s u : TcpRun} {l : TcpStep}
    (hcallback : s.world.writeCompleteCallback = false) (he : tcpMachine.enabled s l)
    (hx : tcpMachine.exec s l = .ok u) : Notifies s l u ↔ ¬Drains s.world l := by
  have h := exec_noted he hx
  have hle : u.world.notifications ≤ s.world.notifications := h.quiet fun hboth => by
    rw [hcallback] at hboth
    cases hboth.2
  constructor
  · intro hnotifies hd
    have hone := hnotifies.1 hd
    omega
  · intro hd
    exact ⟨fun hd' => absurd hd' hd, fun hlt => absurd hle (Nat.not_le_of_lt hlt)⟩

/-! ## Runs -/

/-- All runs of a client's connection are as they should be. -/
theorem client_notifies {user : UserCallbacks} (huser : user.writeCompleteCallback = true)
    {sockfd : ℤ} {s t : TcpRun} {ls : List TcpStep}
    (hstart : (TcpClient.makeConnection user sockfd).establish = .ok s)
    (hrun : tcpMachine.Run s ls t) : tcpMachine.AllSteps Notifies s ls := by
  obtain rfl := Except.ok.inj hstart
  have hsteps := @Machine.Run.allSteps_iff _ _ _ _ (fun s => s.world.writeCompleteCallback = true)
    Notifies (fun _ _ => True) _ _ _ hrun huser
    (fun t l u ht he hx => (exec_noted he hx).callback.trans ht)
    (fun t l u ht he hx => iff_of_true (notifies_of_callback ht he hx) trivial)
  exact hsteps.mpr (hrun.restrict_of_forall fun _ _ => trivial)

/-- For every server with a `writeCompleteCallback`, and every run of a connection that it has
accepted : there is one notification each time the output is written, and none while there is output
left, if and only if the output is never completely written in the run. -/
theorem server_notifies_iff {user : UserCallbacks} (_ : user.writeCompleteCallback = true)
    {sockfd : ℤ} {s t : TcpRun} {ls : List TcpStep}
    (hstart : (TcpServer.makeConnection user sockfd).establish = .ok s)
    (hrun : tcpMachine.Run s ls t) :
    tcpMachine.AllSteps Notifies s ls ↔
      (tcpMachine.restrict fun s l => ¬Drains s.world l).Run s ls t := by
  obtain rfl := Except.ok.inj hstart
  refine @Machine.Run.allSteps_iff _ _ _ _ (fun s => s.world.writeCompleteCallback = false) _ _ _ _
    _ hrun rfl ?_ ?_
  · intro t l u ht he hx
    exact (exec_noted he hx).callback.trans ht
  · intro t l u ht he hx
    exact notifies_iff_of_no_callback ht he hx

/-- A user who has set all callbacks. -/
def allCallbacks : UserCallbacks :=
  ⟨true, true, true⟩

/-- A message that the kernel does not accept yet. -/
theorem server_notifies_blocked : ∃ s t,
    (TcpServer.makeConnection allCallbacks 3).establish = .ok s ∧
    tcpMachine.Run s [.sendInLoop (ascii "ab") (.failed .EWOULDBLOCK)] t ∧
    tcpMachine.AllSteps Notifies s [.sendInLoop (ascii "ab") (.failed .EWOULDBLOCK)] := by
  have hrun : ∃ s t, (TcpServer.makeConnection allCallbacks 3).establish = .ok s ∧
      (tcpMachine.restrict fun s l => ¬Drains s.world l).Run s
        [.sendInLoop (ascii "ab") (.failed .EWOULDBLOCK)] t :=
    ⟨_, _, rfl, .snoc .nil ⟨trivial, id⟩ rfl⟩
  obtain ⟨s, t, hstart, h⟩ := hrun
  exact ⟨s, t, hstart, h.of_restrict,
    (server_notifies_iff rfl hstart h.of_restrict).mpr h⟩

/-- A message that is written at once : nothing is queued. -/
theorem server_does_not_notify : ∃ s t,
    (TcpServer.makeConnection allCallbacks 3).establish = .ok s ∧
    tcpMachine.Run s [.sendInLoop (ascii "ab") (.wrote 2)] t ∧
    t.world.accepted = ascii "ab" ∧ t.world.pendingFunctors = [] ∧
    ¬tcpMachine.AllSteps Notifies s [.sendInLoop (ascii "ab") (.wrote 2)] := by
  refine ⟨_, _, rfl, .snoc .nil (Nat.le_refl 2) rfl, rfl, rfl, fun hall => ?_⟩
  have hstep := @hall [] _ [] _ _ rfl .nil rfl
  have hone := hstep.1 ⟨by decide, rfl, rfl⟩
  cases hone

end Tmuduo
